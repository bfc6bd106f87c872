import RethExt.RexSim.Changeset
import RethExt.Lib.Lts

/-!
# The ExEx

`remote_exex` waits on two streams of the node: the changes of the canonical chain, which it
broadcasts to the clients, and the notifications of the ExEx, of which it only reports to the node
that their blocks are finished.  It stops with the second stream, and goes on without the first.

`notifications` and `finishedHeights` are what it has sent so far on either way.  The broadcast has
no notification that the chain was reverted, for a change of the canonical chain is a commit or a
reorg: `replay_eq`.
-/

set_option autoImplicit false

open RexSim (B256 Chain ExExNotification Revm)

namespace RethRex

variable [Revm]

/-- A change of the canonical chain. -/
inductive CanonStateNotification
  | commit (new : Chain)
  | reorg (old new : Chain)

/-- What is broadcast of a change. -/
def CanonStateNotification.exex : CanonStateNotification → ExExNotification
  | .commit new => .chainCommitted new
  | .reorg old new => .chainReorged old new

/-- No change of the canonical chain is broadcast as a revert. -/
theorem CanonStateNotification.exex_ne_reverted (change : CanonStateNotification) (old : Chain) :
    change.exex ≠ .chainReverted old := by
  cases change <;> nofun

/-- `ExExNotification::committed_chain`. -/
def committedChain : ExExNotification → Option Chain
  | .chainCommitted new => some new
  | .chainReorged _ new => some new
  | .chainReverted _ => none

def numHash (chain : Chain) : ℕ × B256 := (chain.tip.number, chain.tip.hash)

structure RemoteExEx where
  running : Bool := true
  /-- What was broadcast. -/
  notifications : List ExExNotification := []
  /-- What the node was told to be finished. -/
  finishedHeights : List (ℕ × B256)

inductive RemoteEvent
  /-- `canon_stream.next` returns. -/
  | canon (change : Option CanonStateNotification)
  /-- `try_next` returns a notification; the node takes a finished height or not. -/
  | exex (n : ExExNotification) (taken : Bool)
  /-- `try_next` returns `Ok(None)`. -/
  | ended
  /-- `try_next` returns an error. -/
  | failed

namespace RemoteExEx

/-- The ExEx when it is installed: the head of the node is finished. -/
def install (head : ℕ × B256) : RemoteExEx := { finishedHeights := [head] }

def step (x : RemoteExEx) (e : RemoteEvent) : Option RemoteExEx :=
  if x.running then
    match e with
    | .canon (some change) => some { x with notifications := x.notifications ++ [change.exex] }
    | .canon none => some x
    | .exex n taken => match committedChain n with
      | some chain =>
        if taken then some { x with finishedHeights := x.finishedHeights ++ [numHash chain] }
        else some { x with running := false }
      | none => some x
    | .ended => some { x with running := false }
    | .failed => some { x with running := false }
  else none

/-- What an event broadcasts. -/
def broadcast : RemoteEvent → Option ExExNotification
  | .canon (some change) => some change.exex
  | _ => none

/-- What an event reports as finished. -/
def finished : RemoteEvent → Option (ℕ × B256)
  | .exex n true => (committedChain n).map numHash
  | _ => none

variable {x x' : RemoteExEx} {e : RemoteEvent}

/-- **The step lemma.** -/
theorem step_eq (h : x.step e = some x') :
    x'.notifications = x.notifications ++ (broadcast e).toList ∧
      x'.finishedHeights = x.finishedHeights ++ (finished e).toList := by
  rw [step.eq_def] at h
  split at h
  · cases e with
    | canon change => cases change <;> cases h <;> simp [broadcast, finished]
    | exex n taken =>
      cases hchain : committedChain n <;> cases taken <;> simp [hchain] at h <;> subst h <;>
        simp [broadcast, finished, hchain]
    | ended | failed => cases h; simp [broadcast, finished]
  · simp at h

/-- **What the ExEx sends**: the changes of the canonical chain to the clients, and to the node the
tips of the chains that its notifications commit, each once and in its order. -/
theorem replay_eq {es : List RemoteEvent}
    (h : Lts.replay step Lts.anyCheck es x = some x') :
    x'.notifications = x.notifications ++ es.filterMap broadcast ∧
      x'.finishedHeights = x.finishedHeights ++ es.filterMap finished := by
  induction es generalizing x with
  | nil =>
    cases h
    simp
  | cons e es ih =>
    rw [Lts.replay] at h
    split at h
    · obtain ⟨y, hy, hrest⟩ := Option.bind_eq_some_iff.mp h
      obtain ⟨hnotifications, hfinished⟩ := step_eq hy
      obtain ⟨hnotifications', hfinished'⟩ := ih hrest
      rw [hnotifications', hfinished', hnotifications, hfinished]
      constructor
      · cases hbroadcast : broadcast e <;> simp [hbroadcast]
      · cases hfin : finished e <;> simp [hfin]
    · simp at h

end RemoteExEx

end RethRex
