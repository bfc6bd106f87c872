import RethExt.RexSim.Provenance
import RethExt.RexSim.Quiescence

/-!
# Every notification is applied once

The changeset manager takes the notifications out of a queue and loads the snapshot at the beginning
of a round, and swaps the next one in at its end.  In between it waits for four caches, while the
node and the readers go on.  Nothing of that comes between two rounds: `Chained` is the fold of
`handleNotification` over a list of notifications, and what a run has published is such a fold, over
exactly the notifications it was told, in their order (`Sys.applied_of_replay`).
-/

set_option autoImplicit false

namespace RexSim

section

variable [Revm]

/-- **Rounds one after the other**, with the snapshot and the generation they lead to: each starts
from what the one before has left. -/
inductive Chained : List Publication → StateSnapshot → ℕ → Prop
  | start : Chained [] {} 0
  | next {ps : List Publication} {current : StateSnapshot} {generation : ℕ}
      (h : Chained ps current generation) (caches : Caches) (n : ExExNotification) :
      Chained (ps ++ [⟨current, generation, caches, n⟩])
        (handleNotification current generation caches n).snapshot (generation + 1)

namespace Chained

variable {ps : List Publication} {current : StateSnapshot} {generation : ℕ}

theorem length_eq (h : Chained ps current generation) : ps.length = generation := by
  induction h with
  | start => rfl
  | next _ caches n ih => rw [List.length_append, ih, List.length_singleton]

end Chained

namespace Sys

variable {keccak256 : Bytes → B256} {L : Ledger} {s s' : Sys keccak256} {e : Event keccak256}

/-- What a run has published is a sequence of rounds. -/
theorem chained_of_run {ok : Sys keccak256 → Event keccak256 → Prop} {fetch : FetchConfig}
    {tip : B256} (h : Lts.Run (Step L) ok (.new keccak256 fetch tip) s) :
    Chained s.published s.snapshot s.generation := by
  induction h with
  | refl => exact .start
  | @tail s s' hrun hlast ih =>
    obtain ⟨e, hs, -⟩ := hlast
    cases hs.transition with
    | @publish job caches hjob hcaches =>
      -- nothing else has been swapped in since the job loaded its snapshot
      have hcurrent : job.current = s.snapshot := (fed_of_run hrun).current job hjob
      have hnext := ih.next caches job.notification
      rw [← hcurrent] at hnext
      exact hnext
    | _ => exact ih

/-! ## What is told is applied -/

/-- The notification that an event puts in the queue. -/
def queued : Event keccak256 → Option ExExNotification
  | .node n false => some n
  | _ => none

/-- The notifications that were applied, the one in hand, and those that wait. -/
def taken (s : Sys keccak256) : List ExExNotification :=
  s.published.map Publication.notification ++ (s.job.map Job.notification).toList ++ s.rx

/-- **The step lemma**: a notification goes from the queue into the hand and on, and what is told is
put at the end. -/
theorem Step.taken_eq (hs : Step L e s s') : s'.taken = s.taken ++ (queued e).toList := by
  cases hs.transition with
  | node n lost => cases lost <;> simp [taken, queued]
  | recv hjob hrx => simp [taken, queued, hjob, hrx]
  | requestFlush hjob | handOver hjob => simp [taken, queued, hjob]
  | publish hjob => simp [taken, queued, publish, publication, hjob]
  | _ => simp [taken, queued]

/-- **What becomes of the notifications** that the events `es` have told the client. -/
structure Applied (es : List (Event keccak256)) (s : Sys keccak256) : Prop where
  /-- The published snapshots are those of rounds one after the other. -/
  rounds : Chained s.published s.snapshot s.generation
  /-- Every notification that was told has been applied once, is in hand or waits, all in their
  order. -/
  taken : s.published.map Publication.notification ++ (s.job.map Job.notification).toList ++ s.rx =
    es.filterMap queued
  /-- At rest all have been applied. -/
  quiet : s.Quiet → s.published.map Publication.notification = es.filterMap queued

theorem taken_of_replay {es : List (Event keccak256)}
    (h : Lts.replay (step L) Lts.anyCheck es s = some s') :
    s'.taken = s.taken ++ es.filterMap queued := by
  induction es generalizing s with
  | nil =>
    cases h
    exact (List.append_nil _).symm
  | cons e es ih =>
    rw [Lts.replay] at h
    split at h
    · obtain ⟨t, ht, hrest⟩ := Option.bind_eq_some_iff.mp h
      have hone := Step.taken_eq (L := L) (e := e) (s := s) ht
      rw [ih hrest, hone, List.append_assoc]
      cases hqueued : queued e <;> simp [hqueued]
    · simp at h

end Sys

/-- **Every notification is applied once and in order**, in every run of the client: whatever comes
in between, the snapshots it publishes are the fold of the notifications it was told. -/
theorem Sys.applied_of_replay {keccak256 : Bytes → B256} {L : Ledger} {fetch : FetchConfig}
    {tip : B256} {es : List (Event keccak256)} {s : Sys keccak256}
    (h : Lts.replay (Sys.step L) Lts.anyCheck es (.new keccak256 fetch tip) = some s) :
    s.Applied es := by
  have htaken : s.taken = [] ++ es.filterMap queued := Sys.taken_of_replay h
  have hrun : Lts.Run (Sys.Step L) Lts.anyEvent (.new keccak256 fetch tip) s :=
    Lts.Run.of_replay h fun _ _ _ ↦ trivial
  refine ⟨Sys.chained_of_run hrun, htaken, fun hquiet ↦ ?_⟩
  simpa [Sys.taken, hquiet.job, hquiet.rx] using htaken

end

open scoped Revm in
open EarlyRead Branches in
/-- The notifications of a run that reads and commits. -/
theorem Sys.applied_of_replay_earlyRead : EarlyRead.final.Applied EarlyRead.events :=
  Sys.applied_of_replay (Option.some_get EarlyRead.isSome_replay).symm

end RexSim
