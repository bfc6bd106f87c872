import RethExt.LiveUpdate
import RethExt.RexCons.Undisturbed

/-!
# A simulator among other clients

The simulator of a client goes the way it would go if no one else had subscribed.  Of a run, the
events are left out that are those of other clients' threads, or of sessions that the client was
not given (`without`); what is left is a run, and the simulator is where it was
(`undisturbed_of_replay`).  So it does not matter how slow the others are, how often they connect,
and whether they lag behind.
-/

set_option autoImplicit false

open RethRex (Codec CanonStateNotification RemoteExEx)
open RexSim (B256 Bytes ExExNotification FetchConfig Ledger Revm)

namespace LiveUpdate

section

variable [Revm] {keccak256 : Bytes → B256} {ι D : Type} [DecidableEq ι]

/-- The session that the event gives to the client. -/
def LiveEvent.given (c : ι) : LiveEvent ι keccak256 → Option ℕ
  | .transport (.thread c' (.connected i)) => if c' = c then some i else none
  | _ => none

/-- The event regards the client: it is none of the other clients and of their sessions. -/
def LiveEvent.regards (c : ι) (own : ℕ → Bool) : LiveEvent ι keccak256 → Bool
  | .transport e => e.regards c own
  | _ => true

/-- The sessions that the client was given. -/
def given (c : ι) (es : List (LiveEvent ι keccak256)) : List ℕ := es.filterMap (LiveEvent.given c)

/-- The events without those of the other clients. -/
def without (c : ι) (es : List (LiveEvent ι keccak256)) : List (LiveEvent ι keccak256) :=
  es.filter (LiveEvent.regards c fun i ↦ decide (i ∈ given c es))

namespace Live

variable {codec : Codec ExExNotification D} {L : Ledger} {c : ι} {own : ℕ → Bool}
  {s s' t : Live ι D keccak256} {e : LiveEvent ι keccak256}

structure Alike (own : ℕ → Bool) (c : ι) (s t : Live ι D keccak256) : Prop where
  sim : t.sim = s.sim
  delivery : s.delivery.Alike own c t.delivery

/-- The sessions that the client is given are its own, and the others are not. -/
def Gives (c : ι) (own : ℕ → Bool) (e : LiveEvent ι keccak256) : Prop :=
  ∀ e', e = .transport e' → e'.Gives c own

/-- **A step that regards the client** can be made without the others. -/
theorem Alike.kept (h : s.Alike own c t) (hregards : e.regards c own = true)
    (hgives : Gives c own e) (hstep : s.step codec L c e = some s') :
    ∃ t', t.step codec L c e = some t' ∧ s'.Alike own c t' := by
  cases e with
  | node change seen =>
    cases seen with
    | false =>
      simp only [step, Bool.false_eq_true, if_false, Option.some.injEq] at hstep ⊢
      subst hstep
      exact ⟨_, rfl, by rw [h.sim], h.delivery⟩
    | true =>
      simp only [step, if_true] at hstep ⊢
      obtain ⟨delivery, hdelivery, rfl⟩ := Option.map_eq_some_iff.mp hstep
      obtain ⟨delivery', hdelivery', halike⟩ := h.delivery.exex_kept hdelivery
      exact ⟨_, Option.map_eq_some_iff.mpr ⟨delivery', hdelivery', rfl⟩, by rw [h.sim], halike⟩
  | exex e =>
    simp only [step] at hstep ⊢
    split at hstep
    · obtain ⟨delivery, hdelivery, rfl⟩ := Option.map_eq_some_iff.mp hstep
      obtain ⟨delivery', hdelivery', halike⟩ := h.delivery.exex_kept hdelivery
      exact ⟨_, Option.map_eq_some_iff.mpr ⟨delivery', hdelivery', rfl⟩, h.sim, halike⟩
    · simp at hstep
  | transport e =>
    simp only [step] at hstep ⊢
    by_cases htakes : takes c e = true
    · simp [htakes] at hstep
    · rw [if_neg htakes] at hstep ⊢
      obtain ⟨delivery, hdelivery, rfl⟩ := Option.map_eq_some_iff.mp hstep
      obtain ⟨delivery', hdelivery', halike⟩ :=
        h.delivery.net_kept hregards (hgives e rfl) hdelivery
      exact ⟨_, Option.map_eq_some_iff.mpr ⟨delivery', hdelivery', rfl⟩, h.sim, halike⟩
  | recv =>
    have hupcoming : t.delivery.watch.net.upcoming c = s.delivery.watch.net.upcoming c := by
      rw [RexCons.Net.upcoming, RexCons.Net.upcoming, h.delivery.watch.net.thread]
    simp only [step, h.sim, hupcoming] at hstep ⊢
    split at hstep
    · obtain ⟨delivery, hdelivery, rfl⟩ := Option.map_eq_some_iff.mp hstep
      obtain ⟨delivery', hdelivery', halike⟩ := h.delivery.net_kept
        (by simp [RexCons.Event.regards]) (by simp [RexCons.Event.Gives]) hdelivery
      exact ⟨_, Option.map_eq_some_iff.mpr ⟨delivery', hdelivery', rfl⟩, rfl, halike⟩
    · simp at hstep
  | sim e =>
    simp only [step, h.sim] at hstep ⊢
    by_cases hown : e.isOwn = true
    · rw [if_pos hown] at hstep ⊢
      obtain ⟨sim, hsim, rfl⟩ := Option.map_eq_some_iff.mp hstep
      exact ⟨{ t with sim := sim }, Option.map_eq_some_iff.mpr ⟨sim, hsim, rfl⟩, rfl, h.delivery⟩
    · simp [hown] at hstep

/-- **Any other step** is not noticed. -/
theorem Alike.other (h : s.Alike own c t) (hregards : e.regards c own = false)
    (hgives : Gives c own e) (hstep : s.step codec L c e = some s') : s'.Alike own c t := by
  cases e with
  | transport e =>
    simp only [step] at hstep
    split at hstep
    · simp at hstep
    · obtain ⟨delivery, hdelivery, rfl⟩ := Option.map_eq_some_iff.mp hstep
      exact ⟨h.sim, h.delivery.other hregards (hgives e rfl) hdelivery⟩
  | node | exex | recv | sim => simp [LiveEvent.regards] at hregards

/-! ## Who is given a session -/

/-- What was given to a client stays so. -/
theorem claimed_of_step {i : ℕ} (h : s.delivery.watch.net.Claimed i)
    (hstep : Step codec L c e s s') : s'.delivery.watch.net.Claimed i := by
  rcases hstep.delivery with hsame | ⟨e', hdelivery, -⟩
  · rwa [hsame]
  · exact RexCons.Delivery.claimed_of_step h hdelivery

/-- A session is given to no one else. -/
theorem gives_of_replay {es : List (LiveEvent ι keccak256)}
    (h : Lts.replay (step codec L c) Lts.anyCheck es s = some s') (he : e ∈ es) :
    Gives c (fun i ↦ decide (i ∈ given c es)) e := by
  rintro e' rfl c' i rfl
  have hmem : i ∈ given c es ↔ LiveEvent.transport (.thread c (.connected i)) ∈ es := by
    constructor
    · intro hi
      obtain ⟨e, he, hgiven⟩ := List.mem_filterMap.mp hi
      rw [LiveEvent.given.eq_def] at hgiven
      split at hgiven
      · rename_i c'' j
        by_cases hc : c'' = c
        · simp only [hc, if_true, Option.some.injEq] at hgiven
          rwa [← hgiven, ← hc]
        · simp [hc] at hgiven
      · simp at hgiven
    · exact fun he ↦ List.mem_filterMap.mpr ⟨_, he, by simp [LiveEvent.given]⟩
  rw [decide_eq_true_iff, hmem]
  constructor
  · intro hmine
    have honce := Lts.eq_of_once (P := fun s : Live ι D keccak256 ↦ s.delivery.watch.net.Claimed i)
      (E := fun e ↦ ∃ c, e = .transport (.thread c (.connected i)))
      (fun e s s' hs hstep ↦ claimed_of_step hs hstep) ?_ h he hmine ⟨c', rfl⟩ ⟨c, rfl⟩
    · simpa using honce
    · rintro _ s s' ⟨c'', rfl⟩ hstep
      simp only [step, takes, Bool.false_eq_true, if_false] at hstep
      obtain ⟨delivery, hdelivery, rfl⟩ := Option.map_eq_some_iff.mp hstep
      exact RexCons.Net.claimed_of_connected
        (RexCons.Watch.exists_net_of_step (RexCons.Delivery.net_of_step hdelivery).2).1
  · rintro rfl
    exact he

/-- The run without the others. -/
theorem exists_replay_without {fetch : FetchConfig} {head : ℕ × B256}
    {es : List (LiveEvent ι keccak256)}
    (h : Lts.replay (step codec L c) Lts.anyCheck es (new ι D keccak256 fetch head) = some s) :
    ∃ t, Lts.replay (step codec L c) Lts.anyCheck (without c es)
        (new ι D keccak256 fetch head) = some t ∧
      s.Alike (fun i ↦ decide (i ∈ given c es)) c t := by
  have hstart : (new ι D keccak256 fetch head).Alike (fun i ↦ decide (i ∈ given c es)) c
      (new ι D keccak256 fetch head) := ⟨rfl, rfl, .empty _ c, rfl⟩
  exact Lts.exists_replay_filter
    (fun e he hregards s s' t hR hstep ↦ hR.kept hregards (gives_of_replay h he) hstep)
    (fun e he hregards s s' t hR hstep ↦ hR.other hregards (gives_of_replay h he) hstep) h hstart

end Live

/-- **What a client's simulator has to do with the other clients.** -/
structure Live.Undisturbed (codec : Codec ExExNotification D) (L : Ledger) (c : ι)
    (start : Live ι D keccak256) (es : List (LiveEvent ι keccak256)) (s : Live ι D keccak256) :
    Prop where
  /-- Without them there is a run in which the ExEx has sent the same, the client has got the same,
  and its simulator is in the same state. -/
  alone : ∃ t, Lts.replay (step codec L c) Lts.anyCheck (without c es) start = some t ∧
    t.sim = s.sim ∧ t.delivery.exex = s.delivery.exex ∧
    t.delivery.watch.logs c = s.delivery.watch.logs c ∧
    ∀ c' ≠ c, t.delivery.watch.net.threads c' = none
  /-- So the simulator depends on the events that regard its client alone. -/
  depends : ∀ es' s', Lts.replay (step codec L c) Lts.anyCheck es' start = some s' →
    without c es' = without c es → s'.sim = s.sim ∧
      s'.delivery.watch.logs c = s.delivery.watch.logs c

/-- **No client disturbs another**, in any run of the node, the server and its clients: the
simulator of a client is where it would be if there were no other client. -/
theorem Live.undisturbed_of_replay {codec : Codec ExExNotification D} {L : Ledger} {c : ι}
    {fetch : FetchConfig} {head : ℕ × B256} {es : List (LiveEvent ι keccak256)}
    {s : Live ι D keccak256}
    (h : Lts.replay (step codec L c) Lts.anyCheck es (new ι D keccak256 fetch head) = some s) :
    Undisturbed codec L c (new ι D keccak256 fetch head) es s := by
  obtain ⟨t, ht, halike⟩ := exists_replay_without h
  refine ⟨⟨t, ht, halike.sim, halike.delivery.exex, halike.delivery.watch.logs,
    halike.delivery.watch.net.alone⟩, fun es' s' h' hsame ↦ ?_⟩
  obtain ⟨t', ht', halike'⟩ := exists_replay_without h'
  rw [hsame] at ht'
  obtain rfl : t = t' := Option.some.inj (ht.symm.trans ht')
  exact ⟨halike'.sim.symm.trans halike.sim,
    halike'.delivery.watch.logs.symm.trans halike.delivery.watch.logs⟩

end

/-! ## Two clients -/

namespace Crowd

open RexSim.Branches (a1 a2 keccak ledger)

open scoped RexSim.Revm

abbrev Event := LiveEvent Bool keccak

/-- The client gets a session. -/
def connects (c : Bool) (i : ℕ) : List Event :=
  [.transport (.spawn c), .transport .accept, .transport (.thread c (.connected i))]

/-- The block `11` is on its way to the client `true` when the connection of the other is lost. -/
def events : List Event :=
  connects false 0 ++ connects true 1 ++
    [.node (.commit a1) true, .transport (.session 0 .recv), .transport (.session 1 .recv),
      .transport (.session 1 .send), .transport (.session 0 .drop),
      .transport (.session 1 .forward), .transport (.thread false .failed),
      .transport (.thread true .message), .transport (.thread true .handOver), .recv,
      .node (.commit a2) true]

def start : Live Bool ExExNotification keccak := .new Bool ExExNotification keccak {} (0, 10)

/-- Six events are those of the other client. -/
example : events.length = 17 ∧ (without true events).length = 12 := by decide +kernel

theorem isSome_replay : (Lts.replay (Live.step RexCons.Reconnecting.asIs ledger true) Lts.anyCheck
    events start).isSome = true := by
  decide +kernel

def final : Live Bool ExExNotification keccak :=
  (Lts.replay (Live.step RexCons.Reconnecting.asIs ledger true) Lts.anyCheck events start).get
    isSome_replay

end Crowd

open scoped RexSim.Revm in
open Crowd in
open RexSim.Branches (ledger) in
/-- The run with another client. -/
theorem Live.undisturbed_of_replay_crowd :
    Undisturbed RexCons.Reconnecting.asIs ledger true start events final :=
  Live.undisturbed_of_replay (Option.some_get isSome_replay).symm

end LiveUpdate
