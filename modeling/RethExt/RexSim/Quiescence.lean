import RethExt.RexSim.AnyNode
import RethExt.RexSim.Progress

/-!
# The client comes to rest

The managers, the changeset manager and the readers together.  What is left to do is the sum of what
is left to the managers, with a weight for each notification in the queue, for the flushes a round
still has to ask for and for each read: `Sys.left_of_step`.  The one thing a manager gives another
to do is a registration, and the completion that brings it has paid for it.

That the client does not stop before it is done is a matter of the flushes.  The changeset manager
waits for four caches, and each manager hands one over only when it was asked: `Flushing` says of
every manager that it has not been asked yet, is about to hand its cache over, or has done so, so
that the wait of a round ends (`exists_step_of_not_quiet`).
-/

set_option autoImplicit false

namespace RexSim

section

variable [Revm] {keccak256 : Bytes → B256}

/-! ## What is left to the managers -/

namespace FetchManager

omit [Revm] in
/-- An account that completes brings one registration at most, and nothing else does. -/
theorem length_ctx_le {m m' : FetchManager (accountSpec keccak256)}
    {e : ManagerEvent (accountSpec keccak256)} (h : m.Transition e m') :
    m'.ctx.length ≤ m.ctx.length + (e.spent - 1) := by
  have happly : ∀ (rest : List (FetchDone (accountSpec keccak256))) done,
      (applyCompletion { m with completionRx := rest } done).ctx.length ≤ m.ctx.length + 1 := by
    rintro rest ⟨request, result, epoch, respondTo⟩
    rcases result with _ | _ | info <;> simp [applyCompletion, ctxAfter]
  have hside : m.drainSide.ctx = m.ctx := by
    rcases hrx : m.sideRx with _ | ⟨msg, rest⟩
    · simp [drainSide, hrx]
    · exact msg.elim
  cases h with
  | drain | recvDone => exact happly _ _
  | recvSide | recvFetch => exact (congrArg List.length hside).le
  | @serve msg hphase =>
    rw [field_serve FetchManager.ctx (fun _ _ _ _ ↦ rfl) (fun _ _ _ ↦ rfl) m msg]
    exact Nat.le_add_right _ _
  | _ => exact Nat.le_add_right _ _

end FetchManager

namespace FetchLayer

variable {L : Ledger} {s s' : FetchLayer keccak256}

/-- What is left to the four managers. -/
def left (s : FetchLayer keccak256) : ℕ :=
  (s.managers .account).left 3 + (s.managers .code).left 3 + (s.managers .storage).left 3 +
    (s.managers .blockHash).left 3

/-- **The step lemma of the layer**: a step of a manager takes one off what is left to all, also
when it brings another manager a registration. -/
theorem left_setManager {k : FetchKind} {e : ManagerEvent (spec keccak256 k)}
    {m : FetchManager (spec keccak256 k)} (h : FetchManager.Step e (s.managers k) m) :
    (s.setManager k m).left + min e.spent 1 ≤ s.left + e.gained 3 := by
  have hone := FetchManager.left_of_step (bounded_spec keccak256 k) h
  cases k with
  | account =>
    have hctx := FetchManager.length_ctx_le h.transition
    have hcode : ((s.setManager .account m).managers .code).left 3 =
        (s.managers .code).left 3 + (m.ctx.length - (s.managers .account).ctx.length) := by
      rw [setManager_code]
      simp only [FetchManager.left, Function.update_self, ne_eq, reduceCtorEq, not_false_eq_true,
        Function.update_of_ne, List.length_append, List.length_drop]
      omega
    simp only [left, hcode, setManager_managers, ne_eq, reduceCtorEq, not_false_eq_true,
      Function.update_self, Function.update_of_ne]
    omega
  | code | storage | blockHash =>
    simp only [left, setManager_code_of_ne, setManager_managers, ne_eq, reduceCtorEq,
      not_false_eq_true, Function.update_self, Function.update_of_ne]
    omega

/-- What the side channel does not matter to. -/
theorem setManager_congr {β : Type*} (f : (k : FetchKind) → FetchManager (spec keccak256 k) → β)
    (hside : ∀ m side, f .code { m with sideRx := side } = f .code m) {k : FetchKind}
    (m : FetchManager (spec keccak256 k)) (j : FetchKind) :
    f j ((s.setManager k m).managers j) = f j (Function.update s.managers k m j) := by
  by_cases hj : j = .code
  · subst hj
    rw [setManager_code]
    exact hside _ _
  · rw [setManager_managers hj]

end FetchLayer

/-! ## The flushes of a round -/

namespace FetchManager

variable {S : FetchSpec} {m m' : FetchManager S} {e : ManagerEvent S}

/-- The flushes that were asked for and are not handed over. -/
def owed (m : FetchManager S) : ℕ :=
  m.flushRx.toNat + match m.phase with
    | .draining => 1
    | _ => 0

/-- The caches an event hands over. -/
def handOvers : ManagerEvent S → ℕ
  | .handOver => 1
  | _ => 0

/-- The caches an event asks for. -/
def requests : ManagerEvent S → ℕ
  | .requestFlush => 1
  | _ => 0

omit [Revm] in
theorem owed_lookup {msg : FetchMessage S} (h : m.phase = .handle msg) :
    (m.lookup msg).owed = m.owed := by
  rw [lookup]
  split <;> simp only [owed, h]

omit [Revm] in
/-- Every flush that is asked for is handed over once. -/
theorem Transition.owed_eq (h : m.Transition e m') :
    m'.owed + handOvers e = m.owed + requests e := by
  cases h with
  | requestFlush hflush =>
    simp only [owed, handOvers, requests, hflush, Bool.toNat_true, Bool.toNat_false]
    omega
  | recvFlush hphase hflush => simp [owed, handOvers, requests, hphase, hflush]
  | handOver hphase => simp [owed, handOvers, requests, hphase, afterFlush]
  | @serve msg hphase =>
    have hretag : (m.retag msg.request).owed = m.owed := m.retag_rule msg.request rfl fun _ ↦ rfl
    have hlookup := owed_lookup (m := m.retag msg.request) (by rw [phase_retag, hphase])
    simp only [handOvers, requests, hlookup, hretag]
  | recvFetch hphase hmsg => simp [owed, handOvers, requests, hphase, drainSide]
  | spawn hphase hpermits => simp [owed, handOvers, requests, hphase, spawnFetch]
  | tryNext hphase hmsg | leave hphase hmsg => simp [owed, handOvers, requests, hphase]
  | _ => rfl

end FetchManager

namespace FetchLayer

variable {L : Ledger} {s s' : FetchLayer keccak256}

theorem owed_setManager_self {k : FetchKind} (m : FetchManager (spec keccak256 k)) :
    ((s.setManager k m).managers k).owed = m.owed := by
  rw [setManager_congr (fun _ m ↦ m.owed) (fun _ _ ↦ rfl), Function.update_self]

theorem owed_setManager_of_ne {j k : FetchKind} (hj : j ≠ k) (m : FetchManager (spec keccak256 k)) :
    ((s.setManager k m).managers j).owed = (s.managers j).owed := by
  rw [setManager_congr (fun _ m ↦ m.owed) (fun _ _ ↦ rfl), Function.update_of_ne hj]

/-- An event of one manager is its step. -/
theorem Step.exists_setManager {k : FetchKind} {e : ManagerEvent (spec keccak256 k)}
    (h : Step L (.manager k e) s s') :
    ∃ m, FetchManager.Step e (s.managers k) m ∧ s' = s.setManager k m := by
  replace h : s.step L (.manager k e) = some s' := h
  rw [step] at h
  split at h
  · obtain ⟨m, hm, rfl⟩ := Option.map_eq_some_iff.mp h
    exact ⟨m, hm, rfl⟩
  · simp at h

theorem Step.exists_setManager_answer {k : FetchKind} {i : ℕ} {q : Query} {fails : Bool}
    (h : Step L (.answer k i q fails) s s') :
    ∃ m a, FetchManager.Step (.answer i q a) (s.managers k) m ∧ s' = s.setManager k m := by
  obtain ⟨m, hm, rfl⟩ := Option.map_eq_some_iff.mp h
  exact ⟨m, _, hm, rfl⟩

/-- A step of a manager that neither asks for its cache nor hands it over. -/
theorem owed_setManager {k : FetchKind} {e : ManagerEvent (spec keccak256 k)}
    {m : FetchManager (spec keccak256 k)} (h : FetchManager.Step e (s.managers k) m)
    (hhand : FetchManager.handOvers e = 0) (hrequest : FetchManager.requests e = 0)
    (j : FetchKind) : ((s.setManager k m).managers j).owed = (s.managers j).owed := by
  by_cases hj : j = k
  · subst hj
    have howed := h.transition.owed_eq
    rw [owed_setManager_self]
    omega
  · exact owed_setManager_of_ne hj m

end FetchLayer

namespace Sys

variable {L : Ledger} {s s' : Sys keccak256} {e : Event keccak256}

/-- **Where the flushes of a round are.**  Between two rounds no flush is under way; in a round
every manager is still to be asked, owes its cache, or has handed it over. -/
structure Flushing (s : Sys keccak256) : Prop where
  idle : s.job = none → ∀ k, (s.layer.managers k).owed = 0
  asked : ∀ job, s.job = some job → ∀ k,
    (s.layer.managers k).owed + job.pending.count k + (job.handed k).isSome.toNat = 1

theorem flushing_new (keccak256 : Bytes → B256) (fetch : FetchConfig) (tip : B256) :
    (new keccak256 fetch tip).Flushing where
  idle _ _ := rfl
  asked _ h := by cases h

/-- **The step lemma.** -/
theorem Flushing.step (h : s.Flushing) (hs : Step L e s s') : s'.Flushing := by
  -- a step of the managers that leaves the flushes alone
  have hlayer : ∀ {layer : FetchLayer keccak256},
      (∀ k, (layer.managers k).owed = (s.layer.managers k).owed) →
        Flushing { s with layer := layer } := fun howed ↦
    { idle := fun hjob k ↦ (howed k).trans (h.idle hjob k)
      asked := fun job hjob k ↦ by rw [howed k]; exact h.asked job hjob k }
  cases hs.transition with
  | node | load | served => exact ⟨h.idle, h.asked⟩
  | recv hjob hrx =>
    refine ⟨nofun, ?_⟩
    rintro _ ⟨⟩ k
    simp only [h.idle hjob k]
    cases k <;> rfl
  | @requestFlush job k rest layer hjob hpending hstep =>
    obtain ⟨m, hm, rfl⟩ := hstep.exists_setManager
    refine ⟨nofun, ?_⟩
    rintro _ ⟨⟩ j
    have hasked := h.asked job hjob j
    rw [hpending, List.count_cons] at hasked
    by_cases hj : j = k
    · subst hj
      have howed : m.owed + 0 = (s.layer.managers j).owed + 1 := hm.transition.owed_eq
      simp only [FetchLayer.owed_setManager_self]
      simp only [beq_self_eq_true, if_true] at hasked
      omega
    · simp only [FetchLayer.owed_setManager_of_ne hj]
      simpa [Ne.symm hj] using hasked
  | @handOver job k layer hjob hstep =>
    obtain ⟨m, hm, rfl⟩ := hstep.exists_setManager
    refine ⟨nofun, ?_⟩
    rintro _ ⟨⟩ j
    have hasked := h.asked job hjob j
    by_cases hj : j = k
    · subst hj
      have howed : m.owed + 1 = (s.layer.managers j).owed + 0 := hm.transition.owed_eq
      simp only [FetchLayer.owed_setManager_self, Function.update_self, Option.isSome_some,
        Bool.toNat_true]
      omega
    · simp only [FetchLayer.owed_setManager_of_ne hj, Function.update_of_ne hj]
      exact hasked
  | @publish job caches hjob hcaches =>
    refine ⟨fun _ k ↦ ?_, nofun⟩
    have hasked := h.asked job hjob k
    rw [Job.handed_of_caches hcaches k] at hasked
    simp only [Option.isSome_some, Bool.toNat_true] at hasked
    change (s.layer.managers k).owed = 0
    omega
  | @manager k e layer hinternal hstep =>
    obtain ⟨m, hm, rfl⟩ := hstep.exists_setManager
    exact hlayer (FetchLayer.owed_setManager hm (by cases e <;> first | rfl | cases hinternal)
      (by cases e <;> first | rfl | cases hinternal))
  | answer hstep =>
    obtain ⟨m, a, hm, rfl⟩ := hstep.exists_setManager_answer
    exact hlayer (FetchLayer.owed_setManager hm rfl rfl)
  | sent hread houtcome hstep =>
    obtain ⟨m, hm, rfl⟩ := hstep.exists_setManager
    have hflushing := hlayer (FetchLayer.owed_setManager hm rfl rfl)
    exact ⟨hflushing.idle, hflushing.asked⟩

end Sys

namespace Job

/-- What is left to do for a round: each cache it still asks for is handed over, and it ends. -/
def left (job : Job keccak256) : ℕ := 3 * job.pending.length + 1

end Job

namespace Event

/-- The event comes from outside: the node goes on, or a reader comes. -/
def isInput : Event keccak256 → Bool
  | .node _ _ => true
  | .load _ _ => true
  | _ => false

/-- What an input gives the client to do. -/
def gained : Event keccak256 → ℕ
  | .node _ lost => if lost then 0 else 14
  | .load _ _ => 12
  | _ => 0

theorem gained_of_isInput {e : Event keccak256} (h : e.isInput = false) : e.gained = 0 := by
  cases e <;> simp [isInput, gained] at h ⊢

end Event

namespace Sys

variable {L : Ledger} {s s' : Sys keccak256} {e : Event keccak256}

/-- **What is left to do.** -/
def left (s : Sys keccak256) : ℕ :=
  s.layer.left + 14 * s.rx.length + (s.job.map Job.left).getD 0 + 12 * s.loaded.length

/-- **The step lemma**: a step of the client takes at least one off what is left, and only the node
and the readers add to it. -/
theorem left_of_step (hs : Step L e s s') :
    s'.left + (if e.isInput then 0 else 1) ≤ s.left + e.gained := by
  cases hs.transition with
  | node n lost =>
    cases lost with
    | true =>
      simp only [left, Event.isInput, Event.gained, FetchLayer.left, if_true]
      omega
    | false =>
      simp only [left, Event.isInput, Event.gained, FetchLayer.left, if_true, Bool.false_eq_true,
        if_false, List.length_append, List.length_singleton]
      omega
  | recv hjob hrx =>
    simp only [left, Event.isInput, Event.gained, Bool.false_eq_true, if_false, hjob, hrx,
      Option.map_none, Option.map_some, Option.getD_none, Option.getD_some, Job.left,
      List.length_cons, List.length_nil]
    omega
  | @requestFlush job k rest layer hjob hpending hstep =>
    obtain ⟨m, hm, rfl⟩ := hstep.exists_setManager
    have hlayer := FetchLayer.left_setManager hm
    simp only [ManagerEvent.spent, ManagerEvent.gained] at hlayer
    simp only [left, Event.isInput, Event.gained, Bool.false_eq_true, if_false, hjob,
      Option.map_some, Option.getD_some, Job.left, hpending, List.length_cons]
    omega
  | @handOver job k layer hjob hstep =>
    obtain ⟨m, hm, rfl⟩ := hstep.exists_setManager
    have hlayer := FetchLayer.left_setManager hm
    simp only [ManagerEvent.spent, ManagerEvent.gained] at hlayer
    simp only [left, Event.isInput, Event.gained, Bool.false_eq_true, if_false, hjob,
      Option.map_some, Option.getD_some, Job.left]
    omega
  | publish hjob hcaches =>
    simp only [left, Event.isInput, Event.gained, Bool.false_eq_true, if_false, publish, hjob,
      Option.map_none, Option.map_some, Option.getD_none, Option.getD_some, Job.left]
    omega
  | @manager k e layer hinternal hstep =>
    obtain ⟨m, hm, rfl⟩ := hstep.exists_setManager
    have hlayer := FetchLayer.left_setManager hm
    have hinput : e.isInput = false := by cases e <;> first | rfl | cases hinternal
    have hspent := ManagerEvent.one_le_spent hinput
    have hgained := ManagerEvent.gained_of_isInput 3 hinput
    simp only [left, Event.isInput, Event.gained, Bool.false_eq_true, if_false]
    omega
  | answer hstep =>
    obtain ⟨m, a, hm, rfl⟩ := hstep.exists_setManager_answer
    have hlayer := FetchLayer.left_setManager hm
    simp only [ManagerEvent.spent, ManagerEvent.gained] at hlayer
    simp only [left, Event.isInput, Event.gained, Bool.false_eq_true, if_false]
    omega
  | load k key =>
    simp only [left, Event.isInput, Event.gained, if_true, List.length_append,
      List.length_singleton]
    omega
  | @served i read result hread houtcome =>
    obtain ⟨hi, -⟩ := List.getElem?_eq_some_iff.mp hread
    simp only [left, Event.isInput, Event.gained, Bool.false_eq_true, if_false,
      List.length_eraseIdx_of_lt hi]
    omega
  | @sent i read req layer hread houtcome hstep =>
    obtain ⟨hi, -⟩ := List.getElem?_eq_some_iff.mp hread
    obtain ⟨m, hm, rfl⟩ := hstep.exists_setManager
    have hlayer := FetchLayer.left_setManager hm
    simp only [ManagerEvent.spent, ManagerEvent.gained] at hlayer
    simp only [left, Event.isInput, Event.gained, Bool.false_eq_true, if_false,
      List.length_eraseIdx_of_lt hi]
    omega

/-! ## At rest -/

/-- Nothing waits, and nothing is under way but for tasks that have panicked. -/
structure Quiet (s : Sys keccak256) : Prop where
  managers : ∀ k, (s.layer.managers k).Quiet
  rx : s.rx = []
  job : s.job = none
  loaded : s.loaded = []

/-- The client takes the step by itself, and which queries fail is up to `fails`. -/
def Goes (fails : Query → Bool) (_ : Sys keccak256) : Event keccak256 → Prop
  | .node _ _ => False
  | .load _ _ => False
  | .answer _ _ q f => f = fails q
  | _ => True

theorem Goes.isInput {fails : Query → Bool} (h : Goes fails s e) : e.isInput = false := by
  cases e <;> first | rfl | cases h

/-- What every manager keeps account of, in any run. -/
structure Accounted (fetch : FetchConfig) (k : FetchKind) (m : FetchManager (spec keccak256 k)) :
    Prop where
  permits : m.PermitsExact ((spec keccak256 k).permits fetch)
  calls : m.CallsDetermined
  tickets : m.Ticketed
  inflight : m.InflightExact
  grounded : m.Grounded

theorem accounted_new (fetch : FetchConfig) (tip : B256) (k : FetchKind) :
    Accounted fetch k ((new keccak256 fetch tip).layer.managers k) :=
  ⟨rfl, nofun, rfl, rfl, FetchManager.grounded_new _ _ fetch⟩

theorem Accounted.step {fetch : FetchConfig} {k : FetchKind}
    {m m' : FetchManager (spec keccak256 k)} {e : ManagerEvent (spec keccak256 k)}
    (h : Accounted fetch k m) (hs : FetchManager.Step e m m') : Accounted fetch k m' where
  permits := hs.transition.permitsExact h.permits
  calls := hs.transition.callsDetermined (determined_spec keccak256 k) h.calls
  tickets := hs.transition.ticketed h.tickets
  inflight := hs.transition.inflightExact h.inflight
  grounded := h.grounded.step hs

/-- A step leaves the managers alone, or is a step of one of them. -/
theorem Step.advances (hs : Step L e s s') :
    s.layer.Advances s'.layer ∨ s'.layer.managers = s.layer.managers := by
  cases hs.transition with
  | requestFlush _ _ hlayer | handOver _ hlayer | manager _ hlayer | answer hlayer
  | sent _ _ hlayer => exact hlayer.advances
  | _ => exact Or.inr rfl

theorem accounted_of_run {ok : Sys keccak256 → Event keccak256 → Prop} {fetch : FetchConfig}
    {tip : B256} (h : Lts.Run (Step L) ok (.new keccak256 fetch tip) s) (k : FetchKind) :
    Accounted fetch k (s.layer.managers k) := by
  induction h generalizing k with
  | refl => exact accounted_new fetch tip k
  | tail _ hlast ih =>
    obtain ⟨e, hs, -⟩ := hlast
    rcases hs.advances with hadvances | heq
    · exact hadvances.preserves (P := Accounted fetch) (fun _ _ _ _ h hm ↦ h.step hm)
        (fun _ _ h ↦ ⟨h.permits, h.calls, h.tickets, h.inflight, { h.grounded with }⟩) ih k
    · rw [heq]
      exact ih k

theorem flushing_of_run {ok : Sys keccak256 → Event keccak256 → Prop} {fetch : FetchConfig}
    {tip : B256} (h : Lts.Run (Step L) ok (.new keccak256 fetch tip) s) : s.Flushing :=
  h.invariant (fun _ _ _ hinv hs _ ↦ hinv.step hs) (flushing_new keccak256 fetch tip)

/-! ## No deadlock -/

theorem exists_goes_of_isSome {fails : Query → Bool} (e : Event keccak256)
    (hsome : (s.step L e).isSome = true) (hgoes : Goes fails s e) :
    ∃ e s', Step L e s s' ∧ Goes fails s e := by
  obtain ⟨s', hstep⟩ := Option.isSome_iff_exists.mp hsome
  exact ⟨e, s', hstep, hgoes⟩

/-- A step that a manager can take by itself is a step of the client: when it is to hand over its
cache, a round waits for it. -/
theorem exists_goes_of_manager (hflush : s.Flushing) {k : FetchKind} (fails : Query → Bool)
    {e : ManagerEvent (spec keccak256 k)} {m : FetchManager (spec keccak256 k)}
    (hm : FetchManager.Step e (s.layer.managers k) m)
    (hgoes : FetchManager.Goes (fun q ↦ if fails q then .error .rpc else L.answer s.layer.tip q)
      (s.layer.managers k) e) : ∃ e s', Step L e s s' ∧ Goes fails s e := by
  replace hm : (s.layer.managers k).step e = some m := hm
  by_cases hinternal : e.isInternal = true
  · have hlocal : e.isLocal = true := by cases e <;> first | rfl | cases hinternal
    exact exists_goes_of_isSome (.manager k e)
      (by simp [step, hinternal, FetchLayer.step, hlocal, hm]) trivial
  · cases e with
    | handOver =>
      have howed : m.owed + 1 = (s.layer.managers k).owed + 0 :=
        (FetchManager.Step.transition hm).owed_eq
      rcases hjob : s.job with _ | job
      · have := hflush.idle hjob k
        omega
      · exact exists_goes_of_isSome (.handOver k)
          (by simp [step, hjob, FetchLayer.step, ManagerEvent.isLocal, hm]) trivial
    | answer i q a =>
      have ha := hgoes.2 i q a rfl
      subst ha
      refine exists_goes_of_isSome (.answer k i q (fails q)) ?_ rfl
      simp [step, FetchLayer.step, hm]
    | send | sendSide | requestFlush => exact absurd hgoes.1 (by simp [ManagerEvent.isInput])
    | _ => exact absurd rfl hinternal

/-- A round that waits for no manager has all its caches, or asks for the next. -/
theorem exists_goes_of_job (hflush : s.Flushing) (hmanagers : ∀ k, (s.layer.managers k).Quiet)
    {job : Job keccak256} (hjob : s.job = some job) (fails : Query → Bool) :
    ∃ e s', Step L e s s' ∧ Goes fails s e := by
  rcases hpending : job.pending with _ | ⟨k, rest⟩
  · have hhanded : ∀ k, (job.handed k).isSome = true := by
      intro k
      have hasked := hflush.asked job hjob k
      rw [hpending, FetchManager.owed, (hmanagers k).flushRx, (hmanagers k).phase] at hasked
      by_contra hnone
      rw [Bool.eq_false_of_not_eq_true hnone] at hasked
      simp at hasked
    obtain ⟨accounts, haccounts⟩ := Option.isSome_iff_exists.mp (hhanded .account)
    obtain ⟨code, hcode⟩ := Option.isSome_iff_exists.mp (hhanded .code)
    obtain ⟨storage, hstorage⟩ := Option.isSome_iff_exists.mp (hhanded .storage)
    obtain ⟨hashes, hhashes⟩ := Option.isSome_iff_exists.mp (hhanded .blockHash)
    exact exists_goes_of_isSome .publish
      (by simp [step, hjob, Job.caches, haccounts, hcode, hstorage, hhashes]) trivial
  · refine exists_goes_of_isSome .requestFlush ?_ trivial
    simp [step, hjob, hpending, FetchLayer.step, ManagerEvent.isLocal, FetchManager.step,
      (hmanagers k).flushRx]

/-- **No deadlock**: a client that is not at rest goes on, whichever queries fail. -/
theorem exists_step_of_not_quiet {fetch : FetchConfig}
    (hpos : ∀ k, 0 < (spec keccak256 k).permits fetch)
    (haccount : ∀ k, Accounted fetch k (s.layer.managers k)) (hflush : s.Flushing)
    (fails : Query → Bool) (hquiet : ¬ s.Quiet) : ∃ e s', Step L e s s' ∧ Goes fails s e := by
  by_cases hmanagers : ∀ k, (s.layer.managers k).Quiet
  · rcases hjob : s.job with _ | job
    · rcases hrx : s.rx with _ | ⟨n, rest⟩
      · rcases hloaded : s.loaded with _ | ⟨read, rest⟩
        · exact absurd ⟨hmanagers, hrx, hjob, hloaded⟩ hquiet
        · refine exists_goes_of_isSome (.read 0) ?_ trivial
          rcases houtcome : read.outcome with result | req
          · simp [step, hloaded, houtcome]
          · simp [step, hloaded, houtcome, FetchLayer.step, ManagerEvent.isLocal,
              FetchManager.step]
      · exact exists_goes_of_isSome .recv (by simp [step, hjob, hrx]) trivial
    · exact exists_goes_of_job hflush hmanagers hjob fails
  · push Not at hmanagers
    obtain ⟨k, hk⟩ := hmanagers
    obtain ⟨e, m, hm, hgoes⟩ := FetchManager.exists_step_of_not_quiet _ (haccount k).permits
      (hpos k) (haccount k).calls hk
    exact exists_goes_of_manager hflush fails hm hgoes

/-! ## The client settles -/

/-- **What becomes of a client that is left to itself.** -/
structure Settles (L : Ledger) (s : Sys keccak256) : Prop where
  /-- However it goes on, the steps it takes by itself are paid for by what is left, by `14` for
  each notification it is told and `12` for each read. -/
  bounded : ∀ es s', Lts.replay (step L) Lts.anyCheck es s = some s' →
    s'.left + es.countP (fun e ↦ !e.isInput) ≤ s.left + (es.map Event.gained).sum
  /-- It goes on until it is at rest, whichever queries fail. -/
  goes : ∀ fails, ¬ s.Quiet → ∃ e s', Step L e s s' ∧ Goes fails s e
  /-- So it comes to rest. -/
  rests : ∀ fails, ∃ s', Lts.Run (Step L) (Goes fails) s s' ∧ s'.Quiet
  /-- At rest every request of every kind has had its one reply, or has the one task left of it, and
  nothing is in flight but these tasks. -/
  answered : s.Quiet → ∀ k, (∀ id < (s.layer.managers k).opened,
    ((s.layer.managers k).ticketsAt .answered).count id +
      ((s.layer.managers k).ticketsAt .running).count id = 1) ∧
    (s.layer.managers k).inflight = (s.layer.managers k).tasks.length
  /-- Those tasks have panicked, each on code it was answered and the client cannot hold. -/
  panicked : ∀ k, ∀ t ∈ (s.layer.managers k).tasks, t.result = some .panicked →
    RefusesCode keccak256 k t.request t.answers

/-- A client that is left to itself comes to rest. -/
theorem exists_run_quiet {fetch : FetchConfig}
    (hpos : ∀ k, 0 < (spec keccak256 k).permits fetch) {tip : B256}
    (h : Lts.Run (Step L) Lts.anyEvent (.new keccak256 fetch tip) s) (fails : Query → Bool) :
    ∃ s', Lts.Run (Step L) (Goes fails) s s' ∧ s'.Quiet := by
  have hstep : ∀ s : Sys keccak256, Lts.Run (Step L) Lts.anyEvent (.new keccak256 fetch tip) s →
      ¬ s.Quiet → ∃ e s', Step L e s s' ∧ Goes fails s e ∧
        Lts.Run (Step L) Lts.anyEvent (.new keccak256 fetch tip) s' ∧
        (¬ s'.Quiet → s'.left < s.left) := by
    intro s hrun hnot
    obtain ⟨e, s', hs, hgoes⟩ := exists_step_of_not_quiet (L := L) hpos
      (accounted_of_run hrun) (flushing_of_run hrun) fails hnot
    have hone := left_of_step hs
    rw [hgoes.isInput, Event.gained_of_isInput hgoes.isInput] at hone
    exact ⟨e, s', hs, hgoes, hrun.next hs trivial, fun _ ↦ hone⟩
  obtain ⟨s', hrun, hquiet⟩ := Lts.Run.exists_of_measure hstep h
  exact ⟨s', hrun, not_not.mp hquiet⟩

end Sys

/-- **The client settles**, from wherever a run has led to: what it does by itself is bounded, it
does not stop before everything is done, and then every request is answered, or its task has
panicked on code that the client cannot hold. -/
theorem Sys.comesToRest_of_run {keccak256 : Bytes → B256} {L : Ledger} {fetch : FetchConfig}
    (hpos : ∀ k, 0 < (spec keccak256 k).permits fetch) {tip : B256} {s : Sys keccak256}
    (h : Lts.Run (Sys.Step L) Lts.anyEvent (.new keccak256 fetch tip) s) : s.Settles L where
  bounded es s' hreplay := by
    refine Lts.add_countP_le_of_replay (fun e s s' hs ↦ ?_) hreplay
    have hone := left_of_step hs
    cases hinput : e.isInput <;> simpa [hinput] using hone
  goes fails hnot :=
    exists_step_of_not_quiet hpos (accounted_of_run h) (flushing_of_run h) fails hnot
  rests fails := exists_run_quiet hpos h fails
  answered hquiet k :=
    have haccount := accounted_of_run h k
    ⟨fun _ ↦ (hquiet.managers k).count_eq haccount.tickets,
      (hquiet.managers k).inflight_eq haccount.inflight⟩
  panicked k _ := (accounted_of_run h k).grounded.refusesCode

end

namespace MidRound

open scoped Revm

open Branches

/-- A fetch is running when a round asks for the caches. -/
def events : List (Event keccak) :=
  readSlot ++ [.node (.chainCommitted a1) false, .recv, .requestFlush, .requestFlush,
    .requestFlush, .manager .storage .recvFlush]

theorem isSome_replay :
    (Lts.replay (Sys.step ledger) Lts.anyCheck events start).isSome = true := by
  decide +kernel

def final : Sys keccak := (Lts.replay (Sys.step ledger) Lts.anyCheck events start).get isSome_replay

/-- The three managers owe their caches, one of them is draining, and a fetch is out. -/
example : (final.layer.managers .storage).owed = 1 ∧
    (final.layer.managers .storage).tasks.length = 1 ∧ final.left = 14 := by decide +kernel

end MidRound

open scoped Revm in
open MidRound Branches in
/-- A client in the middle of a round settles. -/
theorem Sys.comesToRest_of_run_midRound : final.Settles ledger :=
  Sys.comesToRest_of_run (fun k ↦ by cases k <;> decide)
    (Lts.Run.of_replay (Option.some_get isSome_replay).symm fun _ _ _ ↦ trivial)

end RexSim
