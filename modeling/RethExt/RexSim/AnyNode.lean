import RethExt.RexSim.System
import RethExt.RexSim.Tracking

/-!
# The client with any node

The steps of the managers when nothing is assumed of the node: `FetchLayer.stepAny` takes whatever
the node answers, and an error for a query it fails to answer.

A step of the layer is the step of one manager (`FetchLayer.Advances`), so what the steps of every
manager keep, those of the layer keep (`FetchLayer.Advances.preserves`).
-/

set_option autoImplicit false

open Std

namespace RexSim

/-- What the client makes of an answer: every failure is an RPC error. -/
def answerOf {q : Query} (answer : Option q.Answer) : Except SimError q.Answer :=
  match answer with
  | some a => .ok a
  | none => .error .rpc

/-- Every answer that has arrived is what the client makes of one that `Told` allows. -/
def GivenBy (Told : (q : Query) → Option q.Answer → Prop) (answers : Answers) : Prop :=
  ∀ q a, answers q = some a → ∃ o, a = answerOf o ∧ Told q o

/-- The node's own errors are those of the transport. -/
theorem GivenBy.rpc {Told : (q : Query) → Option q.Answer → Prop} {answers : Answers}
    (h : GivenBy Told answers) {q : Query} {e : SimError} (he : answers q = some (.error e)) :
    e = .rpc := by
  obtain ⟨o, ho, -⟩ := h q _ he
  rcases o with _ | o <;> simp_all [answerOf]

/-- What the node says is an answer or an error of the transport. -/
theorem exists_answerOf (L : Ledger) (tip : B256) (q : Query) (fails : Bool) :
    ∃ o, (if fails then .error .rpc else L.answer tip q) = answerOf o := by
  rcases fails with _ | _
  · rw [if_neg Bool.false_ne_true, Ledger.answer.eq_def]
    by_cases hq : q.height ≤ L.lineage.height tip
    · exact ⟨some _, if_pos hq⟩
    · rw [if_neg hq]
      cases q with
      | getBlockByNumber number => exact ⟨some none, rfl⟩
      | _ => exact ⟨none, rfl⟩
  · exact ⟨none, rfl⟩

namespace FetchManager

variable {S : FetchSpec} {m m' : FetchManager S} {e : ManagerEvent S}

/-- What arrives for the tasks is what `Told` allows. -/
def AnsweredBy (Told : (q : Query) → Option q.Answer → Prop) (m : FetchManager S) : Prop :=
  ∀ t ∈ m.tasks, GivenBy Told t.answers

variable {Told : (q : Query) → Option q.Answer → Prop}

theorem AnsweredBy.step (h : m.AnsweredBy Told) (hs : Step e m m')
    (hok : ∀ i q a, e = .answer i q a → ∃ o, a = answerOf o ∧ Told q o) : m'.AnsweredBy Told := by
  intro t ht q' a' ha
  cases hs.transition.taskFrom ht with
  | kept ht => exact h t ht q' a' ha
  | spawned => cases ha
  | @answered i q a task htask =>
    exact FetchTask.forall_record (hok i q a rfl) (h task (List.mem_of_getElem? htask)) q' a' ha
  | @finished i task result htask => exact h task htask q' a' ha

end FetchManager

/-! ## The steps of the layer -/

variable [Revm]

/-- What the managers and a node that may answer anything do. -/
inductive AnyEvent (keccak256 : Bytes → B256)
  /-- A step of one manager that takes nothing from the node or from another manager. -/
  | manager (k : FetchKind) (e : ManagerEvent (spec keccak256 k))
  /-- The node answers a query, or fails to. -/
  | answer (k : FetchKind) (task : ℕ) (query : Query) (answer : Option query.Answer)

namespace FetchLayer

variable {keccak256 : Bytes → B256} {s s' : FetchLayer keccak256}

def stepAny (s : FetchLayer keccak256) : AnyEvent keccak256 → Option (FetchLayer keccak256)
  | .manager k e => if e.isLocal then ((s.managers k).step e).map (s.setManager k) else none
  | .answer k i q a => ((s.managers k).step (.answer i q (answerOf a))).map (s.setManager k)

abbrev StepAny : AnyEvent keccak256 → FetchLayer keccak256 → FetchLayer keccak256 → Prop :=
  Lts.Executes stepAny

/-- One manager has taken a step. -/
inductive Advances (s : FetchLayer keccak256) : FetchLayer keccak256 → Prop
  | intro {k : FetchKind} {e : ManagerEvent (spec keccak256 k)}
      {m : FetchManager (spec keccak256 k)} (h : FetchManager.Step e (s.managers k) m) :
      Advances s (s.setManager k m)

/-- A step of the layer with a node that follows a ledger is the step of a manager, or of the node
alone. -/
theorem Step.advances {L : Ledger} {e : LayerEvent keccak256} (h : Step L e s s') :
    Advances s s' ∨ s'.managers = s.managers := by
  replace h : s.step L e = some s' := h
  cases e with
  | manager k e =>
    rw [step] at h
    split at h
    · obtain ⟨m, hm, rfl⟩ := Option.map_eq_some_iff.mp h
      exact Or.inl (.intro hm)
    · cases h
  | answer k i q fails =>
    obtain ⟨m, hm, rfl⟩ := Option.map_eq_some_iff.mp h
    exact Or.inl (.intro hm)
  | head tip =>
    cases h
    exact Or.inr rfl

theorem StepAny.advances {e : AnyEvent keccak256} (h : StepAny e s s') : Advances s s' := by
  replace h : s.stepAny e = some s' := h
  cases e with
  | manager k e =>
    rw [stepAny] at h
    split at h
    · obtain ⟨m, hm, rfl⟩ := Option.map_eq_some_iff.mp h
      exact .intro hm
    · cases h
  | answer k i q a =>
    obtain ⟨m, hm, rfl⟩ := Option.map_eq_some_iff.mp h
    exact .intro hm

/-- A step of the layer is the step of one manager that brings no registration, and no answer but
one the client can make of what the node says. -/
theorem StepAny.exists_step {e : AnyEvent keccak256} (h : StepAny e s s') :
    ∃ k e' m, FetchManager.Step e' (s.managers k) m ∧ s' = s.setManager k m ∧
      (∀ msg, e' ≠ .sendSide msg) ∧
      (∀ i q a, e' = .answer i q a → ∃ o, e = .answer k i q o ∧ a = answerOf o) ∧
      (e'.isLocal = true → e = .manager k e') := by
  replace h : s.stepAny e = some s' := h
  cases e with
  | manager k e =>
    rw [stepAny] at h
    split at h
    · rename_i hlocal
      obtain ⟨m, hm, rfl⟩ := Option.map_eq_some_iff.mp h
      refine ⟨k, e, m, hm, rfl, ?_, ?_, fun _ ↦ rfl⟩
      · rintro msg rfl
        cases hlocal
      · rintro i q a rfl
        cases hlocal
    · cases h
  | answer k i q a =>
    obtain ⟨m, hm, rfl⟩ := Option.map_eq_some_iff.mp h
    refine ⟨k, _, m, hm, rfl, nofun, ?_, nofun⟩
    rintro _ _ _ ⟨⟩
    exact ⟨a, rfl, rfl⟩

/-- The code manager has what the account manager sent meanwhile in its side channel. -/
theorem setManager_code {k : FetchKind} (m : FetchManager (spec keccak256 k)) :
    (s.setManager k m).managers .code =
      { Function.update s.managers k m .code with
        sideRx := (Function.update s.managers k m .code).sideRx ++
          (Function.update s.managers k m .account).ctx.drop
            (s.managers .account).ctx.length } := by
  simp only [setManager, Function.update_self]

/-- A step of another manager than that of accounts leaves the side channel alone. -/
theorem setManager_code_of_ne {k : FetchKind} (hk : k ≠ .account)
    (m : FetchManager (spec keccak256 k)) :
    (s.setManager k m).managers .code = Function.update s.managers k m .code := by
  rw [setManager_code, Function.update_of_ne hk.symm, List.drop_length, List.append_nil]

/-- **What a step of the layer is to the code manager**: nothing but a change of its side channel,
or a step of its own. -/
theorem StepAny.code_cases {e : AnyEvent keccak256} (h : StepAny e s s') :
    (∃ side, s'.managers .code = { s.managers .code with sideRx := side }) ∨
      ∃ e', FetchManager.Step e' (s.managers .code) (s'.managers .code) ∧
        (∀ i q a, e' = .answer i q a → ∃ o, e = .answer .code i q o ∧ a = answerOf o) ∧
        (e'.isLocal = true → e = .manager .code e') := by
  obtain ⟨k, e', m, hm, rfl, -, hanswer, hlocal⟩ := h.exists_step
  cases k with
  | code =>
    have hcode : (s.setManager .code m).managers .code = m := by
      rw [setManager_code_of_ne (by decide), Function.update_self]
    exact Or.inr ⟨e', by rw [hcode]; exact hm, hanswer, hlocal⟩
  | _ =>
    rw [setManager_code]
    exact Or.inl ⟨_, rfl⟩

/-- What a step of each manager preserves, and the side channel does not matter to, a step of the
layer preserves. -/
theorem Advances.preserves {P : (k : FetchKind) → FetchManager (spec keccak256 k) → Prop}
    (hstep : ∀ k e m m', P k m → FetchManager.Step e m m' → P k m')
    (hside : ∀ m side, P .code m → P .code { m with sideRx := side })
    (hs : Advances s s') (h : ∀ k, P k (s.managers k)) : ∀ k, P k (s'.managers k) := by
  obtain @⟨k, e, m, hm⟩ := hs
  have hupdate : ∀ j, P j (Function.update s.managers k m j) := by
    intro j
    by_cases hj : j = k
    · subst hj
      rw [Function.update_self]
      exact hstep j e _ _ (h j) hm
    · rw [Function.update_of_ne hj]
      exact h j
  intro j
  by_cases hj : j = .code
  · subst hj
    rw [setManager_code]
    exact hside _ _ (hupdate .code)
  · rw [setManager_managers hj]
    exact hupdate j

theorem Advances.grounded (hs : Advances s s') (h : ∀ k, (s.managers k).Grounded) :
    ∀ k, (s'.managers k).Grounded :=
  hs.preserves (P := fun _ m ↦ m.Grounded) (fun _ _ _ _ h hm ↦ h.step hm) (fun _ _ h ↦ { h with })
    h

end FetchLayer

end RexSim
