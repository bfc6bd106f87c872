import RethExt.Lib.Lts
import Mathlib.Algebra.BigOperators.Group.List.Basic

/-!
# Tasks that share a state

A `Pool` is a state `σ` and any number of tasks `τ` that run on it, each with its own local state.
`act` says what an event of one task makes of both, and the pool interleaves the tasks in any order;
tasks are started at any moment.

The rule for what holds of every task is rely and guarantee in one: what a task knows of itself and
of the shared state has to be kept by its own steps, and by the steps of any other task that knows
the same of itself (`forall_of_step`).  A sum over all tasks stays as it is if the one that steps
adds nothing to it: `sum_of_step`.
-/

set_option autoImplicit false

namespace Lts

structure Pool (σ τ : Type*) where
  shared : σ
  tasks : List τ := []

inductive PoolEvent (ρ ε : Type*)
  /-- A task is started. -/
  | start (r : ρ)
  | task (i : ℕ) (e : ε)

namespace Pool

variable {σ τ ρ ε : Type*} {start : ρ → τ} {act : σ → τ → ε → Option (σ × τ)}
  {p p' : Pool σ τ} {e : PoolEvent ρ ε}

def step (start : ρ → τ) (act : σ → τ → ε → Option (σ × τ)) (p : Pool σ τ) :
    PoolEvent ρ ε → Option (Pool σ τ)
  | .start r => some { p with tasks := p.tasks ++ [start r] }
  | .task i e => (p.tasks[i]?).bind fun t ↦ (act p.shared t e).map fun q ↦
      { shared := q.1, tasks := p.tasks.set i q.2 }

/-- **What a step does.** -/
inductive Transition (start : ρ → τ) (act : σ → τ → ε → Option (σ × τ)) (p : Pool σ τ) :
    PoolEvent ρ ε → Pool σ τ → Prop
  | start (r : ρ) :
      Transition start act p (.start r) { p with tasks := p.tasks ++ [start r] }
  | task {i : ℕ} {e : ε} {t t' : τ} {shared : σ} (ht : p.tasks[i]? = some t)
      (hact : act p.shared t e = some (shared, t')) :
      Transition start act p (.task i e) { shared := shared, tasks := p.tasks.set i t' }

theorem transition_of_step (h : p.step start act e = some p') : Transition start act p e p' := by
  cases e with
  | start r =>
    cases h
    exact .start r
  | task i e =>
    obtain ⟨t, ht, h⟩ := Option.bind_eq_some_iff.mp h
    obtain ⟨⟨shared, t'⟩, hact, rfl⟩ := Option.map_eq_some_iff.mp h
    exact .task ht hact

/-- The guard that allows a task the events that `ok` does. -/
def Guard (ok : σ → τ → ε → Prop) (p : Pool σ τ) : PoolEvent ρ ε → Prop
  | .start _ => True
  | .task i e => ∀ t, p.tasks[i]? = some t → ok p.shared t e

/-- **Rely and guarantee.**  What every task knows is kept, if a task that is started knows it, if
it is kept by a task's own steps, and if it is kept by the steps of any other task that knows it. -/
theorem forall_of_step {P : σ → τ → Prop} {Q : σ → τ → ε → Prop}
    (hstart : ∀ shared r, P shared (start r))
    (hown : ∀ {shared shared' t t' e}, P shared t → act shared t e = some (shared', t') →
      Q shared t e → P shared' t')
    (hother : ∀ {shared shared' t t' u e}, P shared t → act shared t e = some (shared', t') →
      Q shared t e → P shared u → P shared' u)
    (h : p.step start act e = some p') (hok : Guard Q p e) (hp : ∀ t ∈ p.tasks, P p.shared t) :
    ∀ t ∈ p'.tasks, P p'.shared t := by
  intro u hu
  cases transition_of_step h with
  | start r =>
    rcases List.mem_append.mp hu with hu | hu
    · exact hp u hu
    · rw [List.mem_singleton.mp hu]
      exact hstart p.shared r
  | task ht hact =>
    have hknows := hp _ (List.mem_of_getElem? ht)
    rcases List.mem_or_eq_of_mem_set hu with hu | rfl
    · exact hother hknows hact (hok _ ht) (hp u hu)
    · exact hown hknows hact (hok _ ht)

/-- A task of the pool goes on by its own steps. -/
theorem exists_of_step (h : p.step start act e = some p') {t : τ} (ht : t ∈ p.tasks) :
    ∃ t' ∈ p'.tasks, t' = t ∨ ∃ e', act p.shared t e' = some (p'.shared, t') := by
  cases transition_of_step h with
  | start r => exact ⟨t, List.mem_append_left _ ht, Or.inl rfl⟩
  | @task i e u u' shared hu hact =>
    obtain ⟨j, hj, rfl⟩ := List.getElem_of_mem ht
    by_cases hij : i = j
    · subst hij
      obtain ⟨_, rfl⟩ := List.getElem?_eq_some_iff.mp hu
      exact ⟨u', List.mem_set hj u', Or.inr ⟨e, hact⟩⟩
    · refine ⟨p.tasks[j], ?_, Or.inl rfl⟩
      refine List.mem_iff_getElem?.mpr ⟨j, ?_⟩
      rw [List.getElem?_set_ne hij, List.getElem?_eq_getElem hj]

/-- **The sum over all tasks** stays, if the task that steps adds nothing to it. -/
theorem sum_of_step {f : τ → ℕ} {P : σ → Prop} (hstart : ∀ r, f (start r) = 0)
    (hact : ∀ {shared shared' t t' e}, P shared → act shared t e = some (shared', t') → f t' = f t)
    (hp : P p.shared) (h : p.step start act e = some p') :
    (p'.tasks.map f).sum = (p.tasks.map f).sum := by
  cases transition_of_step h with
  | start r => simp [hstart]
  | @task i e t t' shared ht hstep =>
    obtain ⟨hi, rfl⟩ := List.getElem?_eq_some_iff.mp ht
    rw [List.map_set, hact hp hstep, ← List.map_set, List.set_getElem_self hi]

end Pool

end Lts
