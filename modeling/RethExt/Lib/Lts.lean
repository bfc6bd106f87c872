import Mathlib.Algebra.GroupWithZero.Nat
import Mathlib.Data.Nat.Notation
import Mathlib.Logic.Relation

/-!
# Runs of a labelled transition system

A system is a step relation `step : ε → σ → σ → Prop`: the event `e : ε` takes a state to another.
A **guard** `ok : σ → ε → Prop` says which events a run may take in which state, and
`Lts.Run step ok` is the reflexive transitive closure of the steps the guard allows.  A result about
every run is one about `Lts.Run step Lts.anyEvent`, and a result about the runs whose steps all meet
a condition is one about `Lts.Run step ok`.

Two rules carry every argument about runs: by `Run.invariant`, what holds at the start and is kept
by each allowed step holds at the end; and by `Run.of_replay`, what a list of events leads to when
they are executed one after the other is reached by a run.  Three more are for what comes to an end,
with a measure that tells how far it is: `Run.exists_of_measure` finds a run to it, and
`countP_add_le_of_replay` and `add_countP_le_of_replay` bound how long any run can put it off, the
second when the run also brings in more to do.  And two are for what the events of a run have to do
with each other: by `eq_of_once` an event happens once, and by `exists_replay_filter` some events
are not noticed by others.
-/

set_option autoImplicit false

namespace Lts

variable {σ ε : Type*}

/-- A step whose event the guard `ok` allows in the state it starts from. -/
def Guarded (step : ε → σ → σ → Prop) (ok : σ → ε → Prop) (s s' : σ) : Prop :=
  ∃ e, step e s s' ∧ ok s e

/-- The runs all of whose steps the guard `ok` allows. -/
abbrev Run (step : ε → σ → σ → Prop) (ok : σ → ε → Prop) : σ → σ → Prop :=
  Relation.ReflTransGen (Guarded step ok)

/-- The guard that allows every event. -/
abbrev anyEvent : σ → ε → Prop := fun _ _ ↦ True

variable {step : ε → σ → σ → Prop} {ok ok' : σ → ε → Prop} {s s' s'' : σ}

theorem Run.next {e : ε} (h : Run step ok s s') (hs : step e s' s'') (ho : ok s' e) :
    Run step ok s s'' :=
  h.tail ⟨e, hs, ho⟩

/-- A single step as a run. -/
theorem Run.one {e : ε} (hs : step e s s') (ho : ok s e) : Run step ok s s' :=
  .single ⟨e, hs, ho⟩

/-- **The invariant rule.** -/
theorem Run.invariant {Inv : σ → Prop}
    (hstep : ∀ e s s', Inv s → step e s s' → ok s e → Inv s') (h0 : Inv s)
    (h : Run step ok s s') : Inv s' := by
  induction h with
  | refl => exact h0
  | tail _ hlast ih =>
    obtain ⟨e, hs, ho⟩ := hlast
    exact hstep e _ _ ih hs ho

/-- A weaker guard has more runs. -/
theorem Run.mono (hok : ∀ s e, ok s e → ok' s e) (h : Run step ok s s') : Run step ok' s s' :=
  Relation.ReflTransGen.mono (fun _ _ ⟨e, hs, ho⟩ ↦ ⟨e, hs, hok _ _ ho⟩) _ _ h

/-- **Backward simulation.**  Every state that is related to the end of a step is reached from one
that is related to its start: what is related to the end of a run is reached by a run.  The other
system may decide early what this one decides late. -/
theorem Run.of_backward {τ δ : Type*} {step' : δ → τ → τ → Prop} {ok₂ : τ → δ → Prop}
    {Inv : σ → Prop} {R : σ → τ → Prop} {t₀ t : τ}
    (hinv : ∀ e s s', Inv s → step e s s' → ok s e → Inv s')
    (hback : ∀ e s s', Inv s → step e s s' → ok s e →
      ∀ t', R s' t' → ∃ t, R s t ∧ Run step' ok₂ t t')
    (h0 : Inv s) (hstart : ∀ t, R s t → Run step' ok₂ t₀ t) (h : Run step ok s s') (ht : R s' t) :
    Run step' ok₂ t₀ t := by
  induction h generalizing t with
  | refl => exact hstart t ht
  | @tail s₁ s₂ hrun hlast ih =>
    obtain ⟨e, hs, ho⟩ := hlast
    obtain ⟨t₁, ht₁, hrest⟩ := hback e s₁ s₂ (Run.invariant hinv h0 hrun) hs ho t ht
    exact (ih ht₁).trans hrest

/-- **The measure rule.**  As long as `P` holds, an allowed step ends it or makes the measure
smaller: some run ends it. -/
theorem Run.exists_of_measure {Inv P : σ → Prop} {measure : σ → ℕ}
    (hstep : ∀ s, Inv s → P s →
      ∃ e s', step e s s' ∧ ok s e ∧ Inv s' ∧ (P s' → measure s' < measure s))
    (h0 : Inv s) : ∃ s', Run step ok s s' ∧ ¬ P s' := by
  induction hn : measure s using Nat.strongRecOn generalizing s with
  | ind n ih =>
    by_cases hP : P s
    · obtain ⟨e, t, hs, ho, hinv, hlt⟩ := hstep s h0 hP
      by_cases hP' : P t
      · obtain ⟨u, hrun, hu⟩ := ih (measure t) (hn ▸ hlt hP') hinv rfl
        exact ⟨u, (Run.one hs ho).trans hrun, hu⟩
      · exact ⟨t, Run.one hs ho, hP'⟩
    · exact ⟨s, .refl, hP⟩

/-! ## Executable steps -/

/-- The step relation of a function that says what an event makes of a state, if it can happen. -/
def Executes (step : σ → ε → Option σ) (e : ε) (s s' : σ) : Prop := step s e = some s'

/-- Replay a list of events, as long as each passes the check. -/
def replay (step : σ → ε → Option σ) (check : σ → ε → Bool) : List ε → σ → Option σ
  | [], s => some s
  | e :: es, s => if check s e then (step s e).bind (replay step check es) else none

/-- The last event of a replay is executed in the state the ones before it lead to. -/
theorem replay_concat_eq_some_iff {step : σ → ε → Option σ} {check : σ → ε → Bool} {es : List ε}
    {e : ε} :
    replay step check (es ++ [e]) s = some s'' ↔
      ∃ s', replay step check es s = some s' ∧ check s' e = true ∧ step s' e = some s'' := by
  induction es generalizing s with
  | nil => by_cases he : check s e = true <;> simp [replay, he]
  | cons e' es ih =>
    rw [List.cons_append, replay, replay]
    split
    · cases step s e' with
      | none => simp
      | some t => exact ih
    · simp

/-- **The progress rule.**  `P` is lost for good when it is lost, and each of a system's own events
takes one off the measure as long as `P` lasts: if `P` holds at the end of a replay, the measure has
paid for all of them. -/
theorem countP_add_le_of_replay {step : σ → ε → Option σ} {check : σ → ε → Bool} {Inv P : σ → Prop}
    {own : ε → Bool} {measure : σ → ℕ} (hinv : ∀ e s s', Inv s → step s e = some s' → Inv s')
    (hstep : ∀ e s s', Inv s → step s e = some s' → P s' →
      P s ∧ measure s' + (if own e then 1 else 0) ≤ measure s)
    {es : List ε} (h : replay step check es s = some s') (h0 : Inv s) (hend : P s') :
    P s ∧ measure s' + es.countP own ≤ measure s := by
  induction es generalizing s with
  | nil =>
    cases h
    exact ⟨hend, Nat.le_refl _⟩
  | cons e es ih =>
    rw [replay] at h
    split at h
    · obtain ⟨t, ht, hrest⟩ := Option.bind_eq_some_iff.mp h
      obtain ⟨hP, hle⟩ := ih hrest (hinv e s t h0 ht)
      obtain ⟨hP', hone⟩ := hstep e s t h0 ht hP
      refine ⟨hP', ?_⟩
      rw [List.countP_cons]
      omega
    · cases h

/-- **The amortised rule.**  Each of a system's own events takes one off the measure, and what a
step brings in is all that adds to it: the own events of a replay are paid for by the measure at the
start and by what was brought in. -/
theorem add_countP_le_of_replay {step : σ → ε → Option σ} {check : σ → ε → Bool} {own : ε → Bool}
    {measure : σ → ℕ} {gained : ε → ℕ}
    (hstep : ∀ e s s', step s e = some s' →
      measure s' + (if own e then 1 else 0) ≤ measure s + gained e)
    {es : List ε} (h : replay step check es s = some s') :
    measure s' + es.countP own ≤ measure s + (es.map gained).sum := by
  induction es generalizing s with
  | nil => cases h; exact Nat.le_refl _
  | cons e es ih =>
    rw [replay] at h
    split at h
    · obtain ⟨t, ht, hrest⟩ := Option.bind_eq_some_iff.mp h
      have hone := hstep e s t ht
      have hrest := ih hrest
      rw [List.countP_cons, List.map_cons, List.sum_cons]
      omega
    · cases h

/-- **A replay is a run**, of any guard the check implies. -/
theorem Run.of_replay {step : σ → ε → Option σ} {check : σ → ε → Bool} {es : List ε}
    (h : replay step check es s = some s') (hcheck : ∀ s e, check s e = true → ok s e) :
    Run (Executes step) ok s s' := by
  induction es generalizing s with
  | nil => cases h; exact .refl
  | cons e es ih =>
    rw [replay] at h
    split at h
    · rename_i he
      obtain ⟨t, ht, hrest⟩ := Option.bind_eq_some_iff.mp h
      exact (Run.one ht (hcheck s e he)).trans (ih hrest)
    · cases h

/-- The same, of a guard that the check implies for the events that are replayed. -/
theorem Run.of_replay_of_mem {step : σ → ε → Option σ} {check : σ → ε → Bool} {es : List ε}
    (h : replay step check es s = some s')
    (hcheck : ∀ s, ∀ e ∈ es, check s e = true → ok s e) : Run (Executes step) ok s s' := by
  induction es generalizing s with
  | nil => cases h; exact .refl
  | cons e es ih =>
    rw [replay] at h
    split at h
    · rename_i he
      obtain ⟨t, ht, hrest⟩ := Option.bind_eq_some_iff.mp h
      exact (Run.one ht (hcheck s e List.mem_cons_self he)).trans
        (ih hrest fun s e he ↦ hcheck s e (List.mem_cons_of_mem _ he))
    · cases h

/-- The check that every event passes. -/
abbrev anyCheck : σ → ε → Bool := fun _ _ ↦ true

/-! ## What some events have to do with others -/

variable {step : σ → ε → Option σ}

/-- When `P` lasts, an event that cannot happen where `P` holds does not happen again. -/
theorem not_mem_of_replay {check : σ → ε → Bool} {P : σ → Prop} {E : ε → Prop}
    (hlasts : ∀ e s s', P s → step s e = some s' → P s')
    (hnot : ∀ e s s', E e → step s e = some s' → ¬ P s) {es : List ε}
    (h : replay step check es s = some s') (hs : P s) {e : ε} (he : e ∈ es) : ¬ E e := by
  induction es generalizing s with
  | nil => exact absurd he List.not_mem_nil
  | cons e' es ih =>
    rw [replay] at h
    split at h
    · obtain ⟨t, ht, hrest⟩ := Option.bind_eq_some_iff.mp h
      rcases List.mem_cons.mp he with rfl | he
      · exact fun hE ↦ hnot e s t hE ht hs
      · exact ih hrest (hlasts e' s t hs ht) he
    · simp at h

/-- **The once rule.**  Events that bring about what lasts, and that cannot happen where it holds,
are one event: a replay has no two of them. -/
theorem eq_of_once {check : σ → ε → Bool} {P : σ → Prop} {E : ε → Prop}
    (hlasts : ∀ e s s', P s → step s e = some s' → P s')
    (honce : ∀ e s s', E e → step s e = some s' → ¬ P s ∧ P s') {es : List ε}
    (h : replay step check es s = some s') {e₁ e₂ : ε} (h₁ : e₁ ∈ es) (h₂ : e₂ ∈ es)
    (hE₁ : E e₁) (hE₂ : E e₂) : e₁ = e₂ := by
  induction es generalizing s with
  | nil => exact absurd h₁ List.not_mem_nil
  | cons e es ih =>
    rw [replay] at h
    split at h
    · obtain ⟨t, ht, hrest⟩ := Option.bind_eq_some_iff.mp h
      have hlater : E e → ∀ e' ∈ es, ¬ E e' := fun hE e' he' ↦
        not_mem_of_replay hlasts (fun e s s' hE hs ↦ (honce e s s' hE hs).1) hrest
          (honce e s t hE ht).2 he'
      rcases List.mem_cons.mp h₁ with rfl | hmem₁
      · rcases List.mem_cons.mp h₂ with rfl | hmem₂
        · rfl
        · exact absurd hE₂ (hlater hE₁ e₂ hmem₂)
      · rcases List.mem_cons.mp h₂ with rfl | hmem₂
        · exact absurd hE₁ (hlater hE₂ e₁ hmem₁)
        · exact ih hrest hmem₁ hmem₂
    · simp at h

/-- **The unwinding rule.**  If the events that are kept can be followed and the others are not
noticed, the others can be left out of a replay. -/
theorem exists_replay_filter {R : σ → σ → Prop} {kept : ε → Bool} {es : List ε}
    (hkept : ∀ e ∈ es, kept e = true → ∀ s s' t, R s t → step s e = some s' →
      ∃ t', step t e = some t' ∧ R s' t')
    (hother : ∀ e ∈ es, kept e = false → ∀ s s' t, R s t → step s e = some s' → R s' t)
    {t : σ} (h : replay step anyCheck es s = some s') (hR : R s t) :
    ∃ t', replay step anyCheck (es.filter kept) t = some t' ∧ R s' t' := by
  induction es generalizing s t with
  | nil =>
    cases h
    exact ⟨t, rfl, hR⟩
  | cons e es ih =>
    obtain ⟨s₁, hs₁, hrest⟩ := Option.bind_eq_some_iff.mp h
    replace ih := fun {t} ↦ ih (fun e he ↦ hkept e (List.mem_cons_of_mem _ he))
      (fun e he ↦ hother e (List.mem_cons_of_mem _ he)) (t := t) hrest
    by_cases he : kept e = true
    · obtain ⟨t₁, ht₁, hR₁⟩ := hkept e List.mem_cons_self he s s₁ t hR hs₁
      obtain ⟨t', ht', hR'⟩ := ih hR₁
      refine ⟨t', ?_, hR'⟩
      rw [List.filter_cons_of_pos he]
      exact Option.bind_eq_some_iff.mpr ⟨t₁, ht₁, ht'⟩
    · rw [List.filter_cons_of_neg he]
      exact ih (hother e List.mem_cons_self (eq_false_of_ne_true he) s s₁ t hR hs₁)

end Lts
