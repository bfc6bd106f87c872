import RethExt.ProviderExt.Concurrent
import Mathlib.Algebra.Order.BigOperators.Group.List
import Mathlib.Algebra.Order.Group.Nat
import Mathlib.Data.List.Nodup

/-!
# What calls that share a cache do twice, and what they agree on

A key that is cached is fetched no more, and each call fetches a key at most once.  So a key is
fetched more than once only by calls that looked it up before any of them had inserted it, and each
of them reports its value: `fetches_of_run`, `reported_of_run`.

As long as the fetches agree with each other, so do the callers: `consistent_of_run`.
-/

set_option autoImplicit false

open Std

namespace ProviderExt

open RexSim (HashMap)

/-! ## How often a key is fetched -/

namespace Task

variable {K V E : Type} [Ord K] [TransOrd K] {cache cache' : HashMap K V} {t t' : Task K V E}
  {e : TaskEvent V E} {k : K}

/-- The call has returned `Ok`. -/
def succeeded (t : Task K V E) : Bool :=
  match t.pc with
  | .returned (.ok _) => true
  | _ => false

/-- The entries whose values the caller is given: the value at each place of what the call returns
is that of the key that it fetched at that place. -/
def reported (t : Task K V E) : List (K × V) :=
  match t.pc with
  | .returned (.ok (.value v)) => t.fetched.zip [v]
  | .returned (.ok (.values vs)) => t.fetched.zip vs
  | _ => []

/-- **A call that succeeds** reports all that it has stored, and this is all that it has fetched. -/
theorem Kept.reported_eq (h : t.Kept cache) (hok : t.succeeded = true) :
    t.reported = t.stored ∧ t.fetched = t.stored.map Prod.fst := by
  have hat := h.pc
  rw [succeeded] at hok
  split at hok
  · rename_i response hpc
    rw [hpc] at hat
    obtain ⟨hfetched, -, hresponse⟩ := hat
    refine ⟨?_, hfetched⟩
    rw [reported, hpc]
    cases response with
    | value v =>
      split at hresponse
      · rename_i key _ _ heq
        cases heq
        rcases hresponse with hnil | hone
        · simp [hfetched, hnil]
        · simp [hfetched, hone]
      · rename_i heq
        simp at heq
      · simp at hresponse
    | values vs =>
      split at hresponse
      · rename_i heq
        simp at heq
      · rename_i heq
        cases heq
        rw [hfetched, hresponse]
        exact (List.zip_of_prod rfl rfl).symm
      · simp at hresponse
  · simp at hok

variable [DecidableEq K]

/-- No call begins to fetch a key that is cached. -/
theorem count_of_act (hk : k ∈ cache) (h : t.act cache e = some (cache', t')) :
    t'.fetched.count k = t.fetched.count k := by
  cases transition_of_act h with
  | @missed key rest hpc hnone =>
    have hne : key ≠ k := by
      rintro rfl
      cases hnone.symm.trans (ExtTreeMap.getElem?_eq_some_getElem hk)
    simp [List.count_append, hne]
  | hit =>
    rw [hit]
    split <;> rfl
  | inserted =>
    rw [inserted]
    split <;> rfl
  | _ => rfl

/-- A call fetches a key at most once, and only one of its own. -/
theorem Kept.count_le (h : t.Kept cache) (k : K) :
    t.fetched.count k ≤ if k ∈ t.request.keys then 1 else 0 := by
  split
  · exact List.nodup_iff_count_le_one.mp h.nodup k
  · rename_i hnot
    exact (List.count_eq_zero.mpr fun hk ↦ hnot (h.sublist.subset hk)).le

end Task

namespace Calls

variable {K V E : Type} [Ord K] [TransOrd K] [DecidableEq K] {p p' : Calls K V E} {k : K}

/-- How often the key has been fetched, by all calls together. -/
def fetches (p : Calls K V E) (k : K) : ℕ := (p.tasks.map fun t ↦ t.fetched.count k).sum

/-- How many calls have reported a value of the key. -/
def reporters (p : Calls K V E) (k : K) : ℕ :=
  p.tasks.countP fun t ↦ k ∈ t.reported.map Prod.fst

/-- **Once a key is cached** it is fetched no more. -/
theorem fetches_of_cached (h : Run p p') (hk : k ∈ p.shared) : fetches p' k = fetches p k := by
  induction h with
  | refl => rfl
  | tail hrun hlast ih =>
    obtain ⟨e, hs, -⟩ := hlast
    rw [← ih]
    exact Lts.Pool.sum_of_step (P := fun cache ↦ k ∈ cache) (fun _ ↦ rfl)
      (fun hk hact ↦ Task.count_of_act hk hact) (mem_of_run hrun hk) hs

private theorem sum_boole {α : Type} (l : List α) (q : α → Bool) :
    (l.map fun a ↦ if q a then 1 else 0).sum = l.countP q := by
  induction l with
  | nil => rfl
  | cons a l ih => rw [List.map_cons, List.sum_cons, List.countP_cons, ih, Nat.add_comm]

/-- **Fetches.**  A key is fetched by each call that asks for it at most once, and by none after it
is cached. -/
structure FetchedAtMostOnce (p : Calls K V E) (k : K) : Prop where
  each : ∀ t ∈ p.tasks, t.fetched.count k ≤ 1
  all : fetches p k ≤ p.tasks.countP fun t ↦ k ∈ t.request.keys
  cached : k ∈ p.shared → ∀ p', Run p p' → fetches p' k = fetches p k

theorem fetches_of_run [LawfulEqOrd K] (h : Run (empty K V E) p) (k : K) :
    FetchedAtMostOnce p k where
  each t ht := List.nodup_iff_count_le_one.mp ((allSourced_of_run h).kept t ht).nodup k
  all := by
    rw [← sum_boole]
    refine List.sum_le_sum fun t ht ↦ ?_
    simp only [decide_eq_true_eq]
    exact ((allSourced_of_run h).kept t ht).count_le k
  cached hk _ h' := fetches_of_cached h' hk

/-- **Reports.**  A value that is cached is reported by a call, or was stored by a call that has not
succeeded.  When all calls have succeeded, a key is cached if it was fetched, and as many calls have
reported it as have fetched it. -/
structure Reported (p : Calls K V E) : Prop where
  cached : ∀ k v, p.shared[k]? = some v → ∃ t ∈ p.tasks,
    (k, v) ∈ t.reported ∨ (k, v) ∈ t.stored ∧ t.succeeded = false
  succeeded : (∀ t ∈ p.tasks, t.succeeded = true) → ∀ k,
    reporters p k = fetches p k ∧ (k ∈ p.shared ↔ 0 < fetches p k)

theorem reported_of_run [LawfulEqOrd K] (h : Run (empty K V E) p) : Reported p := by
  have hsourced := allSourced_of_run h
  have hcached : ∀ k v, p.shared[k]? = some v → ∃ t ∈ p.tasks,
      (k, v) ∈ t.reported ∨ (k, v) ∈ t.stored ∧ t.succeeded = false := by
    intro k v hv
    obtain ⟨t, ht, hstored⟩ := hsourced.cached k v hv
    refine ⟨t, ht, ?_⟩
    cases hok : t.succeeded with
    | true =>
      left
      rwa [((hsourced.kept t ht).reported_eq hok).1]
    | false => exact Or.inr ⟨hstored, rfl⟩
  refine ⟨hcached, fun hall k ↦ ?_⟩
  have hcount : ∀ t ∈ p.tasks,
      t.fetched.count k = if k ∈ t.reported.map Prod.fst then 1 else 0 := by
    intro t ht
    obtain ⟨hreported, hfetched⟩ := (hsourced.kept t ht).reported_eq (hall t ht)
    rw [hreported, ← hfetched]
    exact List.Nodup.count (hsourced.kept t ht).nodup
  have heq : fetches p k = reporters p k := by
    rw [reporters, ← sum_boole]
    refine congrArg List.sum (List.map_congr_left fun t ht ↦ ?_)
    simp only [decide_eq_true_eq]
    exact hcount t ht
  refine ⟨heq.symm, fun hk ↦ ?_, fun hpos ↦ ?_⟩
  · obtain ⟨t, ht, hreported | ⟨-, hfailed⟩⟩ :=
      hcached k _ (ExtTreeMap.getElem?_eq_some_getElem hk)
    · rw [heq]
      exact List.countP_pos_iff.mpr ⟨t, ht, decide_eq_true (List.mem_map_of_mem hreported)⟩
    · cases hfailed.symm.trans (hall t ht)
  · rw [heq] at hpos
    obtain ⟨t, ht, hmem⟩ := List.countP_pos_iff.mp hpos
    rw [((hsourced.kept t ht).reported_eq (hall t ht)).1] at hmem
    exact (hsourced.kept t ht).stored k (of_decide_eq_true hmem)

/-- What is seen of the calls: how often `1` was fetched and reported, and whether all succeeded. -/
def counts (p : Calls ℕ ℕ Unit) : ℕ × ℕ × Bool :=
  (fetches p 1, reporters p 1, p.tasks.all Task.succeeded)

open Overlap in
theorem counts_overlap :
    (Lts.replay step Lts.anyCheck events (empty ℕ ℕ Unit)).map counts = some (2, 2, true) := by
  decide +kernel

open Overlap in
/-- Two calls fetch `1`, since neither has found it. -/
theorem fetches_of_run_overlap :
    ∃ p : Calls ℕ ℕ Unit, counts p = (2, 2, true) ∧ FetchedAtMostOnce p 1 := by
  obtain ⟨p, hp, hcounts⟩ := Option.map_eq_some_iff.mp counts_overlap
  exact ⟨p, hcounts, fetches_of_run (.of_replay hp fun _ _ _ ↦ trivial) 1⟩

open Overlap in
/-- Both report it. -/
theorem reported_of_run_overlap :
    ∃ p : Calls ℕ ℕ Unit, counts p = (2, 2, true) ∧ Reported p := by
  obtain ⟨p, hp, hcounts⟩ := Option.map_eq_some_iff.mp counts_overlap
  exact ⟨p, hcounts, reported_of_run (.of_replay hp fun _ _ _ ↦ trivial)⟩

end Calls

/-! ## Fetches that agree -/

namespace Task

variable {K V E : Type} [Ord K] [TransOrd K] {f : K → V} {cache cache' : HashMap K V}
  {t t' : Task K V E} {e : TaskEvent V E}

/-- A fetch that succeeds gives the value that `f` has for its key. -/
def Answers (f : K → V) (_ : HashMap K V) (t : Task K V E) : TaskEvent V E → Prop
  | .fetched (.ok v) => ∀ key rest, t.pc = .fetching key rest → v = f key
  | _ => True

/-- What the call has stored, and what it is about to store, are values of `f`. -/
structure Agrees (f : K → V) (t : Task K V E) : Prop where
  stored : ∀ entry ∈ t.stored, entry.2 = f entry.1
  inserting : ∀ key v rest, t.pc = .inserting key v rest → v = f key

theorem Agrees.act (h : t.Agrees f) (hact : t.act cache e = some (cache', t'))
    (hanswers : t.Answers f cache e) : t'.Agrees f := by
  cases transition_of_act hact with
  | fetched hpc =>
    refine ⟨h.stored, fun _ _ _ hpc' ↦ ?_⟩
    cases hpc'
    exact hanswers _ _ hpc
  | @inserted key rest v hpc =>
    have hstored : ∀ entry ∈ t.stored ++ [(key, v)], entry.2 = f entry.1 := by
      intro entry hentry
      rcases List.mem_append.mp hentry with hentry | hentry
      · exact h.stored entry hentry
      · rw [List.mem_singleton.mp hentry]
        exact h.inserting key v rest hpc
    rw [inserted]
    split <;> exact ⟨hstored, fun _ _ _ hpc' ↦ by cases hpc'⟩
  | hit =>
    rw [hit]
    split <;> exact ⟨h.stored, fun _ _ _ hpc' ↦ by cases hpc'⟩
  | _ => exact ⟨h.stored, fun _ _ _ hpc' ↦ by cases hpc'⟩

end Task

namespace Calls

variable {K V E : Type} [Ord K] [TransOrd K] {f : K → V} {p p' : Calls K V E}
  {e : Lts.PoolEvent (Request K) (TaskEvent V E)}

/-- All calls agree with `f`. -/
def Agree (f : K → V) (p : Calls K V E) : Prop := ∀ t ∈ p.tasks, t.Agrees f

theorem Agree.step (h : Agree f p) (hs : step p e = some p')
    (hok : Lts.Pool.Guard (Task.Answers f) p e) : Agree f p' :=
  Lts.Pool.forall_of_step (P := fun _ ↦ Task.Agrees f) (Q := Task.Answers f)
    (fun _ _ ↦ ⟨fun _ h ↦ absurd h List.not_mem_nil, fun _ _ _ h ↦ by cases h⟩)
    (fun h hact hok ↦ h.act hact hok) (fun _ _ _ h ↦ h) hs hok h

/-- What is cached and what is returned are values of `f`. -/
structure Consistent (f : K → V) (p : Calls K V E) : Prop where
  cached : ∀ k v, p.shared[k]? = some v → v = f k
  fetch : ∀ t ∈ p.tasks, ∀ k v, t.request = .fetch k → t.pc = .returned (.ok (.value v)) → v = f k
  discover : ∀ t ∈ p.tasks, ∀ keys vs, t.request = .discover keys →
    t.pc = .returned (.ok (.values vs)) →
      ∃ found : List K, found.Sublist keys ∧ found.Nodup ∧ vs = found.map f

/-- **Consistency.**  As long as no two fetches of a key succeed with different values, it makes no
difference which of the calls that run at the same time has fetched and inserted it. -/
theorem consistent_of_run [LawfulEqOrd K]
    (h : Lts.Run (Lts.Executes step) (Lts.Pool.Guard (Task.Answers f)) (empty K V E) p) :
    Consistent f p := by
  have hpromises := promises_of_run (h.mono fun _ _ _ ↦ trivial)
  have hagree : Agree f p :=
    h.invariant (fun e _ _ hp hs hok ↦ Agree.step (e := e) hp hs hok)
      fun _ ht ↦ absurd ht List.not_mem_nil
  have hsourced : ∀ {k v}, Sourced p k v → v = f k := fun ⟨t, ht, hstored⟩ ↦
    (hagree t ht).stored _ hstored
  refine ⟨fun k v hv ↦ hsourced (hpromises.cached k v hv), fun t ht k v hrequest hpc ↦ ?_, ?_⟩
  · exact hsourced (hpromises.fetch t ht k v hrequest hpc).2
  · intro t ht keys vs hrequest hpc
    obtain ⟨-, hvs, hsublist, hnodup⟩ := hpromises.discover t ht keys vs hrequest hpc
    refine ⟨t.stored.map Prod.fst, hsublist, hnodup, ?_⟩
    rw [hvs, List.map_map]
    exact List.map_congr_left fun entry hentry ↦ (hagree t ht).stored entry hentry

namespace Agreeing

/-- The value of a key is ten times the key. -/
def tenfold (k : ℕ) : ℕ := 10 * k

def answers (p : Calls ℕ ℕ Unit) : Lts.PoolEvent (Request ℕ) (TaskEvent ℕ Unit) → Bool
  | .task i (.fetched (.ok v)) => match (p.tasks[i]?).map Task.pc with
    | some (.fetching key _) => v == tenfold key
    | _ => true
  | _ => true

theorem guard_of_answers (p : Calls ℕ ℕ Unit)
    (e : Lts.PoolEvent (Request ℕ) (TaskEvent ℕ Unit)) (h : answers p e = true) :
    Lts.Pool.Guard (Task.Answers tenfold) p e := by
  cases e with
  | start r => trivial
  | task i e =>
    intro t ht
    cases e with
    | fetched result =>
      cases result with
      | ok v =>
        intro key rest hpc
        simpa [answers, ht, hpc] using h
      | error e => trivial
    | _ => trivial

/-- Two calls fetch `1`, and get the same value. -/
def events : List (Lts.PoolEvent (Request ℕ) (TaskEvent ℕ Unit)) :=
  [.start (.discover [1, 2]), .start (.fetch 1), .task 0 .lookUp, .task 1 .lookUp,
    .task 0 (.fetched (.ok 10)), .task 1 (.fetched (.ok 10)), .task 1 .insert, .task 0 .insert,
    .task 0 .lookUp, .task 0 (.fetched (.error ()))]

end Agreeing

open Agreeing in
/-- The calls of one key agree, also when another fetch fails. -/
theorem consistent_of_run_agreeing :
    ∃ p : Calls ℕ ℕ Unit, counts p = (2, 1, false) ∧ Consistent tenfold p := by
  have hcounts : (Lts.replay step answers events (empty ℕ ℕ Unit)).map counts =
      some (2, 1, false) := by decide +kernel
  obtain ⟨p, hp, hcounts⟩ := Option.map_eq_some_iff.mp hcounts
  exact ⟨p, hcounts, consistent_of_run (.of_replay hp guard_of_answers)⟩

end Calls

end ProviderExt
