import RethExt.RexSim.Basic
import Mathlib.Logic.ExistsUnique

/-!
# Discovering through a cache

`cached_discover` fetches the keys that the cache lacks, puts each value in the cache as it arrives,
and returns the values that it added.  A fetch that fails ends the call with the error, and the
values that were added before it are in the cache, but nobody is given them: later calls skip their
keys.

`Call.added` is what a call adds to the cache and `Call.reported` what it gives its caller.  The two
differ exactly when a fetch fails after another has succeeded (`Call.reported_eq_added_iff`), and
over a sequence of calls every value is reported once exactly when this never happens:
`reportedOnce_iff`.

A call asks for each key at most once, so what its `fetch` does is a function of the key.
-/

set_option autoImplicit false

open Std

namespace ProviderExt

open RexSim (HashMap getElem?_empty_ne)

variable {K V E : Type} [Ord K] [TransOrd K]

/-! ## One call -/

/-- The loop of `cached_discover`, with the values that were found so far. -/
def discover (fetch : K → Except E V) (cache : HashMap K V) (out : List V) :
    List K → HashMap K V × Except E (List V)
  | [] => (cache, .ok out)
  | key :: keys =>
    if key ∈ cache then discover fetch cache out keys
    else match fetch key with
      | .ok v => discover fetch (cache.insert key v) (out ++ [v]) keys
      | .error e => (cache, .error e)

def cachedDiscover (fetch : K → Except E V) (cache : HashMap K V) (keys : List K) :
    HashMap K V × Except E (List V) :=
  discover fetch cache [] keys

/-- The keys that are fetched, in order. -/
def fetched (fetch : K → Except E V) (cache : HashMap K V) : List K → List K
  | [] => []
  | key :: keys =>
    if key ∈ cache then fetched fetch cache keys
    else match fetch key with
      | .ok v => key :: fetched fetch (cache.insert key v) keys
      | .error _ => [key]

/-- The entries that are put in the cache, in order. -/
def added (fetch : K → Except E V) (cache : HashMap K V) : List K → List (K × V)
  | [] => []
  | key :: keys =>
    if key ∈ cache then added fetch cache keys
    else match fetch key with
      | .ok v => (key, v) :: added fetch (cache.insert key v) keys
      | .error _ => []

variable {fetch : K → Except E V} {cache : HashMap K V}
  {keys : List K} {out values : List V} {k : K} {v : V}

/-- What is added was missing. -/
theorem not_mem_of_mem_added (h : (k, v) ∈ added fetch cache keys) : k ∉ cache := by
  induction keys generalizing cache with
  | nil => cases h
  | cons key keys ih =>
    rw [added] at h
    split at h
    · exact ih h
    · rename_i hkey
      split at h
      · rcases List.mem_cons.mp h with heq | h
        · cases heq
          exact hkey
        · exact fun hk ↦ ih h (ExtTreeMap.mem_insert.mpr (Or.inr hk))
      · cases h

/-- **The values** a call returns are those it has added, each fetched for its key. -/
theorem discover_values (h : (discover fetch cache out keys).2 = .ok values) :
    values = out ++ (added fetch cache keys).map Prod.snd ∧
      fetched fetch cache keys = (added fetch cache keys).map Prod.fst := by
  induction keys generalizing cache out with
  | nil =>
    cases h
    exact ⟨(List.append_nil _).symm, rfl⟩
  | cons key keys ih =>
    rw [discover] at h
    rw [added, fetched]
    split at h
    · rename_i hkey
      rw [if_pos hkey, if_pos hkey]
      exact ih h
    · rename_i hkey
      rw [if_neg hkey, if_neg hkey]
      split at h
      · rename_i value hvalue
        obtain ⟨hvalues, hfetched⟩ := ih h
        simp only [List.map_cons, hfetched, hvalues, List.append_assoc,
          List.singleton_append, true_and]
      · cases h

variable [LawfulEqOrd K]

/-- **The cache** after a call holds what it held and what was added. -/
theorem discover_cache :
    (discover fetch cache out keys).1[k]? = some v ↔
      cache[k]? = some v ∨ (k, v) ∈ added fetch cache keys := by
  induction keys generalizing cache out with
  | nil => simp [discover, added]
  | cons key keys ih =>
    rw [discover, added]
    split
    · exact ih
    · rename_i hkey
      split
      · rename_i value hvalue
        rw [ih, ExtTreeMap.getElem?_insert, List.mem_cons, Prod.mk.injEq, ← or_assoc]
        refine or_congr_left ?_
        by_cases heq : key = k
        · subst heq
          have hnone : cache[key]? = none := ExtTreeMap.getElem?_eq_none hkey
          simp [hnone, eq_comm]
        · simp [heq, Ne.symm heq]
      · simp

/-- **A call succeeds** if every key that is missing can be fetched. -/
theorem exists_discover_ok_iff :
    (∃ values, (discover fetch cache out keys).2 = .ok values) ↔
      ∀ key ∈ keys, key ∉ cache → ∃ v, fetch key = .ok v := by
  induction keys generalizing cache out with
  | nil => simp [discover]
  | cons key keys ih =>
    rw [discover, List.forall_mem_cons]
    split
    · rename_i hkey
      rw [ih]
      simp [hkey]
    · rename_i hkey
      split
      · rename_i value hvalue
        rw [ih]
        simp only [ExtTreeMap.mem_insert, LawfulEqCmp.compare_eq_iff_eq, not_or]
        refine ⟨fun h ↦ ⟨fun _ ↦ ⟨value, hvalue⟩, fun key' hmem hnot ↦ ?_⟩,
          fun h key' hmem hnot ↦ h.2 key' hmem hnot.2⟩
        by_cases heq : key = key'
        · exact heq ▸ ⟨value, hvalue⟩
        · exact h key' hmem ⟨heq, hnot⟩
      · rename_i e he
        simp [hkey, he]

omit [LawfulEqOrd K] in
/-- **A call adds nothing** if the first key that is missing cannot be fetched, or none is. -/
theorem added_eq_nil_iff :
    added fetch cache keys = [] ↔
      ∀ key, keys.find? (fun key ↦ key ∉ cache) = some key → ∃ e, fetch key = .error e := by
  induction keys with
  | nil => simp [added]
  | cons key keys ih =>
    rw [added, List.find?_cons]
    split
    · rename_i hkey
      simpa [hkey] using ih
    · rename_i hkey
      split
      · rename_i v hv
        simp [hkey, hv]
      · rename_i e he
        simp [hkey, he]

/-! ## A sequence of calls -/

/-- A call of `cached_discover`. -/
structure Call (K V E : Type) where
  keys : List K
  fetch : K → Except E V

namespace Call

variable (c : Call K V E)

def run (cache : HashMap K V) : HashMap K V × Except E (List V) :=
  cachedDiscover c.fetch cache c.keys

/-- What the call returns to its caller: the value at each place of its `Ok` list is that of the key
that was fetched at that place. -/
def reported (cache : HashMap K V) : List (K × V) :=
  match (c.run cache).2 with
  | .ok values => (fetched c.fetch cache c.keys).zip values
  | .error _ => []

/-- Every key that is missing can be fetched, or the first of them cannot: no fetch fails after one
that has succeeded. -/
def Atomic (cache : HashMap K V) : Prop :=
  (∀ key ∈ c.keys, key ∉ cache → ∃ v, c.fetch key = .ok v) ∨
    ∀ key, c.keys.find? (fun key ↦ key ∉ cache) = some key → ∃ e, c.fetch key = .error e

variable {c}

omit [LawfulEqOrd K] in
/-- What is reported is what was added, or nothing. -/
theorem reported_eq (cache : HashMap K V) :
    c.reported cache = added c.fetch cache c.keys ∧ (∃ values, (c.run cache).2 = .ok values) ∨
      c.reported cache = [] ∧ ¬ ∃ values, (c.run cache).2 = .ok values := by
  rw [reported]
  cases hrun : (c.run cache).2 with
  | ok values =>
    obtain ⟨hvalues, hfetched⟩ := discover_values hrun
    refine Or.inl ⟨?_, values, rfl⟩
    simp only [hfetched, hvalues, List.nil_append]
    exact (List.zip_of_prod rfl rfl).symm
  | error e => exact Or.inr ⟨rfl, by simp⟩

/-- **A call reports what it adds** exactly when no fetch fails after one that has succeeded. -/
theorem reported_eq_added_iff (cache : HashMap K V) :
    c.reported cache = added c.fetch cache c.keys ↔ c.Atomic cache := by
  have hok : (∃ values, (c.run cache).2 = .ok values) ↔ _ := exists_discover_ok_iff
  rw [Atomic, ← hok, ← added_eq_nil_iff]
  rcases reported_eq (c := c) cache with ⟨heq, hrun⟩ | ⟨hnil, hrun⟩
  · exact ⟨fun _ ↦ Or.inl hrun, fun _ ↦ heq⟩
  · rw [hnil]
    exact ⟨fun h ↦ Or.inr h.symm, fun h ↦ (h.resolve_left hrun).symm⟩

end Call

/-- The cache after the calls. -/
def cacheAfter (cache : HashMap K V) : List (Call K V E) → HashMap K V
  | [] => cache
  | c :: calls => cacheAfter (c.run cache).1 calls

/-- What each of the calls reports. -/
def reports (cache : HashMap K V) : List (Call K V E) → List (List (K × V))
  | [] => []
  | c :: calls => c.reported cache :: reports (c.run cache).1 calls

/-- Every call is atomic on the cache that it finds. -/
def AllAtomic (cache : HashMap K V) : List (Call K V E) → Prop
  | [] => True
  | c :: calls => c.Atomic cache ∧ AllAtomic (c.run cache).1 calls

/-- The entry is in the report of exactly one of the calls. -/
def ReportedOnce (cache : HashMap K V) (calls : List (Call K V E)) (entry : K × V) : Prop :=
  ∃! i : ℕ, ∃ report : List (K × V), (reports cache calls)[i]? = some report ∧ entry ∈ report

variable {c : Call K V E} {calls : List (Call K V E)}

theorem run_cache : (c.run cache).1[k]? = some v ↔
    cache[k]? = some v ∨ (k, v) ∈ added c.fetch cache c.keys :=
  discover_cache

theorem mem_run_of_mem_added (h : (k, v) ∈ added c.fetch cache c.keys) : k ∈ (c.run cache).1 :=
  (ExtTreeMap.getElem?_eq_some_iff.mp (run_cache.mpr (Or.inr h))).1

theorem mem_run_of_mem (h : k ∈ cache) : k ∈ (c.run cache).1 :=
  (ExtTreeMap.getElem?_eq_some_iff.mp
    (run_cache.mpr (Or.inl (ExtTreeMap.getElem?_eq_some_getElem h)))).1

/-- What is cached stays cached. -/
theorem cacheAfter_of_cached (h : cache[k]? = some v) : (cacheAfter cache calls)[k]? = some v := by
  induction calls generalizing cache with
  | nil => exact h
  | cons c calls ih => exact ih (run_cache.mpr (Or.inl h))

omit [LawfulEqOrd K] in
/-- What a call reports is what it has added. -/
theorem Call.mem_added_of_mem_reported (h : (k, v) ∈ c.reported cache) :
    (k, v) ∈ added c.fetch cache c.keys := by
  rcases Call.reported_eq (c := c) cache with ⟨heq, -⟩ | ⟨hnil, -⟩
  · exact heq ▸ h
  · rw [hnil] at h
    cases h

/-- What is reported was missing. -/
theorem not_mem_of_mem_reports {report : List (K × V)} (hreport : report ∈ reports cache calls)
    (h : (k, v) ∈ report) : k ∉ cache := by
  induction calls generalizing cache with
  | nil => cases hreport
  | cons c calls ih =>
    rcases List.mem_cons.mp hreport with rfl | hreport
    · exact not_mem_of_mem_added (Call.mem_added_of_mem_reported h)
    · exact fun hk ↦ ih hreport (mem_run_of_mem hk)

/-- The first call reports the entry: the others find its key in the cache. -/
theorem reportedOnce_cons_of_mem (h : (k, v) ∈ c.reported cache) :
    ReportedOnce cache (c :: calls) (k, v) := by
  refine ⟨0, ⟨_, rfl, h⟩, ?_⟩
  rintro (_ | i) ⟨report, hreport, hmem⟩
  · rfl
  · have hlater : (reports (c.run cache).1 calls)[i]? = some report := hreport
    have hnot := not_mem_of_mem_reports (List.mem_of_getElem? hlater) hmem
    exact absurd (mem_run_of_mem_added (Call.mem_added_of_mem_reported h)) hnot

omit [LawfulEqOrd K] in
/-- The first call does not report the entry. -/
theorem reportedOnce_cons_of_not_mem (h : (k, v) ∉ c.reported cache) :
    ReportedOnce cache (c :: calls) (k, v) ↔ ReportedOnce (c.run cache).1 calls (k, v) := by
  have hfirst : ∀ report, (reports cache (c :: calls))[0]? = some report →
      (k, v) ∉ report := by
    rintro _ ⟨⟩
    exact h
  constructor
  · rintro ⟨i, ⟨report, hreport, hmem⟩, hunique⟩
    cases i with
    | zero => exact absurd hmem (hfirst report hreport)
    | succ i =>
      refine ⟨i, ⟨report, hreport, hmem⟩, fun j hj ↦ ?_⟩
      exact Nat.succ.inj (hunique (j + 1) hj)
  · rintro ⟨i, ⟨report, hreport, hmem⟩, hunique⟩
    refine ⟨i + 1, ⟨report, hreport, hmem⟩, ?_⟩
    rintro (_ | j) ⟨report', hreport', hmem'⟩
    · exact absurd hmem' (hfirst report' hreport')
    · exact congrArg Nat.succ (hunique j ⟨report', hreport', hmem'⟩)

/-- A call whose additions are all reported once reports them itself: the others find them in the
cache. -/
theorem Call.reported_eq_added_of_once (calls : List (Call K V E))
    (h : ∀ k v, (k, v) ∈ added c.fetch cache c.keys → ReportedOnce cache (c :: calls) (k, v)) :
    c.reported cache = added c.fetch cache c.keys := by
  rcases Call.reported_eq (c := c) cache with ⟨heq, -⟩ | ⟨hnil, -⟩
  · exact heq
  · rw [hnil, eq_comm, List.eq_nil_iff_forall_not_mem]
    rintro ⟨k, v⟩ hmem
    have honce := h k v hmem
    rw [reportedOnce_cons_of_not_mem (by rw [hnil]; exact List.not_mem_nil)] at honce
    obtain ⟨i, ⟨report, hreport, hreported⟩, -⟩ := honce
    exact not_mem_of_mem_reports (List.mem_of_getElem? hreport) hreported
      (mem_run_of_mem_added hmem)

/-- An entry that is in the cache in the end and was not at first was added by the first call, or
by a later one to a key that is missing after it. -/
theorem mem_added_or_of_cacheAfter (h : (cacheAfter cache (c :: calls))[k]? = some v)
    (hnot : k ∉ cache) : (k, v) ∈ added c.fetch cache c.keys ∨ k ∉ (c.run cache).1 := by
  by_cases hmem : k ∈ (c.run cache).1
  · left
    have hrun := ExtTreeMap.getElem?_eq_some_getElem hmem
    have hlast : (cacheAfter (c.run cache).1 calls)[k]? = _ := cacheAfter_of_cached hrun
    have hvalue := hlast.symm.trans h
    rw [hvalue] at hrun
    refine (run_cache.mp hrun).resolve_left fun hold ↦ ?_
    exact hnot (ExtTreeMap.getElem?_eq_some_iff.mp hold).1
  · exact Or.inr hmem

/-- **Each value once.**  Whatever the cache holds to begin with, every entry that the calls add is
reported by exactly one of them if and only if all the calls are atomic. -/
theorem forall_reportedOnce_iff :
    (∀ k v, (cacheAfter cache calls)[k]? = some v → k ∉ cache →
        ReportedOnce cache calls (k, v)) ↔ AllAtomic cache calls := by
  induction calls generalizing cache with
  | nil =>
    refine ⟨fun _ ↦ trivial, fun _ k v hk hnot ↦ ?_⟩
    exact absurd (ExtTreeMap.getElem?_eq_some_iff.mp hk).1 hnot
  | cons c calls ih =>
    have hnew : ∀ {k v}, k ∉ (c.run cache).1 → (k, v) ∉ c.reported cache :=
      fun hnot hmem ↦ hnot (mem_run_of_mem_added (Call.mem_added_of_mem_reported hmem))
    rw [AllAtomic, ← ih, ← Call.reported_eq_added_iff]
    constructor
    · intro h
      refine ⟨Call.reported_eq_added_of_once calls fun k v hmem ↦ ?_, fun k v hk hnot ↦ ?_⟩
      · have hlast : (cacheAfter (c.run cache).1 calls)[k]? = some v :=
          cacheAfter_of_cached (run_cache.mpr (Or.inr hmem))
        exact h k v hlast (not_mem_of_mem_added hmem)
      · exact (reportedOnce_cons_of_not_mem (hnew hnot)).mp
          (h k v hk fun hmem ↦ hnot (mem_run_of_mem hmem))
    · rintro ⟨hatomic, h⟩ k v hk hnot
      rcases mem_added_or_of_cacheAfter hk hnot with hmem | hmissing
      · exact reportedOnce_cons_of_mem (hatomic ▸ hmem)
      · exact (reportedOnce_cons_of_not_mem (hnew hmissing)).mpr (h k v hk hmissing)

/-- **Every value that is added is reported once**, on a cache that is empty at first, exactly when
in every call that fails the first key that is missing is the one that cannot be fetched. -/
theorem reportedOnce_iff :
    (∀ k v, (cacheAfter ∅ calls)[k]? = some v → ReportedOnce ∅ calls (k, v)) ↔
      AllAtomic ∅ calls := by
  rw [← forall_reportedOnce_iff]
  exact ⟨fun h k v hk _ ↦ h k v hk, fun h k v hk ↦ h k v hk ExtTreeMap.not_mem_empty⟩

namespace Lost

/-- Every key but `2` can be fetched, and its value is the key. -/
def fetchBut2 (key : ℕ) : Except Unit ℕ := if key = 2 then .error () else .ok key

/-- A call that fails at the first key that is missing, and one that succeeds. -/
def kept : List (Call ℕ ℕ Unit) := [⟨[2, 1], fetchBut2⟩, ⟨[1, 3, 1], fetchBut2⟩]

/-- A call that fails at the second key that is missing, and one that succeeds. -/
def lost : List (Call ℕ ℕ Unit) := [⟨[1, 2], fetchBut2⟩, ⟨[1, 3], fetchBut2⟩]

end Lost

open Lost in
/-- What a call that fails has not added, a later one reports. -/
theorem reportedOnce_iff_kept : AllAtomic ∅ kept ∧
    ∀ k v, (cacheAfter ∅ kept)[k]? = some v → ReportedOnce ∅ kept (k, v) := by
  have hatomic : AllAtomic ∅ kept := by
    refine ⟨Or.inr ?_, Or.inl ?_, trivial⟩
    · simp [fetchBut2]
    · simp [fetchBut2]
  exact ⟨hatomic, reportedOnce_iff.mpr hatomic⟩

open Lost in
/-- **A value is lost.**  The fetch of `2` fails after that of `1` has succeeded; `1` is cached, and
the second call skips it. -/
theorem not_reportedOnce_lost :
    (cacheAfter ∅ lost)[1]? = some 1 ∧ ¬ ReportedOnce ∅ lost (1, 1) := by
  have hreports : reports ∅ lost = [[], [(3, 3)]] := by decide +kernel
  refine ⟨by decide +kernel, ?_⟩
  rintro ⟨i, ⟨report, hreport, hmem⟩, -⟩
  rw [hreports] at hreport
  have hnone : ∀ report ∈ [[], [((3 : ℕ), (3 : ℕ))]], (1, 1) ∉ report := by decide
  exact hnone report (List.mem_of_getElem? hreport) hmem

end ProviderExt
