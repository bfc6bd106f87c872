import RethExt.Lib.Pool
import RethExt.ProviderExt.Discover

/-!
# Calls that share a cache

`cached_fetch` and `cached_discover` take the lock of the cache twice for a key, once to look it up
and once to insert what was fetched, and they hold it for neither the fetch nor the time between.
So calls that run at the same time interleave: a `Task` is one call, with the place it has got to,
and a step of it is one critical section, or the end of a fetch, whose result may be anything, or
the end of the call, when its future is dropped.

What a call is promised whatever the others do is `Task.Kept`: it depends on the cache by its keys
alone, and no call removes one.  What the callers get follows from it: `Calls.promises_of_run`.
-/

set_option autoImplicit false

open Std

namespace ProviderExt

open RexSim (HashMap)

/-! ## One call -/

inductive Request (K : Type)
  /-- `cached_fetch` -/
  | fetch (key : K)
  /-- `cached_discover` -/
  | discover (keys : List K)

def Request.keys {K : Type} : Request K → List K
  | fetch key => [key]
  | discover keys => keys

/-- What a call returns. -/
inductive Response (V : Type)
  | value (v : V)
  | values (vs : List V)

/-- Where a call is.  `rest` are the keys after the one it is at. -/
inductive Pc (K V E : Type)
  /-- It is about to look up the first of the keys. -/
  | lookUp (keys : List K)
  /-- It awaits the fetch. -/
  | fetching (key : K) (rest : List K)
  /-- It is about to insert the value. -/
  | inserting (key : K) (v : V) (rest : List K)
  | returned (result : Except E (Response V))
  | dropped

/-- The key that the call is at. -/
def Pc.key {K V E : Type} : Pc K V E → Option K
  | lookUp keys => keys.head?
  | fetching key _ => some key
  | inserting key _ _ => some key
  | returned _ => none
  | dropped => none

/-- A call of one of the two functions.  `out` is the vector of `cached_discover`; `fetched` and
`stored` are kept for the proofs. -/
structure Task (K V E : Type) where
  request : Request K
  pc : Pc K V E
  out : List V := []
  /-- The keys that the call has begun to fetch: a fetch counts from the lookup that missed, though
  `fetch` is called only after the read lock is released. -/
  fetched : List K := []
  /-- What it has put in the cache. -/
  stored : List (K × V) := []

inductive TaskEvent (V E : Type)
  /-- The read lock is taken for the next key, if there is one. -/
  | lookUp
  /-- The fetch ends. -/
  | fetched (result : Except E V)
  /-- The write lock is taken. -/
  | insert
  /-- The future is dropped. -/
  | drop

namespace Task

variable {K V E : Type} [Ord K] [TransOrd K]

def new (request : Request K) : Task K V E := { request, pc := .lookUp request.keys }

/-- The key is cached: `cached_fetch` returns the value and `cached_discover` goes on. -/
def hit (t : Task K V E) (v : V) (rest : List K) : Task K V E :=
  match t.request with
  | .fetch _ => { t with pc := .returned (.ok (.value v)) }
  | .discover _ => { t with pc := .lookUp rest }

/-- The value was inserted: `cached_fetch` returns it and `cached_discover` keeps it. -/
def inserted (t : Task K V E) (key : K) (v : V) (rest : List K) : Task K V E :=
  match t.request with
  | .fetch _ => { t with pc := .returned (.ok (.value v)), stored := t.stored ++ [(key, v)] }
  | .discover _ =>
    { t with pc := .lookUp rest, out := t.out ++ [v], stored := t.stored ++ [(key, v)] }

def act (cache : HashMap K V) (t : Task K V E) :
    TaskEvent V E → Option (HashMap K V × Task K V E)
  | .lookUp => match t.pc with
    | .lookUp [] => some (cache, { t with pc := .returned (.ok (.values t.out)) })
    | .lookUp (key :: rest) => match cache[key]? with
      | some v => some (cache, t.hit v rest)
      | none => some (cache, { t with pc := .fetching key rest, fetched := t.fetched ++ [key] })
    | _ => none
  | .fetched result => match t.pc with
    | .fetching key rest => match result with
      | .ok v => some (cache, { t with pc := .inserting key v rest })
      | .error e => some (cache, { t with pc := .returned (.error e) })
    | _ => none
  | .insert => match t.pc with
    | .inserting key v rest => some (cache.insert key v, t.inserted key v rest)
    | _ => none
  | .drop => match t.pc with
    | .returned _ => none
    | .dropped => none
    | _ => some (cache, { t with pc := .dropped })

/-- **What each event does.** -/
inductive Transition (cache : HashMap K V) (t : Task K V E) :
    TaskEvent V E → HashMap K V → Task K V E → Prop
  | finished (hpc : t.pc = .lookUp []) :
      Transition cache t .lookUp cache { t with pc := .returned (.ok (.values t.out)) }
  | hit {key : K} {rest : List K} {v : V} (hpc : t.pc = .lookUp (key :: rest))
      (hv : cache[key]? = some v) : Transition cache t .lookUp cache (t.hit v rest)
  | missed {key : K} {rest : List K} (hpc : t.pc = .lookUp (key :: rest))
      (hnone : cache[key]? = none) :
      Transition cache t .lookUp cache
        { t with pc := .fetching key rest, fetched := t.fetched ++ [key] }
  | fetched {key : K} {rest : List K} {v : V} (hpc : t.pc = .fetching key rest) :
      Transition cache t (.fetched (.ok v)) cache { t with pc := .inserting key v rest }
  | failed {key : K} {rest : List K} {e : E} (hpc : t.pc = .fetching key rest) :
      Transition cache t (.fetched (.error e)) cache { t with pc := .returned (.error e) }
  | inserted {key : K} {rest : List K} {v : V} (hpc : t.pc = .inserting key v rest) :
      Transition cache t .insert (cache.insert key v) (t.inserted key v rest)
  | dropped : Transition cache t .drop cache { t with pc := .dropped }

variable {cache cache' : HashMap K V} {t t' : Task K V E} {e : TaskEvent V E}

theorem transition_of_act (h : t.act cache e = some (cache', t')) :
    Transition cache t e cache' t' := by
  cases e with
  | lookUp =>
    rw [act] at h
    split at h
    · cases h; exact .finished ‹_›
    · split at h <;> cases h
      · exact .hit ‹_› ‹_›
      · exact .missed ‹_› ‹_›
    · simp at h
  | fetched result =>
    rw [act] at h
    split at h
    · cases result <;> cases h
      · exact .failed ‹_›
      · exact .fetched ‹_›
    · simp at h
  | insert =>
    rw [act] at h
    split at h <;> cases h
    exact .inserted ‹_›
  | drop =>
    rw [act] at h
    split at h <;> cases h
    exact .dropped

/-! ## What a call is promised -/

/-- What a call knows of the keys before the one it is at: they are cached, and those that it
fetched it has stored. -/
structure Passed (cache : HashMap K V) (stored : List (K × V)) (seen : List K) : Prop where
  cached : ∀ k ∈ seen, k ∈ cache
  sublist : (stored.map Prod.fst).Sublist seen

/-- What holds at each place. -/
def At (cache : HashMap K V) (t : Task K V E) : Pc K V E → Prop
  | .lookUp keys => t.fetched = t.stored.map Prod.fst ∧
      (∃ seen, t.request.keys = seen ++ keys ∧ Passed cache t.stored seen) ∧
        (keys = [] → ∃ keys, t.request = .discover keys)
  | .fetching key rest | .inserting key _ rest => t.fetched = t.stored.map Prod.fst ++ [key] ∧
      ∃ seen, t.request.keys = seen ++ key :: rest ∧ Passed cache t.stored seen
  | .returned (.ok response) => t.fetched = t.stored.map Prod.fst ∧
      Passed cache t.stored t.request.keys ∧ match t.request, response with
        | .fetch key, .value v => t.stored = [] ∨ t.stored = [(key, v)]
        | .discover _, .values vs => vs = t.stored.map Prod.snd
        | _, _ => False
  | .returned (.error _) => True
  | .dropped => True

/-- **What a call is promised**, whatever the others do. -/
structure Kept (cache : HashMap K V) (t : Task K V E) : Prop where
  sublist : t.fetched.Sublist t.request.keys
  nodup : t.fetched.Nodup
  stored : ∀ k ∈ t.stored.map Prod.fst, k ∈ cache
  out : ∀ keys, t.request = .discover keys → t.out = t.stored.map Prod.snd
  pc : t.At cache t.pc

theorem Passed.mono {stored : List (K × V)} {seen : List K} (h : Passed cache stored seen)
    (hcache : ∀ k ∈ cache, k ∈ cache') : Passed cache' stored seen where
  cached k hk := hcache k (h.cached k hk)
  sublist := h.sublist

theorem At.mono {pc : Pc K V E} (h : t.At cache pc) (hcache : ∀ k ∈ cache, k ∈ cache') :
    t.At cache' pc := by
  cases pc with
  | lookUp keys =>
    obtain ⟨hfetched, ⟨seen, hkeys, hpassed⟩, hrequest⟩ := h
    exact ⟨hfetched, ⟨seen, hkeys, hpassed.mono hcache⟩, hrequest⟩
  | fetching key rest | inserting key v rest =>
    obtain ⟨hfetched, seen, hkeys, hpassed⟩ := h
    exact ⟨hfetched, seen, hkeys, hpassed.mono hcache⟩
  | returned result =>
    cases result with
    | error e => trivial
    | ok response => exact ⟨h.1, h.2.1.mono hcache, h.2.2⟩
  | dropped => trivial

/-- What a call is promised depends on the cache by its keys alone, of which none may be removed. -/
theorem Kept.mono (h : t.Kept cache) (hcache : ∀ k ∈ cache, k ∈ cache') : t.Kept cache' :=
  { h with
    stored := fun k hk ↦ hcache k (h.stored k hk)
    pc := h.pc.mono hcache }

/-- No call removes a key. -/
theorem mem_of_act (h : t.act cache e = some (cache', t')) {k : K} (hk : k ∈ cache) :
    k ∈ cache' := by
  cases transition_of_act h with
  | inserted => exact ExtTreeMap.mem_insert.mpr (Or.inr hk)
  | _ => exact hk

theorem kept_new (cache : HashMap K V) (request : Request K) :
    (new request : Task K V E).Kept cache where
  sublist := List.nil_sublist _
  nodup := List.nodup_nil
  stored _ h := by cases h
  out _ _ := rfl
  pc := by
    refine ⟨rfl, ⟨[], rfl, fun _ h ↦ absurd h List.not_mem_nil, List.nil_sublist _⟩, fun hkeys ↦ ?_⟩
    cases request with
    | fetch key => cases hkeys
    | discover keys => exact ⟨keys, rfl⟩

omit [Ord K] [TransOrd K] in
/-- `cached_fetch` has one key. -/
theorem eq_of_keys_fetch {key' key : K} {seen rest : List K}
    (h : (Request.fetch key').keys = seen ++ key :: rest) : seen = [] ∧ key = key' ∧ rest = [] := by
  cases seen with
  | nil => simpa [Request.keys, eq_comm] using h
  | cons k seen => simp [Request.keys] at h

/-- A call of `cached_fetch` is at its key. -/
theorem Kept.key_eq (h : t.Kept cache) {key key' : K} (hpc : t.pc.key = some key)
    (hrequest : t.request = .fetch key') : key = key' := by
  have hat := h.pc
  cases hpc' : t.pc with
  | lookUp keys =>
    rw [hpc'] at hat hpc
    obtain ⟨-, ⟨seen, hkeys, -⟩, -⟩ := hat
    cases keys with
    | nil => cases hpc
    | cons _ rest =>
      cases hpc
      rw [hrequest] at hkeys
      exact (eq_of_keys_fetch hkeys).2.1
  | fetching _ rest | inserting _ _ rest =>
    rw [hpc'] at hat hpc
    obtain ⟨-, seen, hkeys, -⟩ := hat
    cases hpc
    rw [hrequest] at hkeys
    exact (eq_of_keys_fetch hkeys).2.1
  | returned | dropped => rw [hpc'] at hpc; cases hpc

/-- A key that is found is passed. -/
theorem Passed.concat {stored : List (K × V)} {seen : List K} {key : K}
    (h : Passed cache stored seen) (hkey : key ∈ cache) : Passed cache stored (seen ++ [key]) where
  cached k hk := by
    rcases List.mem_append.mp hk with hk | hk
    · exact h.cached k hk
    · exact List.mem_singleton.mp hk ▸ hkey
  sublist := h.sublist.trans (List.sublist_append_left seen [key])

theorem Kept.hit (h : t.Kept cache) {key : K} {rest : List K} {v : V}
    (hpc : t.pc = .lookUp (key :: rest)) (hv : cache[key]? = some v) :
    (t.hit v rest).Kept cache := by
  have hkey : key ∈ cache := (ExtTreeMap.getElem?_eq_some_iff.mp hv).1
  have hat := h.pc
  rw [hpc] at hat
  obtain ⟨hfetched, ⟨seen, hkeys, hpassed⟩, -⟩ := hat
  have hnext := hpassed.concat hkey
  rw [Task.hit]
  split
  · rename_i key' hrequest
    rw [hrequest] at hkeys
    obtain ⟨rfl, rfl, rfl⟩ := eq_of_keys_fetch hkeys
    refine { h with pc := ⟨hfetched, ?_, ?_⟩ }
    · simpa [hrequest, Request.keys] using hnext
    · simp only [hrequest]
      exact Or.inl (by simpa using hpassed.sublist)
  · rename_i keys hrequest
    exact { h with
      pc := ⟨hfetched, ⟨seen ++ [key], by simp [hkeys], hnext⟩, fun _ ↦ ⟨keys, hrequest⟩⟩ }

theorem Kept.inserted (h : t.Kept cache) {key : K} {rest : List K} {v : V}
    (hpc : t.pc = .inserting key v rest) :
    (t.inserted key v rest).Kept (cache.insert key v) := by
  have hat := h.pc
  rw [hpc] at hat
  obtain ⟨hfetched, seen, hkeys, hpassed⟩ := hat
  have hmono : ∀ k ∈ cache, k ∈ cache.insert key v :=
    fun k hk ↦ ExtTreeMap.mem_insert.mpr (Or.inr hk)
  have hstored : ∀ k ∈ (t.stored ++ [(key, v)]).map Prod.fst, k ∈ cache.insert key v := by
    intro k hk
    rw [List.map_append, List.mem_append] at hk
    rcases hk with hk | hk
    · exact hmono k (h.stored k hk)
    · rw [List.mem_singleton.mp hk]
      exact ExtTreeMap.mem_insert_self
  have hcached : ∀ k ∈ seen ++ [key], k ∈ cache.insert key v := by
    intro k hk
    rcases List.mem_append.mp hk with hk | hk
    · exact hmono k (hpassed.cached k hk)
    · rw [List.mem_singleton.mp hk]
      exact ExtTreeMap.mem_insert_self
  have hsublist : ((t.stored ++ [(key, v)]).map Prod.fst).Sublist (seen ++ [key]) := by
    simpa using hpassed.sublist
  rw [Task.inserted]
  split
  · rename_i key' hrequest
    have hrequest' := hkeys
    rw [hrequest] at hrequest'
    obtain ⟨rfl, rfl, rfl⟩ := eq_of_keys_fetch hrequest'
    have hnil : t.stored = [] := by simpa using hpassed.sublist
    exact { h with
      stored := hstored
      out := fun keys hkeys ↦ by cases hrequest.symm.trans hkeys
      pc := ⟨by simp [hfetched], ⟨hkeys ▸ hcached, hkeys ▸ hsublist⟩, by simp [hrequest, hnil]⟩ }
  · rename_i keys hrequest
    exact { h with
      stored := hstored
      out := fun keys hkeys ↦ by simp [h.out keys hkeys]
      pc := ⟨by simp [hfetched], ⟨seen ++ [key], by simp [hkeys], hcached, hsublist⟩,
        fun _ ↦ ⟨keys, hrequest⟩⟩ }

/-- **A step of the call** keeps what it is promised. -/
theorem Kept.act (h : t.Kept cache) (hact : t.act cache e = some (cache', t')) :
    t'.Kept cache' := by
  have hat := h.pc
  cases transition_of_act hact with
  | finished hpc =>
    rw [hpc] at hat
    obtain ⟨hfetched, ⟨seen, hkeys, hpassed⟩, hrequest⟩ := hat
    obtain ⟨keys, hkeys'⟩ := hrequest rfl
    refine { h with pc := ⟨hfetched, by simpa [hkeys] using hpassed, ?_⟩ }
    simp only [hkeys']
    exact h.out keys hkeys'
  | hit hpc hv => exact h.hit hpc hv
  | @missed key rest hpc hnone =>
    rw [hpc] at hat
    obtain ⟨hfetched, ⟨seen, hkeys, hpassed⟩, -⟩ := hat
    have hnot : key ∉ t.fetched := fun hmem ↦ by
      rw [hfetched] at hmem
      have hv := ExtTreeMap.getElem?_eq_some_getElem (h.stored key hmem)
      cases hnone.symm.trans hv
    refine { h with sublist := ?_, nodup := ?_, pc := ⟨by simp [hfetched], seen, hkeys, hpassed⟩ }
    · rw [hfetched, hkeys]
      exact hpassed.sublist.append (List.singleton_sublist.mpr List.mem_cons_self)
    · exact List.nodup_append.mpr ⟨h.nodup, List.pairwise_singleton _ key, by
        rintro a ha b hb rfl
        exact hnot (List.mem_singleton.mp hb ▸ ha)⟩
  | fetched hpc =>
    rw [hpc] at hat
    exact { h with pc := hat }
  | failed => exact { h with pc := trivial }
  | inserted hpc => exact h.inserted hpc
  | dropped => exact { h with pc := trivial }

end Task

/-! ## All calls together -/

/-- The calls on one cache. -/
abbrev Calls (K V E : Type) [Ord K] := Lts.Pool (HashMap K V) (Task K V E)

namespace Calls

variable {K V E : Type} [Ord K] [TransOrd K]

/-- The cache is empty at first. -/
def empty (K V E : Type) [Ord K] : Calls K V E := { shared := ∅ }

abbrev step : Calls K V E → Lts.PoolEvent (Request K) (TaskEvent V E) → Option (Calls K V E) :=
  Lts.Pool.step Task.new Task.act

/-- The runs in which calls are made and go on in any order. -/
abbrev Run : Calls K V E → Calls K V E → Prop := Lts.Run (Lts.Executes step) Lts.anyEvent

variable {p p' : Calls K V E} {e : Lts.PoolEvent (Request K) (TaskEvent V E)}

/-- Every call is given what it is promised. -/
def Kept (p : Calls K V E) : Prop := ∀ t ∈ p.tasks, t.Kept p.shared

theorem Kept.step (hp : Kept p) (hs : step p e = some p') : Kept p' :=
  Lts.Pool.forall_of_step (P := Task.Kept) (Q := fun _ _ _ ↦ True) Task.kept_new
    (fun h hact _ ↦ h.act hact) (fun _ hact _ h ↦ h.mono fun _ ↦ Task.mem_of_act hact) hs
    (by cases e <;> simp [Lts.Pool.Guard]) hp

/-- No step removes a key. -/
theorem mem_of_step (hs : step p e = some p') {k : K} (hk : k ∈ p.shared) : k ∈ p'.shared := by
  cases Lts.Pool.transition_of_step hs with
  | start => exact hk
  | task ht hact => exact Task.mem_of_act hact hk

end Calls

/-! ## Where a value comes from -/

namespace Task

variable {K V E : Type} [Ord K] [TransOrd K] {cache cache' : HashMap K V} {t t' : Task K V E}
  {e : TaskEvent V E} {k : K} {v : V}

/-- What a call has stored it has stored for good. -/
theorem stored_of_act (h : t.act cache e = some (cache', t')) : t.stored <+: t'.stored := by
  cases transition_of_act h with
  | hit =>
    rw [hit]
    split <;> exact List.prefix_rfl
  | inserted =>
    rw [inserted]
    split <;> exact List.prefix_append _ _
  | _ => exact List.prefix_rfl

variable [LawfulEqOrd K]

/-- What is cached after a step of a call was cached before, or the call has stored it. -/
theorem cached_of_act (h : t.act cache e = some (cache', t')) (hv : cache'[k]? = some v) :
    cache[k]? = some v ∨ (k, v) ∈ t'.stored := by
  cases transition_of_act h with
  | @inserted key rest v' hpc =>
    rw [ExtTreeMap.getElem?_insert] at hv
    split at hv
    · rename_i hkey
      rw [LawfulEqCmp.compare_eq_iff_eq] at hkey
      cases hv
      subst hkey
      right
      rw [inserted]
      split <;> exact List.mem_append_right _ (List.mem_singleton_self _)
    · exact Or.inl hv
  | _ => exact Or.inl hv

omit [LawfulEqOrd K] in
/-- `cached_fetch` returns a value that is cached, or one that it has stored. -/
theorem value_of_act (hkept : t.Kept cache) (h : t.act cache e = some (cache', t'))
    (hrequest : t'.request = .fetch k) (hpc' : t'.pc = .returned (.ok (.value v))) :
    cache[k]? = some v ∨ (k, v) ∈ t'.stored := by
  have hat := hkept.pc
  cases transition_of_act h with
  | finished | missed | fetched | failed | dropped => cases hpc'
  | @hit key rest v' hpc hv =>
    rw [hpc] at hat
    obtain ⟨-, ⟨seen, hkeys, -⟩, -⟩ := hat
    rw [hit] at hpc' hrequest
    split at hpc'
    · rename_i key' hfetch
      rw [hfetch] at hkeys hrequest
      cases hpc'
      cases hrequest
      obtain ⟨-, rfl, -⟩ := eq_of_keys_fetch hkeys
      exact Or.inl hv
    · simp at hpc'
  | @inserted key rest v' hpc =>
    rw [hpc] at hat
    obtain ⟨-, seen, hkeys, -⟩ := hat
    rw [inserted] at hpc' hrequest ⊢
    split at hpc'
    · rename_i key' hfetch
      rw [hfetch] at hkeys hrequest
      cases hpc'
      cases hrequest
      obtain ⟨-, rfl, -⟩ := eq_of_keys_fetch hkeys
      exact Or.inr (List.mem_append_right _ (List.mem_singleton_self _))
    · simp at hpc'

end Task

namespace Calls

variable {K V E : Type} [Ord K] [TransOrd K] {p p' : Calls K V E}
  {e : Lts.PoolEvent (Request K) (TaskEvent V E)}

/-- The value was fetched for the key and stored by one of the calls. -/
def Sourced (p : Calls K V E) (k : K) (v : V) : Prop := ∃ t ∈ p.tasks, (k, v) ∈ t.stored

theorem Sourced.step {k : K} {v : V} (h : Sourced p k v) (hs : step p e = some p') :
    Sourced p' k v := by
  obtain ⟨t, ht, hstored⟩ := h
  obtain ⟨t', ht', rfl | ⟨e', hact⟩⟩ := Lts.Pool.exists_of_step hs ht
  · exact ⟨t', ht', hstored⟩
  · exact ⟨t', ht', (Task.stored_of_act hact).subset hstored⟩

/-- Every value that is cached, or returned by `cached_fetch`, was stored by one of the calls. -/
structure AllSourced (p : Calls K V E) : Prop where
  kept : Kept p
  cached : ∀ k v, p.shared[k]? = some v → Sourced p k v
  value : ∀ t ∈ p.tasks, ∀ k v, t.request = .fetch k → t.pc = .returned (.ok (.value v)) →
    Sourced p k v

variable [LawfulEqOrd K]

theorem AllSourced.step (h : AllSourced p) (hs : step p e = some p') : AllSourced p' where
  kept := h.kept.step hs
  cached k v hv := by
    cases Lts.Pool.transition_of_step hs with
    | start => exact (h.cached k v hv).step hs
    | task ht hact =>
      rcases Task.cached_of_act hact hv with hv | hstored
      · exact (h.cached k v hv).step hs
      · obtain ⟨hi, -⟩ := List.getElem?_eq_some_iff.mp ht
        exact ⟨_, List.mem_set hi _, hstored⟩
  value u hu k v hrequest hpc := by
    cases Lts.Pool.transition_of_step hs with
    | start r =>
      rcases List.mem_append.mp hu with hu | hu
      · exact (h.value u hu k v hrequest hpc).step hs
      · rw [List.mem_singleton.mp hu] at hpc
        cases hpc
    | task ht hact =>
      rcases List.mem_or_eq_of_mem_set hu with hu' | rfl
      · exact (h.value u hu' k v hrequest hpc).step hs
      · rcases Task.value_of_act (h.kept _ (List.mem_of_getElem? ht)) hact hrequest hpc with
          hv | hstored
        · exact (h.cached k v hv).step hs
        · exact ⟨u, hu, hstored⟩

theorem allSourced_of_run (h : Run (empty K V E) p) : AllSourced p := by
  refine h.invariant (fun _ _ _ hp hs _ ↦ hp.step hs) ⟨?_, fun k v hv ↦ ?_, ?_⟩
  · exact fun _ ht ↦ absurd ht List.not_mem_nil
  · exact absurd hv RexSim.getElem?_empty_ne
  · exact fun _ ht ↦ absurd ht List.not_mem_nil

/-- **What the callers get.**  What is cached was stored by one of the calls.  When `cached_fetch`
returns a value, its key is cached for good and the value was stored for this key by one of the
calls.  When `cached_discover` returns, all of its keys are cached for good, and it returns the
values that it has stored itself, for keys that are all different, in the order of its keys. -/
structure Promises (p : Calls K V E) : Prop where
  cached : ∀ k v, p.shared[k]? = some v → Sourced p k v
  fetch : ∀ t ∈ p.tasks, ∀ k v, t.request = .fetch k → t.pc = .returned (.ok (.value v)) →
    (∀ p', Run p p' → k ∈ p'.shared) ∧ Sourced p k v
  discover : ∀ t ∈ p.tasks, ∀ keys vs, t.request = .discover keys →
    t.pc = .returned (.ok (.values vs)) →
      (∀ p', Run p p' → ∀ k ∈ keys, k ∈ p'.shared) ∧ vs = t.stored.map Prod.snd ∧
        (t.stored.map Prod.fst).Sublist keys ∧ (t.stored.map Prod.fst).Nodup

omit [LawfulEqOrd K] in
theorem mem_of_run (h : Run p p') {k : K} (hk : k ∈ p.shared) : k ∈ p'.shared := by
  induction h with
  | refl => exact hk
  | tail _ hlast ih =>
    obtain ⟨e, hs, -⟩ := hlast
    exact mem_of_step hs ih

theorem promises_of_run (h : Run (empty K V E) p) : Promises p := by
  have hsourced := allSourced_of_run h
  have hkept := hsourced.kept
  refine ⟨hsourced.cached, ?_, ?_⟩
  · intro t ht k v hrequest hpc
    refine ⟨fun p' hp' ↦ mem_of_run hp' ?_, hsourced.value t ht k v hrequest hpc⟩
    have hat := (hkept t ht).pc
    rw [hpc] at hat
    exact hat.2.1.cached k (by simp [hrequest, Request.keys])
  · intro t ht keys vs hrequest hpc
    have hat := (hkept t ht).pc
    rw [hpc] at hat
    obtain ⟨hfetched, hpassed, hvalues⟩ := hat
    rw [hrequest] at hpassed
    simp only [hrequest] at hvalues
    refine ⟨fun p' hp' k hk ↦ mem_of_run hp' (hpassed.cached k hk), hvalues, hpassed.sublist, ?_⟩
    exact hfetched ▸ (hkept t ht).nodup

namespace Overlap

/-- Two calls look up `1` before either of them has inserted it. -/
def events : List (Lts.PoolEvent (Request ℕ) (TaskEvent ℕ Unit)) :=
  [.start (.discover [1, 2, 1]), .start (.fetch 1), .task 0 .lookUp, .task 1 .lookUp,
    .task 0 (.fetched (.ok 10)), .task 1 (.fetched (.ok 11)), .task 0 .insert, .task 1 .insert,
    .task 0 .lookUp, .task 0 (.fetched (.ok 20)), .task 0 .insert, .task 0 .lookUp, .task 0 .lookUp]

/-- What is seen of the cache, and of what the calls have stored. -/
def view (p : Calls ℕ ℕ Unit) : List (Option ℕ) × List (List (ℕ × ℕ)) :=
  ([p.shared[1]?, p.shared[2]?], p.tasks.map Task.stored)

end Overlap

open Overlap in
/-- The later insertion stays, and the caller that inserted first is given another value. -/
theorem promises_of_run_overlap :
    ∃ p : Calls ℕ ℕ Unit, Run (empty ℕ ℕ Unit) p ∧
      view p = ([some 11, some 20], [[(1, 10), (2, 20)], [(1, 11)]]) ∧ Promises p := by
  have hview : (Lts.replay step Lts.anyCheck events (empty ℕ ℕ Unit)).map view =
      some ([some 11, some 20], [[(1, 10), (2, 20)], [(1, 11)]]) := by decide +kernel
  obtain ⟨p, hp, hview⟩ := Option.map_eq_some_iff.mp hview
  have hrun : Run (empty ℕ ℕ Unit) p := .of_replay hp fun _ _ _ ↦ trivial
  exact ⟨p, hrun, hview, promises_of_run hrun⟩

end Calls

end ProviderExt
