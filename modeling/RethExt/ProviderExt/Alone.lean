import RethExt.ProviderExt.Concurrent

/-!
# A call by itself

The steps of a call refine the functions that `cached_fetch` and `cached_discover` are when nothing
runs at the same time: while the other calls do not go on, the call ends with the result of the
function on the cache that it finds, and leaves the cache that the function leaves.

The invariant is that what the function makes of the rest of the call, from the place it has got to,
is the same after each step: `Task.Rests`.
-/

set_option autoImplicit false

open Std

namespace ProviderExt

open RexSim (HashMap)

/-- The body of `cached_fetch`, without other calls. -/
def cachedFetch {K V E : Type} [Ord K] [TransOrd K] (fetch : K → Except E V)
    (cache : HashMap K V) (key : K) : HashMap K V × Except E V :=
  match cache[key]? with
  | some v => (cache, .ok v)
  | none => match fetch key with
    | .ok v => (cache.insert key v, .ok v)
    | .error e => (cache, .error e)

/-- What the sequential functions make of a request. -/
def Request.eval {K V E : Type} [Ord K] [TransOrd K] (fetch : K → Except E V)
    (cache : HashMap K V) : Request K → HashMap K V × Except E (Response V)
  | .fetch key => (cachedFetch fetch cache key).map id (Except.map Response.value)
  | .discover keys => (cachedDiscover fetch cache keys).map id (Except.map Response.values)

namespace Task

variable {K V E : Type} [Ord K] [TransOrd K] {fetch : K → Except E V} {cache cache' : HashMap K V}
  {t t' : Task K V E} {e : TaskEvent V E} {goal : HashMap K V × Except E (Response V)}

/-- What the call makes of the keys that are left. -/
def goOn (fetch : K → Except E V) (cache : HashMap K V) (t : Task K V E) (keys : List K) :
    HashMap K V × Except E (Response V) :=
  match t.request with
  | .fetch key => (cachedFetch fetch cache key).map id (Except.map Response.value)
  | .discover _ => (discover fetch cache t.out keys).map id (Except.map Response.values)

/-- What the call makes of the value that it has inserted, and of the keys after it. -/
def goOnWith (fetch : K → Except E V) (cache : HashMap K V) (t : Task K V E) (v : V)
    (keys : List K) : HashMap K V × Except E (Response V) :=
  match t.request with
  | .fetch _ => (cache, .ok (.value v))
  | .discover _ => (discover fetch cache (t.out ++ [v]) keys).map id (Except.map Response.values)

/-- The call ends with the result `goal`, when it is the only one that goes on. -/
def Rests (fetch : K → Except E V) (cache : HashMap K V) (t : Task K V E)
    (goal : HashMap K V × Except E (Response V)) : Pc K V E → Prop
  | .lookUp keys => t.goOn fetch cache keys = goal
  | .fetching key rest => key ∉ cache ∧ t.goOn fetch cache (key :: rest) = goal
  | .inserting key v rest => t.goOnWith fetch (cache.insert key v) v rest = goal
  | .returned result => (cache, result) = goal
  | .dropped => False

/-- The call is not dropped, and a fetch ends as `fetch` says. -/
def Follows (fetch : K → Except E V) (t : Task K V E) : TaskEvent V E → Prop
  | .fetched result => ∀ key rest, t.pc = .fetching key rest → result = fetch key
  | .drop => False
  | _ => True

theorem rests_new (fetch : K → Except E V) (cache : HashMap K V) (request : Request K) :
    (new request : Task K V E).Rests fetch cache (request.eval fetch cache)
      (.lookUp request.keys) := by
  cases request <;> rfl

/-- A key that is cached. -/
theorem goOn_of_mem (hkept : t.Kept cache) {key : K} {rest : List K} {v : V}
    (hpc : t.pc = .lookUp (key :: rest)) (hv : cache[key]? = some v) :
    (t.hit v rest).Rests fetch cache (t.goOn fetch cache (key :: rest)) (t.hit v rest).pc := by
  have hkey : key ∈ cache := (ExtTreeMap.getElem?_eq_some_iff.mp hv).1
  rw [hit, goOn]
  cases hrequest : t.request with
  | fetch key' =>
    obtain rfl := hkept.key_eq (by rw [hpc]; rfl) hrequest
    dsimp only
    rw [cachedFetch, hv]
    rfl
  | discover keys =>
    rw [discover, if_pos hkey]
    simp only [Rests, goOn]

/-- A key that is not cached is fetched, and its value inserted. -/
theorem goOn_of_not_mem (hkept : t.Kept cache) {key : K} {rest : List K}
    (hpc : t.pc = .fetching key rest) (hkey : key ∉ cache) :
    t.goOn fetch cache (key :: rest) = match fetch key with
      | .ok v => t.goOnWith fetch (cache.insert key v) v rest
      | .error e => (cache, .error e) := by
  rw [goOn]
  cases hrequest : t.request with
  | fetch key' =>
    obtain rfl := hkept.key_eq (by rw [hpc]; rfl) hrequest
    dsimp only
    rw [cachedFetch, ExtTreeMap.getElem?_eq_none hkey]
    cases fetch key <;> simp [goOnWith, hrequest, Except.map]
  | discover keys =>
    rw [discover, if_neg hkey]
    cases fetch key <;> simp [goOnWith, hrequest, Except.map]

theorem Rests.act (h : t.Rests fetch cache goal t.pc) (hkept : t.Kept cache)
    (hact : t.act cache e = some (cache', t')) (hfollows : t.Follows fetch e) :
    t'.Rests fetch cache' goal t'.pc := by
  cases transition_of_act hact with
  | finished hpc =>
    have hat := hkept.pc
    rw [hpc] at h hat
    obtain ⟨keys, hrequest⟩ := hat.2.2 rfl
    simpa [Rests, goOn, hrequest, discover, Except.map] using h
  | hit hpc hv =>
    rw [hpc] at h
    rw [← show _ = goal from h]
    exact goOn_of_mem hkept hpc hv
  | missed hpc hnone =>
    rw [hpc] at h
    refine ⟨fun hmem ↦ ?_, h⟩
    cases hnone.symm.trans (ExtTreeMap.getElem?_eq_some_getElem hmem)
  | fetched hpc =>
    rw [hpc] at h
    obtain ⟨hkey, hgoal⟩ := h
    rw [goOn_of_not_mem hkept hpc hkey, ← hfollows _ _ hpc] at hgoal
    exact hgoal
  | failed hpc =>
    rw [hpc] at h
    obtain ⟨hkey, hgoal⟩ := h
    rw [goOn_of_not_mem hkept hpc hkey, ← hfollows _ _ hpc] at hgoal
    exact hgoal
  | inserted hpc =>
    rw [hpc] at h
    rw [← show _ = goal from h, goOnWith, inserted]
    cases t.request <;> rfl
  | dropped => cases hfollows

/-- How many steps a call has before it. -/
def left (t : Task K V E) : ℕ :=
  match t.pc with
  | .lookUp keys => 3 * keys.length + 1
  | .fetching _ rest => 3 * rest.length + 3
  | .inserting _ _ rest => 3 * rest.length + 2
  | .returned _ => 0
  | .dropped => 0

/-- **A call can go on** until it returns. -/
theorem exists_act (fetch : K → Except E V) (cache : HashMap K V) (hleft : 0 < t.left) :
    ∃ e cache' t', t.act cache e = some (cache', t') ∧ t.Follows fetch e ∧ t'.left < t.left := by
  rw [left] at hleft
  cases hpc : t.pc with
  | lookUp keys =>
    cases keys with
    | nil => exact ⟨.lookUp, cache, _, by simp only [act, hpc]; rfl, trivial, by simp [left, hpc]⟩
    | cons key rest =>
      cases hv : cache[key]? with
      | some v =>
        refine ⟨.lookUp, cache, t.hit v rest, by simp only [act, hpc, hv], trivial, ?_⟩
        rw [hit]
        split <;> simp [left, hpc]
      | none =>
        refine ⟨.lookUp, cache, _, by simp only [act, hpc, hv]; rfl, trivial, ?_⟩
        simp only [left, hpc, List.length_cons]
        omega
  | fetching key rest =>
    have hfollows : t.Follows fetch (.fetched (fetch key)) := fun key' rest' hpc' ↦ by
      cases hpc.symm.trans hpc'
      rfl
    cases hfetch : fetch key with
    | ok v =>
      rw [hfetch] at hfollows
      exact ⟨_, cache, _, by simp only [act, hpc]; rfl, hfollows, by simp [left, hpc]⟩
    | error err =>
      rw [hfetch] at hfollows
      exact ⟨_, cache, _, by simp only [act, hpc]; rfl, hfollows, by simp [left, hpc]⟩
  | inserting key v rest =>
    refine ⟨.insert, _, t.inserted key v rest, by simp only [act, hpc]; rfl, trivial, ?_⟩
    rw [inserted]
    split <;> simp [left, hpc]
  | returned result => rw [hpc] at hleft; cases hleft
  | dropped => rw [hpc] at hleft; cases hleft

/-- A call that has no step before it has returned its result. -/
theorem Rests.returned (h : t.Rests fetch cache goal t.pc) (hleft : t.left = 0) :
    t.pc = .returned goal.2 ∧ cache = goal.1 := by
  rw [left] at hleft
  cases hpc : t.pc with
  | lookUp keys | fetching key rest | inserting key v rest => rw [hpc] at hleft; simp at hleft
  | returned result =>
    rw [hpc] at h
    cases h
    exact ⟨rfl, rfl⟩
  | dropped => rw [hpc] at h; cases h

end Task

namespace Calls

variable {K V E : Type} [Ord K] [TransOrd K] {fetch : K → Except E V} {p p' : Calls K V E}
  {e : Lts.PoolEvent (Request K) (TaskEvent V E)} {i : ℕ} {t : Task K V E}
  {goal : HashMap K V × Except E (Response V)}

/-- Of all calls that are made, the call `i` alone goes on.  It is not dropped, and its fetches end
as `fetch` says. -/
def Alone (fetch : K → Except E V) (i : ℕ) (p : Calls K V E) :
    Lts.PoolEvent (Request K) (TaskEvent V E) → Prop
  | .start _ => True
  | .task j e => j = i ∧ ∀ t, p.tasks[i]? = some t → t.Follows fetch e

/-- The call `i` is on its way to the result. -/
structure OnTheWay (fetch : K → Except E V) (i : ℕ) (goal : HashMap K V × Except E (Response V))
    (p : Calls K V E) : Prop where
  kept : Kept p
  rests : ∃ t, p.tasks[i]? = some t ∧ t.Rests fetch p.shared goal t.pc

theorem OnTheWay.step (h : OnTheWay fetch i goal p) (hs : step p e = some p')
    (hok : Alone fetch i p e) : OnTheWay fetch i goal p' := by
  refine ⟨h.kept.step hs, ?_⟩
  obtain ⟨t, ht, hrests⟩ := h.rests
  have hi := (List.getElem?_eq_some_iff.mp ht).1
  cases Lts.Pool.transition_of_step hs with
  | start r => exact ⟨t, by rw [List.getElem?_append_left hi, ht], hrests⟩
  | @task j e t₀ t' shared ht₀ hact =>
    obtain ⟨rfl, hfollows⟩ := hok
    cases ht.symm.trans ht₀
    exact ⟨t', List.getElem?_set_self hi,
      hrests.act (h.kept t (List.mem_of_getElem? ht)) hact (hfollows t ht)⟩

/-- How many steps the call `i` has before it. -/
def left (i : ℕ) (p : Calls K V E) : ℕ := (p.tasks[i]?).elim 0 Task.left

/-- A call that is on its way can go on. -/
theorem OnTheWay.exists_step (h : OnTheWay fetch i goal p) (hleft : 0 < left i p) :
    ∃ e p', Calls.step p e = some p' ∧ Alone fetch i p e ∧ OnTheWay fetch i goal p' ∧
      (0 < left i p' → left i p' < left i p) := by
  obtain ⟨t, ht, hrests⟩ := h.rests
  have heq : left i p = t.left := by rw [left, ht]; rfl
  obtain ⟨e, cache', t', hact, hfollows, hlt⟩ :=
    Task.exists_act fetch p.shared (heq ▸ hleft : 0 < t.left)
  have hs : Calls.step p (.task i e) = some { shared := cache', tasks := p.tasks.set i t' } := by
    simp only [Lts.Pool.step, ht, Option.bind_some, hact, Option.map_some]
  have hok : Alone fetch i p (.task i e) := by
    refine ⟨rfl, fun u hu ↦ ?_⟩
    cases ht.symm.trans hu
    exact hfollows
  refine ⟨_, _, hs, hok, h.step hs hok, fun _ ↦ ?_⟩
  rw [heq, left, List.getElem?_set_self (List.getElem?_eq_some_iff.mp ht).1]
  exact hlt

theorem OnTheWay.of_run (h : OnTheWay fetch i goal p)
    (hrun : Lts.Run (Lts.Executes Calls.step) (Alone fetch i) p p') : OnTheWay fetch i goal p' :=
  hrun.invariant (fun e _ _ hp hs hok ↦ OnTheWay.step (e := e) hp hs hok) h

/-- A call that is on its way can go on until it returns. -/
theorem OnTheWay.exists_returned (h : OnTheWay fetch i goal p) :
    ∃ p' t, Lts.Run (Lts.Executes Calls.step) (Alone fetch i) p p' ∧ p'.tasks[i]? = some t ∧
      t.pc = .returned goal.2 ∧ p'.shared = goal.1 := by
  obtain ⟨p', hrun, hend⟩ := Lts.Run.exists_of_measure (P := fun p ↦ 0 < left i p)
    (fun q (hq : OnTheWay fetch i goal q) hleft ↦ hq.exists_step hleft) h
  obtain ⟨t, ht, hrests⟩ := (h.of_run hrun).rests
  have hleft : t.left = 0 := by
    rw [left, ht] at hend
    exact Nat.eq_zero_of_not_pos hend
  obtain ⟨hpc, hcache⟩ := hrests.returned hleft
  exact ⟨p', t, hrun, ht, hpc, hcache⟩

/-- **A new call by itself** does what the sequential function does.  While no other call goes on,
it returns nothing but the result of that function on the cache as it is when the call begins, and
leaves the cache as that function does; and wherever it has got to, it can go on until it
returns. -/
theorem eval_of_run {request : Request K} (h : Run (empty K V E) p)
    (hi : p.tasks[i]? = some (Task.new request)) :
    ∀ p', Lts.Run (Lts.Executes step) (Alone fetch i) p p' →
      (∀ t result, p'.tasks[i]? = some t → t.pc = .returned result →
        request.eval fetch p.shared = (p'.shared, result)) ∧
      ∃ p'' t, Lts.Run (Lts.Executes step) (Alone fetch i) p' p'' ∧ p''.tasks[i]? = some t ∧
        t.pc = .returned (request.eval fetch p.shared).2 ∧
          p''.shared = (request.eval fetch p.shared).1 := by
  intro p' hrun
  have hkept : Kept p := h.invariant (fun _ _ _ hp hs _ ↦ hp.step hs)
    fun _ ht ↦ absurd ht List.not_mem_nil
  have hstart : OnTheWay fetch i (request.eval fetch p.shared) p :=
    ⟨hkept, _, hi, Task.rests_new fetch p.shared request⟩
  have hway := hstart.of_run hrun
  refine ⟨fun t result ht hpc ↦ ?_, hway.exists_returned⟩
  obtain ⟨t', ht', hrests⟩ := hway.rests
  cases ht.symm.trans ht'
  rw [hpc] at hrests
  exact hrests.symm

open Overlap in
/-- A call that is made after two others have ended. -/
theorem eval_of_run_overlap :
    ∃ (p p' : Calls ℕ ℕ Unit) (t : Task ℕ ℕ Unit), Run (empty ℕ ℕ Unit) p ∧
      Run p p' ∧ p'.tasks[2]? = some t ∧
        t.pc = .returned ((Request.discover [2, 3]).eval (fun k ↦ .ok (10 * k)) p.shared).2 := by
  have hlast : (Lts.replay step Lts.anyCheck (events ++ [.start (.discover [2, 3])])
      (empty ℕ ℕ Unit)).isSome = true := by decide +kernel
  obtain ⟨p, hp⟩ := Option.isSome_iff_exists.mp hlast
  have hrun : Run (empty ℕ ℕ Unit) p := .of_replay hp fun _ _ _ ↦ trivial
  obtain ⟨q, hq, -, hstart⟩ := Lts.replay_concat_eq_some_iff.mp hp
  have hlength : (Lts.replay step Lts.anyCheck events (empty ℕ ℕ Unit)).map (·.tasks.length) =
      some 2 := by decide +kernel
  rw [hq, Option.map_some, Option.some_inj] at hlength
  cases hstart
  have hnew : (q.tasks ++ [Task.new (.discover [2, 3])])[2]? = some (.new (.discover [2, 3])) := by
    rw [List.getElem?_append_right (Nat.le_of_eq hlength), hlength]
    rfl
  obtain ⟨p', t, hrun', ht, hpc, -⟩ := (eval_of_run hrun hnew _ .refl).2
  exact ⟨_, p', t, hrun, hrun'.mono fun _ _ _ ↦ trivial, ht, hpc⟩

end Calls

end ProviderExt
