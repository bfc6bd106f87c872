import RethExt.RexSim.Managers

/-!
# Cache isolation

An epoch-guarded manager never mixes tags.  `Isolated` ties the epoch to the tag of the cache and to
every fetch that is out: a fetch of the current epoch was requested with the current tag, and what
is cached was fetched in the current epoch.  A flush and a change of tag start an epoch, which
leaves every fetch that is out behind.
-/

set_option autoImplicit false

open Std

namespace RexSim

namespace FetchDone

variable {S : FetchSpec}

/-- The value a completion stores, if it stores one. -/
def stored (d : FetchDone S) : Option S.Val :=
  match d.result with
  | .ok resp => S.store resp
  | .error _ => none

/-- The completion is of a fetch that was made: its result is what the call returned on its
answers. -/
def Fetched (d : FetchDone S) : Prop :=
  ∃ ctx answers, (S.fetch ctx d.request).result answers = some (.returned d.result)

theorem exists_of_stored {d : FetchDone S} {value : S.Val} (h : d.stored = some value) :
    ∃ resp, d.result = .ok resp ∧ S.store resp = some value := by
  rw [stored] at h
  split at h
  · rename_i resp hresp
    exact ⟨resp, hresp, h⟩
  · cases h

end FetchDone

namespace FetchManager

variable {S : FetchSpec}

/-- A fetch is not ahead of the manager, and one of the current epoch has the current tag. -/
def InStep (m : FetchManager S) (req : S.Req) (epoch : ℕ) : Prop :=
  epoch ≤ m.epoch ∧ (epoch = m.epoch → S.tag req = some m.cacheHash)

/-- The call a task awaits is the one its request stands for. -/
def Fetching (task : FetchTask S) : Prop :=
  (∃ ctx, task.call = S.fetch ctx task.request) ∧
    ∀ result, task.result = some result → task.call.result task.answers = some result

/-- What a task whose call has returned sends is the completion of a fetch that was made. -/
theorem Fetching.fetched {task : FetchTask S} (h : Fetching task)
    {result : Except SimError S.Resp} (hresult : task.result = some (.returned result)) :
    FetchDone.Fetched ⟨task.request, result, task.epoch, task.respondTo⟩ := by
  obtain ⟨⟨ctx, hctx⟩, hcall⟩ := h
  refine ⟨ctx, task.answers, ?_⟩
  rw [← hctx]
  exact hcall _ hresult

/-- Every task awaits the call its request stands for, as long as it is there. -/
theorem TaskFrom.fetching {m : FetchManager S} {e : ManagerEvent S} {t : FetchTask S}
    (h : m.TaskFrom e t) (hm : ∀ t ∈ m.tasks, Fetching t) : Fetching t := by
  cases h with
  | kept ht => exact hm t ht
  | spawned => exact ⟨⟨m.ctx, rfl⟩, fun _ hres ↦ by cases hres⟩
  | @answered i q a task htask hanswer hresult =>
    refine ⟨(hm task (List.mem_of_getElem? htask)).1, fun result hres ↦ ?_⟩
    change task.result = some result at hres
    rw [hresult] at hres
    cases hres
  | @finished i task result htask hcall =>
    refine ⟨(hm task htask).1, fun result' hres ↦ ?_⟩
    cases hres
    exact hcall

structure Isolated (m : FetchManager S) : Prop where
  task : ∀ t ∈ m.tasks, m.InStep t.request t.epoch ∧ Fetching t
  completion : ∀ d ∈ m.completionRx, m.InStep d.request d.epoch ∧ d.Fetched
  processed : ∀ d ∈ m.processed, m.InStep d.request d.epoch ∧ d.Fetched
  acquire : ∀ msg, m.phase = .acquire msg → S.tag msg.request = some m.cacheHash
  cached : ∀ k value, m.cache[k]? = some value →
    ∃ d ∈ m.processed, d.epoch = m.epoch ∧ S.key d.request = k ∧ d.stored = some value
  kept : ∀ d ∈ m.processed, d.epoch = m.epoch → ∀ value, d.stored = some value →
    S.key d.request ∈ m.cache
  replies : ∀ r ∈ m.replies, ∀ resp, r.result = .ok resp →
    ∃ d ∈ m.processed, S.tag d.request = S.tag r.request ∧ S.key d.request = S.key r.request ∧
      d.result = .ok resp

theorem isolated_new (S : FetchSpec) (ctx : S.Ctx) (fetch : FetchConfig) :
    (new S ctx fetch).Isolated where
  task _ h := absurd h List.not_mem_nil
  completion _ h := absurd h List.not_mem_nil
  processed _ h := absurd h List.not_mem_nil
  acquire _ h := by cases h
  cached _ _ h := absurd h getElem?_empty_ne
  kept _ h := absurd h List.not_mem_nil
  replies _ h := absurd h List.not_mem_nil

section step

variable {m : FetchManager S}

theorem InStep.lt {req : S.Req} {epoch : ℕ} (h : m.InStep req epoch) : epoch < m.epoch + 1 :=
  Nat.lt_succ_of_le h.1

/-- A completion of the current epoch with something to store is cached, and any other leaves the
cache alone. -/
theorem cacheAfter_cases (hS : S.EpochGuarded) (d : FetchDone S) :
    (∃ value, d.epoch = m.epoch ∧ d.stored = some value ∧
        m.cacheAfter d = m.cache.insert (S.key d.request) value) ∨
      (d.epoch = m.epoch → d.stored = none) ∧ m.cacheAfter d = m.cache := by
  rw [cacheAfter, FetchDone.stored]
  cases d.result with
  | error e => exact Or.inr ⟨fun _ ↦ rfl, rfl⟩
  | ok resp =>
    by_cases hepoch : d.epoch = m.epoch
    · cases hstore : S.store resp with
      | some value => exact Or.inl ⟨value, hepoch, hstore, by simp [hepoch, hstore]⟩
      | none => exact Or.inr ⟨fun _ ↦ hstore, by simp [hepoch, hstore]⟩
    · exact Or.inr ⟨fun heq ↦ absurd heq hepoch, by simp [hS.guarded, hepoch]⟩

/-- A new epoch forgets the cache, and leaves every fetch that is out behind. -/
theorem Isolated.newEpoch (h : m.Isolated) (tag : B256) (phase : Phase S)
    (hphase : ∀ msg, phase ≠ .acquire msg) :
    Isolated { m with cacheHash := tag, cache := ∅, epoch := m.epoch + 1, phase := phase } where
  task t ht :=
    ⟨⟨(h.task t ht).1.lt.le, fun heq ↦ absurd heq (h.task t ht).1.lt.ne⟩, (h.task t ht).2⟩
  completion d hd :=
    ⟨⟨(h.completion d hd).1.lt.le, fun heq ↦ absurd heq (h.completion d hd).1.lt.ne⟩,
      (h.completion d hd).2⟩
  processed d hd :=
    ⟨⟨(h.processed d hd).1.lt.le, fun heq ↦ absurd heq (h.processed d hd).1.lt.ne⟩,
      (h.processed d hd).2⟩
  acquire msg hmsg := absurd hmsg (hphase msg)
  cached _ _ hk := absurd hk getElem?_empty_ne
  kept d hd heq := absurd heq (h.processed d hd).1.lt.ne
  replies := h.replies

/-- **Applying a completion** keeps the manager isolated. -/
theorem Isolated.applyCompletion (hS : S.EpochGuarded) (h : m.Isolated) {done : FetchDone S}
    {rest : List (FetchDone S)} (hdone : m.completionRx = done :: rest) :
    Isolated (FetchManager.applyCompletion { m with completionRx := rest } done) := by
  have hnew := h.completion done (by rw [hdone]; exact List.mem_cons_self)
  constructor
  case task => exact h.task
  case completion =>
    exact fun d hd ↦ h.completion d (by rw [hdone]; exact List.mem_cons_of_mem _ hd)
  case processed =>
    intro d hd
    rcases List.mem_append.mp hd with hd | hd
    · exact h.processed d hd
    · rw [List.mem_singleton.mp hd]
      exact hnew
  case acquire => exact h.acquire
  case cached =>
    have hold : ∀ k value, m.cache[k]? = some value → ∃ d ∈ m.processed ++ [done],
        d.epoch = m.epoch ∧ S.key d.request = k ∧ d.stored = some value := by
      intro k value hk
      obtain ⟨d, hd, heq⟩ := h.cached k value hk
      exact ⟨d, List.mem_append_left _ hd, heq⟩
    intro k value hk
    change (m.cacheAfter done)[k]? = some value at hk
    rcases m.cacheAfter_cases hS done with ⟨new, hepoch, hstored, hcache⟩ | ⟨-, hcache⟩
    · rw [hcache, ExtTreeMap.getElem?_insert] at hk
      split at hk
      · rename_i hkey
        cases hk
        exact ⟨done, by simp [FetchManager.applyCompletion], hepoch,
          LawfulEqCmp.eq_of_compare hkey, hstored⟩
      · exact hold k value hk
    · rw [hcache] at hk
      exact hold k value hk
  case kept =>
    intro d hd hepoch value hvalue
    change S.key d.request ∈ m.cacheAfter done
    rcases m.cacheAfter_cases hS done with ⟨new, hepoch', hstored, hcache⟩ | ⟨hnone, hcache⟩
    · rw [hcache, ExtTreeMap.mem_insert]
      rcases List.mem_append.mp hd with hd | hd
      · exact Or.inr (h.kept d hd hepoch value hvalue)
      · rw [List.mem_singleton.mp hd]
        exact Or.inl ReflCmp.compare_self
    · rw [hcache]
      rcases List.mem_append.mp hd with hd | hd
      · exact h.kept d hd hepoch value hvalue
      · rw [List.mem_singleton.mp hd] at hepoch hvalue
        rw [hnone hepoch] at hvalue
        cases hvalue
  case replies =>
    intro r hr resp hresp
    rcases List.mem_append.mp hr with hr | hr
    · obtain ⟨d, hd, heq⟩ := h.replies r hr resp hresp
      exact ⟨d, List.mem_append_left _ hd, heq⟩
    · rw [List.mem_singleton.mp hr] at hresp ⊢
      exact ⟨done, by simp [FetchManager.applyCompletion], rfl, rfl, hresp⟩

/-- After a request is tagged, the cache has its tag. -/
theorem tag_retag (hS : S.EpochGuarded) (req : S.Req) :
    S.tag req = some (m.retag req).cacheHash := by
  obtain ⟨tag, htag⟩ := hS.tagged req
  rw [retag, htag]
  simp only
  split
  · rfl
  · rename_i heq
    rw [not_not.mp heq]

theorem Isolated.retag (h : m.Isolated) (req : S.Req) (hphase : ∀ msg, m.phase ≠ .acquire msg) :
    (m.retag req).Isolated :=
  m.retag_rule req h fun tag ↦ h.newEpoch tag m.phase hphase

/-- A lookup under the tag of the request keeps the manager isolated. -/
theorem Isolated.lookup (hS : S.EpochGuarded) (h : m.Isolated) {msg : FetchMessage S}
    (htag : S.tag msg.request = some m.cacheHash) : (m.lookup msg).Isolated := by
  rw [FetchManager.lookup]
  split
  · rename_i value hvalue
    refine { h with
      acquire := fun _ hmsg ↦ (by cases hmsg)
      replies := fun r hr resp hresp ↦ ?_ }
    rcases List.mem_append.mp hr with hr | hr
    · exact h.replies r hr resp hresp
    · rw [List.mem_singleton.mp hr] at hresp ⊢
      obtain ⟨d, hd, hepoch, hkey, hstored⟩ := h.cached _ _ hvalue
      obtain ⟨resp', hok, hstore⟩ := FetchDone.exists_of_stored hstored
      cases hresp
      refine ⟨d, hd, ?_, hkey, ?_⟩
      · rw [(h.processed d hd).1.2 hepoch, htag]
      · rw [hok, hS.hit_of_store _ _ hstore]
  · exact { h with acquire := fun _ hmsg ↦ by cases hmsg; exact htag }

/-- **Spawning a fetch** keeps the manager isolated. -/
theorem Isolated.spawnFetch (h : m.Isolated) {msg : FetchMessage S}
    (hphase : m.phase = .acquire msg) : (m.spawnFetch msg).Isolated := by
  refine { h with task := fun t ht ↦ ?_, acquire := fun _ hmsg ↦ by cases hmsg }
  rcases List.mem_append.mp ht with ht | ht
  · exact h.task t ht
  · rw [List.mem_singleton.mp ht]
    have hfrom := TaskFrom.spawned hphase
    exact ⟨⟨le_rfl, fun _ ↦ h.acquire msg hphase⟩, hfrom.fetching fun t ht ↦ (h.task t ht).2⟩

/-- A task may get on as long as it keeps its request and its epoch. -/
theorem Isolated.setTask (h : m.Isolated) {i : ℕ} {task task' : FetchTask S} (permits : ℕ)
    (htask : m.tasks[i]? = some task) (hreq : task'.request = task.request)
    (hepoch : task'.epoch = task.epoch) (hfetching : Fetching task') :
    Isolated { m with permits := permits, tasks := m.tasks.set i task' } := by
  refine { h with task := fun t ht ↦ ?_ }
  rcases List.mem_or_eq_of_mem_set ht with ht | rfl
  · exact h.task t ht
  · rw [hreq, hepoch]
    exact ⟨(h.task task (List.mem_of_getElem? htask)).1, hfetching⟩

/-- **The step lemma.** -/
theorem Isolated.step (hS : S.EpochGuarded) (h : m.Isolated) {e : ManagerEvent S}
    {m' : FetchManager S} (hs : Step e m m') : m'.Isolated := by
  cases hs.transition with
  | send request => exact { h with }
  | sendSide msg => exact { h with }
  | requestFlush => exact { h with }
  | recvFlush => exact { h with acquire := fun _ hmsg ↦ by cases hmsg }
  | drain _ hdone => exact h.applyCompletion hS hdone
  | handOver => exact h.newEpoch 0 .select fun _ hmsg ↦ by cases hmsg
  | recvDone _ hdone => exact h.applyCompletion hS hdone
  | recvSide => exact { h with }
  | recvFetch => exact { h with acquire := fun _ hmsg ↦ by cases hmsg }
  | serve hphase =>
    exact (h.retag _ fun msg hmsg ↦ by rw [hphase] at hmsg; cases hmsg).lookup hS (tag_retag hS _)
  | spawn hphase => exact h.spawnFetch hphase
  | tryNext => exact { h with acquire := fun _ hmsg ↦ by cases hmsg }
  | leave => exact { h with acquire := fun _ hmsg ↦ by cases hmsg }
  | @answer i q a task htask hq hanswer hresult =>
    have hfrom : m.TaskFrom (.answer i q a) (task.record q a) := .answered htask hanswer hresult
    exact h.setTask m.permits htask rfl rfl (hfrom.fetching fun t ht ↦ (h.task t ht).2)
  | @finish i task result htask hresult hcall =>
    have hfrom : m.TaskFrom (.finish i) { task with result := some result } :=
      .finished (List.mem_of_getElem? htask) hcall
    exact h.setTask _ htask rfl rfl (hfrom.fetching fun t ht ↦ (h.task t ht).2)
  | @complete i task result htask hresult =>
    have ht := h.task task (List.mem_of_getElem? htask)
    refine { h with
      task := fun t ht ↦ h.task t (List.mem_of_mem_eraseIdx ht), completion := fun d hd ↦ ?_ }
    rcases List.mem_append.mp hd with hd | hd
    · exact h.completion d hd
    · rw [List.mem_singleton.mp hd]
      exact ⟨ht.1, ht.2.fetched hresult⟩

/-- **Every run is isolated.** -/
theorem isolated_of_run (hS : S.EpochGuarded) {ctx : S.Ctx} {fetch : FetchConfig}
    (h : Lts.Run Step Lts.anyEvent (new S ctx fetch) m) : m.Isolated :=
  h.invariant (fun _ _ _ hinv hs _ ↦ hinv.step hS hs) (isolated_new S ctx fetch)

/-! ## What isolation is -/

/-- The epoch never goes down. -/
theorem Step.epoch_le {e : ManagerEvent S} {m' : FetchManager S} (hs : Step e m m') :
    m.epoch ≤ m'.epoch := by
  cases hs.transition with
  | handOver => exact Nat.le_succ _
  | @serve msg hphase =>
    have hlookup : ((m.retag msg.request).lookup msg).epoch = (m.retag msg.request).epoch := by
      rw [FetchManager.lookup]
      split <;> rfl
    rw [hlookup]
    exact m.retag_rule msg.request le_rfl fun _ ↦ Nat.le_succ _
  | _ => exact le_rfl

theorem epoch_le_of_run {m' : FetchManager S} (h : Lts.Run Step Lts.anyEvent m m') :
    m.epoch ≤ m'.epoch := by
  induction h with
  | refl => exact le_rfl
  | tail _ hlast ih =>
    obtain ⟨e, hs, -⟩ := hlast
    exact ih.trans (Step.epoch_le hs)

/-- What a manager that never mixes tags does.  The cache a flush hands over in the state `m` is
`S.intoCache m.cacheHash m.cache`. -/
structure CacheIsolation (m : FetchManager S) : Prop where
  /-- A value that is sent was fetched for the key by a request with the same tag. -/
  replies : ∀ r ∈ m.replies, ∀ resp, r.result = .ok resp → ∃ d ∈ m.processed, d.Fetched ∧
    S.tag d.request = S.tag r.request ∧ S.key d.request = S.key r.request ∧ d.result = .ok resp
  /-- The keys that are cached are those of the completions of this epoch that stored a value. -/
  keys : ∀ k, k ∈ m.cache ↔
    ∃ d ∈ m.processed, d.epoch = m.epoch ∧ S.key d.request = k ∧ d.stored ≠ none
  /-- Each value that is cached was stored by one of them. -/
  values : ∀ k value, m.cache[k]? = some value →
    ∃ d ∈ m.processed, d.epoch = m.epoch ∧ S.key d.request = k ∧ d.stored = some value
  /-- All of them were requested with the tag of the cache. -/
  tags : ∀ d ∈ m.processed, d.epoch = m.epoch → S.tag d.request = some m.cacheHash
  /-- A flush hands over the cache and starts an epoch. -/
  flush : ∀ m', Step .handOver m m' →
    m.flushed = S.intoCache m.cacheHash m.cache ∧ m'.cache = ∅ ∧ m'.epoch = m.epoch + 1
  /-- A request with another tag starts an epoch with an empty cache. -/
  retag : ∀ req, S.tag req ≠ some m.cacheHash →
    (m.retag req).cache = ∅ ∧ (m.retag req).epoch = m.epoch + 1
  /-- What is out when a step starts an epoch is in no later cache: its epoch is an older one. -/
  abandoned : ∀ e m₁ m', Step e m m₁ → m.epoch < m₁.epoch → Lts.Run Step Lts.anyEvent m₁ m' →
    ∀ d ∈ m'.processed, d.epoch = m'.epoch →
      (∀ t ∈ m.tasks, t.epoch < d.epoch) ∧ ∀ c ∈ m.completionRx, c.epoch < d.epoch

theorem Isolated.cacheIsolation (hS : S.EpochGuarded) (h : m.Isolated) : m.CacheIsolation where
  replies r hr resp hresp :=
    let ⟨d, hd, htag, hkey, hres⟩ := h.replies r hr resp hresp
    ⟨d, hd, (h.processed d hd).2, htag, hkey, hres⟩
  keys k := by
    constructor
    · intro hk
      obtain ⟨d, hd, hepoch, hkey, hstored⟩ :=
        h.cached k _ (ExtTreeMap.getElem?_eq_some_getElem hk)
      exact ⟨d, hd, hepoch, hkey, by rw [hstored]; exact Option.some_ne_none _⟩
    · rintro ⟨d, hd, hepoch, rfl, hstored⟩
      obtain ⟨value, hvalue⟩ := Option.ne_none_iff_exists'.mp hstored
      exact h.kept d hd hepoch value hvalue
  values := h.cached
  tags d hd := (h.processed d hd).1.2
  flush m' hs := by
    cases hs.transition
    exact ⟨rfl, rfl, rfl⟩
  retag req hreq := by
    obtain ⟨tag, htag⟩ := hS.tagged req
    rw [FetchManager.retag, htag]
    simp only
    rw [if_pos fun heq ↦ hreq (by rw [htag, heq])]
    exact ⟨rfl, rfl⟩
  abandoned e m₁ m' _ hlt hrun d _ hepoch := by
    have hlt' : m.epoch < d.epoch := hepoch ▸ hlt.trans_le (epoch_le_of_run hrun)
    exact ⟨fun t ht ↦ (h.task t ht).1.1.trans_lt hlt',
      fun c hc ↦ (h.completion c hc).1.1.trans_lt hlt'⟩

end step

end FetchManager

/-- **Cache isolation.**  In every run of the account, the storage or the block-hash manager, with
requests of any tags, completions in any order, and flushes that are drained or given up, every
state is isolated. -/
theorem cacheIsolation_of_run [Revm] (keccak256 : Bytes → B256) {k : FetchKind} (hk : k ≠ .code)
    {fetch : FetchConfig} {m : FetchManager (spec keccak256 k)}
    (h : Lts.Run FetchManager.Step Lts.anyEvent
      (.new (spec keccak256 k) (initialCtx keccak256 k) fetch) m) : m.CacheIsolation :=
  (FetchManager.isolated_of_run (epochGuarded_spec keccak256 hk) h).cacheIsolation
    (epochGuarded_spec keccak256 hk)

namespace OneFetch

open scoped Revm

/-- A storage request that misses, is fetched and is answered, and a second one that hits. -/
def events : List (ManagerEvent storageSpec) :=
  [.send ⟨7, 0, 1, 11⟩, .recvFetch, .serve, .spawn, .tryNext,
    .answer 0 (.getStorageAt 7 0 1) (.ok 5), .finish 0, .complete 0, .recvDone,
    .send ⟨7, 0, 1, 11⟩, .recvFetch, .serve]

def start : FetchManager storageSpec := .new storageSpec () {}

theorem isSome_replay : (Lts.replay FetchManager.step Lts.anyCheck events start).isSome = true := by
  decide +kernel

def final : FetchManager storageSpec :=
  (Lts.replay FetchManager.step Lts.anyCheck events start).get isSome_replay

/-- Both requests are answered with the value the node gave. -/
example : final.replies.map (fun r ↦ r.result.toOption) = [some 5, some 5] := by decide +kernel

end OneFetch

open scoped Revm in
open OneFetch in
/-- Isolation after a fetch and a hit. -/
theorem cacheIsolation_of_run_oneFetch : final.CacheIsolation :=
  cacheIsolation_of_run (k := .storage) (fun _ ↦ 0) (by decide)
    (Lts.Run.of_replay (Option.some_get isSome_replay).symm fun _ _ _ ↦ trivial)

end RexSim
