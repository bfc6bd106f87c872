import RethExt.RexSim.Rpc
import RethExt.Lib.Lts

/-!
# The fetch manager

One generic manager serves the four kinds of request.  `FetchSpec` is the trait, with the RPC client
taken out of `fetch`: a fetch is an `RpcCall`, and its queries are answered by events.

`FetchManager.run` is a loop with several places to wait at, so it is a step function here.
`Phase` says where the loop is: at the `select!`, draining for a flush, about to serve a message,
waiting for a permit with a message that missed, or about to look for the next message.  Between
two waits the loop runs undisturbed, but senders do not wait for it, so `send`, `sendSide` and
`requestFlush` can happen in any phase, as can the steps of the spawned tasks.

`replies` and `processed` are kept for the proofs: every reply that was sent, and every completion
that was applied, both in order.  The epoch is `ℕ`; it is a `u64` that goes up once a flush or a
change of tag.
-/

set_option autoImplicit false

open Std

namespace RexSim

/-! ## Specs -/

structure FetchConfig where
  account : ℕ := 100
  code : ℕ := 100
  storage : ℕ := 100
  blockHash : ℕ := 100
  rpcTimeoutMs : ℕ := 10000
  waitTimeoutMs : ℕ := 30000
  flushTimeoutMs : ℕ := 15000
  deriving DecidableEq

def clampConcurrency (n : ℕ) : ℕ := min (max n 1) 1024

/-- What `RexSimBuilder::build` makes of a configuration: every limit clamped, and none at all when
a waiter would not outlive the request it waits for. -/
def FetchConfig.build (fetch : FetchConfig) : Option FetchConfig :=
  if fetch.rpcTimeoutMs < fetch.waitTimeoutMs then
    some { fetch with
      account := clampConcurrency fetch.account
      code := clampConcurrency fetch.code
      storage := clampConcurrency fetch.storage
      blockHash := clampConcurrency fetch.blockHash }
  else none

/-- The default configuration is accepted as it is. -/
example : FetchConfig.build {} = some {} := by decide

/-- The `FetchSpec` trait. -/
structure FetchSpec where
  Req : Type
  Key : Type
  Val : Type
  Resp : Type
  Cache : Type
  Ctx : Type
  Side : Type
  [ord : Ord Key]
  [transOrd : TransOrd Key]
  [lawfulEqOrd : LawfulEqOrd Key]
  epochGuarded : Bool := true
  permits : FetchConfig → ℕ
  tag : Req → Option B256
  key : Req → Key
  hit : Val → Resp
  store : Resp → Option Val
  onSuccess : Ctx → Key → Resp → Ctx := fun ctx _ _ ↦ ctx
  onSide : Ctx → Side → Ctx := fun ctx _ ↦ ctx
  intoCache : B256 → HashMap Key Val → Cache
  fetch : Ctx → Req → RpcCall Resp

attribute [instance] FetchSpec.ord FetchSpec.transOrd FetchSpec.lawfulEqOrd

/-! ## The state of a manager -/

section State

variable (S : FetchSpec)

/-- A request and the reply channel it is to be answered on. -/
structure FetchMessage where
  request : S.Req
  respondTo : ℕ

/-- A completed fetch, with the request it was made for instead of the key alone. -/
structure FetchDone where
  request : S.Req
  result : Except SimError S.Resp
  epoch : ℕ
  respondTo : ℕ

/-- What was sent on a reply channel. -/
structure Reply where
  request : S.Req
  respondTo : ℕ
  result : Except SimError S.Resp

/-- A spawned fetch: the call it awaits with the answers so far, and how the call has ended once it
has.  A task that has panicked stays here, and never sends its completion. -/
structure FetchTask where
  request : S.Req
  epoch : ℕ
  respondTo : ℕ
  call : RpcCall S.Resp
  answers : Answers := fun _ ↦ none
  result : Option (CallOutcome S.Resp) := none

variable {S} in
/-- A task with one more answer. -/
def FetchTask.record (task : FetchTask S) (q : Query) (a : Except SimError q.Answer) :
    FetchTask S :=
  { task with answers := Function.update task.answers q (some a) }

variable {S} in
/-- What holds of the new answer and of those that were there holds of all. -/
theorem FetchTask.forall_record {task : FetchTask S} {q : Query} {a : Except SimError q.Answer}
    {P : (q : Query) → Except SimError q.Answer → Prop} (hnew : P q a)
    (hold : ∀ q a, task.answers q = some a → P q a) :
    ∀ q' a', (task.record q a).answers q' = some a' → P q' a' := by
  intro q' a' ha
  change Function.update task.answers q (some a) q' = some a' at ha
  by_cases hq : q' = q
  · subst hq
    rw [Function.update_self, Option.some.injEq] at ha
    exact ha ▸ hnew
  · rw [Function.update_of_ne hq] at ha
    exact hold q' a' ha

/-- Where the loop of `run` is. -/
inductive Phase
  | select
  | draining
  | handle (msg : FetchMessage S)
  | acquire (msg : FetchMessage S)
  | next

structure FetchManager where
  fetchRx : List (FetchMessage S) := []
  flushRx : Bool := false
  sideRx : List S.Side := []
  ctx : S.Ctx
  cacheHash : B256 := 0
  cache : HashMap S.Key S.Val := ∅
  permits : ℕ
  completionRx : List (FetchDone S) := []
  epoch : ℕ := 0
  inflight : ℕ := 0
  phase : Phase S := .select
  tasks : List (FetchTask S) := []
  opened : ℕ := 0
  replies : List (Reply S) := []
  processed : List (FetchDone S) := []

inductive ManagerEvent
  /-- A reader enqueues a request and waits on a channel of its own. -/
  | send (request : S.Req)
  /-- A message arrives on the side channel. -/
  | sendSide (msg : S.Side)
  /-- The changeset manager asks for the cache; its channel has one slot. -/
  | requestFlush
  /-- `select!` takes the flush request. -/
  | recvFlush
  /-- The drain loop applies a completion. -/
  | drain
  /-- The drain ends, or is given up: the cache is handed over. -/
  | handOver
  /-- `select!` takes a completion. -/
  | recvDone
  /-- `select!` takes a side message, and then all that are there. -/
  | recvSide
  /-- `select!` takes a request. -/
  | recvFetch
  /-- The request is tagged and looked up. -/
  | serve
  /-- A permit is free: the fetch is spawned. -/
  | spawn
  /-- The loop looks for another request, and leaves when there is none. -/
  | tryNext
  /-- The node answers a query of a task. -/
  | answer (task : ℕ) (query : Query) (answer : Except SimError query.Answer)
  /-- The call of a task has returned or panicked: its permit is dropped. -/
  | finish (task : ℕ)
  /-- A task sends its completion, when the channel has room. -/
  | complete (task : ℕ)

end State

/-! ## The steps -/

def completionChannelDepth : ℕ := 4096

namespace FetchManager

variable {S : FetchSpec}

/-- A manager at its creation. -/
def new (S : FetchSpec) (ctx : S.Ctx) (fetch : FetchConfig) : FetchManager S :=
  { ctx := ctx, permits := S.permits fetch }

def drainSide (m : FetchManager S) : FetchManager S :=
  { m with ctx := m.sideRx.foldl S.onSide m.ctx, sideRx := [] }

/-- What a completion leaves in the cache: a value of an older epoch is not stored. -/
def cacheAfter (m : FetchManager S) (done : FetchDone S) : HashMap S.Key S.Val :=
  match done.result with
  | .ok resp =>
    if !S.epochGuarded || done.epoch == m.epoch then
      match S.store resp with
      | some value => m.cache.insert (S.key done.request) value
      | none => m.cache
    else m.cache
  | .error _ => m.cache

/-- What a completion makes of the context. -/
def ctxAfter (m : FetchManager S) (done : FetchDone S) : S.Ctx :=
  match done.result with
  | .ok resp => S.onSuccess m.ctx (S.key done.request) resp
  | .error _ => m.ctx

def applyCompletion (m : FetchManager S) (done : FetchDone S) : FetchManager S :=
  { m with
    inflight := m.inflight - 1
    ctx := m.ctxAfter done
    cache := m.cacheAfter done
    replies := m.replies ++ [⟨done.request, done.respondTo, done.result⟩]
    processed := m.processed ++ [done] }

/-- The cache a flush hands over. -/
def flushed (m : FetchManager S) : S.Cache := S.intoCache m.cacheHash m.cache

def afterFlush (m : FetchManager S) : FetchManager S :=
  { m with cacheHash := 0, cache := ∅, epoch := m.epoch + 1, phase := .select }

/-- A request with another tag than the cache clears the cache and starts an epoch. -/
def retag (m : FetchManager S) (req : S.Req) : FetchManager S :=
  match S.tag req with
  | some tag =>
    if m.cacheHash ≠ tag then { m with cache := ∅, cacheHash := tag, epoch := m.epoch + 1 } else m
  | none => m

/-- **Retagging**: what holds of a manager, and of the manager with a cleared cache, holds after. -/
@[elab_as_elim]
theorem retag_rule {P : FetchManager S → Prop} (m : FetchManager S) (req : S.Req) (h : P m)
    (hclear : ∀ tag, P { m with cache := ∅, cacheHash := tag, epoch := m.epoch + 1 }) :
    P (m.retag req) := by
  rw [retag]
  split
  · split
    · exact hclear _
    · exact h
  · exact h

/-- A hit is answered; a miss waits for a permit. -/
def lookup (m : FetchManager S) (msg : FetchMessage S) : FetchManager S :=
  match m.cache[S.key msg.request]? with
  | some value =>
    { m with
      replies := m.replies ++ [⟨msg.request, msg.respondTo, .ok (S.hit value)⟩], phase := .next }
  | none => { m with phase := .acquire msg }

def spawnFetch (m : FetchManager S) (msg : FetchMessage S) : FetchManager S :=
  { m with
    permits := m.permits - 1
    inflight := m.inflight + 1
    tasks := m.tasks ++ [⟨msg.request, m.epoch, msg.respondTo, S.fetch m.ctx msg.request,
      fun _ ↦ none, none⟩]
    phase := .next }

def step (m : FetchManager S) : ManagerEvent S → Option (FetchManager S)
  | .send request =>
    some { m with fetchRx := m.fetchRx ++ [⟨request, m.opened⟩], opened := m.opened + 1 }
  | .sendSide msg => some { m with sideRx := m.sideRx ++ [msg] }
  | .requestFlush => if m.flushRx then none else some { m with flushRx := true }
  | .recvFlush => match m.phase, m.flushRx with
    | .select, true => some { m with flushRx := false, phase := .draining }
    | _, _ => none
  | .drain => match m.phase, m.completionRx with
    | .draining, done :: rest =>
      if 0 < m.inflight then some (applyCompletion { m with completionRx := rest } done) else none
    | _, _ => none
  | .handOver => match m.phase with
    | .draining => some m.afterFlush
    | _ => none
  | .recvDone => match m.phase, m.completionRx with
    | .select, done :: rest => some (applyCompletion { m with completionRx := rest } done)
    | _, _ => none
  | .recvSide => match m.phase, m.sideRx with
    | .select, _ :: _ => some m.drainSide
    | _, _ => none
  | .recvFetch => match m.phase, m.fetchRx with
    | .select, msg :: rest => some { m.drainSide with fetchRx := rest, phase := .handle msg }
    | _, _ => none
  | .serve => match m.phase with
    | .handle msg => some ((m.retag msg.request).lookup msg)
    | _ => none
  | .spawn => match m.phase with
    | .acquire msg => if 0 < m.permits then some (m.spawnFetch msg) else none
    | _ => none
  | .tryNext => match m.phase, m.fetchRx with
    | .next, msg :: rest => some { m with fetchRx := rest, phase := .handle msg }
    | .next, [] => some { m with phase := .select }
    | _, _ => none
  | .answer i q a => match m.tasks[i]? with
    | some task =>
      if q ∈ task.call.queries ∧ (task.answers q).isNone ∧ task.result.isNone then
        some { m with tasks := m.tasks.set i (task.record q a) }
      else none
    | none => none
  | .finish i => match m.tasks[i]? with
    | some task => match task.result, task.call.result task.answers with
      | none, some result =>
        some { m with
          permits := m.permits + 1, tasks := m.tasks.set i { task with result := some result } }
      | _, _ => none
    | none => none
  | .complete i => match m.tasks[i]? with
    | some task => match task.result with
      | some (.returned result) =>
        if m.completionRx.length < completionChannelDepth then
          some { m with
            tasks := m.tasks.eraseIdx i
            completionRx :=
              m.completionRx ++ [⟨task.request, result, task.epoch, task.respondTo⟩] }
        else none
      | _ => none
    | none => none

abbrev Step : ManagerEvent S → FetchManager S → FetchManager S → Prop := Lts.Executes step

/-- What each event does, and when it can happen. -/
inductive Transition (m : FetchManager S) : ManagerEvent S → FetchManager S → Prop
  | send (request : S.Req) : Transition m (.send request)
      { m with fetchRx := m.fetchRx ++ [⟨request, m.opened⟩], opened := m.opened + 1 }
  | sendSide (msg : S.Side) : Transition m (.sendSide msg) { m with sideRx := m.sideRx ++ [msg] }
  | requestFlush (hflush : m.flushRx = false) :
      Transition m .requestFlush { m with flushRx := true }
  | recvFlush (hphase : m.phase = .select) (hflush : m.flushRx = true) :
      Transition m .recvFlush { m with flushRx := false, phase := .draining }
  | drain {done : FetchDone S} {rest : List (FetchDone S)} (hphase : m.phase = .draining)
      (hdone : m.completionRx = done :: rest) (hinflight : 0 < m.inflight) :
      Transition m .drain (applyCompletion { m with completionRx := rest } done)
  | handOver (hphase : m.phase = .draining) : Transition m .handOver m.afterFlush
  | recvDone {done : FetchDone S} {rest : List (FetchDone S)} (hphase : m.phase = .select)
      (hdone : m.completionRx = done :: rest) :
      Transition m .recvDone (applyCompletion { m with completionRx := rest } done)
  | recvSide (hphase : m.phase = .select) : Transition m .recvSide m.drainSide
  | recvFetch {msg : FetchMessage S} {rest : List (FetchMessage S)} (hphase : m.phase = .select)
      (hmsg : m.fetchRx = msg :: rest) :
      Transition m .recvFetch { m.drainSide with fetchRx := rest, phase := .handle msg }
  | serve {msg : FetchMessage S} (hphase : m.phase = .handle msg) :
      Transition m .serve ((m.retag msg.request).lookup msg)
  | spawn {msg : FetchMessage S} (hphase : m.phase = .acquire msg) (hpermits : 0 < m.permits) :
      Transition m .spawn (m.spawnFetch msg)
  | tryNext {msg : FetchMessage S} {rest : List (FetchMessage S)} (hphase : m.phase = .next)
      (hmsg : m.fetchRx = msg :: rest) :
      Transition m .tryNext { m with fetchRx := rest, phase := .handle msg }
  | leave (hphase : m.phase = .next) (hmsg : m.fetchRx = []) :
      Transition m .tryNext { m with phase := .select }
  | answer {i : ℕ} {q : Query} {a : Except SimError q.Answer} {task : FetchTask S}
      (htask : m.tasks[i]? = some task) (hq : q ∈ task.call.queries)
      (hanswer : task.answers q = none) (hresult : task.result = none) :
      Transition m (.answer i q a) { m with tasks := m.tasks.set i (task.record q a) }
  | finish {i : ℕ} {task : FetchTask S} {result : CallOutcome S.Resp}
      (htask : m.tasks[i]? = some task) (hresult : task.result = none)
      (hcall : task.call.result task.answers = some result) :
      Transition m (.finish i)
        { m with
          permits := m.permits + 1, tasks := m.tasks.set i { task with result := some result } }
  | complete {i : ℕ} {task : FetchTask S} {result : Except SimError S.Resp}
      (htask : m.tasks[i]? = some task) (hresult : task.result = some (.returned result))
      (hroom : m.completionRx.length < completionChannelDepth) :
      Transition m (.complete i)
        { m with
          tasks := m.tasks.eraseIdx i
          completionRx := m.completionRx ++ [⟨task.request, result, task.epoch, task.respondTo⟩] }

/-- **What a step can do.** -/
theorem Step.transition {e : ManagerEvent S} {m m' : FetchManager S} (h : Step e m m') :
    m.Transition e m' := by
  replace h : m.step e = some m' := h
  cases e with
  | send request => cases h; exact .send request
  | sendSide msg => cases h; exact .sendSide msg
  | requestFlush =>
    rw [step] at h
    split at h
    · cases h
    · rename_i hflush; cases h; exact .requestFlush (by simpa using hflush)
  | recvFlush =>
    rw [step] at h
    split at h
    · rename_i hphase hflush; cases h; exact .recvFlush hphase hflush
    · cases h
  | drain =>
    rw [step] at h
    split at h
    · rename_i hphase hdone
      split at h
      · rename_i hinflight; cases h; exact .drain hphase hdone hinflight
      · cases h
    · cases h
  | handOver =>
    rw [step] at h
    split at h
    · rename_i hphase; cases h; exact .handOver hphase
    · cases h
  | recvDone =>
    rw [step] at h
    split at h
    · rename_i hphase hdone; cases h; exact .recvDone hphase hdone
    · cases h
  | recvSide =>
    rw [step] at h
    split at h
    · rename_i hphase _; cases h; exact .recvSide hphase
    · cases h
  | recvFetch =>
    rw [step] at h
    split at h
    · rename_i hphase hmsg; cases h; exact .recvFetch hphase hmsg
    · cases h
  | serve =>
    rw [step] at h
    split at h
    · rename_i hphase; cases h; exact .serve hphase
    · cases h
  | spawn =>
    rw [step] at h
    split at h
    · rename_i hphase
      split at h
      · rename_i hpermits; cases h; exact .spawn hphase hpermits
      · cases h
    · cases h
  | tryNext =>
    rw [step] at h
    split at h
    · rename_i hphase hmsg; cases h; exact .tryNext hphase hmsg
    · rename_i hphase hmsg; cases h; exact .leave hphase hmsg
    · cases h
  | answer i q a =>
    rw [step] at h
    split at h
    · rename_i task htask
      split at h
      · rename_i hq
        cases h
        exact .answer htask hq.1 (by simpa using hq.2.1) (by simpa using hq.2.2)
      · cases h
    · cases h
  | finish i =>
    rw [step] at h
    split at h
    · rename_i task htask
      split at h
      · rename_i hresult hcall; cases h; exact .finish htask hresult hcall
      · cases h
    · cases h
  | complete i =>
    rw [step] at h
    split at h
    · rename_i task htask
      split at h
      · rename_i hresult
        split at h
        · rename_i hroom; cases h; exact .complete htask hresult hroom
        · cases h
      · cases h
    · cases h

/-! ## Where things come from

The invariants of a manager are about its messages, tasks, completions and replies.  Most of them
need of a step no more than where each of those of the next state comes from. -/

section origin

variable {m m' : FetchManager S} {e : ManagerEvent S}

/-- A field that neither the tag of the cache nor the lookup touches. -/
theorem field_serve {β : Type*} (field : FetchManager S → β)
    (htag : ∀ (m : FetchManager S) cache tag epoch,
      field { m with cache := cache, cacheHash := tag, epoch := epoch } = field m)
    (hlookup : ∀ (m : FetchManager S) replies phase,
      field { m with replies := replies, phase := phase } = field m)
    (m : FetchManager S) (msg : FetchMessage S) :
    field ((m.retag msg.request).lookup msg) = field m := by
  have hretag : field (m.retag msg.request) = field m :=
    m.retag_rule msg.request rfl fun tag ↦ htag m ∅ tag _
  have hphase : ∀ m' : FetchManager S, field { m' with phase := .acquire msg } = field m' :=
    fun m' ↦ hlookup m' m'.replies _
  rw [lookup, ← hretag]
  split
  · exact hlookup _ _ _
  · exact hphase _

/-- Retagging caches nothing. -/
theorem cached_of_retag {req : S.Req} {k : S.Key} {value : S.Val}
    (h : (m.retag req).cache[k]? = some value) : m.cache[k]? = some value := by
  revert h
  exact m.retag_rule req id fun tag h ↦ absurd h getElem?_empty_ne

/-- A message in the queue after the step: it was there, or it is sent. -/
theorem Transition.queuedFrom (h : m.Transition e m') {msg : FetchMessage S}
    (hmsg : msg ∈ m'.fetchRx) :
    msg ∈ m.fetchRx ∨ ∃ request, e = .send request ∧ msg = ⟨request, m.opened⟩ := by
  cases h with
  | send request =>
    rcases List.mem_append.mp hmsg with hmsg | hmsg
    · exact Or.inl hmsg
    · exact Or.inr ⟨request, rfl, List.mem_singleton.mp hmsg⟩
  | recvFetch hphase heq | tryNext hphase heq =>
    rw [heq]
    exact Or.inl (List.mem_cons_of_mem _ hmsg)
  | @serve msg' hphase =>
    rw [field_serve FetchManager.fetchRx (fun _ _ _ _ ↦ rfl) (fun _ _ _ ↦ rfl) m msg'] at hmsg
    exact Or.inl hmsg
  | _ => exact Or.inl hmsg

/-- The message in hand after the step: it was in hand, or it was the next of the queue. -/
theorem Transition.heldFrom (h : m.Transition e m') {msg : FetchMessage S}
    (hmsg : m'.phase = .handle msg ∨ m'.phase = .acquire msg) :
    (m.phase = .handle msg ∨ m.phase = .acquire msg) ∨ msg ∈ m.fetchRx := by
  cases h with
  | recvFlush | handOver | spawn | leave => rcases hmsg with hmsg | hmsg <;> cases hmsg
  | recvFetch hphase heq | tryNext hphase heq =>
    rcases hmsg with hmsg | hmsg <;> cases hmsg
    rw [heq]
    exact Or.inr List.mem_cons_self
  | serve hphase =>
    rw [lookup] at hmsg
    split at hmsg <;> rcases hmsg with hmsg | hmsg <;> cases hmsg
    exact Or.inl (Or.inl hphase)
  | _ => exact Or.inl hmsg

/-- A task after the step: it was there, it is spawned, or it is one that was there with one more
answer or with its result. -/
inductive TaskFrom (m : FetchManager S) : ManagerEvent S → FetchTask S → Prop
  | kept {e : ManagerEvent S} {t : FetchTask S} (ht : t ∈ m.tasks) : TaskFrom m e t
  | spawned {msg : FetchMessage S} (hphase : m.phase = .acquire msg) :
      TaskFrom m .spawn ⟨msg.request, m.epoch, msg.respondTo, S.fetch m.ctx msg.request,
        fun _ ↦ none, none⟩
  | answered {i : ℕ} {q : Query} {a : Except SimError q.Answer} {task : FetchTask S}
      (htask : m.tasks[i]? = some task) (hanswer : task.answers q = none)
      (hresult : task.result = none) : TaskFrom m (.answer i q a) (task.record q a)
  | finished {i : ℕ} {task : FetchTask S} {result : CallOutcome S.Resp}
      (htask : task ∈ m.tasks) (hcall : task.call.result task.answers = some result) :
      TaskFrom m (.finish i) { task with result := some result }

theorem Transition.taskFrom (h : m.Transition e m') {t : FetchTask S} (ht : t ∈ m'.tasks) :
    m.TaskFrom e t := by
  cases h with
  | @serve msg hphase =>
    rw [field_serve FetchManager.tasks (fun _ _ _ _ ↦ rfl) (fun _ _ _ ↦ rfl) m msg] at ht
    exact .kept ht
  | spawn hphase hpermits =>
    rcases List.mem_append.mp ht with ht | ht
    · exact .kept ht
    · rw [List.mem_singleton.mp ht]
      exact .spawned hphase
  | answer htask hq hanswer hresult =>
    rcases List.mem_or_eq_of_mem_set ht with ht | rfl
    · exact .kept ht
    · exact .answered htask hanswer hresult
  | finish htask hresult hcall =>
    rcases List.mem_or_eq_of_mem_set ht with ht | rfl
    · exact .kept ht
    · exact .finished (List.mem_of_getElem? htask) hcall
  | complete => exact .kept (List.mem_of_mem_eraseIdx ht)
  | _ => exact .kept ht

/-- A completion after the step: it was there, or a task whose call has returned sends it. -/
theorem Transition.completionFrom (h : m.Transition e m') {d : FetchDone S}
    (hd : d ∈ m'.completionRx) :
    d ∈ m.completionRx ∨ ∃ task ∈ m.tasks, ∃ result, task.result = some (.returned result) ∧
      d = ⟨task.request, result, task.epoch, task.respondTo⟩ := by
  cases h with
  | drain hphase hdone | recvDone hphase hdone =>
    rw [hdone]
    exact Or.inl (List.mem_cons_of_mem _ hd)
  | @serve msg hphase =>
    rw [field_serve FetchManager.completionRx (fun _ _ _ _ ↦ rfl) (fun _ _ _ ↦ rfl) m msg] at hd
    exact Or.inl hd
  | @complete i task result htask hresult hroom =>
    rcases List.mem_append.mp hd with hd | hd
    · exact Or.inl hd
    · exact Or.inr ⟨task, List.mem_of_getElem? htask, result, hresult, List.mem_singleton.mp hd⟩
  | _ => exact Or.inl hd

/-- What is processed after the step was so before, or was the next completion. -/
theorem Transition.processedFrom (h : m.Transition e m') {d : FetchDone S}
    (hd : d ∈ m'.processed) : d ∈ m.processed ∨ d ∈ m.completionRx := by
  cases h with
  | drain hphase hdone | recvDone hphase hdone =>
    refine (List.mem_append.mp hd).imp_right fun hd ↦ ?_
    rw [List.mem_singleton.mp hd, hdone]
    exact List.mem_cons_self
  | @serve msg hphase =>
    rw [field_serve FetchManager.processed (fun _ _ _ _ ↦ rfl) (fun _ _ _ ↦ rfl) m msg] at hd
    exact Or.inl hd
  | _ => exact Or.inl hd

/-- What was processed stays so. -/
theorem Transition.processed_subset (h : m.Transition e m') : m.processed ⊆ m'.processed := by
  cases h with
  | drain | recvDone => exact List.subset_append_left _ _
  | @serve msg hphase =>
    rw [field_serve FetchManager.processed (fun _ _ _ _ ↦ rfl) (fun _ _ _ ↦ rfl) m msg]
    exact List.Subset.refl _
  | _ => exact List.Subset.refl _

/-- A reply after the step: it was there, a completion is applied, or the cache has a value for the
message that is handled. -/
inductive ReplyFrom (m m' : FetchManager S) : Reply S → Prop
  | kept {r : Reply S} (hr : r ∈ m.replies) : ReplyFrom m m' r
  | completed {d : FetchDone S} (hd : d ∈ m.completionRx) (hprocessed : d ∈ m'.processed) :
      ReplyFrom m m' ⟨d.request, d.respondTo, d.result⟩
  | hit {msg : FetchMessage S} {value : S.Val} (hphase : m.phase = .handle msg)
      (hvalue : (m.retag msg.request).cache[S.key msg.request]? = some value) :
      ReplyFrom m m' ⟨msg.request, msg.respondTo, .ok (S.hit value)⟩

theorem Transition.replyFrom (h : m.Transition e m') {r : Reply S} (hr : r ∈ m'.replies) :
    ReplyFrom m m' r := by
  cases h with
  | @drain done rest hphase hdone | @recvDone done rest hphase hdone =>
    rcases List.mem_append.mp hr with hr | hr
    · exact .kept hr
    · rw [List.mem_singleton.mp hr]
      exact .completed (hdone ▸ List.mem_cons_self) (List.mem_append_right _ List.mem_cons_self)
  | @serve msg hphase =>
    have hretag : (m.retag msg.request).replies = m.replies :=
      m.retag_rule msg.request rfl fun _ ↦ rfl
    rw [lookup] at hr
    split at hr
    · rename_i value hvalue
      rcases List.mem_append.mp hr with hr | hr
      · exact .kept (hretag ▸ hr)
      · rw [List.mem_singleton.mp hr]
        exact .hit hphase hvalue
    · exact .kept (hretag ▸ hr)
  | _ => exact .kept hr

end origin

end FetchManager

end RexSim
