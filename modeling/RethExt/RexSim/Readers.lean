import RethExt.RexSim.Quiescence
import RethExt.RexSim.Refinement

/-!
# What a reader returns

A call of `DatabaseRef` that is not answered by the snapshot it has loaded sends its request and
blocks in `await_fetch`, until the reply is there, the timeout has passed, or the other end of its
channel is gone.  `Readers` is the client together with the calls that are on their way.

The channel of a call is a ticket of the manager, and `Ticketed` keeps account of them: so a call
gets the reply to its own request or none (`Justified`), and the channel of a call that waits is
closed on it only by its own fetch, when that panics (`FetchManager.dropped_iff`).  That the call
does not need its timeout is what `comesToRest_of_run` is used for.
-/

set_option autoImplicit false

open Std

namespace RexSim

def FetchTask.isPanicked {S : FetchSpec} (t : FetchTask S) : Bool :=
  match t.result with
  | some .panicked => true
  | _ => false

theorem FetchTask.isPanicked_iff {S : FetchSpec} {t : FetchTask S} :
    t.isPanicked = true ↔ t.result = some .panicked := by
  rw [isPanicked.eq_def]
  split <;> simp_all

section

variable [Revm] {keccak256 : Bytes → B256}

/-! ## Errors name what was asked for -/

/-- The errors that a call makes of answers that are none. -/
def Names : (k : FetchKind) → (spec keccak256 k).Key → SimError → Prop
  | .account, _, _ => False
  | .code, codeHash, e => e = .missingAddressHint codeHash ∨
      ∃ address actual, actual ≠ codeHash ∧ e = .codeHashMismatch address codeHash actual
  | .storage, _, _ => False
  | .blockHash, number, e => e = .blockNotFound number

/-- **A fetch that fails** has met an error of the transport, or names what was asked for. -/
theorem names_of_fetch {Told : (q : Query) → Option q.Answer → Prop} (k : FetchKind)
    (ctx : (spec keccak256 k).Ctx) (req : (spec keccak256 k).Req) {answers : Answers} {e : SimError}
    (hanswers : GivenBy Told answers)
    (h : ((spec keccak256 k).fetch ctx req).result answers = some (.returned (.error e))) :
    e = .rpc ∨ Names k ((spec keccak256 k).key req) e := by
  cases k with
  | account =>
    obtain ⟨joined, hjoin, hresult⟩ := Option.map_eq_some_iff.mp h
    rcases joined with e' | joined
    · cases hresult
      rcases tryJoin_eq_error hjoin with he | he | he <;> exact Or.inl (hanswers.rpc he)
    · cases hresult
  | code =>
    rcases haddress : req.addressHint.or ctx.hashToAddress[req.codeHash]? with _ | address
    · simp only [haddress, getCodeByHash, Option.some.injEq, CallOutcome.returned.injEq,
        Except.error.injEq] at h
      exact Or.inr (Or.inl h.symm)
    · simp only [haddress, getCodeByHash] at h
      obtain ⟨answer, hanswer, hresult⟩ := Option.map_eq_some_iff.mp h
      rcases answer with e' | code
      · cases hresult
        exact Or.inl (hanswers.rpc hanswer)
      · by_cases hhash : codeHashOf keccak256 code = req.codeHash
        · -- the code is held, or the call panics
          simp only [ne_eq, hhash, not_true_eq_false, if_false] at hresult
          split at hresult <;> cases hresult
        · simp only [ne_eq, hhash, not_false_eq_true, if_true, CallOutcome.returned.injEq,
            Except.error.injEq] at hresult
          exact Or.inr (Or.inr ⟨address, _, hhash, hresult.symm⟩)
  | storage => exact Or.inl (hanswers.rpc (getStorage_eq_iff.mp h))
  | blockHash =>
    obtain ⟨answer, hanswer, hresult⟩ := Option.map_eq_some_iff.mp h
    rcases answer with e' | block
    · cases hresult
      exact Or.inl (hanswers.rpc hanswer)
    · rcases block with _ | hash
      · cases hresult
        exact Or.inr rfl
      · cases hresult

/-- A read that fails by itself has loaded a stale snapshot. -/
theorem StateSnapshot.stale_of_readRef {s : StateSnapshot} {k : FetchKind}
    {key : (spec keccak256 k).Key} {e : SimError}
    (h : s.readRef keccak256 k key = .ready (.error e)) : e = .staleState ∧ s.stale = true := by
  by_cases hstale : s.stale = true
  · rw [readRef_of_stale hstale] at h
    cases h
    exact ⟨rfl, hstale⟩
  · cases k with
    | account | code | storage | blockHash =>
      simp only [readRef, basicRef, codeByHashRef, storageRef, blockHashRef, hstale,
        Bool.false_eq_true, if_false] at h
      split at h <;> cases h

namespace FetchManager

variable {k : FetchKind} {m m' : FetchManager (spec keccak256 k)}
  {e : ManagerEvent (spec keccak256 k)}

/-- What a manager replies when a fetch fails. -/
def Explained (m : FetchManager (spec keccak256 k)) : Prop :=
  m.Tracks
    (fun msg call answers ↦ (∃ ctx, call = (spec keccak256 k).fetch ctx msg.request) ∧
      GivenBy (fun _ _ ↦ True) answers)
    fun msg result ↦ ∀ e, result = .error e →
      e = .rpc ∨ Names k ((spec keccak256 k).key msg.request) e

theorem Explained.step (h : m.Explained) (hground : m.Grounded) (hs : Step e m m')
    (hanswer : ∀ i q a, e = .answer i q a → ∃ o, a = answerOf o) : m'.Explained := by
  refine Tracks.step h hground hs (fun msg _ ↦ ⟨⟨m.ctx, rfl⟩, nofun⟩) ?_ (fun _ _ _ ↦ nofun) ?_
  · rintro i q a he t - - ⟨hcall, hgiven⟩
    obtain ⟨o, ho⟩ := hanswer i q a he
    exact ⟨hcall, FetchTask.forall_record ⟨o, ho, trivial⟩ hgiven⟩
  · rintro t - result ⟨⟨ctx, hcall⟩, hgiven⟩ hresult e rfl
    rw [hcall] at hresult
    exact names_of_fetch k ctx t.request hgiven hresult

end FetchManager

namespace Sys

variable {L : Ledger} {s s' : Sys keccak256} {e : Event keccak256}

/-- A step of the layer is one of a manager, which is answered with what the node says and sent
what the layer's event sends. -/
theorem exists_manager_of_layer {e : LayerEvent keccak256} {layer layer' : FetchLayer keccak256}
    (h : FetchLayer.Step L e layer layer') :
    layer'.managers = layer.managers ∨
      ∃ k e' m, FetchManager.Step e' (layer.managers k) m ∧ layer' = layer.setManager k m ∧
        (∀ i q a, e' = .answer i q a → ∃ o, a = answerOf o) ∧
        ∀ req, e' = .send req → e = .manager k (.send req) := by
  replace h : layer.step L e = some layer' := h
  cases e with
  | manager k e =>
    rw [FetchLayer.step] at h
    split at h
    · rename_i hlocal
      obtain ⟨m, hm, rfl⟩ := Option.map_eq_some_iff.mp h
      refine Or.inr ⟨k, e, m, hm, rfl, ?_, fun req he ↦ by rw [he]⟩
      rintro i q a rfl
      cases hlocal
    · simp at h
  | answer k i q fails =>
    obtain ⟨m, hm, rfl⟩ := Option.map_eq_some_iff.mp h
    refine Or.inr ⟨k, _, m, hm, rfl, ?_, by simp⟩
    rintro _ _ _ ⟨⟩
    exact exists_answerOf L layer.tip q fails
  | head tip =>
    cases h
    exact Or.inl rfl

/-- What a step of each manager preserves that is answered with what the node says and sent what a
loaded read asks for, and the side channel does not matter to, a step of the client preserves. -/
theorem Step.preserves {P : (k : FetchKind) → FetchManager (spec keccak256 k) → Prop}
    (hstep : ∀ k e m m', P k m → FetchManager.Step e m m' →
      (∀ i q a, e = .answer i q a → ∃ o, a = answerOf o) → (∀ req, e = .send req → s.Sends k req) →
        P k m')
    (hside : ∀ m side, P .code m → P .code { m with sideRx := side })
    (hs : Step L e s s') (h : ∀ k, P k (s.layer.managers k)) : ∀ k, P k (s'.layer.managers k) := by
  have hlayer : ∀ {e : LayerEvent keccak256} {layer : FetchLayer keccak256},
      FetchLayer.Step L e s.layer layer →
      (∀ k req, e = .manager k (.send req) → s.Sends k req) → ∀ k, P k (layer.managers k) := by
    intro e layer hlayer hsends
    rcases exists_manager_of_layer hlayer with heq | ⟨k, e', m, hm, rfl, hanswer, hsend⟩
    · rw [heq]
      exact h
    · intro j
      have hupdate : ∀ j, P j (Function.update s.layer.managers k m j) := by
        intro j
        by_cases hj : j = k
        · subst hj
          rw [Function.update_self]
          exact hstep j e' _ _ (h j) hm hanswer fun req he ↦ hsends j req (hsend req he)
        · rw [Function.update_of_ne hj]
          exact h j
      by_cases hj : j = .code
      · subst hj
        rw [FetchLayer.setManager_code]
        exact hside _ _ (hupdate .code)
      · rw [FetchLayer.setManager_managers hj]
        exact hupdate j
  cases hs.transition with
  | requestFlush _ _ hl | handOver _ hl | answer hl => exact hlayer hl nofun
  | manager hinternal hl =>
    refine hlayer hl fun k req he ↦ ?_
    cases he
    cases hinternal
  | sent hread houtcome hl =>
    refine hlayer hl fun k req he ↦ ?_
    cases he
    exact .intro (List.mem_of_getElem? hread) houtcome
  | _ => exact h

/-- What was asked of the managers stays with them, and their replies are not taken back. -/
theorem Step.keeps (hs : Step L e s s') (k : FetchKind) :
    (s.layer.managers k).Keeps (s'.layer.managers k) :=
  hs.preserves (P := fun j m ↦ (s.layer.managers j).Keeps m)
    (fun _ _ _ _ h hm _ _ ↦ h.trans hm.transition.keeps)
    (fun _ _ h ↦ ⟨h.messages, h.replies, h.opened, h.panicked⟩) (fun _ ↦ .refl _) k

end Sys

/-! ## The readers -/

/-- What `recv_timeout` returns. -/
inductive Received (T : Type)
  | response (result : Except SimError T)
  | timeout
  | disconnected

def awaitFetch {T : Type} (rx : Received T) (kind : FetchKind) (timeout : ℕ) : Except SimError T :=
  match rx with
  | .response result => result
  | .timeout => .error (.fetchTimeout kind timeout)
  | .disconnected => .error .fetcherClosed

namespace FetchManager

/-- No one has the sending end of a channel, and nothing was sent on it.  A fetch that panics lets
go of its end. -/
def dropped {S : FetchSpec} (m : FetchManager S) (respondTo : ℕ) : Bool :=
  ([.queued, .handled, .completed, .answered].all fun place ↦
    !(m.ticketsAt place).contains respondTo) &&
      m.tasks.all fun t ↦ t.isPanicked || t.respondTo != respondTo

variable {k : FetchKind} {m : FetchManager (spec keccak256 k)}
  {msg : FetchMessage (spec keccak256 k)}

/-- The fetch of the message has panicked, on code that is refused. -/
def Panicked (m : FetchManager (spec keccak256 k)) (msg : FetchMessage (spec keccak256 k)) : Prop :=
  ∃ t ∈ m.tasks, t.message = msg ∧ t.result = some .panicked ∧
    RefusesCode keccak256 k msg.request t.answers

theorem Panicked.mono {m' : FetchManager (spec keccak256 k)} (h : m.Panicked msg)
    (hkeeps : m.Keeps m') : m'.Panicked msg := by
  obtain ⟨t, ht, hmsg, hresult, hrefuses⟩ := h
  exact ⟨t, hkeeps.panicked t ht hresult, hmsg, hresult, hrefuses⟩

/-- **When a channel is closed**: exactly when the fetch of the request that was sent with it has
panicked. -/
theorem dropped_iff (hticketed : m.Ticketed) (hground : m.Grounded) (hmsg : msg ∈ m.messages) :
    m.dropped msg.respondTo = true ↔ m.Panicked msg := by
  rw [dropped, Bool.and_eq_true, List.all_eq_true, List.all_eq_true]
  constructor
  · rintro ⟨hplaces, htasks⟩
    have hnot : ∀ place ∈ [Place.queued, .handled, .completed, .answered],
        msg ∉ m.messagesAt place := by
      intro place hplace hmem
      have hticket : msg.respondTo ∈ m.ticketsAt place := List.mem_map_of_mem hmem
      simpa [hticket] using hplaces place hplace
    have hrunning : msg ∈ m.messagesAt .running := by
      simp only [List.mem_cons, List.not_mem_nil, or_false, forall_eq_or_imp, forall_eq] at hnot
      simpa [messages, hnot] using hmsg
    obtain ⟨t, ht, rfl⟩ := List.mem_map.mp hrunning
    have hpanicked : t.result = some .panicked := by
      have htask := htasks t ht
      rw [show t.message.respondTo = t.respondTo from rfl, bne_self_eq_false,
        Bool.or_false] at htask
      exact FetchTask.isPanicked_iff.mp htask
    exact ⟨t, ht, rfl, hpanicked, hground.refusesCode ht hpanicked⟩
  · rintro ⟨t, ht, rfl, hpanicked, -⟩
    have hrunning : t.message ∈ m.messagesAt .running := List.mem_map_of_mem ht
    refine ⟨fun place hplace ↦ ?_, fun t' ht' ↦ ?_⟩
    · have helse := hticketed.not_elsewhere hrunning (p := place) (by
        rintro rfl
        simp at hplace)
      simpa using helse
    · by_cases hticket : t'.respondTo = t.respondTo
      · rw [hticketed.task_unique ht' ht hticket, FetchTask.isPanicked_iff.mpr hpanicked]
        rfl
      · simp [FetchTask.message, hticket]

end FetchManager

section

variable (keccak256)

/-- A call in `await_fetch`. -/
structure Waiter where
  read : ReadCall keccak256
  respondTo : ℕ

/-- A call that is over, with the channel it has waited on, if it has. -/
structure Returned where
  read : ReadCall keccak256
  respondTo : Option ℕ
  result : Except SimError (spec keccak256 read.kind).Resp

structure Readers where
  sys : Sys keccak256
  waiting : List (Waiter keccak256) := []
  returned : List (Returned keccak256) := []

inductive ReadersEvent
  | sys (e : Event keccak256)
  /-- `recv_timeout` returns the reply. -/
  | response (j : ℕ)
  /-- The timeout has passed. -/
  | timeout (j : ℕ)
  /-- The other end of the channel is gone. -/
  | disconnected (j : ℕ)

end

/-- Why a call returns the error. -/
def Returned.Explains (ret : Returned keccak256) (sys : Sys keccak256) (timeout : ℕ)
    (e : SimError) : Prop :=
  e = .staleState ∧ ret.read.snapshot.stale = true ∨
    e = .fetchTimeout ret.read.kind timeout ∨
      (e = .fetcherClosed ∧ ∃ req respondTo, ret.read.outcome = .fetch req ∧
        ret.respondTo = some respondTo ∧
          (sys.layer.managers ret.read.kind).Panicked ⟨req, respondTo⟩) ∨
        e = .rpc ∨ Names ret.read.kind ret.read.key e

namespace Readers

variable {L : Ledger} {fetch : FetchConfig} {r r' : Readers keccak256} {e : ReadersEvent keccak256}

def new (keccak256 : Bytes → B256) (fetch : FetchConfig) (tip : B256) : Readers keccak256 where
  sys := .new keccak256 fetch tip

/-- The readers after an event that leaves the client as `sys`: a call whose snapshot does not
answer it waits. -/
def after (r : Readers keccak256) (sys : Sys keccak256) : Event keccak256 → Readers keccak256
  | .read i => match r.sys.loaded[i]? with
    | some read => match read.outcome with
      | .ready result => { r with sys := sys, returned := r.returned ++ [⟨read, none, result⟩] }
      | .fetch _ =>
        { r with
          sys := sys
          waiting := r.waiting ++ [⟨read, (r.sys.layer.managers read.kind).opened⟩] }
    | none => { r with sys := sys }
  | _ => { r with sys := sys }

/-- The call `j` leaves `await_fetch`. -/
def leave (fetch : FetchConfig) (r : Readers keccak256) (j : ℕ) (w : Waiter keccak256)
    (rx : Received (spec keccak256 w.read.kind).Resp) : Readers keccak256 :=
  { r with
    waiting := r.waiting.eraseIdx j
    returned := r.returned ++
      [⟨w.read, some w.respondTo, awaitFetch rx w.read.kind fetch.waitTimeoutMs⟩] }

def step (L : Ledger) (fetch : FetchConfig) (r : Readers keccak256) :
    ReadersEvent keccak256 → Option (Readers keccak256)
  | .sys e => (r.sys.step L e).map fun sys ↦ r.after sys e
  | .response j => (r.waiting[j]?).bind fun w ↦
    ((r.sys.layer.managers w.read.kind).replies.find? fun reply ↦
      reply.respondTo == w.respondTo).map fun reply ↦ r.leave fetch j w (.response reply.result)
  | .timeout j => (r.waiting[j]?).map fun w ↦ r.leave fetch j w .timeout
  | .disconnected j => (r.waiting[j]?).bind fun w ↦
    if (r.sys.layer.managers w.read.kind).dropped w.respondTo then
      some (r.leave fetch j w .disconnected)
    else none

abbrev Step (L : Ledger) (fetch : FetchConfig) :
    ReadersEvent keccak256 → Readers keccak256 → Readers keccak256 → Prop :=
  Lts.Executes (step L fetch)

/-- **What each step does.** -/
inductive Transition (L : Ledger) (fetch : FetchConfig) (r : Readers keccak256) :
    ReadersEvent keccak256 → Readers keccak256 → Prop
  | other {e : Event keccak256} {sys : Sys keccak256} (hs : Sys.Step L e r.sys sys)
      (hreads : sys.reads = r.sys.reads) : Transition L fetch r (.sys e) { r with sys := sys }
  | served {i : ℕ} {sys : Sys keccak256} {read : ReadCall keccak256}
      {result : Except SimError (spec keccak256 read.kind).Resp}
      (hs : Sys.Step L (.read i) r.sys sys) (houtcome : read.outcome = .ready result)
      (hreads : sys.reads = r.sys.reads ++ [read]) :
      Transition L fetch r (.sys (.read i))
        { r with sys := sys, returned := r.returned ++ [⟨read, none, result⟩] }
  | sent {i : ℕ} {sys : Sys keccak256} {read : ReadCall keccak256}
      {req : (spec keccak256 read.kind).Req} (hs : Sys.Step L (.read i) r.sys sys)
      (houtcome : read.outcome = .fetch req) (hreads : sys.reads = r.sys.reads ++ [read])
      (hmsg : ⟨req, (r.sys.layer.managers read.kind).opened⟩ ∈
        (sys.layer.managers read.kind).messages)
      (hopened : (r.sys.layer.managers read.kind).opened <
        (sys.layer.managers read.kind).opened) :
      Transition L fetch r (.sys (.read i))
        { r with
          sys := sys
          waiting := r.waiting ++ [⟨read, (r.sys.layer.managers read.kind).opened⟩] }
  | response {j : ℕ} {w : Waiter keccak256} {reply : Reply (spec keccak256 w.read.kind)}
      (hw : r.waiting[j]? = some w) (hreply : reply ∈ (r.sys.layer.managers w.read.kind).replies)
      (hticket : reply.respondTo = w.respondTo) :
      Transition L fetch r (.response j) (r.leave fetch j w (.response reply.result))
  | timeout {j : ℕ} {w : Waiter keccak256} (hw : r.waiting[j]? = some w) :
      Transition L fetch r (.timeout j) (r.leave fetch j w .timeout)
  | disconnected {j : ℕ} {w : Waiter keccak256} (hw : r.waiting[j]? = some w)
      (hdropped : (r.sys.layer.managers w.read.kind).dropped w.respondTo = true) :
      Transition L fetch r (.disconnected j) (r.leave fetch j w .disconnected)

/-- A request that is sent is in the manager's queue, on a new channel. -/
theorem sent_of_layer {k : FetchKind} {req : (spec keccak256 k).Req}
    {layer layer' : FetchLayer keccak256}
    (h : FetchLayer.Step L (.manager k (.send req)) layer layer') :
    ⟨req, (layer.managers k).opened⟩ ∈ (layer'.managers k).messages ∧
      (layer.managers k).opened < (layer'.managers k).opened := by
  obtain ⟨m, hm, rfl⟩ := Option.map_eq_some_iff.mp (show
    ((layer.managers k).step (.send req)).map (layer.setManager k) = some layer' from h)
  have hkept : ((layer.setManager k m).managers k).messages = m.messages ∧
      ((layer.setManager k m).managers k).opened = m.opened := by
    by_cases hk : k = .code
    · subst hk
      rw [FetchLayer.setManager_code_of_ne (by decide), Function.update_self]
      exact ⟨rfl, rfl⟩
    · rw [FetchLayer.setManager_managers hk, Function.update_self]
      exact ⟨rfl, rfl⟩
  rw [hkept.1, hkept.2]
  cases hm
  constructor
  · simp [FetchManager.messages, FetchManager.messagesAt]
  · exact Nat.lt_succ_self _

theorem Step.transition (h : Step L fetch e r r') : r.Transition L fetch e r' := by
  replace h : r.step L fetch e = some r' := h
  cases e with
  | sys e =>
    obtain ⟨sys, hs, rfl⟩ := Option.map_eq_some_iff.mp h
    replace hs : Sys.Step L e r.sys sys := hs
    cases hs.transition with
    | served hread houtcome =>
      simp only [after, hread, houtcome]
      exact .served hs houtcome rfl
    | sent hread houtcome hlayer =>
      simp only [after, hread, houtcome]
      obtain ⟨hmsg, hopened⟩ := sent_of_layer hlayer
      exact .sent hs houtcome rfl hmsg hopened
    | _ => exact .other hs rfl
  | response j =>
    obtain ⟨w, hw, h⟩ := Option.bind_eq_some_iff.mp h
    obtain ⟨reply, hfind, rfl⟩ := Option.map_eq_some_iff.mp h
    exact .response hw (List.mem_of_find?_eq_some hfind)
      (by simpa using List.find?_some hfind)
  | timeout j =>
    obtain ⟨w, hw, rfl⟩ := Option.map_eq_some_iff.mp h
    exact .timeout hw
  | disconnected j =>
    obtain ⟨w, hw, h⟩ := Option.bind_eq_some_iff.mp h
    split at h
    · rename_i hdropped
      cases h
      exact .disconnected hw hdropped
    · simp at h

/-! ## What is kept -/

/-- **Why a call has returned what it has**: its snapshot says so, the reply to its own request
does, its timeout has passed, or the fetch of its own request has panicked. -/
inductive Justified (sys : Sys keccak256) (timeout : ℕ) : Returned keccak256 → Prop
  | served {read : ReadCall keccak256} {result : Except SimError (spec keccak256 read.kind).Resp}
      (houtcome : read.outcome = .ready result) : Justified sys timeout ⟨read, none, result⟩
  | replied {read : ReadCall keccak256} {req : (spec keccak256 read.kind).Req}
      {reply : Reply (spec keccak256 read.kind)} (houtcome : read.outcome = .fetch req)
      (hreply : reply ∈ (sys.layer.managers read.kind).replies) (hreq : reply.request = req) :
      Justified sys timeout ⟨read, some reply.respondTo, reply.result⟩
  | timedOut {read : ReadCall keccak256} {req : (spec keccak256 read.kind).Req} {respondTo : ℕ}
      (houtcome : read.outcome = .fetch req) :
      Justified sys timeout ⟨read, some respondTo, .error (.fetchTimeout read.kind timeout)⟩
  | closed {read : ReadCall keccak256} {req : (spec keccak256 read.kind).Req} {respondTo : ℕ}
      (houtcome : read.outcome = .fetch req)
      (hpanicked : (sys.layer.managers read.kind).Panicked ⟨req, respondTo⟩) :
      Justified sys timeout ⟨read, some respondTo, .error .fetcherClosed⟩

theorem Justified.mono {sys sys' : Sys keccak256} {timeout : ℕ} {ret : Returned keccak256}
    (h : Justified sys timeout ret)
    (hkeeps : ∀ k, (sys.layer.managers k).Keeps (sys'.layer.managers k)) :
    Justified sys' timeout ret := by
  cases h with
  | served houtcome => exact .served houtcome
  | replied houtcome hreply hreq => exact .replied houtcome ((hkeeps _).replies hreply) hreq
  | timedOut houtcome => exact .timedOut houtcome
  | closed houtcome hpanicked => exact .closed houtcome (hpanicked.mono (hkeeps _))

/-- The channels that calls wait on, or have waited on. -/
def channels (r : Readers keccak256) : List (FetchKind × ℕ) :=
  (r.waiting.map fun w ↦ (w.read.kind, w.respondTo)) ++
    r.returned.filterMap fun ret ↦ ret.respondTo.map fun respondTo ↦ (ret.read.kind, respondTo)

section leave

variable {j : ℕ} {w : Waiter keccak256}

theorem perm_of_waiting (hw : r.waiting[j]? = some w) :
    (w :: r.waiting.eraseIdx j).Perm r.waiting := by
  obtain ⟨hj, rfl⟩ := List.getElem?_eq_some_iff.mp hw
  exact List.getElem_cons_eraseIdx_perm hj

theorem channels_leave (hw : r.waiting[j]? = some w)
    (rx : Received (spec keccak256 w.read.kind).Resp) :
    (r.leave fetch j w rx).channels.Perm r.channels := by
  have hwaiting := (perm_of_waiting hw).map fun w ↦ (w.read.kind, w.respondTo)
  simp only [channels, leave, List.filterMap_append, List.filterMap_cons, List.filterMap_nil,
    Option.map_some, ← List.append_assoc]
  refine (List.perm_append_singleton _ _).trans ?_
  rw [← List.cons_append]
  exact hwaiting.append_right _

theorem reads_leave (hw : r.waiting[j]? = some w)
    (rx : Received (spec keccak256 w.read.kind).Resp) :
    ((r.leave fetch j w rx).waiting.map Waiter.read ++
      (r.leave fetch j w rx).returned.map Returned.read).Perm
        (r.waiting.map Waiter.read ++ r.returned.map Returned.read) := by
  have hwaiting := (perm_of_waiting hw).map Waiter.read
  simp only [leave, List.map_append, List.map_cons, List.map_nil, ← List.append_assoc]
  refine (List.perm_append_singleton _ _).trans ?_
  rw [← List.cons_append]
  exact hwaiting.append_right _

end leave

/-- What is kept of the managers and of the calls. -/
structure Inv (fetch : FetchConfig) (r : Readers keccak256) : Prop where
  accounted : ∀ k, Sys.Accounted fetch k (r.sys.layer.managers k)
  explained : ∀ k, (r.sys.layer.managers k).Explained
  reads : (r.waiting.map Waiter.read ++ r.returned.map Returned.read).Perm r.sys.reads
  sent : ∀ w ∈ r.waiting, ∃ req, w.read.outcome = .fetch req ∧
    ⟨req, w.respondTo⟩ ∈ (r.sys.layer.managers w.read.kind).messages
  justified : ∀ ret ∈ r.returned, Justified r.sys fetch.waitTimeoutMs ret
  channels : r.channels.Nodup
  opened : ∀ c ∈ r.channels, c.2 < (r.sys.layer.managers c.1).opened

theorem inv_new (fetch : FetchConfig) (tip : B256) : (new keccak256 fetch tip).Inv fetch where
  accounted := Sys.accounted_new fetch tip
  explained _ := ⟨fun _ h ↦ absurd h List.not_mem_nil, fun _ h ↦ absurd h List.not_mem_nil,
    fun _ h ↦ absurd h List.not_mem_nil⟩
  reads := .nil
  sent _ h := absurd h List.not_mem_nil
  justified _ h := absurd h List.not_mem_nil
  channels := .nil
  opened _ h := absurd h List.not_mem_nil

theorem managers_step {sys : Sys keccak256} {e : Event keccak256} (h : r.Inv fetch)
    (hs : Sys.Step L e r.sys sys) (k : FetchKind) :
    Sys.Accounted fetch k (sys.layer.managers k) ∧ (sys.layer.managers k).Explained :=
  hs.preserves (P := fun k m ↦ Sys.Accounted fetch k m ∧ m.Explained)
    (fun _ _ _ _ h hm hanswer _ ↦ ⟨h.1.step hm, h.2.step h.1.grounded hm hanswer⟩)
    (fun _ _ h ↦ ⟨⟨h.1.permits, h.1.calls, h.1.tickets, h.1.inflight, { h.1.grounded with }⟩,
      ⟨h.2.call, h.2.completion, h.2.replies⟩⟩)
    (fun k ↦ ⟨h.accounted k, h.explained k⟩) k

/-- The channel of a call that waits is closed exactly when the fetch of its request has
panicked. -/
theorem Inv.dropped_iff (h : r.Inv fetch) {w : Waiter keccak256} (hw : w ∈ r.waiting) :
    (r.sys.layer.managers w.read.kind).dropped w.respondTo = true ↔
      ∃ req, w.read.outcome = .fetch req ∧
        (r.sys.layer.managers w.read.kind).Panicked ⟨req, w.respondTo⟩ := by
  obtain ⟨req, houtcome, hmsg⟩ := h.sent w hw
  refine (FetchManager.dropped_iff (h.accounted _).tickets (h.accounted _).grounded hmsg).trans
    ⟨fun hpanicked ↦ ⟨req, houtcome, hpanicked⟩, ?_⟩
  rintro ⟨req', houtcome', hpanicked⟩
  cases houtcome.symm.trans houtcome'
  exact hpanicked

/-- A call leaves with a result that is justified. -/
theorem Inv.leave (h : r.Inv fetch) {j : ℕ} {w : Waiter keccak256} (hw : r.waiting[j]? = some w)
    (rx : Received (spec keccak256 w.read.kind).Resp)
    (hjustified : Justified r.sys fetch.waitTimeoutMs
      ⟨w.read, some w.respondTo, awaitFetch rx w.read.kind fetch.waitTimeoutMs⟩) :
    (r.leave fetch j w rx).Inv fetch where
  accounted := h.accounted
  explained := h.explained
  reads := (reads_leave hw rx).trans h.reads
  sent w' hw' := h.sent w' (List.mem_of_mem_eraseIdx hw')
  justified ret hret := by
    rcases List.mem_append.mp hret with hret | hret
    · exact h.justified ret hret
    · rw [List.mem_singleton.mp hret]
      exact hjustified
  channels := (channels_leave hw rx).nodup_iff.mpr h.channels
  opened c hc := h.opened c ((channels_leave hw rx).subset hc)

section sys

variable {sys : Sys keccak256} {e : Event keccak256}

theorem Inv.sent_step (h : r.Inv fetch) (hs : Sys.Step L e r.sys sys) {w : Waiter keccak256}
    (hw : w ∈ r.waiting) : ∃ req, w.read.outcome = .fetch req ∧
      ⟨req, w.respondTo⟩ ∈ (sys.layer.managers w.read.kind).messages := by
  obtain ⟨req, houtcome, hmsg⟩ := h.sent w hw
  exact ⟨req, houtcome, (hs.keeps _).messages _ hmsg⟩

theorem Inv.justified_step (h : r.Inv fetch) (hs : Sys.Step L e r.sys sys)
    {ret : Returned keccak256} (hret : ret ∈ r.returned) :
    Justified sys fetch.waitTimeoutMs ret :=
  (h.justified ret hret).mono hs.keeps

theorem Inv.opened_step (h : r.Inv fetch) (hs : Sys.Step L e r.sys sys) {c : FetchKind × ℕ}
    (hc : c ∈ r.channels) : c.2 < (sys.layer.managers c.1).opened :=
  (h.opened c hc).trans_le (hs.keeps _).opened

/-- A read that is answered from its snapshot returns. -/
theorem Inv.served (h : r.Inv fetch) (hs : Sys.Step L e r.sys sys) {read : ReadCall keccak256}
    {result : Except SimError (spec keccak256 read.kind).Resp}
    (houtcome : read.outcome = .ready result) (hreads : sys.reads = r.sys.reads ++ [read]) :
    Inv fetch { r with sys := sys, returned := r.returned ++ [⟨read, none, result⟩] } := by
  have hchannels : Readers.channels { r with
      sys := sys, returned := r.returned ++ [⟨read, none, result⟩] } = r.channels := by
    simp [Readers.channels]
  exact {
    accounted := fun k ↦ (managers_step h hs k).1
    explained := fun k ↦ (managers_step h hs k).2
    reads := by
      simp only [hreads, List.map_append, List.map_cons, List.map_nil, ← List.append_assoc]
      exact h.reads.append_right _
    sent := fun w hw ↦ h.sent_step hs hw
    justified := fun ret hret ↦ by
      rcases List.mem_append.mp hret with hret | hret
      · exact h.justified_step hs hret
      · rw [List.mem_singleton.mp hret]
        exact .served houtcome
    channels := hchannels ▸ h.channels
    opened := fun c hc ↦ h.opened_step hs (hchannels ▸ hc) }

/-- A read that has to fetch waits on a channel that no call has waited on. -/
theorem Inv.waits (h : r.Inv fetch) (hs : Sys.Step L e r.sys sys) {read : ReadCall keccak256}
    {req : (spec keccak256 read.kind).Req} (houtcome : read.outcome = .fetch req)
    (hreads : sys.reads = r.sys.reads ++ [read])
    (hmsg : ⟨req, (r.sys.layer.managers read.kind).opened⟩ ∈
      (sys.layer.managers read.kind).messages)
    (hopened : (r.sys.layer.managers read.kind).opened < (sys.layer.managers read.kind).opened) :
    Inv fetch { r with
      sys := sys
      waiting := r.waiting ++ [⟨read, (r.sys.layer.managers read.kind).opened⟩] } := by
  have hchannels : (Readers.channels { r with
      sys := sys
      waiting := r.waiting ++ [⟨read, (r.sys.layer.managers read.kind).opened⟩] }).Perm
        ((read.kind, (r.sys.layer.managers read.kind).opened) :: r.channels) := by
    simp only [Readers.channels, List.map_append, List.map_cons, List.map_nil, List.append_assoc]
    exact List.perm_middle
  exact {
    accounted := fun k ↦ (managers_step h hs k).1
    explained := fun k ↦ (managers_step h hs k).2
    reads := by
      simp only [hreads, List.map_append, List.map_cons, List.map_nil, List.append_assoc]
      refine List.perm_middle.trans ?_
      exact (h.reads.cons read).trans (List.perm_append_singleton _ _).symm
    sent := fun w hw ↦ by
      rcases List.mem_append.mp hw with hw | hw
      · exact h.sent_step hs hw
      · rw [List.mem_singleton.mp hw]
        exact ⟨req, houtcome, hmsg⟩
    justified := fun ret hret ↦ h.justified_step hs hret
    channels := by
      refine hchannels.nodup_iff.mpr (List.nodup_cons.mpr ⟨fun hmem ↦ ?_, h.channels⟩)
      exact Nat.lt_irrefl _ (h.opened _ hmem)
    opened := fun c hc ↦ by
      rcases List.mem_cons.mp (hchannels.subset hc) with rfl | hc
      · exact hopened
      · exact h.opened_step hs hc }

end sys

/-- **The step lemma.** -/
theorem Inv.step (h : r.Inv fetch) (hstep : Step L fetch e r r') : r'.Inv fetch := by
  cases hstep.transition with
  | other hs hreads =>
    exact {
      accounted := fun k ↦ (managers_step h hs k).1
      explained := fun k ↦ (managers_step h hs k).2
      reads := hreads ▸ h.reads
      sent := fun w hw ↦ h.sent_step hs hw
      justified := fun ret hret ↦ h.justified_step hs hret
      channels := h.channels
      opened := fun c hc ↦ h.opened_step hs hc }
  | served hs houtcome hreads => exact h.served hs houtcome hreads
  | sent hs houtcome hreads hmsg hopened => exact h.waits hs houtcome hreads hmsg hopened
  | @response j w reply hw hreply hticket =>
    refine h.leave hw _ ?_
    obtain ⟨req, houtcome, hmsg⟩ := h.sent w (List.mem_of_getElem? hw)
    have hanswered : reply.message ∈ (r.sys.layer.managers w.read.kind).messages :=
      Multiset.mem_add.mpr (Or.inr (List.mem_map_of_mem hreply))
    have hsame := (h.accounted _).tickets.message_unique hanswered hmsg hticket
    rw [← hticket]
    exact .replied houtcome hreply (congrArg FetchMessage.request hsame)
  | @timeout j w hw =>
    obtain ⟨req, houtcome, -⟩ := h.sent w (List.mem_of_getElem? hw)
    exact h.leave hw _ (.timedOut houtcome)
  | @disconnected j w hw hdropped =>
    obtain ⟨req, houtcome, hpanicked⟩ := (h.dropped_iff (List.mem_of_getElem? hw)).mp hdropped
    exact h.leave hw _ (.closed houtcome hpanicked)

/-- **What calls return.** -/
structure Answered (fetch : FetchConfig) (r : Readers keccak256) : Prop where
  /-- Every read that was made has returned once, or waits. -/
  once : (r.waiting.map Waiter.read ++ r.returned.map Returned.read).Perm r.sys.reads
  /-- It returns what its snapshot or the reply to its own request says, unless it times out or the
  fetch of its request has panicked. -/
  justified : ∀ ret ∈ r.returned, Justified r.sys fetch.waitTimeoutMs ret
  /-- No two calls wait on one channel, now or one after the other. -/
  channels : r.channels.Nodup
  /-- The channel of a call that waits is closed on it exactly when the fetch of its own request has
  panicked. -/
  closed : ∀ w ∈ r.waiting, (r.sys.layer.managers w.read.kind).dropped w.respondTo = true ↔
    ∃ req, w.read.outcome = .fetch req ∧
      (r.sys.layer.managers w.read.kind).Panicked ⟨req, w.respondTo⟩
  /-- A stale snapshot answers nothing. -/
  stale : ∀ ret ∈ r.returned, ret.read.snapshot.stale = true → ret.result = .error .staleState
  /-- An error is that of a stale snapshot, that of the timeout, with the kind and the time that was
  waited, that of a channel which its fetch has let go, that of the transport, or names what was
  asked for. -/
  errors : ∀ ret ∈ r.returned, ∀ e, ret.result = .error e → ret.Explains r.sys fetch.waitTimeoutMs e

/-- A stale snapshot sends no request. -/
theorem not_stale_of_fetch {read : ReadCall keccak256} {req : (spec keccak256 read.kind).Req}
    (h : read.outcome = .fetch req) : read.snapshot.stale = false := by
  by_contra hstale
  have hready : read.snapshot.readRef keccak256 read.kind read.key = .ready (.error .staleState) :=
    StateSnapshot.readRef_of_stale (Bool.eq_true_of_not_eq_false hstale) read.kind read.key
  rw [ReadCall.outcome, hready] at h
  simp at h

theorem Justified.stale {sys : Sys keccak256} {timeout : ℕ} {ret : Returned keccak256}
    (h : Justified sys timeout ret) (hstale : ret.read.snapshot.stale = true) :
    ret.result = .error .staleState := by
  cases h with
  | @served read result houtcome =>
    rw [ReadCall.outcome, StateSnapshot.readRef_of_stale hstale] at houtcome
    cases houtcome
    rfl
  | replied houtcome | timedOut houtcome | closed houtcome =>
    rw [not_stale_of_fetch houtcome] at hstale
    simp at hstale

theorem Justified.errors {sys : Sys keccak256} {timeout : ℕ} {ret : Returned keccak256}
    (h : Justified sys timeout ret) (hexplained : ∀ k, (sys.layer.managers k).Explained)
    {e : SimError} (he : ret.result = .error e) : ret.Explains sys timeout e := by
  cases h with
  | @served read result houtcome =>
    replace he : result = .error e := he
    rw [he] at houtcome
    exact Or.inl (StateSnapshot.stale_of_readRef houtcome)
  | @replied read req reply houtcome hreply hreq =>
    have hnames := (hexplained read.kind).replies reply hreply e he
    rw [show reply.message.request = req from hreq,
      (StateSnapshot.readRef_eq_fetch houtcome).1] at hnames
    exact Or.inr (Or.inr (Or.inr hnames))
  | timedOut houtcome =>
    cases he
    exact Or.inr (Or.inl rfl)
  | closed houtcome hpanicked =>
    cases he
    exact Or.inr (Or.inr (Or.inl ⟨rfl, _, _, houtcome, rfl, hpanicked⟩))

theorem Inv.answered (h : r.Inv fetch) : r.Answered fetch where
  once := h.reads
  justified := h.justified
  channels := h.channels
  closed _ hw := h.dropped_iff hw
  stale ret hret hstale := (h.justified ret hret).stale hstale
  errors ret hret _ he := (h.justified ret hret).errors h.explained he

/-- What is kept holds in every run. -/
theorem inv_of_run {tip : B256}
    (h : Lts.Run (Step L fetch) Lts.anyEvent (.new keccak256 fetch tip) r) : r.Inv fetch :=
  h.invariant (fun e _ _ hinv hstep _ ↦ Inv.step (e := e) hinv hstep) (inv_new fetch tip)

/-! ## Nobody has to wait for the timeout -/

/-- The event is one of the client by itself, or a call takes its reply or finds its channel
closed. -/
def Patient (fails : Query → Bool) (r : Readers keccak256) : ReadersEvent keccak256 → Prop
  | .sys e => Sys.Goes fails r.sys e
  | .response _ => True
  | .timeout _ => False
  | .disconnected _ => True

@[simp] theorem after_sys (sys : Sys keccak256) (e : Event keccak256) :
    (r.after sys e).sys = sys := by
  cases e with
  | read i =>
    rw [after]
    split
    · split <;> rfl
    · rfl
  | _ => rfl

/-- The client of a run is in a run of its own. -/
theorem sys_of_run {tip : B256}
    (h : Lts.Run (Step L fetch) Lts.anyEvent (.new keccak256 fetch tip) r) :
    Lts.Run (Sys.Step L) Lts.anyEvent (.new keccak256 fetch tip) r.sys := by
  induction h with
  | refl => exact .refl
  | tail _ hlast ih =>
    obtain ⟨e, hstep, -⟩ := hlast
    cases hstep.transition with
    | other hs | served hs | sent hs => exact ih.next hs trivial
    | response | timeout | disconnected => exact ih

/-- The calls go along with a run of the client. -/
theorem exists_run_of_sys {fails : Query → Bool} {sys : Sys keccak256}
    (h : Lts.Run (Sys.Step L) (Sys.Goes fails) r.sys sys) :
    ∃ r', Lts.Run (Step L fetch) (Patient fails) r r' ∧ r'.sys = sys := by
  induction h with
  | refl => exact ⟨r, .refl, rfl⟩
  | @tail s s' _ hlast ih =>
    obtain ⟨e, hs, hgoes⟩ := hlast
    obtain ⟨r₁, hrun, rfl⟩ := ih
    have hstep : Step L fetch (.sys e) r₁ (r₁.after s' e) :=
      Option.map_eq_some_iff.mpr ⟨s', hs, rfl⟩
    exact ⟨r₁.after s' e, hrun.next hstep hgoes, after_sys s' e⟩

/-- A call that leaves is one less. -/
theorem length_waiting_leave {j : ℕ} {w : Waiter keccak256} (hw : r.waiting[j]? = some w)
    (rx : Received (spec keccak256 w.read.kind).Resp) :
    (r.leave fetch j w rx).waiting.length < r.waiting.length := by
  have hlt := (List.getElem?_eq_some_iff.mp hw).1
  simp only [leave, List.length_eraseIdx_of_lt hlt]
  omega

/-- At rest, the reply of a call that waits is there, or its channel is closed. -/
theorem exists_return (hinv : r.Inv fetch) (hquiet : r.sys.Quiet) {w : Waiter keccak256}
    (hw : r.waiting[0]? = some w) :
    ∃ e r', Step L fetch e r r' ∧ (∀ fails, Patient fails r e) ∧ r'.sys = r.sys ∧
      r'.waiting.length < r.waiting.length := by
  have hmem := List.mem_of_getElem? hw
  have haccount := hinv.accounted w.read.kind
  have hopened : w.respondTo < (r.sys.layer.managers w.read.kind).opened :=
    hinv.opened (w.read.kind, w.respondTo)
      (List.mem_append_left _ (List.mem_map.mpr ⟨w, hmem, rfl⟩))
  have hmanager := hquiet.managers w.read.kind
  have hcount := hmanager.count_eq haccount.tickets hopened
  by_cases hticket : w.respondTo ∈ (r.sys.layer.managers w.read.kind).ticketsAt .answered
  · simp only [FetchManager.ticketsAt, FetchManager.messagesAt, List.map_map, List.mem_map]
      at hticket
    obtain ⟨reply, hreply, hrespond⟩ := hticket
    have hfind : ((r.sys.layer.managers w.read.kind).replies.find? fun reply ↦
        reply.respondTo == w.respondTo).isSome = true :=
      List.find?_isSome.mpr ⟨reply, hreply, beq_iff_eq.mpr hrespond⟩
    obtain ⟨found, hfound⟩ := Option.isSome_iff_exists.mp hfind
    refine ⟨.response 0, r.leave fetch 0 w (.response found.result), ?_, fun _ ↦ trivial, rfl,
      length_waiting_leave hw _⟩
    simp only [Lts.Executes, step, hw, hfound, Option.bind_some, Option.map_some]
  · -- the request is with the task that has panicked
    have hdropped : (r.sys.layer.managers w.read.kind).dropped w.respondTo = true := by
      obtain ⟨req, -, hmsg⟩ := hinv.sent w hmem
      refine (FetchManager.dropped_iff haccount.tickets haccount.grounded hmsg).mpr ?_
      rw [List.count_eq_zero.mpr hticket, Nat.zero_add] at hcount
      have hrunning : w.respondTo ∈ (r.sys.layer.managers w.read.kind).ticketsAt .running :=
        List.count_pos_iff.mp (by omega)
      obtain ⟨msg, hrunning, hrespond⟩ := List.mem_map.mp hrunning
      obtain ⟨t, ht, rfl⟩ := List.mem_map.mp hrunning
      have hpanicked := hmanager.tasks t ht
      have hsame : t.message = ⟨req, w.respondTo⟩ :=
        haccount.tickets.message_unique (FetchManager.mem_messages hrunning) hmsg hrespond
      refine ⟨t, ht, hsame, hpanicked, ?_⟩
      have hrefuses := haccount.grounded.refusesCode ht hpanicked
      rwa [show t.request = req from congrArg FetchMessage.request hsame] at hrefuses
    refine ⟨.disconnected 0, r.leave fetch 0 w .disconnected, ?_, fun _ ↦ trivial, rfl,
      length_waiting_leave hw _⟩
    simp only [Lts.Executes, step, hw, hdropped, Option.bind_some, if_true]

/-- At rest, the calls that wait return. -/
theorem exists_run_returned (fails : Query → Bool) (hinv : r.Inv fetch) (hquiet : r.sys.Quiet) :
    ∃ r', Lts.Run (Step L fetch) (Patient fails) r r' ∧ r'.sys = r.sys ∧ r'.waiting = [] := by
  induction hn : r.waiting.length using Nat.strongRecOn generalizing r with
  | ind n ih =>
    rcases hwaiting : r.waiting with _ | ⟨w, rest⟩
    · exact ⟨r, .refl, rfl, hwaiting⟩
    · obtain ⟨e, r₁, hstep, hpatient, hsys, hlt⟩ :=
        exists_return (L := L) hinv hquiet (w := w) (by rw [hwaiting]; rfl)
      obtain ⟨r', hrun, hsys', hnil⟩ :=
        ih r₁.waiting.length (hn ▸ hlt) (hinv.step hstep) (hsys ▸ hquiet) rfl
      exact ⟨r', (Lts.Run.one hstep (hpatient fails)).trans hrun, hsys'.trans hsys, hnil⟩

end Readers

/-- **What a reader is told**, in every run of the client and its readers: however its
notifications, fetches, flushes and timeouts interleave. -/
theorem Readers.answered_of_run {L : Ledger} {fetch : FetchConfig} {tip : B256}
    {r : Readers keccak256}
    (h : Lts.Run (Readers.Step L fetch) Lts.anyEvent (.new keccak256 fetch tip) r) :
    r.Answered fetch :=
  (Readers.inv_of_run h).answered

end

namespace TimedOut

open Branches

open scoped Revm

/-- Two calls read a slot, and the first does not wait for its reply. -/
def before : List (ReadersEvent keccak) :=
  (.node (.chainCommitted a1) false :: round ++ readSlot ++ readSlot).map .sys ++ [.timeout 0]

/-- The node fails to answer the second. -/
def failure : List (Event keccak) :=
  [.answer .storage 1 (.getStorageAt 7 0 1) true, .manager .storage (.finish 1),
    .manager .storage (.complete 1), .manager .storage .recvDone]

/-- A third call is answered with what the first has fetched. -/
def third : List (Event keccak) :=
  answerSlot 1 ++ [.load .storage ((7, 0) : SlotKey), .read 0, .manager .storage .recvFetch,
    .manager .storage .serve]

def events : List (ReadersEvent keccak) :=
  before ++ failure.map .sys ++ [.response 0] ++ third.map .sys ++ [.response 0]

def start : Readers keccak := .new keccak {} 10

/-- The channels on which calls have waited, with the errors they have returned, and the channels
on which calls wait. -/
def view (r : Readers keccak) : List (Option ℕ × Option SimError) × List ℕ :=
  (r.returned.map fun ret ↦ (ret.respondTo, match ret.result with
    | .ok _ => none
    | .error e => some e), r.waiting.map Waiter.respondTo)

theorem view_before :
    (Lts.replay (Readers.step ledger {}) Lts.anyCheck before start).map view =
      some ([(some 0, some (.fetchTimeout .storage 30000))], [1]) := by
  decide +kernel

theorem view_events :
    (Lts.replay (Readers.step ledger {}) Lts.anyCheck events start).map view =
      some ([(some 0, some (.fetchTimeout .storage 30000)), (some 1, some .rpc), (some 2, none)],
        []) := by
  decide +kernel

end TimedOut

open scoped Revm in
open TimedOut Branches in
/-- Three calls, of which one times out, one fails and one is answered. -/
theorem Readers.answered_of_run_timedOut :
    ∃ r, view r = ([(some 0, some (.fetchTimeout .storage 30000)), (some 1, some .rpc),
      (some 2, none)], []) ∧ r.Answered {} := by
  obtain ⟨r, hr, hview⟩ := Option.map_eq_some_iff.mp view_events
  exact ⟨r, hview, Readers.answered_of_run (.of_replay hr fun _ _ _ ↦ trivial)⟩

namespace Refused

open Branches TimedOut

open scoped Revm

/-- The code of the account `7` is `ef01` and no delegation. -/
def ledger : Ledger :=
  .ofList (fun _ ↦ ⟨fun a ↦ if a = 7 then some ⟨1, 0, [0xef, 0x01]⟩ else none, fun _ _ ↦ 0⟩) []
    nofun

/-- The account is read, and then its code. -/
def events : List (ReadersEvent keccak) :=
  [.load .account (7 : Address), .read 0, .manager .account .recvFetch, .manager .account .serve,
    .manager .account .spawn, .manager .account .tryNext,
    .answer .account 0 (.getBalance 7 0) false, .answer .account 0 (.getTransactionCount 7 0) false,
    .answer .account 0 (.getCodeAt 7 0) false, .manager .account (.finish 0),
    .manager .account (.complete 0), .manager .account .recvDone].map .sys ++ [.response 0] ++
  [.load .code (0 : B256), .read 0, .manager .code .recvFetch, .manager .code .serve,
    .manager .code .spawn, .manager .code .tryNext, .answer .code 0 (.getCodeAt 7 0) false,
    .manager .code (.finish 0)].map .sys ++ [.disconnected 0]

/-- The fetch of the code panics, and its reader finds the channel closed. -/
example : (Lts.replay (Readers.step ledger {}) Lts.anyCheck events start).map view =
    some ([(some 0, none), (some 0, some .fetcherClosed)], []) := by
  decide +kernel

end Refused

/-- **Nobody has to wait for the timeout**: wherever a run has led to, and whichever queries fail,
the client by itself brings every call to its end, with no timeout. -/
theorem Readers.exists_run_returned_of_run [Revm] {keccak256 : Bytes → B256} {L : Ledger}
    {fetch : FetchConfig}
    (hpos : ∀ k, 0 < (spec keccak256 k).permits fetch) {tip : B256} {r : Readers keccak256}
    (h : Lts.Run (Readers.Step L fetch) Lts.anyEvent (.new keccak256 fetch tip) r)
    (fails : Query → Bool) :
    ∃ r', Lts.Run (Readers.Step L fetch) (Readers.Patient fails) r r' ∧ r'.waiting = [] ∧
      r'.sys.loaded = [] ∧ (r'.returned.map Returned.read).Perm r'.sys.reads := by
  obtain ⟨sys, hsys, hquiet⟩ := Sys.exists_run_quiet hpos (Readers.sys_of_run h) fails
  obtain ⟨r₁, hrun₁, rfl⟩ : ∃ r₁, Lts.Run (Readers.Step L fetch) (Readers.Patient fails) r r₁ ∧
      r₁.sys = sys := Readers.exists_run_of_sys hsys
  have hrun : Lts.Run (Readers.Step L fetch) Lts.anyEvent (.new keccak256 fetch tip) r₁ :=
    h.trans (hrun₁.mono fun _ _ _ ↦ trivial)
  have hinv := Readers.inv_of_run hrun
  obtain ⟨r', hrun', hsys', hnil⟩ := Readers.exists_run_returned (L := L) fails hinv hquiet
  have hreads := (Readers.inv_of_run (hrun.trans (hrun'.mono fun _ _ _ ↦ trivial))).reads
  rw [hnil] at hreads
  exact ⟨r', hrun₁.trans hrun', hnil, hsys' ▸ hquiet.loaded, hreads⟩

open scoped Revm in
open TimedOut Branches in
/-- The second call returns without a timeout, whether the node answers or not. -/
theorem Readers.exists_run_returned_of_run_timedOut :
    ∃ r, view r = ([(some 0, some (.fetchTimeout .storage 30000))], [1]) ∧ ∀ fails, ∃ r',
      Lts.Run (Readers.Step ledger {}) (Readers.Patient fails) r r' ∧ r'.waiting = [] ∧
        r'.sys.loaded = [] ∧ (r'.returned.map Returned.read).Perm r'.sys.reads := by
  obtain ⟨r, hr, hview⟩ := Option.map_eq_some_iff.mp view_before
  exact ⟨r, hview, Readers.exists_run_returned_of_run (fun k ↦ by cases k <;> decide)
    (.of_replay hr fun _ _ _ ↦ trivial)⟩

end RexSim
