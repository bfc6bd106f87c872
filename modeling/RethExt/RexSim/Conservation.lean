import RethExt.RexSim.Managers
import Mathlib.Data.Multiset.Range
import Mathlib.Algebra.Order.Group.Multiset
import Mathlib.Tactic.Abel

/-!
# No request is lost and no permit leaks

A request travels from the queue through the loop, a spawned task and the completion channel to its
reply.  `FetchManager.messages` is everything that is somewhere on the way, and a step moves a
message from one place to the next without making or losing one (`Transition.messages_eq`).  Since
every message has a reply channel of its own, each request is in exactly one place and is answered
at most once, and the count of the fetches in flight is exact: `conserved_of_run`.

The permits are the second quantity that is kept.  A task gives its permit back as soon as its call
has ended, before it sends its completion, so the holders of permits are the tasks without a
result.  A call that panics gives its permit back as well, though its task stays in flight for good.
The manager that waits for a permit therefore waits for the node only: `flowing_of_run`.
-/

set_option autoImplicit false

open Std

namespace RexSim

variable {S : FetchSpec}

/-! ## Where a request is -/

def FetchTask.message (t : FetchTask S) : FetchMessage S := ⟨t.request, t.respondTo⟩

def FetchDone.message (d : FetchDone S) : FetchMessage S := ⟨d.request, d.respondTo⟩

def Reply.message (r : Reply S) : FetchMessage S := ⟨r.request, r.respondTo⟩

/-- The message the loop is handling, which may be waiting for a permit. -/
def Phase.held : Phase S → List (FetchMessage S)
  | .handle msg => [msg]
  | .acquire msg => [msg]
  | _ => []

theorem Phase.mem_held {phase : Phase S} {msg : FetchMessage S} :
    msg ∈ phase.held ↔ phase = .handle msg ∨ phase = .acquire msg := by
  cases phase <;> simp [held, eq_comm]

/-- The places on the way of a request. -/
inductive Place
  | queued
  | handled
  | running
  | completed
  | answered
  deriving DecidableEq

namespace FetchManager

/-- The messages at a place. -/
def messagesAt (m : FetchManager S) : Place → List (FetchMessage S)
  | .queued => m.fetchRx
  | .handled => m.phase.held
  | .running => m.tasks.map FetchTask.message
  | .completed => m.completionRx.map FetchDone.message
  | .answered => m.replies.map Reply.message

/-- The messages of all places together. -/
def messages (m : FetchManager S) : Multiset (FetchMessage S) :=
  m.messagesAt .queued + m.messagesAt .handled + m.messagesAt .running +
    m.messagesAt .completed + m.messagesAt .answered

/-- What an event adds to the queue. -/
def enqueued (m : FetchManager S) : ManagerEvent S → Multiset (FetchMessage S)
  | .send request => {⟨request, m.opened⟩}
  | _ => 0

variable {m m' : FetchManager S} {e : ManagerEvent S}

private theorem map_set_of_getElem? {α β : Type} {f : α → β} {l : List α} {i : ℕ} {a b : α}
    (h : l[i]? = some a) (hf : f b = f a) : (l.set i b).map f = l.map f := by
  obtain ⟨hi, rfl⟩ := List.getElem?_eq_some_iff.mp h
  refine List.ext_getElem? fun j ↦ ?_
  rw [List.getElem?_map, List.getElem?_map, List.getElem?_set]
  split
  · rename_i hij
    subst hij
    simp [hi, hf]
  · rfl

private theorem coe_map_eraseIdx {α β : Type} {f : α → β} {l : List α} {i : ℕ} {a : α}
    (h : l[i]? = some a) :
    (l.map f : Multiset β) = {f a} + ((l.eraseIdx i).map f : List β) := by
  obtain ⟨hi, rfl⟩ := List.getElem?_eq_some_iff.mp h
  rw [Multiset.singleton_add, Multiset.cons_coe, Multiset.coe_eq_coe, ← List.map_cons]
  exact ((List.getElem_cons_eraseIdx_perm hi).map f).symm

private theorem coe_cons {α : Type} (a : α) (l : List α) :
    ((a :: l : List α) : Multiset α) = {a} + l := by
  rw [Multiset.singleton_add, Multiset.cons_coe]

private theorem coe_snoc {α : Type} (l : List α) (a : α) :
    ((l ++ [a] : List α) : Multiset α) = l + {a} := by
  rw [← Multiset.coe_add, Multiset.coe_singleton]

theorem messages_retag (m : FetchManager S) (req : S.Req) :
    (m.retag req).messages = m.messages :=
  m.retag_rule req rfl fun _ ↦ rfl

@[simp] theorem phase_retag (m : FetchManager S) (req : S.Req) :
    (m.retag req).phase = m.phase :=
  m.retag_rule req rfl fun _ ↦ rfl

/-- A message that is looked up is answered, or waits for a permit. -/
theorem messages_lookup {msg : FetchMessage S} (h : m.phase = .handle msg) :
    (m.lookup msg).messages = m.messages := by
  rw [lookup]
  split
  · simp only [messages, messagesAt, h, Phase.held, List.map_append, List.map_cons, List.map_nil,
      Reply.message, coe_snoc, Multiset.coe_nil, Multiset.coe_singleton]
    abel
  · simp only [messages, messagesAt, h, Phase.held]

theorem messages_applyCompletion {done : FetchDone S} {rest : List (FetchDone S)}
    (h : m.completionRx = done :: rest) :
    (applyCompletion { m with completionRx := rest } done).messages = m.messages := by
  simp only [messages, messagesAt, applyCompletion, h, List.map_append, List.map_cons,
    List.map_nil, Reply.message, FetchDone.message, coe_snoc, coe_cons]
  abel

/-- **Conservation**: a step moves messages from place to place, and a request that is sent is all
that it adds. -/
theorem Transition.messages_eq (h : m.Transition e m') :
    m'.messages = m.messages + m.enqueued e := by
  cases h with
  | send request =>
    simp only [messages, messagesAt, enqueued, coe_snoc]
    abel
  | sendSide msg => exact (add_zero _).symm
  | requestFlush hflush => exact (add_zero _).symm
  | recvFlush hphase hflush =>
    simp only [messages, messagesAt, enqueued, hphase, Phase.held, add_zero]
  | drain hphase hdone hinflight =>
    rw [messages_applyCompletion hdone]
    exact (add_zero _).symm
  | handOver hphase =>
    simp only [messages, messagesAt, enqueued, afterFlush, hphase, Phase.held, add_zero]
  | recvDone hphase hdone =>
    rw [messages_applyCompletion hdone]
    exact (add_zero _).symm
  | recvSide hphase => exact (add_zero _).symm
  | @recvFetch msg rest hphase hmsg =>
    simp only [messages, messagesAt, enqueued, drainSide, hphase, hmsg, Phase.held, coe_cons,
      Multiset.coe_nil]
    abel
  | @serve msg hphase =>
    rw [messages_lookup (by rw [phase_retag, hphase]), messages_retag]
    exact (add_zero _).symm
  | @spawn msg hphase hpermits =>
    simp only [messages, messagesAt, enqueued, spawnFetch, hphase, Phase.held, List.map_append,
      List.map_cons, List.map_nil, FetchTask.message, coe_snoc, Multiset.coe_nil,
      Multiset.coe_singleton]
    abel
  | @tryNext msg rest hphase hmsg =>
    simp only [messages, messagesAt, enqueued, hphase, hmsg, Phase.held, coe_cons,
      Multiset.coe_nil]
    abel
  | leave hphase hmsg =>
    simp only [messages, messagesAt, enqueued, hphase, Phase.held, add_zero]
  | @answer i q a task htask hq hanswer hresult =>
    have hmap := map_set_of_getElem? htask (b := task.record q a) (f := FetchTask.message) rfl
    simp only [messages, messagesAt, enqueued, hmap, add_zero]
  | @finish i task result htask hresult hcall =>
    have hmap := map_set_of_getElem? htask (b := { task with result := some result })
      (f := FetchTask.message) rfl
    simp only [messages, messagesAt, enqueued, hmap, add_zero]
  | @complete i task result htask hresult hroom =>
    simp only [messages, messagesAt, enqueued, coe_map_eraseIdx htask, List.map_append,
      List.map_cons, List.map_nil, FetchTask.message, FetchDone.message, coe_snoc]
    abel

theorem Transition.opened_eq (h : m.Transition e m') :
    m'.opened = m.opened + (m.enqueued e).card := by
  cases h with
  | @serve msg hphase =>
    exact field_serve FetchManager.opened (fun _ _ _ _ ↦ rfl) (fun _ _ _ ↦ rfl) m msg
  | _ => rfl

/-! ## The count of the fetches in flight -/

/-- A spawned fetch is in flight until its completion is applied. -/
def InflightExact (m : FetchManager S) : Prop :=
  m.inflight = m.tasks.length + m.completionRx.length

theorem Transition.inflightExact (h : m.Transition e m') (hm : m.InflightExact) :
    m'.InflightExact := by
  rw [InflightExact] at hm ⊢
  cases h with
  | drain hphase hdone hinflight =>
    rw [hdone, List.length_cons] at hm
    simp only [applyCompletion]
    omega
  | recvDone hphase hdone =>
    rw [hdone, List.length_cons] at hm
    simp only [applyCompletion]
    omega
  | @serve msg hphase =>
    rw [← InflightExact] at hm ⊢
    rw [field_serve InflightExact (fun _ _ _ _ ↦ rfl) (fun _ _ _ ↦ rfl) m msg]
    exact hm
  | spawn hphase hpermits =>
    simp only [spawnFetch, List.length_append, List.length_singleton]
    omega
  | answer htask hq hanswer hresult => rw [List.length_set]; exact hm
  | finish htask hresult hcall => rw [List.length_set]; exact hm
  | @complete i task result htask hresult hroom =>
    obtain ⟨hi, -⟩ := List.getElem?_eq_some_iff.mp htask
    simp only [List.length_eraseIdx_of_lt hi, List.length_append, List.length_singleton]
    omega
  | _ => exact hm

/-! ## Every request is answered once -/

/-- The reply channels of the messages at a place. -/
def ticketsAt (m : FetchManager S) (place : Place) : List ℕ :=
  (m.messagesAt place).map FetchMessage.respondTo

/-- Every reply channel that was opened belongs to one message. -/
def Ticketed (m : FetchManager S) : Prop :=
  m.messages.map FetchMessage.respondTo = Multiset.range m.opened

theorem Transition.ticketed (h : m.Transition e m') (hm : m.Ticketed) : m'.Ticketed := by
  rw [Ticketed] at hm ⊢
  rw [h.messages_eq, h.opened_eq, Multiset.map_add, hm]
  cases e with
  | send request =>
    rw [enqueued, Multiset.map_singleton, Multiset.card_singleton, Multiset.range_succ,
      add_comm, Multiset.singleton_add]
  | _ => simp only [enqueued, Multiset.map_zero, Multiset.card_zero, add_zero]

/-- A ticket is at as many places as it was opened times: one or none. -/
theorem Ticketed.count_eq (h : m.Ticketed) (id : ℕ) :
    (m.ticketsAt .queued).count id + (m.ticketsAt .handled).count id +
        (m.ticketsAt .running).count id + (m.ticketsAt .completed).count id +
        (m.ticketsAt .answered).count id = if id < m.opened then 1 else 0 := by
  have hcount := congrArg (Multiset.count id) h
  simp only [messages, Multiset.map_add, Multiset.count_add, Multiset.map_coe,
    Multiset.coe_count] at hcount
  rw [← Multiset.coe_range, Multiset.coe_count, List.count_range] at hcount
  exact hcount

theorem Ticketed.nodup (h : m.Ticketed) (place : Place) : (m.ticketsAt place).Nodup := by
  refine List.nodup_iff_count_le_one.mpr fun id ↦ ?_
  have hcount := h.count_eq id
  have hle : (if id < m.opened then 1 else 0) ≤ 1 := by split <;> decide
  cases place <;> omega

/-- **What a manager owes to its requests.** -/
structure Conserved (m : FetchManager S) : Prop where
  /-- A request is in one place, and there once. -/
  onePlace : ∀ id < m.opened, ∃! place, id ∈ m.ticketsAt place
  once : ∀ place, (m.ticketsAt place).Nodup
  /-- The loop handles one request at most. -/
  handled : (m.messagesAt .handled).length ≤ 1
  /-- The count of the spawned fetches whose completion has not been applied is exact, and is not
  zero when there is a completion to apply. -/
  inflight : m.inflight = m.tasks.length + m.completionRx.length
  noUnderflow : m.completionRx ≠ [] → 0 < m.inflight
  /-- With nothing handled, running or completed, what was taken from the queue is answered, and a
  flush has nothing to wait for. -/
  idle : m.messagesAt .handled = [] → m.tasks = [] → m.completionRx = [] →
    m.inflight = 0 ∧
      ∀ id < m.opened, id ∉ m.ticketsAt .queued → (m.ticketsAt .answered).count id = 1

theorem Ticketed.conserved (h : m.Ticketed) (hinflight : m.InflightExact) : m.Conserved where
  onePlace id hid := by
    have hcount := h.count_eq id
    rw [if_pos hid] at hcount
    have hex : ∃ place, 0 < (m.ticketsAt place).count id := by
      by_contra hnone
      push Not at hnone
      have := hnone .queued
      have := hnone .handled
      have := hnone .running
      have := hnone .completed
      have := hnone .answered
      omega
    obtain ⟨place, hplace⟩ := hex
    refine ⟨place, List.count_pos_iff.mp hplace, fun other hother ↦ ?_⟩
    have hother : 0 < (m.ticketsAt other).count id := List.count_pos_iff.mpr hother
    cases place <;> cases other <;> first | rfl | omega
  once := h.nodup
  handled := by
    rw [messagesAt]
    cases m.phase <;> simp [Phase.held]
  inflight := hinflight
  noUnderflow hne := by
    have := List.length_pos_iff.mpr hne
    rw [InflightExact] at hinflight
    omega
  idle hheld htasks hdone := by
    refine ⟨by rw [hinflight, htasks, hdone]; rfl, fun id hid hqueued ↦ ?_⟩
    have hcount := h.count_eq id
    rw [if_pos hid, List.count_eq_zero.mpr hqueued] at hcount
    rw [show m.ticketsAt .handled = [] by rw [ticketsAt, hheld, List.map_nil],
      show m.ticketsAt .running = [] by rw [ticketsAt, messagesAt, htasks]; rfl,
      show m.ticketsAt .completed = [] by rw [ticketsAt, messagesAt, hdone]; rfl] at hcount
    simpa using hcount

theorem ticketed_of_run {ctx : S.Ctx} {fetch : FetchConfig}
    (h : Lts.Run Step Lts.anyEvent (new S ctx fetch) m) : m.Ticketed :=
  h.invariant (fun _ _ _ (hm : Ticketed _) hs _ ↦ hs.transition.ticketed hm)
    (rfl : Ticketed (new S ctx fetch))

theorem inflightExact_of_run {ctx : S.Ctx} {fetch : FetchConfig}
    (h : Lts.Run Step Lts.anyEvent (new S ctx fetch) m) : m.InflightExact :=
  h.invariant (fun _ _ _ (hm : InflightExact _) hs _ ↦ hs.transition.inflightExact hm)
    (rfl : InflightExact (new S ctx fetch))

end FetchManager

/-- **Every request is answered once, and the count in flight is exact**, in every run of a
manager of any spec. -/
theorem conserved_of_run {S : FetchSpec} {ctx : S.Ctx} {fetch : FetchConfig} {m : FetchManager S}
    (h : Lts.Run FetchManager.Step Lts.anyEvent (.new S ctx fetch) m) : m.Conserved :=
  (FetchManager.ticketed_of_run h).conserved (FetchManager.inflightExact_of_run h)

namespace GivenUp

open scoped Revm

/-- A flush gives up the drain while a fetch is running; another fetch completes after it. -/
def events : List (ManagerEvent storageSpec) :=
  [.send ⟨7, 0, 1, 11⟩, .send ⟨7, 1, 1, 11⟩, .recvFetch, .serve, .spawn, .tryNext, .serve, .spawn,
    .tryNext, .requestFlush, .recvFlush, .handOver, .answer 1 (.getStorageAt 7 1 1) (.ok 5),
    .finish 1, .complete 1, .recvDone]

def start : FetchManager storageSpec := .new storageSpec () {}

theorem isSome_replay : (Lts.replay FetchManager.step Lts.anyCheck events start).isSome = true := by
  decide +kernel

def final : FetchManager storageSpec :=
  (Lts.replay FetchManager.step Lts.anyCheck events start).get isSome_replay

/-- The second request is answered and the first is still in flight. -/
example : final.ticketsAt .answered = [1] ∧ final.ticketsAt .running = [0] ∧
    final.inflight = 1 := by decide +kernel

end GivenUp

open scoped Revm in
open GivenUp in
/-- A fetch that a flush gave up is still accounted for. -/
theorem conserved_of_run_givenUp : final.Conserved :=
  conserved_of_run (Lts.Run.of_replay (Option.some_get isSome_replay).symm fun _ _ _ ↦ trivial)

/-! ## Permits -/

/-- Once its queries are answered, the call has a result. -/
def RpcCall.Determined {R : Type} (call : RpcCall R) : Prop :=
  ∀ answers : Answers, (∀ q ∈ call.queries, answers q ≠ none) →
    ∃ result, call.result answers = some result

/-- The call of every fetch ends when its queries are answered. -/
def FetchSpec.Determined (S : FetchSpec) : Prop := ∀ ctx req, (S.fetch ctx req).Determined

section calls

variable [Revm] (keccak256 : Bytes → B256)

omit [Revm] in
theorem determined_getAccount (address : Address) (block : ℕ) :
    (getAccount keccak256 address block).Determined := by
  intro answers h
  simp only [getAccount, List.forall_mem_cons] at h
  obtain ⟨hbalance, hnonce, hcode, -⟩ := h
  obtain ⟨a, ha⟩ := Option.ne_none_iff_exists'.mp hbalance
  obtain ⟨b, hb⟩ := Option.ne_none_iff_exists'.mp hnonce
  obtain ⟨c, hc⟩ := Option.ne_none_iff_exists'.mp hcode
  simp only [getAccount, ha, hb, hc]
  cases a <;> cases b <;> cases c <;> exact ⟨_, rfl⟩

theorem determined_getCodeByHash (codeHash : B256) (address : Option Address) (block : ℕ) :
    (getCodeByHash keccak256 codeHash address block).Determined := by
  intro answers h
  cases address with
  | none => exact ⟨_, rfl⟩
  | some address =>
    obtain ⟨a, ha⟩ := Option.ne_none_iff_exists'.mp (h _ List.mem_cons_self)
    exact ⟨_, by simp only [getCodeByHash, ha, Option.map_some]; rfl⟩

theorem determined_spec (k : FetchKind) : (spec keccak256 k).Determined := by
  intro ctx req
  cases k with
  | account => exact determined_getAccount keccak256 _ _
  | code => exact determined_getCodeByHash keccak256 _ _ _
  | storage =>
    intro answers h
    obtain ⟨a, ha⟩ := Option.ne_none_iff_exists'.mp (h _ List.mem_cons_self)
    exact ⟨_, by simp only [spec, getStorage, ha, Option.map_some]; rfl⟩
  | blockHash =>
    intro answers h
    obtain ⟨a, ha⟩ := Option.ne_none_iff_exists'.mp (h _ List.mem_cons_self)
    exact ⟨_, by simp only [spec, getBlockHash, ha, Option.map_some]; rfl⟩

end calls

namespace FetchManager

variable {m m' : FetchManager S} {e : ManagerEvent S}

/-- The spawned fetches whose call has no result yet: each holds a permit. -/
def holders (m : FetchManager S) : List (FetchTask S) := m.tasks.filter fun t ↦ t.result.isNone

/-- Every permit is free or held. -/
def PermitsExact (total : ℕ) (m : FetchManager S) : Prop := m.permits + m.holders.length = total

private theorem countP_set_add {α : Type} {p : α → Bool} {l : List α} {i : ℕ} {a b : α}
    (h : l[i]? = some a) :
    (l.set i b).countP p + (if p a then 1 else 0) = l.countP p + if p b then 1 else 0 := by
  obtain ⟨hi, rfl⟩ := List.getElem?_eq_some_iff.mp h
  have hperm := List.set_perm_cons_eraseIdx hi b
  rw [hperm.countP_eq, List.countP_cons, ← (List.getElem_cons_eraseIdx_perm hi).countP_eq,
    List.countP_cons]
  omega

private theorem countP_eraseIdx_add {α : Type} {p : α → Bool} {l : List α} {i : ℕ} {a : α}
    (h : l[i]? = some a) : (l.eraseIdx i).countP p + (if p a then 1 else 0) = l.countP p := by
  obtain ⟨hi, rfl⟩ := List.getElem?_eq_some_iff.mp h
  rw [← (List.getElem_cons_eraseIdx_perm hi).countP_eq, List.countP_cons]

theorem Transition.permitsExact {total : ℕ} (h : m.Transition e m') (hm : m.PermitsExact total) :
    m'.PermitsExact total := by
  rw [PermitsExact, holders, ← List.countP_eq_length_filter] at hm ⊢
  cases h with
  | @serve msg hphase =>
    rw [field_serve FetchManager.permits (fun _ _ _ _ ↦ rfl) (fun _ _ _ ↦ rfl) m msg,
      field_serve FetchManager.tasks (fun _ _ _ _ ↦ rfl) (fun _ _ _ ↦ rfl) m msg]
    exact hm
  | spawn hphase hpermits =>
    simp only [spawnFetch, List.countP_append, List.countP_singleton, Option.isNone_none, if_true]
    omega
  | @answer i q a task htask hq hanswer hresult =>
    have hcount := countP_set_add (b := task.record q a) (p := fun t ↦ t.result.isNone) htask
    simp only [FetchTask.record, hresult] at hcount ⊢
    omega
  | @finish i task result htask hresult hcall =>
    have hcount := countP_set_add (b := { task with result := some result })
      (p := fun t ↦ t.result.isNone) htask
    simp only [hresult, Option.isNone_none, Option.isNone_some, if_true] at hcount ⊢
    simp at hcount
    omega
  | @complete i task result htask hresult hroom =>
    have hcount := countP_eraseIdx_add (p := fun t ↦ t.result.isNone) htask
    simp only [hresult, Option.isNone_some] at hcount ⊢
    simp at hcount
    omega
  | _ => exact hm

/-- The calls that are awaited end when their queries are answered. -/
def CallsDetermined (m : FetchManager S) : Prop := ∀ t ∈ m.tasks, t.call.Determined

theorem Transition.callsDetermined (hS : S.Determined) (h : m.Transition e m')
    (hm : m.CallsDetermined) : m'.CallsDetermined := by
  intro t ht
  cases h.taskFrom ht with
  | kept ht => exact hm t ht
  | spawned => exact hS _ _
  | @answered i q a task htask => exact hm task (List.mem_of_getElem? htask)
  | @finished i task result htask => exact hm task htask

/-! ## The manager waits for the node only -/

/-- The node answers a query of the task at `i`, or the call of that task ends. -/
def OfTask (i : ℕ) (node : (q : Query) → Except SimError q.Answer) : ManagerEvent S → Prop
  | .answer j q a => j = i ∧ a = node q
  | .finish j => j = i
  | _ => False

/-- Some of the queries of a running task are answered, one after the other. -/
theorem exists_run_answers (node : (q : Query) → Except SimError q.Answer) {i : ℕ}
    {task : FetchTask S} (htask : m.tasks[i]? = some task) (hresult : task.result = none)
    {qs : List Query} (hqs : qs ⊆ task.call.queries) :
    ∃ tasks answers, Lts.Run Step (fun _ e ↦ OfTask i node e) m { m with tasks := tasks } ∧
      tasks[i]? = some { task with answers := answers } ∧ ∀ q ∈ qs, answers q ≠ none := by
  induction qs with
  | nil => exact ⟨m.tasks, task.answers, .refl, htask, nofun⟩
  | cons q qs ih =>
    obtain ⟨hq, hqs⟩ := List.cons_subset.mp hqs
    obtain ⟨tasks, answers, hrun, hget, hanswered⟩ := ih hqs
    by_cases hnone : answers q = none
    · -- the one query of the list that is still out is answered now
      have hi := (List.getElem?_eq_some_iff.mp hget).1
      refine ⟨_, Function.update answers q (some (node q)),
        hrun.next (e := .answer i q (node q)) ?_ ⟨rfl, rfl⟩, List.getElem?_set_self hi, ?_⟩
      · simp only [Lts.Executes, step, hget, hq, hnone, hresult, Option.isNone_none, and_self,
          if_true]
        rfl
      · intro q' hq'
        by_cases heq : q' = q
        · subst heq
          simp
        · rw [Function.update_of_ne heq]
          exact hanswered q' ((List.mem_cons.mp hq').resolve_left heq)
    · exact ⟨tasks, answers, hrun, hget, fun q' hq' ↦
        (List.mem_cons.mp hq').elim (fun heq ↦ heq ▸ hnone) (hanswered q')⟩

/-- **A running fetch gives its permit back** as the node answers: nothing else has to happen, and
nothing else does. -/
theorem exists_run_finish (node : (q : Query) → Except SimError q.Answer) {i : ℕ}
    {task : FetchTask S} (htask : m.tasks[i]? = some task) (hresult : task.result = none)
    (hcall : task.call.Determined) :
    ∃ tasks, Lts.Run Step (fun _ e ↦ OfTask i node e) m
      { m with permits := m.permits + 1, tasks := tasks } := by
  obtain ⟨tasks, answers, hrun, hget, hanswered⟩ :=
    exists_run_answers node htask hresult (List.Subset.refl _)
  obtain ⟨result, hres⟩ := hcall answers hanswered
  refine ⟨tasks.set i { task with answers := answers, result := some result },
    hrun.next (e := .finish i) ?_ rfl⟩
  simp only [Lts.Executes, step, hget, hresult, hres]

/-- **What a manager that waits for a permit can count on.** -/
structure Flowing (total : ℕ) (m : FetchManager S) : Prop where
  /-- A permit is free, or held by a spawned fetch whose RPC has not finished. -/
  permits : m.permits + m.holders.length = total
  /-- While the manager is parked, the RPC of a permit holder is running, and whatever the node
  answers, its end alone lets the manager go on. -/
  parked : ∀ msg, m.phase = .acquire msg → m.permits = 0 →
    ∃ i task, m.tasks[i]? = some task ∧ task ∈ m.holders ∧
      ∀ node, ∃ tasks, Lts.Run Step (fun _ e ↦ OfTask i node e) m
          { m with permits := 1, tasks := tasks } ∧
        (step { m with permits := 1, tasks := tasks } .spawn).isSome
  /-- The permit holders do not all wait for the manager to drain the completion channel, as a
  task with a result does. -/
  unblocked : ∀ msg, m.phase = .acquire msg → m.permits = 0 → ∃ task ∈ m.tasks, task.result = none

/-- Without a free permit, a task is running. -/
theorem PermitsExact.exists_holder {total : ℕ} (h : m.PermitsExact total) (htotal : 0 < total)
    (hpermits : m.permits = 0) : ∃ task, task ∈ m.holders := by
  refine List.exists_mem_of_length_pos ?_
  rw [PermitsExact] at h
  omega

theorem PermitsExact.flowing {total : ℕ} (h : m.PermitsExact total) (htotal : 0 < total)
    (hcalls : m.CallsDetermined) : m.Flowing total where
  permits := h
  parked msg hphase hpermits := by
    obtain ⟨task, htask⟩ := h.exists_holder htotal hpermits
    obtain ⟨hmem, hresult⟩ := List.mem_filter.mp htask
    obtain ⟨i, hi⟩ := List.getElem?_of_mem hmem
    refine ⟨i, task, hi, htask, fun node ↦ ?_⟩
    obtain ⟨tasks, hrun⟩ :=
      exists_run_finish node hi (Option.isNone_iff_eq_none.mp hresult) (hcalls task hmem)
    rw [hpermits] at hrun
    refine ⟨tasks, hrun, ?_⟩
    simp [step, hphase]
  unblocked msg _ hpermits := by
    obtain ⟨task, htask⟩ := h.exists_holder htotal hpermits
    obtain ⟨hmem, hresult⟩ := List.mem_filter.mp htask
    exact ⟨task, hmem, Option.isNone_iff_eq_none.mp hresult⟩

theorem permitsExact_of_run {ctx : S.Ctx} {fetch : FetchConfig}
    (h : Lts.Run Step Lts.anyEvent (new S ctx fetch) m) : m.PermitsExact (S.permits fetch) :=
  h.invariant (fun _ _ _ (hm : PermitsExact _ _) hs _ ↦ hs.transition.permitsExact hm)
    (rfl : PermitsExact _ (new S ctx fetch))

theorem callsDetermined_of_run (hS : S.Determined) {ctx : S.Ctx} {fetch : FetchConfig}
    (h : Lts.Run Step Lts.anyEvent (new S ctx fetch) m) : m.CallsDetermined :=
  h.invariant (fun _ _ _ (hm : CallsDetermined _) hs _ ↦ hs.transition.callsDetermined hS hm)
    (nofun : CallsDetermined (new S ctx fetch))

end FetchManager

/-- Every manager of a built simulator has a permit. -/
theorem permits_pos_of_build [Revm] (keccak256 : Bytes → B256) (k : FetchKind)
    {fetch built : FetchConfig} (h : fetch.build = some built) :
    0 < (spec keccak256 k).permits built := by
  rw [FetchConfig.build] at h
  split at h
  · cases h
    cases k <;> simp [clampConcurrency]
  · cases h

/-- **The wait for a permit cannot deadlock**, in every run of each of the four managers. -/
theorem flowing_of_run [Revm] (keccak256 : Bytes → B256) (k : FetchKind) {fetch : FetchConfig}
    (hpos : 0 < (spec keccak256 k).permits fetch) {m : FetchManager (spec keccak256 k)}
    (h : Lts.Run FetchManager.Step Lts.anyEvent
      (.new (spec keccak256 k) (initialCtx keccak256 k) fetch) m) :
    m.Flowing ((spec keccak256 k).permits fetch) :=
  (FetchManager.permitsExact_of_run h).flowing hpos
    (FetchManager.callsDetermined_of_run (determined_spec keccak256 k) h)

namespace OnePermit

open scoped Revm

/-- The second of two requests waits for the only permit. -/
def events : List (ManagerEvent storageSpec) :=
  [.send ⟨7, 0, 1, 11⟩, .send ⟨7, 1, 1, 11⟩, .recvFetch, .serve, .spawn, .tryNext, .serve]

def start : FetchManager storageSpec := .new storageSpec () { storage := 1 }

theorem isSome_replay : (Lts.replay FetchManager.step Lts.anyCheck events start).isSome = true := by
  decide +kernel

def final : FetchManager storageSpec :=
  (Lts.replay FetchManager.step Lts.anyCheck events start).get isSome_replay

/-- The manager is parked. -/
example : final.phase.held.length = 1 ∧ final.permits = 0 := by decide +kernel

end OnePermit

open scoped Revm in
open OnePermit in
/-- The manager with one permit goes on. -/
theorem flowing_of_run_onePermit : final.Flowing 1 :=
  flowing_of_run (fun _ ↦ 0) .storage (by decide)
    (Lts.Run.of_replay (Option.some_get isSome_replay).symm fun _ _ _ ↦ trivial)

end RexSim
