import RethExt.RexSim.Tracking
import Mathlib.Algebra.BigOperators.Group.List.Basic

/-!
# A manager comes to rest

What a manager still has to do is bounded by what it was sent.  `FetchManager.left` weighs every
message by the steps it still has to take, from the queue over the loop, the task and the
completion channel to its reply: a step takes at least as much off it as it counts for, and only
what comes from outside adds to it (`left_of_step`).  And a manager that is not at rest can always
take another step, whatever the node answers (`exists_step_of_not_quiet`).  So every way of going on
ends, and it ends where each request has its one reply, or a task of its own that has panicked:
`settles_of_run`.  Only code that the client cannot hold makes a task panic (`RefusesCode`).

The weight of a completion is one more than it needs here: it is for the registration that a
completed account may bring to the code manager.
-/

set_option autoImplicit false

namespace RexSim

variable {S : FetchSpec}

/-! ## What a fetch asks -/

/-- A fetch asks the node `n` queries at most. -/
def FetchSpec.Bounded (S : FetchSpec) (n : ℕ) : Prop :=
  ∀ ctx req, (S.fetch ctx req).queries.length ≤ n

theorem bounded_spec [Revm] (keccak256 : Bytes → B256) (k : FetchKind) :
    (spec keccak256 k).Bounded 3 := by
  intro ctx req
  cases k with
  | account => exact Nat.le_refl 3
  | code =>
    simp only [spec, getCodeByHash]
    split <;> simp
  | storage | blockHash => simp [spec, getStorage, getBlockHash]

namespace FetchTask

/-- The queries of a task that are not answered yet. -/
def unanswered (t : FetchTask S) : ℕ := t.call.queries.countP fun q ↦ (t.answers q).isNone

theorem unanswered_record {t : FetchTask S} {q : Query} (a : Except SimError q.Answer)
    (hq : q ∈ t.call.queries) (hnone : t.answers q = none) :
    (t.record q a).unanswered < t.unanswered := by
  have hself : ((t.record q a).answers q).isNone = false := by simp [record]
  have hother : ∀ q', ((t.record q a).answers q').isNone = true → (t.answers q').isNone = true := by
    intro q' h
    by_cases heq : q' = q
    · subst heq
      rw [hself] at h
      simp at h
    · simpa [record, Function.update_of_ne heq] using h
  obtain ⟨before, after, hsplit⟩ := List.append_of_mem hq
  have hle : ∀ l : List Query, l.countP (fun q' ↦ ((t.record q a).answers q').isNone) ≤
      l.countP fun q' ↦ (t.answers q').isNone :=
    fun l ↦ List.countP_mono_left fun q' _ ↦ hother q'
  have hbefore := hle before
  have hafter := hle after
  have hcalls : (t.record q a).call.queries = before ++ q :: after := hsplit
  rw [unanswered, unanswered, hcalls, hsplit, List.countP_append, List.countP_cons,
    List.countP_append, List.countP_cons, hself, hnone]
  simp only [Bool.false_eq_true, if_false, Option.isNone_none, if_true]
  omega

/-- The steps a task still takes part in: its answers, its result, its completion and what the
manager makes of that. -/
def left (t : FetchTask S) : ℕ :=
  match t.result with
  | none => t.unanswered + 4
  | some (.returned _) => 3
  | some .panicked => 0

end FetchTask

/-! ## What is left to do -/

/-- The steps the loop still takes for what it holds. -/
def Phase.left (n : ℕ) : Phase S → ℕ
  | .select => 0
  | .draining => 1
  | .handle _ => n + 7
  | .acquire _ => n + 6
  | .next => 1

namespace ManagerEvent

/-- The event comes from outside. -/
def isInput : ManagerEvent S → Bool
  | .send _ => true
  | .sendSide _ => true
  | .requestFlush => true
  | _ => false

/-- What an input gives a manager to do. -/
def gained (n : ℕ) : ManagerEvent S → ℕ
  | .send _ => n + 8
  | .sendSide _ => 1
  | .requestFlush => 2
  | _ => 0

/-- What a step of the manager counts for. -/
def spent : ManagerEvent S → ℕ
  | .send _ => 0
  | .sendSide _ => 0
  | .requestFlush => 0
  | .drain => 2
  | .recvDone => 2
  | _ => 1

theorem one_le_spent {e : ManagerEvent S} (h : e.isInput = false) : 1 ≤ e.spent := by
  cases e <;> simp [isInput, spent] at h ⊢

theorem gained_of_isInput {e : ManagerEvent S} (n : ℕ) (h : e.isInput = false) :
    e.gained n = 0 := by
  cases e <;> simp [isInput, gained] at h ⊢

end ManagerEvent

namespace FetchManager

variable {m m' : FetchManager S} {e : ManagerEvent S} {n : ℕ}

/-- **What is left to do**, when a fetch asks `n` queries at most. -/
def left (n : ℕ) (m : FetchManager S) : ℕ :=
  (n + 8) * m.fetchRx.length + m.phase.left n + (m.tasks.map FetchTask.left).sum +
    2 * m.completionRx.length + m.sideRx.length + 2 * m.flushRx.toNat

private theorem sum_map_set_add {α : Type} {f : α → ℕ} {l : List α} {i : ℕ} {a b : α}
    (h : l[i]? = some a) : ((l.set i b).map f).sum + f a = (l.map f).sum + f b := by
  obtain ⟨hi, rfl⟩ := List.getElem?_eq_some_iff.mp h
  have hset := ((List.set_perm_cons_eraseIdx hi b).map f).sum_eq
  have hget := ((List.getElem_cons_eraseIdx_perm hi).map f).sum_eq
  rw [List.map_cons, List.sum_cons] at hset hget
  omega

private theorem sum_map_eraseIdx_add {α : Type} {f : α → ℕ} {l : List α} {i : ℕ} {a : α}
    (h : l[i]? = some a) : ((l.eraseIdx i).map f).sum + f a = (l.map f).sum := by
  obtain ⟨hi, rfl⟩ := List.getElem?_eq_some_iff.mp h
  have hget := ((List.getElem_cons_eraseIdx_perm hi).map f).sum_eq
  rw [List.map_cons, List.sum_cons] at hget
  omega

/-- A message that is looked up is one step further. -/
theorem left_lookup {msg : FetchMessage S} (h : m.phase = .handle msg) :
    (m.lookup msg).left n + 1 ≤ m.left n := by
  rw [lookup]
  split <;> simp only [left, h, Phase.left] <;> omega

theorem left_applyCompletion {done : FetchDone S} {rest : List (FetchDone S)}
    (h : m.completionRx = done :: rest) :
    (applyCompletion { m with completionRx := rest } done).left n + 2 = m.left n := by
  simp only [left, applyCompletion, h, List.length_cons]
  omega

theorem left_drainSide (m : FetchManager S) : m.drainSide.left n + m.sideRx.length = m.left n := by
  simp only [left, drainSide, List.length_nil]
  omega

/-- Side messages are taken when there are some. -/
theorem sideRx_ne_nil_of_step (h : Step .recvSide m m') : m.sideRx ≠ [] := by
  intro hnil
  replace h : m.step .recvSide = some m' := h
  rw [step, hnil] at h
  cases hphase : m.phase <;> simp [hphase] at h

/-- **The step lemma**: a step takes off what is left at least as much as it counts for, and only an
input adds to it. -/
theorem left_of_step (hS : S.Bounded n) (h : Step e m m') :
    m'.left n + e.spent ≤ m.left n + e.gained n := by
  cases h.transition with
  | send request =>
    simp only [left, ManagerEvent.spent, ManagerEvent.gained, List.length_append,
      List.length_singleton, Nat.mul_succ]
    omega
  | sendSide msg =>
    simp only [left, ManagerEvent.spent, ManagerEvent.gained, List.length_append,
      List.length_singleton]
    omega
  | requestFlush hflush =>
    simp [left, ManagerEvent.spent, ManagerEvent.gained, hflush]
  | recvFlush hphase hflush =>
    simp only [left, ManagerEvent.spent, ManagerEvent.gained, hphase, hflush, Phase.left,
      Bool.toNat_true, Bool.toNat_false]
    omega
  | drain hphase hdone hinflight => exact (left_applyCompletion hdone).le
  | handOver hphase =>
    simp only [left, ManagerEvent.spent, ManagerEvent.gained, afterFlush, hphase, Phase.left]
    omega
  | recvDone hphase hdone => exact (left_applyCompletion hdone).le
  | recvSide hphase =>
    have hpos := List.length_pos_iff.mpr (sideRx_ne_nil_of_step h)
    have hside := left_drainSide (n := n) m
    simp only [ManagerEvent.spent, ManagerEvent.gained]
    omega
  | recvFetch hphase hmsg =>
    simp only [left, ManagerEvent.spent, ManagerEvent.gained, drainSide, hphase, hmsg, Phase.left,
      List.length_cons, List.length_nil, Nat.mul_succ]
    omega
  | @serve msg hphase =>
    have hretag : (m.retag msg.request).left n = m.left n :=
      m.retag_rule msg.request rfl fun _ ↦ rfl
    rw [← hretag]
    exact left_lookup (by rw [phase_retag, hphase])
  | @spawn msg hphase hpermits =>
    have hqueries : (S.fetch m.ctx msg.request).queries.countP (fun _ ↦ true) ≤ n :=
      List.countP_le_length.trans (hS _ _)
    simp only [left, ManagerEvent.spent, ManagerEvent.gained, spawnFetch, hphase, Phase.left,
      List.map_append, List.map_cons, List.map_nil, List.sum_append, List.sum_cons, List.sum_nil,
      FetchTask.left, FetchTask.unanswered, Option.isNone_none]
    omega
  | tryNext hphase hmsg =>
    simp only [left, ManagerEvent.spent, ManagerEvent.gained, hphase, hmsg, Phase.left,
      List.length_cons, Nat.mul_succ]
    omega
  | leave hphase hmsg =>
    simp only [left, ManagerEvent.spent, ManagerEvent.gained, hphase, Phase.left]
    omega
  | @answer i q a task htask hq hanswer hresult =>
    have hsum := sum_map_set_add (f := FetchTask.left) (b := task.record q a) htask
    have hlt := FetchTask.unanswered_record a hq hanswer
    have hnew : (task.record q a).left = (task.record q a).unanswered + 4 := by
      simp [FetchTask.left, FetchTask.record, hresult]
    have hold : task.left = task.unanswered + 4 := by simp [FetchTask.left, hresult]
    simp only [left, ManagerEvent.spent, ManagerEvent.gained]
    omega
  | @finish i task result htask hresult hcall =>
    have hsum := sum_map_set_add (f := FetchTask.left)
      (b := { task with result := some result }) htask
    have hold : task.left = task.unanswered + 4 := by simp [FetchTask.left, hresult]
    have hnew : FetchTask.left { task with result := some result } ≤ 3 := by
      cases result <;> simp [FetchTask.left]
    simp only [left, ManagerEvent.spent, ManagerEvent.gained]
    omega
  | @complete i task result htask hresult hroom =>
    have hsum := sum_map_eraseIdx_add (f := FetchTask.left) htask
    have hold : task.left = 3 := by simp [FetchTask.left, hresult]
    simp only [left, ManagerEvent.spent, ManagerEvent.gained, List.length_append,
      List.length_singleton]
    omega

/-- What a manager does by itself is paid for by what was left and by what it was sent. -/
theorem left_add_countP_le_of_replay (hS : S.Bounded n) {es : List (ManagerEvent S)}
    (h : Lts.replay step Lts.anyCheck es m = some m') :
    m'.left n + es.countP (fun e ↦ !e.isInput) ≤
      m.left n + (es.map (ManagerEvent.gained n)).sum := by
  refine Lts.add_countP_le_of_replay (fun e s s' hs ↦ ?_) h
  have hone := left_of_step hS hs
  split
  · have hspent := ManagerEvent.one_le_spent (e := e) (by simpa using ‹(!e.isInput) = true›)
    omega
  · omega

/-! ## At rest -/

/-- Nothing waits, runs or is under way; a task that has panicked stays behind. -/
structure Quiet (m : FetchManager S) : Prop where
  fetchRx : m.fetchRx = []
  flushRx : m.flushRx = false
  sideRx : m.sideRx = []
  completionRx : m.completionRx = []
  phase : m.phase = .select
  tasks : ∀ t ∈ m.tasks, t.result = some .panicked

/-- The manager takes the step by itself, and what the node answers is up to `node`. -/
def Goes (node : (q : Query) → Except SimError q.Answer) (_ : FetchManager S)
    (e : ManagerEvent S) : Prop :=
  e.isInput = false ∧ ∀ i q a, e = .answer i q a → a = node q

variable (node : (q : Query) → Except SimError q.Answer)

theorem exists_step_of_isSome {node : (q : Query) → Except SimError q.Answer}
    (e : ManagerEvent S) (hsome : (m.step e).isSome = true) (hgoes : Goes node m e) :
    ∃ e m', Step e m m' ∧ Goes node m e := by
  obtain ⟨m', hstep⟩ := Option.isSome_iff_exists.mp hsome
  exact ⟨e, m', hstep, hgoes⟩

/-- A task without a result has a query to be answered, or gets its result. -/
theorem exists_step_of_running {i : ℕ} {task : FetchTask S} (htask : m.tasks[i]? = some task)
    (hresult : task.result = none) (hcall : task.call.Determined) :
    ∃ e m', Step e m m' ∧ Goes node m e := by
  by_cases hall : ∀ q ∈ task.call.queries, task.answers q ≠ none
  · obtain ⟨result, hres⟩ := hcall task.answers hall
    exact exists_step_of_isSome (.finish i) (by simp [step, htask, hresult, hres]) ⟨rfl, nofun⟩
  · push Not at hall
    obtain ⟨q, hq, hnone⟩ := hall
    refine exists_step_of_isSome (.answer i q (node q)) (by simp [step, htask, hq, hnone, hresult])
      ⟨rfl, fun i' q' a' h ↦ ?_⟩
    cases h
    rfl

/-- A task that has not panicked goes on as long as the completion channel has room. -/
theorem exists_step_of_task {i : ℕ} {task : FetchTask S} (htask : m.tasks[i]? = some task)
    (halive : task.result ≠ some .panicked) (hcall : task.call.Determined)
    (hroom : m.completionRx = []) : ∃ e m', Step e m m' ∧ Goes node m e := by
  rcases hresult : task.result with _ | _ | _
  · exact exists_step_of_running node htask hresult hcall
  · exact exists_step_of_isSome (.complete i)
      (by simp [step, htask, hresult, hroom, completionChannelDepth]) ⟨rfl, nofun⟩
  · exact absurd hresult halive

/-- **No deadlock**: a manager that is not at rest goes on, whatever the node answers. -/
theorem exists_step_of_not_quiet {total : ℕ} (hpermits : m.PermitsExact total) (htotal : 0 < total)
    (hcalls : m.CallsDetermined) (hquiet : ¬ m.Quiet) : ∃ e m', Step e m m' ∧ Goes node m e := by
  cases hphase : m.phase with
  | draining => exact exists_step_of_isSome .handOver (by simp [step, hphase]) ⟨rfl, by simp⟩
  | handle msg => exact exists_step_of_isSome .serve (by simp [step, hphase]) ⟨rfl, by simp⟩
  | next =>
    refine exists_step_of_isSome .tryNext ?_ ⟨rfl, by simp⟩
    rw [step, hphase]
    cases m.fetchRx <;> rfl
  | acquire msg =>
    by_cases hfree : 0 < m.permits
    · exact exists_step_of_isSome .spawn (by simp [step, hphase, hfree]) ⟨rfl, by simp⟩
    · -- a permit is held by a task, and that task goes on
      obtain ⟨task, hholder⟩ := hpermits.exists_holder htotal (Nat.eq_zero_of_not_pos hfree)
      obtain ⟨hmem, hresult⟩ := List.mem_filter.mp hholder
      obtain ⟨i, hi⟩ := List.getElem?_of_mem hmem
      exact exists_step_of_running node hi (Option.isNone_iff_eq_none.mp hresult)
        (hcalls task hmem)
  | select =>
    -- the arms of the `select!`, and then the tasks
    by_cases hflush : m.flushRx = true
    · exact exists_step_of_isSome .recvFlush (by simp [step, hphase, hflush]) ⟨rfl, by simp⟩
    rcases hdone : m.completionRx with _ | ⟨done, rest⟩
    · rcases hside : m.sideRx with _ | ⟨msg, rest⟩
      · rcases hmsg : m.fetchRx with _ | ⟨msg, rest⟩
        · by_cases htasks : ∀ t ∈ m.tasks, t.result = some .panicked
          · exact absurd ⟨hmsg, Bool.eq_false_of_not_eq_true hflush, hside, hdone, hphase, htasks⟩
              hquiet
          · push Not at htasks
            obtain ⟨task, htask, halive⟩ := htasks
            obtain ⟨i, hi⟩ := List.getElem?_of_mem htask
            exact exists_step_of_task node hi halive (hcalls task htask) hdone
        · exact exists_step_of_isSome .recvFetch (by simp [step, hphase, hmsg]) ⟨rfl, by simp⟩
      · exact exists_step_of_isSome .recvSide (by simp [step, hphase, hside]) ⟨rfl, by simp⟩
    · exact exists_step_of_isSome .recvDone (by simp [step, hphase, hdone]) ⟨rfl, by simp⟩

/-- A manager that is left to itself comes to rest. -/
theorem exists_run_quiet (hS : S.Bounded n) (hdet : S.Determined) {total : ℕ}
    (hpermits : m.PermitsExact total) (htotal : 0 < total) (hcalls : m.CallsDetermined) :
    ∃ m', Lts.Run Step (Goes node) m m' ∧ m'.Quiet := by
  have hstep : ∀ m : FetchManager S, m.PermitsExact total ∧ m.CallsDetermined → ¬ m.Quiet →
      ∃ e m', Step e m m' ∧ Goes node m e ∧ (m'.PermitsExact total ∧ m'.CallsDetermined) ∧
        (¬ m'.Quiet → m'.left n < m.left n) := by
    rintro m ⟨hp, hc⟩ hnot
    obtain ⟨e, m', hs, hgoes⟩ := exists_step_of_not_quiet node hp htotal hc hnot
    have hone := left_of_step hS hs
    have hspent := ManagerEvent.one_le_spent hgoes.1
    have hgained := ManagerEvent.gained_of_isInput n hgoes.1
    exact ⟨e, m', hs, hgoes, ⟨hs.transition.permitsExact hp, hs.transition.callsDetermined hdet hc⟩,
      fun _ ↦ by omega⟩
  obtain ⟨m', hrun, hquiet⟩ := Lts.Run.exists_of_measure hstep ⟨hpermits, hcalls⟩
  exact ⟨m', hrun, not_not.mp hquiet⟩

/-- **What becomes of a manager that is left to itself**, when a fetch panics on the answers in
`Panics`. -/
structure Settles (n total : ℕ) (Panics : S.Req → Answers → Prop) (m : FetchManager S) :
    Prop where
  /-- However it goes on, its own steps are paid for by what is left and by what it is sent. -/
  bounded : ∀ es m', Lts.replay step Lts.anyCheck es m = some m' →
    m'.left n + es.countP (fun e ↦ !e.isInput) ≤
      m.left n + (es.map (ManagerEvent.gained n)).sum
  /-- It goes on until it is at rest, whatever the node answers. -/
  goes : ∀ node, ¬ m.Quiet → ∃ e m', Step e m m' ∧ Goes node m e
  /-- So it comes to rest. -/
  rests : ∀ node, ∃ m', Lts.Run Step (Goes node) m m' ∧ m'.Quiet
  /-- At rest every request has had its one reply, or it has the one task left of it; nothing is in
  flight but these tasks, and all permits are free. -/
  answered : m.Quiet →
    (∀ id < m.opened, (m.ticketsAt .answered).count id + (m.ticketsAt .running).count id = 1) ∧
      m.inflight = m.tasks.length ∧ m.permits = total
  /-- Those tasks have panicked, each on an answer it had. -/
  panicked : ∀ t ∈ m.tasks, t.result = some .panicked → Panics t.request t.answers

/-- At rest, a request is answered or has panicked. -/
theorem Quiet.count_eq (h : m.Quiet) (hticketed : m.Ticketed) {id : ℕ} (hid : id < m.opened) :
    (m.ticketsAt .answered).count id + (m.ticketsAt .running).count id = 1 := by
  have hcount := hticketed.count_eq id
  rw [if_pos hid, show m.ticketsAt .queued = [] by rw [ticketsAt, messagesAt, h.fetchRx]; rfl,
    show m.ticketsAt .handled = [] by rw [ticketsAt, messagesAt, h.phase]; rfl,
    show m.ticketsAt .completed = [] by rw [ticketsAt, messagesAt, h.completionRx]; rfl,
    List.count_nil] at hcount
  omega

/-- At rest, only the tasks that have panicked are in flight. -/
theorem Quiet.inflight_eq (h : m.Quiet) (hinflight : m.InflightExact) :
    m.inflight = m.tasks.length := by
  rw [InflightExact, h.completionRx, List.length_nil, add_zero] at hinflight
  exact hinflight

/-- A task panics on code that is refused. -/
theorem Grounded.refusesCode [Revm] {keccak256 : Bytes → B256} {k : FetchKind}
    {m : FetchManager (spec keccak256 k)} (h : m.Grounded) {t : FetchTask (spec keccak256 k)}
    (ht : t ∈ m.tasks) (hpanicked : t.result = some .panicked) :
    RefusesCode keccak256 k t.request t.answers := by
  obtain ⟨⟨ctx, hctx⟩, hcall⟩ := h.task t ht
  have hresult := hcall _ hpanicked
  rw [hctx] at hresult
  exact refusesCode_of_panicked keccak256 hresult

/-- At rest, no permit is held. -/
theorem Quiet.holders_eq_nil (h : m.Quiet) : m.holders = [] := by
  refine List.filter_eq_nil_iff.mpr fun t ht ↦ ?_
  rw [h.tasks t ht]
  exact Bool.false_ne_true

end FetchManager

/-- **A manager comes to rest and answers every request**: in every run of each of the four
managers, however it goes on from there by itself, and whatever the node answers. -/
theorem settles_of_run [Revm] (keccak256 : Bytes → B256) (k : FetchKind) {fetch : FetchConfig}
    (hpos : 0 < (spec keccak256 k).permits fetch) {m : FetchManager (spec keccak256 k)}
    (h : Lts.Run FetchManager.Step Lts.anyEvent
      (.new (spec keccak256 k) (initialCtx keccak256 k) fetch) m) :
    m.Settles 3 ((spec keccak256 k).permits fetch) (RefusesCode keccak256 k) := by
  have hpermits := FetchManager.permitsExact_of_run h
  have hcalls := FetchManager.callsDetermined_of_run (determined_spec keccak256 k) h
  exact {
    bounded := fun _ _ hreplay ↦
      FetchManager.left_add_countP_le_of_replay (bounded_spec keccak256 k) hreplay
    goes := fun node hnot ↦ FetchManager.exists_step_of_not_quiet node hpermits hpos hcalls hnot
    rests := fun node ↦ FetchManager.exists_run_quiet node (bounded_spec keccak256 k)
      (determined_spec keccak256 k) hpermits hpos hcalls
    answered := fun hquiet ↦ by
      rw [FetchManager.PermitsExact, hquiet.holders_eq_nil, List.length_nil, add_zero] at hpermits
      exact ⟨fun id ↦ hquiet.count_eq (FetchManager.ticketed_of_run h),
        hquiet.inflight_eq (FetchManager.inflightExact_of_run h), hpermits⟩
    panicked := fun _ ↦ (FetchManager.grounded_of_run h).refusesCode }

namespace RefusedCode

open scoped Revm

/-- The code of an account is `ef01` and no delegation: the task that fetches it panics.  Another
request is still in the queue. -/
def events : List (ManagerEvent (codeSpec fun _ ↦ 0)) :=
  [.send ⟨0, 1, some 7⟩, .recvFetch, .serve, .spawn, .tryNext,
    .answer 0 (.getCodeAt 7 1) (.ok [0xef, 0x01]), .finish 0, .send ⟨0, 1, some 8⟩]

def start : FetchManager (codeSpec fun _ ↦ 0) := .new _ {} { code := 1 }

theorem isSome_replay : (Lts.replay FetchManager.step Lts.anyCheck events start).isSome = true := by
  decide +kernel

def final : FetchManager (codeSpec fun _ ↦ 0) :=
  (Lts.replay FetchManager.step Lts.anyCheck events start).get isSome_replay

/-- The task stays in flight, and its permit is free. -/
example : final.inflight = 1 ∧ final.permits = 1 ∧ final.ticketsAt .running = [0] := by
  decide +kernel

end RefusedCode

open scoped Revm in
open RefusedCode in
/-- The manager goes on with a task that has panicked. -/
theorem settles_of_run_refusedCode : final.Settles 3 1 (RefusesCode (fun _ ↦ 0) .code) :=
  settles_of_run (fun _ ↦ 0) .code (by decide)
    (Lts.Run.of_replay (Option.some_get isSome_replay).symm fun _ _ _ ↦ trivial)

end RexSim
