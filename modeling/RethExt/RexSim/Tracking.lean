import RethExt.RexSim.Isolation
import RethExt.RexSim.Conservation

/-!
# Following a request

What a manager says about one request, whatever the spec and whatever the node answers.  It replies
and caches nothing but what a completed fetch for the key has brought (`FetchManager.Grounded`), and
a request that is on its way is the one that was sent: `FetchManager.Tracks` follows it from the
call its task awaits to its reply.  `FetchManager.Gone` says that it has left the queue for good.
-/

set_option autoImplicit false

open Std

namespace RexSim

namespace FetchManager

variable {S : FetchSpec} {m m' : FetchManager S} {e : ManagerEvent S}

/-- Every task awaits the call its request stands for, and what is cached and replied comes from a
completed fetch for the key. -/
structure Grounded (m : FetchManager S) : Prop where
  task : ∀ t ∈ m.tasks, Fetching t
  completion : ∀ d ∈ m.completionRx, d.Fetched
  processed : ∀ d ∈ m.processed, d.Fetched
  cached : ∀ k value, m.cache[k]? = some value →
    ∃ d ∈ m.processed, S.key d.request = k ∧ d.stored = some value
  replies : ∀ r ∈ m.replies, ∀ resp, r.result = .ok resp →
    ∃ d ∈ m.processed, S.key d.request = S.key r.request ∧
      (d.result = .ok resp ∨ ∃ value, d.stored = some value ∧ S.hit value = resp)

theorem grounded_new (S : FetchSpec) (ctx : S.Ctx) (fetch : FetchConfig) :
    (new S ctx fetch).Grounded where
  task _ h := absurd h List.not_mem_nil
  completion _ h := absurd h List.not_mem_nil
  processed _ h := absurd h List.not_mem_nil
  cached _ _ h := absurd h getElem?_empty_ne
  replies _ h := absurd h List.not_mem_nil

/-- A completion caches what it stores, or leaves the cache alone. -/
theorem cacheAfter_eq_or (m : FetchManager S) (d : FetchDone S) :
    (∃ value, d.stored = some value ∧
        m.cacheAfter d = m.cache.insert (S.key d.request) value) ∨
      m.cacheAfter d = m.cache := by
  rw [cacheAfter, FetchDone.stored]
  cases d.result with
  | error e => exact Or.inr rfl
  | ok resp =>
    by_cases hguard : (!S.epochGuarded || d.epoch == m.epoch) = true
    · cases hstore : S.store resp with
      | some value => exact Or.inl ⟨value, hstore, by simp only [hguard, hstore, if_true]⟩
      | none => exact Or.inr (by simp only [hguard, hstore, if_true])
    · exact Or.inr (if_neg hguard)

/-- What is cached after the step was cached before, or a completion was applied that stores it. -/
theorem Transition.cachedFrom (h : m.Transition e m') {k : S.Key} {value : S.Val}
    (hk : m'.cache[k]? = some value) :
    m.cache[k]? = some value ∨
      ∃ d ∈ m'.processed, S.key d.request = k ∧ d.stored = some value := by
  cases h with
  | @drain done rest hphase hdone | @recvDone done rest hphase hdone =>
    change (m.cacheAfter done)[k]? = some value at hk
    rcases m.cacheAfter_eq_or done with ⟨new, hstored, hcache⟩ | hcache
    · rw [hcache, ExtTreeMap.getElem?_insert] at hk
      split at hk
      · rename_i hkey
        cases hk
        exact Or.inr ⟨done, List.mem_append_right _ List.mem_cons_self,
          LawfulEqCmp.eq_of_compare hkey, hstored⟩
      · exact Or.inl hk
    · rw [hcache] at hk
      exact Or.inl hk
  | handOver => exact absurd hk getElem?_empty_ne
  | @serve msg hphase =>
    rw [lookup] at hk
    split at hk <;> exact Or.inl (cached_of_retag hk)
  | _ => exact Or.inl hk

/-- **The step lemma.** -/
theorem Grounded.step (h : m.Grounded) (hs : Step e m m') : m'.Grounded where
  task t ht := (hs.transition.taskFrom ht).fetching h.task
  completion d hd := by
    rcases hs.transition.completionFrom hd with hd | ⟨task, htask, result, hresult, rfl⟩
    · exact h.completion d hd
    · exact (h.task task htask).fetched hresult
  processed d hd := (hs.transition.processedFrom hd).elim (h.processed d) (h.completion d)
  cached k value hk := by
    rcases hs.transition.cachedFrom hk with hk | hd
    · obtain ⟨d, hd, heq⟩ := h.cached k value hk
      exact ⟨d, hs.transition.processed_subset hd, heq⟩
    · exact hd
  replies r hr resp hresp := by
    cases hs.transition.replyFrom hr with
    | kept hr =>
      obtain ⟨d, hd, heq⟩ := h.replies r hr resp hresp
      exact ⟨d, hs.transition.processed_subset hd, heq⟩
    | @completed d hd hprocessed => exact ⟨d, hprocessed, rfl, Or.inl hresp⟩
    | @hit msg value hphase hvalue =>
      cases hresp
      obtain ⟨d, hd, hkey, hstored⟩ := h.cached _ _ (cached_of_retag hvalue)
      exact ⟨d, hs.transition.processed_subset hd, hkey, Or.inr ⟨value, hstored, rfl⟩⟩

theorem grounded_of_run {ctx : S.Ctx} {fetch : FetchConfig}
    (h : Lts.Run Step Lts.anyEvent (new S ctx fetch) m) : m.Grounded :=
  h.invariant (fun _ _ _ hm hs _ ↦ hm.step hs) (grounded_new S ctx fetch)

/-! ## What becomes of a request -/

/-- The messages that are fetched await a call that `Calls` allows with its answers so far, and end
with a result that `Ends` allows. -/
structure Tracks (Calls : FetchMessage S → RpcCall S.Resp → Answers → Prop)
    (Ends : FetchMessage S → Except SimError S.Resp → Prop) (m : FetchManager S) : Prop where
  call : ∀ t ∈ m.tasks, Calls t.message t.call t.answers
  completion : ∀ d ∈ m.completionRx, Ends d.message d.result
  replies : ∀ r ∈ m.replies, Ends r.message r.result

variable {Calls : FetchMessage S → RpcCall S.Resp → Answers → Prop}
  {Ends : FetchMessage S → Except SimError S.Resp → Prop}

/-- **The step lemma.**  It remains to say what is spawned, what an answer leaves allowed, what a
hit answers, and how an allowed call ends. -/
theorem Tracks.step (h : m.Tracks Calls Ends) (hground : m.Grounded) (hs : Step e m m')
    (hspawn : ∀ msg, m.phase = .acquire msg →
      Calls msg (S.fetch m.ctx msg.request) fun _ ↦ none)
    (hanswer : ∀ i q a, e = .answer i q a → ∀ t, m.tasks[i]? = some t → t.answers q = none →
      Calls t.message t.call t.answers → Calls t.message t.call (t.record q a).answers)
    (hhit : ∀ msg, m.phase = .handle msg → ∀ value, Ends msg (.ok (S.hit value)))
    (hends : ∀ t ∈ m.tasks, ∀ result, Calls t.message t.call t.answers →
      t.call.result t.answers = some (.returned result) → Ends t.message result) :
    m'.Tracks Calls Ends where
  call t ht := by
    cases hs.transition.taskFrom ht with
    | kept ht => exact h.call t ht
    | @spawned msg hphase => exact hspawn msg hphase
    | @answered i q a task htask hnone =>
      exact hanswer i q a rfl task htask hnone (h.call task (List.mem_of_getElem? htask))
    | @finished i task result htask => exact h.call task htask
  completion d hd := by
    rcases hs.transition.completionFrom hd with hd | ⟨task, htask, result, hresult, rfl⟩
    · exact h.completion d hd
    · exact hends task htask result (h.call task htask) ((hground.task task htask).2 _ hresult)
  replies r hr := by
    cases hs.transition.replyFrom hr with
    | kept hr => exact h.replies r hr
    | @completed d hd => exact h.completion d hd
    | @hit msg value hphase => exact hhit msg hphase value

theorem Tracks.mono {Calls' : FetchMessage S → RpcCall S.Resp → Answers → Prop}
    (h : m.Tracks Calls Ends)
    (hcalls : ∀ msg call answers, Calls msg call answers → Calls' msg call answers) :
    m.Tracks Calls' Ends :=
  { h with call := fun t ht ↦ hcalls _ _ _ (h.call t ht) }

theorem mem_messages {place : Place} {msg : FetchMessage S} (hmsg : msg ∈ m.messagesAt place) :
    msg ∈ m.messages := by
  simp only [messages, Multiset.mem_add, Multiset.mem_coe]
  cases place <;> simp [hmsg]

/-- The ticket of a message that is anywhere was opened. -/
theorem Ticketed.lt_opened (h : m.Ticketed) {place : Place} {msg : FetchMessage S}
    (hmsg : msg ∈ m.messagesAt place) : msg.respondTo < m.opened := by
  rw [← Multiset.mem_range, ← h]
  exact Multiset.mem_map_of_mem _ (mem_messages hmsg)

/-- The message with this ticket has left the queue, and is not handled any more. -/
structure Gone (id : ℕ) (m : FetchManager S) : Prop where
  opened : id < m.opened
  queued : ∀ msg ∈ m.fetchRx, msg.respondTo ≠ id
  held : ∀ msg ∈ m.phase.held, msg.respondTo ≠ id

/-- A message that is gone does not come back. -/
theorem Gone.step {id : ℕ} (h : m.Gone id) (hs : Step e m m') : m'.Gone id where
  opened := by
    rw [hs.transition.opened_eq]
    exact Nat.lt_add_right _ h.opened
  queued msg hmsg := by
    rcases hs.transition.queuedFrom hmsg with hmsg | ⟨req, -, rfl⟩
    · exact h.queued msg hmsg
    · exact h.opened.ne'
  held msg hmsg := by
    rcases hs.transition.heldFrom (Phase.mem_held.mp hmsg) with hmsg | hmsg
    · exact h.held msg (Phase.mem_held.mpr hmsg)
    · exact h.queued msg hmsg

variable {id : ℕ}

/-- A message at one place is at no other. -/
theorem Ticketed.not_elsewhere (h : m.Ticketed) {place p : Place} {msg : FetchMessage S}
    (hmsg : msg ∈ m.messagesAt place) (hp : p ≠ place) : msg.respondTo ∉ m.ticketsAt p := by
  have hcount := h.count_eq msg.respondTo
  rw [if_pos (h.lt_opened hmsg)] at hcount
  have hplace : 0 < (m.ticketsAt place).count msg.respondTo :=
    List.count_pos_iff.mpr (List.mem_map_of_mem hmsg)
  rw [← List.count_eq_zero]
  cases place <;> cases p <;> first | exact absurd rfl hp | omega

/-- A ticket belongs to one task. -/
theorem Ticketed.task_unique (h : m.Ticketed) {t t' : FetchTask S} (ht : t ∈ m.tasks)
    (ht' : t' ∈ m.tasks) (hticket : t.respondTo = t'.respondTo) : t = t' := by
  have hnodup := h.nodup .running
  rw [ticketsAt, messagesAt, List.map_map] at hnodup
  exact List.inj_on_of_nodup_map hnodup ht ht' hticket

/-- A ticket belongs to one message. -/
theorem Ticketed.message_unique (h : m.Ticketed) {a b : FetchMessage S} (ha : a ∈ m.messages)
    (hb : b ∈ m.messages) (hticket : a.respondTo = b.respondTo) : a = b := by
  have hnodup : (m.messages.map FetchMessage.respondTo).Nodup := by
    rw [show m.messages.map FetchMessage.respondTo = Multiset.range m.opened from h]
    exact Multiset.nodup_range _
  exact Multiset.inj_on_of_nodup_map hnodup a ha b hb hticket

/-- A message that is fetched is gone. -/
theorem Ticketed.gone (h : m.Ticketed) {t : FetchTask S} (ht : t ∈ m.tasks) :
    m.Gone t.respondTo := by
  have hrunning : t.message ∈ m.messagesAt .running := List.mem_map_of_mem ht
  exact ⟨h.lt_opened hrunning,
    fun msg hmsg hid ↦ h.not_elsewhere hrunning (p := .queued) (by decide)
      (List.mem_map.mpr ⟨msg, hmsg, hid⟩),
    fun msg hmsg hid ↦ h.not_elsewhere hrunning (p := .handled) (by decide)
      (List.mem_map.mpr ⟨msg, hmsg, hid⟩)⟩

/-- A message that is gone is running, completed or answered. -/
theorem Gone.sent (h : m.Gone id) (hm : m.Ticketed) :
    id ∈ m.ticketsAt .running ∨ id ∈ m.ticketsAt .completed ∨ id ∈ m.ticketsAt .answered := by
  have hcount := hm.count_eq id
  rw [if_pos h.opened] at hcount
  have hqueued : (m.ticketsAt .queued).count id = 0 := by
    rw [List.count_eq_zero]
    intro hmem
    obtain ⟨msg, hmsg, rfl⟩ := List.mem_map.mp hmem
    exact h.queued msg hmsg rfl
  have hhandled : (m.ticketsAt .handled).count id = 0 := by
    rw [List.count_eq_zero]
    intro hmem
    obtain ⟨msg, hmsg, rfl⟩ := List.mem_map.mp hmem
    exact h.held msg hmsg rfl
  simp only [← List.count_pos_iff]
  omega

/-- A message whose fetch is spawned is gone. -/
theorem Ticketed.gone_spawnFetch (h : m.Ticketed) {msg : FetchMessage S}
    (hphase : m.phase = .acquire msg) : (m.spawnFetch msg).Gone msg.respondTo := by
  have hmsg : msg ∈ m.messagesAt .handled := Phase.mem_held.mpr (Or.inr hphase)
  exact ⟨h.lt_opened hmsg,
    fun _ hq hid ↦ h.not_elsewhere hmsg (p := .queued) (by decide)
      (List.mem_map.mpr ⟨_, hq, hid⟩), fun _ hmsg ↦ absurd hmsg List.not_mem_nil⟩

/-! ## What a manager keeps -/

/-- What a manager was asked stays with it, it takes no reply back, and a fetch that has panicked
does not go on. -/
structure Keeps (m m' : FetchManager S) : Prop where
  messages : ∀ msg ∈ m.messages, msg ∈ m'.messages
  replies : m.replies ⊆ m'.replies
  opened : m.opened ≤ m'.opened
  panicked : ∀ t ∈ m.tasks, t.result = some .panicked → t ∈ m'.tasks

theorem Keeps.refl (m : FetchManager S) : m.Keeps m :=
  ⟨fun _ h ↦ h, List.Subset.refl _, Nat.le_refl _, fun _ h _ ↦ h⟩

theorem Keeps.trans {m'' : FetchManager S} (h : m.Keeps m') (h' : m'.Keeps m'') :
    m.Keeps m'' where
  messages msg hmsg := h'.messages msg (h.messages msg hmsg)
  replies _ hr := h'.replies (h.replies hr)
  opened := h.opened.trans h'.opened
  panicked t ht hresult := h'.panicked t (h.panicked t ht hresult) hresult

theorem Transition.replies_subset (h : m.Transition e m') : m.replies ⊆ m'.replies := by
  cases h with
  | drain | recvDone => exact List.subset_append_left _ _
  | @serve msg hphase =>
    have hretag : (m.retag msg.request).replies = m.replies :=
      m.retag_rule msg.request rfl fun _ ↦ rfl
    rw [lookup, ← hretag]
    split
    · exact List.subset_append_left _ _
    · exact List.Subset.refl _
  | _ => exact List.Subset.refl _

/-- Nothing is done to a task that has panicked. -/
theorem Transition.mem_tasks_of_panicked (h : m.Transition e m') {t : FetchTask S}
    (ht : t ∈ m.tasks) (hpanicked : t.result = some .panicked) : t ∈ m'.tasks := by
  have hrest : ∀ {i : ℕ} {task : FetchTask S}, m.tasks[i]? = some task →
      task.result ≠ some .panicked → t ∈ m.tasks.eraseIdx i := by
    intro i task htask halive
    obtain ⟨hi, rfl⟩ := List.getElem?_eq_some_iff.mp htask
    rcases List.mem_cons.mp ((List.getElem_cons_eraseIdx_perm hi).mem_iff.mpr ht) with rfl | hmem
    · exact absurd hpanicked halive
    · exact hmem
  have hset : ∀ {i : ℕ} {task task' : FetchTask S}, m.tasks[i]? = some task →
      task.result = none → t ∈ m.tasks.set i task' := by
    intro i task task' htask hresult
    have hi := (List.getElem?_eq_some_iff.mp htask).1
    exact (List.set_perm_cons_eraseIdx hi task').mem_iff.mpr
      (List.mem_cons_of_mem _ (hrest htask (by simp [hresult])))
  cases h with
  | @serve msg hphase =>
    rw [field_serve FetchManager.tasks (fun _ _ _ _ ↦ rfl) (fun _ _ _ ↦ rfl) m msg]
    exact ht
  | spawn => exact List.mem_append_left _ ht
  | answer htask _ _ hresult | finish htask hresult => exact hset htask hresult
  | complete htask hresult => exact hrest htask (by simp [hresult])
  | _ => exact ht

theorem Transition.keeps (h : m.Transition e m') : m.Keeps m' where
  messages msg hmsg := by
    rw [h.messages_eq]
    exact Multiset.mem_add.mpr (Or.inl hmsg)
  replies := h.replies_subset
  opened := by
    rw [h.opened_eq]
    exact Nat.le_add_right _ _
  panicked _ := h.mem_tasks_of_panicked

end FetchManager

end RexSim
