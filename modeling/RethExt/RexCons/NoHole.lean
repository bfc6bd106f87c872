import RethExt.RexCons.Wire

/-!
# No hole inside a connection

What `next` returns from one stream are the first notifications that the ExEx has broadcast since
the server started the session, in their order, less those that are not read back
(`Session.Intact.returned_run`, which every step keeps).  A session whose receiver has fallen behind
is cut: `next` returns what its task had taken and nothing after it (`returned_of_cut`), and the
client that reads it is disconnected.  For that there is a measure, `left`: each step of the client
or of the session takes something off it as long as the client reads on (`left_step`), and one of
these steps can always be made (`exists_regular_step`).
-/

set_option autoImplicit false

open RethRex (Codec Session SessionEvent broadcastCapacity)

namespace RexCons

namespace Net

variable {ι N D : Type} [DecidableEq ι] {codec : Codec N D} {net net' : Net ι N D} {e : Event ι N}
  {i : ℕ} {c : ι} {s s' : Session N D}

variable (codec) in
/-- The runs of the server and its clients, with their events in any order. -/
abbrev Run : Net ι N D → Net ι N D → Prop := Lts.Run (Lts.Executes (step codec)) Lts.anyEvent

/-! ## The sessions -/

/-- Every session is intact. -/
def Intact (codec : Codec N D) (net : Net ι N D) : Prop :=
  ∀ (i : ℕ) (s : Session N D), net.sessions[i]? = some s → s.Intact codec net.sent

theorem Moves.intact {sent : List N} (h : Moves codec sent s s') (hs : s.Intact codec sent) :
    s'.Intact codec sent := by
  cases h with
  | same => exact hs
  | stepped hstep => exact hs.step hstep
  | claimed => exact hs.claim
  | read hwire => exact hs.deliver hwire

theorem Intact.step (h : net.Intact codec) (hstep : net.step codec e = some net') :
    net'.Intact codec := by
  intro i s hs
  rcases moves_of_step hstep hs with ⟨r, hr, hmoves⟩ | ⟨-, hsent, rfl⟩
  · exact (hmoves.intact (h i r hr)).mono (sent_of_step hstep)
  · rw [hsent]
    exact .new net.sent

theorem intact_of_run (h : Run codec {} net) : net.Intact codec :=
  h.invariant (fun _ _ _ hinv hstep _ ↦ hinv.step hstep) fun _ _ hs ↦ by cases hs

/-- The session at the index is cut, and has taken the values. -/
def CutAt (i start : ℕ) (taken : List N) (net : Net ι N D) : Prop :=
  ∃ s, net.sessions[i]? = some s ∧ s.Cut net.sent ∧ s.taken = taken ∧ s.start = start

theorem Moves.cut {sent : List N} (h : Moves codec sent s s') (hcut : s.Cut sent) :
    s'.Cut sent ∧ s'.taken = s.taken ∧ s'.start = s.start := by
  cases h with
  | stepped hstep => exact hcut.step hstep
  | _ => exact ⟨hcut, rfl, rfl⟩

theorem CutAt.step {start : ℕ} {taken : List N} (h : net.CutAt i start taken)
    (hstep : net.step codec e = some net') : net'.CutAt i start taken := by
  obtain ⟨s, hs, hcut, rfl, rfl⟩ := h
  obtain ⟨s', hs', hmoves⟩ := exists_moves_of_step hstep hs
  obtain ⟨hcut', htaken, hstart⟩ := hmoves.cut hcut
  exact ⟨s', hs', hcut'.mono (sent_of_step hstep), htaken, hstart⟩

/-! ## The readers -/

/-- A session that is read is claimed, and read by one client alone. -/
structure Owned (net : Net ι N D) : Prop where
  claimed : ∀ {c i}, net.Reads c i → ∃ s, net.sessions[i]? = some s ∧ s.claimed = true
  alone : ∀ {c c' i}, net.Reads c i → net.Reads c' i → c = c'

omit [DecidableEq ι] in
/-- No client reads a session that is not claimed. -/
theorem Owned.not_reads (h : net.Owned) (hs : net.sessions[i]? = some s)
    (hclaimed : s.claimed = false) (c : ι) : ¬ net.Reads c i := by
  intro hreads
  obtain ⟨s', hs', hclaimed'⟩ := h.claimed hreads
  cases hs.symm.trans hs'
  cases hclaimed.symm.trans hclaimed'

theorem Owned.step (h : net.Owned) (hstep : net.step codec e = some net') : net'.Owned where
  claimed := by
    intro c i hreads
    rcases reads_of_step hstep hreads with hreads | ⟨s, -, -, -, hs'⟩
    · obtain ⟨s, hs, hclaimed⟩ := h.claimed hreads
      obtain ⟨s', hs', hmoves⟩ := exists_moves_of_step hstep hs
      exact ⟨s', hs', hmoves.claims hclaimed⟩
    · exact ⟨_, hs', rfl⟩
  alone := by
    intro c c' i hreads hreads'
    rcases reads_of_step hstep hreads with hreads | ⟨s, hs, hclaimed, rfl, -⟩
    · rcases reads_of_step hstep hreads' with hreads' | ⟨s, hs, hclaimed, -, -⟩
      · exact h.alone hreads hreads'
      · exact absurd hreads (h.not_reads hs hclaimed c)
    · rcases reads_of_step hstep hreads' with hreads' | ⟨_, -, -, heq, -⟩
      · exact absurd hreads' (h.not_reads hs hclaimed c')
      · cases heq
        rfl

theorem owned_of_run (h : Run codec {} net) : net.Owned := by
  refine h.invariant (fun _ _ _ hinv hstep _ ↦ hinv.step hstep) ⟨?_, ?_⟩
  · rintro c i ⟨t, ht, -⟩
    cases ht
  · rintro c c' i ⟨t, ht, -⟩
    cases ht

/-! ## The way out -/

/-- How far the client is from being told that the session has ended. -/
def left (net : Net ι N D) (c : ι) (i : ℕ) : ℕ :=
  ((net.sessions[i]?).elim 0 Session.left) + ((net.threads c).elim 0 Thread.left)

/-- The event is a step of the client or of the session. -/
def concerns (c : ι) (i : ℕ) : Event ι N → Bool
  | .broadcast _ => false
  | .accept => false
  | .session j _ => j = i
  | .spawn c' => c' = c
  | .thread c' _ => c' = c

omit [DecidableEq ι] in
theorem left_eq {t : Thread N} (hs : net.sessions[i]? = some s) (ht : net.threads c = some t) :
    net.left c i = s.left + t.left := by
  rw [left, hs, ht]
  rfl

/-- No step takes a session that is cut further from its end. -/
theorem Moves.left_le {sent : List N} (h : Moves codec sent s s') (hcut : s.Cut sent) :
    s'.left ≤ s.left := by
  cases h with
  | same | claimed => exact le_refl _
  | stepped hstep => exact (Nat.le_add_left _ 1).trans (Session.left_step hcut hstep)
  | read hwire => exact (Nat.le_add_left _ 4).trans (Session.left_deliver hwire _).le

/-- A step of the thread that reads the session, if it reads on. -/
theorem left_thread {t t' : Thread N} {sessions sessions' : List (Session N D)} {e : ThreadEvent}
    (hs : sessions[i]? = some s) (hs' : sessions'[i]? = some s')
    (hstep : t.step codec sessions e = some (some t', sessions'))
    (hreads : t.stream.stream = some i) (hreads' : t'.stream.stream = some i) :
    s'.left + t'.left + 1 ≤ s.left + t.left := by
  have hsame : sessions[i]? = some s' → s'.left = s.left := fun h ↦ by
    cases hs.symm.trans h
    rfl
  cases Thread.transition_of_step hstep with
  | refused hnone | closed hnone | failed hnone => cases hnone.symm.trans hreads'
  | connected _ _ hnone => cases hnone.symm.trans hreads
  | @message j r data rest stream hreads₀ hr hwire hidle =>
    cases hreads₀.symm.trans hreads
    cases hs.symm.trans hr
    rw [List.getElem?_set_self (List.getElem?_eq_some_iff.mp hs).1] at hs'
    cases hs'
    have hdeliver := Session.left_deliver hwire (codec.deserialize data)
    have hholding : (if (codec.deserialize data).isSome then 3 else 0) ≤ 3 := by split <;> omega
    simp only [Thread.left, hidle, Option.isSome_none, Bool.false_eq_true, if_false]
    omega
  | handed hholding =>
    rw [hsame hs']
    simp only [Thread.left, hholding, Option.isSome_none, Option.isSome_some, Bool.false_eq_true,
      if_false, if_true, List.length_append, List.length_singleton]
    omega
  | took hqueue =>
    rw [hsame hs']
    simp only [Thread.left, hqueue, List.length_cons]
    omega
  | unsubscribed hsubscribed =>
    rw [hsame hs']
    simp only [Thread.left, hsubscribed, Bool.false_eq_true, if_false, if_true, List.length_nil]
    omega

/-- **Each step** of the client or of the session, when the session is cut, brings the client nearer
the end or ends its reading; no other step takes it further from it. -/
theorem left_step (hstep : net.step codec e = some net') (hs : net.sessions[i]? = some s)
    (hcut : s.Cut net.sent) (hreads : net.Reads c i) (hreads' : net'.Reads c i) :
    net'.left c i + (if concerns c i e then 1 else 0) ≤ net.left c i := by
  obtain ⟨s', hs', hmoves⟩ := exists_moves_of_step hstep hs
  obtain ⟨t, ht, hstream⟩ := hreads
  obtain ⟨t', ht', hstream'⟩ := hreads'
  have hle := hmoves.left_le hcut
  rw [left_eq hs ht, left_eq hs' ht']
  cases transition_of_step hstep with
  | broadcast | accept =>
    cases ht.symm.trans ht'
    simpa [concerns] using hle
  | @session j e r r' hr hstep =>
    cases ht.symm.trans ht'
    by_cases hj : j = i
    · subst hj
      cases hs.symm.trans hr
      rw [List.getElem?_set_self (List.getElem?_eq_some_iff.mp hs).1] at hs'
      cases hs'
      have hone := Session.left_step hcut hstep
      simp only [concerns, decide_true, if_true]
      omega
    · simpa [concerns, hj] using hle
  | @spawn c' hnone =>
    rcases thread_of_update ht' with ⟨rfl, -⟩ | ⟨hc, hold⟩
    · cases hnone.symm.trans ht
    · cases ht.symm.trans hold
      simpa [concerns, Ne.symm hc] using hle
  | @thread c' e t₀ t₁ sessions ht₀ hstep =>
    rcases thread_of_update ht' with ⟨rfl, rfl⟩ | ⟨hc, hold⟩
    · cases ht.symm.trans ht₀
      simpa [concerns] using left_thread hs hs' hstep hstream hstream'
    · cases ht.symm.trans hold
      simpa [concerns, Ne.symm hc] using hle

/-- The steps of a server that runs, of clients that stay subscribed, and of connections that are
not lost; a client may still find out that one was lost. -/
def Regular (net : Net ι N D) : Event ι N → Prop
  | .broadcast _ => True
  | .accept => True
  | .session _ e => e ≠ .die ∧ e ≠ .drop
  | .spawn _ => True
  | .thread c e => e ≠ .unsubscribe ∧ (e = .failed →
      ∃ i s, net.Reads c i ∧ net.sessions[i]? = some s ∧ s.receiving = false ∧ s.finished = false)

variable (codec) in
/-- A thread that holds a notification hands it over, or its subscriber takes another one. -/
theorem exists_step_of_holding {t : Thread N} {n : N} (sessions : List (Session N D))
    (hholding : t.holding = some n) :
    (∃ r, t.step codec sessions .handOver = some r) ∨
      ∃ r, t.step codec sessions .take = some r := by
  rw [Thread.step, Thread.step, Thread.handOver, hholding]
  cases t.subscribed with
  | false => exact Or.inl ⟨_, rfl⟩
  | true =>
    cases hqueue : t.queue with
    | nil => exact Or.inl ⟨_, rfl⟩
    | cons n rest => exact Or.inr ⟨_, rfl⟩

/-- A thread in `next` takes a message of its stream, or is told that there is none. -/
theorem exists_step_of_idle {t : Thread N} {sessions : List (Session N D)}
    (hs : sessions[i]? = some s) (hidle : t.holding = none) (hstream : t.stream.stream = some i) :
    (∃ r, t.step codec sessions .message = some r) ∨
      (∃ r, t.step codec sessions .closed = some r) ∨
      s.finished = false ∧ ∃ r, t.step codec sessions .failed = some r := by
  have hnext : ∀ e, t.next codec.deserialize e =
      (t.stream.step codec.deserialize e).map fun r ↦
        ({ t with stream := r.1, holding := r.2.notification }, r.2) := by
    intro e
    rw [Thread.next, hidle]
    rfl
  cases hwire : s.wire with
  | cons data rest =>
    left
    simp only [Thread.step, hstream, Option.bind_some, hs, hwire, hnext]
    cases h : codec.deserialize data <;> simp [NotificationStream.step, hstream, h]
  | nil =>
    right
    cases hfinished : s.finished with
    | true =>
      left
      simp [Thread.step, hstream, hs, hwire, hfinished, hnext, NotificationStream.step]
    | false =>
      right
      simp [Thread.step, hnext, NotificationStream.step, hstream]

variable (codec) in
/-- **A client is not stuck**: while it reads a session that is cut, the client or the session has a
regular step to make. -/
theorem exists_regular_step (hs : net.sessions[i]? = some s) (hcut : s.Cut net.sent)
    (hreads : net.Reads c i) :
    ∃ e net', net.step codec e = some net' ∧ net.Regular e ∧ concerns c i e = true := by
  cases hreceiving : s.receiving with
  | true =>
    obtain ⟨e, hdie, hdrop, s', hstep⟩ := Session.exists_step codec hcut hreceiving
    refine ⟨.session i e, { net with sessions := net.sessions.set i s' }, ?_, ⟨hdie, hdrop⟩,
      decide_eq_true rfl⟩
    rw [step, hs, Option.bind_some, hstep, Option.map_some]
  | false =>
    obtain ⟨t, ht, hstream⟩ := hreads
    have hthread : ∀ e, (∃ r, t.step codec net.sessions e = some r) → e ≠ .unsubscribe →
        (e = .failed → s.finished = false) →
        ∃ e net', net.step codec e = some net' ∧ net.Regular e ∧ concerns c i e = true := by
      rintro e ⟨r, hr⟩ hne hfailed
      have hstep : net.step codec (.thread c e) =
          some { net with sessions := r.2, threads := Function.update net.threads c r.1 } := by
        rw [step, ht, Option.bind_some, hr, Option.map_some]
      refine ⟨.thread c e, _, hstep, ⟨hne, fun h ↦ ?_⟩, decide_eq_true rfl⟩
      exact ⟨i, s, ⟨t, ht, hstream⟩, hs, hreceiving, hfailed h⟩
    cases hholding : t.holding with
    | some n =>
      rcases exists_step_of_holding codec net.sessions hholding with hstep | hstep
      · exact hthread .handOver hstep (by decide) fun h ↦ by cases h
      · exact hthread .take hstep (by decide) fun h ↦ by cases h
    | none =>
      rcases exists_step_of_idle hs hholding hstream with hstep | hstep | ⟨hfinished, hstep⟩
      · exact hthread .message hstep (by decide) fun h ↦ by cases h
      · exact hthread .closed hstep (by decide) fun h ↦ by cases h
      · exact hthread .failed hstep (by decide) fun _ ↦ hfinished

/-! ## No hole -/

/-- **The client is disconnected** from the session.  Whatever happens, it reads on only for so many
of its own steps and of the session's; and one of them is always possible, so that regular steps
alone lead to where it does not read the session any more. -/
structure Disconnects (codec : Codec N D) (net : Net ι N D) (c : ι) (i : ℕ) : Prop where
  bounded : ∃ k, ∀ (es : List (Event ι N)) (net' : Net ι N D),
    Lts.replay (step codec) Lts.anyCheck es net = some net' → net'.Reads c i →
      es.countP (concerns c i) ≤ k
  possible : ∃ net', Lts.Run (Lts.Executes (step codec)) Regular net net' ∧ ¬ net'.Reads c i

/-- The session is cut, and has been given to a client. -/
def Closing (i : ℕ) (net : Net ι N D) : Prop :=
  ∃ s, net.sessions[i]? = some s ∧ s.Cut net.sent ∧ s.claimed = true

theorem Closing.step (h : net.Closing i) (hstep : net.step codec e = some net') :
    net'.Closing i := by
  obtain ⟨s, hs, hcut, hclaimed⟩ := h
  obtain ⟨s', hs', hmoves⟩ := exists_moves_of_step hstep hs
  exact ⟨s', hs', (hmoves.cut hcut).1.mono (sent_of_step hstep), hmoves.claims hclaimed⟩

/-- A client that reads such a session has read it before, and has come nearer the end. -/
theorem Closing.left_step (h : net.Closing i) (hstep : net.step codec e = some net')
    (hreads' : net'.Reads c i) :
    net.Reads c i ∧ net'.left c i + (if concerns c i e then 1 else 0) ≤ net.left c i := by
  obtain ⟨s, hs, hcut, hclaimed⟩ := h
  rcases reads_of_step hstep hreads' with hreads | ⟨r, hr, hnot, -, -⟩
  · exact ⟨hreads, Net.left_step hstep hs hcut hreads hreads'⟩
  · cases hs.symm.trans hr
    cases hclaimed.symm.trans hnot

theorem Closing.disconnects (h : net.Closing i) (c : ι) : net.Disconnects codec c i where
  bounded := by
    have hinv : ∀ e (net net' : Net ι N D), net.Closing i → net.step codec e = some net' →
        net'.Closing i := fun _ _ _ hclosing hstep ↦ hclosing.step hstep
    have hleft : ∀ e (net net' : Net ι N D), net.Closing i → net.step codec e = some net' →
        net'.Reads c i →
          net.Reads c i ∧ net'.left c i + (if concerns c i e then 1 else 0) ≤ net.left c i :=
      fun _ _ _ hclosing hstep hreads' ↦ hclosing.left_step hstep hreads'
    refine ⟨net.left c i, fun es net' hreplay hreads ↦ ?_⟩
    have hpaid := (Lts.countP_add_le_of_replay hinv hleft hreplay h hreads).2
    exact (Nat.le_add_left _ _).trans hpaid
  possible := by
    have hnext : ∀ net : Net ι N D, net.Closing i → net.Reads c i →
        ∃ e net', Lts.Executes (Net.step codec) e net net' ∧ net.Regular e ∧ net'.Closing i ∧
          (net'.Reads c i → net'.left c i < net.left c i) := by
      rintro net hclosing hreads
      obtain ⟨s, hs, hcut, hclaimed⟩ := hclosing
      obtain ⟨e, net', hstep, hregular, hconcerns⟩ := exists_regular_step codec hs hcut hreads
      have hclosing : net.Closing i := ⟨s, hs, hcut, hclaimed⟩
      refine ⟨e, net', hstep, hregular, hclosing.step hstep, fun hreads' ↦ ?_⟩
      have hleft := (hclosing.left_step hstep hreads').2
      rw [hconcerns, if_pos rfl] at hleft
      exact hleft
    exact Lts.Run.exists_of_measure hnext h

/-- **No silent hole.**  Each session is read by one client alone, and what `next` has returned from
it are the first notifications that were broadcast after it was started, without those that are not
read back.  As long as its task runs, the task has taken all that was broadcast before the cursor of
its receiver; and when that falls behind, `next` never returns anything after what the task has
taken, whatever happens, and who reads the session is disconnected. -/
structure NoHole (codec : Codec N D) (net : Net ι N D) : Prop where
  alone : ∀ {c c' i}, net.Reads c i → net.Reads c' i → c = c'
  contiguous : ∀ (i : ℕ) (s : Session N D), net.sessions[i]? = some s →
    ∃ n, s.start + n ≤ net.sent.length ∧
      s.returned = ((net.sent.drop s.start).take n).filter codec.Decodes
  taken : ∀ (i : ℕ) (s : Session N D), net.sessions[i]? = some s → s.task.isEnded = false →
    s.cursor = s.start + s.taken.length
  disconnected : ∀ (i : ℕ) (s : Session N D), net.sessions[i]? = some s →
    Broadcast.Behind broadcastCapacity net.sent s.cursor → ∀ net', Run codec net net' →
      (∃ s', net'.sessions[i]? = some s' ∧ ∃ n ≤ s.taken.length,
        s'.returned = ((net.sent.drop s.start).take n).filter codec.Decodes) ∧
      ∀ c, net'.Reads c i → net'.Disconnects codec c i

/-- **What is returned after the cut** was taken before it. -/
theorem returned_of_cut (hintact : net.Intact codec) (hs : net.sessions[i]? = some s)
    (hcut : s.Cut net.sent) (hrun : Run codec net net') (hintact' : net'.Intact codec) :
    ∃ s', net'.sessions[i]? = some s' ∧ s'.Cut net'.sent ∧ ∃ n ≤ s.taken.length,
      s'.returned = ((net.sent.drop s.start).take n).filter codec.Decodes := by
  have hcutAt : net'.CutAt i s.start s.taken :=
    hrun.invariant (fun _ _ _ hinv hstep _ ↦ hinv.step hstep) ⟨s, hs, hcut, rfl, rfl⟩
  obtain ⟨s', hs', hcut', htaken, hstart⟩ := hcutAt
  obtain ⟨n, hn, hreturned⟩ := (hintact' i s' hs').returned_run
  refine ⟨s', hs', hcut', n, htaken ▸ hn, hreturned.trans (congrArg _ ?_)⟩
  -- both broadcasts begin with what the task has taken
  calc (net'.sent.drop s'.start).take n
      _ = s'.taken.take n := ((hintact' i s' hs').take_taken hn).symm
      _ = s.taken.take n := by rw [htaken]
      _ = (net.sent.drop s.start).take n := (hintact i s hs).take_taken (htaken ▸ hn)

/-- **No silent hole inside one connection**, in every state of every run. -/
theorem noHole_of_run (h : Run codec {} net) : net.NoHole codec where
  alone := (owned_of_run h).alone
  contiguous i s hs := by
    have hintact := intact_of_run h i s hs
    obtain ⟨n, hn, hreturned⟩ := hintact.returned_run
    refine ⟨n, ?_, hreturned⟩
    have hlength := hintact.taken_prefix.length_le
    have hstart := hintact.start_le
    rw [List.length_drop] at hlength
    omega
  taken i s hs hlive := (intact_of_run h i s hs).cursor_eq hlive
  disconnected i s hs hbehind net' hrun := by
    have h' : Run codec {} net' := h.trans hrun
    obtain ⟨s', hs', hcut', hreturned⟩ :=
      returned_of_cut (intact_of_run h) hs (Or.inr hbehind) hrun (intact_of_run h')
    refine ⟨⟨s', hs', hreturned⟩, fun c hreads ↦ ?_⟩
    obtain ⟨r, hr, hclaimed⟩ := (owned_of_run h').claimed hreads
    cases hs'.symm.trans hr
    exact Closing.disconnects ⟨s', hs', hcut', hclaimed⟩ c

namespace Lagging

/-- Every notification but `2` is read back. -/
def but2 : Codec ℕ ℕ where
  serialize n := n
  deserialize data := if data = 2 then none else some data
  eq_of_deserialize := by
    intro n m h
    split at h <;> cases h
    rfl

/-- A notification on its way from the broadcast channel to the client. -/
def passes : List (Event Unit ℕ) :=
  [.session 0 .recv, .session 0 .send, .session 0 .forward, .thread () .message]

/-- The client subscribes and reads `1`, `2` and `3`; then forty more are broadcast, and its task
has taken none of them. -/
def events : List (Event Unit ℕ) :=
  [.spawn (), .broadcast 0, .accept, .thread () (.connected 0), .broadcast 1, .broadcast 2,
    .broadcast 3] ++ passes ++ [.thread () .handOver] ++ passes ++ passes ++
    (List.range 40).map .broadcast

/-- What is seen of the session and of the client's stream. -/
def view (net : Net Unit ℕ ℕ) : Option (List ℕ × ℕ) × ℕ × Option ℕ :=
  ((net.sessions[0]?).map fun s ↦ (s.returned, s.cursor), net.sent.length,
    (net.threads ()).bind (·.stream.stream))

end Lagging

open Lagging in
/-- A client that has fallen behind while it reads the stream. -/
theorem noHole_of_run_lagging :
    ∃ net : Net Unit ℕ ℕ, Run but2 {} net ∧ view net = (some ([1, 3], 4), 44, some 0) ∧
      net.NoHole but2 := by
  have hview : (Lts.replay (step but2) Lts.anyCheck events {}).map view =
      some (some ([1, 3], 4), 44, some 0) := by decide +kernel
  obtain ⟨net, hnet, hview⟩ := Option.map_eq_some_iff.mp hview
  have hrun : Run but2 {} net := .of_replay hnet fun _ _ _ ↦ trivial
  exact ⟨net, hrun, hview, noHole_of_run hrun⟩

end Net

end RexCons
