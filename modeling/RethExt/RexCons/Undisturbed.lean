import RethExt.RexCons.Delivery

/-!
# What clients have to do with each other

A client that is slow, or gone, or that lags behind, is no concern of the others: the server has a
receiver, a task and a channel for each subscription, and the broadcast channel waits for none of
its receivers.  So what the other clients do can be left out of a run, with everything that becomes
of their sessions, and a client gets what it has got.

A client owns the sessions that it is given.  `Net.Alike` compares a network with one in which there
is no other client: what the client sees of them is the same.  Steps that regard the client can be
followed there (`kept`), and others are not noticed (`other`), as long as no session is given to two
clients.
-/

set_option autoImplicit false

open RethRex (Codec Session)

namespace RexCons

variable {ι N D : Type} {codec : Codec N D} {own : ℕ → Bool} {c : ι}

/-! ## Sessions -/

/-- The client's own sessions are the same, and there are as many of the others. -/
structure Alike (own : ℕ → Bool) (sessions sessions' : List (Session N D)) : Prop where
  length : sessions'.length = sessions.length
  same : ∀ i, own i = true → sessions'[i]? = sessions[i]?

namespace Alike

variable {sessions sessions' : List (Session N D)}

theorem set (h : Alike own sessions sessions') (i : ℕ) (s : Session N D) :
    Alike own (sessions.set i s) (sessions'.set i s) where
  length := by rw [List.length_set, List.length_set, h.length]
  same j hj := by rw [List.getElem?_set, List.getElem?_set, h.length, h.same j hj]

theorem set_other (h : Alike own sessions sessions') {i : ℕ} (hi : own i = false)
    (s : Session N D) : Alike own (sessions.set i s) sessions' where
  length := by rw [List.length_set, h.length]
  same j hj := by
    have hne : i ≠ j := fun heq ↦ by simp [← heq, hi] at hj
    rw [List.getElem?_set_ne hne, h.same j hj]

theorem concat (h : Alike own sessions sessions') (s : Session N D) :
    Alike own (sessions ++ [s]) (sessions' ++ [s]) where
  length := by rw [List.length_append, List.length_append, h.length]
  same j hj := by rw [List.getElem?_append, List.getElem?_append, h.length, h.same j hj]

end Alike

/-- A thread sees only the sessions that it reads or is given. -/
theorem Thread.exists_step_alike {sessions sessions' r : List (Session N D)} {t : Thread N}
    {t' : Option (Thread N)} {e : ThreadEvent} (h : Alike own sessions sessions')
    (hreads : ∀ i, t.stream.stream = some i → own i = true)
    (hconnects : ∀ i, e = .connected i → own i = true)
    (hstep : t.step codec sessions e = some (t', r)) :
    ∃ r', t.step codec sessions' e = some (t', r') ∧ Alike own r r' := by
  cases e with
  | refused | failed | handOver =>
    obtain ⟨result, hresult, heq⟩ := Option.map_eq_some_iff.mp hstep
    cases heq
    exact ⟨sessions', Option.map_eq_some_iff.mpr ⟨_, hresult, rfl⟩, h⟩
  | connected i =>
    obtain ⟨s, hs, hrest⟩ := Option.bind_eq_some_iff.mp hstep
    have hs' := (h.same i (hconnects i rfl)).trans hs
    by_cases hclaimed : s.claimed = true
    · simp [hclaimed] at hrest
    · rw [if_neg hclaimed] at hrest
      obtain ⟨result, hresult, heq⟩ := Option.map_eq_some_iff.mp hrest
      cases heq
      refine ⟨_, ?_, h.set i { s with claimed := true }⟩
      simp [step, hs', hclaimed, hresult]
  | message =>
    obtain ⟨i, hi, hrest⟩ := Option.bind_eq_some_iff.mp hstep
    obtain ⟨s, hs, hrest⟩ := Option.bind_eq_some_iff.mp hrest
    have hs' := (h.same i (hreads i hi)).trans hs
    rcases hwire : s.wire with _ | ⟨data, rest⟩
    · simp [hwire] at hrest
    · simp only [hwire] at hrest
      obtain ⟨result, hresult, heq⟩ := Option.map_eq_some_iff.mp hrest
      cases heq
      refine ⟨_, ?_, h.set i (s.deliver data rest result.2.notification)⟩
      simp [step, hi, hs', hwire, hresult]
  | closed =>
    obtain ⟨i, hi, hrest⟩ := Option.bind_eq_some_iff.mp hstep
    obtain ⟨s, hs, hrest⟩ := Option.bind_eq_some_iff.mp hrest
    have hs' := (h.same i (hreads i hi)).trans hs
    by_cases hclosed : s.finished = true ∧ s.wire.isEmpty = true
    · rw [if_pos hclosed] at hrest
      obtain ⟨result, hresult, heq⟩ := Option.map_eq_some_iff.mp hrest
      cases heq
      refine ⟨sessions', ?_, h⟩
      simp only [step, hi, hs', Option.bind_some, if_pos hclosed, hresult, Option.map_some]
    · rw [if_neg hclosed] at hrest
      simp at hrest
  | take =>
    rcases hqueue : t.queue with _ | ⟨n, rest⟩
    · simp [step, hqueue] at hstep
    · simp only [step, hqueue, Option.some.injEq, Prod.mk.injEq] at hstep ⊢
      obtain ⟨rfl, rfl⟩ := hstep
      exact ⟨sessions', ⟨rfl, rfl⟩, h⟩
  | unsubscribe =>
    by_cases hsubscribed : t.subscribed = true
    · simp only [step, hsubscribed, if_true, Option.some.injEq, Prod.mk.injEq] at hstep ⊢
      obtain ⟨rfl, rfl⟩ := hstep
      exact ⟨sessions', ⟨rfl, rfl⟩, h⟩
    · simp [step, hsubscribed] at hstep

/-! ## The network -/

variable [DecidableEq ι]

/-- The event regards the client: it is one of its thread or of its own sessions, or of none. -/
def Event.regards (c : ι) (own : ℕ → Bool) : Event ι N → Bool
  | .broadcast _ => true
  | .accept => true
  | .session i _ => own i
  | .spawn c' => decide (c' = c)
  | .thread c' _ => decide (c' = c)

/-- The sessions that the client is given are its own, and the others are not. -/
def Event.Gives (c : ι) (own : ℕ → Bool) (e : Event ι N) : Prop :=
  ∀ c' i, e = .thread c' (.connected i) → (own i = true ↔ c' = c)

/-- The client sees the same of both, and there is no other client in `net'`. -/
structure Net.Alike (own : ℕ → Bool) (c : ι) (net net' : Net ι N D) : Prop where
  sent : net'.sent = net.sent
  sessions : RexCons.Alike own net.sessions net'.sessions
  thread : net'.threads c = net.threads c
  mine : ∀ i, net.Reads c i → own i = true
  others : ∀ c' ≠ c, ∀ i, net.Reads c' i → own i = false
  alone : ∀ c' ≠ c, net'.threads c' = none

namespace Net.Alike

variable {net net' net₁ : Net ι N D} {e : Event ι N}

omit [DecidableEq ι] in
theorem empty (own : ℕ → Bool) (c : ι) : Net.Alike own c ({} : Net ι N D) {} where
  sent := rfl
  sessions := ⟨rfl, fun _ _ ↦ rfl⟩
  thread := rfl
  mine _ h := by obtain ⟨t, ht, -⟩ := h; simp at ht
  others _ _ _ h := by obtain ⟨t, ht, -⟩ := h; simp at ht
  alone _ _ := rfl

/-- Who reads which session. -/
theorem readers (h : net.Alike own c net') (hgives : e.Gives c own)
    (hstep : net.step codec e = some net₁) :
    (∀ i, net₁.Reads c i → own i = true) ∧ ∀ c' ≠ c, ∀ i, net₁.Reads c' i → own i = false := by
  constructor
  · intro i hreads
    rcases Net.reads_of_step hstep hreads with hreads | ⟨-, -, -, he, -⟩
    · exact h.mine i hreads
    · exact (hgives c i he).mpr rfl
  · intro c' hc i hreads
    rcases Net.reads_of_step hstep hreads with hreads | ⟨-, -, -, he, -⟩
    · exact h.others c' hc i hreads
    · exact eq_false_of_ne_true fun hown ↦ hc ((hgives c' i he).mp hown)

/-- **A step that regards the client** can be made without the others. -/
theorem kept (h : net.Alike own c net') (hregards : e.regards c own = true)
    (hgives : e.Gives c own) (hstep : net.step codec e = some net₁) :
    ∃ net₁', net'.step codec e = some net₁' ∧ net₁.Alike own c net₁' := by
  obtain ⟨hmine, hothers⟩ := h.readers hgives hstep
  cases e with
  | broadcast n =>
    cases hstep
    exact ⟨_, rfl, { h with sent := by rw [h.sent] }⟩
  | accept =>
    cases hstep
    exact ⟨_, rfl, { h with sessions := h.sent ▸ h.sessions.concat _ }⟩
  | session i e =>
    obtain ⟨s, hs, hrest⟩ := Option.bind_eq_some_iff.mp hstep
    obtain ⟨s', hs', rfl⟩ := Option.map_eq_some_iff.mp hrest
    refine ⟨{ net' with sessions := net'.sessions.set i s' }, ?_,
      { h with sessions := h.sessions.set i s', mine := hmine, others := hothers }⟩
    simp [Net.step, h.sessions.same i hregards, hs, h.sent, hs']
  | spawn c' =>
    obtain rfl : c' = c := of_decide_eq_true hregards
    have hnone : net.threads c' = none := by
      by_contra hsome
      simp [Net.step, Option.isSome_iff_ne_none.mpr hsome] at hstep
    simp only [Net.step, hnone, Option.isSome_none, Bool.false_eq_true, if_false,
      Option.some.injEq] at hstep
    subst hstep
    refine ⟨{ net' with threads := Function.update net'.threads c' (some {}) }, ?_,
      h.sent, h.sessions, ?_, hmine, hothers, fun c'' hc ↦ ?_⟩
    · simp [Net.step, h.thread, hnone]
    · simp
    · simp [Function.update_of_ne hc, h.alone c'' hc]
  | thread c' e =>
    obtain rfl : c' = c := of_decide_eq_true hregards
    obtain ⟨t, ht, hrest⟩ := Option.bind_eq_some_iff.mp hstep
    obtain ⟨⟨t', r⟩, hthread, rfl⟩ := Option.map_eq_some_iff.mp hrest
    obtain ⟨r', hthread', halike⟩ := Thread.exists_step_alike h.sessions
      (fun i hi ↦ h.mine i ⟨t, ht, hi⟩) (fun i hi ↦ (hgives c' i (by rw [hi])).mpr rfl) hthread
    refine ⟨{ net' with sessions := r', threads := Function.update net'.threads c' t' }, ?_,
      h.sent, halike, ?_, hmine, hothers, fun c'' hc ↦ ?_⟩
    · simp [Net.step, h.thread, ht, hthread']
    · simp
    · simp [Function.update_of_ne hc, h.alone c'' hc]

/-- **Any other step** is not noticed. -/
theorem other (h : net.Alike own c net') (hregards : e.regards c own = false)
    (hgives : e.Gives c own) (hstep : net.step codec e = some net₁) : net₁.Alike own c net' := by
  obtain ⟨hmine, hothers⟩ := h.readers hgives hstep
  cases Net.transition_of_step hstep with
  | broadcast | accept => simp [Event.regards] at hregards
  | session hs hsession =>
    exact { h with sessions := h.sessions.set_other hregards _, mine := hmine, others := hothers }
  | @spawn c' hnone =>
    have hc : c ≠ c' := fun hc ↦ by simp [Event.regards, hc] at hregards
    exact { h with
      thread := by simp [Function.update_of_ne hc, h.thread]
      mine := hmine
      others := hothers }
  | @thread c' e t t' sessions ht hthread =>
    have hc : c' ≠ c := fun hc ↦ by simp [Event.regards, hc] at hregards
    refine ⟨h.sent, ?_, by simp [Function.update_of_ne hc.symm, h.thread], hmine, hothers, h.alone⟩
    cases Thread.transition_of_step hthread with
    | @connected i s =>
      exact h.sessions.set_other
        (eq_false_of_ne_true fun hown ↦ hc ((hgives c' i rfl).mp hown)) _
    | @message i s _ _ _ hreads => exact h.sessions.set_other (h.others c' hc i ⟨t, ht, hreads⟩) _
    | _ => exact h.sessions

end Net.Alike

/-! ## What is observed -/

structure Watch.Alike (own : ℕ → Bool) (c : ι) (w w' : Watch ι N D) : Prop where
  net : w.net.Alike own c w'.net
  logs : w'.logs c = w.logs c

namespace Watch.Alike

variable {w w' w₁ : Watch ι N D} {e : Event ι N}

theorem kept (h : w.Alike own c w') (hregards : e.regards c own = true) (hgives : e.Gives c own)
    (hstep : w.step codec e = some w₁) :
    ∃ w₁', w'.step codec e = some w₁' ∧ w₁.Alike own c w₁' := by
  obtain ⟨hnet, hlogs⟩ := Watch.exists_net_of_step hstep
  obtain ⟨net', hnet', halike⟩ := h.net.kept hregards hgives hnet
  refine ⟨⟨net', w'.logsAfter net' e⟩, Option.map_eq_some_iff.mpr ⟨net', hnet', rfl⟩, halike, ?_⟩
  show w'.logsAfter net' e c = w₁.logs c
  rw [hlogs]
  by_cases hthread : ∃ ev, e = .thread c ev
  · obtain ⟨ev, rfl⟩ := hthread
    rw [Watch.logsAfter_thread, Watch.logsAfter_thread, h.logs]
    cases ev <;> simp [Log.after, halike.thread, h.net.thread, h.net.sessions.length]
  · push Not at hthread
    rw [Watch.logsAfter_other hthread, Watch.logsAfter_other hthread, h.logs]

theorem other (h : w.Alike own c w') (hregards : e.regards c own = false)
    (hgives : e.Gives c own) (hstep : w.step codec e = some w₁) : w₁.Alike own c w' := by
  obtain ⟨hnet, hlogs⟩ := Watch.exists_net_of_step hstep
  refine ⟨h.net.other hregards hgives hnet, ?_⟩
  rw [hlogs, Watch.logsAfter_other fun ev he ↦ by simp [he, Event.regards] at hregards, h.logs]

end Watch.Alike

/-! ## A session is given once -/

/-- The session was given to a client. -/
def Net.Claimed (net : Net ι N D) (i : ℕ) : Prop :=
  ∃ s, net.sessions[i]? = some s ∧ s.claimed = true

theorem Net.Claimed.step {net net' : Net ι N D} {e : Event ι N} {i : ℕ} (h : net.Claimed i)
    (hstep : net.step codec e = some net') : net'.Claimed i := by
  obtain ⟨s, hs, hclaimed⟩ := h
  obtain ⟨s', hs', hmoves⟩ := Net.exists_moves_of_step hstep hs
  exact ⟨s', hs', hmoves.claims hclaimed⟩

theorem Net.claimed_of_connected {net net' : Net ι N D} {c : ι} {i : ℕ}
    (hstep : net.step codec (.thread c (.connected i)) = some net') :
    ¬ net.Claimed i ∧ net'.Claimed i := by
  cases Net.transition_of_step hstep with
  | thread ht hthread =>
    cases Thread.transition_of_step hthread with
    | connected hs hnot =>
      refine ⟨?_, _, List.getElem?_set_self (List.getElem?_eq_some_iff.mp hs).1, rfl⟩
      rintro ⟨s, hs', hclaimed⟩
      cases hs.symm.trans hs'
      simp [hnot] at hclaimed

/-! ## With the ExEx -/

namespace Delivery

variable [RexSim.Revm] {codec : Codec RexSim.ExExNotification D} {d d' d₁ : Delivery ι D}
  {e : DeliveryEvent ι}

structure Alike (own : ℕ → Bool) (c : ι) (d d' : Delivery ι D) : Prop where
  exex : d'.exex = d.exex
  watch : d.watch.Alike own c d'.watch

/-- What the ExEx does, it does without the clients. -/
theorem Alike.exex_kept (h : d.Alike own c d') {e : RethRex.RemoteEvent}
    (hstep : d.step codec (.exex e) = some d₁) :
    ∃ d₁', d'.step codec (.exex e) = some d₁' ∧ d₁.Alike own c d₁' := by
  obtain ⟨exex, hexex, hrest⟩ := Option.bind_eq_some_iff.mp hstep
  have hexex' : d'.exex.step e = some exex := h.exex ▸ hexex
  rcases hbroadcast : RethRex.RemoteExEx.broadcast e with _ | n
  · simp only [hbroadcast, Option.some.injEq] at hrest
    subst hrest
    exact ⟨⟨exex, d'.watch⟩, by simp [step, hexex', hbroadcast], rfl, h.watch⟩
  · simp only [hbroadcast] at hrest
    obtain ⟨watch, hwatch, rfl⟩ := Option.map_eq_some_iff.mp hrest
    obtain ⟨watch', hwatch', halike⟩ := h.watch.kept rfl (by simp [Event.Gives]) hwatch
    exact ⟨⟨exex, watch'⟩, by simp [step, hexex', hbroadcast, hwatch'], rfl, halike⟩

theorem Alike.net_kept (h : d.Alike own c d') {e : Event ι RexSim.ExExNotification}
    (hregards : e.regards c own = true) (hgives : e.Gives c own)
    (hstep : d.step codec (.net e) = some d₁) :
    ∃ d₁', d'.step codec (.net e) = some d₁' ∧ d₁.Alike own c d₁' := by
  obtain ⟨hexex, hwatch⟩ := net_of_step hstep
  obtain ⟨watch', hwatch', halike⟩ := h.watch.kept hregards hgives hwatch
  refine ⟨⟨d'.exex, watch'⟩, ?_, h.exex.trans hexex.symm, halike⟩
  cases e with
  | broadcast n => simp [step] at hstep
  | accept | session | spawn | thread => simp [step, hwatch']

theorem Alike.other (h : d.Alike own c d') {e : Event ι RexSim.ExExNotification}
    (hregards : e.regards c own = false) (hgives : e.Gives c own)
    (hstep : d.step codec (.net e) = some d₁) : d₁.Alike own c d' := by
  obtain ⟨hexex, hwatch⟩ := net_of_step hstep
  exact ⟨h.exex.trans hexex.symm, h.watch.other hregards hgives hwatch⟩

/-- What was given to a client stays so. -/
theorem claimed_of_step {i : ℕ} (h : d.watch.net.Claimed i) (hstep : d.step codec e = some d₁) :
    d₁.watch.net.Claimed i := by
  cases e with
  | exex e =>
    obtain ⟨exex, hexex, hrest⟩ := Option.bind_eq_some_iff.mp hstep
    split at hrest
    · obtain ⟨watch, hwatch, rfl⟩ := Option.map_eq_some_iff.mp hrest
      exact h.step (Watch.exists_net_of_step hwatch).1
    · cases hrest
      exact h
  | net e => exact h.step (Watch.exists_net_of_step (net_of_step hstep).2).1

end Delivery

end RexCons
