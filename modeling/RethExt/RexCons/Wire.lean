import RethExt.RexCons.NotificationStream
import RethExt.RethRex.Subscribe
import RethExt.Lib.Lts
import Mathlib.Logic.Function.Basic

/-!
# The wire

The server with everyone who subscribes to it: the values that the ExEx has broadcast, the sessions
that `subscribe` has started on the server, and the threads that `subscribe` of `rex-cons` has
spawned on the clients.  A thread calls `next` on its `NotificationStream` and hands each
notification over to a channel of 64 places that the subscriber reads.

A thread reads the session whose index its stream holds, and `try_connect` gives it one that no
other thread has been given.  `Net.step` is one step of any of the parties, in any order.
-/

set_option autoImplicit false

open RethRex (Codec Session SessionEvent)

namespace RexCons

def subscriberCapacity : ℕ := 64

/-! ## The thread of a client -/

/-- The thread that `subscribe` spawns, and its channel. -/
structure Thread (N : Type) where
  stream : NotificationStream ℕ := {}
  /-- The notification that `next` has returned and the channel has no place for yet. -/
  holding : Option N := none
  queue : List N := []
  /-- The subscriber's side of the channel is not dropped. -/
  subscribed : Bool := true

inductive ThreadEvent
  /-- `try_connect` fails. -/
  | refused
  /-- `try_connect` returns the stream of the session. -/
  | connected (i : ℕ)
  /-- `message` returns a message. -/
  | message
  /-- `message` returns `Ok(None)`. -/
  | closed
  /-- `message` returns an error. -/
  | failed
  /-- The thread's `send` returns. -/
  | handOver
  /-- The subscriber takes a notification. -/
  | take
  /-- The subscriber drops its side of the channel. -/
  | unsubscribe
  deriving DecidableEq

namespace Thread

variable {N D : Type} {codec : Codec N D} {sessions sessions' : List (Session N D)} {t : Thread N}
  {t' : Option (Thread N)} {e : ThreadEvent} {i : ℕ} {s : Session N D}

/-- The thread is in `next` as long as it holds no notification. -/
def next (deserialize : D → Option N) (t : Thread N) (e : StreamEvent ℕ D) :
    Option (Thread N × Outcome N) :=
  if t.holding.isSome then none
  else (t.stream.step deserialize e).map fun r ↦
    ({ t with stream := r.1, holding := r.2.notification }, r.2)

/-- `send` returns an error when the subscriber is gone, and the thread ends. -/
def handOver (t : Thread N) : Option (Option (Thread N)) :=
  match t.holding with
  | none => none
  | some n =>
    if t.subscribed = false then some none
    else if t.queue.length < subscriberCapacity then
      some (some { t with holding := none, queue := t.queue ++ [n] })
    else none

/-- What is left of the thread, and of the sessions, after the event. -/
def step (codec : Codec N D) (sessions : List (Session N D)) (t : Thread N) :
    ThreadEvent → Option (Option (Thread N) × List (Session N D))
  | .refused => (t.next codec.deserialize .refused).map fun r ↦ (some r.1, sessions)
  | .connected i => (sessions[i]?).bind fun s ↦
    if s.claimed then none
    else (t.next codec.deserialize (.connected i)).map fun r ↦
      (some r.1, sessions.set i { s with claimed := true })
  | .message => t.stream.stream.bind fun i ↦ (sessions[i]?).bind fun s ↦
    match s.wire with
    | [] => none
    | data :: rest => (t.next codec.deserialize (.message data)).map fun r ↦
      (some r.1, sessions.set i (s.deliver data rest r.2.notification))
  | .closed => t.stream.stream.bind fun i ↦ (sessions[i]?).bind fun s ↦
    if s.finished ∧ s.wire.isEmpty then
      (t.next codec.deserialize .closed).map fun r ↦ (some r.1, sessions)
    else none
  | .failed => (t.next codec.deserialize .failed).map fun r ↦ (some r.1, sessions)
  | .handOver => t.handOver.map fun t' ↦ (t', sessions)
  | .take => match t.queue with
    | [] => none
    | _ :: rest => some (some { t with queue := rest }, sessions)
  | .unsubscribe =>
    if t.subscribed then some (some { t with subscribed := false, queue := [] }, sessions) else none

/-- **What each step does.** -/
inductive Transition (codec : Codec N D) (sessions : List (Session N D)) (t : Thread N) :
    ThreadEvent → Option (Thread N) → List (Session N D) → Prop
  | refused {stream : NotificationStream ℕ} (hstream : stream.stream = none) :
      Transition codec sessions t .refused
        (some { t with stream := stream, holding := none }) sessions
  | connected {i : ℕ} {s : Session N D} {stream : NotificationStream ℕ}
      (hs : sessions[i]? = some s) (hclaimed : s.claimed = false)
      (hnone : t.stream.stream = none) (hstream : stream.stream = some i) :
      Transition codec sessions t (.connected i) (some { t with stream := stream, holding := none })
        (sessions.set i { s with claimed := true })
  | message {i : ℕ} {s : Session N D} {data : D} {rest : List D} {stream : NotificationStream ℕ}
      (hreads : t.stream.stream = some i) (hs : sessions[i]? = some s)
      (hwire : s.wire = data :: rest) (hidle : t.holding = none)
      (hstream : stream.stream = some i) :
      Transition codec sessions t .message
        (some { t with stream := stream, holding := codec.deserialize data })
        (sessions.set i (s.deliver data rest (codec.deserialize data)))
  | closed {stream : NotificationStream ℕ} (hstream : stream.stream = none) :
      Transition codec sessions t .closed
        (some { t with stream := stream, holding := none }) sessions
  | failed {stream : NotificationStream ℕ} (hstream : stream.stream = none) :
      Transition codec sessions t .failed
        (some { t with stream := stream, holding := none }) sessions
  | handed {n : N} (hholding : t.holding = some n) :
      Transition codec sessions t .handOver
        (some { t with holding := none, queue := t.queue ++ [n] }) sessions
  | ended : Transition codec sessions t .handOver none sessions
  | took {n : N} {rest : List N} (hqueue : t.queue = n :: rest) :
      Transition codec sessions t .take (some { t with queue := rest }) sessions
  | unsubscribed (hsubscribed : t.subscribed = true) :
      Transition codec sessions t .unsubscribe (some { t with subscribed := false, queue := [] })
        sessions

/-- What a step of `next` has done, and what is made of it. -/
theorem exists_transition_of_map {β : Type} {deserialize : D → Option N} {e : StreamEvent ℕ D}
    {f : Thread N × Outcome N → β} {b : β} (h : (t.next deserialize e).map f = some b) :
    t.holding = none ∧ ∃ stream outcome, t.stream.Transition deserialize e stream outcome ∧
      f ({ t with stream := stream, holding := outcome.notification }, outcome) = b := by
  rw [next] at h
  split at h
  · cases h
  · rename_i hidle
    rw [Option.map_map] at h
    obtain ⟨⟨stream, outcome⟩, hstep, heq⟩ := Option.map_eq_some_iff.mp h
    have htransition := NotificationStream.transition_of_step hstep
    exact ⟨by simpa using hidle, stream, outcome, htransition, heq⟩

theorem transition_of_step (h : t.step codec sessions e = some (t', sessions')) :
    Transition codec sessions t e t' sessions' := by
  cases e with
  | refused =>
    obtain ⟨-, stream, outcome, hnext, heq⟩ := exists_transition_of_map h
    cases heq
    cases hnext with
    | refused hnone => exact .refused hnone
  | connected i =>
    obtain ⟨s, hs, h⟩ := Option.bind_eq_some_iff.mp h
    split at h
    · cases h
    · rename_i hclaimed
      obtain ⟨-, stream, outcome, hnext, heq⟩ := exists_transition_of_map h
      cases heq
      cases hnext with
      | connected hnone => exact .connected hs (eq_false_of_ne_true hclaimed) hnone rfl
  | message =>
    obtain ⟨i, hreads, h⟩ := Option.bind_eq_some_iff.mp h
    obtain ⟨s, hs, h⟩ := Option.bind_eq_some_iff.mp h
    split at h
    · cases h
    · rename_i data rest hwire
      obtain ⟨hidle, stream, outcome, hnext, heq⟩ := exists_transition_of_map h
      cases heq
      cases hnext with
      | @decoded _ n _ hdata =>
        rw [show (Outcome.returned n).notification = codec.deserialize data from hdata.symm]
        exact .message hreads hs hwire hidle hreads
      | undecoded _ hdata =>
        rw [show Outcome.resumed.notification = codec.deserialize data from hdata.symm]
        exact .message hreads hs hwire hidle hreads
  | closed =>
    obtain ⟨i, hreads, h⟩ := Option.bind_eq_some_iff.mp h
    obtain ⟨s, hs, h⟩ := Option.bind_eq_some_iff.mp h
    split at h
    · obtain ⟨-, stream, outcome, hnext, heq⟩ := exists_transition_of_map h
      cases heq
      cases hnext with
      | closed => exact .closed rfl
    · cases h
  | failed =>
    obtain ⟨-, stream, outcome, hnext, heq⟩ := exists_transition_of_map h
    cases heq
    cases hnext with
    | failed => exact .failed rfl
  | handOver =>
    obtain ⟨t', ht, heq⟩ := Option.map_eq_some_iff.mp h
    cases heq
    rw [handOver] at ht
    split at ht
    · cases ht
    · rename_i n hholding
      split at ht
      · cases ht
        exact .ended
      · split at ht <;> cases ht
        exact .handed hholding
  | take =>
    rw [step] at h
    split at h <;> cases h
    exact .took ‹_›
  | unsubscribe =>
    rw [step] at h
    split at h <;> cases h
    exact .unsubscribed ‹_›

/-- How many steps are left before the thread asks for the next message and its queue is empty. -/
def left (t : Thread N) : ℕ :=
  (if t.holding.isSome then 3 else 0) + t.queue.length + if t.subscribed then 1 else 0

end Thread

/-! ## The server and the clients -/

/-- The server and its clients `ι`.  A client whose thread has ended, or that has not subscribed
yet, has none. -/
structure Net (ι N D : Type) where
  /-- What the ExEx has broadcast. -/
  sent : List N := []
  /-- The sessions that have been started. -/
  sessions : List (Session N D) := []
  threads : ι → Option (Thread N) := fun _ ↦ none

inductive Event (ι N : Type)
  /-- The ExEx broadcasts a notification. -/
  | broadcast (n : N)
  /-- The server starts a session. -/
  | accept
  | session (i : ℕ) (e : SessionEvent)
  /-- The client spawns its thread. -/
  | spawn (c : ι)
  | thread (c : ι) (e : ThreadEvent)

namespace Net

variable {ι N D : Type} [DecidableEq ι] {codec : Codec N D} {net net' : Net ι N D} {e : Event ι N}
  {i : ℕ} {c : ι}

def step (codec : Codec N D) (net : Net ι N D) : Event ι N → Option (Net ι N D)
  | .broadcast n => some { net with sent := net.sent ++ [n] }
  | .accept => some { net with sessions := net.sessions ++ [Session.new N D net.sent.length] }
  | .session i e => (net.sessions[i]?).bind fun s ↦ (s.step codec net.sent e).map fun s' ↦
    { net with sessions := net.sessions.set i s' }
  | .spawn c =>
    if (net.threads c).isSome then none
    else some { net with threads := Function.update net.threads c (some {}) }
  | .thread c e => (net.threads c).bind fun t ↦ (t.step codec net.sessions e).map fun r ↦
    { net with sessions := r.2, threads := Function.update net.threads c r.1 }

/-- **What each step does.** -/
inductive Transition (codec : Codec N D) (net : Net ι N D) : Event ι N → Net ι N D → Prop
  | broadcast (n : N) : Transition codec net (.broadcast n) { net with sent := net.sent ++ [n] }
  | accept : Transition codec net .accept
      { net with sessions := net.sessions ++ [Session.new N D net.sent.length] }
  | session {i : ℕ} {e : SessionEvent} {s s' : Session N D} (hs : net.sessions[i]? = some s)
      (hstep : s.step codec net.sent e = some s') :
      Transition codec net (.session i e) { net with sessions := net.sessions.set i s' }
  | spawn {c : ι} (hnone : net.threads c = none) :
      Transition codec net (.spawn c)
        { net with threads := Function.update net.threads c (some {}) }
  | thread {c : ι} {e : ThreadEvent} {t : Thread N} {t' : Option (Thread N)}
      {sessions : List (Session N D)} (ht : net.threads c = some t)
      (hstep : t.step codec net.sessions e = some (t', sessions)) :
      Transition codec net (.thread c e)
        { net with sessions := sessions, threads := Function.update net.threads c t' }

theorem transition_of_step (h : net.step codec e = some net') : Transition codec net e net' := by
  cases e with
  | broadcast n =>
    cases h
    exact .broadcast n
  | accept =>
    cases h
    exact .accept
  | session i e =>
    obtain ⟨s, hs, h⟩ := Option.bind_eq_some_iff.mp h
    obtain ⟨s', hstep, rfl⟩ := Option.map_eq_some_iff.mp h
    exact .session hs hstep
  | spawn c =>
    rw [step] at h
    split at h <;> cases h
    rename_i hnone
    exact .spawn (Option.not_isSome_iff_eq_none.mp hnone)
  | thread c e =>
    obtain ⟨t, ht, h⟩ := Option.bind_eq_some_iff.mp h
    obtain ⟨r, hstep, rfl⟩ := Option.map_eq_some_iff.mp h
    exact .thread ht hstep

/-- What was broadcast stays so. -/
theorem sent_of_step (h : net.step codec e = some net') : net.sent <+: net'.sent := by
  cases transition_of_step h with
  | broadcast n => exact List.prefix_append net.sent [n]
  | _ => exact List.prefix_rfl

/-! ## The sessions -/

/-- What a step makes of a session. -/
inductive Moves (codec : Codec N D) (sent : List N) (s : Session N D) : Session N D → Prop
  | same : Moves codec sent s s
  | stepped {e : SessionEvent} {s' : Session N D} (hstep : s.step codec sent e = some s') :
      Moves codec sent s s'
  | claimed : Moves codec sent s { s with claimed := true }
  | read {data : D} {rest : List D} (hwire : s.wire = data :: rest) :
      Moves codec sent s (s.deliver data rest (codec.deserialize data))

/-- A session that is replaced moves, if its new value is one it moves to; the others stay. -/
theorem moves_of_set {sessions : List (Session N D)} {sent : List N} {j : ℕ}
    {s s' r : Session N D} (hs : sessions[j]? = some s) (hmoves : Moves codec sent s s')
    (hr : (sessions.set j s')[i]? = some r) :
    ∃ s, sessions[i]? = some s ∧ Moves codec sent s r := by
  rw [List.getElem?_set] at hr
  split at hr
  · rename_i heq
    subst heq
    split at hr <;> cases hr
    exact ⟨s, hs, hmoves⟩
  · exact ⟨r, hr, .same⟩

/-- A step of a thread moves the sessions. -/
theorem moves_of_thread {sessions sessions' : List (Session N D)} {sent : List N} {t : Thread N}
    {t' : Option (Thread N)} {e : ThreadEvent} {r : Session N D}
    (h : t.step codec sessions e = some (t', sessions')) (hr : sessions'[i]? = some r) :
    ∃ s, sessions[i]? = some s ∧ Moves codec sent s r := by
  cases Thread.transition_of_step h with
  | connected hs => exact moves_of_set hs .claimed hr
  | message _ hs hwire => exact moves_of_set hs (.read hwire) hr
  | _ => exact ⟨r, hr, .same⟩

/-- **What a step does to the sessions**: it moves them, and at most starts a new one. -/
theorem moves_of_step (h : net.step codec e = some net') {r : Session N D}
    (hr : net'.sessions[i]? = some r) :
    (∃ s, net.sessions[i]? = some s ∧ Moves codec net.sent s r) ∨
      i = net.sessions.length ∧ net'.sent = net.sent ∧ r = Session.new N D net.sent.length := by
  cases transition_of_step h with
  | broadcast n => exact Or.inl ⟨r, hr, .same⟩
  | accept =>
    rw [List.getElem?_append] at hr
    split at hr
    · exact Or.inl ⟨r, hr, .same⟩
    · have hlength : i - net.sessions.length = 0 := by
        simpa using (List.getElem?_eq_some_iff.mp hr).1
      rw [hlength] at hr
      cases hr
      exact Or.inr ⟨by omega, rfl, rfl⟩
  | session hs hstep => exact Or.inl (moves_of_set hs (.stepped hstep) hr)
  | spawn hnone => exact Or.inl ⟨r, hr, .same⟩
  | thread ht hstep => exact Or.inl (moves_of_thread hstep hr)

theorem length_le_of_step (h : net.step codec e = some net') :
    net.sessions.length ≤ net'.sessions.length := by
  cases transition_of_step h with
  | broadcast | spawn => exact le_refl _
  | accept => exact List.length_append ▸ Nat.le_add_right _ _
  | session => exact List.length_set.ge
  | thread ht hstep =>
    cases Thread.transition_of_step hstep with
    | connected | message => exact List.length_set.ge
    | _ => exact le_refl _

/-- **A session moves** with every step. -/
theorem exists_moves_of_step (h : net.step codec e = some net') {s : Session N D}
    (hs : net.sessions[i]? = some s) :
    ∃ s', net'.sessions[i]? = some s' ∧ Moves codec net.sent s s' := by
  have hlt : i < net.sessions.length := (List.getElem?_eq_some_iff.mp hs).1
  have hr := List.getElem?_eq_getElem (hlt.trans_le (length_le_of_step h))
  refine ⟨_, hr, ?_⟩
  rcases moves_of_step h hr with ⟨s', hs', hmoves⟩ | ⟨hi, -, -⟩
  · cases hs.symm.trans hs'
    exact hmoves
  · omega

/-- What is claimed stays claimed. -/
theorem Moves.claims {sent : List N} {s s' : Session N D} (h : Moves codec sent s s')
    (hclaimed : s.claimed = true) : s'.claimed = true := by
  cases h with
  | same => exact hclaimed
  | stepped hstep => cases Session.transition_of_step hstep <;> exact hclaimed
  | claimed => rfl
  | read => exact hclaimed

/-! ## The readers -/

/-- The thread of the client reads the session. -/
def Reads (net : Net ι N D) (c : ι) (i : ℕ) : Prop :=
  ∃ t, net.threads c = some t ∧ t.stream.stream = some i

/-- The thread that a client has after one is replaced. -/
theorem thread_of_update {threads : ι → Option (Thread N)} {c' : ι} {t' : Option (Thread N)}
    {t : Thread N} (h : Function.update threads c' t' c = some t) :
    c = c' ∧ t' = some t ∨ c ≠ c' ∧ threads c = some t := by
  by_cases hc : c = c'
  · subst hc
    exact Or.inl ⟨rfl, by rwa [Function.update_self] at h⟩
  · exact Or.inr ⟨hc, by rwa [Function.update_of_ne hc] at h⟩

/-- **Who reads a session** has read it before, or has just been given it. -/
theorem reads_of_step (h : net.step codec e = some net') (hreads : net'.Reads c i) :
    net.Reads c i ∨
      ∃ s, net.sessions[i]? = some s ∧ s.claimed = false ∧ e = .thread c (.connected i) ∧
        net'.sessions[i]? = some { s with claimed := true } := by
  obtain ⟨t, ht, hstream⟩ := hreads
  cases transition_of_step h with
  | broadcast | accept | session => exact Or.inl ⟨t, ht, hstream⟩
  | spawn =>
    rcases thread_of_update ht with ⟨rfl, hnew⟩ | ⟨-, hold⟩
    · cases hnew
      cases hstream
    · exact Or.inl ⟨t, hold, hstream⟩
  | @thread c' e t₀ t' sessions ht₀ hstep =>
    rcases thread_of_update ht with ⟨rfl, rfl⟩ | ⟨-, hold⟩
    · cases Thread.transition_of_step hstep with
      | refused hnone | closed hnone | failed hnone => cases hnone.symm.trans hstream
      | connected hs hclaimed hnone hsome =>
        cases hsome.symm.trans hstream
        refine Or.inr ⟨_, hs, hclaimed, rfl, ?_⟩
        exact List.getElem?_set_self (List.getElem?_eq_some_iff.mp hs).1
      | message hreads hs hwire hidle hsome =>
        exact Or.inl ⟨t₀, ht₀, hreads.trans (hsome.symm.trans hstream)⟩
      | handed | took | unsubscribed => exact Or.inl ⟨t₀, ht₀, hstream⟩
    · exact Or.inl ⟨t, hold, hstream⟩

end Net

end RexCons
