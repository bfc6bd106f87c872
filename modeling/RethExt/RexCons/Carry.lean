import RethExt.RexCons.Wire

/-!
# From the broadcast channel to the subscriber

What `NoHole` and `Delivery` say of a client is about what it gets, if it gets anything.  Here is
the way a notification takes when everyone on it does what there is to do: the task receives it and
sends it to its channel, the server moves it to the connection, the thread reads it in `next` and
hands it over to the subscriber (`Net.Waits.exists_carry`).
-/

set_option autoImplicit false

open RethRex (Codec Session)

namespace RexCons

variable {ι N D : Type} [DecidableEq ι] {codec : Codec N D} {c : ι}

/-- The event carries something to the client `c`, or makes way for it. -/
def Event.Carries (c : ι) : Event ι N → Prop
  | .session _ _ => True
  | .thread c' .message => c' = c
  | .thread c' .failed => c' = c
  | .thread c' .handOver => c' = c
  | _ => False

/-- The thread of the client, which has returned nothing that its subscriber has not taken. -/
structure Thread.Idle (t : Thread N) : Prop where
  subscribed : t.subscribed = true
  holding : t.holding = none
  queue : t.queue = []

namespace Net

variable {net : Net ι N D} {t : Thread N} {i : ℕ} {r r' : Session N D}

abbrev Carry (codec : Codec N D) (c : ι) : Net ι N D → Net ι N D → Prop :=
  Lts.Run (Lts.Executes (Net.step codec)) fun _ e ↦ e.Carries c

def setSession (net : Net ι N D) (i : ℕ) (r : Session N D) : Net ι N D :=
  { net with sessions := net.sessions.set i r }

omit [DecidableEq ι] in
@[simp] theorem setSession_setSession (net : Net ι N D) (i : ℕ) (r r' : Session N D) :
    (net.setSession i r).setSession i r' = net.setSession i r' := by
  simp [setSession]

omit [DecidableEq ι] in
theorem getElem?_setSession (hr : net.sessions[i]? = some r) (r' : Session N D) :
    (net.setSession i r').sessions[i]? = some r' :=
  List.getElem?_set_self (List.getElem?_eq_some_iff.mp hr).1

/-- A step of the session. -/
theorem carry_session {e : RethRex.SessionEvent} (hr : net.sessions[i]? = some r)
    (hstep : r.step codec net.sent e = some r') : net.Carry codec c (net.setSession i r') :=
  Lts.Run.one (e := .session i e) (by simp [Lts.Executes, step, hr, hstep, setSession]) trivial

/-- A step of the client's thread. -/
theorem carry_thread {e : ThreadEvent} {t' : Thread N} {sessions : List (Session N D)}
    (ht : net.threads c = some t) (hstep : t.step codec net.sessions e = some (some t', sessions))
    (hcarries : Event.Carries c (.thread c e : Event ι N)) :
    net.Carry codec c
      { net with sessions := sessions, threads := Function.update net.threads c (some t') } :=
  Lts.Run.one (e := .thread c e) (by simp [Lts.Executes, step, ht, hstep]) hcarries

/-- The thread of the client reads a session in which nothing is under way. -/
structure Waits (net : Net ι N D) (c : ι) (t : Thread N) (i : ℕ) (r : Session N D) : Prop where
  thread : net.threads c = some t
  idle : t.Idle
  stream : t.stream.stream = some i
  session : net.sessions[i]? = some r
  task : r.task = .recv
  channel : r.channel = []
  wire : r.wire = []
  receiving : r.receiving = true

/-- **A notification is carried** from the broadcast channel of a session to the subscriber. -/
theorem Waits.exists_carry {n : N} (h : net.Waits c t i r)
    (hrecv : Broadcast.recv RethRex.broadcastCapacity net.sent r.cursor = .value n)
    (hdecodes : codec.Decodes n = true) :
    ∃ net' t', net.Carry codec c net' ∧ net'.threads c = some t' ∧ t'.subscribed = true ∧
      t'.holding = none ∧ t'.queue = [n] := by
  obtain ⟨ht, hidle, hstream, hr, htask, hchannel, hwire, hreceiving⟩ := h
  have hdata : codec.deserialize (codec.serialize n) = some n := by
    obtain ⟨m, hm⟩ := Option.isSome_iff_exists.mp hdecodes
    rw [hm, codec.eq_of_deserialize hm]
  -- the task receives it and sends it to its channel, and the server to the client
  let received : Session N D :=
    { r with
      cursor := r.cursor + 1, taken := r.taken ++ [n], task := .send (codec.serialize n) }
  let sent : Session N D := { received with channel := [codec.serialize n], task := .recv }
  let forwarded : Session N D := { sent with channel := [], wire := [codec.serialize n] }
  have hreceived : net.Carry codec c (net.setSession i received) :=
    carry_session (e := .recv) hr (by simp [Session.step, htask, hrecv, received])
  have hsent : (net.setSession i received).Carry codec c (net.setSession i sent) := by
    rw [← setSession_setSession net i received sent]
    refine carry_session (e := .send) (getElem?_setSession hr received) ?_
    simp [Session.step, received, sent, hreceiving, hchannel, RethRex.channelCapacity]
  have hforwarded : (net.setSession i sent).Carry codec c (net.setSession i forwarded) := by
    rw [← setSession_setSession net i sent forwarded]
    refine carry_session (e := .forward) (getElem?_setSession hr sent) ?_
    simp [Session.step, received, sent, forwarded, hreceiving, hwire]
  -- the thread reads it and hands it over
  let reading : Thread N :=
    { t with stream := { t.stream with backoff := initialBackoff }, holding := some n }
  let queued : Thread N := { reading with holding := none, queue := [n] }
  let sessions := (net.setSession i forwarded).sessions.set i
    (forwarded.deliver (codec.serialize n) [] (some n))
  let read : Net ι N D :=
    { sent := net.sent, sessions := sessions,
      threads := Function.update net.threads c (some reading) }
  have hread : (net.setSession i forwarded).Carry codec c read := by
    refine carry_thread (e := .message) ht ?_ rfl
    simp only [Thread.step, hstream, Option.bind_some, getElem?_setSession hr]
    simp [forwarded, Thread.next, hidle.holding, NotificationStream.step, hstream, hdata, reading,
      Outcome.notification, sessions]
  have hqueued : read.Carry codec c
      { read with threads := Function.update read.threads c (some queued) } := by
    refine carry_thread (e := .handOver) (Function.update_self _ _ _) ?_ rfl
    simp [Thread.step, Thread.handOver, reading, queued, hidle.subscribed, hidle.queue,
      subscriberCapacity]
  exact ⟨_, queued, (((hreceived.trans hsent).trans hforwarded).trans hread).trans hqueued,
    Function.update_self _ _ _, hidle.subscribed, rfl, rfl⟩

end Net

end RexCons
