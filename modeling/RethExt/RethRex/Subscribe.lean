import RethExt.Lib.Broadcast

/-!
# A subscription on the server

`subscribe` makes a receiver of the broadcast channel and a channel of one place for the client, and
spawns a task that reads the one and writes the other.  A `Session` is what one call of it has
started: the receiver, the task and the channel, and the connection that carries the channel to the
client, which keeps the order of the messages, loses none of them while it lasts, and ends after
them when the channel does.

The task ends when the receiver lags, for `recv` returns an error then and the loop goes on only
with a value; when the client's side of the channel is gone; and when it panics or is cancelled.
`Session.step` is what each party does with a session: the task, the server that moves the channel
to the connection, and the client that reads the connection or is told that it has ended.

`Intact` is what all of them keep: what is on its way to the client, with what it has read, are the
values that the task took from the broadcast channel, and these are the first that were sent after
the subscription, with none left out.  `Cut` is the state of a session whose task takes no value any
more, because its receiver is behind or because it has ended; it lasts (`Cut.step`), and each step
of the session comes nearer its end (`left_step`).
-/

set_option autoImplicit false

open Broadcast (Behind recv)

namespace RethRex

def broadcastCapacity : ℕ := 32

def channelCapacity : ℕ := 1

/-- How notifications `N` are written as bytes `D`.  Bytes that are read as a notification are the
one that was written. -/
structure Codec (N D : Type) where
  serialize : N → D
  deserialize : D → Option N
  eq_of_deserialize : ∀ {n m : N}, deserialize (serialize n) = some m → m = n

/-- The notification is read back. -/
def Codec.Decodes {N D : Type} (codec : Codec N D) (n : N) : Bool :=
  (codec.deserialize (codec.serialize n)).isSome

theorem Codec.filterMap_deserialize {N D : Type} (codec : Codec N D) (ns : List N) :
    (ns.map codec.serialize).filterMap codec.deserialize = ns.filter codec.Decodes := by
  rw [List.filterMap_map, ← List.filterMap_eq_filter]
  refine List.filterMap_congr fun n _ ↦ ?_
  rw [Function.comp_apply, Option.guard, Decodes]
  cases h : codec.deserialize (codec.serialize n) with
  | none => rfl
  | some m => rw [codec.eq_of_deserialize h, Option.isSome_some, if_pos rfl]

/-- What the task is doing. -/
inductive Task (D : Type)
  /-- It waits for `recv`. -/
  | recv
  /-- It waits for a place in the channel. -/
  | send (data : D)
  | ended

namespace Task

variable {D : Type}

/-- The message that the task is to send. -/
def inHand : Task D → List D
  | .recv => []
  | .send data => [data]
  | .ended => []

def isEnded : Task D → Bool
  | .recv => false
  | .send _ => false
  | .ended => true

/-- How many steps the task has before it, at a weight of seven for a message. -/
def left : Task D → ℕ
  | .recv => 1
  | .send _ => 7
  | .ended => 0

end Task

structure Session (N D : Type) where
  /-- How many values had been sent when the client subscribed. -/
  start : ℕ
  cursor : ℕ
  task : Task D := .recv
  channel : List D := []
  /-- The client's side of the channel is not dropped. -/
  receiving : Bool := true
  /-- What is on its way to the client. -/
  wire : List D := []
  /-- The client is told that the stream is closed, after what is on its way. -/
  finished : Bool := false
  /-- A client has been given the stream. -/
  claimed : Bool := false
  /-- The values that the task has received. -/
  taken : List N := []
  /-- The messages that the client has read. -/
  seen : List D := []
  /-- The notifications that `next` has returned from this stream. -/
  returned : List N := []

inductive SessionEvent
  /-- The task's `recv` returns. -/
  | recv
  /-- The task's `send` returns. -/
  | send
  /-- The task panics or is cancelled. -/
  | die
  /-- The server takes a message from the channel and sends it to the client. -/
  | forward
  /-- The server finds the channel closed and closes the stream. -/
  | finish
  /-- The connection is lost. -/
  | drop
  deriving DecidableEq

namespace Session

variable {N D : Type} {codec : Codec N D} {sent sent' : List N} {s s' : Session N D}
  {e : SessionEvent}

/-- A new session. -/
def new (N D : Type) (start : ℕ) : Session N D := { start := start, cursor := start }

def step (codec : Codec N D) (sent : List N) (s : Session N D) : SessionEvent → Option (Session N D)
  | .recv => match s.task with
    | .recv => match Broadcast.recv broadcastCapacity sent s.cursor with
      | .value n =>
        some { s with
          cursor := s.cursor + 1, taken := s.taken ++ [n], task := .send (codec.serialize n) }
      | .lagged missed => some { s with cursor := s.cursor + missed, task := .ended }
      | .empty => none
    | _ => none
  | .send => match s.task with
    | .send data =>
      if s.receiving = false then some { s with task := .ended }
      else if s.channel.length < channelCapacity then
        some { s with channel := s.channel ++ [data], task := .recv }
      else none
    | _ => none
  | .die => if s.task.isEnded then none else some { s with task := .ended }
  | .forward => match s.channel with
    | data :: rest =>
      if s.receiving then some { s with channel := rest, wire := s.wire ++ [data] } else none
    | [] => none
  | .finish =>
    if s.receiving ∧ s.task.isEnded ∧ s.channel.isEmpty then
      some { s with receiving := false, finished := true }
    else none
  | .drop => if s.receiving then some { s with receiving := false, channel := [] } else none

/-- The client reads a message, and `next` may return what it says. -/
def deliver (s : Session N D) (data : D) (rest : List D) (notification : Option N) : Session N D :=
  { s with
    wire := rest, seen := s.seen ++ [data], returned := s.returned ++ notification.toList }

/-- **What each step does.** -/
inductive Transition (codec : Codec N D) (sent : List N) (s : Session N D) :
    SessionEvent → Session N D → Prop
  | value {n : N} (htask : s.task = .recv)
      (hrecv : Broadcast.recv broadcastCapacity sent s.cursor = .value n) :
      Transition codec sent s .recv
        { s with
          cursor := s.cursor + 1, taken := s.taken ++ [n], task := .send (codec.serialize n) }
  | lagged {missed : ℕ} (htask : s.task = .recv)
      (hrecv : Broadcast.recv broadcastCapacity sent s.cursor = .lagged missed) :
      Transition codec sent s .recv { s with cursor := s.cursor + missed, task := .ended }
  | sent {data : D} (htask : s.task = .send data) (hreceiving : s.receiving = true) :
      Transition codec sent s .send { s with channel := s.channel ++ [data], task := .recv }
  | refused {data : D} (htask : s.task = .send data) (hreceiving : s.receiving = false) :
      Transition codec sent s .send { s with task := .ended }
  | died (htask : s.task.isEnded = false) : Transition codec sent s .die { s with task := .ended }
  | forwarded {data : D} {rest : List D} (hchannel : s.channel = data :: rest)
      (hreceiving : s.receiving = true) :
      Transition codec sent s .forward { s with channel := rest, wire := s.wire ++ [data] }
  | finished (hreceiving : s.receiving = true) (htask : s.task.isEnded = true)
      (hchannel : s.channel = []) :
      Transition codec sent s .finish { s with receiving := false, finished := true }
  | dropped (hreceiving : s.receiving = true) :
      Transition codec sent s .drop { s with receiving := false, channel := [] }

theorem transition_of_step (h : s.step codec sent e = some s') : Transition codec sent s e s' := by
  cases e with
  | recv =>
    rw [step] at h
    split at h
    · rename_i htask
      split at h <;> cases h
      · exact .value htask ‹_›
      · exact .lagged htask ‹_›
    · cases h
  | send =>
    rw [step] at h
    split at h
    · rename_i data htask
      split at h
      · cases h
        exact .refused htask ‹_›
      · split at h <;> cases h
        exact .sent htask (eq_true_of_ne_false ‹_›)
    · cases h
  | die =>
    rw [step] at h
    split at h <;> cases h
    exact .died (eq_false_of_ne_true ‹_›)
  | forward =>
    rw [step] at h
    split at h
    · split at h <;> cases h
      exact .forwarded ‹_› ‹_›
    · cases h
  | finish =>
    rw [step] at h
    split at h <;> cases h
    rename_i hcond
    exact .finished hcond.1 hcond.2.1 (List.isEmpty_iff.mp hcond.2.2)
  | drop =>
    rw [step] at h
    split at h <;> cases h
    exact .dropped ‹_›

/-! ## What is kept -/

/-- **Nothing is left out on the way.**  What the client has read and what is on its way to it are
the first of the values that the task took, and these are the first of those that were sent after
the subscription.  As long as the task goes on and the channel is not dropped, they are all of
them. -/
structure Intact (codec : Codec N D) (sent : List N) (s : Session N D) : Prop where
  start_le : s.start ≤ sent.length
  taken_prefix : s.taken <+: sent.drop s.start
  cursor_eq : s.task.isEnded = false → s.cursor = s.start + s.taken.length
  wire_prefix : s.seen ++ s.wire <+: s.taken.map codec.serialize
  flow_prefix : s.receiving = true →
    s.seen ++ s.wire ++ s.channel ++ s.task.inHand <+: s.taken.map codec.serialize
  flow_eq : s.receiving = true → s.task.isEnded = false →
    s.seen ++ s.wire ++ s.channel ++ s.task.inHand = s.taken.map codec.serialize
  returned_eq : s.returned = s.seen.filterMap codec.deserialize

namespace Intact

theorem new (sent : List N) : (Session.new N D sent.length).Intact codec sent where
  start_le := le_refl _
  taken_prefix := List.nil_prefix
  cursor_eq _ := rfl
  wire_prefix := List.nil_prefix
  flow_prefix _ := List.nil_prefix
  flow_eq _ _ := rfl
  returned_eq := rfl

theorem mono (h : s.Intact codec sent) (hsent : sent <+: sent') : s.Intact codec sent' :=
  { h with
    start_le := h.start_le.trans hsent.length_le
    taken_prefix := Broadcast.prefix_mono h.taken_prefix hsent }

/-- What the channel held and the task had in hand can be lost, and what is before it stays. -/
theorem wire_of_flow (h : s.Intact codec sent) (hreceiving : s.receiving = true) :
    s.seen ++ s.wire ++ s.channel <+: s.taken.map codec.serialize :=
  (List.prefix_append _ _).trans (h.flow_prefix hreceiving)

/-- The task ends; what it had in hand is lost. -/
theorem taskEnded (h : s.Intact codec sent) (cursor : ℕ) :
    { s with cursor := cursor, task := .ended }.Intact codec sent :=
  { h with
    cursor_eq := fun hlive ↦ by cases hlive
    flow_prefix := fun hreceiving ↦ by
      rw [Task.inHand, List.append_nil]
      exact h.wire_of_flow hreceiving
    flow_eq := fun _ hlive ↦ by cases hlive }

/-- The client's side of the channel is dropped; what the channel held is lost. -/
theorem notReceiving (h : s.Intact codec sent) (channel : List D) (finished : Bool) :
    { s with receiving := false, channel := channel, finished := finished }.Intact codec sent :=
  { h with
    flow_prefix := fun hreceiving ↦ by cases hreceiving
    flow_eq := fun hreceiving ↦ by cases hreceiving }

theorem step (h : s.Intact codec sent) (hstep : s.step codec sent e = some s') :
    s'.Intact codec sent := by
  cases transition_of_step hstep with
  | @value n htask hrecv =>
    have hlive : s.task.isEnded = false := by rw [htask]; rfl
    rw [h.cursor_eq hlive] at hrecv
    have hflow : s.receiving = true →
        s.seen ++ s.wire ++ s.channel ++ [codec.serialize n] =
          (s.taken ++ [n]).map codec.serialize := fun hreceiving ↦ by
      have heq := h.flow_eq hreceiving hlive
      rw [htask, Task.inHand, List.append_nil] at heq
      rw [heq, List.map_append, List.map_singleton]
    exact { h with
      taken_prefix := Broadcast.prefix_of_recv h.taken_prefix hrecv
      cursor_eq := fun _ ↦ by
        rw [h.cursor_eq hlive, List.length_append, List.length_singleton, Nat.add_assoc]
      wire_prefix := h.wire_prefix.trans ((List.prefix_append s.taken [n]).map codec.serialize)
      flow_prefix := fun hreceiving ↦ hflow hreceiving ▸ List.prefix_rfl
      flow_eq := fun hreceiving _ ↦ hflow hreceiving }
  | lagged htask hrecv => exact h.taskEnded _
  | @sent data htask hreceiving =>
    have hlive : s.task.isEnded = false := by rw [htask]; rfl
    have hflow := h.flow_eq hreceiving hlive
    rw [htask, Task.inHand] at hflow
    have hflow' : s.seen ++ s.wire ++ (s.channel ++ [data]) ++ [] =
        s.taken.map codec.serialize := by
      rw [List.append_nil, ← List.append_assoc, hflow]
    exact { h with
      cursor_eq := fun _ ↦ h.cursor_eq hlive
      flow_prefix := fun _ ↦ hflow' ▸ List.prefix_rfl
      flow_eq := fun _ _ ↦ hflow' }
  | refused htask hreceiving => exact h.taskEnded s.cursor
  | died htask => exact h.taskEnded s.cursor
  | @forwarded data rest hchannel hreceiving =>
    have hsame : s.seen ++ (s.wire ++ [data]) ++ rest = s.seen ++ s.wire ++ s.channel := by
      simp only [hchannel, List.append_assoc, List.singleton_append]
    have hwire : s.seen ++ (s.wire ++ [data]) <+: s.seen ++ s.wire ++ s.channel :=
      hsame ▸ List.prefix_append _ rest
    exact { h with
      wire_prefix := hwire.trans (h.wire_of_flow hreceiving)
      flow_prefix := fun _ ↦ hsame ▸ h.flow_prefix hreceiving
      flow_eq := fun _ hlive ↦ hsame ▸ h.flow_eq hreceiving hlive }
  | finished hreceiving htask hchannel => exact h.notReceiving s.channel true
  | dropped hreceiving => exact h.notReceiving [] s.finished

theorem claim (h : s.Intact codec sent) : { s with claimed := true }.Intact codec sent :=
  { h with }

theorem deliver (h : s.Intact codec sent) {data : D} {rest : List D}
    (hwire : s.wire = data :: rest) :
    (s.deliver data rest (codec.deserialize data)).Intact codec sent := by
  have hsame : s.seen ++ [data] ++ rest = s.seen ++ s.wire := by
    rw [hwire, List.append_assoc, List.singleton_append]
  exact { h with
    wire_prefix := hsame ▸ h.wire_prefix
    flow_prefix := fun hreceiving ↦ by
      rw [Session.deliver, hsame]
      exact h.flow_prefix hreceiving
    flow_eq := fun hreceiving hlive ↦ by
      rw [Session.deliver, hsame]
      exact h.flow_eq hreceiving hlive
    returned_eq := by
      rw [Session.deliver, h.returned_eq, List.filterMap_append]
      cases hread : codec.deserialize data <;> simp [hread] }

/-- The values that the task took are the first that were sent. -/
theorem take_taken (h : s.Intact codec sent) {n : ℕ} (hn : n ≤ s.taken.length) :
    s.taken.take n = (sent.drop s.start).take n := by
  rw [List.prefix_iff_eq_take.mp h.taken_prefix, List.take_take, Nat.min_eq_left hn]

/-- **A contiguous run.**  What `next` has returned are the first values that were sent after the
subscription, as many as the client has read, less those that are not read back. -/
theorem returned_run (h : s.Intact codec sent) :
    ∃ n ≤ s.taken.length, s.returned = ((sent.drop s.start).take n).filter codec.Decodes := by
  have hseen : s.seen <+: s.taken.map codec.serialize :=
    (List.prefix_append s.seen s.wire).trans h.wire_prefix
  have hlength : s.seen.length ≤ s.taken.length := by
    simpa using hseen.length_le
  have hread : s.seen = ((sent.drop s.start).take s.seen.length).map codec.serialize := by
    rw [← h.take_taken hlength, List.map_take]
    exact List.prefix_iff_eq_take.mp hseen
  refine ⟨s.seen.length, hlength, h.returned_eq.trans ?_⟩
  exact (congrArg _ hread).trans (codec.filterMap_deserialize _)

end Intact

/-! ## A session that is cut -/

/-- The task takes no value any more. -/
def Cut (sent : List N) (s : Session N D) : Prop :=
  s.task.isEnded = true ∨ Behind broadcastCapacity sent s.cursor

namespace Cut

theorem mono (h : s.Cut sent) (hsent : sent <+: sent') : s.Cut sent' :=
  h.imp_right fun hbehind ↦ hbehind.mono hsent

/-- **A receiver that is behind gets no value**: the next thing it gets ends the task. -/
theorem recv_ne_value (h : s.Cut sent) (htask : s.task = .recv) (n : N) :
    Broadcast.recv broadcastCapacity sent s.cursor ≠ .value n := by
  rcases h with hended | hbehind
  · rw [htask] at hended
    cases hended
  · rw [Broadcast.recv_of_behind hbehind]
    exact fun heq ↦ by cases heq

/-- **A session that is cut stays cut**, and its task takes nothing more. -/
theorem step (h : s.Cut sent) (hstep : s.step codec sent e = some s') :
    s'.Cut sent ∧ s'.taken = s.taken ∧ s'.start = s.start := by
  cases transition_of_step hstep with
  | value htask hrecv => exact absurd hrecv (h.recv_ne_value htask _)
  | lagged htask hrecv => exact ⟨Or.inl rfl, rfl, rfl⟩
  | sent htask hreceiving =>
    refine ⟨h.imp_left fun hended ↦ ?_, rfl, rfl⟩
    rw [htask] at hended
    cases hended
  | refused htask hreceiving => exact ⟨Or.inl rfl, rfl, rfl⟩
  | died htask => exact ⟨Or.inl rfl, rfl, rfl⟩
  | forwarded hchannel hreceiving => exact ⟨h, rfl, rfl⟩
  | finished hreceiving htask hchannel => exact ⟨h, rfl, rfl⟩
  | dropped hreceiving => exact ⟨h, rfl, rfl⟩

end Cut

/-- How many steps are left before the client has read everything and is told of the end. -/
def left (s : Session N D) : ℕ :=
  s.task.left + 5 * s.channel.length + 4 * s.wire.length + if s.receiving then 1 else 0

/-- **Each step** of a session that is cut comes nearer its end. -/
theorem left_step (h : s.Cut sent) (hstep : s.step codec sent e = some s') :
    1 + s'.left ≤ s.left := by
  cases transition_of_step hstep with
  | value htask hrecv => exact absurd hrecv (h.recv_ne_value htask _)
  | lagged htask hrecv =>
    simp only [left, htask, Task.left]
    omega
  | sent htask hreceiving =>
    simp only [left, htask, Task.left, List.length_append, List.length_singleton]
    omega
  | refused htask hreceiving =>
    simp only [left, htask, Task.left]
    omega
  | died htask =>
    simp only [left]
    cases hs : s.task with
    | ended => rw [hs] at htask; cases htask
    | recv => simp only [Task.left]; omega
    | send data => simp only [Task.left]; omega
  | forwarded hchannel hreceiving =>
    simp only [left, hchannel, List.length_append, List.length_cons, List.length_nil]
    omega
  | finished hreceiving htask hchannel =>
    simp only [left, hreceiving, if_true, Bool.false_eq_true, if_false]
    omega
  | dropped hreceiving =>
    simp only [left, hreceiving, if_true, Bool.false_eq_true, if_false, List.length_nil]
    omega

theorem left_deliver {data : D} {rest : List D} (hwire : s.wire = data :: rest)
    (notification : Option N) : 4 + (s.deliver data rest notification).left = s.left := by
  have hdeliver : (s.deliver data rest notification).left =
      s.task.left + 5 * s.channel.length + 4 * rest.length + if s.receiving then 1 else 0 := rfl
  rw [hdeliver, left, hwire, List.length_cons]
  omega

variable (codec) in
/-- **A session that is cut is not stuck**: while the channel is not dropped, the task or the server
has a step to make. -/
theorem exists_step (h : s.Cut sent) (hreceiving : s.receiving = true) :
    ∃ e, e ≠ .die ∧ e ≠ .drop ∧ ∃ s', s.step codec sent e = some s' := by
  cases hchannel : s.channel with
  | cons data rest =>
    refine ⟨.forward, by decide, by decide,
      { s with channel := rest, wire := s.wire ++ [data] }, ?_⟩
    simp only [step, hchannel, hreceiving, if_true]
  | nil =>
    cases htask : s.task with
    | ended =>
      refine ⟨.finish, by decide, by decide, { s with receiving := false, finished := true }, ?_⟩
      simp [step, htask, hchannel, hreceiving, Task.isEnded]
    | send data =>
      refine ⟨.send, by decide, by decide, { s with channel := [data], task := .recv }, ?_⟩
      simp [step, htask, hchannel, hreceiving, channelCapacity]
    | recv =>
      have hbehind : Behind broadcastCapacity sent s.cursor :=
        h.resolve_left (by rw [htask]; exact Bool.false_ne_true)
      obtain ⟨missed, hlagged⟩ : ∃ missed, Broadcast.recv _ sent s.cursor = .lagged missed :=
        ⟨_, Broadcast.recv_of_behind hbehind⟩
      refine ⟨.recv, by decide, by decide,
        { s with cursor := s.cursor + missed, task := .ended }, ?_⟩
      simp only [step, htask, hlagged]

end Session

end RethRex
