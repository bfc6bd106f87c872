import Mathlib.Data.Nat.Notation

/-!
# The reconnecting client

`NotificationStream` keeps the stream it reads, if it has one, and the delay after the next attempt
to connect that fails.  The loops of `next` and of `connect` inside it are one step function here:
a step is what the client does with one event, an attempt to connect that fails or succeeds, or
what `message` returns.  `Outcome` is what the step is for the caller of `next`.

A stream is a `σ`, and what it carries are bytes `D` that `deserialize` makes a notification `N` of,
or refuses.  A delay is a number of seconds.
-/

set_option autoImplicit false

namespace RexCons

def initialBackoff : ℕ := 1

def maxBackoff : ℕ := 30

inductive StreamEvent (σ D : Type)
  /-- `try_connect` fails. -/
  | refused
  /-- `try_connect` returns a stream. -/
  | connected (stream : σ)
  /-- `message` returns a message. -/
  | message (data : D)
  /-- `message` returns `Ok(None)`: the stream is closed by the server. -/
  | closed
  /-- `message` returns an error. -/
  | failed

/-- What a step is for the caller of `next`. -/
inductive Outcome (N : Type)
  | slept (seconds : ℕ)
  | returned (notification : N)
  /-- The loop goes on. -/
  | resumed
  deriving DecidableEq

/-- The notification that `next` returns. -/
def Outcome.notification {N : Type} : Outcome N → Option N
  | .slept _ => none
  | .returned notification => some notification
  | .resumed => none

structure NotificationStream (σ : Type) where
  stream : Option σ := none
  backoff : ℕ := initialBackoff

namespace NotificationStream

variable {σ D N : Type} {deserialize : D → Option N} {s s' : NotificationStream σ}

/-- `next` connects when there is no stream, and reads the stream when there is one. -/
def step (deserialize : D → Option N) (s : NotificationStream σ) (e : StreamEvent σ D) :
    Option (NotificationStream σ × Outcome N) :=
  match s.stream, e with
  | none, .refused =>
    some ({ s with backoff := min (s.backoff * 2) maxBackoff }, .slept s.backoff)
  | none, .connected stream =>
    some ({ stream := some stream, backoff := initialBackoff }, .resumed)
  | some _, .message data => match deserialize data with
    | some notification => some ({ s with backoff := initialBackoff }, .returned notification)
    | none => some (s, .resumed)
  | some _, .closed => some ({ s with stream := none }, .resumed)
  | some _, .failed => some ({ s with stream := none }, .resumed)
  | _, _ => none

/-- What the stream is after the event. -/
def advance (deserialize : D → Option N) (s : NotificationStream σ) (e : StreamEvent σ D) :
    Option (NotificationStream σ) :=
  (s.step deserialize e).map Prod.fst

/-- **What each event does.** -/
inductive Transition (deserialize : D → Option N) (s : NotificationStream σ) :
    StreamEvent σ D → NotificationStream σ → Outcome N → Prop
  | refused (hstream : s.stream = none) :
      Transition deserialize s .refused { s with backoff := min (s.backoff * 2) maxBackoff }
        (.slept s.backoff)
  | connected {stream : σ} (hstream : s.stream = none) :
      Transition deserialize s (.connected stream)
        { stream := some stream, backoff := initialBackoff } .resumed
  | decoded {data : D} {n : N} (hstream : s.stream.isSome = true)
      (hdata : deserialize data = some n) :
      Transition deserialize s (.message data) { s with backoff := initialBackoff } (.returned n)
  | undecoded {data : D} (hstream : s.stream.isSome = true) (hdata : deserialize data = none) :
      Transition deserialize s (.message data) s .resumed
  | closed (hstream : s.stream.isSome = true) :
      Transition deserialize s .closed { s with stream := none } .resumed
  | failed (hstream : s.stream.isSome = true) :
      Transition deserialize s .failed { s with stream := none } .resumed

theorem transition_of_step {e : StreamEvent σ D} {outcome : Outcome N}
    (h : s.step deserialize e = some (s', outcome)) : s.Transition deserialize e s' outcome := by
  rw [step.eq_def] at h
  split at h
  · rename_i hstream; cases h; exact .refused hstream
  · rename_i hstream; cases h; exact .connected hstream
  · rename_i hstream
    split at h
    · rename_i n hdata; cases h; exact .decoded (by rw [hstream]; rfl) hdata
    · rename_i hdata; cases h; exact .undecoded (by rw [hstream]; rfl) hdata
  · rename_i hstream; cases h; exact .closed (by rw [hstream]; rfl)
  · rename_i hstream; cases h; exact .failed (by rw [hstream]; rfl)
  · cases h

theorem transition_of_advance {e : StreamEvent σ D} (h : s.advance deserialize e = some s') :
    ∃ outcome, s.Transition deserialize e s' outcome := by
  obtain ⟨⟨t, outcome⟩, hstep, rfl⟩ := Option.map_eq_some_iff.mp h
  exact ⟨outcome, transition_of_step hstep⟩

end NotificationStream

end RexCons
