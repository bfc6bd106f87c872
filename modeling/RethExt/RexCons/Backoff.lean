import RethExt.RexCons.NotificationStream
import RethExt.Lib.Lts
import Mathlib.Data.List.Induction
import Mathlib.Algebra.Order.Group.Nat

/-!
# The backoff

The delay after an attempt that fails doubles with each attempt that failed before it, up to 30
seconds.  What counts is which of the earlier ones are forgotten.  `failures` forgets them when a
notification is decoded, which is the rule the design states; `attempts` forgets them when an
attempt succeeds, which is what the client does (`NotificationStream.backoff_eq`).

The two agree as long as no stream is lost before it has delivered anything: `backoffLaw_iff` says
which attempts show the difference.
-/

set_option autoImplicit false

namespace RexCons

variable {σ D N : Type} {deserialize : D → Option N} {es : List (StreamEvent σ D)}
  {s s' : NotificationStream σ}

/-! ## Attempts that failed -/

variable (deserialize) in
/-- The attempts that have failed since the last decoded notification, after one more event. -/
def countFailure (failures : ℕ) : StreamEvent σ D → ℕ
  | .refused => failures + 1
  | .message data => if (deserialize data).isSome then 0 else failures
  | _ => failures

variable (deserialize) in
/-- How many attempts have failed since the last notification that was decoded, or since the
client was created. -/
def failures (es : List (StreamEvent σ D)) : ℕ := es.foldl (countFailure deserialize) 0

/-- The attempts that have failed since the last that succeeded, after one more event. -/
def countAttempt (attempts : ℕ) : StreamEvent σ D → ℕ
  | .refused => attempts + 1
  | .connected _ => 0
  | _ => attempts

/-- How many attempts have failed since the last one that succeeded, or since the client was
created. -/
def attempts (es : List (StreamEvent σ D)) : ℕ := es.foldl countAttempt 0

theorem failures_concat (e : StreamEvent σ D) :
    failures deserialize (es ++ [e]) = countFailure deserialize (failures deserialize es) e := by
  rw [failures, List.foldl_append]
  rfl

theorem attempts_concat (e : StreamEvent σ D) :
    attempts (es ++ [e]) = countAttempt (attempts es) e := by
  rw [attempts, List.foldl_append]
  rfl

/-! ## What the client does -/

namespace NotificationStream

variable (deserialize) in
/-- The client after the events, if it can see them one after the other. -/
def after (es : List (StreamEvent σ D)) : Option (NotificationStream σ) :=
  Lts.replay (advance deserialize) Lts.anyCheck es {}

theorem after_concat_eq_some_iff {e : StreamEvent σ D} :
    after deserialize (es ++ [e]) = some s' ↔
      ∃ s, after deserialize es = some s ∧ s.advance deserialize e = some s' := by
  simp only [after, Lts.replay_concat_eq_some_iff, true_and]

/-- What the client has seen, it has seen one event after the other. -/
theorem exists_after_of_append {fs : List (StreamEvent σ D)}
    (h : after deserialize (es ++ fs) = some s') : ∃ s, after deserialize es = some s := by
  induction fs using List.reverseRecOn generalizing s' with
  | nil => exact ⟨s', by rwa [List.append_nil] at h⟩
  | append_singleton fs e ih =>
    rw [← List.append_assoc, after_concat_eq_some_iff] at h
    obtain ⟨t, ht, -⟩ := h
    exact ih ht

/-- **The delay of the client** counts the attempts since the last that succeeded, and none has
failed since while there is a stream. -/
theorem backoff_eq (h : after deserialize es = some s) :
    s.backoff = min (2 ^ attempts es) 30 ∧ (s.stream.isSome = true → attempts es = 0) := by
  induction es using List.reverseRecOn generalizing s with
  | nil =>
    cases h
    exact ⟨rfl, fun _ ↦ rfl⟩
  | append_singleton es e ih =>
    obtain ⟨t, ht, hs⟩ := after_concat_eq_some_iff.mp h
    obtain ⟨hbackoff, hzero⟩ := ih ht
    rw [attempts_concat]
    obtain ⟨outcome, htransition⟩ := transition_of_advance hs
    cases htransition with
    | refused hstream =>
      refine ⟨?_, fun hsome ↦ ?_⟩
      · simp only [hbackoff, countAttempt, pow_succ, maxBackoff]
        omega
      · simp only [hstream] at hsome
        cases hsome
    | connected => exact ⟨rfl, fun _ ↦ rfl⟩
    | decoded hstream =>
      simp only [countAttempt, hzero hstream]
      exact ⟨rfl, fun _ ↦ trivial⟩
    | undecoded => exact ⟨hbackoff, hzero⟩
    | closed | failed => exact ⟨hbackoff, fun hsome ↦ by cases hsome⟩

end NotificationStream

/-! ## The rule -/

open NotificationStream

variable (deserialize) in
/-- **The rule**: after an attempt that fails the client sleeps `2 ^ k` seconds, and 30 at most,
when `k` attempts have failed since the last decoded notification. -/
def BackoffLaw (es : List (StreamEvent σ D)) : Prop :=
  ∀ before rest, es = before ++ .refused :: rest → ∀ s, after deserialize before = some s →
    (s.step deserialize .refused).map Prod.snd =
      some (.slept (min (2 ^ failures deserialize before) 30))

variable (deserialize) in
/-- An attempt that fails and is the first after one that succeeded, or the first of all, has no
failed attempts before it that count. -/
def ForgetsNone (es : List (StreamEvent σ D)) : Prop :=
  ∀ before rest, es = before ++ .refused :: rest → attempts before = 0 →
    failures deserialize before = 0

theorem ForgetsNone.of_append {fs : List (StreamEvent σ D)}
    (h : ForgetsNone deserialize (es ++ fs)) : ForgetsNone deserialize es := by
  rintro before rest rfl
  exact h before (rest ++ fs) (by rw [List.append_assoc, List.cons_append])

/-- Then the two counts agree at every attempt but the first after one that succeeded. -/
theorem ForgetsNone.attempts_eq (h : ForgetsNone deserialize es)
    (hs : after deserialize es = some s) :
    attempts es = 0 ∨ attempts es = failures deserialize es := by
  induction es using List.reverseRecOn generalizing s with
  | nil => exact Or.inl rfl
  | append_singleton es e ih =>
    obtain ⟨t, ht, hstep⟩ := after_concat_eq_some_iff.mp hs
    have hcount := ih h.of_append ht
    rw [attempts_concat, failures_concat]
    obtain ⟨outcome, htransition⟩ := transition_of_advance hstep
    cases htransition with
    | refused =>
      right
      rcases hcount with hzero | heq
      · rw [countAttempt, countFailure, hzero, h es [] rfl hzero]
      · rw [countAttempt, countFailure, heq]
    | connected => exact Or.inl rfl
    | decoded hstream => exact Or.inl ((backoff_eq ht).2 hstream)
    | undecoded hstream => exact Or.inl ((backoff_eq ht).2 hstream)
    | closed | failed => exact hcount

/-- What the client sleeps after a failed attempt is its backoff. -/
theorem step_refused_iff {k : ℕ} :
    (s.step deserialize .refused).map Prod.snd = some (.slept k) ↔
      s.stream = none ∧ s.backoff = k := by
  rw [step.eq_def]
  cases s.stream <;> simp

/-- **When the rule holds.** -/
theorem backoffLaw_iff (h : after deserialize es = some s) :
    BackoffLaw deserialize es ↔ ForgetsNone deserialize es := by
  constructor
  · rintro hlaw before rest rfl hzero
    obtain ⟨t, ht⟩ := exists_after_of_append h
    have hdelay := (step_refused_iff.mp (hlaw before rest rfl t ht)).2
    rw [(backoff_eq ht).1, hzero] at hdelay
    -- one second is the delay after no failed attempt only
    by_contra hne
    have hpow : 2 ^ 1 ≤ 2 ^ failures deserialize before :=
      Nat.pow_le_pow_right (by decide) (Nat.pos_of_ne_zero hne)
    omega
  · rintro hforgets before rest rfl t ht
    have hseen : after deserialize ((before ++ [.refused]) ++ rest) = some s := by
      rwa [List.append_assoc]
    obtain ⟨t', ht'⟩ := exists_after_of_append hseen
    have hstream : t.stream = none := by
      obtain ⟨u, hu, hstep⟩ := after_concat_eq_some_iff.mp ht'
      rw [ht] at hu
      cases hu
      obtain ⟨outcome, htransition⟩ := transition_of_advance hstep
      cases htransition with
      | refused hstream => exact hstream
    refine step_refused_iff.mpr ⟨hstream, ?_⟩
    have hbefore : ForgetsNone deserialize before := hforgets.of_append
    rw [(backoff_eq ht).1]
    rcases hbefore.attempts_eq ht with hzero | heq
    · rw [hzero, hforgets before rest rfl hzero]
    · rw [heq]

namespace Dropped

/-- Every message but `0` decodes. -/
def decode (data : ℕ) : Option ℕ := if data = 0 then none else some data

/-- Two attempts fail, a notification arrives, the stream ends and one more attempt fails. -/
def delivering : List (StreamEvent Unit ℕ) :=
  [.refused, .refused, .connected (), .message 7, .closed, .refused]

/-- Two attempts fail, the server accepts the third and drops it, and one more attempt fails. -/
def dropping : List (StreamEvent Unit ℕ) :=
  [.refused, .refused, .connected (), .closed, .refused]

def isRefused : StreamEvent Unit ℕ → Bool
  | .refused => true
  | _ => false

theorem forgetsNone_of_check {es : List (StreamEvent Unit ℕ)}
    (h : ∀ i < es.length, es[i]?.any isRefused = true → attempts (es.take i) = 0 →
      failures decode (es.take i) = 0) : ForgetsNone decode es := by
  rintro before rest rfl hzero
  have hi := h before.length (by simp) (by simp [isRefused])
  rw [List.take_left] at hi
  exact hi hzero

theorem isSome_after_delivering : (after decode delivering).isSome = true := by decide

theorem isSome_after_dropped : (after decode (dropping.take 4)).isSome = true := by decide

end Dropped

open Dropped in
/-- The rule, when a notification arrives before the stream ends. -/
theorem backoffLaw_iff_delivering : BackoffLaw decode delivering :=
  (backoffLaw_iff (Option.some_get isSome_after_delivering).symm).mpr
    (forgetsNone_of_check (by decide))

open Dropped in
/-- **A server that accepts and drops** brings the delay back to one second: the third attempt that
fails since the client was created is followed by a delay of one second, not of four. -/
theorem not_backoffLaw_dropping :
    (after decode dropping).isSome = true ∧ ¬ BackoffLaw decode dropping := by
  refine ⟨by decide, fun hlaw ↦ ?_⟩
  have hdelay := hlaw (dropping.take 4) [] rfl _ (Option.some_get isSome_after_dropped).symm
  revert hdelay
  decide

end RexCons
