import Mathlib.Data.List.Infix

/-!
# A bounded broadcast channel

A broadcast channel keeps the last `capacity` values that were sent.  Here it is the list of all
that were ever sent, oldest first, and a receiver is its cursor, the number of values that were sent
before the one it receives next.  A receiver that subscribes starts after what was sent before, so a
value that was sent to nobody makes no difference.

`recv` answers with that value, or with none yet, or, if the value is no longer kept, with how many
are missed.  A receiver that has fallen behind stays behind until it receives (`Behind.mono`).  The
values that a receiver got before it fell behind are the first of those that were sent after it
subscribed, with none left out: `prefix_of_recv`.  A receiver that subscribes again gets another
slice of the values, and slices one after the other have no value twice: `flatMap_slice_sublist`.
-/

set_option autoImplicit false

namespace Broadcast

variable {α : Type*} {capacity start cursor missed : ℕ} {sent sent' taken : List α} {a : α}

/-- What a receiver gets. -/
inductive Received (α : Type*)
  | value (a : α)
  /-- Nothing has been sent that was not received: the receiver waits. -/
  | empty
  /-- The next values are no longer kept; the receiver goes on after the ones it has missed. -/
  | lagged (missed : ℕ)

/-- The value at the cursor is no longer kept. -/
abbrev Behind (capacity : ℕ) (sent : List α) (cursor : ℕ) : Prop :=
  cursor + capacity < sent.length

def recv (capacity : ℕ) (sent : List α) (cursor : ℕ) : Received α :=
  if Behind capacity sent cursor then .lagged (sent.length - capacity - cursor)
  else match sent[cursor]? with
    | some a => .value a
    | none => .empty

theorem recv_of_behind (h : Behind capacity sent cursor) :
    recv capacity sent cursor = .lagged (sent.length - capacity - cursor) :=
  if_pos h

theorem getElem?_of_recv (h : recv capacity sent cursor = .value a) : sent[cursor]? = some a := by
  rw [recv] at h
  split at h
  · cases h
  · split at h
    · cases h
      assumption
    · cases h

/-- A receiver that has got everything gets what is sent next. -/
theorem recv_concat (hpos : 0 < capacity) (sent : List α) (a : α) :
    recv capacity (sent ++ [a]) sent.length = .value a := by
  have hnot : ¬ Behind capacity (sent ++ [a]) sent.length := by
    rw [Behind, List.length_append, List.length_singleton]
    omega
  rw [recv, if_neg hnot, List.getElem?_concat_length]

/-- What is sent later does not bring a value back. -/
theorem Behind.mono (h : Behind capacity sent cursor) (hsent : sent <+: sent') :
    Behind capacity sent' cursor :=
  h.trans_le hsent.length_le

/-- What is sent later leaves the values before it in their places. -/
theorem prefix_mono (h : taken <+: sent.drop start) (hsent : sent <+: sent') :
    taken <+: sent'.drop start :=
  h.trans (hsent.drop start)

/-- **No value is left out**: what a receiver has got, with the value that it gets next, is again
the beginning of what was sent after it subscribed. -/
theorem prefix_of_recv (h : taken <+: sent.drop start)
    (hrecv : recv capacity sent (start + taken.length) = .value a) :
    taken ++ [a] <+: sent.drop start := by
  have hnext : (sent.drop start)[taken.length]? = some a :=
    List.getElem?_drop.trans (getElem?_of_recv hrecv)
  obtain ⟨rest, hrest⟩ := h
  rw [← hrest] at hnext ⊢
  rw [List.getElem?_append_right (le_refl _), Nat.sub_self] at hnext
  cases rest with
  | nil => cases hnext
  | cons a' rest =>
    cases hnext
    exact ⟨rest, List.append_assoc taken [a] rest⟩

/-! ## Slices -/

/-- The values of a slice, which is where it starts and how many it has. -/
def slice (sent : List α) (s : ℕ × ℕ) : List α := (sent.drop s.1).take s.2

/-- **Slices one after the other** are a part of what was sent, in its order and with no value
twice. -/
theorem flatMap_slice_sublist {slices : List (ℕ × ℕ)}
    (h : slices.Pairwise fun s t ↦ s.1 + s.2 ≤ t.1) {n : ℕ} (hn : ∀ s ∈ slices, s.1 + s.2 ≤ n) :
    (slices.flatMap (slice sent)).Sublist (sent.take n) := by
  induction slices using List.reverseRecOn generalizing n with
  | nil => exact List.nil_sublist _
  | append_singleton slices last ih =>
    rw [List.pairwise_append] at h
    obtain ⟨hslices, -, hlast⟩ := h
    have hbefore := ih hslices fun s hs ↦ hlast s hs last List.mem_cons_self
    rw [List.flatMap_append, List.flatMap_singleton]
    have hupto : (slices.flatMap (slice sent) ++ slice sent last).Sublist
        (sent.take (last.1 + last.2)) := by
      rw [List.take_add]
      exact hbefore.append_right _
    exact hupto.trans (List.take_prefix_take_left (hn last (by simp))).sublist

end Broadcast
