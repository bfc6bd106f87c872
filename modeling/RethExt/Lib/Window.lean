import Mathlib.Data.List.DropRight
import Mathlib.Data.List.Nodup

/-!
# Bounded windows

A window of capacity `cap` is a list that is pushed at the back and, when it is full, evicted at
the front.  `Window.pushAll_eq_rtake` is the whole theory: pushing a list into a window that is
within its capacity leaves the last `cap` elements of the two lists together.  What a window
remembers, in which order, and how two windows over lists with a common end compare, are then
facts about `List.rtake`.
-/

set_option autoImplicit false

namespace Window

variable {α : Type*}

/-! ## The end of a list -/

theorem rtake_suffix (n : ℕ) (l : List α) : l.rtake n <:+ l :=
  List.drop_suffix _ _

theorem rtake_of_length_le {n : ℕ} {l : List α} (h : l.length ≤ n) : l.rtake n = l := by
  rw [List.rtake, Nat.sub_eq_zero_of_le h, List.drop_zero]

theorem length_rtake (n : ℕ) (l : List α) : (l.rtake n).length = min n l.length := by
  rw [List.rtake, List.length_drop]
  omega

theorem rtake_append (n : ℕ) (l xs : List α) :
    (l ++ xs).rtake n = l.rtake (n - xs.length) ++ xs.rtake n := by
  rw [List.rtake, List.drop_append, List.rtake, List.rtake, List.length_append]
  have hl : l.drop (l.length + xs.length - n) = l.drop (l.length - (n - xs.length)) := by
    rcases Nat.le_total n xs.length with hn | hn
    · rw [List.drop_of_length_le (by omega), List.drop_of_length_le (by omega)]
    · congr 1; omega
  rw [hl]
  congr 2
  omega

theorem rtake_rtake (m n : ℕ) (l : List α) : (l.rtake n).rtake m = l.rtake (min m n) := by
  rw [List.rtake, length_rtake, List.rtake, List.drop_drop, List.rtake]
  congr 1
  omega

/-- Lists with a common end have the same last elements, as far as the shorter one reaches. -/
theorem rtake_suffix_rtake {l m : List α} (h : l <:+ m) (n : ℕ) : l.rtake n <:+ m.rtake n := by
  obtain ⟨k, rfl⟩ := h
  rw [rtake_append]
  exact List.suffix_append _ _

/-- Filtering does not change the end of a list that it keeps. -/
theorem rtake_filter {p : α → Bool} {n : ℕ} {l : List α} (h : ∀ a ∈ l.rtake n, p a = true) :
    (l.filter p).rtake n = l.rtake n := by
  obtain ⟨k, hk⟩ := rtake_suffix n l
  have hkeep : (l.rtake n).filter p = l.rtake n := List.filter_eq_self.mpr h
  rcases Nat.le_total n l.length with hn | hn
  · calc (l.filter p).rtake n = (k.filter p ++ l.rtake n).rtake n := by
          rw [← hkeep, ← List.filter_append, hk]
      _ = l.rtake n := by
          have hlen : (l.rtake n).length = n := by rw [length_rtake]; omega
          rw [rtake_append, hlen, Nat.sub_self, List.rtake_zero, List.nil_append, rtake_rtake,
            Nat.min_self]
  · rw [rtake_of_length_le hn] at hkeep ⊢
    rw [hkeep, rtake_of_length_le hn]

theorem rtake_map {β : Type*} (f : α → β) (n : ℕ) (l : List α) :
    (l.map f).rtake n = (l.rtake n).map f := by
  rw [List.rtake, List.length_map, ← List.map_drop, List.rtake]

/-! ## Pushing -/

/-- Evict from the front for as long as the window holds `cap` elements or more. -/
def evict (cap : ℕ) : List α → List α
  | [] => []
  | x :: xs => if cap ≤ (x :: xs).length then evict cap xs else x :: xs

/-- Evict, then append at the back. -/
def push (cap : ℕ) (l : List α) (x : α) : List α := evict cap l ++ [x]

/-- Push the elements of `xs` one after the other. -/
def pushAll (cap : ℕ) (l xs : List α) : List α := xs.foldl (push cap) l

theorem evict_eq_rtake {cap : ℕ} (hcap : 0 < cap) (l : List α) :
    evict cap l = l.rtake (cap - 1) := by
  induction l with
  | nil => simp [evict]
  | cons x xs ih =>
    rw [evict]
    split
    · rename_i hle
      rw [ih, ← List.singleton_append, rtake_append]
      rw [List.length_cons] at hle
      rw [show cap - 1 - xs.length = 0 by omega, List.rtake_zero, List.nil_append]
    · rename_i hle
      rw [rtake_of_length_le (by omega)]

theorem push_eq_rtake {cap : ℕ} (hcap : 0 < cap) (l : List α) (x : α) :
    push cap l x = (l ++ [x]).rtake cap := by
  rw [push, evict_eq_rtake hcap, rtake_append, List.length_singleton,
    rtake_of_length_le (l := [x]) hcap]

/-- What falls out of the window before more is appended would have fallen out anyway. -/
theorem rtake_append_rtake (n : ℕ) (l xs : List α) :
    (l.rtake n ++ xs).rtake n = (l ++ xs).rtake n := by
  rw [rtake_append, rtake_rtake, rtake_append, Nat.min_eq_left (Nat.sub_le _ _)]

/-- **Pushing a list** into a window within its capacity keeps the last `cap` elements. -/
theorem pushAll_eq_rtake {cap : ℕ} (hcap : 0 < cap) {l : List α} (hl : l.length ≤ cap)
    (xs : List α) : pushAll cap l xs = (l ++ xs).rtake cap := by
  induction xs generalizing l with
  | nil => rw [pushAll, List.foldl_nil, List.append_nil, rtake_of_length_le hl]
  | cons x xs ih =>
    have hlen : (push cap l x).length ≤ cap := by
      rw [push_eq_rtake hcap, length_rtake]; omega
    calc pushAll cap l (x :: xs) = pushAll cap (push cap l x) xs := rfl
      _ = ((l ++ [x]).rtake cap ++ xs).rtake cap := by rw [ih hlen, push_eq_rtake hcap]
      _ = (l ++ x :: xs).rtake cap := by rw [rtake_append_rtake, List.append_assoc]; rfl

/-- Pushing anything at all brings a window within its capacity. -/
theorem pushAll_eq_rtake_of_ne_nil {cap : ℕ} (hcap : 0 < cap) (l : List α) {xs : List α}
    (hxs : xs ≠ []) : pushAll cap l xs = (l ++ xs).rtake cap := by
  obtain ⟨x, xs, rfl⟩ := List.exists_cons_of_ne_nil hxs
  have hlen : (push cap l x).length ≤ cap := by
    rw [push_eq_rtake hcap, length_rtake]; omega
  calc pushAll cap l (x :: xs) = pushAll cap (push cap l x) xs := rfl
    _ = ((l ++ [x]).rtake cap ++ xs).rtake cap := by
        rw [pushAll_eq_rtake hcap hlen, push_eq_rtake hcap]
    _ = (l ++ x :: xs).rtake cap := by rw [rtake_append_rtake, List.append_assoc]; rfl

/-- Pushing one element is pushing a list of one. -/
theorem push_eq_pushAll (cap : ℕ) (l : List α) (x : α) : push cap l x = pushAll cap l [x] := rfl

theorem pushAll_append (cap : ℕ) (l xs ys : List α) :
    pushAll cap l (xs ++ ys) = pushAll cap (pushAll cap l xs) ys :=
  List.foldl_append

theorem length_pushAll_le {cap : ℕ} (hcap : 0 < cap) {l : List α} (hl : l.length ≤ cap)
    (xs : List α) : (pushAll cap l xs).length ≤ cap := by
  rw [pushAll_eq_rtake hcap hl, length_rtake]
  exact Nat.min_le_left _ _

/-! ## Windows over ascending keys -/

/-- The keys of the list go up, and none is above `top`. -/
structure Ascending (key : α → ℕ) (top : ℕ) (l : List α) : Prop where
  sorted : l.Pairwise fun a b ↦ key a < key b
  le_top : ∀ a ∈ l, key a ≤ top

namespace Ascending

variable {key : α → ℕ} {top top' : ℕ} {l xs : List α}

theorem nil : Ascending key top ([] : List α) := ⟨.nil, by simp⟩

/-- The part of the list up to a cutoff. -/
theorem filter_le (h : Ascending key top l) (cutoff : ℕ) :
    Ascending key cutoff (l.filter fun a ↦ key a ≤ cutoff) :=
  ⟨h.sorted.sublist List.filter_sublist, fun a ha ↦ by simpa using List.of_mem_filter ha⟩

/-- Keys are not repeated. -/
theorem eq_of_key_eq (h : Ascending key top l) {a b : α} (ha : a ∈ l) (hb : b ∈ l)
    (heq : key a = key b) : a = b := by
  refine List.inj_on_of_nodup_map ?_ ha hb heq
  rw [List.Nodup, List.pairwise_map]
  exact h.sorted.imp Nat.ne_of_lt

theorem head_le (h : Ascending key top l) (hne : l ≠ []) {a : α} (ha : a ∈ l) :
    key (l.head hne) ≤ key a := by
  have hsorted := h.sorted
  rw [← List.cons_head_tail hne] at ha hsorted
  rcases List.mem_cons.mp ha with rfl | ha
  · exact le_rfl
  · exact ((List.pairwise_cons.mp hsorted).1 a ha).le

/-- A key that is there is found. -/
theorem find?_key (h : Ascending key top l) {x : α} (hx : x ∈ l) :
    (l.find? fun a ↦ key a == key x) = some x := by
  cases hf : l.find? fun a ↦ key a == key x with
  | none => exact absurd (beq_self_eq_true (key x)) (by simpa using List.find?_eq_none.mp hf x hx)
  | some y =>
    have hy : key y = key x := by simpa using List.find?_some hf
    rw [h.eq_of_key_eq (List.mem_of_find?_eq_some hf) hx hy]

/-- What is found in an end of the list is found in the list. -/
theorem find?_of_suffix (h : Ascending key top l) (hs : xs <:+ l) {n : ℕ} {x : α}
    (hx : (xs.find? fun a ↦ key a == n) = some x) : (l.find? fun a ↦ key a == n) = some x := by
  have hn : key x = n := by simpa using List.find?_some hx
  rw [← hn]
  exact h.find?_key (hs.subset (List.mem_of_find?_eq_some hx))

/-- What a lookup answers from an end of the list, it answers from the list. -/
theorem map_find?_of_suffix {β : Type*} (h : Ascending key top l) (hs : xs <:+ l) {n : ℕ}
    {f : α → β} {b : β} (hb : (xs.find? fun a ↦ key a == n).map f = some b) :
    (l.find? fun a ↦ key a == n).map f = some b := by
  obtain ⟨x, hx, rfl⟩ := Option.map_eq_some_iff.mp hb
  exact Option.map_eq_some_iff.mpr ⟨x, h.find?_of_suffix hs hx, rfl⟩

/-- **When pushing keeps a window ascending**: exactly when what is not evicted lies below the
first element pushed. -/
theorem sorted_rtake_append_iff (hl : Ascending key top l) (hxs : Ascending key top' xs)
    (hne : xs ≠ []) (cap : ℕ) :
    ((l ++ xs).rtake cap).Pairwise (fun a b ↦ key a < key b) ↔
      ∀ a ∈ l.rtake (cap - xs.length), key a < key (xs.head hne) := by
  rw [rtake_append, List.pairwise_append]
  constructor
  · rintro ⟨-, -, hlt⟩ a ha
    have hcap : xs.length ≤ cap := by
      by_contra hcap
      rw [Nat.sub_eq_zero_of_le (by omega), List.rtake_zero] at ha
      exact absurd ha List.not_mem_nil
    exact hlt a ha _ (by rw [rtake_of_length_le hcap]; exact List.head_mem hne)
  · intro hlt
    refine ⟨hl.sorted.sublist (rtake_suffix _ _).sublist,
      hxs.sorted.sublist (rtake_suffix _ _).sublist, fun a ha x hx ↦ ?_⟩
    exact (hlt a ha).trans_le (hxs.head_le hne ((rtake_suffix _ _).subset hx))

/-- Pushing onto a window that lies below keeps it ascending. -/
theorem pushAll {cap : ℕ} (hcap : 0 < cap) (hl : Ascending key top l) (hlen : l.length ≤ cap)
    (hxs : Ascending key top' xs) (hne : xs ≠ [])
    (hlt : ∀ a ∈ l.rtake (cap - xs.length), key a < key (xs.head hne)) :
    Ascending key top' (pushAll cap l xs) := by
  rw [pushAll_eq_rtake hcap hlen]
  refine ⟨(hl.sorted_rtake_append_iff hxs hne cap).mpr hlt, fun a ha ↦ ?_⟩
  rw [rtake_append] at ha
  rcases List.mem_append.mp ha with ha | ha
  · exact (hlt a ha).le.trans (hxs.le_top _ (List.head_mem hne))
  · exact hxs.le_top a ((rtake_suffix _ _).subset ha)

theorem singleton (x : α) : Ascending key (key x) [x] :=
  ⟨List.pairwise_singleton _ _, fun a ha ↦ by rw [List.mem_singleton.mp ha]⟩

theorem snoc {x : α} (h : Ascending key top l) (hx : ∀ a ∈ l, key a < key x) :
    Ascending key (key x) (l ++ [x]) := by
  refine ⟨List.pairwise_append.mpr ⟨h.sorted, List.pairwise_singleton _ _, fun a ha y hy ↦ ?_⟩,
    fun a ha ↦ ?_⟩
  · rw [List.mem_singleton.mp hy]
    exact hx a ha
  · rcases List.mem_append.mp ha with ha | ha
    · exact (hx a ha).le
    · rw [List.mem_singleton.mp ha]

theorem suffix (h : Ascending key top l) (hs : xs <:+ l) : Ascending key top xs :=
  ⟨h.sorted.sublist hs.sublist, fun a ha ↦ h.le_top a (hs.subset ha)⟩

/-- A cutoff that separates two lists takes the second one off, also in a window. -/
theorem filter_rtake_append {cutoff : ℕ} (hl : ∀ a ∈ l, key a ≤ cutoff)
    (hxs : ∀ x ∈ xs, cutoff < key x) (cap : ℕ) :
    ((l ++ xs).rtake cap).filter (fun a ↦ key a ≤ cutoff) = l.rtake (cap - xs.length) := by
  rw [rtake_append, List.filter_append]
  have hkeep : (l.rtake (cap - xs.length)).filter (fun a ↦ key a ≤ cutoff) =
      l.rtake (cap - xs.length) :=
    List.filter_eq_self.mpr fun a ha ↦ by simpa using hl a ((rtake_suffix _ _).subset ha)
  have hdrop : (xs.rtake cap).filter (fun a ↦ key a ≤ cutoff) = [] :=
    List.filter_eq_nil_iff.mpr fun a ha ↦ by
      simpa using hxs a ((rtake_suffix _ _).subset ha)
  rw [hkeep, hdrop, List.append_nil]

end Ascending

end Window
