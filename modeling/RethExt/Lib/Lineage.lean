import Mathlib.Logic.Function.Iterate
import Mathlib.Data.List.Chain

/-!
# Lineages: things that have a parent one level below

A `Lineage` gives every element a parent and a height, the parent one below.  It need not be a
tree with a root that is known: below a height of interest the parent may be anything.

`Lineage.ancestor a n` is the ancestor of `a` at height `n`.  Two facts about it do the work.
`ancestor_ancestor` says that an ancestor of an ancestor is an ancestor, so a table indexed by
height that lists the ancestors of `a` lists those of every descendant of `a`.  And along a list in
which each element is the parent of the next, every element is an ancestor of the last
(`ancestor_getLast_of_mem`), and so is whatever is an ancestor of the first one's parent
(`ancestor_getLast_of_le`).
-/

set_option autoImplicit false

/-- Elements with a parent one level below. -/
structure Lineage (α : Type*) where
  /-- The parent of an element. -/
  parent : α → α
  /-- The height of an element. -/
  height : α → ℕ
  /-- Above height zero, the parent is one level below. -/
  height_parent : ∀ a, 0 < height a → height (parent a) + 1 = height a

namespace Lineage

variable {α : Type*} (l : Lineage α)

/-- The ancestor of `a` at height `n`, for an `n` up to the height of `a`. -/
def ancestor (a : α) (n : ℕ) : α := l.parent^[l.height a - n] a

theorem height_iterate {a : α} :
    ∀ {k : ℕ}, k ≤ l.height a → l.height (l.parent^[k] a) + k = l.height a
  | 0, _ => rfl
  | k + 1, h => by
    have ih := height_iterate (a := a) (k := k) (by omega)
    have hp := l.height_parent (l.parent^[k] a) (by omega)
    rw [Function.iterate_succ_apply']
    omega

@[simp] theorem ancestor_self (a : α) : l.ancestor a (l.height a) = a := by
  rw [ancestor, Nat.sub_self, Function.iterate_zero_apply]

theorem height_ancestor {a : α} {n : ℕ} (h : n ≤ l.height a) : l.height (l.ancestor a n) = n := by
  have := l.height_iterate (a := a) (k := l.height a - n) (by omega)
  rw [ancestor]
  omega

/-- Below its own height, an element has the ancestors of its parent. -/
theorem ancestor_of_lt {a : α} {n : ℕ} (h : n < l.height a) :
    l.ancestor a n = l.ancestor (l.parent a) n := by
  have hp := l.height_parent a (by omega)
  rw [ancestor, ancestor, show l.height a - n = l.height (l.parent a) - n + 1 by omega,
    Function.iterate_succ_apply]

/-- **An ancestor of an ancestor is an ancestor.** -/
theorem ancestor_ancestor {a : α} {m n : ℕ} (hnm : n ≤ m) (hm : m ≤ l.height a) :
    l.ancestor (l.ancestor a m) n = l.ancestor a n := by
  have hh := l.height_ancestor hm
  rw [ancestor, hh, ancestor, ← Function.iterate_add_apply, ancestor]
  congr 1
  omega

/-! ## Along a linked list -/

/-- Each element of the list is the parent of the next. -/
abbrev Linked (xs : List α) : Prop := xs.IsChain fun a b ↦ l.parent b = a

variable {l}

/-- Every element of a linked list is an ancestor of its last element. -/
theorem ancestor_getLast_of_mem {xs : List α} (h : l.Linked xs)
    (hpos : ∀ a ∈ xs, 0 < l.height a) (hne : xs ≠ []) {a : α} (ha : a ∈ xs) :
    l.height a ≤ l.height (xs.getLast hne) ∧ l.ancestor (xs.getLast hne) (l.height a) = a := by
  induction xs generalizing a with
  | nil => exact absurd rfl hne
  | cons x xs ih =>
    cases xs with
    | nil =>
      rw [List.mem_singleton] at ha
      subst ha
      exact ⟨le_rfl, l.ancestor_self a⟩
    | cons y ys =>
      obtain ⟨hxy, hys⟩ := List.isChain_cons_cons.mp h
      have ih' : ∀ {a}, a ∈ y :: ys → _ :=
        ih hys (fun b hb ↦ hpos b (List.mem_cons_of_mem _ hb)) (by simp)
      rw [List.getLast_cons (by simp)]
      rcases List.mem_cons.mp ha with rfl | ha
      · obtain ⟨hle, hanc⟩ := ih' List.mem_cons_self
        have hy := l.height_parent y (hpos y (by simp))
        rw [hxy] at hy
        refine ⟨by omega, ?_⟩
        rw [← l.ancestor_ancestor (m := l.height y) (by omega) hle, hanc,
          l.ancestor_of_lt (by omega), hxy, l.ancestor_self]
      · exact ih' ha

/-- Up to the height of the first element's parent, the last element of a linked list has the
ancestors of that parent. -/
theorem ancestor_getLast_of_le {xs : List α} (h : l.Linked xs)
    (hpos : ∀ a ∈ xs, 0 < l.height a) (hne : xs ≠ []) {n : ℕ}
    (hn : n < l.height (xs.head hne)) :
    l.ancestor (xs.getLast hne) n = l.ancestor (l.parent (xs.head hne)) n := by
  obtain ⟨hle, hanc⟩ := ancestor_getLast_of_mem h hpos hne (List.head_mem hne)
  rw [← l.ancestor_ancestor hn.le hle, hanc, l.ancestor_of_lt hn]

end Lineage
