import Std.Data.ExtTreeMap
import Mathlib.Tactic.TypeStar
import Mathlib.Order.Basic

/-!
# Folding a finite map of updates into a state

`getElem?`-style reasoning for a loop `for (k, c) in changes { … }` whose body, at key `k`, touches
only the part of the state that `k` owns.  Since the keys of a map are distinct, the order of the
loop does not matter: an observation `get m q` sees the change listed for the owner of `q`, once,
and nothing else.
-/

set_option autoImplicit false

open Std

namespace FoldMap

variable {K C M Q R : Type*} {cmp : K → K → Ordering}

private theorem foldl_list_of_forall_ne {get : M → Q → R} {owner : Q → K} {upd : M → K → C → M}
    (hother : ∀ m k c q, owner q ≠ k → get (upd m k c) q = get m q) {q : Q}
    {l : List (K × C)} (h : ∀ p ∈ l, owner q ≠ p.1) (m : M) :
    get (l.foldl (fun m p ↦ upd m p.1 p.2) m) q = get m q := by
  induction l generalizing m with
  | nil => rfl
  | cons p l ih =>
    rw [List.foldl_cons, ih fun r hr ↦ h r (List.mem_cons_of_mem _ hr),
      hother _ _ _ _ (h p List.mem_cons_self)]

/-- What no update touches, the loop does not touch. -/
theorem foldl_of_forall_eq [TransCmp cmp] (obs : M → R) (upd : M → K → C → M)
    (h : ∀ m k c, obs (upd m k c) = obs m) (changes : ExtTreeMap K C cmp) (m : M) :
    obs (changes.foldl upd m) = obs m := by
  rw [ExtTreeMap.foldl_eq_foldl_toList]
  induction changes.toList generalizing m with
  | nil => rfl
  | cons p l ih => rw [List.foldl_cons, ih, h]

/-- **A fold of owned updates, observed.**  `eff` is what one update does to an observation it
owns; an update leaves the observations it does not own alone. -/
theorem get_foldl [TransCmp cmp] [LawfulEqCmp cmp] (get : M → Q → R) (owner : Q → K)
    (upd : M → K → C → M) (eff : C → Q → R → R)
    (hself : ∀ m c q, get (upd m (owner q) c) q = eff c q (get m q))
    (hother : ∀ m k c q, owner q ≠ k → get (upd m k c) q = get m q)
    (changes : ExtTreeMap K C cmp) (m : M) (q : Q) :
    get (changes.foldl upd m) q =
      match changes[owner q]? with
      | some c => eff c q (get m q)
      | none => get m q := by
  rw [ExtTreeMap.foldl_eq_foldl_toList]
  cases hc : changes[owner q]? with
  | none =>
    refine foldl_list_of_forall_ne hother (fun p hp heq ↦ ?_) m
    rw [heq, ExtTreeMap.mem_toList_iff_getElem?_eq_some.mp hp] at hc
    cases hc
  | some c =>
    obtain ⟨l₁, l₂, hsplit⟩ :=
      List.append_of_mem (ExtTreeMap.mem_toList_iff_getElem?_eq_some.mpr hc)
    have hdistinct : changes.toList.Pairwise fun a b ↦ a.1 ≠ b.1 := by
      refine ExtTreeMap.distinct_keys_toList.imp ?_
      intro a b hab heq
      exact hab (by rw [heq]; exact ReflCmp.compare_self)
    rw [hsplit, List.pairwise_append, List.pairwise_cons] at hdistinct
    obtain ⟨-, ⟨hafter, -⟩, hbefore⟩ := hdistinct
    have h₁ : ∀ p ∈ l₁, owner q ≠ p.1 := fun p hp ↦ (hbefore p hp _ List.mem_cons_self).symm
    rw [hsplit, List.foldl_append, List.foldl_cons, foldl_list_of_forall_ne hother hafter,
      hself, foldl_list_of_forall_ne hother h₁]

end FoldMap
