import Mathlib.Data.Nat.Notation

/-!
# Cutting texts

A text is a list of characters.  `stripPrefix`, `stripSuffix` and `splitText` cut a text that was
put together from parts: each has a lemma that says what it makes of `p ++ s`, `s ++ p` and
`s ++ sep ++ t`.  A separator of several characters can overlap the parts that it separates, so
`splitText_append` asks for a character of the separator, other than its first, that is not in the
part before it.  Splitting at a single character is `List.splitOn`.

Decimal numbers are written by `Nat.toDigits 10`, and `parseDecimal` reads them back.
-/

set_option autoImplicit false

namespace Text

variable {α : Type} [DecidableEq α] {p s t sep : List α}

/-- What is left of a text that begins with `p`. -/
def stripPrefix (p s : List α) : Option (List α) :=
  if p <+: s then some (s.drop p.length) else none

/-- What is left of a text that ends with `p`. -/
def stripSuffix (p s : List α) : Option (List α) :=
  if p <:+ s then some (s.take (s.length - p.length)) else none

theorem stripPrefix_append (p s : List α) : stripPrefix p (p ++ s) = some s := by
  rw [stripPrefix, if_pos (List.prefix_append p s), List.drop_left]

theorem stripPrefix_eq_none (h : ¬ p <+: s) : stripPrefix p s = none := if_neg h

theorem stripSuffix_append (p s : List α) : stripSuffix p (s ++ p) = some s := by
  rw [stripSuffix, if_pos (List.suffix_append s p), List.length_append, Nat.add_sub_cancel,
    List.take_left]

/-! ## Splitting at a separator of several characters -/

/-- The parts of a text between the places where `sep`, which is not empty, is found in it from the
left.  The number is how many characters of a separator that was found are still to be passed. -/
def splitAfter (sep : List α) : ℕ → List α → List (List α)
  | _, [] => [[]]
  | k + 1, _ :: s => splitAfter sep k s
  | 0, c :: s =>
    if sep <+: c :: s then [] :: splitAfter sep (sep.length - 1) s
    else (splitAfter sep 0 s).modifyHead (c :: ·)

def splitText (sep s : List α) : List (List α) := splitAfter sep 0 s

/-- The rest of a separator is passed. -/
theorem splitAfter_append (s t : List α) : splitAfter sep s.length (s ++ t) = splitText sep t := by
  induction s with
  | nil => rfl
  | cons c s ih => exact ih

/-- A separator with a character that the text lacks does not split it. -/
theorem splitText_eq_singleton {y : α} (hy : y ∈ sep) (h : y ∉ s) : splitText sep s = [s] := by
  induction s with
  | nil => rfl
  | cons c s ih =>
    have hnot : ¬ sep <+: c :: s := fun hpre ↦ h (hpre.subset hy)
    rw [splitText, splitAfter, if_neg hnot]
    have hrest : splitAfter sep 0 s = [s] := ih fun hs ↦ h (List.mem_cons_of_mem c hs)
    rw [hrest, List.modifyHead_cons]

omit [DecidableEq α] in
/-- A separator does not begin within a part that lacks its second character. -/
theorem not_prefix_append {x y c : α} {l : List α} (hxy : x ≠ y) (h : y ∉ c :: s) (t : List α) :
    ¬ x :: y :: l <+: c :: (s ++ (x :: y :: l ++ t)) := by
  intro hpre
  rw [List.cons_prefix_cons] at hpre
  obtain ⟨-, hpre⟩ := hpre
  cases s with
  | nil => exact hxy (List.cons_prefix_cons.mp hpre).1.symm
  | cons c' s =>
    rw [List.cons_append, List.cons_prefix_cons] at hpre
    exact h (by simp [hpre.1])

/-- **The first part** is what stands before the first separator, if it lacks the separator's second
character and the first is another. -/
theorem splitText_append {x y : α} {l : List α} (hxy : x ≠ y) (h : y ∉ s) (t : List α) :
    splitText (x :: y :: l) (s ++ (x :: y :: l ++ t)) = s :: splitText (x :: y :: l) t := by
  induction s with
  | nil =>
    have hpre : x :: y :: l <+: x :: (y :: l ++ t) := List.prefix_append (x :: y :: l) t
    have hrest : splitAfter (x :: y :: l) (y :: l).length (y :: l ++ t) = _ :=
      splitAfter_append (y :: l) t
    rw [List.nil_append, List.cons_append, splitText, splitAfter, if_pos hpre]
    exact congrArg ([] :: ·) hrest
  | cons c s ih =>
    have hrest : splitAfter (x :: y :: l) 0 (s ++ (x :: y :: l ++ t)) = s :: _ :=
      ih fun hs ↦ h (List.mem_cons_of_mem c hs)
    rw [List.cons_append, splitText, splitAfter, if_neg (not_prefix_append hxy h t), hrest,
      List.modifyHead_cons]

/-! ## Decimal numbers -/

/-- The number that a text of digits stands for. -/
def parseDecimal (s : List Char) : Option ℕ :=
  if !s.isEmpty && s.all Char.isDigit then some (Nat.ofDigitChars 10 s 0) else none

theorem isDigit_of_mem_toDigits {n : ℕ} {c : Char} (h : c ∈ Nat.toDigits 10 n) :
    c.isDigit = true :=
  Nat.isDigit_of_mem_toDigits (by decide) (by decide) h

/-- A character that is not a digit is in no decimal number. -/
theorem not_mem_toDigits {n : ℕ} {c : Char} (h : c.isDigit = false) : c ∉ Nat.toDigits 10 n :=
  fun hmem ↦ Bool.false_ne_true (h.symm.trans (isDigit_of_mem_toDigits hmem))

theorem parseDecimal_toDigits (n : ℕ) : parseDecimal (Nat.toDigits 10 n) = some n := by
  have hne : (Nat.toDigits 10 n).isEmpty = false :=
    List.isEmpty_eq_false_iff.mpr Nat.toDigits_ne_nil
  have hdigits : (Nat.toDigits 10 n).all Char.isDigit = true :=
    List.all_eq_true.mpr fun _ ↦ isDigit_of_mem_toDigits
  rw [parseDecimal, hne, hdigits, Nat.ofDigitChars_ten_toDigits]
  rfl

end Text
