import RethExt.Lib.Window

/-!
# Logs of batches

An entry of such a log stands for all the levels from the one above the entry before it up to its
own.  `Window.Covers` says so without naming the entry before: whenever there is an entry below a
level, the lowest entry at or above the level speaks for it.  In this form it is kept when the log
loses its oldest entries (`Covers.suffix`) and when it is truncated (`Covers.filter_le`).  What a
truncation may leave open is the levels above all that it kept, which the next entry has to speak
for: that is the condition of `Covers.snoc`.
-/

set_option autoImplicit false

namespace Window

variable {α : Type*} {key : α → ℕ} {Lists Lists' : ℕ → α → Prop} {l xs : List α} {top : ℕ}

/-- The lowest entry at or above a level lists it, if there is an entry below the level. -/
def Covers (key : α → ℕ) (Lists : ℕ → α → Prop) (l : List α) : Prop :=
  ∀ n, (∃ a ∈ l, key a < n) → ∀ b ∈ l, n ≤ key b → (∀ a ∈ l, n ≤ key a → key b ≤ key a) → Lists n b

namespace Covers

theorem nil : Covers key Lists [] := fun _ _ _ hb ↦ absurd hb List.not_mem_nil

theorem mono (h : Covers key Lists l) (hlists : ∀ n, ∀ b ∈ l, n ≤ key b → Lists n b → Lists' n b) :
    Covers key Lists' l :=
  fun n hbelow b hb hn hlow ↦ hlists n b hb hn (h n hbelow b hb hn hlow)

/-- **What is evicted** lies below all that is left, so it is never the lowest entry. -/
theorem suffix (h : Covers key Lists l) (hl : Ascending key top l) (hs : xs <:+ l) :
    Covers key Lists xs := by
  intro n hbelow b hb hn hlow
  obtain ⟨k, rfl⟩ := hs
  obtain ⟨c, hc, hcn⟩ := hbelow
  refine h n ⟨c, List.mem_append_right _ hc, hcn⟩ b (List.mem_append_right _ hb) hn
    fun a ha hna ↦ ?_
  rcases List.mem_append.mp ha with ha | ha
  · have hlt : key a < key c := (List.pairwise_append.mp hl.sorted).2.2 a ha c hc
    omega
  · exact hlow a ha hna

/-- **What is truncated** lies above all that is left. -/
theorem filter_le (h : Covers key Lists l) (cutoff : ℕ) :
    Covers key Lists (l.filter fun a ↦ key a ≤ cutoff) := by
  intro n ⟨c, hc, hcn⟩ b hb hn hlow
  obtain ⟨hb, hbcut⟩ := List.mem_filter.mp hb
  refine h n ⟨c, List.mem_of_mem_filter hc, hcn⟩ b hb hn fun a ha hna ↦ ?_
  by_cases hacut : key a ≤ cutoff
  · exact hlow a (List.mem_filter.mpr ⟨ha, decide_eq_true hacut⟩) hna
  · have := of_decide_eq_true hbcut
    omega

/-- **A new entry** on top has to list the levels above all there is. -/
theorem snoc (h : Covers key Lists l) {x : α} (hx : ∀ a ∈ l, key a < key x)
    (hnew : l ≠ [] → ∀ n, (∀ a ∈ l, key a < n) → n ≤ key x → Lists n x) :
    Covers key Lists (l ++ [x]) := by
  intro n ⟨c, hc, hcn⟩ b hb hn hlow
  have hlow' : ∀ a ∈ l, n ≤ key a → key b ≤ key a :=
    fun a ha hna ↦ hlow a (List.mem_append_left _ ha) hna
  have hbx : key b ≤ key x := by
    rcases List.mem_append.mp hb with hb | hb
    · exact (hx b hb).le
    · rw [List.mem_singleton.mp hb]
  have hcl : c ∈ l := by
    rcases List.mem_append.mp hc with hc | hc
    · exact hc
    · rw [List.mem_singleton.mp hc] at hcn
      omega
  rcases List.mem_append.mp hb with hb | hb
  · exact h n ⟨c, hcl, hcn⟩ b hb hn hlow'
  · rw [List.mem_singleton.mp hb] at hn hlow' ⊢
    refine hnew (List.ne_nil_of_mem hcl) n (fun a ha ↦ ?_) hn
    by_contra hna
    have := hlow' a ha (Nat.not_lt.mp hna)
    have := hx a ha
    omega

/-- A level between the lowest entry and the highest one is listed. -/
theorem exists_lists (h : Covers key Lists l) (hl : Ascending key top l) {n : ℕ}
    (hbelow : ∃ a ∈ l, key a < n) (habove : ∃ b ∈ l, n ≤ key b) :
    ∃ b ∈ l, n ≤ key b ∧ Lists n b := by
  obtain ⟨b, hb, hnb⟩ := habove
  have hne : l.filter (fun a ↦ n ≤ key a) ≠ [] :=
    List.ne_nil_of_mem (List.mem_filter.mpr ⟨hb, decide_eq_true hnb⟩)
  have hfilter : Ascending key top (l.filter fun a ↦ n ≤ key a) :=
    ⟨hl.sorted.sublist List.filter_sublist, fun a ha ↦ hl.le_top a (List.mem_of_mem_filter ha)⟩
  -- the first of the entries at or above the level
  obtain ⟨hmem, hkey⟩ := List.mem_filter.mp (List.head_mem hne)
  refine ⟨_, hmem, of_decide_eq_true hkey, h n hbelow _ hmem (of_decide_eq_true hkey) ?_⟩
  exact fun a ha hna ↦ hfilter.head_le hne (List.mem_filter.mpr ⟨ha, decide_eq_true hna⟩)

end Covers

end Window
