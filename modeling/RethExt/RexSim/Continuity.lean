import RethExt.RexSim.Ledger

/-!
# The verdicts accept exactly the chains that connect

A block is known by its hash, and the validator compares hashes of blocks it has not seen before.
`CurrentState.Identifies` is what it relies on: what bears the hash of the current block is the
current block.  Then the verdict on a commit is read off two questions about the chain, whether it
is built on the current block (`Chain.BuiltOn`) and whether it contains it (`Chain.Contains`), and
the verdict on a reorg off the second alone.

Block numbers are `ℕ`, so the number above the current one is that of the source as long as the
current one is below `2 ^ 64 - 1`.
-/

set_option autoImplicit false

namespace RexSim

section

variable [Revm]

/-- Equal hashes mean the same block: a block of the chain that bears the current hash is the
current block, and a chain whose first block names it as its parent starts right above it. -/
structure CurrentState.Identifies (current : CurrentState) (c : Chain) : Prop where
  block : ∀ b ∈ c.blocks, b.hash = current.blockHash → b.number = current.block
  parent : c.first.parentHash = current.blockHash → c.first.number = current.block + 1

namespace Chain

/-- The current block is the parent of the chain's first block. -/
def BuiltOn (c : Chain) (current : CurrentState) : Prop := c.first.parentHash = current.blockHash

/-- The current block is one of the chain's. -/
def Contains (c : Chain) (current : CurrentState) : Prop :=
  ∃ b ∈ c.blocks, b.hash = current.blockHash

instance (c : Chain) (current : CurrentState) : Decidable (c.BuiltOn current) :=
  inferInstanceAs (Decidable (_ = _))

instance (c : Chain) (current : CurrentState) : Decidable (c.Contains current) :=
  inferInstanceAs (Decidable (∃ b ∈ c.blocks, b.hash = current.blockHash))

variable {c : Chain} {current : CurrentState}

/-- A chain that contains the current block starts at it or below, and ends at it or above. -/
theorem Contains.between (h : c.Contains current) (hsame : current.Identifies c) :
    c.first.number ≤ current.block ∧ current.block ≤ c.tip.number := by
  obtain ⟨b, hb, hhash⟩ := h
  rw [← hsame.block b hb hhash]
  exact ⟨c.first_number_le hb, c.le_tip_number hb⟩

/-- **The scan** over the chain finds the current block exactly when it is there. -/
theorem any_ids_iff (hsame : current.Identifies c) :
    (c.ids.any fun b ↦ b.1 == current.block && b.2 == current.blockHash) = true ↔
      c.Contains current := by
  rw [ids, List.any_map, List.any_eq_true]
  constructor
  · rintro ⟨b, hb, h⟩
    rw [Function.comp_apply, Bool.and_eq_true, beq_iff_eq, beq_iff_eq] at h
    exact ⟨b, hb, h.2⟩
  · rintro ⟨b, hb, hhash⟩
    refine ⟨b, hb, ?_⟩
    rw [Function.comp_apply, Bool.and_eq_true, beq_iff_eq, beq_iff_eq]
    exact ⟨hsame.block b hb hhash, hhash⟩

/-! ## Commits -/

/-- **The verdict on a commit**, for a state that is neither initial nor stale. -/
theorem validateChainCommitted_eq (hinit : current.isInitial = false)
    (hstale : current.stale = false) (hsame : current.Identifies c) :
    validateChainCommitted current c.first.info c.ids =
      if c.BuiltOn current ∨ c.Contains current then .valid
      else if current.block < c.first.number then .gap (current.block + 1) c.first.number
      else .overlapMismatch := by
  rw [validateChainCommitted, hinit, hstale, Bool.or_false, if_neg Bool.false_ne_true,
    show c.first.info.number = c.first.number from rfl]
  by_cases hbuilt : c.BuiltOn current
  · rw [if_pos, if_pos (Or.inl hbuilt)]
    rw [Bool.and_eq_true, beq_iff_eq, beq_iff_eq]
    exact ⟨hsame.parent hbuilt, hbuilt⟩
  · rw [if_neg]
    · by_cases hcontains : c.Contains current
      · rw [if_pos (hcontains.between hsame).1, if_pos ((any_ids_iff hsame).mpr hcontains),
          if_pos (Or.inr hcontains)]
      · rw [if_neg (not_or.mpr ⟨hbuilt, hcontains⟩)]
        by_cases hle : c.first.number ≤ current.block
        · rw [if_pos hle, if_neg fun h ↦ hcontains ((any_ids_iff hsame).mp h),
            if_neg (Nat.not_lt.mpr hle)]
        · rw [if_neg hle, if_pos (Nat.not_le.mp hle)]
    · rw [Bool.and_eq_true, beq_iff_eq, beq_iff_eq]
      exact fun h ↦ hbuilt h.2

/-- **What a commit's verdict says about the chain.** -/
structure CommitVerdicts (c : Chain) (current : CurrentState) : Prop where
  acceptable : (validateChainCommitted current c.first.info c.ids).isAcceptable = true ↔
    c.BuiltOn current ∨ c.Contains current
  le_tip : (validateChainCommitted current c.first.info c.ids).isAcceptable = true →
    current.block ≤ c.tip.number
  gap : ∀ expected got, validateChainCommitted current c.first.info c.ids = .gap expected got ↔
    (current.block < c.first.number ∧ ¬ c.BuiltOn current) ∧
      expected = current.block + 1 ∧ got = c.first.number
  overlapMismatch : validateChainCommitted current c.first.info c.ids = .overlapMismatch ↔
    c.first.number ≤ current.block ∧ ¬ c.Contains current

theorem commitVerdicts (hinit : current.isInitial = false) (hstale : current.stale = false)
    (hsame : current.Identifies c) : c.CommitVerdicts current := by
  have haccept : (validateChainCommitted current c.first.info c.ids).isAcceptable = true ↔
      c.BuiltOn current ∨ c.Contains current := by
    rw [validateChainCommitted_eq hinit hstale hsame]
    split
    · exact iff_of_true rfl ‹_›
    · split <;> exact iff_of_false Bool.false_ne_true ‹_›
  -- built on the current block, the chain starts above it; containing it, at it or below
  have hbuilt : c.BuiltOn current → ¬ c.first.number ≤ current.block := by
    intro h
    have := hsame.parent h
    omega
  have hcontains : c.Contains current → ¬ current.block < c.first.number :=
    fun h ↦ Nat.not_lt.mpr (h.between hsame).1
  refine ⟨haccept, fun h ↦ ?_, fun expected got ↦ ?_, ?_⟩
  · rcases haccept.mp h with hbuilt | hcontains
    · have := hsame.parent hbuilt
      have := c.first_number_le c.tip_mem
      omega
    · exact (hcontains.between hsame).2
  · rw [validateChainCommitted_eq hinit hstale hsame]
    split
    · rename_i hconnect
      refine iff_of_false nofun fun h ↦ ?_
      exact hconnect.elim h.1.2 fun hc ↦ hcontains hc h.1.1
    · rename_i hconnect
      obtain ⟨hnot, -⟩ := not_or.mp hconnect
      split
      · rename_i hlt
        rw [CommitValidation.gap.injEq]
        exact ⟨fun h ↦ ⟨⟨hlt, hnot⟩, h.1.symm, h.2.symm⟩, fun h ↦ ⟨h.2.1.symm, h.2.2.symm⟩⟩
      · rename_i hlt
        exact iff_of_false nofun fun h ↦ hlt h.1.1
  · rw [validateChainCommitted_eq hinit hstale hsame]
    split
    · rename_i hconnect
      refine iff_of_false nofun fun h ↦ ?_
      exact hconnect.elim (fun hb ↦ hbuilt hb h.1) h.2
    · rename_i hconnect
      obtain ⟨-, hnot⟩ := not_or.mp hconnect
      split
      · rename_i hlt
        exact iff_of_false nofun fun h ↦ absurd h.1 (Nat.not_le.mpr hlt)
      · rename_i hlt
        exact iff_of_true rfl ⟨Nat.not_lt.mp hlt, hnot⟩

/-! ## Reorgs -/

/-- **The verdict on a reorg.** -/
theorem validateChainReorged_isAcceptable_iff (hinit : current.isInitial = false)
    (hsame : current.Identifies c) :
    (validateChainReorged current c.tip.info c.ids).isAcceptable = true ↔ c.Contains current := by
  rw [validateChainReorged, hinit, if_neg Bool.false_ne_true]
  by_cases htip : c.tip.hash = current.blockHash
  · rw [if_pos (by rw [beq_iff_eq]; exact htip)]
    exact iff_of_true rfl ⟨c.tip, c.tip_mem, htip⟩
  · rw [if_neg (by rw [beq_iff_eq]; exact htip), ← any_ids_iff hsame]
    split
    · exact iff_of_true rfl ‹_›
    · exact iff_of_false Bool.false_ne_true ‹_›

end Chain

/-- **The verdicts accept exactly the chains that connect.** -/
theorem verdicts_accept_connected {current : CurrentState} {c : Chain}
    (hinit : current.isInitial = false) (hsame : current.Identifies c) :
    (current.stale = false → c.CommitVerdicts current) ∧
      ((validateChainReorged current c.tip.info c.ids).isAcceptable = true ↔
        c.Contains current) :=
  ⟨fun hstale ↦ Chain.commitVerdicts hinit hstale hsame,
    Chain.validateChainReorged_isAcceptable_iff hinit hsame⟩

end

namespace Connected

open scoped Revm

/-- The blocks `2` and `3`, with the hashes `3` and `4`. -/
def chain : Chain where
  blocks := [{ header := ⟨2, 2, 3, []⟩ }, { header := ⟨3, 3, 4, []⟩ }]
  nonempty := List.cons_ne_nil _ _
  linked := by decide

/-- The block `2` is current. -/
def current : CurrentState := ⟨2, 3, false⟩

end Connected

open scoped Revm in
open Connected in
/-- The verdicts on a chain that contains the current block. -/
theorem verdicts_accept_connected_overlap :
    (current.stale = false → chain.CommitVerdicts current) ∧
      ((validateChainReorged current chain.tip.info chain.ids).isAcceptable = true ↔
        chain.Contains current) :=
  verdicts_accept_connected (by decide) ⟨by decide, by decide⟩

end RexSim
