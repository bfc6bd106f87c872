import RethExt.RexSim.Basic

/-!
# The continuity verdicts

`validateChainCommitted` and `validateChainReorged` decide whether a notification connects to the
snapshot that is held.  They read the snapshot's number, hash and staleness, and the numbers and
hashes of the notified blocks; everything else about a chain is invisible to them.
-/

set_option autoImplicit false

namespace RexSim

structure BlockInfo where
  number : ℕ
  hash : B256
  parentHash : B256
  deriving DecidableEq

/-- What the validator knows of the snapshot. -/
structure CurrentState where
  block : ℕ
  blockHash : B256
  stale : Bool
  deriving DecidableEq

def CurrentState.initial : CurrentState := ⟨0, 0, false⟩

/-- Nothing has been applied, or a revert took it back. -/
def CurrentState.isInitial (c : CurrentState) : Bool := c.block == 0 || c.blockHash == 0

theorem CurrentState.isInitial_eq_false {c : CurrentState} :
    c.isInitial = false ↔ c.block ≠ 0 ∧ c.blockHash ≠ 0 := by
  simp [isInitial]

theorem CurrentState.isInitial_eq_true {c : CurrentState} :
    c.isInitial = true ↔ c.block = 0 ∨ c.blockHash = 0 := by
  simp [isInitial]

/-! ## Commits -/

inductive CommitValidation
  | valid
  | acceptAny
  | gap (expected got : ℕ)
  | overlapMismatch
  deriving DecidableEq

def CommitValidation.isAcceptable : CommitValidation → Bool
  | valid => true
  | acceptAny => true
  | _ => false

def validateChainCommitted (current : CurrentState) (firstBlock : BlockInfo)
    (chainBlocks : List (ℕ × B256)) : CommitValidation :=
  if current.isInitial || current.stale then .acceptAny
  else if firstBlock.number == current.block + 1 && firstBlock.parentHash == current.blockHash then
    .valid
  else if firstBlock.number ≤ current.block then
    if chainBlocks.any fun b ↦ b.1 == current.block && b.2 == current.blockHash then .valid
    else .overlapMismatch
  else .gap (current.block + 1) firstBlock.number

/-- **What a `Valid` commit means**: it extends the current block, or it contains it. -/
theorem validateChainCommitted_eq_valid {c : CurrentState} {first : BlockInfo}
    {blocks : List (ℕ × B256)} (h : validateChainCommitted c first blocks = .valid) :
    (c.isInitial = false ∧ c.stale = false) ∧
      (first.number = c.block + 1 ∧ first.parentHash = c.blockHash ∨
        first.number ≤ c.block ∧ (c.block, c.blockHash) ∈ blocks) := by
  rw [validateChainCommitted] at h
  split at h
  · cases h
  · rename_i hinit
    rw [Bool.not_eq_true, Bool.or_eq_false_iff] at hinit
    refine ⟨hinit, ?_⟩
    split at h
    · rename_i hext
      rw [Bool.and_eq_true, beq_iff_eq, beq_iff_eq] at hext
      exact Or.inl hext
    · split at h
      · rename_i hle
        split at h
        · rename_i hany
          rw [List.any_eq_true] at hany
          obtain ⟨⟨n, hash⟩, hmem, hb⟩ := hany
          rw [Bool.and_eq_true, beq_iff_eq, beq_iff_eq] at hb
          refine Or.inr ⟨hle, ?_⟩
          rw [← hb.1, ← hb.2]
          exact hmem
        · cases h
      · cases h

/-- `AcceptAny` is given without looking at the chain, and exactly to an initial or stale state. -/
theorem validateChainCommitted_eq_acceptAny {c : CurrentState} {first : BlockInfo}
    {blocks : List (ℕ × B256)} :
    validateChainCommitted c first blocks = .acceptAny ↔ c.isInitial = true ∨ c.stale = true := by
  rw [validateChainCommitted]
  constructor
  · intro h
    split at h
    · rename_i hinit
      rwa [Bool.or_eq_true] at hinit
    · repeat' split at h
      all_goals cases h
  · intro h
    rw [if_pos (by rwa [Bool.or_eq_true])]

/-- An acceptable verdict is one of the two accepting ones. -/
theorem CommitValidation.isAcceptable_iff {v : CommitValidation} :
    v.isAcceptable = true ↔ v = .valid ∨ v = .acceptAny := by
  cases v <;> simp [isAcceptable]

/-! ## Reorgs -/

inductive ReorgValidation
  | valid
  | acceptAny
  | mismatch
  deriving DecidableEq

def ReorgValidation.isAcceptable : ReorgValidation → Bool
  | valid => true
  | acceptAny => true
  | mismatch => false

def validateChainReorged (current : CurrentState) (oldTip : BlockInfo)
    (oldChainBlocks : List (ℕ × B256)) : ReorgValidation :=
  if current.isInitial then .acceptAny
  else if oldTip.hash == current.blockHash then .valid
  else if oldChainBlocks.any fun b ↦ b.1 == current.block && b.2 == current.blockHash then .valid
  else .mismatch

/-- **What a `Valid` reorg means**: the current block is the old tip, or a block of the old
chain. -/
theorem validateChainReorged_eq_valid {c : CurrentState} {oldTip : BlockInfo}
    {blocks : List (ℕ × B256)} (h : validateChainReorged c oldTip blocks = .valid) :
    c.isInitial = false ∧ (oldTip.hash = c.blockHash ∨ (c.block, c.blockHash) ∈ blocks) := by
  rw [validateChainReorged] at h
  split at h
  · cases h
  · rename_i hinit
    refine ⟨by simpa using hinit, ?_⟩
    split at h
    · rename_i htip
      exact Or.inl (by simpa using htip)
    · split at h
      · rename_i hany
        rw [List.any_eq_true] at hany
        obtain ⟨⟨n, hash⟩, hmem, hb⟩ := hany
        rw [Bool.and_eq_true, beq_iff_eq, beq_iff_eq] at hb
        refine Or.inr ?_
        rw [← hb.1, ← hb.2]
        exact hmem
      · cases h

theorem validateChainReorged_eq_acceptAny {c : CurrentState} {oldTip : BlockInfo}
    {blocks : List (ℕ × B256)} :
    validateChainReorged c oldTip blocks = .acceptAny ↔ c.isInitial = true := by
  rw [validateChainReorged]
  constructor
  · intro h
    split at h
    · assumption
    · repeat' split at h
      all_goals cases h
  · intro h
    rw [if_pos h]

theorem ReorgValidation.isAcceptable_iff {v : ReorgValidation} :
    v.isAcceptable = true ↔ v = .valid ∨ v = .acceptAny := by
  cases v <;> simp [isAcceptable]

end RexSim
