import RethExt.RexSim.Ledger

/-!
# Chains that connect

What a `Valid` verdict says about the ledger: the snapshot's block and the committed chain, or the
new chain of a reorg, have their ancestors in common below the chain.  `Chain.OnLedger.blockHashes`
is what follows for a table of block hashes: it lists the ancestors of the chain's tip when what it
had below the chain lists those of the block the chain is built on.
-/

set_option autoImplicit false

namespace RexSim

variable [Revm] {keccak256 : Bytes → B256} {L : Ledger}

namespace Chain

/-! ## The table of block hashes -/

variable {c : Chain}

/-- The hashes of a chain's blocks are those of the ancestors of its tip. -/
theorem OnLedger.eq_ancestor_of_lastHash (h : c.OnLedger keccak256 L) {n : ℕ} {hash : B256}
    (hlast : lastHash (extractBlockData c) n = some hash) :
    hash = L.lineage.ancestor c.tip.hash n := by
  obtain ⟨d, hd, rfl, rfl⟩ := exists_of_lastHash_eq_some hlast
  obtain ⟨b, hb, rfl⟩ := List.mem_map.mp hd
  exact (h.ancestor_of_mem hb).symm

/-- A height up to the tip at which the chain has no block is below the chain. -/
theorem lt_first_of_lastHash {n : ℕ} (hn : n ≤ c.tip.number)
    (hlast : lastHash (extractBlockData c) n = none) : n < c.first.number := by
  by_contra hfirst
  obtain ⟨b, hb, rfl⟩ := exists_number_eq (Nat.not_lt.mp hfirst) hn
  rw [lastHash_of_mem hb] at hlast
  cases hlast

/-- **A table under a chain.**  If what is kept lists the ancestors of the block the chain is built
on, then under the hashes of the chain it lists the ancestors of its tip. -/
theorem OnLedger.blockHashes (h : c.OnLedger keccak256 L) {kept : ℕ → Option B256}
    (hkept : ∀ n hash, n < c.first.number → kept n = some hash →
      hash = L.lineage.ancestor c.first.parentHash n) {n : ℕ} {hash : B256}
    (hn : n ≤ c.tip.number)
    (hlook : (lastHash (extractBlockData c) n).or (kept n) = some hash) :
    hash = L.lineage.ancestor c.tip.hash n := by
  rcases Option.or_eq_some_iff.mp hlook with hlast | ⟨hlast, hkeep⟩
  · exact h.eq_ancestor_of_lastHash hlast
  · have hfirst := lt_first_of_lastHash hn hlast
    rw [h.ancestor_of_lt hfirst]
    exact hkept n hash hfirst hkeep

/-! ## Commits -/

/-- The block `tag` is one the chain's diff starts from: the parent of its first block, or that one
of its blocks that is the current block. -/
def IsBase (c : Chain) (current : StateSnapshot) (tag : B256) : Prop :=
  tag = c.first.parentHash ∨
    ∃ b ∈ c.blocks, b.number = current.block ∧ b.hash = current.blockHash ∧ tag = b.hash

variable {current : StateSnapshot}

/-- A `Valid` commit starts from the current block. -/
theorem isBase_of_valid (h : commitVerdict current c = .valid) :
    c.IsBase current current.blockHash := by
  obtain ⟨-, -, -, hnext | ⟨b, hb, hnumber, hhash⟩⟩ := commitVerdict_eq_valid h
  · exact Or.inl hnext.2.symm
  · exact Or.inr ⟨b, hb, hnumber, hhash, hhash.symm⟩

/-- A base is a block the diff can start from. -/
theorem IsBase.starts {tag : B256} (h : c.IsBase current tag) :
    tag = c.first.parentHash ∨ ∃ b ∈ c.blocks, b.hash = tag :=
  h.imp id fun ⟨b, hb, _, _, htag⟩ ↦ ⟨b, hb, htag.symm⟩

/-- A `Valid` commit leaves no height out. -/
theorem le_block_of_valid (h : commitVerdict current c = .valid) {n : ℕ}
    (hn : n < c.first.number) : n ≤ current.block := by
  obtain ⟨-, -, -, hnext | ⟨b, hb, hnumber, -⟩⟩ := commitVerdict_eq_valid h
  · omega
  · have := c.first_number_le hb
    omega

/-- Below the chain, a base of it has the ancestors of the block the chain is built on. -/
theorem OnLedger.ancestor_of_isBase (h : c.OnLedger keccak256 L) {tag : B256}
    (hbase : c.IsBase current tag) {n : ℕ} (hfirst : n < c.first.number)
    (hn : n ≤ L.lineage.height tag) :
    L.lineage.ancestor tag n = L.lineage.ancestor c.first.parentHash n := by
  rw [← h.ancestor_of_le hbase.starts hn, h.ancestor_of_lt hfirst]

/-- The tip of a chain is at least as high as a block its diff can start from. -/
theorem OnLedger.height_le_of_starts (h : c.OnLedger keccak256 L) {tag : B256}
    (hstarts : tag = c.first.parentHash ∨ ∃ b ∈ c.blocks, b.hash = tag) :
    L.lineage.height tag ≤ L.lineage.height c.tip.hash := by
  rw [h.number_hash c.tip_mem]
  rcases hstarts with rfl | ⟨b, hb, rfl⟩
  · have hbase := h.number_base
    have hfirst := c.first_number_le c.tip_mem
    omega
  · rw [h.number_hash hb]
    exact c.le_tip_number hb

/-- **What a `Valid` commit keeps.**  A table that lists the ancestors of the current block lists,
below the chain, those of the block the chain is built on. -/
theorem OnLedger.kept_of_valid (h : c.OnLedger keccak256 L)
    (hvalid : commitVerdict current c = .valid)
    (hheight : L.lineage.height current.blockHash = current.block) {kept : ℕ → Option B256}
    (hkept : ∀ n hash, n ≤ current.block → kept n = some hash →
      hash = L.lineage.ancestor current.blockHash n) {n : ℕ} {hash : B256}
    (hfirst : n < c.first.number) (hlook : kept n = some hash) :
    hash = L.lineage.ancestor c.first.parentHash n := by
  have hn := le_block_of_valid hvalid hfirst
  rw [← h.ancestor_of_isBase (isBase_of_valid hvalid) hfirst (by rw [hheight]; exact hn)]
  exact hkept n hash hn hlook

/-! ## Reorgs -/

/-- A `Valid` reorg replaces the current block. -/
theorem mem_of_valid (h : reorgVerdict current c = .valid) :
    ∃ b ∈ c.blocks, b.hash = current.blockHash := by
  obtain ⟨-, -, htip | ⟨b, hb, -, hhash⟩⟩ := reorgVerdict_eq_valid h
  · exact ⟨c.tip, c.tip_mem, htip⟩
  · exact ⟨b, hb, hhash⟩

/-- Up to the common ancestor is below the chain that is replaced. -/
theorem OnLedger.lt_first_of_le (h : c.OnLedger keccak256 L) {n : ℕ} (hn : n ≤ c.commonAncestor) :
    n < c.first.number := by
  have hpos := h.number_pos _ c.first_mem
  rw [commonAncestor] at hn
  omega

/-- Two chains on one block start at one height. -/
theorem OnLedger.first_number_eq {d : Chain} (h : c.OnLedger keccak256 L)
    (hd : d.OnLedger keccak256 L) (hparent : d.first.parentHash = c.first.parentHash) :
    d.first.number = c.first.number := by
  have hbase := h.number_base
  rw [← hparent, hd.number_base] at hbase
  exact hbase

/-- Below the chain, a block of it has the ancestors of the block the chain is built on, and lies
higher. -/
theorem OnLedger.ancestor_of_block (h : c.OnLedger keccak256 L) {b : Block} (hb : b ∈ c.blocks)
    {n : ℕ} (hfirst : n < c.first.number) :
    n < L.lineage.height b.hash ∧
      L.lineage.ancestor b.hash n = L.lineage.ancestor c.first.parentHash n := by
  have hle := c.first_number_le hb
  have hlt : n < L.lineage.height b.hash := by
    rw [h.number_hash hb]
    omega
  exact ⟨hlt, by rw [← h.ancestor_of_le (Or.inr ⟨b, hb, rfl⟩) hlt.le, h.ancestor_of_lt hfirst]⟩

/-- **What a `Valid` reorg keeps.**  A table that lists the ancestors of the current block lists, up
to the common ancestor, those of the block the new chain is built on. -/
theorem OnLedger.kept_of_valid_reorg {d : Chain} (h : c.OnLedger keccak256 L)
    (hparent : d.first.parentHash = c.first.parentHash)
    (hvalid : reorgVerdict current c = .valid)
    (hheight : L.lineage.height current.blockHash = current.block) {kept : ℕ → Option B256}
    (hkept : ∀ n hash, n ≤ current.block → kept n = some hash →
      hash = L.lineage.ancestor current.blockHash n) {n : ℕ} {hash : B256}
    (hn : n ≤ c.commonAncestor) (hlook : kept n = some hash) :
    hash = L.lineage.ancestor d.first.parentHash n := by
  obtain ⟨b, hb, hbhash⟩ := mem_of_valid hvalid
  obtain ⟨hlt, hanc⟩ := h.ancestor_of_block hb (h.lt_first_of_le hn)
  rw [hbhash] at hlt hanc
  rw [hparent, ← hanc]
  exact hkept n hash (by rw [← hheight]; exact hlt.le) hlook

/-- The block hashes of a reorg list the ancestors of the new tip, if what is kept lists those of
the block the new chain is built on. -/
theorem OnLedger.reorg_blockHashes (h : c.OnLedger keccak256 L) {cutoff : ℕ}
    {kept : ℕ → Option B256} (hkept : ∀ n hash, n ≤ cutoff → kept n = some hash →
      hash = L.lineage.ancestor c.first.parentHash n) {n : ℕ} {hash : B256}
    (hn : n ≤ c.tip.number)
    (hlook : (lastHash (extractBlockData c) n).or (if n ≤ cutoff then kept n else none) =
      some hash) : hash = L.lineage.ancestor c.tip.hash n := by
  have hcut : ∀ m hash, m < c.first.number → (if m ≤ cutoff then kept m else none) = some hash →
      hash = L.lineage.ancestor c.first.parentHash m := by
    intro m hash _ hkeep
    split at hkeep
    · rename_i hm
      exact hkept m hash hm hkeep
    · cases hkeep
  exact h.blockHashes hcut hn hlook

end Chain

/-! ## Snapshots on a block -/

variable (L) in
/-- The snapshot is at a block of the ledger. -/
structure StateSnapshot.OnBlock (s : StateSnapshot) : Prop where
  blockHash_ne : s.blockHash ≠ 0
  block_pos : 0 < s.block
  height : L.lineage.height s.blockHash = s.block

/-- The tip of a chain is a block to be on. -/
theorem Chain.OnLedger.onBlock {c : Chain} (h : c.OnLedger keccak256 L) {s : StateSnapshot}
    (hblock : s.block = c.tip.number) (hhash : s.blockHash = c.tip.hash) : s.OnBlock L where
  blockHash_ne := by rw [hhash]; exact h.hash_ne _ c.tip_mem
  block_pos := by rw [hblock]; exact h.number_pos _ c.tip_mem
  height := by rw [hhash, hblock]; exact h.number_hash c.tip_mem

/-- A snapshot on a block accepts no commit that does not connect, unless it is stale. -/
theorem StateSnapshot.OnBlock.commit_valid {s : StateSnapshot} (h : s.OnBlock L)
    (hstale : s.stale = false) {new : Chain} (hacc : (commitVerdict s new).isAcceptable = true) :
    commitVerdict s new = .valid := by
  refine (CommitValidation.isAcceptable_iff.mp hacc).resolve_right fun hany ↦ ?_
  rcases commitVerdict_eq_acceptAny.mp hany with (hblock | hhash) | htrue
  · exact h.block_pos.ne' hblock
  · exact h.blockHash_ne hhash
  · rw [hstale] at htrue
    cases htrue

/-- A snapshot on a block accepts no reorg that does not connect, stale or not. -/
theorem StateSnapshot.OnBlock.reorg_valid {s : StateSnapshot} (h : s.OnBlock L) {old : Chain}
    (hacc : (reorgVerdict s old).isAcceptable = true) : reorgVerdict s old = .valid := by
  refine (ReorgValidation.isAcceptable_iff.mp hacc).resolve_right fun hany ↦ ?_
  rcases reorgVerdict_eq_acceptAny.mp hany with hblock | hhash
  · exact h.block_pos.ne' hblock
  · exact h.blockHash_ne hhash

end RexSim
