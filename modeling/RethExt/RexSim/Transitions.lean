import RethExt.RexSim.State
import RethExt.Lib.FoldMap

/-!
# Building the next snapshot

The pure part of the write path: merging the flushed caches, applying a chain's execution changes
to what is held, recording its blocks, and the four builders `buildCommitState`,
`buildReorgState`, `buildRevertState` and `markStale`.

Each function has its lemmas right after it, one for each field that later proofs read.
-/

set_option autoImplicit false

open Std

namespace RexSim

/-! ## Caches handed over by the fetch managers -/

/-- A manager's cache with the hash of the block its entries were fetched at. -/
structure TaggedCache (K V : Type) [Ord K] where
  blockHash : B256 := 0
  data : HashMap K V := ∅

def TaggedCache.isValidFor {K V : Type} [Ord K] (c : TaggedCache K V) (blockHash : B256) : Bool :=
  c.data.isEmpty || c.blockHash == blockHash

abbrev AccountCache := TaggedCache Address AccountInfo

abbrev StorageCache := TaggedCache SlotKey U256

abbrev BlockHashCache := TaggedCache ℕ B256

variable [Revm]

structure CodeCache where
  data : HashMap B256 Bytecode := ∅

/-- The four caches of one flush. -/
structure Caches where
  accounts : AccountCache := {}
  code : CodeCache := {}
  storage : StorageCache := {}
  blockHashes : BlockHashCache := {}

structure CacheMergeStats where
  accountsMerged : ℕ := 0
  accountsDiscarded : ℕ := 0
  storageMerged : ℕ := 0
  storageDiscarded : ℕ := 0
  blockHashesMerged : ℕ := 0
  blockHashesDiscarded : ℕ := 0
  codeMerged : ℕ := 0

/-- `extend` by a tagged cache, when its tag is the one asked for. -/
def TaggedCache.mergeInto {K V : Type} [Ord K] [TransOrd K] (c : TaggedCache K V)
    (held : HashMap K V) (currentHash : B256) : HashMap K V :=
  if c.isValidFor currentHash then held ∪ c.data else held

/-- What the statistics count: entries merged and entries discarded. -/
def TaggedCache.mergeCounts {K V : Type} [Ord K] (c : TaggedCache K V) (currentHash : B256) :
    ℕ × ℕ :=
  if c.isValidFor currentHash then (c.data.size, 0) else (0, c.data.size)

def mergeCaches (state : StateSnapshot) (caches : Caches) (currentHash : B256) :
    StateSnapshot × CacheMergeStats :=
  ({ state with
      accounts := caches.accounts.mergeInto state.accounts currentHash
      storage := caches.storage.mergeInto state.storage currentHash
      blockHashes := caches.blockHashes.mergeInto state.blockHashes currentHash
      code := state.code ∪ caches.code.data },
    { accountsMerged := (caches.accounts.mergeCounts currentHash).1
      accountsDiscarded := (caches.accounts.mergeCounts currentHash).2
      storageMerged := (caches.storage.mergeCounts currentHash).1
      storageDiscarded := (caches.storage.mergeCounts currentHash).2
      blockHashesMerged := (caches.blockHashes.mergeCounts currentHash).1
      blockHashesDiscarded := (caches.blockHashes.mergeCounts currentHash).2
      codeMerged := caches.code.data.size })

section TaggedCache

variable {K V : Type} [Ord K] [TransOrd K] {c : TaggedCache K V} {held : HashMap K V}
  {currentHash : B256} {k : K}

omit [Revm] in
/-- What was held and is not overwritten by the cache is still held. -/
theorem TaggedCache.mergeInto_of_data_eq_none (hk : c.data[k]? = none) :
    (c.mergeInto held currentHash)[k]? = held[k]? := by
  rw [mergeInto]
  split
  · rw [ExtTreeMap.getElem?_union, hk, Option.none_or]
  · rfl

omit [Revm] in
@[simp] theorem TaggedCache.mergeInto_empty [LawfulEqOrd K] :
    ({} : TaggedCache K V).mergeInto held currentHash = held := by
  refine ExtTreeMap.ext_getElem? fun k ↦ mergeInto_of_data_eq_none ?_
  exact ExtTreeMap.getElem?_empty

end TaggedCache

/-! ## Execution changes -/

/-- A chain's net change of one account: its info if there is one to write, and its slots. -/
structure AccountChange where
  info : Option AccountInfo := none
  storage : HashMap U256 U256 := ∅

structure ExecutionChanges where
  accounts : HashMap Address AccountChange := ∅
  contracts : HashMap B256 Bytecode := ∅

/-- One slot of the inner loop of `apply_execution_changes`. -/
def applySlotChange (address : Address) (state : StateSnapshot) (slot value : U256) :
    StateSnapshot :=
  { state with storage := state.storage.modify (address, slot) fun _ ↦ value }

/-- One round of the outer loop of `apply_execution_changes`. -/
def applyAccountChange (state : StateSnapshot) (address : Address) (change : AccountChange) :
    StateSnapshot :=
  let state := match change.info with
    | some info => { state with accounts := state.accounts.modify address fun _ ↦ info }
    | none => state
  change.storage.foldl (applySlotChange address) state

def insertContract (state : StateSnapshot) (codeHash : B256) (bytecode : Bytecode) :
    StateSnapshot :=
  { state with code := state.code.insert codeHash bytecode }

def applyExecutionChanges (state : StateSnapshot) (changes : ExecutionChanges) : StateSnapshot :=
  changes.contracts.foldl insertContract (changes.accounts.foldl applyAccountChange state)

/-- The info a chain's changes leave in place of a held one. -/
def ExecutionChanges.newInfo (changes : ExecutionChanges) (address : Address)
    (held : AccountInfo) : AccountInfo :=
  ((changes.accounts[address]?).bind AccountChange.info).getD held

/-- The value a chain's changes leave in a held slot. -/
def ExecutionChanges.newSlot (changes : ExecutionChanges) (key : SlotKey) (held : U256) : U256 :=
  ((changes.accounts[key.1]?).bind fun change ↦ change.storage[key.2]?).getD held

section apply

variable (s : StateSnapshot) (address : Address) (change : AccountChange)
  (changes : ExecutionChanges)

omit [Revm] in
private theorem getElem?_modify_const {K V : Type} [Ord K] [TransOrd K] [LawfulEqOrd K]
    [DecidableEq K] (m : HashMap K V) (k k' : K) (v : V) :
    (m.modify k fun _ ↦ v)[k']? = if k = k' then (m[k']?).map fun _ ↦ v else m[k']? := by
  rw [ExtTreeMap.getElem?_modify]
  simp only [LawfulEqCmp.compare_eq_iff_eq]
  split
  · rename_i h; rw [h]
  · rfl

/-- The snapshot without the three maps that execution changes write to. -/
private def frame (s : StateSnapshot) : StateSnapshot :=
  { s with accounts := ∅, storage := ∅, code := ∅ }

private theorem frame_foldl_applySlotChange (slots : HashMap U256 U256) :
    frame (slots.foldl (applySlotChange address) s) = frame s :=
  FoldMap.foldl_of_forall_eq frame (applySlotChange address) (fun _ _ _ ↦ rfl) slots s

private theorem frame_applyAccountChange :
    frame (applyAccountChange s address change) = frame s := by
  rw [applyAccountChange, frame_foldl_applySlotChange]
  cases change.info <;> rfl

private theorem frame_applyExecutionChanges :
    frame (applyExecutionChanges s changes) = frame s := by
  rw [applyExecutionChanges, FoldMap.foldl_of_forall_eq frame insertContract fun _ _ _ ↦ rfl,
    FoldMap.foldl_of_forall_eq frame applyAccountChange frame_applyAccountChange]

/-- A field the frame keeps is not touched. -/
private theorem field_applyExecutionChanges {β : Type} (field : StateSnapshot → β)
    (h : ∀ t, field (frame t) = field t) :
    field (applyExecutionChanges s changes) = field s := by
  rw [← h, frame_applyExecutionChanges, h]

@[simp] theorem applyExecutionChanges_stale : (applyExecutionChanges s changes).stale = s.stale :=
  field_applyExecutionChanges s changes StateSnapshot.stale fun _ ↦ rfl

@[simp] theorem applyExecutionChanges_blockHashes :
    (applyExecutionChanges s changes).blockHashes = s.blockHashes :=
  field_applyExecutionChanges s changes StateSnapshot.blockHashes fun _ ↦ rfl

@[simp] theorem applyExecutionChanges_receiptsHistory :
    (applyExecutionChanges s changes).receiptsHistory = s.receiptsHistory :=
  field_applyExecutionChanges s changes StateSnapshot.receiptsHistory fun _ ↦ rfl

@[simp] theorem applyExecutionChanges_changedAccountsHistory :
    (applyExecutionChanges s changes).changedAccountsHistory = s.changedAccountsHistory :=
  field_applyExecutionChanges s changes StateSnapshot.changedAccountsHistory fun _ ↦ rfl

private theorem applyAccountChange_accounts (a : Address) :
    (applyAccountChange s address change).accounts[a]? =
      if address = a then (s.accounts[a]?).map change.info.getD else s.accounts[a]? := by
  rw [applyAccountChange, FoldMap.foldl_of_forall_eq (fun t : StateSnapshot ↦ t.accounts[a]?)
    (applySlotChange address) fun _ _ _ ↦ rfl]
  cases change.info with
  | none =>
    change s.accounts[a]? = _
    cases s.accounts[a]? <;> split <;> rfl
  | some info => exact getElem?_modify_const s.accounts address a info

private theorem applySlotChange_storage (slot value : U256) (key : SlotKey) :
    (applySlotChange address s slot value).storage[key]? =
      if (address, slot) = key then (s.storage[key]?).map fun _ ↦ value else s.storage[key]? :=
  getElem?_modify_const s.storage (address, slot) key value

private theorem foldl_applySlotChange_storage (slots : HashMap U256 U256) (key : SlotKey) :
    (slots.foldl (applySlotChange address) s).storage[key]? =
      if address = key.1 then (s.storage[key]?).map (slots[key.2]?).getD
      else s.storage[key]? := by
  obtain ⟨a, slot⟩ := key
  split
  · rename_i ha
    change address = a at ha
    subst ha
    have h := FoldMap.get_foldl (fun (t : StateSnapshot) slot ↦ t.storage[(address, slot)]?)
      (fun slot ↦ slot) (applySlotChange address) (fun value _ held ↦ held.map fun _ ↦ value)
      (fun t value slot ↦ by rw [applySlotChange_storage, if_pos rfl])
      (fun t k value slot (hne : slot ≠ k) ↦ by
        rw [applySlotChange_storage, if_neg fun heq ↦ hne (Prod.ext_iff.mp heq).2.symm])
      slots s slot
    refine h.trans ?_
    cases slots[slot]? <;> cases s.storage[(address, slot)]? <;> rfl
  · rename_i ha
    refine FoldMap.foldl_of_forall_eq (fun t : StateSnapshot ↦ t.storage[(a, slot)]?)
      (applySlotChange address) (fun t k value ↦ ?_) slots s
    rw [applySlotChange_storage, if_neg fun heq ↦ ha (Prod.ext_iff.mp heq).1]

private theorem applyAccountChange_storage (key : SlotKey) :
    (applyAccountChange s address change).storage[key]? =
      if address = key.1 then (s.storage[key]?).map (change.storage[key.2]?).getD
      else s.storage[key]? := by
  rw [applyAccountChange, foldl_applySlotChange_storage]
  cases change.info <;> rfl

private theorem applyAccountChange_code (codeHash : B256) (s : StateSnapshot) (address : Address)
    (change : AccountChange) :
    (applyAccountChange s address change).code[codeHash]? = s.code[codeHash]? := by
  rw [applyAccountChange, FoldMap.foldl_of_forall_eq (fun t : StateSnapshot ↦ t.code[codeHash]?)
    (applySlotChange address) fun _ _ _ ↦ rfl]
  cases change.info <;> rfl

/-- **What `applyExecutionChanges` does to accounts**: a held one takes the info its change
carries, if it carries one, and nothing is added. -/
theorem applyExecutionChanges_accounts (a : Address) :
    (applyExecutionChanges s changes).accounts[a]? = (s.accounts[a]?).map (changes.newInfo a) := by
  rw [applyExecutionChanges, FoldMap.foldl_of_forall_eq
    (fun t : StateSnapshot ↦ t.accounts[a]?) insertContract fun _ _ _ ↦ rfl]
  have h := FoldMap.get_foldl (fun (t : StateSnapshot) a ↦ t.accounts[a]?) (fun a ↦ a)
    applyAccountChange (fun change _ held ↦ held.map change.info.getD)
    (fun t c a ↦ by rw [applyAccountChange_accounts, if_pos rfl])
    (fun t k c a (hne : a ≠ k) ↦ by rw [applyAccountChange_accounts, if_neg hne.symm])
    changes.accounts s a
  refine h.trans ?_
  cases hc : changes.accounts[a]? with
  | none => cases s.accounts[a]? <;> simp [ExecutionChanges.newInfo, hc]
  | some c => cases s.accounts[a]? <;> simp [ExecutionChanges.newInfo, hc]

/-- **What `applyExecutionChanges` does to storage**: a held slot takes the value its change
lists, if it lists one, and nothing is added. -/
theorem applyExecutionChanges_storage (key : SlotKey) :
    (applyExecutionChanges s changes).storage[key]? =
      (s.storage[key]?).map (changes.newSlot key) := by
  rw [applyExecutionChanges, FoldMap.foldl_of_forall_eq
    (fun t : StateSnapshot ↦ t.storage[key]?) insertContract fun _ _ _ ↦ rfl]
  have h := FoldMap.get_foldl (fun (t : StateSnapshot) key ↦ t.storage[key]?) Prod.fst
    applyAccountChange (fun change key held ↦ held.map (change.storage[key.2]?).getD)
    (fun t c key ↦ by rw [applyAccountChange_storage, if_pos rfl])
    (fun t k c key hne ↦ by rw [applyAccountChange_storage, if_neg hne.symm])
    changes.accounts s key
  refine h.trans ?_
  cases hc : changes.accounts[key.1]? with
  | none => cases s.storage[key]? <;> simp [ExecutionChanges.newSlot, hc]
  | some c => cases s.storage[key]? <;> simp [ExecutionChanges.newSlot, hc]

/-- **What `applyExecutionChanges` does to code**: it inserts the chain's contracts. -/
theorem applyExecutionChanges_code (codeHash : B256) :
    (applyExecutionChanges s changes).code[codeHash]? =
      (changes.contracts[codeHash]?).or s.code[codeHash]? := by
  have h := FoldMap.get_foldl (fun (t : StateSnapshot) codeHash ↦ t.code[codeHash]?)
    (fun codeHash ↦ codeHash) insertContract (fun bytecode _ _ ↦ some bytecode)
    (fun t c codeHash ↦ by rw [insertContract, ExtTreeMap.getElem?_insert_self])
    (fun t k c codeHash (hne : codeHash ≠ k) ↦ by
      rw [insertContract, ExtTreeMap.getElem?_insert,
        if_neg fun heq ↦ hne (LawfulEqCmp.eq_of_compare heq).symm])
    changes.contracts (changes.accounts.foldl applyAccountChange s) codeHash
  rw [applyExecutionChanges]
  refine h.trans ?_
  rw [FoldMap.foldl_of_forall_eq (fun t : StateSnapshot ↦ t.code[codeHash]?) applyAccountChange
    (applyAccountChange_code codeHash)]
  cases changes.contracts[codeHash]? <;> rfl

end apply

/-! ## Block data -/

structure BlockData where
  number : ℕ
  hash : B256
  header : SealedHeader
  withdrawals : Option Withdrawals
  receipts : List Receipt
  txHashes : List B256

structure ChainTip where
  number : ℕ
  hash : B256

/-- The history entry of a block. -/
def BlockData.entry (b : BlockData) : BlockReceipts := ⟨b.number, b.receipts, b.txHashes⟩

/-- One round of the loop of `apply_block_data`. -/
def applyBlock (state : StateSnapshot) (block : BlockData) : StateSnapshot :=
  let state := state.pushReceipts block.number block.receipts block.txHashes
  { state with blockHashes := state.blockHashes.insert block.number block.hash }

def applyBlockData (state : StateSnapshot) (blocks : List BlockData) : StateSnapshot :=
  let state := blocks.foldl applyBlock state
  match blocks.getLast? with
  | some tip => { state with header := some tip.header, withdrawals := tip.withdrawals }
  | none => state

/-- The hash of the last of the blocks numbered `n`. -/
def lastHash (blocks : List BlockData) (n : ℕ) : Option B256 :=
  (blocks.reverse.find? fun b ↦ b.number == n).map BlockData.hash

section applyBlockData

variable (s : StateSnapshot) (blocks : List BlockData)

/-- A field that neither the loop nor the tip touches. -/
private theorem field_applyBlockData {β : Type} (field : StateSnapshot → β)
    (hblock : ∀ s b, field (applyBlock s b) = field s)
    (htip : ∀ (s : StateSnapshot) h w, field { s with header := h, withdrawals := w } = field s) :
    field (applyBlockData s blocks) = field s := by
  have hfold : ∀ s, field (blocks.foldl applyBlock s) = field s := by
    induction blocks with
    | nil => exact fun _ ↦ rfl
    | cons b bs ih => intro s; rw [List.foldl_cons, ih, hblock]
  rw [applyBlockData]
  split
  · rw [htip, hfold]
  · exact hfold s

@[simp] theorem applyBlockData_accounts : (applyBlockData s blocks).accounts = s.accounts :=
  field_applyBlockData s blocks StateSnapshot.accounts (fun _ _ ↦ rfl) fun _ _ _ ↦ rfl

@[simp] theorem applyBlockData_storage : (applyBlockData s blocks).storage = s.storage :=
  field_applyBlockData s blocks StateSnapshot.storage (fun _ _ ↦ rfl) fun _ _ _ ↦ rfl

@[simp] theorem applyBlockData_code : (applyBlockData s blocks).code = s.code :=
  field_applyBlockData s blocks StateSnapshot.code (fun _ _ ↦ rfl) fun _ _ _ ↦ rfl

@[simp] theorem applyBlockData_stale : (applyBlockData s blocks).stale = s.stale :=
  field_applyBlockData s blocks StateSnapshot.stale (fun _ _ ↦ rfl) fun _ _ _ ↦ rfl

@[simp] theorem applyBlockData_changedAccountsHistory :
    (applyBlockData s blocks).changedAccountsHistory = s.changedAccountsHistory :=
  field_applyBlockData s blocks StateSnapshot.changedAccountsHistory (fun _ _ ↦ rfl)
    fun _ _ _ ↦ rfl

@[simp] theorem applyBlockData_receiptsHistory :
    (applyBlockData s blocks).receiptsHistory =
      Window.pushAll receiptsHistoryDepth s.receiptsHistory (blocks.map BlockData.entry) := by
  have hfold : ∀ s : StateSnapshot, (blocks.foldl applyBlock s).receiptsHistory =
      Window.pushAll receiptsHistoryDepth s.receiptsHistory (blocks.map BlockData.entry) := by
    induction blocks with
    | nil => exact fun _ ↦ rfl
    | cons b bs ih => intro s; rw [List.foldl_cons, ih]; rfl
  rw [applyBlockData, ← hfold]
  split <;> rfl

private theorem foldl_applyBlock_blockHashes (n : ℕ) :
    (blocks.foldl applyBlock s).blockHashes[n]? =
      (lastHash blocks n).or s.blockHashes[n]? := by
  induction blocks generalizing s with
  | nil => rfl
  | cons b bs ih =>
    have hb : (applyBlock s b).blockHashes[n]? =
        if b.number = n then some b.hash else s.blockHashes[n]? := by
      rw [applyBlock, ExtTreeMap.getElem?_insert]
      simp only [LawfulEqCmp.compare_eq_iff_eq]
      rfl
    rw [List.foldl_cons, ih, hb, lastHash, lastHash, List.reverse_cons, List.find?_append]
    cases List.find? (fun b ↦ b.number == n) bs.reverse with
    | some c => rfl
    | none =>
      by_cases hn : b.number = n
      · simp [hn]
      · simp [hn]

/-- The block hash recorded at `n` is that of the last applied block numbered `n`, or else the one
that was held. -/
theorem applyBlockData_blockHashes (n : ℕ) :
    (applyBlockData s blocks).blockHashes[n]? = (lastHash blocks n).or s.blockHashes[n]? := by
  rw [← foldl_applyBlock_blockHashes, applyBlockData]
  split <;> rfl

variable {blocks}

omit [Revm] in
/-- A hash the blocks give a height is the hash of one of them. -/
theorem exists_of_lastHash_eq_some {n : ℕ} {hash : B256} (h : lastHash blocks n = some hash) :
    ∃ b ∈ blocks, b.number = n ∧ b.hash = hash := by
  rw [lastHash, Option.map_eq_some_iff] at h
  obtain ⟨b, hfind, hhash⟩ := h
  refine ⟨b, List.mem_reverse.mp (List.mem_of_find?_eq_some hfind), ?_, hhash⟩
  simpa using List.find?_some hfind

omit [Revm] in
theorem lastHash_eq_none_iff {n : ℕ} : lastHash blocks n = none ↔ ∀ b ∈ blocks, b.number ≠ n := by
  simp [lastHash]

omit [Revm] in
/-- A block whose number determines its hash among the blocks has that hash found. -/
theorem lastHash_of_mem {b : BlockData} (hb : b ∈ blocks)
    (huniq : ∀ c ∈ blocks, c.number = b.number → c.hash = b.hash) :
    lastHash blocks b.number = some b.hash := by
  cases hl : lastHash blocks b.number with
  | none => exact absurd rfl (lastHash_eq_none_iff.mp hl b hb)
  | some hash =>
    obtain ⟨c, hc, hn, rfl⟩ := exists_of_lastHash_eq_some hl
    rw [huniq c hc hn]

variable (blocks)

theorem applyBlockData_header {tip : BlockData} (h : blocks.getLast? = some tip) :
    (applyBlockData s blocks).header = some tip.header := by
  rw [applyBlockData, h]

theorem applyBlockData_withdrawals {tip : BlockData} (h : blocks.getLast? = some tip) :
    (applyBlockData s blocks).withdrawals = tip.withdrawals := by
  rw [applyBlockData, h]

end applyBlockData

/-! ## The four builders -/

/-- The addresses a chain changed, in ascending order. -/
def ExecutionChanges.changedAddresses (changes : ExecutionChanges) : List Address :=
  changes.accounts.keys

def buildCommitState (current : StateSnapshot) (caches : Caches) (changes : ExecutionChanges)
    (blocks : List BlockData) (tip : ChainTip) : StateSnapshot × CacheMergeStats :=
  let newState := { current with stale := false }
  let (newState, stats) := mergeCaches newState caches current.blockHash
  let newState := applyExecutionChanges newState changes
  let newState := applyBlockData newState blocks
  let newState := newState.pushChangedAccounts tip.number changes.changedAddresses
  ({ newState with block := tip.number, blockHash := tip.hash }, stats)

section buildCommitState

variable (current : StateSnapshot) (caches : Caches) (changes : ExecutionChanges)
  (blocks : List BlockData) (tip : ChainTip)

@[simp] theorem buildCommitState_block :
    (buildCommitState current caches changes blocks tip).1.block = tip.number := rfl

@[simp] theorem buildCommitState_blockHash :
    (buildCommitState current caches changes blocks tip).1.blockHash = tip.hash := rfl

@[simp] theorem buildCommitState_stale :
    (buildCommitState current caches changes blocks tip).1.stale = false := by
  simp [buildCommitState, mergeCaches, StateSnapshot.pushChangedAccounts]

/-- The accounts of a commit: those held and those merged, under the chain's changes. -/
theorem buildCommitState_accounts (a : Address) :
    (buildCommitState current caches changes blocks tip).1.accounts[a]? =
      ((caches.accounts.mergeInto current.accounts current.blockHash)[a]?).map
        (changes.newInfo a) := by
  simp only [buildCommitState, StateSnapshot.pushChangedAccounts, applyBlockData_accounts]
  exact applyExecutionChanges_accounts _ changes a

/-- The slots of a commit: those held and those merged, under the chain's changes. -/
theorem buildCommitState_storage (key : SlotKey) :
    (buildCommitState current caches changes blocks tip).1.storage[key]? =
      ((caches.storage.mergeInto current.storage current.blockHash)[key]?).map
        (changes.newSlot key) := by
  simp only [buildCommitState, StateSnapshot.pushChangedAccounts, applyBlockData_storage]
  exact applyExecutionChanges_storage _ changes key

/-- The block hashes of a commit: the chain's own over those held and those merged. -/
theorem buildCommitState_blockHashes (n : ℕ) :
    (buildCommitState current caches changes blocks tip).1.blockHashes[n]? =
      (lastHash blocks n).or
        (caches.blockHashes.mergeInto current.blockHashes current.blockHash)[n]? := by
  simp only [buildCommitState, StateSnapshot.pushChangedAccounts, applyBlockData_blockHashes,
    applyExecutionChanges_blockHashes]
  rfl

/-- The code of a commit: the chain's contracts over what was held and what was merged. -/
theorem buildCommitState_code (codeHash : B256) :
    (buildCommitState current caches changes blocks tip).1.code[codeHash]? =
      (changes.contracts[codeHash]?).or
        ((caches.code.data[codeHash]?).or current.code[codeHash]?) := by
  simp only [buildCommitState, StateSnapshot.pushChangedAccounts, applyBlockData_code,
    applyExecutionChanges_code]
  rw [mergeCaches, ExtTreeMap.getElem?_union]

@[simp] theorem buildCommitState_receiptsHistory :
    (buildCommitState current caches changes blocks tip).1.receiptsHistory =
      Window.pushAll receiptsHistoryDepth current.receiptsHistory
        (blocks.map BlockData.entry) := by
  simp [buildCommitState, mergeCaches, StateSnapshot.pushChangedAccounts]

@[simp] theorem buildCommitState_changedAccountsHistory :
    (buildCommitState current caches changes blocks tip).1.changedAccountsHistory =
      Window.push receiptsHistoryDepth current.changedAccountsHistory
        ⟨tip.number, changes.changedAddresses⟩ := by
  simp [buildCommitState, mergeCaches, StateSnapshot.pushChangedAccounts]

theorem buildCommitState_header {last : BlockData} (h : blocks.getLast? = some last) :
    (buildCommitState current caches changes blocks tip).1.header = some last.header :=
  applyBlockData_header _ blocks h

theorem buildCommitState_withdrawals {last : BlockData} (h : blocks.getLast? = some last) :
    (buildCommitState current caches changes blocks tip).1.withdrawals = last.withdrawals :=
  applyBlockData_withdrawals _ blocks h

end buildCommitState

def copyHistoryBefore (current : StateSnapshot) (cutoff : ℕ) (newState : StateSnapshot) :
    StateSnapshot :=
  { newState with
    receiptsHistory :=
      newState.receiptsHistory ++ current.receiptsHistory.filter fun r ↦ r.block ≤ cutoff
    changedAccountsHistory :=
      newState.changedAccountsHistory ++
        current.changedAccountsHistory.filter fun c ↦ c.block ≤ cutoff
    blockHashes := newState.blockHashes ∪ current.blockHashes.filter fun n _ ↦ n ≤ cutoff
    code := current.code }

/-- Up to the cutoff, the block hashes that were held take precedence over the new state's. -/
theorem copyHistoryBefore_blockHashes (current : StateSnapshot) (cutoff : ℕ)
    (newState : StateSnapshot) (n : ℕ) :
    (copyHistoryBefore current cutoff newState).blockHashes[n]? =
      (if n ≤ cutoff then current.blockHashes[n]? else none).or newState.blockHashes[n]? := by
  rw [copyHistoryBefore, ExtTreeMap.getElem?_union, ExtTreeMap.getElem?_filter']
  congr 1
  cases current.blockHashes[n]? <;> simp [Option.filter]

def buildReorgState (current : StateSnapshot) (commonAncestor : ℕ) (changes : ExecutionChanges)
    (blocks : List BlockData) (tip : ChainTip) : StateSnapshot :=
  let newState := copyHistoryBefore current commonAncestor {}
  let newState := applyExecutionChanges newState changes
  let newState := applyBlockData newState blocks
  let newState := newState.pushChangedAccounts tip.number changes.changedAddresses
  { newState with block := tip.number, blockHash := tip.hash }

section buildReorgState

variable (current : StateSnapshot) (commonAncestor : ℕ) (changes : ExecutionChanges)
  (blocks : List BlockData) (tip : ChainTip)

@[simp] theorem buildReorgState_block :
    (buildReorgState current commonAncestor changes blocks tip).block = tip.number := rfl

@[simp] theorem buildReorgState_blockHash :
    (buildReorgState current commonAncestor changes blocks tip).blockHash = tip.hash := rfl

@[simp] theorem buildReorgState_stale :
    (buildReorgState current commonAncestor changes blocks tip).stale = false := by
  simp [buildReorgState, copyHistoryBefore, StateSnapshot.pushChangedAccounts]

/-- A reorg leaves no account held: the new chain's changes land on nothing. -/
@[simp] theorem buildReorgState_accounts :
    (buildReorgState current commonAncestor changes blocks tip).accounts = ∅ := by
  refine ExtTreeMap.ext_getElem? fun a ↦ ?_
  simp only [buildReorgState, StateSnapshot.pushChangedAccounts, applyBlockData_accounts,
    applyExecutionChanges_accounts, copyHistoryBefore]
  simp

/-- A reorg leaves no slot held. -/
@[simp] theorem buildReorgState_storage :
    (buildReorgState current commonAncestor changes blocks tip).storage = ∅ := by
  refine ExtTreeMap.ext_getElem? fun key ↦ ?_
  simp only [buildReorgState, StateSnapshot.pushChangedAccounts, applyBlockData_storage,
    applyExecutionChanges_storage, copyHistoryBefore]
  simp

/-- The block hashes of a reorg: the new chain's over those held up to the common ancestor. -/
theorem buildReorgState_blockHashes (n : ℕ) :
    (buildReorgState current commonAncestor changes blocks tip).blockHashes[n]? =
      (lastHash blocks n).or
        (if n ≤ commonAncestor then current.blockHashes[n]? else none) := by
  simp only [buildReorgState, StateSnapshot.pushChangedAccounts, applyBlockData_blockHashes,
    applyExecutionChanges_blockHashes, copyHistoryBefore_blockHashes]
  simp

/-- The code of a reorg: the new chain's contracts over all that was held. -/
theorem buildReorgState_code (codeHash : B256) :
    (buildReorgState current commonAncestor changes blocks tip).code[codeHash]? =
      (changes.contracts[codeHash]?).or current.code[codeHash]? := by
  simp only [buildReorgState, StateSnapshot.pushChangedAccounts, applyBlockData_code,
    applyExecutionChanges_code]
  rfl

@[simp] theorem buildReorgState_receiptsHistory :
    (buildReorgState current commonAncestor changes blocks tip).receiptsHistory =
      Window.pushAll receiptsHistoryDepth
        (current.receiptsHistory.filter fun r ↦ r.block ≤ commonAncestor)
        (blocks.map BlockData.entry) := by
  simp [buildReorgState, copyHistoryBefore, StateSnapshot.pushChangedAccounts]

@[simp] theorem buildReorgState_changedAccountsHistory :
    (buildReorgState current commonAncestor changes blocks tip).changedAccountsHistory =
      Window.push receiptsHistoryDepth
        (current.changedAccountsHistory.filter fun c ↦ c.block ≤ commonAncestor)
        ⟨tip.number, changes.changedAddresses⟩ := by
  simp [buildReorgState, copyHistoryBefore, StateSnapshot.pushChangedAccounts]

theorem buildReorgState_header {last : BlockData} (h : blocks.getLast? = some last) :
    (buildReorgState current commonAncestor changes blocks tip).header = some last.header :=
  applyBlockData_header _ blocks h

theorem buildReorgState_withdrawals {last : BlockData} (h : blocks.getLast? = some last) :
    (buildReorgState current commonAncestor changes blocks tip).withdrawals = last.withdrawals :=
  applyBlockData_withdrawals _ blocks h

end buildReorgState

def buildRevertState (current : StateSnapshot) (commonAncestor : ℕ) : StateSnapshot :=
  copyHistoryBefore current commonAncestor { stale := true, block := commonAncestor }

theorem buildRevertState_blockHashes (current : StateSnapshot) (commonAncestor n : ℕ) :
    (buildRevertState current commonAncestor).blockHashes[n]? =
      if n ≤ commonAncestor then current.blockHashes[n]? else none := by
  rw [buildRevertState, copyHistoryBefore_blockHashes]
  simp

def markStale (state : StateSnapshot) : StateSnapshot := { state with stale := true }

end RexSim
