import RethExt.RexSim.Transitions
import RethExt.RexSim.Validation

/-!
# What a notification does to the snapshot

The sequential part of `run_changeset_manager`: from a notification to the verdict on it, and from
an accepted one to the arguments of the builders.  `handleNotification` is one round of its loop
with the flush taken out: it is given the snapshot that was loaded at the start of the round and
the four caches the flush returned.

A `Chain` carries the proof that it is one.  It is never empty, which is what `first` and `tip`
rely on, and its blocks are consecutive and linked by parent hash, as reth builds it.
-/

set_option autoImplicit false

open Std

namespace RexSim

/-! ## Chains -/

/-- A block with its receipts, as far as it is read. -/
structure Block where
  header : SealedHeader
  withdrawals : Option Withdrawals := none
  txHashes : List B256 := []
  receipts : List Receipt := []
  deriving DecidableEq

namespace Block

abbrev number (b : Block) : ℕ := b.header.number

abbrev hash (b : Block) : B256 := b.header.hash

abbrev parentHash (b : Block) : B256 := b.header.parentHash

def info (b : Block) : BlockInfo := ⟨b.number, b.hash, b.parentHash⟩

/-- The block is the next one after `a`. -/
abbrev Follows (b a : Block) : Prop := b.number = a.number + 1 ∧ b.parentHash = a.hash

end Block

/-- A slot of a bundle account; only its present value is read. -/
structure StorageSlot where
  presentValue : U256

/-- An account of a bundle.  `destroyed` says whether its status is one of the destroyed ones; the
extraction does not read it. -/
structure BundleAccount where
  info : Option AccountInfo := none
  storage : HashMap U256 StorageSlot := ∅
  destroyed : Bool := false

variable [Revm]

/-- revm's `BundleState`: the net diff of a chain. -/
structure BundleState where
  state : HashMap Address BundleAccount := ∅
  contracts : HashMap B256 Bytecode := ∅

/-- A chain of blocks with their receipts, and the diff from the state before its first block to
the state after its last. -/
structure Chain where
  blocks : List Block
  bundle : BundleState := {}
  nonempty : blocks ≠ []
  linked : blocks.IsChain fun a b ↦ b.Follows a

namespace Chain

variable (c : Chain)

def first : Block := c.blocks.head c.nonempty

def tip : Block := c.blocks.getLast c.nonempty

/-- The numbers and hashes the validator looks at. -/
def ids : List (ℕ × B256) := c.blocks.map fun b ↦ (b.number, b.hash)

theorem first_mem : c.first ∈ c.blocks := List.head_mem c.nonempty

theorem tip_mem : c.tip ∈ c.blocks := List.getLast_mem c.nonempty

end Chain

inductive ExExNotification
  | chainCommitted (new : Chain)
  | chainReorged (old new : Chain)
  | chainReverted (old : Chain)

/-! ## Extraction -/

def BundleAccount.change (account : BundleAccount) : AccountChange where
  info := account.info
  storage := account.storage.map fun _ slot ↦ slot.presentValue

def extractExecutionChanges (chain : Chain) : ExecutionChanges where
  accounts := chain.bundle.state.map fun _ account ↦ account.change
  contracts := chain.bundle.contracts.map fun _ bytecode ↦
    .newRaw bytecode.originalBytes bytecode.taken

def Block.data (b : Block) : BlockData where
  number := b.number
  hash := b.hash
  header := b.header
  withdrawals := b.withdrawals
  receipts := b.receipts
  txHashes := b.txHashes

def extractBlockData (chain : Chain) : List BlockData := chain.blocks.map Block.data

def extractLogs (chain : Chain) : List Log :=
  chain.blocks.flatMap fun b ↦ b.receipts.flatMap Receipt.logs

def Chain.chainTip (c : Chain) : ChainTip := ⟨c.tip.number, c.tip.hash⟩

section extract

variable (chain : Chain)

theorem extractExecutionChanges_newInfo (address : Address) (held : AccountInfo) :
    (extractExecutionChanges chain).newInfo address held =
      ((chain.bundle.state[address]?).bind BundleAccount.info).getD held := by
  rw [ExecutionChanges.newInfo, extractExecutionChanges, ExtTreeMap.getElem?_map]
  cases chain.bundle.state[address]? <;> rfl

theorem extractExecutionChanges_newSlot (key : SlotKey) (held : U256) :
    (extractExecutionChanges chain).newSlot key held =
      ((chain.bundle.state[key.1]?).bind fun account ↦
        (account.storage[key.2]?).map StorageSlot.presentValue).getD held := by
  rw [ExecutionChanges.newSlot, extractExecutionChanges, ExtTreeMap.getElem?_map]
  cases chain.bundle.state[key.1]? with
  | none => rfl
  | some account =>
    simp only [Option.map_some, Option.bind_some, BundleAccount.change, ExtTreeMap.getElem?_map]

/-- The history entries a chain is recorded by. -/
def Chain.entries : List BlockReceipts :=
  chain.blocks.map fun b ↦ ⟨b.number, b.receipts, b.txHashes⟩

@[simp] theorem extractBlockData_map_entry :
    (extractBlockData chain).map BlockData.entry = chain.entries := by
  rw [extractBlockData, List.map_map]
  rfl

theorem extractBlockData_getLast? : (extractBlockData chain).getLast? = some chain.tip.data := by
  rw [extractBlockData, List.getLast?_map, List.getLast?_eq_some_getLast chain.nonempty]
  rfl

end extract

/-! ## One round of the loop -/

/-- The verdict on a commit. -/
def commitVerdict (current : StateSnapshot) (new : Chain) : CommitValidation :=
  validateChainCommitted ⟨current.block, current.blockHash, current.stale⟩ new.first.info new.ids

/-- The verdict on a reorg; staleness is not looked at. -/
def reorgVerdict (current : StateSnapshot) (old : Chain) : ReorgValidation :=
  validateChainReorged ⟨current.block, current.blockHash, false⟩ old.tip.info old.ids

/-- The block below the first one of the replaced chain. -/
def Chain.commonAncestor (old : Chain) : ℕ := old.first.number - 1

structure StateUpdate where
  block : ℕ
  blockHash : B256
  generation : ℕ
  deriving DecidableEq

/-- The snapshot one round of `run_changeset_manager` swaps in. -/
def nextSnapshot (current : StateSnapshot) (caches : Caches) :
    ExExNotification → StateSnapshot
  | .chainCommitted new =>
    if (commitVerdict current new).isAcceptable then
      (buildCommitState current caches (extractExecutionChanges new) (extractBlockData new)
        new.chainTip).1
    else markStale current
  | .chainReorged old new =>
    if (reorgVerdict current old).isAcceptable then
      buildReorgState current old.commonAncestor (extractExecutionChanges new)
        (extractBlockData new) new.chainTip
    else markStale current
  | .chainReverted old => buildRevertState current old.commonAncestor

/-- The notification is applied rather than answered by staleness. -/
def ExExNotification.isAccepted (current : StateSnapshot) : ExExNotification → Bool
  | .chainCommitted new => (commitVerdict current new).isAcceptable
  | .chainReorged old _ => (reorgVerdict current old).isAcceptable
  | .chainReverted _ => true

/-- What one round publishes: the snapshot it swaps in, the update it sends, the logs it hands to
the sink, and the tip the ready signal would fire with. -/
structure Round where
  snapshot : StateSnapshot
  update : Option StateUpdate := none
  logs : List Log := []
  ready : Option ℕ := none

/-- One round of `run_changeset_manager`, in which the swap takes the generation from `generation`
to the next. -/
def handleNotification (current : StateSnapshot) (generation : ℕ) (caches : Caches)
    (n : ExExNotification) : Round :=
  let snapshot := nextSnapshot current caches n
  if n.isAccepted current then
    match n with
    | .chainCommitted new | .chainReorged _ new =>
      { snapshot
        update := some ⟨new.tip.number, new.tip.hash, generation + 1⟩
        logs := extractLogs new
        ready := some new.tip.number }
    | .chainReverted old => { snapshot, update := some ⟨old.commonAncestor, 0, generation + 1⟩ }
  else { snapshot }

section handleNotification

variable {current : StateSnapshot} (generation : ℕ) (caches : Caches)

/-- The snapshot an accepted commit publishes. -/
theorem nextSnapshot_committed {new : Chain}
    (h : (commitVerdict current new).isAcceptable = true) :
    nextSnapshot current caches (.chainCommitted new) =
      (buildCommitState current caches (extractExecutionChanges new) (extractBlockData new)
        new.chainTip).1 := by
  rw [nextSnapshot, if_pos h]

/-- The snapshot an accepted reorg publishes. -/
theorem nextSnapshot_reorged {old new : Chain}
    (h : (reorgVerdict current old).isAcceptable = true) :
    nextSnapshot current caches (.chainReorged old new) =
      buildReorgState current old.commonAncestor (extractExecutionChanges new)
        (extractBlockData new) new.chainTip := by
  rw [nextSnapshot, if_pos h]

/-- **A rejected notification** latches staleness and changes nothing else. -/
theorem nextSnapshot_of_not_accepted {n : ExExNotification} (h : n.isAccepted current = false) :
    nextSnapshot current caches n = markStale current := by
  rw [ExExNotification.isAccepted.eq_def] at h
  cases n with
  | chainCommitted new => rw [nextSnapshot, if_neg (by simp [h])]
  | chainReorged old new => rw [nextSnapshot, if_neg (by simp [h])]
  | chainReverted old => cases h

@[simp] theorem handleNotification_snapshot (n : ExExNotification) :
    (handleNotification current generation caches n).snapshot = nextSnapshot current caches n := by
  rw [handleNotification.eq_def]
  dsimp only
  split
  · cases n <;> rfl
  · rfl

/-- **Announcements.**  A rejected notification is not announced, and an accepted one is announced
with the block and the hash of the snapshot it publishes. -/
theorem handleNotification_update (n : ExExNotification) :
    (handleNotification current generation caches n).update =
      if n.isAccepted current then
        some ⟨(nextSnapshot current caches n).block, (nextSnapshot current caches n).blockHash,
          generation + 1⟩
      else none := by
  rw [handleNotification.eq_def]
  by_cases h : n.isAccepted current = true
  · simp only [if_pos h]
    cases n with
    | chainCommitted new => rw [nextSnapshot_committed caches h]; rfl
    | chainReorged old new => rw [nextSnapshot_reorged caches h]; rfl
    | chainReverted old => rfl
  · simp only [if_neg h]

end handleNotification

/-- **What a `Valid` commit means**: the current block is the parent of the chain's first block, or
a block of the chain. -/
theorem commitVerdict_eq_valid {current : StateSnapshot} {new : Chain}
    (h : commitVerdict current new = .valid) :
    current.block ≠ 0 ∧ current.blockHash ≠ 0 ∧ current.stale = false ∧
      (new.first.number = current.block + 1 ∧ new.first.parentHash = current.blockHash ∨
        ∃ b ∈ new.blocks, b.number = current.block ∧ b.hash = current.blockHash) := by
  obtain ⟨⟨hinit, hstale⟩, hconn⟩ := validateChainCommitted_eq_valid h
  obtain ⟨hblock, hhash⟩ := CurrentState.isInitial_eq_false.mp hinit
  refine ⟨hblock, hhash, hstale, hconn.imp id ?_⟩
  rintro ⟨-, hmem⟩
  obtain ⟨b, hb, heq⟩ := List.mem_map.mp hmem
  exact ⟨b, hb, (Prod.ext_iff.mp heq).1, (Prod.ext_iff.mp heq).2⟩

/-- `AcceptAny` is given to a snapshot that is initial, reverted or stale. -/
theorem commitVerdict_eq_acceptAny {current : StateSnapshot} {new : Chain} :
    commitVerdict current new = .acceptAny ↔
      (current.block = 0 ∨ current.blockHash = 0) ∨ current.stale = true := by
  rw [commitVerdict, validateChainCommitted_eq_acceptAny, CurrentState.isInitial_eq_true]

theorem reorgVerdict_eq_acceptAny {current : StateSnapshot} {old : Chain} :
    reorgVerdict current old = .acceptAny ↔ current.block = 0 ∨ current.blockHash = 0 := by
  rw [reorgVerdict, validateChainReorged_eq_acceptAny, CurrentState.isInitial_eq_true]

/-- **What a `Valid` reorg means**: the current block is the tip of the old chain, or a block of
it. -/
theorem reorgVerdict_eq_valid {current : StateSnapshot} {old : Chain}
    (h : reorgVerdict current old = .valid) :
    current.block ≠ 0 ∧ current.blockHash ≠ 0 ∧
      (old.tip.hash = current.blockHash ∨
        ∃ b ∈ old.blocks, b.number = current.block ∧ b.hash = current.blockHash) := by
  obtain ⟨hinit, hconn⟩ := validateChainReorged_eq_valid h
  obtain ⟨hblock, hhash⟩ := CurrentState.isInitial_eq_false.mp hinit
  refine ⟨hblock, hhash, hconn.imp id ?_⟩
  intro hmem
  obtain ⟨b, hb, heq⟩ := List.mem_map.mp hmem
  exact ⟨b, hb, (Prod.ext_iff.mp heq).1, (Prod.ext_iff.mp heq).2⟩

end RexSim
