import RethExt.RexSim.Basic
import RethExt.Lib.Window

/-!
# The snapshot and its histories

`StateSnapshot` is what a reader sees: the tip it stands on, the accounts, slots, code and block
hashes that are held, and two bounded histories.  The histories are deques in the source and lists
with the oldest entry first here; both push operations are `Window.push`.

The four reads of `DatabaseRef` are split at the channel: `basicRef` and its siblings say whether
the loaded snapshot answers by itself, or which request it sends to a fetch manager.  What becomes
of the request is the business of `RethExt.RexSim.ManagerCore`.
-/

set_option autoImplicit false

namespace RexSim

def receiptsHistoryDepth : ℕ := 64

structure BlockReceipts where
  block : ℕ
  receipts : List Receipt
  txHashes : List B256
  deriving DecidableEq

structure BlockChangedAccounts where
  block : ℕ
  accounts : List Address
  deriving DecidableEq

variable [Revm]

/-- The state at one block, as far as it is held. -/
structure StateSnapshot where
  block : ℕ := 0
  blockHash : B256 := 0
  header : Option SealedHeader := none
  withdrawals : Option Withdrawals := none
  accounts : HashMap Address AccountInfo := ∅
  code : HashMap B256 Bytecode := ∅
  storage : HashMap SlotKey U256 := ∅
  blockHashes : HashMap ℕ B256 := ∅
  receiptsHistory : List BlockReceipts := []
  changedAccountsHistory : List BlockChangedAccounts := []
  stale : Bool := false

namespace StateSnapshot

/-! ## The histories -/

/-- The receipts of a block, from the oldest entry that bears its number. -/
def receipts (s : StateSnapshot) (block : ℕ) : Option (List Receipt) :=
  (s.receiptsHistory.find? fun r ↦ r.block == block).map BlockReceipts.receipts

def receiptsAndTxHashes (s : StateSnapshot) (block : ℕ) : Option (List Receipt × List B256) :=
  (s.receiptsHistory.find? fun r ↦ r.block == block).map fun r ↦ (r.receipts, r.txHashes)

def pushReceipts (s : StateSnapshot) (block : ℕ) (receipts : List Receipt)
    (txHashes : List B256) : StateSnapshot :=
  { s with receiptsHistory :=
      Window.push receiptsHistoryDepth s.receiptsHistory ⟨block, receipts, txHashes⟩ }

def changedAccounts (s : StateSnapshot) (block : ℕ) : Option (List Address) :=
  (s.changedAccountsHistory.find? fun c ↦ c.block == block).map BlockChangedAccounts.accounts

def pushChangedAccounts (s : StateSnapshot) (block : ℕ) (accounts : List Address) :
    StateSnapshot :=
  { s with changedAccountsHistory :=
      Window.push receiptsHistoryDepth s.changedAccountsHistory ⟨block, accounts⟩ }

end StateSnapshot

/-! ## Reads -/

structure AccountRequest where
  address : Address
  block : ℕ
  blockHash : B256
  deriving DecidableEq

structure CodeRequest where
  codeHash : B256
  block : ℕ
  addressHint : Option Address
  deriving DecidableEq

structure StorageRequest where
  address : Address
  index : U256
  block : ℕ
  blockHash : B256
  deriving DecidableEq

structure BlockHashRequest where
  number : ℕ
  atBlockHash : B256
  deriving DecidableEq

/-- What a read makes of the snapshot it loaded: an answer, or a request to send. -/
inductive ReadOutcome (Req Resp : Type)
  | ready (result : Except SimError Resp)
  | fetch (request : Req)

namespace StateSnapshot

def basicRef (s : StateSnapshot) (address : Address) :
    ReadOutcome AccountRequest (Option AccountInfo) :=
  if s.stale then .ready (.error .staleState)
  else match s.accounts[address]? with
    | some info => .ready (.ok (some info))
    | none => .fetch ⟨address, s.block, s.blockHash⟩

def codeByHashRef (s : StateSnapshot) (codeHash : B256) : ReadOutcome CodeRequest Bytecode :=
  if s.stale then .ready (.error .staleState)
  else match s.code[codeHash]? with
    | some code => .ready (.ok code)
    | none => .fetch ⟨codeHash, s.block, none⟩

def storageRef (s : StateSnapshot) (key : SlotKey) : ReadOutcome StorageRequest U256 :=
  if s.stale then .ready (.error .staleState)
  else match s.storage[key]? with
    | some value => .ready (.ok value)
    | none => .fetch ⟨key.1, key.2, s.block, s.blockHash⟩

def blockHashRef (s : StateSnapshot) (number : ℕ) : ReadOutcome BlockHashRequest B256 :=
  if s.stale then .ready (.error .staleState)
  else match s.blockHashes[number]? with
    | some hash => .ready (.ok hash)
    | none => .fetch ⟨number, s.blockHash⟩

end StateSnapshot

end RexSim
