import RethExt.RexSim.Transitions

/-!
# Batching a commit does not matter

A node may hand over a sequence of blocks in one commit or in several.  `Batch` is what one commit
brings, and `Batch.concat` what the commits of a sequence bring together: all their blocks, and
their changes composed by `ExecutionChanges.andThen`, in which the later side wins and an account
without a later info keeps the earlier one.

`commitAll_alike` says that the snapshot after the sequence is the one after the single commit,
apart from the changed-accounts history, which has an entry for each commit.

Two facts carry it: an update of the held keys by composed changes is the update by the one after
the update by the other (`newInfo_andThen`, `newSlot_andThen`), and a window that is pushed a list
in two parts is pushed the whole list (`Window.pushAll_append`).
-/

set_option autoImplicit false

open Std

namespace RexSim

variable [Revm]

/-! ## Composed changes -/

/-- The change of an account by `earlier` and `later` together. -/
def AccountChange.andThen (earlier later : AccountChange) : AccountChange where
  info := later.info.or earlier.info
  storage := earlier.storage ∪ later.storage

/-- Compose the change of one account with a later one. -/
def composeAccount (accounts : HashMap Address AccountChange) (address : Address)
    (later : AccountChange) : HashMap Address AccountChange :=
  accounts.insert address ((accounts[address]?.getD {}).andThen later)

/-- The changes of two consecutive chains together: the later info, slot value and contract win,
and an absent info keeps the earlier one. -/
def ExecutionChanges.andThen (earlier later : ExecutionChanges) : ExecutionChanges where
  accounts := later.accounts.foldl composeAccount earlier.accounts
  contracts := earlier.contracts ∪ later.contracts

namespace ExecutionChanges

variable (earlier later : ExecutionChanges)

/-- The change composed changes list for an account. -/
theorem getElem?_andThen (a : Address) :
    (earlier.andThen later).accounts[a]? =
      match later.accounts[a]? with
      | some change => some ((earlier.accounts[a]?.getD {}).andThen change)
      | none => earlier.accounts[a]? := by
  have h := FoldMap.get_foldl (fun (m : HashMap Address AccountChange) a ↦ m[a]?) (fun a ↦ a)
    composeAccount (fun change _ held ↦ some ((held.getD {}).andThen change))
    (fun m c a ↦ by rw [composeAccount, ExtTreeMap.getElem?_insert_self])
    (fun m k c a (hne : a ≠ k) ↦ by
      rw [composeAccount, ExtTreeMap.getElem?_insert,
        if_neg fun heq ↦ hne (LawfulEqCmp.eq_of_compare heq).symm])
    later.accounts earlier.accounts a
  refine h.trans ?_
  cases later.accounts[a]? <;> rfl

/-- The info composed changes leave is the one the later changes leave in place of the one the
earlier changes leave. -/
theorem newInfo_andThen (a : Address) (held : AccountInfo) :
    (earlier.andThen later).newInfo a held = later.newInfo a (earlier.newInfo a held) := by
  rw [newInfo, newInfo, newInfo, getElem?_andThen]
  cases later.accounts[a]? with
  | none => rfl
  | some change =>
    have hinfo : ((earlier.accounts[a]?.getD {}).andThen change).info =
        change.info.or ((earlier.accounts[a]?).bind AccountChange.info) := by
      cases earlier.accounts[a]? <;> rfl
    rw [Option.bind_some, Option.bind_some, hinfo]
    cases change.info <;> rfl

/-- The same for the value of a slot. -/
theorem newSlot_andThen (key : SlotKey) (held : U256) :
    (earlier.andThen later).newSlot key held = later.newSlot key (earlier.newSlot key held) := by
  rw [newSlot, newSlot, newSlot, getElem?_andThen]
  cases later.accounts[key.1]? with
  | none => rfl
  | some change =>
    have hslot : ((earlier.accounts[key.1]?.getD {}).andThen change).storage[key.2]? =
        (change.storage[key.2]?).or
          ((earlier.accounts[key.1]?).bind fun c ↦ c.storage[key.2]?) := by
      rw [AccountChange.andThen, ExtTreeMap.getElem?_union]
      cases earlier.accounts[key.1]? <;> simp
    rw [Option.bind_some, Option.bind_some, hslot]
    cases change.storage[key.2]? <;> rfl

theorem contracts_andThen (codeHash : B256) :
    (earlier.andThen later).contracts[codeHash]? =
      (later.contracts[codeHash]?).or earlier.contracts[codeHash]? := by
  rw [andThen, ExtTreeMap.getElem?_union]

end ExecutionChanges

/-! ## Batches -/

/-- What one commit brings: the blocks of its chain and their net changes. -/
structure Batch where
  changes : ExecutionChanges
  blocks : List BlockData
  nonempty : blocks ≠ []

namespace Batch

/-- The last block, which gives the snapshot its header and withdrawals. -/
def last (b : Batch) : BlockData := b.blocks.getLast b.nonempty

def tip (b : Batch) : ChainTip := ⟨b.last.number, b.last.hash⟩

/-- The snapshot the commit of a batch builds. -/
def commit (b : Batch) (current : StateSnapshot) (caches : Caches) : StateSnapshot :=
  (buildCommitState current caches b.changes b.blocks b.tip).1

/-- A batch and the ones committed after it as one batch. -/
def concat (b : Batch) (rest : List Batch) : Batch where
  changes := rest.foldl (fun changes next ↦ changes.andThen next.changes) b.changes
  blocks := b.blocks ++ rest.flatMap Batch.blocks
  nonempty := List.append_ne_nil_of_left_ne_nil b.nonempty _

theorem getLast?_blocks (b : Batch) : b.blocks.getLast? = some b.last :=
  List.getLast?_eq_some_getLast b.nonempty

theorem concat_nil (b : Batch) : b.concat [] = b := by
  simp [concat]

/-- Concatenating one after the other. -/
theorem concat_cons (b next : Batch) (rest : List Batch) :
    b.concat (next :: rest) = (b.concat [next]).concat rest := by
  simp [concat]

theorem last_concat_singleton (b next : Batch) : (b.concat [next]).last = next.last := by
  have h : (b.concat [next]).blocks.getLast? = some next.last := by
    simp [concat, next.getLast?_blocks]
  exact Option.some.inj ((getLast?_blocks _).symm.trans h)

end Batch

/-- Commit a list of batches after a first one.  The caches are merged at the first. -/
def commitAll (current : StateSnapshot) (caches : Caches) (first : Batch) (rest : List Batch) :
    StateSnapshot :=
  rest.foldl (fun s b ↦ b.commit s {}) (first.commit current caches)

/-- The snapshots agree on all but the changed-accounts history. -/
structure StateSnapshot.Alike (s t : StateSnapshot) : Prop where
  block : s.block = t.block
  blockHash : s.blockHash = t.blockHash
  header : s.header = t.header
  withdrawals : s.withdrawals = t.withdrawals
  accounts : s.accounts = t.accounts
  code : s.code = t.code
  storage : s.storage = t.storage
  blockHashes : s.blockHashes = t.blockHashes
  receiptsHistory : s.receiptsHistory = t.receiptsHistory
  stale : s.stale = t.stale

namespace StateSnapshot.Alike

variable {s t u : StateSnapshot}

theorem refl (s : StateSnapshot) : s.Alike s := ⟨rfl, rfl, rfl, rfl, rfl, rfl, rfl, rfl, rfl, rfl⟩

theorem trans (h : s.Alike t) (h' : t.Alike u) : s.Alike u where
  block := h.block.trans h'.block
  blockHash := h.blockHash.trans h'.blockHash
  header := h.header.trans h'.header
  withdrawals := h.withdrawals.trans h'.withdrawals
  accounts := h.accounts.trans h'.accounts
  code := h.code.trans h'.code
  storage := h.storage.trans h'.storage
  blockHashes := h.blockHashes.trans h'.blockHashes
  receiptsHistory := h.receiptsHistory.trans h'.receiptsHistory
  stale := h.stale.trans h'.stale

/-- What a commit builds does not depend on the changed-accounts history. -/
theorem commit (h : s.Alike t) (b : Batch) (caches : Caches) :
    (b.commit s caches).Alike (b.commit t caches) where
  block := rfl
  blockHash := rfl
  header := by
    rw [Batch.commit, buildCommitState_header _ _ _ _ _ b.getLast?_blocks, Batch.commit,
      buildCommitState_header _ _ _ _ _ b.getLast?_blocks]
  withdrawals := by
    rw [Batch.commit, buildCommitState_withdrawals _ _ _ _ _ b.getLast?_blocks, Batch.commit,
      buildCommitState_withdrawals _ _ _ _ _ b.getLast?_blocks]
  accounts := by
    refine ExtTreeMap.ext_getElem? fun a ↦ ?_
    rw [Batch.commit, buildCommitState_accounts, h.accounts, h.blockHash, Batch.commit,
      buildCommitState_accounts]
  code := by
    refine ExtTreeMap.ext_getElem? fun codeHash ↦ ?_
    rw [Batch.commit, buildCommitState_code, h.code, Batch.commit, buildCommitState_code]
  storage := by
    refine ExtTreeMap.ext_getElem? fun key ↦ ?_
    rw [Batch.commit, buildCommitState_storage, h.storage, h.blockHash, Batch.commit,
      buildCommitState_storage]
  blockHashes := by
    refine ExtTreeMap.ext_getElem? fun n ↦ ?_
    rw [Batch.commit, buildCommitState_blockHashes, h.blockHashes, h.blockHash, Batch.commit,
      buildCommitState_blockHashes]
  receiptsHistory := by
    rw [Batch.commit, buildCommitState_receiptsHistory, h.receiptsHistory, Batch.commit,
      buildCommitState_receiptsHistory]
  stale := by
    rw [Batch.commit, buildCommitState_stale, Batch.commit, buildCommitState_stale]

end StateSnapshot.Alike

/-! ## The later of two commits -/

omit [Revm] in
/-- The hashes two lists of blocks give a height together: the later ones first. -/
theorem lastHash_append (bs cs : List BlockData) (n : ℕ) :
    lastHash (bs ++ cs) n = (lastHash cs n).or (lastHash bs n) := by
  rw [lastHash, List.reverse_append, List.find?_append, lastHash, lastHash]
  cases cs.reverse.find? fun b ↦ b.number == n <;> rfl

namespace Batch

variable (b next : Batch) (rest : List Batch) (current : StateSnapshot) (caches : Caches)

/-- **One step**: a commit on top of another is the commit of the two batches in one. -/
theorem commit_commit :
    (next.commit (b.commit current caches) {}).Alike ((b.concat [next]).commit current caches) where
  block := by
    show next.last.number = (b.concat [next]).last.number
    rw [last_concat_singleton]
  blockHash := by
    show next.last.hash = (b.concat [next]).last.hash
    rw [last_concat_singleton]
  header := by
    rw [commit, buildCommitState_header _ _ _ _ _ next.getLast?_blocks, commit,
      buildCommitState_header _ _ _ _ _ (b.concat [next]).getLast?_blocks, last_concat_singleton]
  withdrawals := by
    rw [commit, buildCommitState_withdrawals _ _ _ _ _ next.getLast?_blocks, commit,
      buildCommitState_withdrawals _ _ _ _ _ (b.concat [next]).getLast?_blocks,
      last_concat_singleton]
  accounts := by
    refine ExtTreeMap.ext_getElem? fun a ↦ ?_
    rw [commit, buildCommitState_accounts, TaggedCache.mergeInto_empty, commit,
      buildCommitState_accounts, commit, buildCommitState_accounts, Option.map_map]
    exact congrFun (congrArg Option.map (funext fun held ↦
      (ExecutionChanges.newInfo_andThen b.changes next.changes a held).symm)) _
  code := by
    refine ExtTreeMap.ext_getElem? fun codeHash ↦ ?_
    rw [commit, buildCommitState_code, ExtTreeMap.getElem?_empty, Option.none_or, commit,
      buildCommitState_code, commit, buildCommitState_code, ← Option.or_assoc]
    exact congrArg (Option.or · _)
      (ExecutionChanges.contracts_andThen b.changes next.changes codeHash).symm
  storage := by
    refine ExtTreeMap.ext_getElem? fun key ↦ ?_
    rw [commit, buildCommitState_storage, TaggedCache.mergeInto_empty, commit,
      buildCommitState_storage, commit, buildCommitState_storage, Option.map_map]
    exact congrFun (congrArg Option.map (funext fun held ↦
      (ExecutionChanges.newSlot_andThen b.changes next.changes key held).symm)) _
  blockHashes := by
    refine ExtTreeMap.ext_getElem? fun n ↦ ?_
    have hblocks : (b.concat [next]).blocks = b.blocks ++ next.blocks := by simp [concat]
    rw [commit, buildCommitState_blockHashes, TaggedCache.mergeInto_empty, commit,
      buildCommitState_blockHashes, commit, buildCommitState_blockHashes, hblocks,
      lastHash_append, Option.or_assoc]
  receiptsHistory := by
    have hblocks : (b.concat [next]).blocks = b.blocks ++ next.blocks := by simp [concat]
    rw [commit, buildCommitState_receiptsHistory, commit, buildCommitState_receiptsHistory,
      commit, buildCommitState_receiptsHistory, hblocks, List.map_append, Window.pushAll_append]
  stale := by
    rw [commit, buildCommitState_stale, commit, buildCommitState_stale]

end Batch

/-- What follows a snapshot does not depend on its changed-accounts history. -/
theorem StateSnapshot.Alike.foldl_commit {s t : StateSnapshot} (h : s.Alike t)
    (rest : List Batch) :
    (rest.foldl (fun s b ↦ b.commit s {}) s).Alike (rest.foldl (fun s b ↦ b.commit s {}) t) := by
  induction rest generalizing s t with
  | nil => exact h
  | cons b rest ih => exact ih (h.commit b {})

/-- **Batching a commit does not matter**: however a sequence of blocks is split into commits, the
snapshot after them is that of the single commit, apart from the changed-accounts history. -/
theorem commitAll_alike (current : StateSnapshot) (caches : Caches) (first : Batch)
    (rest : List Batch) :
    (commitAll current caches first rest).Alike ((first.concat rest).commit current caches) := by
  induction rest generalizing first with
  | nil =>
    rw [first.concat_nil]
    exact .refl _
  | cons next rest ih =>
    rw [first.concat_cons]
    exact ((first.commit_commit next current caches).foldl_commit rest).trans
      (ih (first.concat [next]))

end RexSim
