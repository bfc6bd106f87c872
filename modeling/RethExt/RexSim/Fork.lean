import RethExt.RexSim.History

/-!
# A reorg, and never having followed the old branch

Take a snapshot reached by commits that each build on the one before.  From there, one run follows
a branch, in as many commits as it likes, and is then reorged onto a new one; the other commits the
new branch at once.  `FollowsAlike` says what the two have in common at the end: the same block,
header, flags and block hashes, nothing held that could be wrong, and histories of which the first
is an end of the second.

The histories agree because both are windows: what the old branch pushed out is missing from the
front of the first, and the cutoff at the common ancestor takes off exactly what the old branch
pushed in (`Window.Ascending.filter_rtake_append`).
-/

set_option autoImplicit false

open Std Window

namespace RexSim

section

variable [Revm]

/-! ## Connected commits -/

/-- The chain is built on the block of the snapshot. -/
def StateSnapshot.ExtendedBy (s : StateSnapshot) (c : Chain) : Prop :=
  c.first.number = s.block + 1 ∧ c.first.parentHash = s.blockHash

/-- A chain that extends the snapshot is accepted. -/
theorem commitVerdict_of_extendedBy {s : StateSnapshot} {c : Chain} (h : s.ExtendedBy c) :
    (commitVerdict s c).isAcceptable = true := by
  obtain ⟨hnumber, hparent⟩ := h
  rw [commitVerdict, validateChainCommitted]
  split
  · rfl
  · rw [if_pos (by simp [Block.info, hnumber, hparent])]
    rfl

/-- The snapshot is at the tip of the chain. -/
structure StateSnapshot.AtTip (s : StateSnapshot) (c : Chain) : Prop where
  block : s.block = c.tip.number
  blockHash : s.blockHash = c.tip.hash
  stale : s.stale = false

theorem StateSnapshot.atTip_of_accepted {s : StateSnapshot} {caches : Caches} {c : Chain}
    (h : (commitVerdict s c).isAcceptable = true) :
    (nextSnapshot s caches (.chainCommitted c)).AtTip c := by
  rw [nextSnapshot_committed caches h]
  exact ⟨rfl, rfl, buildCommitState_stale _ _ _ _ _⟩

/-- Two commits that are built on each other: after the first the client is at its tip or stale, and
either way it accepts the second. -/
theorem StateSnapshot.atTip_of_commits {snapshot : StateSnapshot} {first second : Chain}
    (hnext : second.first.number = first.tip.number + 1 ∧
      second.first.parentHash = first.tip.hash) (caches caches' : Caches) :
    (nextSnapshot (nextSnapshot snapshot caches (.chainCommitted first)) caches'
      (.chainCommitted second)).AtTip second := by
  refine atTip_of_accepted ?_
  by_cases hacceptable : (commitVerdict snapshot first).isAcceptable = true
  · have htip : (nextSnapshot snapshot caches (.chainCommitted first)).AtTip first :=
      atTip_of_accepted hacceptable
    refine commitVerdict_of_extendedBy ⟨?_, ?_⟩
    · rw [htip.block]
      exact hnext.1
    · rw [htip.blockHash]
      exact hnext.2
  · rw [nextSnapshot_of_not_accepted caches (n := .chainCommitted first)
      (eq_false_of_ne_true hacceptable), commitVerdict_eq_acceptAny.mpr (Or.inr rfl)]
    rfl

/-- A snapshot reached by commits that each extend the one before, with caches of any content. -/
inductive StateSnapshot.Connected : StateSnapshot → Prop
  | initial : Connected {}
  | first (c : Chain) (caches : Caches) : Connected (nextSnapshot {} caches (.chainCommitted c))
  | extend {s : StateSnapshot} (c : Chain) (caches : Caches) : Connected s → s.ExtendedBy c →
      Connected (nextSnapshot s caches (.chainCommitted c))

theorem StateSnapshot.Connected.inv {s : StateSnapshot} (h : s.Connected) :
    HistoryState.Inv ⟨s, []⟩ := by
  have forget : ∀ {s applied}, HistoryState.Inv ⟨s, applied⟩ → HistoryState.Inv ⟨s, []⟩ :=
    fun h ↦ ⟨h.receipts, h.changed, h.receipts_length, h.changed_length, List.nil_suffix⟩
  induction h with
  | initial => exact .init
  | first c caches =>
    refine forget (@HistoryState.Inv.commit _ {} .init c _ rfl ⟨?_, ?_⟩)
    · intro r hr
      exact absurd ((rtake_suffix _ _).subset hr) List.not_mem_nil
    · intro r hr
      exact absurd ((rtake_suffix _ _).subset hr) List.not_mem_nil
  | @extend s c caches _ hext ih =>
    refine forget (ih.commit (commitVerdict_of_extendedBy hext) ⟨fun r hr ↦ ?_, fun r hr ↦ ?_⟩)
    · have := ih.receipts.le_top r ((rtake_suffix _ _).subset hr)
      have := hext.1
      simp only at *
      omega
    · have := ih.changed.le_top r ((rtake_suffix _ _).subset hr)
      have := hext.1
      have := c.first_number_le c.tip_mem
      simp only at *
      omega

/-! ## Following a branch -/

/-- The snapshot after commits of the chains, one after the other, with nothing in the caches. -/
def StateSnapshot.follow (s : StateSnapshot) (chains : List Chain) : StateSnapshot :=
  chains.foldl (fun s c ↦ nextSnapshot s {} (.chainCommitted c)) s

/-- Each chain extends the snapshot it is committed to. -/
def StateSnapshot.FollowedBy : StateSnapshot → List Chain → Prop
  | _, [] => True
  | s, c :: chains => s.ExtendedBy c ∧ (nextSnapshot s {} (.chainCommitted c)).FollowedBy chains

section follow

variable {s : StateSnapshot} {chains : List Chain}

theorem follow_cons (c : Chain) :
    s.follow (c :: chains) = (nextSnapshot s {} (.chainCommitted c)).follow chains := rfl

/-- The receipts of the branch are pushed in order, however it is cut into commits. -/
theorem follow_receiptsHistory (h : s.FollowedBy chains) :
    (s.follow chains).receiptsHistory =
      pushAll receiptsHistoryDepth s.receiptsHistory
        ((chains.flatMap Chain.blocks).map Block.entry) := by
  induction chains generalizing s with
  | nil => rfl
  | cons c chains ih =>
    rw [follow_cons, ih h.2, nextSnapshot_committed _ (commitVerdict_of_extendedBy h.1),
      buildCommitState_receiptsHistory, extractBlockData_map_entry, ← pushAll_append,
      List.flatMap_cons, List.map_append, c.entries_eq]

theorem follow_changedAccountsHistory (h : s.FollowedBy chains) :
    (s.follow chains).changedAccountsHistory =
      pushAll receiptsHistoryDepth s.changedAccountsHistory
        (chains.map Chain.changedEntry) := by
  induction chains generalizing s with
  | nil => rfl
  | cons c chains ih =>
    rw [follow_cons, ih h.2, nextSnapshot_committed _ (commitVerdict_of_extendedBy h.1),
      buildCommitState_changedAccountsHistory, push_eq_pushAll, ← pushAll_append]
    rfl

/-- Following a branch leaves the block hashes up to the block it is built on alone. -/
theorem follow_blockHashes (h : s.FollowedBy chains) {n : ℕ} (hn : n ≤ s.block) :
    (s.follow chains).blockHashes[n]? = s.blockHashes[n]? := by
  induction chains generalizing s with
  | nil => rfl
  | cons c chains ih =>
    have hfirst := h.1.1
    have htip := c.first_number_le c.tip_mem
    have hcommit := nextSnapshot_committed {} (commitVerdict_of_extendedBy h.1)
    rw [follow_cons, ih h.2 (by rw [hcommit]; change n ≤ c.tip.number; omega), hcommit,
      buildCommitState_blockHashes, c.lastHash_eq_none (Or.inl (by omega)), Option.none_or,
      TaggedCache.mergeInto_empty]

/-- Following a branch ends on its last block. -/
theorem follow_blockHash (h : s.FollowedBy chains) :
    (s.follow chains).blockHash =
      (((chains.flatMap Chain.blocks).getLast?).map Block.hash).getD s.blockHash := by
  induction chains generalizing s with
  | nil => rfl
  | cons c chains ih =>
    rw [follow_cons, ih h.2, nextSnapshot_committed _ (commitVerdict_of_extendedBy h.1),
      List.flatMap_cons, List.getLast?_append, List.getLast?_eq_some_getLast c.nonempty]
    cases (chains.flatMap Chain.blocks).getLast? <;> rfl

end follow

/-! ## The two runs -/

/-- What a reorg onto a branch (in `s₁`) has in common with having followed the branch from the
common ancestor (in `s₂`). -/
structure FollowsAlike (new : Chain) (s₁ s₂ : StateSnapshot) : Prop where
  block : s₁.block = s₂.block
  blockHash : s₁.blockHash = s₂.blockHash
  header : s₁.header = s₂.header
  withdrawals : s₁.withdrawals = s₂.withdrawals
  stale : s₁.stale = s₂.stale
  blockHashes : s₁.blockHashes = s₂.blockHashes
  accounts : s₁.accounts = ∅
  storage : s₁.storage = ∅
  basicRef : ∀ a, s₁.basicRef a = .fetch ⟨a, s₂.block, s₂.blockHash⟩
  storageRef : ∀ key, s₁.storageRef key = .fetch ⟨key.1, key.2, s₂.block, s₂.blockHash⟩
  receiptsHistory : s₁.receiptsHistory <:+ s₂.receiptsHistory
  new_receipts : new.entries.rtake receiptsHistoryDepth <:+ s₁.receiptsHistory
  receipts : ∀ n answer, s₁.receipts n = some answer → s₂.receipts n = some answer
  receiptsAndTxHashes : ∀ n answer, s₁.receiptsAndTxHashes n = some answer →
    s₂.receiptsAndTxHashes n = some answer
  changedAccounts : ∀ n answer, s₁.changedAccounts n = some answer →
    s₂.changedAccounts n = some answer

section reorg

variable {s : StateSnapshot} {chains : List Chain} {old new : Chain}

/-- The reorg from the followed branch is accepted. -/
theorem reorgVerdict_follow (h : s.FollowedBy chains)
    (hold : old.blocks = chains.flatMap Chain.blocks) :
    (reorgVerdict (s.follow chains) old).isAcceptable = true := by
  have htip : (s.follow chains).blockHash = old.tip.hash := by
    rw [follow_blockHash h, ← hold, List.getLast?_eq_some_getLast old.nonempty]
    rfl
  rw [reorgVerdict, validateChainReorged]
  split
  · rfl
  · rw [if_pos (by simp [Block.info, htip])]
    rfl

/-- Of what the followed branch left, the cutoff keeps an end of the history from before it. -/
private theorem cutoff_receiptsHistory (hs : HistoryState.Inv ⟨s, []⟩)
    (h : s.FollowedBy chains) (hold : old.blocks = chains.flatMap Chain.blocks)
    (hext : s.ExtendedBy old) :
    (s.follow chains).receiptsHistory.filter (fun r ↦ r.block ≤ s.block) =
      s.receiptsHistory.rtake (receiptsHistoryDepth - old.blocks.length) := by
  rw [follow_receiptsHistory h, ← hold, pushAll_eq_rtake depth_pos hs.receipts_length,
    Ascending.filter_rtake_append hs.receipts.le_top, List.length_map]
  intro r hr
  have hle := old.first_number_le_entry hr
  have := hext.1
  change s.block < r.block
  omega

private theorem cutoff_changedAccountsHistory (hs : HistoryState.Inv ⟨s, []⟩)
    (h : s.FollowedBy chains) (hold : old.blocks = chains.flatMap Chain.blocks)
    (hext : s.ExtendedBy old) :
    (s.follow chains).changedAccountsHistory.filter (fun r ↦ r.block ≤ s.block) =
      s.changedAccountsHistory.rtake (receiptsHistoryDepth - chains.length) := by
  rw [follow_changedAccountsHistory h, pushAll_eq_rtake depth_pos hs.changed_length,
    Ascending.filter_rtake_append hs.changed.le_top, List.length_map]
  intro r hr
  obtain ⟨c, hc, rfl⟩ := List.mem_map.mp hr
  have hmem : c.tip ∈ old.blocks := by
    rw [hold]
    exact List.mem_flatMap.mpr ⟨c, hc, c.tip_mem⟩
  have hle := old.first_number_le hmem
  have := hext.1
  change s.block < c.tip.number
  omega

omit [Revm] in
/-- Two windows that the same elements are pushed into, one an end of the other. -/
private theorem pushAll_suffix {α : Type*} {l xs : List α} {m : ℕ}
    (hl : l.length ≤ receiptsHistoryDepth) :
    pushAll receiptsHistoryDepth (l.rtake m) xs <:+ pushAll receiptsHistoryDepth l xs := by
  have hlen : (l.rtake m).length ≤ receiptsHistoryDepth := by
    rw [length_rtake]; omega
  rw [pushAll_eq_rtake depth_pos hl, pushAll_eq_rtake depth_pos hlen]
  obtain ⟨k, hk⟩ := rtake_suffix m l
  exact rtake_suffix_rtake ⟨k, by rw [← List.append_assoc, hk]⟩ _

/-- The snapshot after following the old branch and the reorg onto the new one. -/
private abbrev reorged (s : StateSnapshot) (chains : List Chain) (new : Chain) : StateSnapshot :=
  buildReorgState (s.follow chains) s.block (extractExecutionChanges new) (extractBlockData new)
    new.chainTip

/-- The snapshot after the commit of the new branch. -/
private abbrev committed (s : StateSnapshot) (new : Chain) : StateSnapshot :=
  (buildCommitState s {} (extractExecutionChanges new) (extractBlockData new) new.chainTip).1

private theorem reorged_receiptsHistory_suffix (new : Chain) (hs : HistoryState.Inv ⟨s, []⟩)
    (h : s.FollowedBy chains) (hold : old.blocks = chains.flatMap Chain.blocks)
    (hext : s.ExtendedBy old) :
    (reorged s chains new).receiptsHistory <:+ (committed s new).receiptsHistory := by
  rw [buildReorgState_receiptsHistory, buildCommitState_receiptsHistory,
    cutoff_receiptsHistory hs h hold hext]
  exact pushAll_suffix hs.receipts_length

private theorem reorged_changedAccountsHistory_suffix (new : Chain)
    (hs : HistoryState.Inv ⟨s, []⟩)
    (h : s.FollowedBy chains) (hold : old.blocks = chains.flatMap Chain.blocks)
    (hext : s.ExtendedBy old) :
    (reorged s chains new).changedAccountsHistory <:+
      (committed s new).changedAccountsHistory := by
  rw [buildReorgState_changedAccountsHistory, buildCommitState_changedAccountsHistory,
    cutoff_changedAccountsHistory hs h hold hext, push_eq_pushAll, push_eq_pushAll]
  exact pushAll_suffix hs.changed_length

/-- **A reorg agrees with never having followed the old branch.** -/
theorem reorg_followsAlike (hs : s.Connected)
    (hfresh : ∀ n, s.block < n → s.blockHashes[n]? = none) (h : s.FollowedBy chains)
    (hold : old.blocks = chains.flatMap Chain.blocks) (hext : s.ExtendedBy old)
    (hnew : s.ExtendedBy new) :
    FollowsAlike new
      (nextSnapshot (s.follow chains) {} (.chainReorged old new))
      (nextSnapshot s {} (.chainCommitted new)) := by
  have hinv := hs.inv
  have hinv₂ := (hs.extend new {} hnew).inv
  have hcommon : old.commonAncestor = s.block := by
    rw [Chain.commonAncestor, hext.1, Nat.add_sub_cancel]
  rw [nextSnapshot_reorged {} (reorgVerdict_follow h hold), hcommon]
  rw [nextSnapshot_committed {} (commitVerdict_of_extendedBy hnew)] at hinv₂ ⊢
  have hreceipts := reorged_receiptsHistory_suffix new hinv h hold hext
  have hchanged := reorged_changedAccountsHistory_suffix new hinv h hold hext
  constructor
  case block => rfl
  case blockHash => rfl
  case accounts => exact buildReorgState_accounts _ _ _ _ _
  case storage => exact buildReorgState_storage _ _ _ _ _
  case receiptsHistory => exact hreceipts
  case header =>
    rw [buildReorgState_header _ _ _ _ _ (extractBlockData_getLast? new),
      buildCommitState_header _ _ _ _ _ (extractBlockData_getLast? new)]
  case withdrawals =>
    rw [buildReorgState_withdrawals _ _ _ _ _ (extractBlockData_getLast? new),
      buildCommitState_withdrawals _ _ _ _ _ (extractBlockData_getLast? new)]
  case stale => rw [buildReorgState_stale, buildCommitState_stale]
  case blockHashes =>
    refine ExtTreeMap.ext_getElem? fun n ↦ ?_
    rw [buildReorgState_blockHashes, buildCommitState_blockHashes, TaggedCache.mergeInto_empty]
    congr 1
    split
    · rename_i hle
      exact follow_blockHashes h hle
    · rename_i hgt
      exact (hfresh n (Nat.not_le.mp hgt)).symm
  case basicRef => simp [StateSnapshot.basicRef, Chain.chainTip]
  case storageRef => simp [StateSnapshot.storageRef, Chain.chainTip]
  case new_receipts =>
    rw [buildReorgState_receiptsHistory, extractBlockData_map_entry, pushAll_eq_rtake depth_pos
      ((List.length_filter_le _ _).trans ?_)]
    · exact rtake_suffix_rtake (List.suffix_append _ _) _
    · rw [follow_receiptsHistory h]
      exact length_pushAll_le depth_pos hinv.receipts_length _
  case receipts => exact fun _ _ h ↦ hinv₂.receipts.map_find?_of_suffix hreceipts h
  case receiptsAndTxHashes => exact fun _ _ h ↦ hinv₂.receipts.map_find?_of_suffix hreceipts h
  case changedAccounts => exact fun _ _ h ↦ hinv₂.changed.map_find?_of_suffix hchanged h

end reorg

end

namespace Forked

open scoped Revm

/-- A snapshot on the block `2`. -/
def base : StateSnapshot := nextSnapshot {} {} (.chainCommitted Overlap.first)

/-- Another block `3`, and a block `4` on it. -/
def branch : Chain where
  blocks := [{ header := ⟨3, 3, 40, []⟩ }, { header := ⟨4, 40, 50, []⟩ }]
  nonempty := List.cons_ne_nil _ _
  linked := by decide

theorem base_blockHashes (n : ℕ) (hn : 2 < n) : base.blockHashes[n]? = none := by
  rw [base, nextSnapshot_committed {} (by decide +kernel), buildCommitState_blockHashes,
    Overlap.first.lastHash_eq_none (Or.inr hn), Option.none_or, TaggedCache.mergeInto_empty]
  exact ExtTreeMap.getElem?_empty

end Forked

open scoped Revm in
open Forked in
/-- The two runs over one block of an old branch and two of a new one. -/
theorem reorg_followsAlike_branch :
    FollowsAlike branch
      (nextSnapshot (base.follow [Overlap.third]) {} (.chainReorged Overlap.third branch))
      (nextSnapshot base {} (.chainCommitted branch)) :=
  reorg_followsAlike (.first Overlap.first {}) base_blockHashes
    ⟨⟨by decide +kernel, by decide +kernel⟩, trivial⟩ rfl
    ⟨by decide +kernel, by decide +kernel⟩ ⟨by decide +kernel, by decide +kernel⟩

end RexSim
