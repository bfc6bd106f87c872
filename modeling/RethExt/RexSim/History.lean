import RethExt.RexSim.Ledger
import RethExt.Lib.Lts

/-!
# The two histories

The receipts and the changed accounts of the last blocks are kept in windows of
`receiptsHistoryDepth` entries.  This module follows them through runs of accepted
notifications, with caches of any content: `HistoryState` is a snapshot with the blocks of its
branch that were applied since the last reorg or revert.

A commit appends to the windows without looking at what they hold.  `Appends` says that what a
commit does not evict lies below what it appends, and `commit_sorted_iff` that this is what it
takes: a commit that overlaps the history it meets leaves a number in it twice.
-/

set_option autoImplicit false

open Std Window

namespace RexSim

/-! ## Entries -/

/-- The history entry of a block. -/
def Block.entry (b : Block) : BlockReceipts := ⟨b.number, b.receipts, b.txHashes⟩

section

variable [Revm]

namespace Chain

variable (c : Chain)

theorem entries_eq : c.entries = c.blocks.map Block.entry := rfl

theorem length_entries : c.entries.length = c.blocks.length := List.length_map _

theorem entries_ne_nil : c.entries ≠ [] := by simpa [entries_eq] using c.nonempty

theorem head_entries : c.entries.head c.entries_ne_nil = c.first.entry := List.head_map _

theorem ascending_entries : Ascending BlockReceipts.block c.tip.number c.entries := by
  refine ⟨List.pairwise_map.mpr c.pairwise_number_lt, fun r hr ↦ ?_⟩
  obtain ⟨b, hb, rfl⟩ := List.mem_map.mp hr
  exact c.le_tip_number hb

theorem first_number_le_entry {r : BlockReceipts} (hr : r ∈ c.entries) :
    c.first.number ≤ r.block := by
  obtain ⟨b, hb, rfl⟩ := List.mem_map.mp hr
  exact c.first_number_le hb

end Chain

/-- What is recorded of the accounts a chain changed. -/
def Chain.changedEntry (c : Chain) : BlockChangedAccounts :=
  ⟨c.tip.number, (extractExecutionChanges c).changedAddresses⟩

/-! ## Runs of accepted notifications -/

/-- A snapshot with the blocks of its branch applied since the last reorg or revert. -/
structure HistoryState where
  snapshot : StateSnapshot := {}
  applied : List Block := []

/-- A notification and the caches its flush returns. -/
structure Delivery where
  notification : ExExNotification
  caches : Caches := {}

/-- The applied blocks after a notification, each listed once. -/
def ExExNotification.applied (before : List Block) : ExExNotification → List Block
  | .chainCommitted new => before.filter (· ∉ new.blocks) ++ new.blocks
  | .chainReorged _ new => new.blocks
  | .chainReverted _ => []

/-- An accepted notification is applied. -/
def HistoryState.Step (d : Delivery) (s s' : HistoryState) : Prop :=
  d.notification.isAccepted s.snapshot = true ∧
    s' = ⟨nextSnapshot s.snapshot d.caches d.notification, d.notification.applied s.applied⟩

/-- What a commit does not evict lies below what it appends: the receipts below its first block,
the changed accounts below its tip.  A reorg puts its new branch above the common ancestor. -/
def HistoryState.Appends (s : HistoryState) (d : Delivery) : Prop :=
  match d.notification with
  | .chainCommitted new =>
    (∀ r ∈ s.snapshot.receiptsHistory.rtake (receiptsHistoryDepth - new.blocks.length),
        r.block < new.first.number) ∧
      ∀ c ∈ s.snapshot.changedAccountsHistory.rtake (receiptsHistoryDepth - 1),
        c.block < new.tip.number
  | .chainReorged old new => old.commonAncestor < new.first.number
  | .chainReverted _ => True

/-- Both histories are bounded ascending windows, and the receipts of the last applied blocks are
found. -/
structure HistoryState.Windowed (s : HistoryState) : Prop where
  receipts : Ascending BlockReceipts.block s.snapshot.block s.snapshot.receiptsHistory
  changed : Ascending BlockChangedAccounts.block s.snapshot.block
    s.snapshot.changedAccountsHistory
  receipts_length : s.snapshot.receiptsHistory.length ≤ receiptsHistoryDepth
  changed_length : s.snapshot.changedAccountsHistory.length ≤ receiptsHistoryDepth
  answers : ∀ b ∈ s.applied.rtake receiptsHistoryDepth,
    s.snapshot.receipts b.number = some b.receipts

section step

variable {s : StateSnapshot} {applied : List Block}

/-- What carries `Windowed` through a run: the applied blocks are the end of the history. -/
structure HistoryState.Inv (s : HistoryState) : Prop where
  receipts : Ascending BlockReceipts.block s.snapshot.block s.snapshot.receiptsHistory
  changed : Ascending BlockChangedAccounts.block s.snapshot.block
    s.snapshot.changedAccountsHistory
  receipts_length : s.snapshot.receiptsHistory.length ≤ receiptsHistoryDepth
  changed_length : s.snapshot.changedAccountsHistory.length ≤ receiptsHistoryDepth
  applied : (s.applied.map Block.entry).rtake receiptsHistoryDepth <:+ s.snapshot.receiptsHistory

omit [Revm] in
theorem depth_pos : 0 < receiptsHistoryDepth := by decide

theorem HistoryState.Inv.windowed {s : HistoryState} (h : s.Inv) : s.Windowed where
  receipts := h.receipts
  changed := h.changed
  receipts_length := h.receipts_length
  changed_length := h.changed_length
  answers b hb := by
    have hmem : b.entry ∈ s.snapshot.receiptsHistory := by
      refine h.applied.subset ?_
      rw [rtake_map]
      exact List.mem_map_of_mem hb
    have hfind : (s.snapshot.receiptsHistory.find? fun r ↦ r.block == b.number) = some b.entry :=
      h.receipts.find?_key hmem
    rw [StateSnapshot.receipts, hfind]
    rfl

/-- The applied blocks after a commit are the end of what the commit appends to. -/
private theorem applied_suffix {hist : List BlockReceipts} {applied : List Block} {new : Chain}
    (hlen : hist.length ≤ receiptsHistoryDepth)
    (happlied : (applied.map Block.entry).rtake receiptsHistoryDepth <:+ hist)
    (hlt : ∀ r ∈ hist.rtake (receiptsHistoryDepth - new.blocks.length),
      r.block < new.first.number) :
    (((applied.filter (· ∉ new.blocks) ++ new.blocks).map Block.entry).rtake
        receiptsHistoryDepth) <:+
      pushAll receiptsHistoryDepth hist new.entries := by
  generalize hm : receiptsHistoryDepth - new.blocks.length = m at hlt
  have hsuffix : (applied.rtake m).map Block.entry <:+ hist.rtake m := by
    have h := rtake_suffix_rtake happlied m
    rwa [rtake_rtake, Nat.min_eq_left (by omega), rtake_map] at h
  have hkeep : (applied.filter (· ∉ new.blocks)).rtake m = applied.rtake m := by
    refine rtake_filter fun b hb ↦ decide_eq_true fun hmem ↦ ?_
    have hb' : b.number < new.first.number := hlt _ (hsuffix.subset (List.mem_map_of_mem hb))
    exact absurd (new.first_number_le hmem) (Nat.not_le.mpr hb')
  rw [pushAll_eq_rtake depth_pos hlen, List.map_append, ← new.entries_eq, rtake_append,
    rtake_append, new.length_entries, hm, rtake_map, hkeep]
  obtain ⟨k, hk⟩ := hsuffix
  exact ⟨k, by rw [← List.append_assoc, hk]⟩

/-- **A commit keeps the windows.** -/
theorem HistoryState.Inv.commit {s : HistoryState} (h : s.Inv) {new : Chain} {caches : Caches}
    (hacc : (commitVerdict s.snapshot new).isAcceptable = true)
    (happ : s.Appends ⟨.chainCommitted new, caches⟩) :
    HistoryState.Inv ⟨nextSnapshot s.snapshot caches (.chainCommitted new),
      (ExExNotification.chainCommitted new).applied s.applied⟩ := by
  obtain ⟨hreceipts, hchanged⟩ := happ
  rw [nextSnapshot_committed caches hacc]
  constructor
  · simp only [buildCommitState_receiptsHistory, extractBlockData_map_entry]
    refine h.receipts.pushAll depth_pos h.receipts_length new.ascending_entries
      new.entries_ne_nil ?_
    rw [new.length_entries, new.head_entries]
    exact hreceipts
  · simp only [buildCommitState_changedAccountsHistory, push_eq_pushAll]
    exact h.changed.pushAll depth_pos h.changed_length (.singleton new.changedEntry)
      (List.cons_ne_nil _ _) hchanged
  · simp only [buildCommitState_receiptsHistory]
    exact length_pushAll_le depth_pos h.receipts_length _
  · simp only [buildCommitState_changedAccountsHistory, push_eq_pushAll]
    exact length_pushAll_le depth_pos h.changed_length _
  · simp only [buildCommitState_receiptsHistory, extractBlockData_map_entry]
    exact applied_suffix h.receipts_length h.applied hreceipts

/-- **A reorg keeps the windows**: what it retains lies at or below the common ancestor. -/
theorem HistoryState.Inv.reorg {s : HistoryState} (h : s.Inv) {old new : Chain}
    {caches : Caches} (hacc : (reorgVerdict s.snapshot old).isAcceptable = true)
    (happ : old.commonAncestor < new.first.number) :
    HistoryState.Inv ⟨nextSnapshot s.snapshot caches (.chainReorged old new),
      (ExExNotification.chainReorged old new).applied s.applied⟩ := by
  have hreceipts := h.receipts.filter_le old.commonAncestor
  have hchanged := h.changed.filter_le old.commonAncestor
  have hreceipts_length := (List.length_filter_le (fun r : BlockReceipts ↦
    r.block ≤ old.commonAncestor) _).trans h.receipts_length
  have hchanged_length := (List.length_filter_le (fun c : BlockChangedAccounts ↦
    c.block ≤ old.commonAncestor) _).trans h.changed_length
  rw [nextSnapshot_reorged caches hacc]
  constructor
  · simp only [buildReorgState_receiptsHistory, extractBlockData_map_entry]
    refine hreceipts.pushAll depth_pos hreceipts_length new.ascending_entries
      new.entries_ne_nil fun r hr ↦ ?_
    rw [new.head_entries]
    exact (hreceipts.le_top r ((rtake_suffix _ _).subset hr)).trans_lt happ
  · simp only [buildReorgState_changedAccountsHistory, push_eq_pushAll]
    refine hchanged.pushAll depth_pos hchanged_length (.singleton new.changedEntry)
      (List.cons_ne_nil _ _) fun c hc ↦ ?_
    exact (hchanged.le_top c ((rtake_suffix _ _).subset hc)).trans_lt
      (happ.trans_le (new.first_number_le new.tip_mem))
  · simp only [buildReorgState_receiptsHistory]
    exact length_pushAll_le depth_pos hreceipts_length _
  · simp only [buildReorgState_changedAccountsHistory, push_eq_pushAll]
    exact length_pushAll_le depth_pos hchanged_length _
  · simp only [buildReorgState_receiptsHistory, extractBlockData_map_entry]
    rw [pushAll_eq_rtake depth_pos hreceipts_length]
    exact rtake_suffix_rtake (List.suffix_append _ _) _

/-- **A revert keeps the windows**: it only takes away. -/
theorem HistoryState.Inv.revert {s : HistoryState} (h : s.Inv) (old : Chain) (caches : Caches) :
    HistoryState.Inv ⟨nextSnapshot s.snapshot caches (.chainReverted old),
      (ExExNotification.chainReverted old).applied s.applied⟩ where
  receipts := h.receipts.filter_le old.commonAncestor
  changed := h.changed.filter_le old.commonAncestor
  receipts_length := (List.length_filter_le _ _).trans h.receipts_length
  changed_length := (List.length_filter_le _ _).trans h.changed_length
  applied := List.nil_suffix

theorem HistoryState.Inv.init : HistoryState.Inv {} where
  receipts := .nil
  changed := .nil
  receipts_length := Nat.zero_le _
  changed_length := Nat.zero_le _
  applied := List.suffix_rfl

theorem HistoryState.Inv.step {s s' : HistoryState} (h : s.Inv) {d : Delivery} (hs : Step d s s')
    (happ : s.Appends d) : s'.Inv := by
  obtain ⟨n, caches⟩ := d
  obtain ⟨hacc, rfl⟩ := hs
  cases n with
  | chainCommitted new => exact h.commit hacc happ
  | chainReorged old new => exact h.reorg hacc happ
  | chainReverted old => exact h.revert old caches

/-- **When a commit keeps the histories ascending**: exactly when it appends to them. -/
theorem HistoryState.Inv.commit_sorted_iff {s : HistoryState} (h : s.Inv) {new : Chain}
    {caches : Caches} (hacc : (commitVerdict s.snapshot new).isAcceptable = true) :
    ((nextSnapshot s.snapshot caches (.chainCommitted new)).receiptsHistory.Pairwise
          (fun a b ↦ a.block < b.block) ∧
        (nextSnapshot s.snapshot caches (.chainCommitted new)).changedAccountsHistory.Pairwise
          fun a b ↦ a.block < b.block) ↔
      s.Appends ⟨.chainCommitted new, caches⟩ := by
  have hreceipts := h.receipts.sorted_rtake_append_iff new.ascending_entries new.entries_ne_nil
    receiptsHistoryDepth
  have hchanged := h.changed.sorted_rtake_append_iff (.singleton new.changedEntry)
    (List.cons_ne_nil _ _) receiptsHistoryDepth
  rw [new.length_entries, new.head_entries, ← pushAll_eq_rtake depth_pos h.receipts_length]
    at hreceipts
  rw [← pushAll_eq_rtake depth_pos h.changed_length] at hchanged
  rw [nextSnapshot_committed caches hacc, buildCommitState_receiptsHistory,
    buildCommitState_changedAccountsHistory, push_eq_pushAll, extractBlockData_map_entry]
  exact and_congr hreceipts hchanged

/-- **The histories are bounded, ascending windows** in every run of accepted notifications whose
commits append. -/
theorem windowed_of_run {s : HistoryState}
    (h : Lts.Run HistoryState.Step HistoryState.Appends {} s) : s.Windowed :=
  (h.invariant (fun _ _ _ hinv hs happ ↦ hinv.step hs happ) HistoryState.Inv.init).windowed

end step

end

/-! ## Two commits that overlap -/

namespace Overlap

open scoped Revm

def block (n : ℕ) : Block := { header := ⟨n, n, n + 1, []⟩ }

/-- The blocks `1` and `2`. -/
def first : Chain where
  blocks := [block 1, block 2]
  nonempty := List.cons_ne_nil _ _
  linked := by decide

/-- The blocks `2` and `3`. -/
def second : Chain where
  blocks := [block 2, block 3]
  nonempty := List.cons_ne_nil _ _
  linked := by decide

/-- The block `3`. -/
def third : Chain where
  blocks := [block 3]
  nonempty := List.cons_ne_nil _ _
  linked := .singleton _

/-- The state after a commit of `first`. -/
def one : HistoryState :=
  ⟨nextSnapshot {} {} (.chainCommitted first), (ExExNotification.chainCommitted first).applied []⟩

/-- The state after a further commit. -/
def two (c : Chain) : HistoryState :=
  ⟨nextSnapshot one.snapshot {} (.chainCommitted c),
    (ExExNotification.chainCommitted c).applied one.applied⟩

theorem step_one : HistoryState.Step ⟨.chainCommitted first, {}⟩ {} one :=
  ⟨by decide +kernel, rfl⟩

theorem step_two {c : Chain} (h : (commitVerdict one.snapshot c).isAcceptable = true) :
    HistoryState.Step ⟨.chainCommitted c, {}⟩ one (two c) :=
  ⟨h, rfl⟩

end Overlap

open scoped Revm in
open Overlap in
/-- The windows after two commits that append. -/
theorem windowed_of_run_third : (two third).Windowed := by
  have hone : HistoryState.Appends {} ⟨.chainCommitted first, {}⟩ :=
    And.intro (by decide +kernel) (by decide +kernel)
  have htwo : one.Appends ⟨.chainCommitted third, {}⟩ :=
    And.intro (by decide +kernel) (by decide +kernel)
  exact windowed_of_run ((Lts.Run.one step_one hone).next (step_two (by decide +kernel)) htwo)

open scoped Revm in
open Overlap in
/-- **An overlapping commit repeats a number.**  After the accepted commits of the blocks `1` and
`2`, and of the blocks `2` and `3`, the receipts history lists the block `2` twice. -/
theorem not_windowed_of_overlap :
    Lts.Run HistoryState.Step Lts.anyEvent {} (two second) ∧
      (two second).snapshot.receiptsHistory.map BlockReceipts.block = [1, 2, 2, 3] ∧
      ¬ (two second).Windowed := by
  have hhist : (two second).snapshot.receiptsHistory.map BlockReceipts.block = [1, 2, 2, 3] := by
    decide +kernel
  refine ⟨(Lts.Run.one step_one trivial).next (step_two (by decide +kernel)) trivial, hhist,
    fun h ↦ ?_⟩
  have hsorted := List.pairwise_map.mpr h.receipts.sorted
  rw [hhist] at hsorted
  exact absurd hsorted (by decide)

end RexSim
