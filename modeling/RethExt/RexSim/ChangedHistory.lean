import RethExt.Lib.Cover
import RethExt.RexSim.ChangedAccounts

/-!
# What the changed-accounts history covers

A commit of several blocks leaves one entry, under the number of its tip, for all that its blocks
wrote.  An entry so stands for the blocks above the entry before it, and the history as a whole for
all blocks above its oldest entry.

A reorg truncates the history by number.  When the common ancestor falls inside a chain that was
committed at once, the entry of that chain is dropped, and with it what the blocks up to the common
ancestor wrote; the receipts, which are kept for each block, are not.  `coversBranch_of_run` says
what makes up for it, and `reorg_coversBranch_iff` that nothing less does.
-/

set_option autoImplicit false

open Std Window

namespace RexSim

section

variable [Revm]

variable {keccak256 : Bytes → B256} {L : Ledger} {writes : B256 → Address → Prop}

/-! ## Runs -/

/-- The diff of the chain lists what its blocks write. -/
def Chain.Records (writes : B256 → Address → Prop) (c : Chain) : Prop :=
  ∀ b ∈ c.blocks, ∀ a, writes b.hash a → c.Lists a

variable (keccak256 L) in
/-- The notification is a commit that connects to the snapshot's block and does not overlap, or a
reorg; the first notification need not connect. -/
def HistoryState.Connects (writes : B256 → Address → Prop) (s : HistoryState) (d : Delivery) :
    Prop :=
  match d.notification with
  | .chainCommitted new => new.OnLedger keccak256 L ∧ new.Records writes ∧
      (s.snapshot.block = 0 ∨ new.first.parentHash = s.snapshot.blockHash)
  | .chainReorged old new => old.OnLedger keccak256 L ∧ new.OnLedger keccak256 L ∧
      new.first.parentHash = old.first.parentHash ∧ new.Records writes
  | .chainReverted _ => False

variable (L) in
/-- If the reorg keeps any entry, then the new chain lists what is written on the branch above all
entries that are kept and up to the common ancestor. -/
def StateSnapshot.MakesUp (writes : B256 → Address → Prop) (s : StateSnapshot) (old new : Chain) :
    Prop :=
  (∃ e ∈ s.changedAccountsHistory, e.block ≤ old.commonAncestor) →
    ∀ n ≤ old.commonAncestor,
      (∀ e ∈ s.changedAccountsHistory, e.block ≤ old.commonAncestor → e.block < n) →
        ∀ a, writes (L.lineage.ancestor s.blockHash n) a → new.Lists a

variable (L) in
/-- A reorg makes up for what it drops. -/
def HistoryState.MakesUp (writes : B256 → Address → Prop) (s : HistoryState) (d : Delivery) :
    Prop :=
  match d.notification with
  | .chainReorged old new => s.snapshot.MakesUp L writes old new
  | _ => True

variable (L) in
/-- **The history covers the branch**: what a block above the oldest entry wrote is listed above
every level from the oldest entry up to the block. -/
def StateSnapshot.CoversBranch (writes : B256 → Address → Prop) (s : StateSnapshot) : Prop :=
  ∀ oldest ∈ s.changedAccountsHistory.head?, ∀ x, oldest.block ≤ x → x ≤ s.block →
    ∀ n, x < n → n ≤ s.block → ∀ a, writes (L.lineage.ancestor s.blockHash n) a →
      ∃ e ∈ s.changedAccountsHistory, x < e.block ∧ e.block ≤ s.block ∧ a ∈ e.accounts

/-! ## Entries that stand for blocks -/

variable (L) in
/-- The entry lists what the block at height `n` below `tip` writes. -/
def WrittenAt (writes : B256 → Address → Prop) (tip : B256) (n : ℕ) (e : BlockChangedAccounts) :
    Prop :=
  ∀ a, writes (L.lineage.ancestor tip n) a → a ∈ e.accounts

variable (L) in
/-- What carries `CoversBranch` through a run. -/
structure StateSnapshot.Traced (writes : B256 → Address → Prop) (s : StateSnapshot) : Prop where
  following : s.Following L
  ascending : Ascending BlockChangedAccounts.block s.block s.changedAccountsHistory
  length : s.changedAccountsHistory.length ≤ receiptsHistoryDepth
  top : ∃ e ∈ s.changedAccountsHistory, e.block = s.block
  covers : Covers BlockChangedAccounts.block (WrittenAt L writes s.blockHash)
    s.changedAccountsHistory

namespace StateSnapshot

variable {s s' : StateSnapshot} {c : Chain} {kept : List BlockChangedAccounts}

theorem Traced.coversBranch (h : s.Traced L writes) : s.CoversBranch L writes := by
  intro oldest holdest x hx _ n hxn hn a ha
  obtain ⟨top, htop, hblock⟩ := h.top
  obtain ⟨e, he, hne, hlists⟩ := h.covers.exists_lists h.ascending
    ⟨oldest, List.mem_of_mem_head? holdest, hx.trans_lt hxn⟩ ⟨top, htop, hblock ▸ hn⟩
  exact ⟨e, he, hxn.trans_le hne, h.ascending.le_top e he, hlists a ha⟩

/-- The levels of a chain are listed by the entry of the chain. -/
theorem writtenAt_chain (hc : c.OnLedger keccak256 L) (hrec : c.Records writes) {n : ℕ}
    (hfirst : c.first.number ≤ n) (hn : n ≤ c.tip.number) :
    WrittenAt L writes c.tip.hash n c.changedEntry := by
  intro a ha
  obtain ⟨b, hb, rfl⟩ := Chain.exists_number_eq hfirst hn
  rw [hc.ancestor_of_mem hb] at ha
  exact Chain.mem_changedEntry.mpr (hrec b hb a ha)

/-- **The step lemma**: a chain on top of entries that stand for the blocks below it, when its entry
makes up for the blocks above them. -/
theorem Adopts.traced (h : s'.Adopts c kept) (hc : c.OnLedger keccak256 L)
    (hrec : c.Records writes) {cut : ℕ} (hkept : Ascending BlockChangedAccounts.block cut kept)
    (hcut : cut < c.first.number)
    (hcovers : Covers BlockChangedAccounts.block (WrittenAt L writes c.first.parentHash) kept)
    (hgap : kept ≠ [] → ∀ n < c.first.number, (∀ e ∈ kept, e.block < n) →
      ∀ a, writes (L.lineage.ancestor c.first.parentHash n) a → c.Lists a) :
    s'.Traced L writes := by
  have htip := c.first_number_le c.tip_mem
  have hlt : ∀ e ∈ kept, e.block < c.tip.number := fun e he ↦ by
    have := hkept.le_top e he
    omega
  have hsorted : Ascending BlockChangedAccounts.block c.tip.number (kept ++ [c.changedEntry]) :=
    Ascending.snoc (x := c.changedEntry) hkept hlt
  have hhist : s'.changedAccountsHistory =
      (kept ++ [c.changedEntry]).rtake receiptsHistoryDepth := by
    rw [h.changed, push_eq_rtake depth_pos]
  have hlow : ∀ n < c.first.number, ∀ e, WrittenAt L writes c.first.parentHash n e →
      WrittenAt L writes c.tip.hash n e := by
    intro n hn e he a ha
    rw [hc.ancestor_of_lt hn] at ha
    exact he a ha
  have hsnoc : Covers BlockChangedAccounts.block (WrittenAt L writes c.tip.hash)
      (kept ++ [c.changedEntry]) := by
    refine (hcovers.mono fun n e he hn ↦ hlow n ?_ e).snoc hlt fun hne n hall hn ↦ ?_
    · have := hkept.le_top e he
      omega
    · by_cases hfirst : n < c.first.number
      · refine hlow n hfirst _ fun a ha ↦ Chain.mem_changedEntry.mpr ?_
        exact hgap hne n hfirst hall a ha
      · exact writtenAt_chain hc hrec (Nat.not_lt.mp hfirst) hn
  refine ⟨h.following hc fun e he ↦ (hlt e he).le, ?_, ?_, ?_, ?_⟩
  · rw [hhist, h.block]
    exact hsorted.suffix (rtake_suffix _ _)
  · rw [hhist, length_rtake]
    exact Nat.min_le_left _ _
  · refine ⟨c.changedEntry, ?_, h.block.symm⟩
    rw [h.changed, Window.push]
    exact List.mem_append_right _ List.mem_cons_self
  · rw [hhist, h.blockHash]
    exact hsnoc.suffix hsorted (rtake_suffix _ _)

/-- A commit that connects and does not overlap. -/
theorem Traced.commit (h : s.Traced L writes) (caches : Caches) {new : Chain}
    (hacc : (commitVerdict s new).isAcceptable = true) (hnew : new.OnLedger keccak256 L)
    (hrec : new.Records writes) (hparent : new.first.parentHash = s.blockHash) :
    (nextSnapshot s caches (.chainCommitted new)).Traced L writes := by
  have hfirst : new.first.number = s.block + 1 := by
    rw [← hnew.number_base, hparent, h.following.onBlock.height]
  refine (adopts_commit _ hacc).traced hnew hrec h.ascending (by omega) ?_ ?_
  · rw [hparent]
    exact h.covers
  · -- the entry on top stands for the snapshot's block, so nothing is left open
    intro _ n hn hall
    obtain ⟨e, he, hblock⟩ := h.top
    have := hall e he
    omega

/-- Up to the common ancestor, the branch of a replaced block is that of the new chain. -/
theorem Following.ancestor_eq (h : s.Following L) {old : Chain} (hold : old.OnLedger keccak256 L)
    (hacc : (reorgVerdict s old).isAcceptable = true) {n : ℕ} (hn : n ≤ old.commonAncestor) :
    L.lineage.ancestor s.blockHash n = L.lineage.ancestor old.first.parentHash n := by
  obtain ⟨b, hb, hhash⟩ := Chain.mem_of_valid (h.onBlock.reorg_valid hacc)
  rw [← hhash]
  exact (hold.ancestor_of_block hb (hold.lt_first_of_le hn)).2

/-- A reorg that makes up for what it drops. -/
theorem Traced.reorg (h : s.Traced L writes) (caches : Caches) {old new : Chain}
    (hacc : (reorgVerdict s old).isAcceptable = true) (hold : old.OnLedger keccak256 L)
    (hnew : new.OnLedger keccak256 L) (hparent : new.first.parentHash = old.first.parentHash)
    (hrec : new.Records writes)
    (hmakes : s.MakesUp L writes old new) :
    (nextSnapshot s caches (.chainReorged old new)).Traced L writes := by
  have hfirst := hold.first_number_eq hnew hparent
  have hcut := hold.lt_first_of_le (Nat.le_refl old.commonAncestor)
  have hbranch : ∀ n ≤ old.commonAncestor, L.lineage.ancestor s.blockHash n =
      L.lineage.ancestor new.first.parentHash n := fun n hn ↦ by
    rw [hparent, h.following.ancestor_eq hold hacc hn]
  refine (adopts_reorg _ _ hacc).traced hnew hrec (h.ascending.filter_le old.commonAncestor)
    (by omega) ?_ fun hne n hn hall a ha ↦ ?_
  · refine (h.covers.filter_le old.commonAncestor).mono fun n e he hne hwritten a ha ↦ ?_
    have := of_decide_eq_true (List.mem_filter.mp he).2
    rw [← hbranch n (by omega)] at ha
    exact hwritten a ha
  · have hle : n ≤ old.commonAncestor := by
      rw [hfirst] at hn
      rw [Chain.commonAncestor]
      omega
    obtain ⟨e, he⟩ := List.exists_mem_of_ne_nil _ hne
    obtain ⟨he, hecut⟩ := List.mem_filter.mp he
    refine hmakes ⟨e, he, of_decide_eq_true hecut⟩ n hle (fun e he hecut ↦ ?_) a ?_
    · exact hall e (List.mem_filter.mpr ⟨he, decide_eq_true hecut⟩)
    · rw [hbranch n hle]
      exact ha

/-- **When a reorg leaves the branch covered**: exactly when it makes up for what it drops. -/
theorem Traced.reorg_coversBranch_iff (h : s.Traced L writes) (caches : Caches) {old new : Chain}
    (hacc : (reorgVerdict s old).isAcceptable = true) (hold : old.OnLedger keccak256 L)
    (hnew : new.OnLedger keccak256 L) (hparent : new.first.parentHash = old.first.parentHash)
    (hrec : new.Records writes) :
    (nextSnapshot s caches (.chainReorged old new)).CoversBranch L writes ↔
      s.MakesUp L writes old new := by
  refine ⟨fun hcovers hex n hn hall a ha ↦ ?_,
    fun hmakes ↦ (h.reorg caches hacc hold hnew hparent hrec hmakes).coversBranch⟩
  have hadopts := adopts_reorg caches new hacc
  have hcut := hold.lt_first_of_le (Nat.le_refl old.commonAncestor)
  have htip := new.first_number_le new.tip_mem
  have hfirst := hold.first_number_eq hnew hparent
  -- the entry of the replaced tip is dropped, so nothing is evicted
  have hhist : (nextSnapshot s caches (.chainReorged old new)).changedAccountsHistory =
      s.changedAccountsHistory.filter (fun e ↦ e.block ≤ old.commonAncestor) ++
        [new.changedEntry] := by
    obtain ⟨top, htop, hblock⟩ := h.top
    have hdropped : ¬ top.block ≤ old.commonAncestor := by
      obtain ⟨b, hb, hhash⟩ := Chain.mem_of_valid (h.following.onBlock.reorg_valid hacc)
      have hnumber := hold.number_hash hb
      rw [hhash, h.following.onBlock.height] at hnumber
      have := old.first_number_le hb
      omega
    have hlt : (s.changedAccountsHistory.filter fun e ↦ e.block ≤ old.commonAncestor).length <
        s.changedAccountsHistory.length :=
      List.length_filter_lt_length_iff_exists.mpr ⟨top, htop, by simpa using hdropped⟩
    have := h.length
    rw [hadopts.changed, push_eq_rtake depth_pos, rtake_of_length_le]
    rw [List.length_append, List.length_singleton]
    omega
  obtain ⟨e₀, he₀, hcut₀⟩ := hex
  obtain ⟨oldest, rest, hkept⟩ := List.exists_cons_of_ne_nil (List.ne_nil_of_mem
    (List.mem_filter.mpr ⟨he₀, decide_eq_true hcut₀⟩ :
      e₀ ∈ s.changedAccountsHistory.filter fun e ↦ e.block ≤ old.commonAncestor))
  have holdest : oldest.block < n := by
    have hmem : oldest ∈ s.changedAccountsHistory.filter fun e ↦ e.block ≤ old.commonAncestor := by
      rw [hkept]
      exact List.mem_cons_self
    obtain ⟨hmem, hcut⟩ := List.mem_filter.mp hmem
    exact hall oldest hmem (of_decide_eq_true hcut)
  have hn' : L.lineage.ancestor new.tip.hash n = L.lineage.ancestor s.blockHash n := by
    rw [hnew.ancestor_of_lt (by omega), hparent, h.following.ancestor_eq hold hacc hn]
  obtain ⟨e, he, hxe, -, hlists⟩ := hcovers oldest (by rw [hhist, hkept]; rfl) (n - 1) (by omega)
    (by rw [hadopts.block]; omega) n (by omega) (by rw [hadopts.block]; omega) a
    (by rw [hadopts.blockHash, hn']; exact ha)
  rw [hhist] at he
  rcases List.mem_append.mp he with he | he
  · obtain ⟨he, hecut⟩ := List.mem_filter.mp he
    have := hall e he (of_decide_eq_true hecut)
    omega
  · rw [List.mem_singleton.mp he] at hlists
    exact Chain.mem_changedEntry.mp hlists

/-- The first notification meets an empty history. -/
theorem traced_first {s' : StateSnapshot} (h : s'.Adopts c []) (hc : c.OnLedger keccak256 L)
    (hrec : c.Records writes) : s'.Traced L writes :=
  h.traced hc hrec (.nil : Ascending _ 0 _) (hc.number_pos _ c.first_mem) .nil
    fun hne ↦ absurd rfl hne

end StateSnapshot

/-- **The step lemma**: from a snapshot in the run, or from the initial one. -/
theorem HistoryState.traced_step {s s' : HistoryState} {d : Delivery}
    (h : s.snapshot = {} ∨ s.snapshot.Traced L writes) (hs : Step d s s')
    (hd : s.Connects keccak256 L writes d) (hmakes : s.MakesUp L writes d) :
    s'.snapshot.Traced L writes := by
  obtain ⟨n, caches⟩ := d
  obtain ⟨hacc, rfl⟩ := hs
  cases n with
  | chainCommitted new =>
    obtain ⟨hnew, hrec, hconn⟩ := hd
    rcases h with hinit | h
    · have hadopts := adopts_commit caches hacc
      rw [hinit] at hadopts ⊢
      exact StateSnapshot.traced_first hadopts hnew hrec
    · refine h.commit caches hacc hnew hrec (hconn.resolve_left h.following.onBlock.block_pos.ne')
  | chainReorged old new =>
    obtain ⟨hold, hnew, hparent, hrec⟩ := hd
    rcases h with hinit | h
    · have hadopts := adopts_reorg caches new hacc
      rw [hinit] at hadopts ⊢
      exact StateSnapshot.traced_first hadopts hnew hrec
    · exact h.reorg caches hacc hold hnew hparent hrec hmakes
  | chainReverted old => exact hd.elim

/-- **The changed-accounts history covers the branch**, in every run of commits that connect and
reorgs that make up for what they drop. -/
theorem coversBranch_of_run {s : HistoryState}
    (h : Lts.Run HistoryState.Step
      (fun s d ↦ s.Connects keccak256 L writes d ∧ s.MakesUp L writes d) {} s) :
    s.snapshot.CoversBranch L writes := by
  have hinv : s.snapshot = {} ∨ s.snapshot.Traced L writes := by
    induction h with
    | refl => exact .inl rfl
    | tail _ hlast ih =>
      obtain ⟨d, hs, hd⟩ := hlast
      exact .inr (HistoryState.traced_step ih hs hd.1 hd.2)
  rcases hinv with hinit | hinv
  · rw [hinit]
    exact nofun
  · exact hinv.coversBranch

end

/-! ## A reorg into a chain that was committed at once -/

namespace Truncated

open Branches Replaced

open scoped Revm

/-- The blocks `11`, `12` and `13`, and `33` beside `13`. -/
def ledger : Ledger :=
  .ofList (fun _ ↦ world 5) [block 1 10 11, block 2 11 12, block 3 12 13, block 3 12 33] (by decide)

/-- The block `12` writes to the account `8`. -/
def wrote (hash : B256) (a : Address) : Prop := hash = 12 ∧ a = 8

/-- The diff that lists the account `8`, which is not there. -/
def touch : BundleState where
  state := (∅ : HashMap Address BundleAccount).insert 8 {}

theorem touch_state (a : Address) : touch.state[a]? = if 8 = a then some {} else none := by
  simp only [touch, ExtTreeMap.getElem?_insert, LawfulEqCmp.compare_eq_iff_eq,
    ExtTreeMap.getElem?_empty]

theorem carries_touch : touch.Carries keccak (world 5) (world 5) where
  account_unlisted _ _ := rfl
  account_some a account info h hinfo := by
    rw [touch_state] at h
    split at h <;> cases h
    cases hinfo
  account_none _ _ _ _ := rfl
  slot_unlisted _ _ _ := rfl
  slot_some a slot account value h hslot := by
    rw [touch_state] at h
    split at h <;> cases h
    simp at hslot
  slot_none a slot account h _ := by
    rw [touch_state] at h
    split at h <;> cases h
    rfl

/-- The block `11`. -/
def c1 : Chain := chain (block 1 10 11) {}

/-- The blocks `12` and `13`, committed at once. -/
def c23 : Chain where
  blocks := [block 2 11 12, block 3 12 13]
  bundle := touch
  nonempty := List.cons_ne_nil _ _
  linked := by decide

/-- The block `13`. -/
def c3 : Chain := chain (block 3 12 13) {}

/-- The block `33`. -/
def d3 (bundle : BundleState) : Chain := chain (block 3 12 33) bundle

/-- A chain is on the ledger when its diff changes nothing. -/
theorem onLedger {c : Chain}
    (hblocks : ∀ b ∈ c.blocks, ledger.block b.hash = b ∧ 0 < b.number ∧ b.hash ≠ 0)
    (hcarries : c.bundle.Carries keccak (world 5) (world 5)) : c.OnLedger keccak ledger where
  block b hb := (hblocks b hb).1
  number_pos b hb := (hblocks b hb).2.1
  hash_ne b hb := (hblocks b hb).2.2
  carries _ _ := hcarries

theorem onLedger_c1 : c1.OnLedger keccak ledger := onLedger (by decide) (carries_nothing 5)

theorem onLedger_c23 : c23.OnLedger keccak ledger := onLedger (by decide) carries_touch

theorem onLedger_c3 : c3.OnLedger keccak ledger := onLedger (by decide) (carries_nothing 5)

theorem onLedger_d3 {bundle : BundleState} (h : bundle.Carries keccak (world 5) (world 5)) :
    (d3 bundle).OnLedger keccak ledger :=
  onLedger (show ∀ b ∈ [block 3 12 33], ledger.block b.hash = b ∧ 0 < b.number ∧ b.hash ≠ 0 by
    decide) h

/-- A chain without the block `12` has nothing to record. -/
theorem records {c : Chain} (h : ∀ b ∈ c.blocks, b.hash ≠ 12) : c.Records wrote :=
  fun b hb _ ha ↦ absurd ha.1 (h b hb)

theorem records_c23 : c23.Records wrote := by
  rintro b - a ⟨-, rfl⟩
  decide +kernel

def one : HistoryState := after {} (.chainCommitted c1)

def two : HistoryState := after one (.chainCommitted c23)

/-- The block `33` takes the place of the block `13`. -/
def three (bundle : BundleState) : HistoryState := after two (.chainReorged c3 (d3 bundle))

theorem step_one : HistoryState.Step ⟨.chainCommitted c1, {}⟩ {} one := ⟨by decide +kernel, rfl⟩

theorem step_two : HistoryState.Step ⟨.chainCommitted c23, {}⟩ one two := ⟨by decide +kernel, rfl⟩

theorem step_three (bundle : BundleState) :
    HistoryState.Step ⟨.chainReorged c3 (d3 bundle), {}⟩ two (three bundle) :=
  ⟨show (reorgVerdict two.snapshot c3).isAcceptable = true by decide +kernel, rfl⟩

theorem connects_one : HistoryState.Connects keccak ledger wrote {} ⟨.chainCommitted c1, {}⟩ :=
  And.intro onLedger_c1 ⟨records (by decide), Or.inl rfl⟩

theorem connects_two : one.Connects keccak ledger wrote ⟨.chainCommitted c23, {}⟩ :=
  And.intro onLedger_c23 ⟨records_c23, Or.inr (by decide +kernel)⟩

theorem connects_three {bundle : BundleState} (h : bundle.Carries keccak (world 5) (world 5)) :
    two.Connects keccak ledger wrote ⟨.chainReorged c3 (d3 bundle), {}⟩ :=
  And.intro onLedger_c3
    ⟨onLedger_d3 h, rfl, records (show ∀ b ∈ [block 3 12 33], b.hash ≠ 12 by decide)⟩

end Truncated

open scoped Revm in
open Truncated Branches in
/-- The new chain lists the account that the block `12` writes to. -/
theorem coversBranch_of_run_touch :
    (three touch).snapshot.CoversBranch Truncated.ledger wrote := by
  have hmakes : two.MakesUp Truncated.ledger wrote ⟨.chainReorged c3 (d3 touch), {}⟩ := by
    rintro - n - - a ⟨-, rfl⟩
    decide +kernel
  exact coversBranch_of_run (((Lts.Run.one step_one ⟨connects_one, trivial⟩).next step_two
    ⟨connects_two, trivial⟩).next (step_three touch) ⟨connects_three carries_touch, hmakes⟩)

open scoped Revm in
open Truncated Branches in
/-- **A reorg drops what a block that stays has written.**  The blocks `12` and `13` are committed
at once, and then `33` takes the place of `13`: the history is left with entries for `11` and `33`,
and none lists the account that `12` writes to. -/
theorem not_coversBranch_truncated :
    ¬ ∀ s : HistoryState,
      Lts.Run HistoryState.Step (HistoryState.Connects keccak Truncated.ledger wrote) {} s →
      s.snapshot.CoversBranch Truncated.ledger wrote := by
  intro h
  have hcovers := h (three {}) (((Lts.Run.one step_one connects_one).next step_two
    connects_two).next (step_three {}) (connects_three (carries_nothing 5)))
  have hhist : (three {}).snapshot.changedAccountsHistory = [⟨1, []⟩, ⟨3, []⟩] := by decide +kernel
  obtain ⟨e, he, -, -, hlists⟩ := hcovers ⟨1, []⟩ (by rw [hhist]; rfl) 1 (by decide)
    (by decide +kernel) 2 (by decide) (by decide +kernel) 8 ⟨by decide +kernel, rfl⟩
  have hnone : ∀ e ∈ (three {}).snapshot.changedAccountsHistory, 8 ∉ e.accounts := by
    rw [hhist]
    decide
  exact hnone e he hlists

end RexSim
