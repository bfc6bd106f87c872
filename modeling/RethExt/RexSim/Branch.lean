import RethExt.RexSim.Provenance

/-!
# The history of a snapshot

A snapshot lists block hashes by height, and keeps the receipts of the last blocks in a window that
is searched from its oldest entry.  Both are meant to be those of the branch the snapshot's own
block is on (`StateSnapshot.OwnHistory`).

A `Valid` commit or reorg keeps it so: the verdict ties the current block to the chain, and what is
kept lies below.  A round that takes any chain keeps what is there all the same, and
`Publication.CommitKeeps` and `Publication.ReorgKeeps` say when that fits the new branch:
`onBranch_iff` shows that the entries are right exactly then.  Besides these rounds, only an answer
to a block-hash query from another branch can spoil the history.
-/

set_option autoImplicit false

open Std Window

namespace RexSim

section

variable [Revm]

variable {keccak256 : Bytes → B256} {L : Ledger}

/-! ## Entries on a branch -/

variable (L) in
/-- The entry is that of the ancestor of the block `h` at its height. -/
structure BlockReceipts.OnBranch (h : B256) (r : BlockReceipts) : Prop where
  le_height : r.block ≤ L.lineage.height h
  receipts : r.receipts = (L.block (L.lineage.ancestor h r.block)).receipts
  txHashes : r.txHashes = (L.block (L.lineage.ancestor h r.block)).txHashes

omit [Revm] in
/-- An entry is on every branch that has the same ancestor at its height. -/
theorem BlockReceipts.OnBranch.transfer {h h' : B256} {r : BlockReceipts} (hr : r.OnBranch L h)
    (hle : r.block ≤ L.lineage.height h')
    (hanc : L.lineage.ancestor h' r.block = L.lineage.ancestor h r.block) : r.OnBranch L h' :=
  ⟨hle, by rw [hanc]; exact hr.receipts, by rw [hanc]; exact hr.txHashes⟩

/-- The entries of a chain are on the branch of its tip. -/
theorem Chain.OnLedger.entry_onBranch {c : Chain} (h : c.OnLedger keccak256 L) {r : BlockReceipts}
    (hr : r ∈ c.entries) : r.OnBranch L c.tip.hash := by
  obtain ⟨b, hb, rfl⟩ := List.mem_map.mp hr
  have hblock : L.block (L.lineage.ancestor c.tip.hash b.number) = b := by
    rw [h.ancestor_of_mem hb, h.block b hb]
  refine ⟨?_, congrArg Block.receipts hblock.symm, congrArg Block.txHashes hblock.symm⟩
  rw [h.number_hash c.tip_mem]
  exact c.le_tip_number hb

/-- **A window under a chain.**  The entries after a chain is pushed are on the branch of its tip
exactly when those that it does not evict are. -/
theorem Chain.OnLedger.pushAll_onBranch_iff {c : Chain} (h : c.OnLedger keccak256 L)
    (history : List BlockReceipts) :
    (∀ r ∈ pushAll receiptsHistoryDepth history c.entries, r.OnBranch L c.tip.hash) ↔
      ∀ r ∈ history.rtake (receiptsHistoryDepth - c.blocks.length),
        r.OnBranch L c.tip.hash := by
  have hne : c.entries ≠ [] := by
    rw [Chain.entries, Ne, List.map_eq_nil_iff]
    exact c.nonempty
  rw [pushAll_eq_rtake_of_ne_nil (by decide) history hne, rtake_append,
    show c.entries.length = c.blocks.length from List.length_map _]
  constructor
  · exact fun hall r hr ↦ hall r (List.mem_append_left _ hr)
  · intro hkept r hr
    rcases List.mem_append.mp hr with hr | hr
    · exact hkept r hr
    · exact h.entry_onBranch ((rtake_suffix _ _).subset hr)

/-! ## Snapshots -/

variable (L) in
/-- What the snapshot lists is on the branch of its block. -/
structure StateSnapshot.OnBranch (s : StateSnapshot) : Prop where
  blockHashes : ∀ n hash, n ≤ s.block → s.blockHashes[n]? = some hash →
    hash = L.lineage.ancestor s.blockHash n
  receipts : ∀ r ∈ s.receiptsHistory, r.OnBranch L s.blockHash

variable (L) in
/-- **The history belongs to the tip's own branch.** -/
structure StateSnapshot.OwnHistory (s : StateSnapshot) : Prop where
  blockHashes : ∀ n hash, n ≤ s.block → s.blockHashes[n]? = some hash →
    hash = L.lineage.ancestor s.blockHash n
  tip : s.blockHash ≠ 0 → s.blockHashes[s.block]? = some s.blockHash
  receipts : ∀ n receipts txHashes, s.receiptsAndTxHashes n = some (receipts, txHashes) →
    n ≤ s.block ∧ receipts = (L.block (L.lineage.ancestor s.blockHash n)).receipts ∧
      txHashes = (L.block (L.lineage.ancestor s.blockHash n)).txHashes

variable (L) in
/-- The snapshot stands on a block of the ledger, and lists its branch. -/
structure StateSnapshot.StandsOnBranch (s : StateSnapshot) : Prop
    extends s.OnBranch L, s.OnBlock L where
  tip : s.blockHashes[s.block]? = some s.blockHash

theorem StateSnapshot.StandsOnBranch.ownHistory {s : StateSnapshot} (h : s.StandsOnBranch L) :
    s.OwnHistory L where
  blockHashes := h.blockHashes
  tip _ := h.tip
  receipts n receipts txHashes hlook := by
    rw [receiptsAndTxHashes, Option.map_eq_some_iff] at hlook
    obtain ⟨r, hfind, hr⟩ := hlook
    obtain ⟨rfl, rfl⟩ := Prod.mk.inj hr
    have hblock : r.block = n := by simpa using List.find?_some hfind
    have hon := h.receipts r (List.mem_of_find?_eq_some hfind)
    rw [← hblock, ← h.height]
    exact ⟨hon.le_height, hon.receipts, hon.txHashes⟩

theorem StateSnapshot.ownHistory_initial : StateSnapshot.OwnHistory L {} where
  blockHashes _ _ _ h := absurd h getElem?_empty_ne
  tip h := absurd rfl h
  receipts _ _ _ h := by cases h

/-! ## Rounds -/

namespace Publication

variable (p : Publication) (L : Ledger) (old new : Chain)

/-- What a commit keeps is on the branch of its chain: the block hashes below its first block, and
the receipts it does not evict. -/
structure CommitKeeps : Prop where
  blockHashes : ∀ n hash, n < new.first.number → p.mergedHashes[n]? = some hash →
    hash = L.lineage.ancestor new.first.parentHash n
  receipts : ∀ r ∈ p.current.receiptsHistory.rtake (receiptsHistoryDepth - new.blocks.length),
    r.OnBranch L new.tip.hash

/-- What a reorg keeps is on the branch of its new chain: the block hashes up to the common
ancestor, and the receipts up to there that it does not evict. -/
structure ReorgKeeps : Prop where
  blockHashes : ∀ n hash, n ≤ old.commonAncestor → p.current.blockHashes[n]? = some hash →
    hash = L.lineage.ancestor new.first.parentHash n
  receipts : ∀ r ∈ (p.current.receiptsHistory.filter fun r ↦ r.block ≤ old.commonAncestor).rtake
      (receiptsHistoryDepth - new.blocks.length), r.OnBranch L new.tip.hash

variable {p L old new}

/-- **When a commit keeps to the branch.** -/
theorem IsCommit.onBranch_iff (h : p.IsCommit new) (hnew : new.OnLedger keccak256 L) :
    p.round.snapshot.OnBranch L ↔ p.CommitKeeps L new := by
  have hreceipts := hnew.pushAll_onBranch_iff p.current.receiptsHistory
  rw [← extractBlockData_map_entry] at hreceipts
  rw [h.snapshot]
  constructor
  · intro hon
    refine ⟨fun n hash hn hhash ↦ ?_, hreceipts.mp fun r hr ↦ hon.receipts r ?_⟩
    · rw [← hnew.ancestor_of_lt hn]
      refine hon.blockHashes n hash ?_ ?_
      · exact Nat.le_of_lt (hn.trans_le (new.first_number_le new.tip_mem))
      · rw [buildCommitState_blockHashes, Chain.lastHash_eq_none (Or.inl hn), Option.none_or]
        exact hhash
    · rwa [buildCommitState_receiptsHistory]
  · intro hkeeps
    refine ⟨fun n hash hn hhash ↦ ?_, fun r hr ↦ hreceipts.mpr hkeeps.receipts r ?_⟩
    · rw [buildCommitState_blockHashes] at hhash
      exact hnew.blockHashes hkeeps.blockHashes hn hhash
    · rwa [buildCommitState_receiptsHistory] at hr

/-- **When a reorg keeps to the branch.** -/
theorem IsReorg.onBranch_iff (h : p.IsReorg old new) (hold : old.OnLedger keccak256 L)
    (hnew : new.OnLedger keccak256 L) (hparent : new.first.parentHash = old.first.parentHash) :
    p.round.snapshot.OnBranch L ↔ p.ReorgKeeps L old new := by
  have hreceipts := hnew.pushAll_onBranch_iff
    (p.current.receiptsHistory.filter fun r ↦ r.block ≤ old.commonAncestor)
  rw [← extractBlockData_map_entry] at hreceipts
  rw [h.snapshot]
  constructor
  · intro hon
    refine ⟨fun n hash hn hhash ↦ ?_, hreceipts.mp fun r hr ↦ hon.receipts r ?_⟩
    · have hlt : n < new.first.number := by
        rw [hold.first_number_eq hnew hparent]
        exact hold.lt_first_of_le hn
      rw [← hnew.ancestor_of_lt hlt]
      refine hon.blockHashes n hash ?_ ?_
      · exact Nat.le_of_lt (hlt.trans_le (new.first_number_le new.tip_mem))
      · rw [buildReorgState_blockHashes, Chain.lastHash_eq_none (Or.inl hlt), Option.none_or,
          if_pos hn]
        exact hhash
    · rwa [buildReorgState_receiptsHistory]
  · intro hkeeps
    refine ⟨fun n hash hn hhash ↦ ?_, fun r hr ↦ hreceipts.mpr hkeeps.receipts r ?_⟩
    · rw [buildReorgState_blockHashes] at hhash
      exact hnew.reorg_blockHashes hkeeps.blockHashes hn hhash
    · rwa [buildReorgState_receiptsHistory] at hr

variable (p L) in
/-- The block hashes a commit would take are those of the ancestors of the current block. -/
def HashesRight : Prop :=
  ∀ n hash, p.caches.blockHashes.Takes p.current.blockHash n hash → n ≤ p.current.block →
    hash = L.lineage.ancestor p.current.blockHash n

/-- A `Valid` commit keeps to the branch of the current block. -/
theorem commitKeeps_of_valid (hcurrent : p.current.StandsOnBranch L) (hhashes : p.HashesRight L)
    (hnew : new.OnLedger keccak256 L) (hvalid : commitVerdict p.current new = .valid) :
    p.CommitKeeps L new := by
  constructor
  case blockHashes =>
    have hmerged : ∀ n hash, n ≤ p.current.block → p.mergedHashes[n]? = some hash →
        hash = L.lineage.ancestor p.current.blockHash n := by
      intro n hash hn hheld
      exact TaggedCache.of_mergeInto hhashes
        (fun n hash hheld hn ↦ hcurrent.blockHashes n hash hn hheld) hheld hn
    exact fun n hash hfirst hheld ↦ hnew.kept_of_valid hvalid hcurrent.height hmerged hfirst hheld
  case receipts =>
    intro r hr
    have hstarts := (Chain.isBase_of_valid hvalid).starts
    have hon := hcurrent.receipts r ((rtake_suffix _ _).subset hr)
    exact hon.transfer (hon.le_height.trans (hnew.height_le_of_starts hstarts))
      (hnew.ancestor_of_le hstarts hon.le_height)

/-- A `Valid` reorg keeps to the branch of the common ancestor. -/
theorem reorgKeeps_of_valid (hcurrent : p.current.StandsOnBranch L)
    (hold : old.OnLedger keccak256 L) (hnew : new.OnLedger keccak256 L)
    (hparent : new.first.parentHash = old.first.parentHash)
    (hvalid : reorgVerdict p.current old = .valid) : p.ReorgKeeps L old new := by
  constructor
  case blockHashes =>
    exact fun n hash hn hheld ↦
      hold.kept_of_valid_reorg hparent hvalid hcurrent.height hcurrent.blockHashes hn hheld
  case receipts =>
    intro r hr
    obtain ⟨b, hb, hbhash⟩ := Chain.mem_of_valid hvalid
    obtain ⟨hmem, hle⟩ := List.mem_filter.mp ((rtake_suffix _ _).subset hr)
    have hlt := hold.lt_first_of_le (of_decide_eq_true hle)
    obtain ⟨-, hanc⟩ := hold.ancestor_of_block hb hlt
    rw [hbhash] at hanc
    rw [← hold.first_number_eq hnew hparent] at hlt
    refine (hcurrent.receipts r hmem).transfer ?_ ?_
    · rw [hnew.number_hash new.tip_mem]
      exact Nat.le_of_lt (hlt.trans_le (new.first_number_le new.tip_mem))
    · rw [hnew.ancestor_of_lt hlt, hparent, hanc]

/-- What a commit or a reorg publishes stands on the branch, if it keeps to it. -/
theorem IsCommit.standsOnBranch (h : p.IsCommit new) (hnew : new.OnLedger keccak256 L)
    (hkeeps : p.CommitKeeps L new) : p.round.snapshot.StandsOnBranch L where
  toOnBranch := (h.onBranch_iff hnew).mpr hkeeps
  toOnBlock := hnew.onBlock (by rw [h.snapshot]; rfl) (by rw [h.snapshot]; rfl)
  tip := by
    rw [h.snapshot, buildCommitState_blockHashes, buildCommitState_block]
    exact Option.or_eq_some_iff.mpr (Or.inl (Chain.lastHash_of_mem new.tip_mem))

theorem IsReorg.standsOnBranch (h : p.IsReorg old new) (hold : old.OnLedger keccak256 L)
    (hnew : new.OnLedger keccak256 L) (hparent : new.first.parentHash = old.first.parentHash)
    (hkeeps : p.ReorgKeeps L old new) : p.round.snapshot.StandsOnBranch L where
  toOnBranch := (h.onBranch_iff hold hnew hparent).mpr hkeeps
  toOnBlock := hnew.onBlock (by rw [h.snapshot]; rfl) (by rw [h.snapshot]; rfl)
  tip := by
    rw [h.snapshot, buildReorgState_blockHashes, buildReorgState_block]
    exact Option.or_eq_some_iff.mpr (Or.inl (Chain.lastHash_of_mem new.tip_mem))

variable (p L) in
/-- A round that takes any chain keeps to the branch of that chain. -/
def Keeps : Prop :=
  match p.notification with
  | .chainCommitted new => commitVerdict p.current new = .acceptAny → p.CommitKeeps L new
  | .chainReorged old new => reorgVerdict p.current old = .acceptAny → p.ReorgKeeps L old new
  | .chainReverted _ => True

end Publication

/-! ## Runs -/

variable (L) in
/-- The snapshot stands on a branch, or it is initial or stale and has no hash. -/
def StateSnapshot.Branched (s : StateSnapshot) : Prop :=
  s.StandsOnBranch L ∨ s.blockHash = 0 ∧ (s.stale = true ∨ s = {})

/-- A snapshot with a hash stands on a branch. -/
theorem StateSnapshot.Branched.stands {s : StateSnapshot} (h : s.Branched L)
    (hhash : s.blockHash ≠ 0) : s.StandsOnBranch L :=
  h.resolve_right fun hzero ↦ hhash hzero.1

/-- Staleness changes nothing about the history. -/
theorem StateSnapshot.Branched.markStale {s : StateSnapshot} (h : s.Branched L) :
    (RexSim.markStale s).Branched L := by
  rcases h with hstands | ⟨hzero, -⟩
  · exact Or.inl { hstands with
      blockHashes := hstands.blockHashes, receipts := hstands.receipts, tip := hstands.tip }
  · exact Or.inr ⟨hzero, Or.inl rfl⟩

/-- **A round** keeps the snapshot on its branch. -/
theorem Publication.branched {p : Publication} (hcurrent : p.current.Branched L)
    (hhashes : p.current.StandsOnBranch L → p.HashesRight L)
    (htold : p.notification.OnLedger keccak256 L) (hkeeps : p.Keeps L) :
    p.round.snapshot.Branched L := by
  by_cases hacc : p.notification.isAccepted p.current = true
  · rw [Keeps.eq_def] at hkeeps
    cases hn : p.notification with
    | chainCommitted new =>
      rw [hn] at htold hacc hkeeps
      have hcommit : p.IsCommit new := ⟨hn, hacc⟩
      refine Or.inl (hcommit.standsOnBranch htold ?_)
      rcases CommitValidation.isAcceptable_iff.mp hacc with hvalid | hany
      · have hstands := hcurrent.stands (commitVerdict_eq_valid hvalid).2.1
        exact commitKeeps_of_valid hstands (hhashes hstands) htold hvalid
      · exact hkeeps hany
    | chainReorged old new =>
      rw [hn] at htold hacc hkeeps
      obtain ⟨hold, hnew, hparent⟩ := htold
      have hreorg : p.IsReorg old new := ⟨hn, hacc⟩
      refine Or.inl (hreorg.standsOnBranch hold hnew hparent ?_)
      rcases ReorgValidation.isAcceptable_iff.mp hacc with hvalid | hany
      · exact reorgKeeps_of_valid (hcurrent.stands (reorgVerdict_eq_valid hvalid).2.1) hold hnew
          hparent hvalid
      · exact hkeeps hany
    | chainReverted old =>
      rw [round, handleNotification_snapshot, hn]
      exact Or.inr ⟨rfl, Or.inl rfl⟩
  · rw [round, handleNotification_snapshot,
      nextSnapshot_of_not_accepted p.caches (Bool.eq_false_iff.mpr hacc)]
    exact hcurrent.markStale

namespace Sys

variable {s s' : Sys keccak256} {e : Event keccak256}

variable (L) in
/-- Block-hash queries are answered by blocks that agree with the tags of their requests, and rounds
that take any chain keep to its branch. -/
def KeepsBranch (s : Sys keccak256) : Event keccak256 → Prop
  | .answer .blockHash i q fails => s.layer.Pinned L (.answer .blockHash i q fails)
  | .publish => ∀ p, s.Publishes p → p.Keeps L
  | _ => True

variable (L) in
/-- A block-hash request does not ask for the block it is made at. -/
def OffTip : (k : FetchKind) → (spec keccak256 k).Req → Prop
  | .blockHash, req => req.atBlockHash ≠ 0 → req.number ≠ L.lineage.height req.atBlockHash
  | .account, _ => True
  | .code, _ => True
  | .storage, _ => True

variable (L) in
structure Branched (s : Sys keccak256) : Prop where
  fed : s.Fed
  told : s.Told L
  right : s.layer.RightAt L .blockHash
  asks : s.Asks (OffTip L)
  snapshot : s.snapshot.Branched L

theorem branched_new (fetch : FetchConfig) (tip : B256) : (new keccak256 fetch tip).Branched L where
  fed := fed_new fetch tip
  told := told_new L fetch tip
  right := FetchLayer.rightAt_new L fetch tip .blockHash
  asks := asks_new _ fetch tip
  snapshot := Or.inr ⟨rfl, Or.inr rfl⟩

/-- The block hashes that are there for a publication are right. -/
theorem Branched.hashesRight (h : s.Branched L) {p : Publication} (hp : s.Publishes p)
    (hstands : p.current.StandsOnBranch L) : p.HashesRight L := by
  intro n hash htakes hn
  have hfetched : s.Fetched .blockHash p.current.blockHash n hash :=
    hp.fetched h.fed (by decide) htakes
  obtain ⟨req, hoff, htag, rfl⟩ := hfetched.asked (by decide) h.asks
  have hright := hfetched.right (by decide) h.right
  have hat : req.atBlockHash = p.current.blockHash := Option.some.inj htag
  have hne := hoff (by rw [hat]; exact hstands.blockHash_ne)
  rw [hat, hstands.height] at hne
  exact hright (by rw [hstands.height]; exact Nat.lt_of_le_of_ne hn hne)

/-- A block-hash read of a snapshot that stands on a branch does not ask for its own block. -/
theorem offTip_of_readRef (h : s.snapshot.Branched L) {k : FetchKind}
    {key : (spec keccak256 k).Key} {req : (spec keccak256 k).Req}
    (hread : s.snapshot.readRef keccak256 k key = .fetch req) : OffTip L k req := by
  cases k with
  | blockHash =>
    rw [StateSnapshot.readRef, StateSnapshot.blockHashRef] at hread
    split at hread
    · cases hread
    · split at hread <;> cases hread
      rename_i hnone
      intro hhash hheight
      have hstands := h.stands hhash
      rw [show key = s.snapshot.block from hheight.trans hstands.height, hstands.tip] at hnone
      cases hnone
  | _ => trivial

/-- **The step lemma.** -/
theorem Branched.step (h : s.Branched L) (hs : Step L e s s') (hhonest : s.Honest L e)
    (hkeeps : s.KeepsBranch L e) : s'.Branched L where
  fed := h.fed.step hs
  told := h.told.step hs hhonest
  right := rightAt_step (by decide) h.right hs fun i q he ↦ by
    rw [he] at hkeeps ⊢
    exact hkeeps
  asks := h.asks.step hs fun _ _ _ _ hread ↦ offTip_of_readRef h.snapshot hread
  snapshot := by
    cases hs.transition with
    | publish hjob hcaches =>
      have hp : s.Publishes _ := ⟨_, _, hjob, hcaches, rfl⟩
      refine Publication.branched ?_ (h.hashesRight hp) (hp.told h.told) (hkeeps _ hp)
      rw [hp.current h.fed]
      exact h.snapshot
    | _ => exact h.snapshot

end Sys

/-- **The history belongs to the tip's own branch** in every run of an honest node in which block
hashes are answered from the right branch and every round that takes any chain keeps to its branch:
every snapshot that is not stale lists its ancestors, and answers with their receipts. -/
theorem ownHistory_of_run {fetch : FetchConfig} {tip : B256} {s : Sys keccak256}
    (h : Lts.Run (Sys.Step L) (fun s e ↦ s.Honest L e ∧ s.KeepsBranch L e)
      (.new keccak256 fetch tip) s) (hfresh : s.snapshot.stale = false) :
    s.snapshot.OwnHistory L := by
  have hinv := h.invariant (fun e _ _ hinv hs hok ↦ hinv.step (e := e) hs hok.1 hok.2)
    (Sys.branched_new fetch tip)
  rcases hinv.snapshot with hstands | ⟨-, hstale | hinit⟩
  · exact hstands.ownHistory
  · rw [hfresh] at hstale
    cases hstale
  · rw [hinit]
    exact StateSnapshot.ownHistory_initial

end

/-! ## A recovery onto another branch -/

namespace OtherBranch

open Branches

open scoped Revm

/-- The round finds no history, or its verdict looks at the chain. -/
def connected (p : Publication) : Bool :=
  p.mergedHashes.isEmpty && p.current.blockHashes.isEmpty && p.current.receiptsHistory.isEmpty ||
    match p.notification with
    | .chainCommitted new => commitVerdict p.current new != .acceptAny
    | .chainReorged old _ => reorgVerdict p.current old != .acceptAny
    | .chainReverted _ => true

theorem keeps_of_connected {p : Publication} (h : connected p = true) : p.Keeps ledger := by
  rw [connected, Bool.or_eq_true, Bool.and_eq_true, Bool.and_eq_true, ExtTreeMap.isEmpty_iff,
    ExtTreeMap.isEmpty_iff, List.isEmpty_iff] at h
  rw [Publication.Keeps.eq_def]
  rcases h with ⟨⟨hmerged, hhashes⟩, hreceipts⟩ | hverdict
  · split
    · refine fun _ ↦ ⟨fun n hash _ hhash ↦ ?_, fun r hr ↦ ?_⟩
      · rw [hmerged, ExtTreeMap.getElem?_empty] at hhash
        cases hhash
      · have hmem := (rtake_suffix _ _).subset hr
        rw [hreceipts] at hmem
        cases hmem
    · refine fun _ ↦ ⟨fun n hash _ hhash ↦ ?_, fun r hr ↦ ?_⟩
      · rw [hhashes, ExtTreeMap.getElem?_empty] at hhash
        cases hhash
      · have hmem := (List.mem_filter.mp ((rtake_suffix _ _).subset hr)).1
        rw [hreceipts] at hmem
        cases hmem
    · trivial
  · split
    · rename_i hn
      rw [hn] at hverdict
      exact fun hany ↦ absurd hany (by simpa using hverdict)
    · rename_i hn
      rw [hn] at hverdict
      exact fun hany ↦ absurd hany (by simpa using hverdict)
    · trivial

/-- Rounds that connect, and no answers to block-hash queries. -/
def check (s : Sys keccak) : Event keccak → Bool
  | .answer .blockHash _ _ fails => fails
  | .publish => match s.job with
    | some job => (job.caches.map fun caches ↦ connected (s.publication job caches)).getD true
    | none => true
  | _ => true

theorem keepsBranch_of_check {s : Sys keccak} {e : Event keccak} (h : check s e = true) :
    s.KeepsBranch ledger e := by
  rw [check.eq_def] at h
  split at h
  · subst h
    trivial
  · rintro _ ⟨job, caches, hjob, hcaches, rfl⟩
    simp only [hjob, hcaches, Option.map_some, Option.getD_some] at h
    exact keeps_of_connected h
  · rename_i hanswer hpublish
    cases e with
    | answer k i q fails =>
      cases k with
      | blockHash => exact absurd rfl (hanswer i q fails)
      | _ => trivial
    | publish => exact absurd rfl hpublish
    | _ => trivial

/-- The node replaces the block `11` by `21`, and goes on to `22`. -/
def told : List (Event keccak) :=
  .node (.chainCommitted a1) false :: round ++ .node (.chainReorged a1 b1) false :: round ++
    .node (.chainCommitted b2) false :: round

/-- The same, but the reorg is lost; `22` leaves a gap, and `23` is accepted. -/
def lost : List (Event keccak) :=
  .node (.chainCommitted a1) false :: round ++ .node (.chainReorged a1 b1) true ::
    .node (.chainCommitted b2) false :: round ++ .node (.chainCommitted b3) false :: round

theorem isSome_replay_told : (Lts.replay (Sys.step ledger) check told start).isSome = true := by
  decide +kernel

def afterTold : Sys keccak :=
  (Lts.replay (Sys.step ledger) check told start).get isSome_replay_told

theorem run_told :
    Lts.Run (Sys.Step ledger) (fun s e ↦ s.Honest ledger e ∧ s.KeepsBranch ledger e) start
      afterTold := by
  refine Sys.run_of_replay (Option.some_get isSome_replay_told).symm ?_
    fun s e hcheck hhonest ↦ ⟨hhonest, keepsBranch_of_check hcheck⟩
  change Sys.History keccak ledger 10 [.chainCommitted a1, .chainReorged a1 b1, .chainCommitted b2]
  exact ⟨⟨onLedger_a1, Or.inl rfl⟩, ⟨onLedger_a1, onLedger_b1, rfl, rfl⟩,
    ⟨onLedger_b2, Or.inl rfl⟩, trivial⟩

theorem isSome_replay_lost :
    (Lts.replay (Sys.step ledger) Lts.anyCheck lost start).isSome = true := by
  decide +kernel

def afterLost : Sys keccak :=
  (Lts.replay (Sys.step ledger) Lts.anyCheck lost start).get isSome_replay_lost

theorem run_lost : Lts.Run (Sys.Step ledger) (Sys.Honest ledger) start afterLost := by
  refine Sys.run_of_replay (Option.some_get isSome_replay_lost).symm ?_ fun _ _ _ h ↦ h
  change Sys.History keccak ledger 10 [.chainCommitted a1, .chainReorged a1 b1, .chainCommitted b2,
    .chainCommitted b3]
  exact ⟨⟨onLedger_a1, Or.inl rfl⟩, ⟨onLedger_a1, onLedger_b1, rfl, rfl⟩,
    ⟨onLedger_b2, Or.inl rfl⟩, ⟨onLedger_b3, Or.inl rfl⟩, trivial⟩

end OtherBranch

open scoped Revm in
open OtherBranch in
/-- The history after a reorg that is told. -/
theorem ownHistory_of_run_told : afterTold.snapshot.OwnHistory Branches.ledger :=
  ownHistory_of_run run_told (by decide +kernel)

open scoped Revm in
open OtherBranch Branches in
/-- **The history is of another branch.**  The recovered snapshot is not stale and stands on the
block `23`; at the height `1` it lists the block `11` and answers with its transaction, but the
ancestor of `23` is `21`. -/
theorem not_ownHistory_lost :
    Lts.Run (Sys.Step ledger) (Sys.Honest ledger) (.new keccak {} 10) afterLost ∧
      afterLost.snapshot.stale = false ∧ afterLost.snapshot.blockHash = 23 ∧
      afterLost.snapshot.blockHashes[1]? = some 11 ∧
      afterLost.snapshot.receiptsAndTxHashes 1 = some ([], [11]) ∧
      ledger.lineage.ancestor 23 1 = 21 ∧ ¬ afterLost.snapshot.OwnHistory ledger := by
  have hlisted : afterLost.snapshot.blockHashes[1]? = some 11 := by decide +kernel
  have htip : afterLost.snapshot.blockHash = 23 := by decide +kernel
  have hanc : ledger.lineage.ancestor 23 1 = 21 := by decide +kernel
  refine ⟨run_lost, by decide +kernel, htip, hlisted, by decide +kernel, hanc, fun h ↦ ?_⟩
  have hhash := h.blockHashes 1 11 (by decide +kernel) hlisted
  rw [htip, hanc] at hhash
  exact absurd hhash (by decide)

end RexSim
