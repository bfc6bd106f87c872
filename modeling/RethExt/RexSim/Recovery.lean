import RethExt.RexSim.Diff
import RethExt.RexSim.Provenance

/-!
# Recovery from staleness

`markStale` keeps the accounts and the slots that were held, and `buildCommitState` starts from
them whatever the verdict was.  A stale snapshot takes any commit, so what was held when blocks were
skipped is carried over to a tip those blocks lie below, with nothing but the diff of the committed
chain applied to it.

A recovery proves what it serves (`Sys.Recovers`) when every entry of the snapshot it publishes is
the value at its tip, and was written by the diff or fetched at the block the chain starts from.
`Sys.RecoveryFits` says this of the entries the commit starts with, without a word on their values,
and that the diff takes none of them away; `recovers_iff` says that a recovery proves what it serves
exactly then.
-/

set_option autoImplicit false

open Std

namespace RexSim

section

variable [Revm]

/-! ## What a diff writes -/

namespace BundleState

variable (bundle : BundleState)

def WritesAccount (a : Address) : Prop :=
  ∃ account info, bundle.state[a]? = some account ∧ account.info = some info

def WritesSlot (key : SlotKey) : Prop :=
  ∃ account value, bundle.state[key.1]? = some account ∧ account.storage[key.2]? = some value

end BundleState

variable {c : Chain}

/-- An account the diff does not write keeps its info. -/
theorem extractExecutionChanges_newInfo_of_not_writes {a : Address}
    (h : ¬ c.bundle.WritesAccount a) (held : AccountInfo) :
    (extractExecutionChanges c).newInfo a held = held := by
  rw [extractExecutionChanges_newInfo]
  cases hstate : c.bundle.state[a]? with
  | none => rfl
  | some account =>
    cases hinfo : account.info with
    | none => rw [Option.bind_some, hinfo, Option.getD_none]
    | some info => exact absurd ⟨account, info, hstate, hinfo⟩ h

/-- A slot the diff does not write keeps its value. -/
theorem extractExecutionChanges_newSlot_of_not_writes {key : SlotKey}
    (h : ¬ c.bundle.WritesSlot key) (held : U256) :
    (extractExecutionChanges c).newSlot key held = held := by
  rw [extractExecutionChanges_newSlot]
  cases hstate : c.bundle.state[key.1]? with
  | none => rfl
  | some account =>
    cases hslot : account.storage[key.2]? with
    | none => rw [Option.bind_some, hslot, Option.map_none, Option.getD_none]
    | some value => exact absurd ⟨account, value, hstate, hslot⟩ h

variable {keccak256 : Bytes → B256} {L : Ledger} {new : Chain} {p : Publication}

/-- **A commit and the ledger.**  What a commit publishes is the state at its tip exactly when the
diff covers what was merged, and that is right where the diff leaves it alone, as compared with any
block the diff can start from. -/
theorem Publication.IsCommit.holds_iff (h : p.IsCommit new) (hnew : new.OnLedger keccak256 L)
    {base : B256} (hbase : base = new.first.parentHash ∨ ∃ b ∈ new.blocks, b.hash = base) :
    Holds keccak256 p.round.snapshot.accounts p.round.snapshot.storage (L.state new.tip.hash) ↔
      new.bundle.Covers p.merged p.mergedStorage ∧
        new.bundle.KeptHold keccak256 p.merged p.mergedStorage (L.state base) := by
  rw [h.snapshot]
  exact (hnew.carries base hbase).holds_iff
    (fun a ↦ buildCommitState_accounts p.current p.caches _ _ _ a)
    fun key ↦ buildCommitState_storage p.current p.caches _ _ _ key

/-! ## Where entries are from -/

namespace Sys

variable {s : Sys keccak256}

/-- Every entry was written by the diff of the chain, or fetched at the block the chain starts
from. -/
structure Proven (s : Sys keccak256) (new : Chain) (accounts : HashMap Address AccountInfo)
    (storage : HashMap SlotKey U256) : Prop where
  accounts : ∀ (a : Address) held, accounts[a]? = some held →
    new.bundle.WritesAccount a ∨ s.Fetched .account new.first.parentHash a held
  storage : ∀ (key : SlotKey) held, storage[key]? = some held →
    new.bundle.WritesSlot key ∨ s.Fetched .storage new.first.parentHash key held

/-- The diff of the chain does not matter to where entries are from. -/
theorem proven_iff {accounts accounts' : HashMap Address AccountInfo}
    {storage storage' : HashMap SlotKey U256}
    (haccounts : ∀ a, accounts'[a]? = (accounts[a]?).map ((extractExecutionChanges new).newInfo a))
    (hstorage : ∀ key : SlotKey,
      storage'[key]? = (storage[key]?).map ((extractExecutionChanges new).newSlot key)) :
    s.Proven new accounts' storage' ↔ s.Proven new accounts storage := by
  constructor
  · refine fun h ↦ ⟨fun a held hheld ↦ ?_, fun key held hheld ↦ ?_⟩
    · by_cases hwrites : new.bundle.WritesAccount a
      · exact Or.inl hwrites
      · refine h.accounts a held ?_
        rw [haccounts, hheld, Option.map_some,
          extractExecutionChanges_newInfo_of_not_writes hwrites]
    · by_cases hwrites : new.bundle.WritesSlot key
      · exact Or.inl hwrites
      · refine h.storage key held ?_
        rw [hstorage, hheld, Option.map_some,
          extractExecutionChanges_newSlot_of_not_writes hwrites]
  · refine fun h ↦ ⟨fun a value hvalue ↦ ?_, fun key value hvalue ↦ ?_⟩
    · rw [haccounts, Option.map_eq_some_iff] at hvalue
      obtain ⟨held, hheld, rfl⟩ := hvalue
      by_cases hwrites : new.bundle.WritesAccount a
      · exact Or.inl hwrites
      · rw [extractExecutionChanges_newInfo_of_not_writes hwrites]
        exact h.accounts a held hheld
    · rw [hstorage, Option.map_eq_some_iff] at hvalue
      obtain ⟨held, hheld, rfl⟩ := hvalue
      by_cases hwrites : new.bundle.WritesSlot key
      · exact Or.inl hwrites
      · rw [extractExecutionChanges_newSlot_of_not_writes hwrites]
        exact h.storage key held hheld

/-- What the diff leaves alone of proven entries was fetched, and has the value it was fetched
with. -/
theorem Proven.keptHold (hright : ∀ k, k ≠ .code → s.layer.RightAt L k)
    {accounts : HashMap Address AccountInfo} {storage : HashMap SlotKey U256}
    (h : s.Proven new accounts storage) :
    new.bundle.KeptHold keccak256 accounts storage (L.state new.first.parentHash) where
  accounts a held hheld hkeeps := by
    rcases h.accounts a held hheld with ⟨account, info, hstate, -⟩ | hfetched
    · rw [BundleState.KeepsAccount, hstate] at hkeeps
      cases hkeeps
    · exact Option.some.inj (hfetched.right (by decide) (hright .account (by decide)))
  storage key held hheld hkeeps := by
    rcases h.storage key held hheld with ⟨account, value, hstate, hslot⟩ | hfetched
    · rw [(hkeeps account hstate).1] at hslot
      cases hslot
    · exact hfetched.right (by decide) (hright .storage (by decide))

/-- **A recovery proves what it serves**: every entry of the snapshot is the value at its tip, and
none was read anywhere but at the block the chain starts from. -/
structure Recovers (L : Ledger) (s : Sys keccak256) (p : Publication) (new : Chain) : Prop where
  holds : Holds keccak256 p.round.snapshot.accounts p.round.snapshot.storage (L.state new.tip.hash)
  proven : s.Proven new p.round.snapshot.accounts p.round.snapshot.storage

/-- What completes is right if the answers agree with the tags. -/
theorem rightAt_of_run {fetch : FetchConfig} {tip : B256} {k : FetchKind} (hk : k ≠ .code)
    (h : Lts.Run (Step L) (fun s e ↦ s.Honest L e ∧ s.Pinned L e) (.new keccak256 fetch tip) s) :
    s.layer.RightAt L k := by
  induction h with
  | refl => exact FetchLayer.rightAt_new L fetch tip k
  | tail _ hlast ih =>
    obtain ⟨e, hs, hok⟩ := hlast
    exact rightAt_step hk ih hs fun _ _ _ ↦ hok.2

/-- The diff takes nothing away that is held or merged, and all of that was written by the diff or
fetched at the block the chain starts from. -/
structure RecoveryFits (s : Sys keccak256) (p : Publication) (new : Chain) : Prop where
  covers : new.bundle.Covers p.merged p.mergedStorage
  proven : s.Proven new p.merged p.mergedStorage

end Sys

/-- **When a recovery proves what it serves.**  In every run of an honest node whose answers agree
with the tags of the requests, whatever notifications are lost, a commit that a stale snapshot
accepts proves what it serves exactly when the recovery fits. -/
theorem recovers_iff {fetch : FetchConfig} {tip : B256} {s : Sys keccak256}
    (h : Lts.Run (Sys.Step L) (fun s e ↦ s.Honest L e ∧ s.Pinned L e) (.new keccak256 fetch tip) s)
    {p : Publication} (hp : s.Publishes p) {new : Chain}
    (hn : p.notification = .chainCommitted new) (hstale : p.current.stale = true) :
    p.round.snapshot.stale = false ∧ (s.Recovers L p new ↔ s.RecoveryFits p new) := by
  have hcommit : p.IsCommit new := ⟨hn, by rw [commitVerdict_eq_acceptAny.mpr (Or.inr hstale)]; rfl⟩
  have hnew : new.OnLedger keccak256 L := by
    have honledger := hp.told (Sys.told_of_run (h.mono fun _ _ hok ↦ hok.1))
    rwa [hn] at honledger
  have hproven : s.Proven new p.round.snapshot.accounts p.round.snapshot.storage ↔
      s.Proven new p.merged p.mergedStorage := by
    rw [hcommit.snapshot]
    exact Sys.proven_iff (fun a ↦ buildCommitState_accounts p.current p.caches _ _ _ a)
      fun key ↦ buildCommitState_storage p.current p.caches _ _ _ key
  refine ⟨by rw [hcommit.snapshot, buildCommitState_stale], fun hrecovers ↦ ?_, fun hfits ↦ ?_⟩
  · exact ⟨((hcommit.holds_iff hnew (Or.inl rfl)).mp hrecovers.holds).1,
      hproven.mp hrecovers.proven⟩
  · exact ⟨(hcommit.holds_iff hnew (Or.inl rfl)).mpr
      ⟨hfits.covers, hfits.proven.keptHold fun k hk ↦ Sys.rightAt_of_run hk h⟩,
      hproven.mpr hfits.proven⟩

end

/-! ## A skipped block that writes -/

namespace Branches

open scoped Revm

/-- The storage fetch tagged with the block `11` is answered while the node stands on it. -/
def pinned (s : Sys keccak) : Event keccak → Bool
  | .answer .storage i (.getStorageAt _ _ 1) false =>
    s.layer.tip = 11 &&
      ((s.layer.managers .storage).tasks[i]?).map (fun t ↦ t.request.blockHash) = some 11
  | .answer _ _ _ fails => fails
  | _ => true

theorem pinned_of_check {s : Sys keccak} {e : Event keccak} (h : pinned s e = true) :
    s.Pinned ledger e := by
  rw [pinned.eq_def] at h
  split at h
  · rename_i i address index
    rw [Bool.and_eq_true, decide_eq_true_eq, decide_eq_true_eq] at h
    intro t ht tag htag v hv
    rw [ht, Option.map_some, Option.some.injEq] at h
    cases htag
    rw [h.1] at hv
    rw [h.2]
    cases hv
    rfl
  · subst h
    trivial
  · rename_i hanswer
    cases e with
    | answer k i q fails => exact absurd rfl (hanswer k i q fails)
    | _ => trivial

/-- Nothing is held that a diff could take away. -/
def covered (p : Publication) : Bool :=
  p.merged.isEmpty && match p.notification with
    | .chainCommitted new => new.bundle.state.toList.all fun entry ↦ !entry.2.destroyed
    | _ => true

theorem covers_of_covered {p : Publication} (h : covered p = true) {new : Chain}
    (hn : p.notification = .chainCommitted new) :
    new.bundle.Covers p.merged p.mergedStorage := by
  rw [covered, hn, Bool.and_eq_true, ExtTreeMap.isEmpty_iff, List.all_eq_true] at h
  refine ⟨fun a held hheld _ ↦ ?_, fun key held _ ⟨account, haccount, _, hdestroyed⟩ ↦ ?_⟩
  · rw [h.1, ExtTreeMap.getElem?_empty] at hheld
    cases hheld
  · have hnot := h.2 (key.1, account) (ExtTreeMap.mem_toList_iff_getElem?_eq_some.mpr haccount)
    rw [hdestroyed] at hnot
    cases hnot

/-- The publication that is due. -/
def due (s : Sys keccak) : Option Publication :=
  s.job.bind fun job ↦ job.caches.map (s.publication job)

theorem publishes_of_due {s : Sys keccak} {p : Publication} (h : due s = some p) :
    s.Publishes p := by
  obtain ⟨job, hjob, h⟩ := Option.bind_eq_some_iff.mp h
  obtain ⟨caches, hcaches, rfl⟩ := Option.map_eq_some_iff.mp h
  exact ⟨job, caches, hjob, hcaches, rfl⟩

end Branches

namespace Skipped

open Branches

open scoped Revm

/-- The slot is read at the block `11` and carried to `12`; the block `13`, which writes it, is
lost, `14` leaves a gap, and the commit of `last` is about to be published. -/
def events (last : Chain) : List (Event keccak) :=
  .node (.chainCommitted a1) false :: round ++ readSlot ++ answerSlot 1 ++
    .node (.chainCommitted a2) false :: round ++
    .node (.chainCommitted a3) true :: .node (.chainCommitted a4) false :: round ++
    .node (.chainCommitted last) false :: round.dropLast

/-- The block `15` with the slot in its diff. -/
def written : Chain := chain (block 5 14 15) (write 6)

theorem onLedger_written : written.OnLedger keccak ledger :=
  onLedger (by decide) (by decide) (by decide) (carries_write _ _) (carries_write _ _)

theorem run_events {last : Chain} (hlast : last.OnLedger keccak ledger)
    (hparent : last.first.parentHash = 14) {s : Sys keccak}
    (h : Lts.replay (Sys.step ledger) pinned (events last) start = some s) :
    Lts.Run (Sys.Step ledger) (fun s e ↦ s.Honest ledger e ∧ s.Pinned ledger e) start s := by
  refine Sys.run_of_replay h ?_ fun s e hcheck hhonest ↦ ⟨hhonest, pinned_of_check hcheck⟩
  change Sys.History keccak ledger 10 [.chainCommitted a1, .chainCommitted a2, .chainCommitted a3,
    .chainCommitted a4, .chainCommitted last]
  exact ⟨⟨onLedger_a1, Or.inl rfl⟩, ⟨onLedger_a2, Or.inl rfl⟩, ⟨onLedger_a3, Or.inl rfl⟩,
    ⟨onLedger_a4, Or.inl rfl⟩, ⟨hlast, Or.inl hparent.symm⟩, trivial⟩

theorem isSome_replay :
    (Lts.replay (Sys.step ledger) pinned (events a5) start).isSome = true := by
  decide +kernel

/-- The commit of a block that does not write the slot is about to be published. -/
def final : Sys keccak := (Lts.replay (Sys.step ledger) pinned (events a5) start).get isSome_replay

theorem isSome_replay_written :
    (Lts.replay (Sys.step ledger) pinned (events written) start).isSome = true := by
  decide +kernel

/-- The commit of a block that writes it is. -/
def finalWritten : Sys keccak :=
  (Lts.replay (Sys.step ledger) pinned (events written) start).get isSome_replay_written

theorem run : Lts.Run (Sys.Step ledger) (fun s e ↦ s.Honest ledger e ∧ s.Pinned ledger e) start
    final :=
  run_events onLedger_a5 rfl (Option.some_get isSome_replay).symm

theorem run_written : Lts.Run (Sys.Step ledger) (fun s e ↦ s.Honest ledger e ∧ s.Pinned ledger e)
    start finalWritten :=
  run_events onLedger_written rfl (Option.some_get isSome_replay_written).symm

theorem isSome_due : (due final).isSome = true := by decide +kernel

/-- The commit that ends the stale episode. -/
def recovery : Publication := (due final).get isSome_due

theorem isSome_due_written : (due finalWritten).isSome = true := by decide +kernel

def recoveryWritten : Publication := (due finalWritten).get isSome_due_written

theorem publishes : final.Publishes recovery := publishes_of_due (Option.some_get isSome_due).symm

theorem publishes_written : finalWritten.Publishes recoveryWritten :=
  publishes_of_due (Option.some_get isSome_due_written).symm

/-- The one entry that is held is rewritten. -/
theorem fits_written : finalWritten.RecoveryFits recoveryWritten written where
  covers := covers_of_covered (by decide +kernel) rfl
  proven := by
    refine ⟨fun a held hheld ↦ ?_, fun key held hheld ↦ Or.inl ?_⟩
    · have hempty : recoveryWritten.merged.isEmpty = true := by decide +kernel
      rw [ExtTreeMap.isEmpty_iff.mp hempty, ExtTreeMap.getElem?_empty] at hheld
      cases hheld
    · have hkeys : (recoveryWritten.mergedStorage.toList.all fun entry ↦
          entry.1 == ((7, 0) : SlotKey)) = true := by decide +kernel
      rw [List.all_eq_true] at hkeys
      have hkey := hkeys (key, held) (ExtTreeMap.mem_toList_iff_getElem?_eq_some.mpr hheld)
      rw [beq_iff_eq] at hkey
      subst hkey
      exact ⟨_, ⟨6⟩, write_state 6 7, ExtTreeMap.getElem?_insert_self⟩

end Skipped

open scoped Revm in
open Skipped Branches in
/-- The rule at the commit after a skipped block, which does not write what is held, and at one that
does. -/
theorem recovers_iff_skipped :
    (recovery.round.snapshot.stale = false ∧
        (final.Recovers ledger recovery a5 ↔ final.RecoveryFits recovery a5)) ∧
      recoveryWritten.mergedStorage[((7, 0) : SlotKey)]? = some 5 ∧
      finalWritten.Recovers ledger recoveryWritten written :=
  ⟨recovers_iff run publishes rfl (by decide +kernel), by decide +kernel,
    (recovers_iff run_written publishes_written rfl (by decide +kernel)).2.mpr fits_written⟩

open scoped Revm in
open Skipped Branches in
/-- **A value from before the gap survives.**  The slot was fetched at the block `11` and the
skipped block wrote `6` to it; the snapshot that is published is not stale, stands on the block `15`
and holds `5`. -/
theorem not_recovers_skipped :
    Lts.Run (Sys.Step ledger) (fun s e ↦ s.Honest ledger e ∧ s.Pinned ledger e)
        (.new keccak {} 10) final ∧
      final.Publishes recovery ∧ recovery.notification = .chainCommitted a5 ∧
      recovery.current.stale = true ∧ commitVerdict recovery.current a5 = .acceptAny ∧
      recovery.round.snapshot.stale = false ∧ recovery.round.snapshot.blockHash = 15 ∧
      recovery.round.snapshot.storage[((7, 0) : SlotKey)]? = some 5 ∧
      (ledger.state 15).storage 7 0 = 6 ∧
      ¬ Holds keccak recovery.round.snapshot.accounts recovery.round.snapshot.storage
        (ledger.state a5.tip.hash) ∧
      ¬ final.Proven a5 recovery.round.snapshot.accounts recovery.round.snapshot.storage := by
  have hheld : recovery.round.snapshot.storage[((7, 0) : SlotKey)]? = some 5 := by decide +kernel
  refine ⟨run, publishes, rfl, by decide +kernel, by decide +kernel, by decide +kernel,
    by decide +kernel, hheld, rfl, fun h ↦ ?_, fun h ↦ ?_⟩
  · exact absurd (h.storage (7, 0) 5 hheld) (by decide)
  · -- the block does not write the slot, and the only fetch of it was at the block `11`
    rcases h.storage (7, 0) 5 hheld with ⟨account, value, hstate, -⟩ | hfetched
    · rw [show a5.bundle.state = ∅ from rfl, ExtTreeMap.getElem?_empty] at hstate
      cases hstate
    · obtain ⟨d, hd, htag, -⟩ := hfetched
      have htags : ((final.layer.managers .storage).processed.all fun d ↦
          d.request.blockHash == 11) = true := by decide +kernel
      rw [List.all_eq_true] at htags
      have hlate := htags d hd
      rw [beq_iff_eq] at hlate
      rw [show (spec keccak .storage).tag d.request = some d.request.blockHash from rfl, hlate]
        at htag
      exact absurd htag (by decide)

end RexSim
