import RethExt.RexSim.Ancestry
import RethExt.RexSim.History
import RethExt.RexSim.System

/-!
# What an update lists as changed

Every notification that is applied leaves an entry in the changed-accounts history, under the number
of its tip, and a consumer that is told of the update reads it to know what to look at again.

The entry lists what the diff of the new chain lists.  A commit starts from the current block, so
that is everything that has changed since.  A reorg starts from the block the two branches have in
common, so the entry misses what only the replaced branch has changed: `updateCovers_of_run` says
exactly when that is nothing.
-/

set_option autoImplicit false

open Std Window

namespace RexSim

section

variable [Revm]

variable {keccak256 : Bytes → B256} {L : Ledger}

/-! ## Entries and lookups -/

/-- The diff of the chain lists the address. -/
abbrev Chain.Lists (c : Chain) (a : Address) : Prop := (c.bundle.state[a]?).isSome = true

/-- What a chain is recorded by is what its diff lists. -/
theorem Chain.mem_changedEntry {c : Chain} {a : Address} :
    a ∈ c.changedEntry.accounts ↔ c.Lists a := by
  rw [Chain.changedEntry, ExecutionChanges.changedAddresses, ExtTreeMap.mem_keys,
    ← ExtTreeMap.isSome_getElem?_iff_mem, extractExecutionChanges, ExtTreeMap.getElem?_map,
    Option.isSome_map]

namespace StateSnapshot

variable {s : StateSnapshot}

/-- The accounts listed for the block of the snapshot, which is what a consumer looks up. -/
def listed (s : StateSnapshot) : List Address := (s.changedAccounts s.block).getD []

/-- The entry that was pushed last is the one that is found, if all that was kept lies below it. -/
theorem listed_of_push {kept : List BlockChangedAccounts} {entry : BlockChangedAccounts}
    (hhist : s.changedAccountsHistory = Window.push receiptsHistoryDepth kept entry)
    (hblock : s.block = entry.block) (hkept : ∀ e ∈ kept, e.block < entry.block) :
    s.listed = entry.accounts := by
  have hnone : (evict receiptsHistoryDepth kept).find? (fun e ↦ e.block == entry.block) =
      none := by
    rw [List.find?_eq_none]
    intro e he
    rw [evict_eq_rtake depth_pos] at he
    simpa using (hkept e ((rtake_suffix _ _).subset he)).ne
  rw [listed, changedAccounts, hhist, hblock, Window.push, List.find?_append, hnone]
  simp

end StateSnapshot

/-! ## The snapshots of a run -/

/-- The chain a notification puts on top, and what it keeps of the changed-accounts history. -/
structure StateSnapshot.Adopts (s' : StateSnapshot) (c : Chain)
    (kept : List BlockChangedAccounts) : Prop where
  block : s'.block = c.tip.number
  blockHash : s'.blockHash = c.tip.hash
  stale : s'.stale = false
  changed : s'.changedAccountsHistory = Window.push receiptsHistoryDepth kept c.changedEntry

theorem adopts_commit {s : StateSnapshot} (caches : Caches) {new : Chain}
    (h : (commitVerdict s new).isAcceptable = true) :
    (nextSnapshot s caches (.chainCommitted new)).Adopts new s.changedAccountsHistory := by
  rw [nextSnapshot_committed caches h]
  exact ⟨rfl, rfl, buildCommitState_stale .., buildCommitState_changedAccountsHistory ..⟩

theorem adopts_reorg {s : StateSnapshot} (caches : Caches) {old : Chain} (new : Chain)
    (h : (reorgVerdict s old).isAcceptable = true) :
    (nextSnapshot s caches (.chainReorged old new)).Adopts new
      (s.changedAccountsHistory.filter fun e ↦ e.block ≤ old.commonAncestor) := by
  rw [nextSnapshot_reorged caches h]
  exact ⟨rfl, rfl, buildReorgState_stale .., buildReorgState_changedAccountsHistory ..⟩

variable (keccak256 L) in
/-- The notification is a commit or a reorg on the ledger. -/
def HistoryState.Follows (_ : HistoryState) (d : Delivery) : Prop :=
  match d.notification with
  | .chainCommitted new => new.OnLedger keccak256 L
  | .chainReorged old new => old.OnLedger keccak256 L ∧ new.OnLedger keccak256 L ∧
      new.first.parentHash = old.first.parentHash
  | .chainReverted _ => False

variable (L) in
/-- The snapshot is at a block of the ledger, is not stale, and has no entry above its block. -/
structure StateSnapshot.Following (s : StateSnapshot) : Prop where
  onBlock : s.OnBlock L
  stale : s.stale = false
  changed_le : ∀ e ∈ s.changedAccountsHistory, e.block ≤ s.block

/-- A `Valid` commit does not go back. -/
theorem Chain.block_le_tip_of_valid {s : StateSnapshot} {new : Chain}
    (h : commitVerdict s new = .valid) : s.block ≤ new.tip.number := by
  obtain ⟨-, -, -, ⟨hnext, -⟩ | ⟨b, hb, hnumber, -⟩⟩ := commitVerdict_eq_valid h
  · have := new.first_number_le new.tip_mem
    omega
  · rw [← hnumber]
    exact new.le_tip_number hb

theorem StateSnapshot.Adopts.following {s' : StateSnapshot} {c : Chain}
    {kept : List BlockChangedAccounts} (h : s'.Adopts c kept) (hc : c.OnLedger keccak256 L)
    (hkept : ∀ e ∈ kept, e.block ≤ c.tip.number) : s'.Following L where
  onBlock := hc.onBlock h.block h.blockHash
  stale := h.stale
  changed_le e he := by
    rw [h.changed, push_eq_rtake depth_pos] at he
    rw [h.block]
    rcases List.mem_append.mp ((rtake_suffix _ _).subset he) with he | he
    · exact hkept e he
    · rw [List.mem_singleton.mp he]
      exact le_rfl

namespace HistoryState

variable {s s' : HistoryState} {d : Delivery}

/-- **The step lemma**: from a snapshot in the run, or from the initial one. -/
theorem following_step (h : s.snapshot = {} ∨ s.snapshot.Following L) (hs : Step d s s')
    (hd : s.Follows keccak256 L d) : s'.snapshot.Following L := by
  obtain ⟨n, caches⟩ := d
  obtain ⟨hacc, rfl⟩ := hs
  cases n with
  | chainCommitted new =>
    refine (adopts_commit caches hacc).following hd fun e he ↦ ?_
    rcases h with hinit | h
    · rw [hinit] at he
      exact absurd he List.not_mem_nil
    · exact (h.changed_le e he).trans
        (Chain.block_le_tip_of_valid (h.onBlock.commit_valid h.stale hacc))
  | chainReorged old new =>
    obtain ⟨hold, hnew, hparent⟩ := hd
    refine (adopts_reorg caches new hacc).following hnew fun e he ↦ ?_
    have hcut := hold.lt_first_of_le (of_decide_eq_true (List.mem_filter.mp he).2)
    rw [← hold.first_number_eq hnew hparent] at hcut
    exact hcut.le.trans (new.first_number_le new.tip_mem)
  | chainReverted old => exact hd.elim

/-- The snapshots from the first notification on. -/
theorem following_of_run {s₀ : HistoryState} {d₀ : Delivery} (h₀ : Step d₀ {} s₀)
    (hd₀ : HistoryState.Follows keccak256 L {} d₀)
    (h : Lts.Run Step (HistoryState.Follows keccak256 L) s₀ s) : s.snapshot.Following L := by
  induction h with
  | refl => exact following_step (.inl rfl) h₀ hd₀
  | tail _ hlast ih =>
    obtain ⟨d, hs, hd⟩ := hlast
    exact following_step (.inr ih) hs hd

end HistoryState

/-! ## What has changed -/

variable (keccak256) in
/-- What is to be seen of an account in a state: its info and its slots. -/
def WorldState.view (σ : WorldState) (a : Address) : AccountInfo × (U256 → U256) :=
  (σ.info keccak256 a, σ.storage a)

/-- A diff that takes `σ` to `τ` leaves the accounts alone that it does not list. -/
theorem BundleState.Carries.view_eq {bundle : BundleState} {σ τ : WorldState}
    (h : bundle.Carries keccak256 σ τ) {a : Address} (ha : bundle.state[a]? = none) :
    τ.view keccak256 a = σ.view keccak256 a := by
  have hinfo : τ.info keccak256 a = σ.info keccak256 a := by
    rw [WorldState.info, WorldState.info, h.account_unlisted a ha]
  rw [WorldState.view, WorldState.view, hinfo, funext fun slot ↦ h.slot_unlisted a slot ha]

variable (keccak256 L) in
/-- Every account that differs between the blocks of two snapshots is listed by the second. -/
def Covered (s s' : StateSnapshot) : Prop :=
  ∀ a, (L.state s.blockHash).view keccak256 a ≠ (L.state s'.blockHash).view keccak256 a →
    a ∈ s'.listed

/-- What a consumer holds of every account. -/
abbrev Mirror := Address → AccountInfo × (U256 → U256)

variable (keccak256 L) in
/-- The mirror shows the state after the block of the snapshot. -/
def Mirror.Shows (m : Mirror) (s : StateSnapshot) : Prop :=
  ∀ a, m a = (L.state s.blockHash).view keccak256 a

variable (keccak256 L) in
/-- The consumer looks again at the accounts that are listed. -/
def Mirror.refresh (m : Mirror) (s' : StateSnapshot) : Mirror := fun a ↦
  if a ∈ s'.listed then (L.state s'.blockHash).view keccak256 a else m a

/-- **A consumer is right after an update** exactly when the update lists all that has changed. -/
theorem Mirror.shows_refresh_iff {m : Mirror} {s s' : StateSnapshot} (h : m.Shows keccak256 L s) :
    (m.refresh keccak256 L s').Shows keccak256 L s' ↔ Covered keccak256 L s s' := by
  refine forall_congr' fun a ↦ ?_
  rw [refresh]
  split
  · rename_i ha
    simp [ha]
  · rename_i ha
    rw [h a]
    simp [ha]

variable (keccak256 L) in
/-- **What an update lists.**  A commit lists all that has changed.  A reorg lists all that differs
between the block the branches have in common and the new tip; so it lists all that has changed
exactly when the new chain's diff lists what the replaced blocks had changed. -/
def UpdateCovers (s s' : StateSnapshot) : ExExNotification → Prop
  | .chainCommitted _ => Covered keccak256 L s s'
  | .chainReorged old new =>
    (∀ a, (L.state old.first.parentHash).view keccak256 a ≠
        (L.state s'.blockHash).view keccak256 a → a ∈ s'.listed) ∧
      (Covered keccak256 L s s' ↔
        ∀ a, (L.state s.blockHash).view keccak256 a ≠
          (L.state old.first.parentHash).view keccak256 a →
            new.Lists a)
  | .chainReverted _ => True

section update

variable {s : StateSnapshot} (caches : Caches)

/-- A commit lists all that has changed. -/
theorem StateSnapshot.Following.covered_commit (h : s.Following L) {new : Chain}
    (hnew : new.OnLedger keccak256 L) (hacc : (commitVerdict s new).isAcceptable = true) :
    Covered keccak256 L s (nextSnapshot s caches (.chainCommitted new)) := by
  have hvalid := h.onBlock.commit_valid h.stale hacc
  have hadopts := adopts_commit caches hacc
  intro a ha
  rw [hadopts.blockHash] at ha
  rcases (Chain.block_le_tip_of_valid hvalid).lt_or_eq with hlt | heq
  · rw [listed_of_push hadopts.changed hadopts.block
      fun e he ↦ (h.changed_le e he).trans_lt hlt, Chain.mem_changedEntry]
    by_contra hnone
    have hcarries := hnew.carries _ (Chain.isBase_of_valid hvalid).starts
    exact ha (hcarries.view_eq (Option.not_isSome_iff_eq_none.mp hnone)).symm
  · -- the chain ends at the current block: nothing has changed
    obtain ⟨-, -, -, ⟨hnext, -⟩ | ⟨b, hb, hnumber, hhash⟩⟩ := commitVerdict_eq_valid hvalid
    · have := new.first_number_le new.tip_mem
      omega
    · rw [← hhash, Chain.eq_of_number_eq hb new.tip_mem (hnumber.trans heq)] at ha
      exact absurd rfl ha

/-- A reorg lists what its new chain lists. -/
theorem mem_listed_reorg {old new : Chain} (hold : old.OnLedger keccak256 L)
    (hnew : new.OnLedger keccak256 L) (hparent : new.first.parentHash = old.first.parentHash)
    (hacc : (reorgVerdict s old).isAcceptable = true) {a : Address} :
    a ∈ (nextSnapshot s caches (.chainReorged old new)).listed ↔ new.Lists a := by
  have hadopts := adopts_reorg caches new hacc
  rw [StateSnapshot.listed_of_push hadopts.changed hadopts.block fun e he ↦ ?_,
    Chain.mem_changedEntry]
  have hcut := hold.lt_first_of_le (of_decide_eq_true (List.mem_filter.mp he).2)
  rw [← hold.first_number_eq hnew hparent] at hcut
  exact hcut.trans_le (new.first_number_le new.tip_mem)

/-- **What a reorg lists**: an account the new chain does not list is at the new tip as it was at
the block the branches have in common. -/
theorem updateCovers_reorg {old new : Chain} (hold : old.OnLedger keccak256 L)
    (hnew : new.OnLedger keccak256 L) (hparent : new.first.parentHash = old.first.parentHash)
    (hacc : (reorgVerdict s old).isAcceptable = true) :
    UpdateCovers keccak256 L s (nextSnapshot s caches (.chainReorged old new))
      (.chainReorged old new) := by
  have hcarries := hnew.carries _ (.inl hparent.symm)
  have hsame : ∀ a, ¬ new.Lists a → (L.state new.tip.hash).view keccak256 a =
      (L.state old.first.parentHash).view keccak256 a :=
    fun a ha ↦ hcarries.view_eq (Option.not_isSome_iff_eq_none.mp ha)
  have hhash := (adopts_reorg caches new hacc).blockHash
  simp only [UpdateCovers, Covered, mem_listed_reorg caches hold hnew hparent hacc, hhash]
  refine ⟨fun a ha ↦ ?_, forall_congr' fun a ↦ ?_⟩
  · by_contra hnone
    exact ha (hsame a hnone).symm
  · by_cases hlists : new.Lists a
    · exact iff_of_true (fun _ ↦ hlists) fun _ ↦ hlists
    · rw [hsame a hlists]

end update

/-- **What an update lists**, and what it does for a consumer, in every run of commits and reorgs on
a ledger. -/
theorem updateCovers_of_run {s₀ s s' : HistoryState} {d₀ d : Delivery}
    (h₀ : HistoryState.Step d₀ {} s₀) (hd₀ : HistoryState.Follows keccak256 L {} d₀)
    (h : Lts.Run HistoryState.Step (HistoryState.Follows keccak256 L) s₀ s)
    (hs : HistoryState.Step d s s') (hd : s.Follows keccak256 L d) :
    UpdateCovers keccak256 L s.snapshot s'.snapshot d.notification ∧
      ∀ m : Mirror, m.Shows keccak256 L s.snapshot →
        ((m.refresh keccak256 L s'.snapshot).Shows keccak256 L s'.snapshot ↔
          Covered keccak256 L s.snapshot s'.snapshot) := by
  refine ⟨?_, fun m hm ↦ Mirror.shows_refresh_iff hm⟩
  have hfollowing := HistoryState.following_of_run h₀ hd₀ h
  obtain ⟨n, caches⟩ := d
  obtain ⟨hacc, rfl⟩ := hs
  cases n with
  | chainCommitted new => exact hfollowing.covered_commit caches hd hacc
  | chainReorged old new =>
    exact updateCovers_reorg caches hd.1 hd.2.1 hd.2.2 hacc
  | chainReverted old => trivial

end

namespace Replaced

open Branches

open scoped Revm

/-- The state after a notification. -/
def after (s : HistoryState) (n : ExExNotification) : HistoryState :=
  ⟨nextSnapshot s.snapshot {} n, n.applied s.applied⟩

/-- The block `11` is committed. -/
def first : HistoryState := after {} (.chainCommitted a1)

/-- The block `21`, which writes to the slot, is committed. -/
def other : HistoryState := after {} (.chainCommitted b1)

theorem step_first : HistoryState.Step ⟨.chainCommitted a1, {}⟩ {} first := ⟨by decide +kernel, rfl⟩

theorem step_other : HistoryState.Step ⟨.chainCommitted b1, {}⟩ {} other := ⟨by decide +kernel, rfl⟩

/-- The branches change places. -/
theorem step_there : HistoryState.Step ⟨.chainReorged a1 b1, {}⟩ first
    (after first (.chainReorged a1 b1)) := ⟨by decide +kernel, rfl⟩

theorem step_back : HistoryState.Step ⟨.chainReorged b1 a1, {}⟩ other
    (after other (.chainReorged b1 a1)) := ⟨by decide +kernel, rfl⟩

end Replaced

open scoped Revm in
open Replaced Branches in
/-- The block `21` takes the place of the block `11`: it lists the account it writes to. -/
theorem updateCovers_of_run_there :
    UpdateCovers keccak ledger first.snapshot (after first (.chainReorged a1 b1)).snapshot
        (.chainReorged a1 b1) ∧
      ∀ m : Mirror, m.Shows keccak ledger first.snapshot →
        ((m.refresh keccak ledger (after first (.chainReorged a1 b1)).snapshot).Shows keccak ledger
            (after first (.chainReorged a1 b1)).snapshot ↔
          Covered keccak ledger first.snapshot (after first (.chainReorged a1 b1)).snapshot) :=
  updateCovers_of_run step_first onLedger_a1 .refl step_there ⟨onLedger_a1, onLedger_b1, rfl⟩

open scoped Revm in
open Replaced Branches in
/-- **A replaced write is not listed.**  The block `21` writes to the slot of the account `7`, and
the block `11`, which takes its place, lists nothing. -/
theorem not_covered_back :
    ¬ ∀ (s₀ s s' : HistoryState) (d₀ d : Delivery), HistoryState.Step d₀ {} s₀ →
      HistoryState.Follows keccak ledger {} d₀ →
      Lts.Run HistoryState.Step (HistoryState.Follows keccak ledger) s₀ s →
      HistoryState.Step d s s' → s.Follows keccak ledger d →
      Covered keccak ledger s.snapshot s'.snapshot := by
  intro h
  have hcovered := h other other _ _ _ step_other onLedger_b1 .refl step_back
    ⟨onLedger_b1, onLedger_a1, rfl⟩
  have hlisted : (after other (.chainReorged b1 a1)).snapshot.listed = [] := by decide +kernel
  have hmem := hcovered 7 fun heq ↦ by
    have hslot : ((ledger.state other.snapshot.blockHash).view keccak 7).2 0 =
        ((ledger.state (after other (.chainReorged b1 a1)).snapshot.blockHash).view keccak 7).2 0 :=
      congrArg (fun v ↦ v.2 0) heq
    exact absurd hslot (by decide +kernel)
  rw [hlisted] at hmem
  exact absurd hmem List.not_mem_nil

end RexSim
