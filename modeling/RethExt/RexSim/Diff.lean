import RethExt.RexSim.Ledger

/-!
# What a diff does to what is held

`applyExecutionChanges` writes what a diff lists over what is held.  It carries held entries from
the state before the chain to the state after it, except where the diff says that something is
gone: the extraction drops the status of an account, so the storage of a destroyed one stays, and
the application skips an account without info, so one that no longer exists stays too.

`BundleState.Covers` is the exact condition under which nothing of the kind is held, and
`applyExecutionChanges_holds_iff` says that then, and only then, the entries are right afterwards.
-/

set_option autoImplicit false

open Std

namespace RexSim

namespace BundleState

variable [Revm] (bundle : BundleState)

/-- The diff leaves the account as it was. -/
def KeepsAccount (a : Address) : Prop := bundle.state[a]? = none

/-- The diff says that the account is gone. -/
def TakesAccount (a : Address) : Prop :=
  ∃ account, bundle.state[a]? = some account ∧ account.info = none

/-- The diff leaves the slot as it was. -/
def KeepsSlot (key : SlotKey) : Prop :=
  ∀ account, bundle.state[key.1]? = some account →
    account.storage[key.2]? = none ∧ account.destroyed = false

/-- The diff says that the slot went with its account. -/
def TakesSlot (key : SlotKey) : Prop :=
  ∃ account, bundle.state[key.1]? = some account ∧ account.storage[key.2]? = none ∧
    account.destroyed = true

/-- What the diff takes away is not held: nothing but the empty info of an account, nothing but
zero in a slot. -/
structure Covers (accounts : HashMap Address AccountInfo) (storage : HashMap SlotKey U256) :
    Prop where
  accounts : ∀ a held, accounts[a]? = some held → bundle.TakesAccount a → held = .empty
  storage : ∀ key held, storage[key]? = some held → bundle.TakesSlot key → held = 0

/-- What is held of what the diff leaves alone is the value in the state `σ`. -/
structure KeptHold (keccak256 : Bytes → B256) (accounts : HashMap Address AccountInfo)
    (storage : HashMap SlotKey U256) (σ : WorldState) : Prop where
  accounts : ∀ a held, accounts[a]? = some held → bundle.KeepsAccount a →
    held = σ.info keccak256 a
  storage : ∀ (key : SlotKey) held, storage[key]? = some held → bundle.KeepsSlot key →
    held = σ.storage key.1 key.2

end BundleState

section Carries

variable [Revm] {keccak256 : Bytes → B256} {c : Chain} {σ τ : WorldState}

/-- **One account.**  The diff leaves the right info exactly when it rewrites the account, or the
account stays and what is held is right, or the account is gone and nothing is held of it. -/
theorem BundleState.Carries.newInfo_eq_iff (h : c.bundle.Carries keccak256 σ τ) (a : Address)
    (held : AccountInfo) :
    (extractExecutionChanges c).newInfo a held = τ.info keccak256 a ↔
      (c.bundle.TakesAccount a → held = .empty) ∧
        (c.bundle.KeepsAccount a → held = σ.info keccak256 a) := by
  rw [extractExecutionChanges_newInfo, KeepsAccount, TakesAccount]
  cases hstate : c.bundle.state[a]? with
  | none =>
    have hτ : τ.info keccak256 a = σ.info keccak256 a := by
      rw [WorldState.info, h.account_unlisted a hstate, WorldState.info]
    simp [hτ]
  | some account =>
    cases hinfo : account.info with
    | none =>
      have hτ : τ.info keccak256 a = .empty := by
        rw [WorldState.info, h.account_none a account hstate hinfo, Option.map_none,
          Option.getD_none]
      simp [hτ, hinfo]
    | some info => simp [h.account_some a account info hstate hinfo, hinfo]

/-- **One slot.**  The diff leaves the right value exactly when it rewrites the slot, or the slot
stays and what is held is right, or the slot went with its account and zero is held. -/
theorem BundleState.Carries.newSlot_eq_iff (h : c.bundle.Carries keccak256 σ τ) (key : SlotKey)
    (held : U256) :
    (extractExecutionChanges c).newSlot key held = τ.storage key.1 key.2 ↔
      (c.bundle.TakesSlot key → held = 0) ∧
        (c.bundle.KeepsSlot key → held = σ.storage key.1 key.2) := by
  rw [extractExecutionChanges_newSlot, KeepsSlot, TakesSlot]
  cases hstate : c.bundle.state[key.1]? with
  | none => simp [h.slot_unlisted key.1 key.2 hstate]
  | some account =>
    simp only [Option.some.injEq, exists_eq_left', forall_eq', Option.bind_some]
    cases hslot : account.storage[key.2]? with
    | some value => simp [h.slot_some key.1 key.2 account value hstate hslot]
    | none =>
      rw [h.slot_none key.1 key.2 account hstate hslot]
      cases account.destroyed <;> simp

variable {accounts accounts' : HashMap Address AccountInfo}
  {storage storage' : HashMap SlotKey U256}

/-- **Entries under a diff.**  After the diff the entries are right exactly when the diff covers
them and those it leaves alone were right. -/
theorem BundleState.Carries.holds_iff (h : c.bundle.Carries keccak256 σ τ)
    (haccounts : ∀ a, accounts'[a]? = (accounts[a]?).map ((extractExecutionChanges c).newInfo a))
    (hstorage : ∀ key : SlotKey,
      storage'[key]? = (storage[key]?).map ((extractExecutionChanges c).newSlot key)) :
    Holds keccak256 accounts' storage' τ ↔
      c.bundle.Covers accounts storage ∧ c.bundle.KeptHold keccak256 accounts storage σ := by
  constructor
  · intro hold
    have ha : ∀ a held, accounts[a]? = some held → _ := fun a held hheld ↦
      (h.newInfo_eq_iff a held).mp (hold.accounts a _ (by rw [haccounts, hheld]; rfl))
    have hs : ∀ (key : SlotKey) held, storage[key]? = some held → _ := fun key held hheld ↦
      (h.newSlot_eq_iff key held).mp (hold.storage key _ (by rw [hstorage, hheld]; rfl))
    exact ⟨⟨fun a held hheld ↦ (ha a held hheld).1, fun key held hheld ↦ (hs key held hheld).1⟩,
      ⟨fun a held hheld ↦ (ha a held hheld).2, fun key held hheld ↦ (hs key held hheld).2⟩⟩
  · rintro ⟨hcov, hkept⟩
    refine ⟨fun a new hnew ↦ ?_, fun key new hnew ↦ ?_⟩
    · rw [haccounts, Option.map_eq_some_iff] at hnew
      obtain ⟨held, hheld, rfl⟩ := hnew
      exact (h.newInfo_eq_iff a held).mpr
        ⟨hcov.accounts a held hheld, hkept.accounts a held hheld⟩
    · rw [hstorage, Option.map_eq_some_iff] at hnew
      obtain ⟨held, hheld, rfl⟩ := hnew
      exact (h.newSlot_eq_iff key held).mpr
        ⟨hcov.storage key held hheld, hkept.storage key held hheld⟩

/-- Entries that are right before the chain are right where the diff leaves them alone. -/
theorem Holds.keptHold {bundle : BundleState} (h : Holds keccak256 accounts storage σ) :
    bundle.KeptHold keccak256 accounts storage σ :=
  ⟨fun a held hheld _ ↦ h.accounts a held hheld, fun key held hheld _ ↦ h.storage key held hheld⟩

/-- **What `applyExecutionChanges` carries.**  Entries that are right before the chain are right
after it exactly when the diff covers them. -/
theorem applyExecutionChanges_holds_iff {s : StateSnapshot} (h : c.bundle.Carries keccak256 σ τ)
    (hs : Holds keccak256 s.accounts s.storage σ) :
    Holds keccak256 (applyExecutionChanges s (extractExecutionChanges c)).accounts
        (applyExecutionChanges s (extractExecutionChanges c)).storage τ ↔
      c.bundle.Covers s.accounts s.storage := by
  rw [h.holds_iff (applyExecutionChanges_accounts s _) (applyExecutionChanges_storage s _)]
  exact and_iff_left hs.keptHold

end Carries

/-! ## An account that is destroyed -/

namespace Destroyed

open scoped Revm

/-- The account `7` with a balance and a slot. -/
def before : WorldState where
  account a := if a = 7 then some ⟨5, 0, []⟩ else none
  storage a slot := if a = 7 ∧ slot = 0 then 9 else 0

/-- No account at all. -/
def after : WorldState where
  account _ := none
  storage _ _ := 0

/-- The account `7` created again. -/
def again : WorldState where
  account a := if a = 7 then some ⟨4, 1, []⟩ else none
  storage a slot := if a = 7 ∧ slot = 0 then 3 else 0

/-- The account is gone. -/
def gone : BundleAccount := { destroyed := true }

/-- The account is gone and was created again. -/
def recreated : BundleAccount where
  info := some ⟨4, 1, keccakEmpty⟩
  storage := (∅ : HashMap U256 StorageSlot).insert 0 ⟨3⟩
  destroyed := true

/-- A block that does that to the account `7`. -/
def chain (account : BundleAccount) : Chain where
  blocks := [{ header := ⟨1, 10, 11, []⟩ }]
  bundle := { state := (∅ : HashMap Address BundleAccount).insert 7 account }
  nonempty := List.cons_ne_nil _ _
  linked := .singleton _

/-- A snapshot that holds the account and its slot. -/
def held : StateSnapshot where
  block := 0
  blockHash := 10
  accounts := (∅ : HashMap Address AccountInfo).insert 7 ⟨5, 0, keccakEmpty⟩
  storage := (∅ : HashMap SlotKey U256).insert (7, 0) 9

theorem bundle_state (account : BundleAccount) (a : Address) :
    (chain account).bundle.state[a]? = if 7 = a then some account else none := by
  simp only [chain, ExtTreeMap.getElem?_insert, LawfulEqCmp.compare_eq_iff_eq,
    ExtTreeMap.getElem?_empty]

/-- The diff of one account, from what becomes of that account and of its slots. -/
theorem carries_chain {keccak256 : Bytes → B256} {account : BundleAccount} {τ : WorldState}
    (hother : ∀ a, 7 ≠ a → τ.account a = none) (hslots : ∀ a slot, 7 ≠ a → τ.storage a slot = 0)
    (hsome : ∀ info, account.info = some info → τ.info keccak256 7 = info)
    (hnone : account.info = none → τ.account 7 = none)
    (hslot : ∀ slot value, account.storage[slot]? = some value →
      τ.storage 7 slot = value.presentValue)
    (hrest : ∀ slot, account.storage[slot]? = none →
      τ.storage 7 slot = if account.destroyed then 0 else before.storage 7 slot) :
    (chain account).bundle.Carries keccak256 before τ where
  account_unlisted a h := by
    rw [bundle_state] at h
    split at h
    · cases h
    · rename_i hne
      rw [hother a hne]
      exact (if_neg (Ne.symm hne)).symm
  account_some a account info h hinfo := by
    rw [bundle_state] at h
    split at h <;> cases h
    subst_vars
    exact hsome info hinfo
  account_none a account h hinfo := by
    rw [bundle_state] at h
    split at h <;> cases h
    subst_vars
    exact hnone hinfo
  slot_unlisted a slot h := by
    rw [bundle_state] at h
    split at h
    · cases h
    · rename_i hne
      rw [hslots a slot hne]
      exact (if_neg fun h7 ↦ hne h7.1.symm).symm
  slot_some a slot account value h hvalue := by
    rw [bundle_state] at h
    split at h <;> cases h
    subst_vars
    exact hslot slot value hvalue
  slot_none a slot account h hnone := by
    rw [bundle_state] at h
    split at h <;> cases h
    subst_vars
    exact hrest slot hnone

theorem carries_gone (keccak256 : Bytes → B256) :
    (chain gone).bundle.Carries keccak256 before after :=
  carries_chain (fun _ _ ↦ rfl) (fun _ _ _ ↦ rfl) (fun _ h ↦ by cases h) (fun _ ↦ rfl)
    (fun _ _ h ↦ absurd h getElem?_empty_ne) fun _ _ ↦ rfl

theorem recreated_storage (slot : U256) :
    recreated.storage[slot]? = if 0 = slot then some ⟨3⟩ else none := by
  simp only [recreated, ExtTreeMap.getElem?_insert, LawfulEqCmp.compare_eq_iff_eq,
    ExtTreeMap.getElem?_empty]

theorem carries_recreated (keccak256 : Bytes → B256) :
    (chain recreated).bundle.Carries keccak256 before again := by
  refine carries_chain (fun a h ↦ if_neg h.symm) (fun a slot h ↦ if_neg fun h7 ↦ h h7.1.symm)
    (fun _ h ↦ by cases h; rfl) (fun h ↦ by cases h) (fun slot value h ↦ ?_) fun slot h ↦ ?_
  · rw [recreated_storage] at h
    split at h <;> cases h
    exact if_pos ⟨rfl, Eq.symm ‹_›⟩
  · rw [recreated_storage] at h
    split at h
    · cases h
    · exact if_neg fun h0 ↦ absurd h0.2.symm ‹_›

theorem holds (keccak256 : Bytes → B256) : Holds keccak256 held.accounts held.storage before where
  accounts a info h := by
    simp only [held, ExtTreeMap.getElem?_insert, LawfulEqCmp.compare_eq_iff_eq,
      ExtTreeMap.getElem?_empty] at h
    split at h
    · subst_vars; cases h; rfl
    · cases h
  storage key value h := by
    simp only [held, ExtTreeMap.getElem?_insert, LawfulEqCmp.compare_eq_iff_eq,
      ExtTreeMap.getElem?_empty] at h
    split at h
    · subst_vars; cases h; rfl
    · cases h

/-- What is held is covered by a diff that writes the account and the slot. -/
theorem covers_recreated :
    (chain recreated).bundle.Covers held.accounts held.storage where
  accounts a _ _ h := by
    obtain ⟨account, haccount, hinfo⟩ := h
    rw [bundle_state] at haccount
    split at haccount <;> cases haccount
    cases hinfo
  storage key value hheld h := by
    obtain ⟨account, haccount, hslot, -⟩ := h
    rw [bundle_state] at haccount
    split at haccount <;> cases haccount
    simp only [held, ExtTreeMap.getElem?_insert, LawfulEqCmp.compare_eq_iff_eq,
      ExtTreeMap.getElem?_empty] at hheld
    split at hheld
    · subst_vars
      rw [recreated_storage] at hslot
      cases hslot
    · cases hheld

end Destroyed

open scoped Revm in
open Destroyed in
/-- The rule at an account that is destroyed, where both sides fail, and at one that is created
again, where both hold. -/
theorem applyExecutionChanges_holds_iff_destroyed :
    (Holds (fun _ ↦ 0) (applyExecutionChanges held (extractExecutionChanges (chain gone))).accounts
          (applyExecutionChanges held (extractExecutionChanges (chain gone))).storage after ↔
        (chain gone).bundle.Covers held.accounts held.storage) ∧
      Holds (fun _ ↦ 0)
        (applyExecutionChanges held (extractExecutionChanges (chain recreated))).accounts
        (applyExecutionChanges held (extractExecutionChanges (chain recreated))).storage again :=
  ⟨applyExecutionChanges_holds_iff (carries_gone _) (holds _),
    (applyExecutionChanges_holds_iff (carries_recreated _) (holds _)).mpr covers_recreated⟩

open scoped Revm in
open Destroyed in
/-- **A destroyed account stays.**  What is held is right before the chain that destroys the
account, and afterwards the account is still held with its balance, and its slot with its value. -/
theorem not_applyExecutionChanges_holds :
    (chain gone).bundle.Carries (fun _ ↦ 0) before after ∧
      Holds (fun _ ↦ 0) held.accounts held.storage before ∧
      ¬ Holds (fun _ ↦ 0)
        (applyExecutionChanges held (extractExecutionChanges (chain gone))).accounts
        (applyExecutionChanges held (extractExecutionChanges (chain gone))).storage after := by
  refine ⟨carries_gone _, holds _, fun h ↦ ?_⟩
  have hslot : (applyExecutionChanges held
      (extractExecutionChanges (chain gone))).storage[((7, 0) : SlotKey)]? = some 9 := by
    decide +kernel
  exact absurd (h.storage (7, 0) 9 hslot) (by decide)

end RexSim
