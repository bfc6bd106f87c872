import RethExt.RexSim.Changeset
import RethExt.Lib.Lineage
import Mathlib.Data.List.Nodup

/-!
# The chain the node follows

What the component is for is stated against a `Ledger`: every block the node ever has, found by its
hash, with the state after it.  Nothing here is translated from the source.  A ledger says which
block hashes are ancestors of which (`Ledger.lineage`), what a block's state holds
(`WorldState.info`, `WorldState.storage`), and when a notification tells the truth about it
(`Chain.OnLedger`, `ExExNotification.Extends`).

`BundleState.Carries` is what revm promises of a diff: it lists every account that changed, an
account listed without info does not exist afterwards, and the slots that a destroyed account does
not list are zero.
-/

set_option autoImplicit false

open Std

namespace RexSim

/-! ## States -/

structure Account where
  balance : U256
  nonce : ℕ
  code : Bytes
  deriving DecidableEq

/-- The state after a block. -/
structure WorldState where
  account : Address → Option Account
  storage : Address → U256 → U256

/-- The info of an account that does not exist. -/
def AccountInfo.empty : AccountInfo := ⟨0, 0, keccakEmpty⟩

/-- The code hash of an account, from its code. -/
def codeHashOf (keccak256 : Bytes → B256) (code : Bytes) : B256 :=
  if code.isEmpty then keccakEmpty else keccak256 code

section WorldState

variable (keccak256 : Bytes → B256)

def Account.info (account : Account) : AccountInfo :=
  ⟨account.balance, account.nonce, codeHashOf keccak256 account.code⟩

/-- The info of an account in a state; one that does not exist reads as empty. -/
def WorldState.info (σ : WorldState) (address : Address) : AccountInfo :=
  ((σ.account address).map (Account.info keccak256)).getD .empty

/-- Every entry of the two maps is the value in the state `σ`. -/
structure Holds (accounts : HashMap Address AccountInfo) (storage : HashMap SlotKey U256)
    (σ : WorldState) : Prop where
  accounts : ∀ a held, accounts[a]? = some held → held = σ.info keccak256 a
  storage : ∀ (key : SlotKey) held, storage[key]? = some held → held = σ.storage key.1 key.2

theorem holds_empty (σ : WorldState) : Holds keccak256 ∅ ∅ σ where
  accounts _ _ h := absurd h getElem?_empty_ne
  storage _ _ h := absurd h getElem?_empty_ne

/-! ## Diffs -/

variable [Revm]

/-- The diff takes the state `σ` to the state `τ`. -/
structure BundleState.Carries (bundle : BundleState) (σ τ : WorldState) : Prop where
  account_unlisted : ∀ a, bundle.state[a]? = none → τ.account a = σ.account a
  account_some : ∀ a account info, bundle.state[a]? = some account → account.info = some info →
    τ.info keccak256 a = info
  account_none : ∀ a account, bundle.state[a]? = some account → account.info = none →
    τ.account a = none
  slot_unlisted : ∀ a slot, bundle.state[a]? = none → τ.storage a slot = σ.storage a slot
  slot_some : ∀ a slot account value, bundle.state[a]? = some account →
    account.storage[slot]? = some value → τ.storage a slot = value.presentValue
  slot_none : ∀ a slot account, bundle.state[a]? = some account → account.storage[slot]? = none →
    τ.storage a slot = if account.destroyed then 0 else σ.storage a slot

end WorldState

/-! ## Blocks -/

/-- Every block the node ever has, with the state after it. -/
structure Ledger where
  block : B256 → Block
  state : B256 → WorldState
  hash_block : ∀ h, (block h).hash = h
  number_parent : ∀ h, 0 < (block h).number →
    (block (block h).parentHash).number + 1 = (block h).number

namespace Ledger

variable (L : Ledger)

/-- The blocks of a ledger, by hash, with their parents and numbers. -/
def lineage : Lineage B256 where
  parent h := (L.block h).parentHash
  height h := (L.block h).number
  height_parent := L.number_parent

/-- The ledger of a list of blocks with their states.  A hash that is not listed gets a block at
height zero. -/
def ofList (state : B256 → WorldState) (blocks : List Block)
    (h : ∀ b ∈ blocks, 0 < b.number →
      ((blocks.find? fun c ↦ c.hash == b.parentHash).map Block.number).getD 0 + 1 = b.number) :
    Ledger where
  block h := (blocks.find? fun b ↦ b.hash == h).getD { header := ⟨0, 0, h, []⟩ }
  state := state
  hash_block hash := by
    cases hf : blocks.find? fun b ↦ b.hash == hash with
    | none => rfl
    | some b => simpa using List.find?_some hf
  number_parent hash hpos := by
    cases hf : blocks.find? fun b ↦ b.hash == hash with
    | none =>
      rw [hf] at hpos
      exact absurd hpos (lt_irrefl 0)
    | some b =>
      rw [hf, Option.getD_some] at hpos
      rw [Option.getD_some, ← h b (List.mem_of_find?_eq_some hf) hpos]
      cases blocks.find? fun c ↦ c.hash == b.parentHash <;> rfl

end Ledger

/-! ## Chains on a ledger -/

section OnLedger

variable [Revm] (keccak256 : Bytes → B256) (L : Ledger)

/-- The chain is one of the ledger, and its diff takes the state before it, and the state after
each of its blocks, to the state after its tip. -/
structure Chain.OnLedger (c : Chain) : Prop where
  block : ∀ b ∈ c.blocks, L.block b.hash = b
  number_pos : ∀ b ∈ c.blocks, 0 < b.number
  hash_ne : ∀ b ∈ c.blocks, b.hash ≠ 0
  carries : ∀ h, (h = c.first.parentHash ∨ ∃ b ∈ c.blocks, b.hash = h) →
    c.bundle.Carries keccak256 (L.state h) (L.state c.tip.hash)

/-- The notification tells of a change of a canonical chain that ends at `tip`: a commit that
contains the tip or builds on it, a reorg that takes a suffix away and puts another one in its
place, or a revert that takes a suffix away. -/
def ExExNotification.Extends (tip : B256) : ExExNotification → Prop
  | .chainCommitted new =>
    new.OnLedger keccak256 L ∧ (tip = new.first.parentHash ∨ ∃ b ∈ new.blocks, b.hash = tip)
  | .chainReorged old new =>
    old.OnLedger keccak256 L ∧ new.OnLedger keccak256 L ∧ old.tip.hash = tip ∧
      new.first.parentHash = old.first.parentHash
  | .chainReverted old => old.OnLedger keccak256 L ∧ old.tip.hash = tip

/-- The chains of the notification are of the ledger, and a new one starts where the old one did. -/
def ExExNotification.OnLedger : ExExNotification → Prop
  | .chainCommitted new => new.OnLedger keccak256 L
  | .chainReorged old new =>
    old.OnLedger keccak256 L ∧ new.OnLedger keccak256 L ∧
      new.first.parentHash = old.first.parentHash
  | .chainReverted old => old.OnLedger keccak256 L

variable {keccak256 L} in
theorem ExExNotification.Extends.onLedger {tip : B256} {n : ExExNotification}
    (h : n.Extends keccak256 L tip) : n.OnLedger keccak256 L := by
  cases n with
  | chainCommitted new => exact h.1
  | chainReorged old new => exact ⟨h.1, h.2.1, h.2.2.2⟩
  | chainReverted old => exact h.1

end OnLedger

variable [Revm]

/-- The tip of the canonical chain after the change. -/
def ExExNotification.newTip : ExExNotification → B256
  | .chainCommitted new => new.tip.hash
  | .chainReorged _ new => new.tip.hash
  | .chainReverted old => old.first.parentHash

/-! ## The blocks of a chain -/

namespace Chain

variable {c : Chain}

/-- The numbers of a chain's blocks go up. -/
theorem pairwise_number_lt (c : Chain) : c.blocks.Pairwise fun a b ↦ a.number < b.number := by
  have h : (c.blocks.map Block.number).IsChain (· < ·) :=
    (List.isChain_map _).mpr (c.linked.imp fun _ _ h ↦ by rw [h.1]; exact Nat.lt_succ_self _)
  exact List.pairwise_map.mp (List.isChain_iff_pairwise.mp h)

/-- Two blocks of a chain with one number are one block. -/
theorem eq_of_number_eq {a b : Block} (ha : a ∈ c.blocks) (hb : b ∈ c.blocks)
    (h : a.number = b.number) : a = b := by
  refine List.inj_on_of_nodup_map ?_ ha hb h
  rw [List.Nodup, List.pairwise_map]
  exact c.pairwise_number_lt.imp Nat.ne_of_lt

theorem first_number_le {b : Block} (hb : b ∈ c.blocks) : c.first.number ≤ b.number := by
  have h := c.pairwise_number_lt
  rw [← List.cons_head_tail c.nonempty, List.pairwise_cons] at h
  rw [← List.cons_head_tail c.nonempty] at hb
  rcases List.mem_cons.mp hb with rfl | hb
  · exact le_rfl
  · exact (h.1 b hb).le

theorem le_tip_number {b : Block} (hb : b ∈ c.blocks) : b.number ≤ c.tip.number := by
  have h := c.pairwise_number_lt
  rw [← List.dropLast_concat_getLast c.nonempty, List.pairwise_append] at h
  rw [← List.dropLast_concat_getLast c.nonempty] at hb
  rcases List.mem_append.mp hb with hb | hb
  · exact (h.2.2 b hb _ (List.mem_singleton_self _)).le
  · rw [List.mem_singleton.mp hb]; exact le_rfl

omit [Revm] in
private theorem exists_number_eq_of_isChain {blocks : List Block} {n : ℕ} (hne : blocks ≠ [])
    (hlinked : blocks.IsChain fun a b ↦ b.Follows a) (hfirst : (blocks.head hne).number ≤ n)
    (htip : n ≤ (blocks.getLast hne).number) : ∃ b ∈ blocks, b.number = n := by
  induction blocks with
  | nil => exact absurd rfl hne
  | cons a rest ih =>
    rw [List.head_cons] at hfirst
    rcases hfirst.eq_or_lt with heq | hlt
    · exact ⟨a, List.mem_cons_self, heq⟩
    · cases rest with
      | nil => exact absurd htip (Nat.not_le.mpr hlt)
      | cons b rest =>
        obtain ⟨hab, hrest⟩ := List.isChain_cons_cons.mp hlinked
        rw [List.getLast_cons (List.cons_ne_nil _ _)] at htip
        obtain ⟨x, hx, hn⟩ := ih (List.cons_ne_nil _ _) hrest
          (by rw [List.head_cons, hab.1]; exact hlt) htip
        exact ⟨x, List.mem_cons_of_mem _ hx, hn⟩

/-- Every height from the first block to the tip has a block. -/
theorem exists_number_eq {n : ℕ} (hfirst : c.first.number ≤ n) (htip : n ≤ c.tip.number) :
    ∃ b ∈ c.blocks, b.number = n :=
  exists_number_eq_of_isChain c.nonempty c.linked hfirst htip

/-- The hash a chain gives to the height of one of its blocks is that of the block. -/
theorem lastHash_of_mem {b : Block} (hb : b ∈ c.blocks) :
    lastHash (extractBlockData c) b.number = some b.hash := by
  refine RexSim.lastHash_of_mem (b := b.data) (List.mem_map_of_mem hb) fun d hd hn ↦ ?_
  obtain ⟨b', hb', rfl⟩ := List.mem_map.mp hd
  rw [eq_of_number_eq hb' hb hn]

/-- A chain gives no hash to a height outside its range. -/
theorem lastHash_eq_none {n : ℕ} (h : n < c.first.number ∨ c.tip.number < n) :
    lastHash (extractBlockData c) n = none := by
  rw [lastHash_eq_none_iff]
  intro d hd hn
  obtain ⟨b, hb, rfl⟩ := List.mem_map.mp hd
  have hfirst := c.first_number_le hb
  have htip := c.le_tip_number hb
  change b.number = n at hn
  omega

variable {keccak256 : Bytes → B256} {L : Ledger}

namespace OnLedger

variable (h : c.OnLedger keccak256 L)

include h

theorem number_hash {b : Block} (hb : b ∈ c.blocks) : L.lineage.height b.hash = b.number := by
  change (L.block b.hash).number = b.number
  rw [h.block b hb]

theorem parent_hash {b : Block} (hb : b ∈ c.blocks) : L.lineage.parent b.hash = b.parentHash := by
  change (L.block b.hash).parentHash = b.parentHash
  rw [h.block b hb]

private theorem linked_hashes : L.lineage.Linked (c.blocks.map Block.hash) := by
  refine (List.isChain_map _).mpr (List.IsChain.imp_of_mem_imp ?_ c.linked)
  intro a b ha hb hab
  rw [h.parent_hash hb, hab.2]

private theorem height_hashes_pos : ∀ x ∈ c.blocks.map Block.hash, 0 < L.lineage.height x := by
  intro x hx
  obtain ⟨b, hb, rfl⟩ := List.mem_map.mp hx
  rw [h.number_hash hb]
  exact h.number_pos b hb

/-- The block below the first one. -/
theorem number_base : L.lineage.height c.first.parentHash + 1 = c.first.number := by
  rw [← h.parent_hash c.first_mem, ← h.number_hash c.first_mem]
  refine L.lineage.height_parent _ ?_
  rw [h.number_hash c.first_mem]
  exact h.number_pos _ c.first_mem

/-- The blocks of a chain are ancestors of its tip. -/
theorem ancestor_of_mem {b : Block} (hb : b ∈ c.blocks) :
    L.lineage.ancestor c.tip.hash b.number = b.hash := by
  have hne : c.blocks.map Block.hash ≠ [] := by simpa using c.nonempty
  have hanc := (Lineage.ancestor_getLast_of_mem h.linked_hashes h.height_hashes_pos hne
    (List.mem_map_of_mem hb)).2
  rwa [List.getLast_map, h.number_hash hb] at hanc

/-- Below its first block, the tip of a chain has the ancestors of the block the chain is built
on. -/
theorem ancestor_of_lt {n : ℕ} (hn : n < c.first.number) :
    L.lineage.ancestor c.tip.hash n = L.lineage.ancestor c.first.parentHash n := by
  have hne : c.blocks.map Block.hash ≠ [] := by simpa using c.nonempty
  have hhead : (c.blocks.map Block.hash).head hne = c.first.hash := List.head_map hne
  have hanc := Lineage.ancestor_getLast_of_le h.linked_hashes h.height_hashes_pos hne
    (by rw [hhead, h.number_hash c.first_mem]; exact hn)
  rwa [hhead, List.getLast_map, h.parent_hash c.first_mem] at hanc

/-- A block the chain is built on, or that it contains, has its ancestors in common with the
tip. -/
theorem ancestor_of_le {x : B256} (hx : x = c.first.parentHash ∨ ∃ b ∈ c.blocks, b.hash = x)
    {n : ℕ} (hn : n ≤ L.lineage.height x) :
    L.lineage.ancestor c.tip.hash n = L.lineage.ancestor x n := by
  rcases hx with rfl | ⟨b, hb, rfl⟩
  · refine h.ancestor_of_lt ?_
    have := h.number_base
    omega
  · rw [h.number_hash hb] at hn
    have hle : b.number ≤ L.lineage.height c.tip.hash := by
      rw [h.number_hash c.tip_mem]; exact c.le_tip_number hb
    rw [← h.ancestor_of_mem hb]
    exact (L.lineage.ancestor_ancestor hn hle).symm

end OnLedger

end Chain

end RexSim
