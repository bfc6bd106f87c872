import RethExt.RexSim.ManagerCore
import RethExt.RexSim.Transitions

/-!
# The four fetch managers

The four instances of `FetchSpec`, and `spec`, which lists them by `FetchKind`.  `readRef` lists the
four reads of `DatabaseRef` in the same way, so that a statement about any read, any request or any
cache is one statement about a kind.

The context of the account manager is the sending end of a channel to the code manager; it is
modelled by what was sent on it so far.
-/

set_option autoImplicit false

open Std

namespace RexSim

structure CodeRegistration where
  codeHash : B256
  address : Address
  deriving DecidableEq

structure CodeHints where
  hashToAddress : HashMap B256 Address := ∅

section specs

variable [Revm] (keccak256 : Bytes → B256)

abbrev accountSpec : FetchSpec where
  Req := AccountRequest
  Key := Address
  Val := AccountInfo
  Resp := Option AccountInfo
  Cache := AccountCache
  Ctx := List CodeRegistration
  Side := Empty
  permits fetch := fetch.account
  tag req := some req.blockHash
  key req := req.address
  hit value := some value
  store resp := resp
  onSuccess ctx address resp := match resp with
    | some info => ctx ++ [⟨info.codeHash, address⟩]
    | none => ctx
  intoCache tag data := ⟨tag, data⟩
  fetch _ req := getAccount keccak256 req.address req.block

abbrev codeSpec : FetchSpec where
  Req := CodeRequest
  Key := B256
  Val := Bytecode
  Resp := Bytecode
  Cache := CodeCache
  Ctx := CodeHints
  Side := CodeRegistration
  epochGuarded := false
  permits fetch := fetch.code
  tag _ := none
  key req := req.codeHash
  hit value := value
  store resp := some resp
  onSide ctx reg := { hashToAddress := ctx.hashToAddress.insert reg.codeHash reg.address }
  intoCache _ data := ⟨data⟩
  fetch ctx req :=
    getCodeByHash keccak256 req.codeHash (req.addressHint.or ctx.hashToAddress[req.codeHash]?)
      req.block

abbrev storageSpec : FetchSpec where
  Req := StorageRequest
  Key := SlotKey
  Val := U256
  Resp := U256
  Cache := StorageCache
  Ctx := Unit
  Side := Empty
  permits fetch := fetch.storage
  tag req := some req.blockHash
  key req := (req.address, req.index)
  hit value := value
  store resp := some resp
  intoCache tag data := ⟨tag, data⟩
  fetch _ req := getStorage req.address req.index req.block

abbrev blockHashSpec : FetchSpec where
  Req := BlockHashRequest
  Key := ℕ
  Val := B256
  Resp := B256
  Cache := BlockHashCache
  Ctx := Unit
  Side := Empty
  permits fetch := fetch.blockHash
  tag req := some req.atBlockHash
  key req := req.number
  hit value := value
  store resp := some resp
  intoCache tag data := ⟨tag, data⟩
  fetch _ req := getBlockHash req.number

/-- The spec of each kind of request. -/
abbrev spec : FetchKind → FetchSpec
  | .account => accountSpec keccak256
  | .code => codeSpec keccak256
  | .storage => storageSpec
  | .blockHash => blockHashSpec

/-- The context each manager is created with. -/
def initialCtx : (k : FetchKind) → (spec keccak256 k).Ctx
  | .account => []
  | .code => {}
  | .storage => ()
  | .blockHash => ()

/-- The read of each kind. -/
def StateSnapshot.readRef (s : StateSnapshot) : (k : FetchKind) → (spec keccak256 k).Key →
    ReadOutcome (spec keccak256 k).Req (spec keccak256 k).Resp
  | .account, address => s.basicRef address
  | .code, codeHash => s.codeByHashRef codeHash
  | .storage, key => s.storageRef key
  | .blockHash, number => s.blockHashRef number

variable {keccak256} in
/-- No read is served from a stale snapshot. -/
theorem StateSnapshot.readRef_of_stale {s : StateSnapshot} (h : s.stale = true) (k : FetchKind)
    (key : (spec keccak256 k).Key) : s.readRef keccak256 k key = .ready (.error .staleState) := by
  cases k with
  | account => exact if_pos h
  | code => exact if_pos h
  | storage => exact if_pos h
  | blockHash => exact if_pos h

/-- The answer a fetch panics on: code with the hash that was asked for, which `new_raw` does not
take. -/
def RefusesCode : (k : FetchKind) → (spec keccak256 k).Req → Answers → Prop
  | .code, request, answers => ∃ address code,
      answers (.getCodeAt address request.block) = some (.ok code) ∧
        codeHashOf keccak256 code = request.codeHash ∧ Revm.takes code = false
  | _, _, _ => False

/-- **Only code makes a fetch panic.** -/
theorem refusesCode_of_panicked {k : FetchKind} {ctx : (spec keccak256 k).Ctx}
    {req : (spec keccak256 k).Req} {answers : Answers}
    (h : ((spec keccak256 k).fetch ctx req).result answers = some .panicked) :
    RefusesCode keccak256 k req answers := by
  cases k with
  | code => exact getCodeByHash_eq_panicked h
  | account | storage | blockHash =>
    obtain ⟨_, _, hpanicked⟩ := Option.map_eq_some_iff.mp h
    cases hpanicked

end specs

/-! ## What the epoch-guarded specs have in common -/

/-- Every request has a tag, and a response that is stored is the one a hit gives back. -/
structure FetchSpec.EpochGuarded (S : FetchSpec) : Prop where
  guarded : S.epochGuarded = true
  tagged : ∀ req, ∃ tag, S.tag req = some tag
  hit_of_store : ∀ resp value, S.store resp = some value → S.hit value = resp

/-- All specs but that of code are epoch-guarded. -/
theorem epochGuarded_spec [Revm] (keccak256 : Bytes → B256) {k : FetchKind} (hk : k ≠ .code) :
    (spec keccak256 k).EpochGuarded := by
  cases k with
  | account => exact ⟨rfl, fun req ↦ ⟨_, rfl⟩, fun _ _ h ↦ h.symm⟩
  | code => exact absurd rfl hk
  | storage => exact ⟨rfl, fun req ↦ ⟨_, rfl⟩, fun _ _ h ↦ by cases h; rfl⟩
  | blockHash => exact ⟨rfl, fun req ↦ ⟨_, rfl⟩, fun _ _ h ↦ by cases h; rfl⟩

end RexSim
