import Std.Data.ExtTreeMap
import Mathlib.Data.Nat.Notation

/-!
# The values the state layer carries

Hashes, addresses and storage words are bit vectors of the widths of `B256`, `Address` and `U256`.
Block numbers and nonces are `ℕ`: they are `u64` in the source, and nothing here adds to a number
that is not the number of a block that exists.

A `HashMap` is `Std.ExtTreeMap`: a finite map, equal to another exactly when the lookups agree.
Its keys are listed in ascending order, which is the order `sort_unstable` leaves them in.
-/

set_option autoImplicit false

open Std

namespace RexSim

abbrev B256 := BitVec 256

abbrev Address := BitVec 160

abbrev U256 := BitVec 256

abbrev Bytes := List UInt8

/-- `hashbrown::HashMap`. -/
abbrev HashMap (K V : Type) [Ord K] := ExtTreeMap K V compare

theorem getElem?_empty_ne {K V : Type} [Ord K] [TransOrd K] {k : K} {value : V} :
    (∅ : HashMap K V)[k]? ≠ some value := by
  rw [ExtTreeMap.getElem?_empty]
  exact (Option.some_ne_none value).symm

/-- The key of a storage entry: an account and a slot. -/
abbrev SlotKey := Address × U256

instance : Ord SlotKey := lexOrd

instance : TransOrd Address := inferInstance

instance : LawfulEqOrd Address := inferInstance

instance : TransOrd B256 := inferInstance

instance : LawfulEqOrd B256 := inferInstance

instance : TransOrd SlotKey := inferInstance

instance : LawfulEqOrd SlotKey := inferInstance

/-- `KECCAK_EMPTY`, the code hash of an account without code. -/
def keccakEmpty : B256 := 0xc5d2460186f7233c927e7db2dcc703c0e500b653ca82273b7bfad8045d85a470

/-- The part of revm's `AccountInfo` that is filled in: `account_id` and `code` are `None` in
everything this crate builds, and nothing reads them. -/
@[ext] structure AccountInfo where
  balance : U256
  nonce : ℕ
  codeHash : B256
  deriving DecidableEq

/-- What is relied on of the crate `revm`: `Bytecode::new_raw` takes some code and panics on other.
Which code it takes is left open. -/
class Revm where
  takes : Bytes → Bool

/-- Bytecode, by the bytes it was made from (`original_bytes`); there is none but what `new_raw`
takes. -/
structure Bytecode [Revm] where
  originalBytes : Bytes
  taken : Revm.takes originalBytes = true
  deriving DecidableEq

/-- `Bytecode::new_raw`, where it does not panic. -/
def Bytecode.newRaw [Revm] (bytes : Bytes) (h : Revm.takes bytes = true) : Bytecode := ⟨bytes, h⟩

namespace Revm

/-- The rule for examples: code that begins with `ef01` is a delegation of 23 bytes, or is not
taken. -/
scoped instance delegations : Revm where
  takes bytes := bytes.take 2 != [0xef, 0x01] || (bytes.length == 23 && bytes[2]? == some 0)

end Revm

/-- A log, as an opaque value: it is only ever copied. -/
abbrev Log := Bytes

/-- The part of a receipt that is read. -/
structure Receipt where
  logs : List Log
  deriving DecidableEq

/-- The withdrawals of a block body, as an opaque value: they are only ever copied. -/
abbrev Withdrawals := Bytes

/-- A header together with its hash.  `rest` stands for the header fields nothing here reads. -/
structure SealedHeader where
  number : ℕ
  parentHash : B256
  hash : B256
  rest : Bytes
  deriving DecidableEq

/-- The four kinds of value a reader can ask for. -/
inductive FetchKind
  | account
  | code
  | storage
  | blockHash
  deriving DecidableEq

/-- What a read can fail with. -/
inductive SimError
  | fetcherClosed
  | fetchTimeout (kind : FetchKind) (elapsed : ℕ)
  | staleState
  | missingAddressHint (codeHash : B256)
  | codeHashMismatch (address : Address) (expected actual : B256)
  | blockNotFound (number : ℕ)
  | rpc
  deriving DecidableEq

end RexSim
