import RethExt.RexSim.Ledger

/-!
# The RPC client

An `RpcCall` is what one of the `get_*` methods does: the queries it sends, all by block number,
and what it makes of the answers that have arrived.  The three queries of `getAccount` run
concurrently, and `tryJoin` is `try_join!`: the first error ends the call, whatever is still
running.  A call may also end in a panic: `getCodeByHash` does when the code has the hash that was
asked for and `new_raw` does not take it.
-/

set_option autoImplicit false

namespace RexSim

/-- The queries the client sends, each at a block number. -/
inductive Query
  | getBalance (address : Address) (block : ℕ)
  | getTransactionCount (address : Address) (block : ℕ)
  | getCodeAt (address : Address) (block : ℕ)
  | getStorageAt (address : Address) (index : U256) (block : ℕ)
  | getBlockByNumber (number : ℕ)
  deriving DecidableEq

namespace Query

/-- What a query is answered with.  Of a block, only the hash is read. -/
abbrev Answer : Query → Type
  | getBalance _ _ => U256
  | getTransactionCount _ _ => ℕ
  | getCodeAt _ _ => Bytes
  | getStorageAt _ _ _ => U256
  | getBlockByNumber _ => Option B256

/-- The height a query asks about. -/
def height : Query → ℕ
  | getBalance _ block => block
  | getTransactionCount _ block => block
  | getCodeAt _ block => block
  | getStorageAt _ _ block => block
  | getBlockByNumber number => number

end Query

/-- The answers that have arrived. -/
abbrev Answers := (q : Query) → Option (Except SimError q.Answer)

/-- How a call ends: it returns, or it panics and takes its task with it. -/
inductive CallOutcome (R : Type)
  | returned (result : Except SimError R)
  | panicked

/-- The queries of a call, and how it ends once the answers determine it. -/
structure RpcCall (R : Type) where
  queries : List Query
  result : Answers → Option (CallOutcome R)

/-- `try_join!` of three futures. -/
def tryJoin {α β γ : Type} :
    Option (Except SimError α) → Option (Except SimError β) → Option (Except SimError γ) →
      Option (Except SimError (α × β × γ))
  | some (.error e), _, _ => some (.error e)
  | _, some (.error e), _ => some (.error e)
  | _, _, some (.error e) => some (.error e)
  | some (.ok a), some (.ok b), some (.ok c) => some (.ok (a, b, c))
  | _, _, _ => none

theorem tryJoin_eq_ok {α β γ : Type} {a : Option (Except SimError α)}
    {b : Option (Except SimError β)} {c : Option (Except SimError γ)} {x : α × β × γ}
    (h : tryJoin a b c = some (.ok x)) :
    a = some (.ok x.1) ∧ b = some (.ok x.2.1) ∧ c = some (.ok x.2.2) := by
  rw [tryJoin.eq_def] at h
  split at h <;> cases h
  exact ⟨rfl, rfl, rfl⟩

theorem tryJoin_eq_error {α β γ : Type} {a : Option (Except SimError α)}
    {b : Option (Except SimError β)} {c : Option (Except SimError γ)} {e : SimError}
    (h : tryJoin a b c = some (.error e)) :
    a = some (.error e) ∨ b = some (.error e) ∨ c = some (.error e) := by
  rw [tryJoin.eq_def] at h
  split at h <;> simp_all

section calls

variable (keccak256 : Bytes → B256)

def getAccount (address : Address) (block : ℕ) : RpcCall (Option AccountInfo) where
  queries := [.getBalance address block, .getTransactionCount address block,
    .getCodeAt address block]
  result answers :=
    (tryJoin (answers (.getBalance address block)) (answers (.getTransactionCount address block))
      (answers (.getCodeAt address block))).map fun joined ↦
        .returned (joined.map fun (balance, nonce, code) ↦
          some ⟨balance, nonce, codeHashOf keccak256 code⟩)

def getCodeByHash [Revm] (codeHash : B256) (address : Option Address) (block : ℕ) :
    RpcCall Bytecode :=
  match address with
  | none => ⟨[], fun _ ↦ some (.returned (.error (.missingAddressHint codeHash)))⟩
  | some address =>
    ⟨[.getCodeAt address block], fun answers ↦ (answers (.getCodeAt address block)).map fun
      | .error e => .returned (.error e)
      | .ok code =>
        if codeHashOf keccak256 code ≠ codeHash then
          .returned (.error (.codeHashMismatch address codeHash (codeHashOf keccak256 code)))
        else if h : Revm.takes code = true then .returned (.ok (.newRaw code h))
        else .panicked⟩

def getStorage (address : Address) (index : U256) (block : ℕ) : RpcCall U256 where
  queries := [.getStorageAt address index block]
  result answers := (answers (.getStorageAt address index block)).map .returned

def getBlockHash (number : ℕ) : RpcCall B256 where
  queries := [.getBlockByNumber number]
  result answers := (answers (.getBlockByNumber number)).map fun answer ↦
    .returned (answer.bind fun
      | some hash => .ok hash
      | none => .error (.blockNotFound number))

variable {keccak256}

/-- The account of a call is put together from three answers. -/
theorem getAccount_eq_ok {address : Address} {block : ℕ} {answers : Answers}
    {r : Option AccountInfo}
    (h : (getAccount keccak256 address block).result answers = some (.returned (.ok r))) :
    ∃ balance nonce code, answers (.getBalance address block) = some (.ok balance) ∧
      answers (.getTransactionCount address block) = some (.ok nonce) ∧
      answers (.getCodeAt address block) = some (.ok code) ∧
      r = some ⟨balance, nonce, codeHashOf keccak256 code⟩ := by
  obtain ⟨joined, hjoin, hr⟩ := Option.map_eq_some_iff.mp h
  cases joined with
  | error e => cases hr
  | ok x =>
    obtain ⟨hbalance, hnonce, hcode⟩ := tryJoin_eq_ok hjoin
    cases hr
    exact ⟨_, _, _, hbalance, hnonce, hcode, rfl⟩

/-- **The hash check**: code is the answer for an address, and has the hash that was asked for. -/
theorem getCodeByHash_eq_ok [Revm] {codeHash : B256} {address : Option Address} {block : ℕ}
    {answers : Answers} {code : Bytecode}
    (h : (getCodeByHash keccak256 codeHash address block).result answers =
      some (.returned (.ok code))) :
    codeHashOf keccak256 code.originalBytes = codeHash ∧
      ∃ a, address = some a ∧ answers (.getCodeAt a block) = some (.ok code.originalBytes) := by
  cases address with
  | none => cases h
  | some a =>
    obtain ⟨answer, hanswer, hr⟩ := Option.map_eq_some_iff.mp h
    cases answer with
    | error e => cases hr
    | ok bytes =>
      simp only at hr
      split at hr
      · cases hr
      · split at hr
        · cases hr
          exact ⟨not_not.mp ‹_›, a, rfl, hanswer⟩
        · cases hr

/-- A call for code panics on code with the hash that was asked for, if `new_raw` does not take
it. -/
theorem getCodeByHash_eq_panicked [Revm] {codeHash : B256} {address : Option Address} {block : ℕ}
    {answers : Answers}
    (h : (getCodeByHash keccak256 codeHash address block).result answers = some .panicked) :
    ∃ a code, answers (.getCodeAt a block) = some (.ok code) ∧
      codeHashOf keccak256 code = codeHash ∧ Revm.takes code = false := by
  cases address with
  | none => cases h
  | some a =>
    obtain ⟨answer, hanswer, hr⟩ := Option.map_eq_some_iff.mp h
    cases answer with
    | error e => cases hr
    | ok code =>
      simp only at hr
      split at hr
      · cases hr
      · split at hr
        · cases hr
        · exact ⟨a, code, hanswer, not_not.mp ‹_›, eq_false_of_ne_true ‹_›⟩

/-- A slot is what the node answered. -/
theorem getStorage_eq_iff {address : Address} {index : U256} {block : ℕ} {answers : Answers}
    {r : Except SimError U256} :
    (getStorage address index block).result answers = some (.returned r) ↔
      answers (.getStorageAt address index block) = some r := by
  simp [getStorage]

/-- A block hash is that of the block the node answered with. -/
theorem getBlockHash_eq_ok {number : ℕ} {answers : Answers} {hash : B256}
    (h : (getBlockHash number).result answers = some (.returned (.ok hash))) :
    answers (.getBlockByNumber number) = some (.ok (some hash)) := by
  obtain ⟨answer, hanswer, hr⟩ := Option.map_eq_some_iff.mp h
  cases answer with
  | error e => cases hr
  | ok block =>
    cases block with
    | none => cases hr
    | some b => cases hr; exact hanswer

end calls

/-! ## The node -/

namespace Ledger

variable (L : Ledger)

/-- What the block `h` says to a query: the state after it, and its own hash. -/
def eval (h : B256) : (q : Query) → q.Answer
  | .getBalance address _ => (((L.state h).account address).map Account.balance).getD 0
  | .getTransactionCount address _ => (((L.state h).account address).map Account.nonce).getD 0
  | .getCodeAt address _ => (((L.state h).account address).map Account.code).getD []
  | .getStorageAt address index _ => (L.state h).storage address index
  | .getBlockByNumber _ => some h

/-- How a node whose canonical chain ends at `tip` answers a query: from the block that is canonical
at its height, and above the tip with nothing. -/
def answer (tip : B256) (q : Query) : Except SimError q.Answer :=
  if q.height ≤ L.lineage.height tip then .ok (L.eval (L.lineage.ancestor tip q.height) q)
  else match q with
    | .getBlockByNumber _ => .ok none
    | _ => .error .rpc

/-- The answer is the one that belongs to the block `h`: to a query of the state what the state
after `h` says, and of a height below `h` nothing but the ancestor of `h`. -/
def RightAnswer (h : B256) : (q : Query) → q.Answer → Prop
  | .getBlockByNumber number, v => number < L.lineage.height h →
      ∀ hash, v = some hash → hash = L.lineage.ancestor h number
  | .getBalance address block, v => v = L.eval h (.getBalance address block)
  | .getTransactionCount address block, v => v = L.eval h (.getTransactionCount address block)
  | .getCodeAt address block, v => v = L.eval h (.getCodeAt address block)
  | .getStorageAt address index block, v => v = L.eval h (.getStorageAt address index block)

/-- The info of an account is put together from what its block says. -/
theorem info_eq_eval (keccak256 : Bytes → B256) (h : B256) (address : Address) (block : ℕ) :
    (L.state h).info keccak256 address =
      ⟨L.eval h (.getBalance address block), L.eval h (.getTransactionCount address block),
        codeHashOf keccak256 (L.eval h (.getCodeAt address block))⟩ := by
  rw [WorldState.info]
  simp only [eval]
  cases (L.state h).account address <;> rfl

end Ledger

end RexSim
