import RethExt.RexSim.State
import RethExt.Lib.Lts

/-!
# The guard against torn reads

`StaticState` keeps the snapshot and its generation in two atomics.  `swap` stores the snapshot and
then increments the generation, `guard` is three loads, every read of `DatabaseRef` is one, and
`check_guard` is two.  Here each of these accesses is one step, and the steps of one writer and one
reader interleave in any order.

The generation of the guard is loaded first and compared last, so a swap that both stores and
increments in between is noticed.  A swap that has stored and not yet incremented at the moment of
the comparison is not: if its store fell between the guard's load of the block hash and a read,
the read is torn and the guard still valid.  `GuardState.Settled` excludes just that, and a counter
that went all the way round.
-/

set_option autoImplicit false

namespace RexSim

structure StateGuard where
  generation : BitVec 64
  blockHash : B256
  stale : Bool
  deriving DecidableEq

inductive StateValidity
  | valid
  | wasStale
  | becameStale
  | changed (oldGen newGen : BitVec 64)
  deriving DecidableEq

section Guards

variable [Revm]

/-- A snapshot that was stored, with its place in the order of the stores. -/
structure Cell where
  version : ℕ
  snapshot : StateSnapshot

/-- How far the reader has got. -/
inductive ReaderPhase
  | idle
  | gotGeneration (generation : BitVec 64)
  | gotBlockHash (generation : BitVec 64) (blockHash : B256)
  | guarded (guard : StateGuard)
  | checking (guard : StateGuard)
  | checked (guard : StateGuard) (validity : StateValidity)

/-- The two atomics, a writer and a reader.  `swaps` and `guardSwaps` count the completed swaps,
now and when the guard loaded the generation; `guardCell` is what the guard loaded the block hash
from, and `reads` is what the reads under the guard were served from. -/
structure GuardState where
  inner : Cell
  generation : BitVec 64 := 0
  storing : Bool := false
  phase : ReaderPhase := .idle
  swaps : ℕ := 0
  guardSwaps : ℕ := 0
  guardCell : Cell
  reads : List Cell := []

inductive GuardEvent
  | store (new : StateSnapshot)
  | increment
  | loadGeneration
  | loadBlockHash
  | loadStale
  | read
  | checkStale
  | checkGeneration

namespace GuardState

/-- A `StaticState` at its creation. -/
def initial (snapshot : StateSnapshot) : GuardState :=
  { inner := ⟨0, snapshot⟩, guardCell := ⟨0, snapshot⟩ }

def step (s : GuardState) : GuardEvent → Option GuardState
  | .store new =>
    if s.storing then none
    else some { s with inner := ⟨s.inner.version + 1, new⟩, storing := true }
  | .increment =>
    if s.storing then
      some { s with generation := s.generation + 1, storing := false, swaps := s.swaps + 1 }
    else none
  | .loadGeneration => match s.phase with
    | .idle => some { s with phase := .gotGeneration s.generation, guardSwaps := s.swaps }
    | _ => none
  | .loadBlockHash => match s.phase with
    | .gotGeneration generation =>
      some { s with
        phase := .gotBlockHash generation s.inner.snapshot.blockHash, guardCell := s.inner }
    | _ => none
  | .loadStale => match s.phase with
    | .gotBlockHash generation blockHash =>
      some { s with phase := .guarded ⟨generation, blockHash, s.inner.snapshot.stale⟩ }
    | _ => none
  | .read => match s.phase with
    | .guarded _ => some { s with reads := s.reads ++ [s.inner] }
    | _ => none
  | .checkStale => match s.phase with
    | .guarded guard =>
      if guard.stale then some { s with phase := .checked guard .wasStale }
      else if s.inner.snapshot.stale then some { s with phase := .checked guard .becameStale }
      else some { s with phase := .checking guard }
    | _ => none
  | .checkGeneration => match s.phase with
    | .checking guard =>
      if guard.generation != s.generation then
        some { s with phase := .checked guard (.changed guard.generation s.generation) }
      else some { s with phase := .checked guard .valid }
    | _ => none

abbrev Step : GuardEvent → GuardState → GuardState → Prop := Lts.Executes step

/-- When the generation is compared, no read was torn by a swap that has stored and not
incremented, and the counter has not gone round since the guard. -/
def Settled (s : GuardState) : GuardEvent → Prop
  | .checkGeneration =>
    s.swaps < s.guardSwaps + UInt64.size ∧
      (s.storing = true → s.guardCell.version = s.inner.version ∨
        ∀ r ∈ s.reads, r.version ≠ s.inner.version)
  | _ => True

/-- All reads were served from the snapshot whose block hash the guard recorded. -/
def ServedByOne (s : GuardState) (guard : StateGuard) : Prop :=
  guard.blockHash = s.guardCell.snapshot.blockHash ∧ ∀ r ∈ s.reads, r = s.guardCell

/-! ## The invariant -/

/-- What holds from the moment the guard has loaded the block hash. -/
structure Pinned (s : GuardState) (generation : BitVec 64) (blockHash : B256) : Prop where
  generation : generation = BitVec.ofNat 64 s.guardSwaps
  swaps_le : s.guardSwaps ≤ s.swaps
  le_version : s.guardSwaps ≤ s.guardCell.version
  version_le : s.guardCell.version ≤ s.inner.version
  current : s.guardCell.version = s.inner.version → s.guardCell = s.inner
  blockHash : blockHash = s.guardCell.snapshot.blockHash
  reads : ∀ r ∈ s.reads, s.guardCell.version ≤ r.version ∧ r.version ≤ s.inner.version ∧
    (r.version = s.guardCell.version → r = s.guardCell)

/-- What a phase of the reader knows. -/
def PhaseInv (s : GuardState) : ReaderPhase → Prop
  | .idle => s.reads = []
  | .gotGeneration generation =>
    s.reads = [] ∧ generation = BitVec.ofNat 64 s.guardSwaps ∧ s.guardSwaps ≤ s.swaps
  | .gotBlockHash generation blockHash => s.Pinned generation blockHash
  | .guarded guard => s.Pinned guard.generation guard.blockHash
  | .checking guard => s.Pinned guard.generation guard.blockHash
  | .checked guard validity => validity = .valid → s.ServedByOne guard

structure Inv (s : GuardState) : Prop where
  generation : s.generation = BitVec.ofNat 64 s.swaps
  version : s.inner.version = s.swaps + if s.storing then 1 else 0
  phase : s.PhaseInv s.phase

theorem initial_inv (snapshot : StateSnapshot) : (initial snapshot).Inv where
  generation := rfl
  version := rfl
  phase := rfl

section

variable {s : GuardState} {generation : BitVec 64} {blockHash : B256}

theorem Pinned.store (h : s.Pinned generation blockHash) (new : StateSnapshot) :
    Pinned { s with inner := ⟨s.inner.version + 1, new⟩, storing := true } generation
      blockHash where
  generation := h.generation
  swaps_le := h.swaps_le
  le_version := h.le_version
  version_le := h.version_le.trans (Nat.le_succ _)
  current heq := absurd heq (Nat.ne_of_lt (Nat.lt_succ_of_le h.version_le))
  blockHash := h.blockHash
  reads r hr :=
    let ⟨hlo, hhi, heq⟩ := h.reads r hr
    ⟨hlo, hhi.trans (Nat.le_succ _), heq⟩

theorem Pinned.increment (h : s.Pinned generation blockHash) :
    Pinned { s with generation := s.generation + 1, storing := false, swaps := s.swaps + 1 }
      generation blockHash where
  __ := h
  swaps_le := h.swaps_le.trans (Nat.le_succ _)

/-- A read under the guard is served from the current cell. -/
theorem Pinned.read (h : s.Pinned generation blockHash) :
    Pinned { s with reads := s.reads ++ [s.inner] } generation blockHash where
  __ := h
  reads r hr := by
    rcases List.mem_append.mp hr with hr | hr
    · exact h.reads r hr
    · rw [List.mem_singleton.mp hr]
      exact ⟨h.version_le, le_rfl, fun heq ↦ (h.current heq.symm).symm⟩

/-- **The comparison.**  When the generations agree and the counter has not gone round, the reads
were served by one snapshot exactly if none was torn by a swap that has stored and not
incremented. -/
theorem Pinned.servedByOne_iff (hinv : s.Inv) {guard : StateGuard}
    (h : s.Pinned guard.generation guard.blockHash) (hgen : guard.generation = s.generation)
    (hwrap : s.swaps < s.guardSwaps + UInt64.size) :
    s.ServedByOne guard ↔
      (s.storing = true → s.guardCell.version = s.inner.version ∨
        ∀ r ∈ s.reads, r.version ≠ s.inner.version) := by
  have hswaps : s.guardSwaps = s.swaps := by
    have heq := congrArg BitVec.toNat (h.generation.symm.trans (hgen.trans hinv.generation))
    rw [BitVec.toNat_ofNat, BitVec.toNat_ofNat] at heq
    rw [UInt64.size] at hwrap
    have := h.swaps_le
    omega
  have hle := h.le_version
  have hversion := hinv.version
  constructor
  · rintro ⟨-, hserved⟩ -
    by_cases hcurrent : s.guardCell.version = s.inner.version
    · exact Or.inl hcurrent
    · exact Or.inr fun r hr ↦ by rw [hserved r hr]; exact hcurrent
  · intro hsettled
    refine ⟨h.blockHash, fun r hr ↦ ?_⟩
    obtain ⟨hlo, hhi, heq⟩ := h.reads r hr
    refine heq ?_
    by_cases hstoring : s.storing = true
    · rw [if_pos hstoring] at hversion
      rcases hsettled hstoring with hcurrent | hbefore
      · omega
      · have := hbefore r hr
        omega
    · rw [if_neg hstoring] at hversion
      omega

/-- A store keeps what a phase knows. -/
theorem PhaseInv.store {phase : ReaderPhase} (h : s.PhaseInv phase) (new : StateSnapshot) :
    PhaseInv { s with inner := ⟨s.inner.version + 1, new⟩, storing := true } phase := by
  cases phase with
  | idle => exact h
  | gotGeneration => exact h
  | gotBlockHash => exact Pinned.store h new
  | guarded => exact Pinned.store h new
  | checking => exact Pinned.store h new
  | checked => exact h

/-- An increment keeps what a phase knows. -/
theorem PhaseInv.increment {phase : ReaderPhase} (h : s.PhaseInv phase) :
    PhaseInv { s with generation := s.generation + 1, storing := false, swaps := s.swaps + 1 }
      phase := by
  cases phase with
  | idle => exact h
  | gotGeneration => exact ⟨h.1, h.2.1, h.2.2.trans (Nat.le_succ _)⟩
  | gotBlockHash => exact Pinned.increment h
  | guarded => exact Pinned.increment h
  | checking => exact Pinned.increment h
  | checked => exact h

/-- **What each step does.** -/
inductive Transition (s : GuardState) : GuardEvent → GuardState → Prop
  | store (new : StateSnapshot) (hstoring : s.storing = false) :
      Transition s (.store new)
        { s with inner := ⟨s.inner.version + 1, new⟩, storing := true }
  | increment (hstoring : s.storing = true) :
      Transition s .increment
        { s with generation := s.generation + 1, storing := false, swaps := s.swaps + 1 }
  | loadGeneration (hphase : s.phase = .idle) :
      Transition s .loadGeneration
        { s with phase := .gotGeneration s.generation, guardSwaps := s.swaps }
  | loadBlockHash {generation : BitVec 64} (hphase : s.phase = .gotGeneration generation) :
      Transition s .loadBlockHash
        { s with
          phase := .gotBlockHash generation s.inner.snapshot.blockHash, guardCell := s.inner }
  | loadStale {generation : BitVec 64} {blockHash : B256}
      (hphase : s.phase = .gotBlockHash generation blockHash) :
      Transition s .loadStale
        { s with phase := .guarded ⟨generation, blockHash, s.inner.snapshot.stale⟩ }
  | read {guard : StateGuard} (hphase : s.phase = .guarded guard) :
      Transition s .read { s with reads := s.reads ++ [s.inner] }
  | invalid {guard : StateGuard} {validity : StateValidity} {e : GuardEvent}
      (hphase : s.phase = .guarded guard ∨ s.phase = .checking guard)
      (hvalidity : validity ≠ .valid) :
      Transition s e { s with phase := .checked guard validity }
  | notStale {guard : StateGuard} (hphase : s.phase = .guarded guard) :
      Transition s .checkStale { s with phase := .checking guard }
  | valid {guard : StateGuard} (hphase : s.phase = .checking guard)
      (hgeneration : guard.generation = s.generation) :
      Transition s .checkGeneration { s with phase := .checked guard .valid }

theorem Step.transition {s s' : GuardState} {e : GuardEvent} (hs : Step e s s') :
    s.Transition e s' := by
  replace hs : s.step e = some s' := hs
  cases e with
  | store new =>
    rw [GuardState.step] at hs
    split at hs <;> cases hs
    exact .store new (eq_false_of_ne_true ‹_›)
  | increment =>
    rw [GuardState.step] at hs
    split at hs <;> cases hs
    exact .increment ‹_›
  | loadGeneration =>
    rw [GuardState.step] at hs
    split at hs <;> cases hs
    exact .loadGeneration ‹_›
  | loadBlockHash =>
    rw [GuardState.step] at hs
    split at hs <;> cases hs
    exact .loadBlockHash ‹_›
  | loadStale =>
    rw [GuardState.step] at hs
    split at hs <;> cases hs
    exact .loadStale ‹_›
  | read =>
    rw [GuardState.step] at hs
    split at hs <;> cases hs
    exact .read ‹_›
  | checkStale =>
    rw [GuardState.step] at hs
    split at hs
    · rename_i guard hguarded
      split at hs
      · cases hs
        exact .invalid (Or.inl hguarded) fun heq ↦ by cases heq
      · split at hs <;> cases hs
        · exact .invalid (Or.inl hguarded) fun heq ↦ by cases heq
        · exact .notStale hguarded
    · cases hs
  | checkGeneration =>
    rw [GuardState.step] at hs
    split at hs
    · rename_i guard hchecking
      split at hs
      · cases hs
        exact .invalid (Or.inr hchecking) fun heq ↦ by cases heq
      · rename_i hgeneration
        cases hs
        exact .valid hchecking (by simpa using hgeneration)
    · cases hs

/-- **The step lemma.** -/
theorem Inv.step {s s' : GuardState} {e : GuardEvent} (h : s.Inv) (hs : Step e s s')
    (hok : s.Settled e) : s'.Inv := by
  have hknown := h.phase
  have hversion := h.version
  cases hs.transition with
  | store new hstoring =>
    rw [hstoring] at hversion
    exact ⟨h.generation, by simpa using hversion, hknown.store new⟩
  | increment hstoring =>
    rw [hstoring] at hversion
    refine ⟨?_, by simpa using hversion, hknown.increment⟩
    rw [h.generation]
    simp [BitVec.ofNat_add]
  | loadGeneration hphase =>
    rw [hphase] at hknown
    exact ⟨h.generation, h.version, hknown, h.generation, le_rfl⟩
  | loadBlockHash hphase =>
    rw [hphase] at hknown
    obtain ⟨hreads, hgen, hle⟩ := hknown
    refine ⟨h.generation, h.version, hgen, hle, ?_, le_rfl, fun _ ↦ rfl, rfl, ?_⟩
    · change s.guardSwaps ≤ s.inner.version
      omega
    · intro r hr
      rw [hreads] at hr
      exact absurd hr List.not_mem_nil
  | loadStale hphase =>
    rw [hphase] at hknown
    exact ⟨h.generation, h.version, { hknown with }⟩
  | read hphase =>
    rw [hphase] at hknown
    refine ⟨h.generation, h.version, ?_⟩
    simp only [hphase]
    exact { Pinned.read hknown with }
  | invalid _ hvalidity => exact ⟨h.generation, h.version, fun hv ↦ absurd hv hvalidity⟩
  | notStale hphase =>
    rw [hphase] at hknown
    exact ⟨h.generation, h.version, { hknown with }⟩
  | valid hphase hgeneration =>
    rw [hphase] at hknown
    have hserved := (Pinned.servedByOne_iff h hknown hgeneration hok.1).mpr hok.2
    exact ⟨h.generation, h.version, fun _ ↦ hserved⟩

end

/-- **A valid guard rules out a torn read** in every run in which the writer is settled when the
generation is compared. -/
theorem valid_servedByOne {snapshot : StateSnapshot} {s : GuardState} {guard : StateGuard}
    (h : Lts.Run Step Settled (initial snapshot) s) (hvalid : s.phase = .checked guard .valid) :
    s.ServedByOne guard := by
  have hphase := (h.invariant (fun _ _ _ hinv hs hok ↦ hinv.step hs hok)
    (initial_inv snapshot)).phase
  rw [hvalid] at hphase
  exact hphase rfl

end GuardState

end Guards

/-! ## A torn read under a valid guard -/

namespace GuardState

namespace Torn

open scoped Revm

def old : StateSnapshot := { block := 1, blockHash := 1 }

def new : StateSnapshot := { block := 2, blockHash := 2 }

def next : StateSnapshot := { block := 3, blockHash := 3 }

/-- A swap, then a guard, a read, the first half of another swap and the check. -/
def noticed : List GuardEvent :=
  [.store new, .increment, .loadGeneration, .loadBlockHash, .loadStale, .read, .store next,
    .checkStale, .checkGeneration]

/-- A guard, the first half of a swap, a read and the check. -/
def unnoticed : List GuardEvent :=
  [.loadGeneration, .loadBlockHash, .loadStale, .store new, .read, .checkStale, .checkGeneration]

/-- When the generation is compared, no swap has completed since the guard, and none has stored
before a read. -/
def settled (s : GuardState) : GuardEvent → Bool
  | .checkGeneration =>
    s.swaps == s.guardSwaps && s.reads.all fun r ↦ r.version != s.inner.version
  | _ => true

theorem settled_of_check {s : GuardState} {e : GuardEvent} (h : settled s e = true) :
    s.Settled e := by
  cases e with
  | checkGeneration =>
    rw [settled, Bool.and_eq_true, beq_iff_eq, List.all_eq_true] at h
    refine ⟨by rw [UInt64.size]; omega, fun _ ↦ Or.inr fun r hr ↦ ?_⟩
    exact bne_iff_ne.mp (h.2 r hr)
  | _ => trivial

/-- The state after the events. -/
def after (events : List GuardEvent) : GuardState :=
  (Lts.replay step Lts.anyCheck events (initial old)).getD (initial old)

end Torn

open scoped Revm in
open Torn in
/-- A guard taken after a swap, and checked in the middle of the next. -/
theorem valid_servedByOne_noticed :
    (after noticed).swaps = 1 ∧ (after noticed).storing = true ∧
      (after noticed).ServedByOne ⟨1, 2, false⟩ := by
  have hreplay : Lts.replay step settled noticed (initial old) = some (after noticed) := rfl
  exact ⟨rfl, rfl, valid_servedByOne (Lts.Run.of_replay hreplay fun _ _ ↦ settled_of_check) rfl⟩

open scoped Revm in
open Torn in
/-- **A torn read goes unnoticed.**  The guard recorded the hash `1`, the read was served from the
snapshot with the hash `2`, and the check says `Valid`. -/
theorem not_valid_servedByOne :
    Lts.Run Step Lts.anyEvent (initial old) (after unnoticed) ∧
      (after unnoticed).phase = .checked ⟨0, 1, false⟩ .valid ∧
      (after unnoticed).reads.map (fun r ↦ r.snapshot.blockHash) = [2] ∧
      ¬ (after unnoticed).ServedByOne ⟨0, 1, false⟩ := by
  have hreplay :
      Lts.replay step Lts.anyCheck unnoticed (initial old) = some (after unnoticed) := rfl
  refine ⟨Lts.Run.of_replay hreplay fun _ _ _ ↦ trivial, rfl, rfl, fun h ↦ ?_⟩
  have hread := h.2 _ List.mem_cons_self
  exact absurd (congrArg Cell.version hread) (by decide)

end GuardState

end RexSim
