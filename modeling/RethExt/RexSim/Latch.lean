import RethExt.RexSim.Provenance

/-!
# The staleness latch

A rejected notification and a revert close the latch: the snapshot is stale, and no read is served
from it.  A commit that is accepted opens it.  `Sys.Latched` says that nothing else does.

It does not hold of every run.  A reorg is validated as if the snapshot were not stale, and what
`buildReorgState` builds is not stale, so a reorg that is accepted opens the latch as well:
`latched_iff_of_run` says that the latch holds exactly in the runs without such a reorg.  What the
rounds of a run do to the latch can be read off the list of publications, because each round starts
from the snapshot the one before it has published (`Strung`).
-/

set_option autoImplicit false

namespace RexSim

section

variable [Revm]

variable {keccak256 : Bytes → B256}

/-! ## Rounds and staleness -/

/-- The snapshot is not initial or reverted, and its block is not one of the replaced chain. -/
structure Chain.Misses (old : Chain) (current : StateSnapshot) : Prop where
  block : current.block ≠ 0
  blockHash : current.blockHash ≠ 0
  tip : old.tip.hash ≠ current.blockHash
  blocks : ∀ b ∈ old.blocks, b.hash = current.blockHash → b.number ≠ current.block

/-- A reorg is rejected exactly when the chain it replaces misses the snapshot. -/
theorem reorgVerdict_eq_mismatch_iff {current : StateSnapshot} {old : Chain} :
    (reorgVerdict current old).isAcceptable = false ↔ old.Misses current := by
  have htip : (old.tip.info.hash == current.blockHash) = true ↔ old.tip.hash = current.blockHash :=
    beq_iff_eq
  have hany : (old.ids.any fun b ↦ b.1 == current.block && b.2 == current.blockHash) = true ↔
      ∃ b ∈ old.blocks, b.number = current.block ∧ b.hash = current.blockHash := by
    simp [Chain.ids]
  rw [reorgVerdict, validateChainReorged]
  constructor
  · intro h
    split at h
    · cases h
    · rename_i hinit
      split at h
      · cases h
      · rename_i hnot
        split at h
        · cases h
        · rename_i hscan
          obtain ⟨hblock, hhash⟩ := CurrentState.isInitial_eq_false.mp (by simpa using hinit)
          exact ⟨hblock, hhash, fun h ↦ hnot (htip.mpr h),
            fun b hb hh hn ↦ hscan (hany.mpr ⟨b, hb, hn, hh⟩)⟩
  · intro h
    rw [if_neg, if_neg, if_neg]
    · rfl
    · intro hscan
      obtain ⟨b, hb, hn, hh⟩ := hany.mp hscan
      exact h.blocks b hb hh hn
    · exact fun heq ↦ h.tip (htip.mp heq)
    · simpa using CurrentState.isInitial_eq_false.mpr ⟨h.block, h.blockHash⟩

namespace Publication

variable {p : Publication}

/-- A commit was accepted. -/
def Commits (p : Publication) : Prop := ∃ new, p.IsCommit new

/-- What a reorg that is accepted publishes is not stale. -/
theorem IsReorg.not_stale {old new : Chain} (h : p.IsReorg old new) :
    p.round.snapshot.stale = false := by
  rw [h.snapshot, buildReorgState_stale]

/-- **What opens the latch**: a round publishes a stale snapshot, unless it accepts a commit or a
reorg. -/
theorem stale_round (hcommit : ¬ p.Commits) (hreorg : ∀ old new, ¬ p.IsReorg old new) :
    p.round.snapshot.stale = true := by
  rw [round, handleNotification_snapshot]
  cases hn : p.notification with
  | chainCommitted new =>
    have hrejected : ¬ (commitVerdict p.current new).isAcceptable = true :=
      fun h ↦ hcommit ⟨new, hn, h⟩
    rw [nextSnapshot, if_neg hrejected]
    rfl
  | chainReorged old new =>
    rw [nextSnapshot, if_neg fun h ↦ hreorg old new ⟨hn, h⟩]
    rfl
  | chainReverted old => rfl

end Publication

/-! ## The rounds of a run -/

/-- The rounds follow each other: each starts from the snapshot the one before it publishes. -/
def Strung : StateSnapshot → List Publication → StateSnapshot → Prop
  | start, [], s => s = start
  | start, p :: ps, s => p.current = start ∧ Strung p.round.snapshot ps s

theorem strung_append {start s : StateSnapshot} {ps qs : List Publication} :
    Strung start (ps ++ qs) s ↔ ∃ t, Strung start ps t ∧ Strung t qs s := by
  induction ps generalizing start with
  | nil => simp [Strung]
  | cons p ps ih => simp [Strung, ih, and_assoc]

namespace Sys

variable {L : Ledger} {s s' : Sys keccak256} {e : Event keccak256}

/-- The rounds of a run follow each other from the initial snapshot to the current one. -/
structure Rounds (s : Sys keccak256) : Prop where
  strung : Strung {} s.published s.snapshot
  current : ∀ job, s.job = some job → job.current = s.snapshot

theorem rounds_new (fetch : FetchConfig) (tip : B256) : (new keccak256 fetch tip).Rounds where
  strung := rfl
  current _ h := by cases h

/-- **The step lemma.** -/
theorem Rounds.step (h : s.Rounds) (hs : Step L e s s') : s'.Rounds := by
  cases hs.transition with
  | recv =>
    refine { h with current := ?_ }
    rintro _ ⟨⟩
    rfl
  | @requestFlush job _ _ _ hjob | @handOver job _ _ hjob =>
    refine { h with current := ?_ }
    rintro _ ⟨⟩
    exact h.current job hjob
  | @publish job caches hjob hcaches =>
    exact ⟨strung_append.mpr ⟨s.snapshot, h.strung, h.current job hjob, rfl⟩, nofun⟩
  | _ => exact { h with }

theorem rounds_of_run {ok : Sys keccak256 → Event keccak256 → Prop} {fetch : FetchConfig}
    {tip : B256} (h : Lts.Run (Step L) ok (.new keccak256 fetch tip) s) : s.Rounds :=
  h.invariant (fun _ _ _ hinv hs _ ↦ hinv.step hs) (rounds_new fetch tip)

end Sys

/-! ## The latch -/

variable (keccak256) in
/-- **The latch**: from a stale snapshot on, up to the next commit that is accepted, every snapshot
that is published is stale, and each of the four reads fails on it. -/
def Latched (published : List Publication) : Prop :=
  ∀ before p after rest, published = before ++ p :: (after ++ rest) →
    p.round.snapshot.stale = true → (∀ q ∈ after, ¬ q.Commits) →
      ∀ q ∈ p :: after, q.round.snapshot.stale = true ∧
        ∀ k key, q.round.snapshot.readRef keccak256 k key = .ready (.error .staleState)

/-- No stale snapshot meets a reorg that would be accepted. -/
def Unreorged (published : List Publication) : Prop :=
  ∀ p ∈ published, p.current.stale = true → ∀ old new, p.notification = .chainReorged old new →
    old.Misses p.current

/-- **Rounds from a stale snapshot** publish stale ones, as long as nothing opens the latch. -/
theorem stale_of_strung {start s : StateSnapshot} {ps : List Publication}
    (h : Strung start ps s) (hstale : start.stale = true) (hcommit : ∀ p ∈ ps, ¬ p.Commits)
    (hreorg : Unreorged ps) : ∀ p ∈ ps, p.round.snapshot.stale = true := by
  induction ps generalizing start with
  | nil => exact nofun
  | cons p ps ih =>
    obtain ⟨rfl, h⟩ := h
    have hround : p.round.snapshot.stale = true := by
      refine Publication.stale_round (hcommit p List.mem_cons_self) fun old new hacc ↦ ?_
      have hmiss := hreorg p List.mem_cons_self hstale old new hacc.1
      rw [← reorgVerdict_eq_mismatch_iff, hacc.2] at hmiss
      cases hmiss
    refine List.forall_mem_cons.mpr ⟨hround, ih h hround ?_ ?_⟩
    · exact fun q hq ↦ hcommit q (List.mem_cons_of_mem _ hq)
    · exact fun q hq ↦ hreorg q (List.mem_cons_of_mem _ hq)

theorem Unreorged.latched {published : List Publication} {s : StateSnapshot}
    (hreorg : Unreorged published) (h : Strung {} published s) : Latched keccak256 published := by
  intro before p after rest heq hstale hcommit
  rw [heq, strung_append] at h
  obtain ⟨t, -, -, h⟩ := h
  obtain ⟨u, h, -⟩ := strung_append.mp h
  have hafter : ∀ q ∈ after, q.round.snapshot.stale = true := by
    refine stale_of_strung h hstale hcommit fun q hq ↦ hreorg q ?_
    rw [heq]
    exact List.mem_append_right _ (List.mem_cons_of_mem _ (List.mem_append_left _ hq))
  have hall : ∀ q ∈ p :: after, q.round.snapshot.stale = true :=
    List.forall_mem_cons.mpr ⟨hstale, hafter⟩
  exact fun q hq ↦ ⟨hall q hq, StateSnapshot.readRef_of_stale (hall q hq)⟩

/-- A round that starts from a stale snapshot has one before it that published it. -/
theorem exists_before_of_stale {s t : StateSnapshot} {before : List Publication}
    (h : Strung s before t) (hs : s.stale = false) (ht : t.stale = true) :
    ∃ before' p, before = before' ++ [p] ∧ p.round.snapshot = t := by
  rcases List.eq_nil_or_concat before with rfl | ⟨before', p, rfl⟩
  · rw [show t = s from h, hs] at ht
    cases ht
  · rw [List.concat_eq_append] at h ⊢
    obtain ⟨u, -, -, h⟩ := strung_append.mp h
    exact ⟨before', p, rfl, h.symm⟩

theorem Latched.unreorged {published : List Publication} {s : StateSnapshot}
    (hlatch : Latched keccak256 published) (h : Strung {} published s) : Unreorged published := by
  intro q hq hstale old new hn
  by_contra hmiss
  rw [← reorgVerdict_eq_mismatch_iff, Bool.not_eq_false] at hmiss
  have hreorg : q.IsReorg old new := ⟨hn, hmiss⟩
  obtain ⟨before, rest, rfl⟩ := List.append_of_mem hq
  obtain ⟨t, hbefore, rfl, -⟩ := strung_append.mp h
  obtain ⟨before', p, rfl, hp⟩ := exists_before_of_stale hbefore rfl hstale
  have hnot : ∀ q' ∈ [q], ¬ q'.Commits := by
    rintro q' hq' ⟨new', hcommit⟩
    rw [List.mem_singleton.mp hq', Publication.IsCommit, hn] at hcommit
    cases hcommit.1
  have hstale' := (hlatch before' p [q] rest (by simp) (hp ▸ hstale) hnot q (by simp)).1
  rw [hreorg.not_stale] at hstale'
  cases hstale'

/-- **When the latch holds**: in every run, exactly when no reorg is accepted on a stale
snapshot. -/
theorem latched_iff_of_run {L : Ledger} {ok : Sys keccak256 → Event keccak256 → Prop}
    {fetch : FetchConfig} {tip : B256} {s : Sys keccak256}
    (h : Lts.Run (Sys.Step L) ok (.new keccak256 fetch tip) s) :
    Latched keccak256 s.published ↔
      ∀ p ∈ s.published, p.current.stale = true →
        ∀ old new, p.notification = .chainReorged old new → old.Misses p.current :=
  ⟨fun hlatch ↦ hlatch.unreorged (Sys.rounds_of_run h).strung,
    fun hreorg ↦ Unreorged.latched hreorg (Sys.rounds_of_run h).strung⟩

end

namespace Reopened

open Branches

open scoped Revm

/-- The block `11` is committed and reverted; the commit of `21` is lost; a reorg goes back from
`21` to `11`. -/
def byReorg : List (Event keccak) :=
  .node (.chainCommitted a1) false :: round ++ .node (.chainReverted a1) false :: round ++
    .node (.chainCommitted b1) true :: .node (.chainReorged b1 a1) false :: round

/-- The block `11` is committed, reverted and committed again. -/
def byCommit : List (Event keccak) :=
  .node (.chainCommitted a1) false :: round ++ .node (.chainReverted a1) false :: round ++
    .node (.chainCommitted a1) false :: round

theorem isSome_replay_byReorg :
    (Lts.replay (Sys.step ledger) Lts.anyCheck byReorg start).isSome = true := by
  decide +kernel

def afterReorg : Sys keccak :=
  (Lts.replay (Sys.step ledger) Lts.anyCheck byReorg start).get isSome_replay_byReorg

theorem run_byReorg : Lts.Run (Sys.Step ledger) (Sys.Honest ledger) start afterReorg := by
  refine Sys.run_of_replay (Option.some_get isSome_replay_byReorg).symm ?_ fun _ _ _ h ↦ h
  change Sys.History keccak ledger 10 [.chainCommitted a1, .chainReverted a1, .chainCommitted b1,
    .chainReorged b1 a1]
  exact ⟨⟨onLedger_a1, Or.inl rfl⟩, ⟨onLedger_a1, rfl⟩, ⟨onLedger_b1, Or.inl rfl⟩,
    ⟨onLedger_b1, onLedger_a1, rfl, rfl⟩, trivial⟩

theorem isSome_replay_byCommit :
    (Lts.replay (Sys.step ledger) Lts.anyCheck byCommit start).isSome = true := by
  decide +kernel

def afterCommit : Sys keccak :=
  (Lts.replay (Sys.step ledger) Lts.anyCheck byCommit start).get isSome_replay_byCommit

theorem run_byCommit : Lts.Run (Sys.Step ledger) (Sys.Honest ledger) start afterCommit := by
  refine Sys.run_of_replay (Option.some_get isSome_replay_byCommit).symm ?_ fun _ _ _ h ↦ h
  change Sys.History keccak ledger 10 [.chainCommitted a1, .chainReverted a1, .chainCommitted a1]
  exact ⟨⟨onLedger_a1, Or.inl rfl⟩, ⟨onLedger_a1, rfl⟩, ⟨onLedger_a1, Or.inl rfl⟩, trivial⟩

/-- The notification of the publication is a reorg. -/
def reorgs (p : Publication) : Bool :=
  match p.notification with
  | .chainReorged _ _ => true
  | _ => false

/-- The notification of the publication is a commit. -/
def commits (p : Publication) : Bool :=
  match p.notification with
  | .chainCommitted _ => true
  | _ => false

theorem reorgs_of_eq {p : Publication} {old new : Chain}
    (h : p.notification = .chainReorged old new) : reorgs p = true := by
  rw [reorgs, h]

theorem commits_of_commits {p : Publication} (h : p.Commits) : commits p = true := by
  obtain ⟨new, h, -⟩ := h
  rw [commits, h]

end Reopened

open scoped Revm in
open Reopened Branches in
/-- A commit opens the latch. -/
theorem latched_iff_of_run_byCommit : Latched keccak afterCommit.published := by
  have hnone : ∀ p ∈ afterCommit.published, reorgs p = false := by decide +kernel
  refine (latched_iff_of_run run_byCommit).mpr fun p hp _ old new hn ↦ ?_
  have hreorg := reorgs_of_eq hn
  rw [hnone p hp] at hreorg
  cases hreorg

open scoped Revm in
open Reopened Branches in
/-- **A reorg opens the latch.**  The second round publishes a stale snapshot, no commit is
accepted after it, and the third round publishes a snapshot that is not stale. -/
theorem not_latched_byReorg :
    Lts.Run (Sys.Step ledger) (Sys.Honest ledger) (.new keccak {} 10) afterReorg ∧
      ¬ Latched keccak afterReorg.published := by
  refine ⟨run_byReorg, fun h ↦ ?_⟩
  obtain ⟨p₁, p₂, p₃, hps⟩ : ∃ p₁ p₂ p₃, afterReorg.published = [p₁, p₂, p₃] :=
    List.length_eq_three.mp (by decide +kernel)
  have hstale : afterReorg.published.map (fun p ↦ (p.round.snapshot.stale, commits p)) =
      [(false, true), (true, false), (false, false)] := by decide +kernel
  rw [hps] at h hstale
  simp only [List.map_cons, List.map_nil, List.cons.injEq, Prod.mk.injEq, and_true] at hstale
  have hnot : ∀ q ∈ [p₃], ¬ q.Commits := by
    rintro q hq hcommits
    rw [List.mem_singleton.mp hq] at hcommits
    have hnone := commits_of_commits hcommits
    simp [hstale] at hnone
  have hlast := (h [p₁] p₂ [p₃] [] rfl hstale.2.1.1 hnot p₃ (by simp)).1
  rw [hstale.2.2.1] at hlast
  cases hlast

end RexSim
