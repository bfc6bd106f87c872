import RethExt.RexSim.Readers
import RethExt.RexSim.Provenance

/-!
# What the client holds

The client fetches lazily: an account or a slot gets into the snapshot through a read alone, by way
of a manager's cache, a flush and the merge.  A chain's diff only overwrites what is held, so the
snapshot does not grow with the chain.  The blocks and the contracts of the chains that were applied
are the exception: these are kept whether a reader asks for them or not.
-/

set_option autoImplicit false

open Std

namespace RexSim

theorem size_le_length_of_forall_mem {K V : Type} [Ord K] [TransOrd K] [LawfulEqOrd K]
    {m : HashMap K V} {ks : List K} (h : ∀ k v, m[k]? = some v → k ∈ ks) : m.size ≤ ks.length := by
  have hnodup : m.keys.Nodup := by
    simpa [List.Nodup] using m.distinct_keys
  have hsubset : m.keys ⊆ ks := by
    intro k hk
    rw [ExtTreeMap.mem_keys] at hk
    exact h k m[k] (ExtTreeMap.getElem?_eq_some_getElem hk)
  rw [← ExtTreeMap.length_keys]
  exact (hnodup.subperm hsubset).length_le

section

variable [Revm] {keccak256 : Bytes → B256}

/-! ## One round -/

/-- The chain that a notification brings, when it is applied. -/
def ExExNotification.brought (current : StateSnapshot) : ExExNotification → Option Chain
  | .chainCommitted new => if (commitVerdict current new).isAcceptable then some new else none
  | .chainReorged old new => if (reorgVerdict current old).isAcceptable then some new else none
  | .chainReverted _ => none

/-- The keys that were asked for, of each kind. -/
abbrev Keys (keccak256 : Bytes → B256) := (k : FetchKind) → List (spec keccak256 k).Key

/-- **The footprint**: every key that is held was asked for, or is one of the blocks or of the
contracts of a chain. -/
structure StateSnapshot.Within (asked : Keys keccak256) (news : List Chain) (s : StateSnapshot) :
    Prop where
  accounts : ∀ a info, s.accounts[a]? = some info → a ∈ asked .account
  storage : ∀ key value, s.storage[key]? = some value → key ∈ asked .storage
  blockHashes : ∀ n hash, s.blockHashes[n]? = some hash →
    n ∈ asked .blockHash ∨ ∃ new ∈ news, ∃ b ∈ new.blocks, b.number = n ∧ b.hash = hash
  code : ∀ h code, s.code[h]? = some code → h ∈ asked .code ∨
    ∃ new ∈ news, (extractExecutionChanges new).contracts[h]? = some code

/-- The keys of the caches were asked for. -/
structure Caches.Within (asked : Keys keccak256) (caches : Caches) : Prop where
  keys : ∀ k key value, (cacheData k (caches.cache keccak256 k))[key]? = some value → key ∈ asked k

namespace StateSnapshot.Within

variable {asked asked' : Keys keccak256} {news news' : List Chain} {s : StateSnapshot}

theorem mono (h : s.Within asked news) (hasked : ∀ k, asked k ⊆ asked' k) (hnews : news ⊆ news') :
    s.Within asked' news' where
  accounts a info ha := hasked .account (h.accounts a info ha)
  storage key value hkey := hasked .storage (h.storage key value hkey)
  blockHashes n hash hn := by
    rcases h.blockHashes n hash hn with hn | ⟨new, hnew, hb⟩
    · exact Or.inl (hasked .blockHash hn)
    · exact Or.inr ⟨new, hnews hnew, hb⟩
  code hash code hcode := by
    rcases h.code hash code hcode with hcode | ⟨new, hnew, hcontract⟩
    · exact Or.inl (hasked .code hcode)
    · exact Or.inr ⟨new, hnews hnew, hcontract⟩

/-- The blocks of a chain are recorded over what was held. -/
theorem blocks_of_lastHash {held : Option B256} {new : Chain} {n : ℕ} {hash : B256}
    (h : (lastHash (extractBlockData new) n).or held = some hash) :
    (∃ b ∈ new.blocks, b.number = n ∧ b.hash = hash) ∨ held = some hash := by
  rcases Option.or_eq_some_iff.mp h with h | ⟨-, h⟩
  · obtain ⟨_, hdata, hnumber, hhash⟩ := exists_of_lastHash_eq_some h
    obtain ⟨b, hb, rfl⟩ := List.mem_map.mp hdata
    exact Or.inl ⟨b, hb, hnumber, hhash⟩
  · exact Or.inr h

theorem commit (h : s.Within asked news) {caches : Caches} (hcaches : caches.Within asked)
    (new : Chain) :
    (buildCommitState s caches (extractExecutionChanges new) (extractBlockData new)
      new.chainTip).1.Within asked (news ++ [new]) where
  accounts a info ha := by
    rw [buildCommitState_accounts] at ha
    obtain ⟨held, hheld, -⟩ := Option.map_eq_some_iff.mp ha
    exact TaggedCache.of_mergeInto (P := fun a _ ↦ a ∈ asked .account)
      (fun a info htakes ↦ hcaches.keys .account a info htakes.2) h.accounts hheld
  storage key value hkey := by
    rw [buildCommitState_storage] at hkey
    obtain ⟨held, hheld, -⟩ := Option.map_eq_some_iff.mp hkey
    exact TaggedCache.of_mergeInto (P := fun key _ ↦ key ∈ asked .storage)
      (fun key value htakes ↦ hcaches.keys .storage key value htakes.2) h.storage hheld
  blockHashes n hash hn := by
    rw [buildCommitState_blockHashes] at hn
    rcases blocks_of_lastHash hn with hb | hheld
    · exact Or.inr ⟨new, by simp, hb⟩
    · rcases TaggedCache.getElem?_mergeInto_iff.mp hheld with htakes | ⟨-, hheld⟩
      · exact Or.inl (hcaches.keys .blockHash n hash htakes.2)
      · exact (h.mono (fun _ ↦ List.Subset.refl _)
          (List.subset_append_left news [new])).blockHashes n hash hheld
  code hash code hcode := by
    rw [buildCommitState_code] at hcode
    rcases Option.or_eq_some_iff.mp hcode with hcode | ⟨-, hcode⟩
    · exact Or.inr ⟨new, by simp, hcode⟩
    · rcases Option.or_eq_some_iff.mp hcode with hcode | ⟨-, hcode⟩
      · exact Or.inl (hcaches.keys .code hash code hcode)
      · exact (h.mono (fun _ ↦ List.Subset.refl _)
          (List.subset_append_left news [new])).code hash code hcode

theorem reorg (h : s.Within asked news) (old new : Chain) :
    (buildReorgState s old.commonAncestor (extractExecutionChanges new) (extractBlockData new)
      new.chainTip).Within asked (news ++ [new]) where
  accounts a info ha := by
    rw [buildReorgState_accounts] at ha
    exact absurd ha getElem?_empty_ne
  storage key value hkey := by
    rw [buildReorgState_storage] at hkey
    exact absurd hkey getElem?_empty_ne
  blockHashes n hash hn := by
    rw [buildReorgState_blockHashes] at hn
    rcases blocks_of_lastHash hn with hb | hheld
    · exact Or.inr ⟨new, by simp, hb⟩
    · split at hheld
      · exact (h.mono (fun _ ↦ List.Subset.refl _)
          (List.subset_append_left news [new])).blockHashes n hash hheld
      · simp at hheld
  code hash code hcode := by
    rw [buildReorgState_code] at hcode
    rcases Option.or_eq_some_iff.mp hcode with hcode | ⟨-, hcode⟩
    · exact Or.inr ⟨new, by simp, hcode⟩
    · exact (h.mono (fun _ ↦ List.Subset.refl _)
        (List.subset_append_left news [new])).code hash code hcode

theorem revert (h : s.Within asked news) (commonAncestor : ℕ) :
    (buildRevertState s commonAncestor).Within asked news where
  accounts a info ha := absurd ha getElem?_empty_ne
  storage key value hkey := absurd hkey getElem?_empty_ne
  blockHashes n hash hn := by
    rw [buildRevertState_blockHashes] at hn
    split at hn
    · exact h.blockHashes n hash hn
    · simp at hn
  code := h.code

theorem stale (h : s.Within asked news) : (markStale s).Within asked news :=
  ⟨h.accounts, h.storage, h.blockHashes, h.code⟩

/-- **The round lemma.** -/
theorem next (h : s.Within asked news) {caches : Caches} (hcaches : caches.Within asked)
    (n : ExExNotification) :
    (nextSnapshot s caches n).Within asked (news ++ (n.brought s).toList) := by
  by_cases haccepted : n.isAccepted s = true
  · cases n with
    | chainCommitted new =>
      replace haccepted : (commitVerdict s new).isAcceptable = true := haccepted
      rw [nextSnapshot_committed caches haccepted, ExExNotification.brought, if_pos haccepted]
      exact h.commit hcaches new
    | chainReorged old new =>
      replace haccepted : (reorgVerdict s old).isAcceptable = true := haccepted
      rw [nextSnapshot_reorged caches haccepted, ExExNotification.brought, if_pos haccepted]
      exact h.reorg old new
    | chainReverted old =>
      rw [nextSnapshot, ExExNotification.brought, Option.toList_none, List.append_nil]
      exact h.revert old.commonAncestor
  · rw [nextSnapshot_of_not_accepted caches (Bool.eq_false_of_not_eq_true haccepted)]
    exact (h.mono (fun _ ↦ List.Subset.refl _) (List.subset_append_left news _)).stale

end StateSnapshot.Within

/-! ## The runs -/

/-- The key of a read, if it is of this kind. -/
def ReadCall.keyOf (k : FetchKind) (read : ReadCall keccak256) : Option (spec keccak256 k).Key :=
  if h : read.kind = k then some (h ▸ read.key) else none

namespace Sys

variable {L : Ledger} {s s' : Sys keccak256} {e : Event keccak256}

/-- The reads that readers have begun. -/
def begun (s : Sys keccak256) : List (ReadCall keccak256) := s.loaded ++ s.reads

def asked (s : Sys keccak256) : Keys keccak256 := fun k ↦ s.begun.filterMap (ReadCall.keyOf k)

/-- The chains that were applied. -/
def news (s : Sys keccak256) : List Chain :=
  s.published.filterMap fun p ↦ p.notification.brought p.current

theorem mem_asked {read : ReadCall keccak256} (h : read ∈ s.begun) :
    read.key ∈ s.asked read.kind :=
  List.mem_filterMap.mpr ⟨read, h, by simp [ReadCall.keyOf]⟩

/-- Every read is of one kind. -/
theorem length_asked_le (s : Sys keccak256) :
    (s.asked .account).length + (s.asked .storage).length ≤ s.begun.length := by
  rw [asked, asked]
  induction s.begun with
  | nil => exact Nat.le_refl _
  | cons read rest ih =>
    obtain ⟨k, key, snapshot⟩ := read
    cases k <;> simp [ReadCall.keyOf] <;> omega

/-- A read that was begun stays so. -/
theorem Step.begun_subset (hs : Step L e s s') : s.begun ⊆ s'.begun := by
  have hmoved : ∀ {i : ℕ} {read : ReadCall keccak256}, s.loaded[i]? = some read →
      s.begun ⊆ s.loaded.eraseIdx i ++ (s.reads ++ [read]) := by
    intro i read hread other hother
    obtain ⟨hi, rfl⟩ := List.getElem?_eq_some_iff.mp hread
    rcases List.mem_append.mp hother with hother | hother
    · rcases List.mem_cons.mp ((List.getElem_cons_eraseIdx_perm hi).mem_iff.mpr hother) with
        rfl | hother
      · simp
      · exact List.mem_append_left _ hother
    · simp [hother]
  cases hs.transition with
  | load k key =>
    intro read hread
    simp only [begun, List.mem_append] at hread ⊢
    exact hread.imp_left Or.inl
  | served hread | sent hread => exact hmoved hread
  | _ => exact List.Subset.refl _

theorem Step.asked_subset (hs : Step L e s s') (k : FetchKind) : s.asked k ⊆ s'.asked k := by
  intro key hkey
  obtain ⟨read, hread, hof⟩ := List.mem_filterMap.mp hkey
  exact List.mem_filterMap.mpr ⟨read, hs.begun_subset hread, hof⟩

/-- The manager was asked for no key but these, and has cached what was fetched. -/
def Limited (asked : Keys keccak256) (k : FetchKind) (m : FetchManager (spec keccak256 k)) : Prop :=
  m.Grounded ∧ m.Asks fun req ↦ (spec keccak256 k).key req ∈ asked k

theorem Limited.mono {asked asked' : Keys keccak256} (hasked : ∀ k, asked k ⊆ asked' k)
    {k : FetchKind} {m : FetchManager (spec keccak256 k)} (h : Limited asked k m) :
    Limited asked' k m where
  left := h.1
  right := {
    fetchRx := fun msg hmsg ↦ hasked k (h.2.fetchRx msg hmsg)
    phase := fun msg hmsg ↦ hasked k (h.2.phase msg hmsg)
    task := fun t ht ↦ hasked k (h.2.task t ht)
    completion := fun d hd ↦ hasked k (h.2.completion d hd)
    processed := fun d hd ↦ hasked k (h.2.processed d hd) }

/-- What a limited manager hands over was asked for. -/
theorem Limited.flushed {asked : Keys keccak256} {k : FetchKind}
    {m : FetchManager (spec keccak256 k)} (h : Limited asked k m) {key : (spec keccak256 k).Key}
    {value : (spec keccak256 k).Val} (hvalue : (cacheData k m.flushed)[key]? = some value) :
    key ∈ asked k := by
  rw [cacheData_flushed] at hvalue
  obtain ⟨d, hd, rfl, -⟩ := h.1.cached key value hvalue
  exact h.2.processed d hd

theorem limited_step (h : ∀ k, Limited s.asked k (s.layer.managers k)) (hs : Step L e s s') :
    ∀ k, Limited s'.asked k (s'.layer.managers k) := by
  refine hs.preserves (P := Limited s'.asked) (fun k _ _ _ h hm _ hsend ↦ ?_)
    (fun _ _ h ↦ ⟨{ h.1 with }, { h.2 with }⟩) fun k ↦ (h k).mono hs.asked_subset
  refine ⟨h.1.step hm, h.2.step hm fun req he ↦ ?_⟩
  cases hsend req he with
  | @intro read _ hread houtcome =>
    rw [(StateSnapshot.readRef_eq_fetch houtcome).1]
    exact mem_asked (hs.begun_subset (List.mem_append_left _ hread))

/-- What is kept of the managers, of the round and of the snapshot. -/
structure Footed (s : Sys keccak256) : Prop where
  managers : ∀ k, Limited s.asked k (s.layer.managers k)
  current : ∀ job, s.job = some job → job.current = s.snapshot
  handed : ∀ job, s.job = some job → ∀ k cache, job.handed k = some cache →
    ∀ key value, (cacheData k cache)[key]? = some value → key ∈ s.asked k
  snapshot : s.snapshot.Within s.asked s.news

theorem footed_new (fetch : FetchConfig) (tip : B256) : (new keccak256 fetch tip).Footed where
  managers _ := ⟨FetchManager.grounded_new _ _ fetch, FetchManager.asks_new _ _ fetch⟩
  current _ h := by cases h
  handed _ h := by cases h
  snapshot := ⟨fun _ _ h ↦ absurd h getElem?_empty_ne, fun _ _ h ↦ absurd h getElem?_empty_ne,
    fun _ _ h ↦ absurd h getElem?_empty_ne, fun _ _ h ↦ absurd h getElem?_empty_ne⟩

/-- **The step lemma.** -/
theorem Footed.step (h : s.Footed) (hs : Step L e s s') : s'.Footed where
  managers := limited_step h.managers hs
  current := by
    cases hs.transition with
    | recv => rintro _ ⟨⟩; rfl
    | @requestFlush job _ _ _ hjob | @handOver job _ _ hjob => rintro _ ⟨⟩; exact h.current job hjob
    | publish => exact nofun
    | _ => exact h.current
  handed := by
    have hold : ∀ job, s.job = some job → ∀ k cache, job.handed k = some cache →
        ∀ key value, (cacheData k cache)[key]? = some value → key ∈ s'.asked k :=
      fun job hjob k cache hcache key value hvalue ↦
        hs.asked_subset k (h.handed job hjob k cache hcache key value hvalue)
    cases hs.transition with
    | recv => rintro _ ⟨⟩ k cache ⟨⟩
    | @requestFlush job _ _ _ hjob => rintro _ ⟨⟩; exact hold job hjob
    | @handOver job k _ hjob =>
      rintro _ ⟨⟩ k' cache hcache key value hvalue
      change Function.update job.handed k _ k' = some cache at hcache
      by_cases hkk : k' = k
      · subst hkk
        rw [Function.update_self, Option.some.injEq] at hcache
        subst hcache
        exact hs.asked_subset k' ((h.managers k').flushed hvalue)
      · rw [Function.update_of_ne hkk] at hcache
        exact hold job hjob k' cache hcache key value hvalue
    | publish => exact nofun
    | _ => exact hold
  snapshot := by
    have hold : s.snapshot.Within s'.asked s.news :=
      h.snapshot.mono hs.asked_subset (List.Subset.refl _)
    cases hs.transition with
    | @publish job caches hjob hcaches =>
      have hwithin : caches.Within s.asked := ⟨fun k key value hvalue ↦
        h.handed job hjob k _ (Job.handed_of_caches hcaches k) key value hvalue⟩
      have hnext := h.snapshot.next hwithin job.notification
      rw [← h.current job hjob] at hnext
      have hnews : (s.publish (s.publication job caches)).news =
          s.news ++ (job.notification.brought job.current).toList := by
        rw [news, publish, List.filterMap_append]
        cases hbrought : job.notification.brought job.current <;>
          simp [publication, news, hbrought]
      rw [hnews]
      change (Publication.round _).snapshot.Within _ _
      rw [Publication.round, handleNotification_snapshot]
      exact hnext.mono hs.asked_subset (List.Subset.refl _)
    | _ => exact hold

/-- **What the client holds.** -/
structure Footprint (s : Sys keccak256) : Prop where
  /-- Every account, slot, hash and code that is held was asked for by a reader, but for the blocks
  and the contracts of the chains that were applied. -/
  within : s.snapshot.Within s.asked s.news
  /-- There are at most as many accounts and slots as reads. -/
  size : s.snapshot.accounts.size + s.snapshot.storage.size ≤ s.begun.length

theorem Footed.footprint (h : s.Footed) : s.Footprint where
  within := h.snapshot
  size :=
    (Nat.add_le_add (size_le_length_of_forall_mem h.snapshot.accounts)
      (size_le_length_of_forall_mem h.snapshot.storage)).trans s.length_asked_le

end Sys

/-- **The client holds what was asked for**, in every run: whatever the node's chain does, its
accounts and slots are no more than the reads. -/
theorem Sys.footprint_of_run {L : Ledger} {fetch : FetchConfig} {tip : B256} {s : Sys keccak256}
    (h : Lts.Run (Sys.Step L) Lts.anyEvent (.new keccak256 fetch tip) s) : s.Footprint :=
  Sys.Footed.footprint <|
    h.invariant (fun _ _ _ (hinv : Sys.Footed _) hs _ ↦ hinv.step hs) (Sys.footed_new fetch tip)

end

namespace Lazily

open Branches

open scoped Revm

/-- A slot is read and merged; the chain goes on to a block that writes it. -/
def events : List (Event keccak) :=
  .node (.chainCommitted a1) false :: round ++ readSlot ++ answerSlot 1 ++
    .node (.chainCommitted a2) false :: round ++ .node (.chainCommitted a3) false :: round

def view (s : Sys keccak) : Option U256 × ℕ × ℕ × ℕ :=
  (s.snapshot.storage[((7, 0) : SlotKey)]?, s.snapshot.accounts.size, s.snapshot.storage.size,
    s.snapshot.blockHashes.size)

theorem view_replay : (Lts.replay (Sys.step ledger) Lts.anyCheck events start).map view =
    some (some 6, 0, 1, 3) := by
  decide +kernel

end Lazily

open scoped Revm in
open Lazily Branches in
/-- One slot is held after three blocks. -/
theorem Sys.footprint_of_run_lazily :
    ∃ s : Sys keccak, view s = (some 6, 0, 1, 3) ∧ s.Footprint := by
  obtain ⟨s, hs, hview⟩ := Option.map_eq_some_iff.mp view_replay
  exact ⟨s, hview, Sys.footprint_of_run (.of_replay hs fun _ _ _ ↦ trivial)⟩

end RexSim
