import RethExt.RexSim.System
import RethExt.RexSim.Ancestry

/-!
# Where merged entries come from

`Sys.Fed` holds in every run: every entry of a cache that was handed over is the result of a
completed fetch, and the request of the fetch bore the tag of the cache.  So what a commit merges
was fetched at the block the snapshot it starts from stands on.

Whether that block is one the committed chain starts from is another matter.  A `Valid` commit
connects to the snapshot, but an initial, stale or reverted one takes any chain, and its own hash is
still what the tags are compared with.  `mergedFromBase_iff` says when nothing else is merged.
-/

set_option autoImplicit false

open Std

namespace RexSim

namespace Sys

variable [Revm] {keccak256 : Bytes → B256} {L : Ledger} {s s' : Sys keccak256} {e : Event keccak256}

/-! ## What is asked -/

/-- Every request that was sent, or is about to be, satisfies `P`. -/
structure Asks (P : (k : FetchKind) → (spec keccak256 k).Req → Prop) (s : Sys keccak256) :
    Prop where
  managers : ∀ k, k ≠ .code → (s.layer.managers k).Asks (P k)
  loaded : ∀ read ∈ s.loaded, ∀ req, read.outcome = .fetch req → P read.kind req

variable {P : (k : FetchKind) → (spec keccak256 k).Req → Prop}

theorem asks_new (P : (k : FetchKind) → (spec keccak256 k).Req → Prop) (fetch : FetchConfig)
    (tip : B256) : (new keccak256 fetch tip).Asks P where
  managers _ _ := FetchManager.asks_new _ _ fetch
  loaded _ h := absurd h List.not_mem_nil

/-- **The step lemma.**  A step asks for nothing but what is loaded. -/
theorem Asks.step (h : s.Asks P) (hs : Step L e s s')
    (hload : ∀ k key, e = .load k key → ∀ req, s.snapshot.readRef keccak256 k key = .fetch req →
      P k req) : s'.Asks P where
  managers k hk := by
    rcases hs.manager hk with heq | ⟨e', hstep, -, hsend⟩
    · rw [heq]
      exact h.managers k hk
    · refine (h.managers k hk).step hstep fun req he ↦ ?_
      cases hsend req he with
      | intro hread houtcome => exact h.loaded _ hread _ houtcome
  loaded := by
    cases hs.transition with
    | served | sent => exact fun read hread ↦ h.loaded read (List.mem_of_mem_eraseIdx hread)
    | load k key =>
      intro read hread
      rcases List.mem_append.mp hread with hread | hread
      · exact h.loaded read hread
      · rw [List.mem_singleton.mp hread]
        exact hload k key rfl
    | _ => exact h.loaded

/-! ## What is fetched -/

/-- The entry is the result of a completed fetch for the key, whose request bore the tag. -/
def Fetched (s : Sys keccak256) (k : FetchKind) (tag : B256) (key : (spec keccak256 k).Key)
    (value : (spec keccak256 k).Val) : Prop :=
  ∃ d ∈ (s.layer.managers k).processed, (spec keccak256 k).tag d.request = some tag ∧
    (spec keccak256 k).key d.request = key ∧ d.stored = some value

/-- Every entry of the cache was fetched under its tag. -/
def FedBy (s : Sys keccak256) (k : FetchKind) (cache : (spec keccak256 k).Cache) : Prop :=
  ∀ key value, (cacheData k cache)[key]? = some value → s.Fetched k (cacheTag k cache) key value

structure Fed (s : Sys keccak256) : Prop where
  isolated : ∀ k, k ≠ .code → (s.layer.managers k).Isolated
  current : ∀ job, s.job = some job → job.current = s.snapshot
  handed : ∀ job, s.job = some job → ∀ k, k ≠ .code → ∀ cache, job.handed k = some cache →
    s.FedBy k cache
  published : ∀ p ∈ s.published, ∀ k, k ≠ .code → s.FedBy k (p.caches.cache keccak256 k)

theorem fed_new (fetch : FetchConfig) (tip : B256) : (new keccak256 fetch tip).Fed where
  isolated _ _ := FetchManager.isolated_new _ _ fetch
  current _ h := by cases h
  handed _ h := by cases h
  published _ h := absurd h List.not_mem_nil

/-- A completed fetch stays completed. -/
theorem FedBy.step {k : FetchKind} (hk : k ≠ .code) (hs : Step L e s s')
    {cache : (spec keccak256 k).Cache} (h : s.FedBy k cache) : s'.FedBy k cache := by
  intro key value hvalue
  obtain ⟨d, hd, hfetched⟩ := h key value hvalue
  rcases hs.manager hk with heq | ⟨e', hstep, -⟩
  · exact ⟨d, by rwa [heq], hfetched⟩
  · exact ⟨d, hstep.transition.processed_subset hd, hfetched⟩

/-- What an isolated manager hands over was fetched. -/
theorem fedBy_flushed {k : FetchKind} (hk : k ≠ .code) (h : (s.layer.managers k).Isolated) :
    s.FedBy k (s.layer.managers k).flushed := by
  intro key value hvalue
  rw [cacheData_flushed] at hvalue
  rw [cacheTag_flushed hk]
  obtain ⟨d, hd, hepoch, hkey, hstored⟩ := h.cached key value hvalue
  exact ⟨d, hd, (h.processed d hd).1.2 hepoch, hkey, hstored⟩

/-- **The step lemma.** -/
theorem Fed.step (h : s.Fed) (hs : Step L e s s') : s'.Fed where
  isolated k hk := by
    rcases hs.manager hk with heq | ⟨e', hstep, -⟩
    · rw [heq]
      exact h.isolated k hk
    · exact (h.isolated k hk).step (epochGuarded_spec keccak256 hk) hstep
  current := by
    cases hs.transition with
    | recv => rintro _ ⟨⟩; rfl
    | @requestFlush job _ _ _ hjob | @handOver job _ _ hjob => rintro _ ⟨⟩; exact h.current job hjob
    | publish => exact nofun
    | _ => exact h.current
  handed := by
    have hold : ∀ job, s.job = some job → ∀ k, k ≠ .code → ∀ cache, job.handed k = some cache →
        s'.FedBy k cache :=
      fun job hjob k hk cache hcache ↦ (h.handed job hjob k hk cache hcache).step hk hs
    cases hs.transition with
    | recv => rintro _ ⟨⟩ k _ cache ⟨⟩
    | @requestFlush job _ _ _ hjob => rintro _ ⟨⟩; exact hold job hjob
    | @handOver job k _ hjob =>
      rintro _ ⟨⟩ k' hk' cache hcache
      change Function.update job.handed k _ k' = some cache at hcache
      by_cases hkk : k' = k
      · subst hkk
        rw [Function.update_self, Option.some.injEq] at hcache
        subst hcache
        exact (fedBy_flushed hk' (h.isolated k' hk')).step hk' hs
      · rw [Function.update_of_ne hkk] at hcache
        exact hold job hjob k' hk' cache hcache
    | publish => exact nofun
    | _ => exact hold
  published := by
    have hold : ∀ p ∈ s.published, ∀ k, k ≠ .code → s'.FedBy k (p.caches.cache keccak256 k) :=
      fun p hp k hk ↦ (h.published p hp k hk).step hk hs
    cases hs.transition with
    | publish hjob hcaches =>
      intro p hp k hk
      rcases List.mem_append.mp hp with hp | hp
      · exact hold p hp k hk
      · rw [List.mem_singleton.mp hp]
        exact (h.handed _ hjob k hk _ (Job.handed_of_caches hcaches k)).step hk hs
    | _ => exact hold

/-- **Provenance.**  In every run, whatever a manager hands over was fetched under its tag. -/
theorem fed_of_run {ok : Sys keccak256 → Event keccak256 → Prop} {fetch : FetchConfig} {tip : B256}
    (h : Lts.Run (Step L) ok (.new keccak256 fetch tip) s) : s.Fed :=
  h.invariant (fun _ _ _ hinv hs _ ↦ hinv.step hs) (fed_new fetch tip)

/-- An entry that was fetched is right for its tag, if the manager is sound. -/
theorem Fetched.right {k : FetchKind} (hk : k ≠ .code) (hright : s.layer.RightAt L k) {tag : B256}
    {key : (spec keccak256 k).Key} {value : (spec keccak256 k).Val}
    (h : s.Fetched k tag key value) :
    L.Right keccak256 tag k key ((spec keccak256 k).hit value) := by
  obtain ⟨d, hd, htag, rfl, hstored⟩ := h
  obtain ⟨resp, hresp, hstore⟩ := FetchDone.exists_of_stored hstored
  rw [(epochGuarded_spec keccak256 hk).hit_of_store resp value hstore]
  exact hright.sound.processed d hd tag htag resp hresp

/-- An entry that was fetched was asked for. -/
theorem Fetched.asked {P : (k : FetchKind) → (spec keccak256 k).Req → Prop} {k : FetchKind}
    (hk : k ≠ .code) (hasks : s.Asks P) {tag : B256} {key : (spec keccak256 k).Key}
    {value : (spec keccak256 k).Val} (h : s.Fetched k tag key value) :
    ∃ req, P k req ∧ (spec keccak256 k).tag req = some tag ∧ (spec keccak256 k).key req = key := by
  obtain ⟨d, hd, htag, hkey, -⟩ := h
  exact ⟨d.request, (hasks.managers k hk).processed d hd, htag, hkey⟩

end Sys

/-! ## What is merged -/

section Takes

/-- The entries that are taken from a cache: all of them, if it is valid. -/
def TaggedCache.Takes {K V : Type} [Ord K] [TransOrd K] (c : TaggedCache K V) (currentHash : B256)
    (k : K) (v : V) : Prop :=
  c.isValidFor currentHash = true ∧ c.data[k]? = some v

variable {K V : Type} [Ord K] [TransOrd K] {c : TaggedCache K V} {held : HashMap K V}
  {currentHash : B256} {k : K} {v : V}

/-- **The merge**: an entry that is taken replaces what was held. -/
theorem TaggedCache.getElem?_mergeInto_iff :
    (c.mergeInto held currentHash)[k]? = some v ↔
      c.Takes currentHash k v ∨ (∀ w, ¬ c.Takes currentHash k w) ∧ held[k]? = some v := by
  rw [mergeInto]
  by_cases hvalid : c.isValidFor currentHash = true
  · rw [if_pos hvalid, ExtTreeMap.getElem?_union, Option.or_eq_some_iff]
    simp [Takes, hvalid, Option.eq_none_iff_forall_ne_some]
  · rw [if_neg hvalid]
    simp [Takes, hvalid]

/-- What holds of the entries that are taken and of those that were held holds after the merge. -/
theorem TaggedCache.of_mergeInto {P : K → V → Prop}
    (htakes : ∀ k v, c.Takes currentHash k v → P k v) (hheld : ∀ k v, held[k]? = some v → P k v)
    (h : (c.mergeInto held currentHash)[k]? = some v) : P k v := by
  rcases getElem?_mergeInto_iff.mp h with h | ⟨-, h⟩
  · exact htakes k v h
  · exact hheld k v h

/-- Nothing comes of nothing held and nothing taken. -/
theorem TaggedCache.mergeInto_eq_empty [LawfulEqOrd K] (h : ∀ k v, ¬ c.Takes currentHash k v) :
    c.mergeInto ∅ currentHash = ∅ := by
  refine ExtTreeMap.ext_getElem? fun k ↦ ?_
  rw [ExtTreeMap.getElem?_empty, Option.eq_none_iff_forall_ne_some]
  exact fun v ↦ of_mergeInto h (fun k v hheld ↦ by simp at hheld)

/-- An entry is only taken under the hash that was asked for. -/
theorem TaggedCache.Takes.tag (h : c.Takes currentHash k v) : c.blockHash = currentHash := by
  obtain ⟨hvalid, hk⟩ := h
  rw [isValidFor, Bool.or_eq_true, beq_iff_eq] at hvalid
  refine hvalid.resolve_left fun hempty ↦ ?_
  rw [ExtTreeMap.isEmpty_iff] at hempty
  rw [hempty, ExtTreeMap.getElem?_empty] at hk
  cases hk

end Takes

section

variable [Revm] {keccak256 : Bytes → B256}

/-- The entries `mergeCaches` takes, by kind; those of code have no tag. -/
def Caches.Takes (caches : Caches) (currentHash : B256) :
    (k : FetchKind) → (spec keccak256 k).Key → (spec keccak256 k).Val → Prop
  | .account, address, info => caches.accounts.Takes currentHash address info
  | .code, _, _ => False
  | .storage, key, value => caches.storage.Takes currentHash key value
  | .blockHash, number, hash => caches.blockHashes.Takes currentHash number hash

theorem Caches.Takes.data {caches : Caches} {currentHash : B256} {k : FetchKind}
    {key : (spec keccak256 k).Key} {value : (spec keccak256 k).Val}
    (h : caches.Takes currentHash k key value) :
    (cacheData k (caches.cache keccak256 k))[key]? = some value := by
  cases k with
  | code => exact h.elim
  | _ => exact h.2

theorem Caches.Takes.tag {caches : Caches} {currentHash : B256} {k : FetchKind}
    {key : (spec keccak256 k).Key} {value : (spec keccak256 k).Val}
    (h : caches.Takes currentHash k key value) :
    cacheTag k (caches.cache keccak256 k) = currentHash := by
  cases k with
  | code => exact h.elim
  | _ => exact TaggedCache.Takes.tag h

/-- A cache with the right tag has its entries taken. -/
theorem Caches.takes_of_tag {caches : Caches} {currentHash : B256} {k : FetchKind} (hk : k ≠ .code)
    (htag : cacheTag k (caches.cache keccak256 k) = currentHash) {key : (spec keccak256 k).Key}
    {value : (spec keccak256 k).Val}
    (h : (cacheData k (caches.cache keccak256 k))[key]? = some value) :
    caches.Takes currentHash k key value := by
  have hvalid : ∀ {K V : Type} [Ord K] (c : TaggedCache K V), c.blockHash = currentHash →
      c.isValidFor currentHash = true := by
    intro K V _ c hc
    rw [TaggedCache.isValidFor, hc, beq_self_eq_true, Bool.or_true]
  cases k with
  | code => exact absurd rfl hk
  | _ => exact ⟨hvalid _ htag, h⟩

/-! ## Publications -/

/-- The publication is that of an accepted commit. -/
def Publication.IsCommit (p : Publication) (new : Chain) : Prop :=
  p.notification = .chainCommitted new ∧ (commitVerdict p.current new).isAcceptable = true

/-- A commit publishes what is built from the merged caches. -/
theorem Publication.IsCommit.snapshot {p : Publication} {new : Chain} (h : p.IsCommit new) :
    p.round.snapshot = (buildCommitState p.current p.caches (extractExecutionChanges new)
      (extractBlockData new) new.chainTip).1 := by
  rw [round, handleNotification_snapshot, h.1, nextSnapshot_committed p.caches h.2]

/-- The publication is that of an accepted reorg. -/
def Publication.IsReorg (p : Publication) (old new : Chain) : Prop :=
  p.notification = .chainReorged old new ∧ (reorgVerdict p.current old).isAcceptable = true

theorem Publication.IsReorg.snapshot {p : Publication} {old new : Chain} (h : p.IsReorg old new) :
    p.round.snapshot = buildReorgState p.current old.commonAncestor (extractExecutionChanges new)
      (extractBlockData new) new.chainTip := by
  rw [round, handleNotification_snapshot, h.1, nextSnapshot_reorged p.caches h.2]

namespace Publication

variable (p : Publication)

/-- The accounts a commit applies its diff to. -/
def merged : HashMap Address AccountInfo :=
  p.caches.accounts.mergeInto p.current.accounts p.current.blockHash

/-- The slots a commit applies its diff to. -/
def mergedStorage : HashMap SlotKey U256 :=
  p.caches.storage.mergeInto p.current.storage p.current.blockHash

/-- The block hashes a commit writes those of its chain over. -/
def mergedHashes : HashMap ℕ B256 :=
  p.caches.blockHashes.mergeInto p.current.blockHashes p.current.blockHash

end Publication

/-- Every entry a commit merged was fetched at a block the chain's diff starts from. -/
def Sys.MergedFromBase (s : Sys keccak256) (p : Publication) (new : Chain) : Prop :=
  ∀ k, k ≠ .code → ∀ key value, p.caches.Takes p.current.blockHash k key value →
    s.Fetched k (cacheTag k (p.caches.cache keccak256 k)) key value ∧
      new.IsBase p.current (cacheTag k (p.caches.cache keccak256 k))

variable (keccak256) in
/-- The commit is `Valid`, or the current block happens to be one its diff starts from, or no cache
with an entry bears the current hash. -/
def Publication.MergeFits (p : Publication) (new : Chain) : Prop :=
  commitVerdict p.current new = .valid ∨ new.IsBase p.current p.current.blockHash ∨
    ∀ k, k ≠ .code → cacheData k (p.caches.cache keccak256 k) = ∅ ∨
      cacheTag k (p.caches.cache keccak256 k) ≠ p.current.blockHash

/-! ## What is about to be published -/

namespace Sys

variable {L : Ledger} {s : Sys keccak256} {p : Publication}

/-- A round starts from the current snapshot. -/
theorem Publishes.current (hp : s.Publishes p) (h : s.Fed) : p.current = s.snapshot := by
  obtain ⟨job, caches, hjob, -, rfl⟩ := hp
  exact h.current job hjob

theorem Publishes.told (hp : s.Publishes p) (h : s.Told L) :
    p.notification.OnLedger keccak256 L := by
  obtain ⟨job, caches, hjob, -, rfl⟩ := hp
  exact h.job job hjob

/-- What a round would take was fetched at the current block. -/
theorem Publishes.fetched (hp : s.Publishes p) (h : s.Fed) {k : FetchKind} (hk : k ≠ .code)
    {key : (spec keccak256 k).Key} {value : (spec keccak256 k).Val}
    (htakes : p.caches.Takes p.current.blockHash k key value) :
    s.Fetched k p.current.blockHash key value := by
  obtain ⟨job, caches, hjob, hcaches, rfl⟩ := hp
  have hfetched := h.handed job hjob k hk _ (Job.handed_of_caches hcaches k) key value
    htakes.data
  rwa [show cacheTag k (caches.cache keccak256 k) = _ from htakes.tag] at hfetched

end Sys

/-! ## When merged entries belong to the base -/

/-- **When merged entries belong to the base.**  In every run, whatever was read when, a commit
merged nothing but what was fetched at its base exactly when its merge fits. -/
theorem mergedFromBase_iff {L : Ledger} {fetch : FetchConfig} {tip : B256} {s : Sys keccak256}
    (h : Lts.Run (Sys.Step L) Lts.anyEvent (.new keccak256 fetch tip) s) :
    ∀ p ∈ s.published, ∀ new, p.IsCommit new →
      (s.MergedFromBase p new ↔ p.MergeFits keccak256 new) := by
  intro p hp new _
  constructor
  · intro hbase
    by_cases hfree : ∀ k, k ≠ .code → cacheData k (p.caches.cache keccak256 k) = ∅ ∨
        cacheTag k (p.caches.cache keccak256 k) ≠ p.current.blockHash
    · exact Or.inr (Or.inr hfree)
    · push Not at hfree
      obtain ⟨k, hk, hne, htag⟩ := hfree
      obtain ⟨key, value, hvalue⟩ : ∃ key value,
          (cacheData k (p.caches.cache keccak256 k))[key]? = some value := by
        by_contra hall
        push Not at hall
        refine hne (ExtTreeMap.ext_getElem? fun key ↦ ?_)
        rw [ExtTreeMap.getElem?_empty]
        exact Option.eq_none_iff_forall_ne_some.mpr (hall key)
      have hbase := (hbase k hk key value (Caches.takes_of_tag hk htag hvalue)).2
      rw [htag] at hbase
      exact Or.inr (Or.inl hbase)
  · intro hfits k hk key value htakes
    refine ⟨(Sys.fed_of_run h).published p hp k hk key value htakes.data, ?_⟩
    rw [htakes.tag]
    rcases hfits with hvalid | hbase | hfree
    · exact Chain.isBase_of_valid hvalid
    · exact hbase
    · rcases hfree k hk with hempty | htag
      · have hdata := htakes.data
        rw [hempty, ExtTreeMap.getElem?_empty] at hdata
        cases hdata
      · exact absurd htakes.tag htag

end

/-! ## A read before the first commit, and one between two -/

namespace EarlyRead

open Branches

open scoped Revm

/-- The slot is read from the initial snapshot, and the first commit comes afterwards. -/
def events : List (Event keccak) :=
  readSlot ++ answerSlot 0 ++ .node (.chainCommitted a1) false :: round

/-- The slot is read after the first commit, and the second comes afterwards. -/
def eventsBetween : List (Event keccak) :=
  .node (.chainCommitted a1) false :: round ++ readSlot ++ answerSlot 1 ++
    .node (.chainCommitted a2) false :: round

theorem isSome_replay :
    (Lts.replay (Sys.step ledger) Lts.anyCheck events start).isSome = true := by
  decide +kernel

def final : Sys keccak := (Lts.replay (Sys.step ledger) Lts.anyCheck events start).get isSome_replay

theorem isSome_replay_between :
    (Lts.replay (Sys.step ledger) Lts.anyCheck eventsBetween start).isSome = true := by
  decide +kernel

def finalBetween : Sys keccak :=
  (Lts.replay (Sys.step ledger) Lts.anyCheck eventsBetween start).get isSome_replay_between

theorem run : Lts.Run (Sys.Step ledger) (Sys.Honest ledger) start final := by
  refine Sys.run_of_replay (Option.some_get isSome_replay).symm ?_ fun _ _ _ h ↦ h
  change Sys.History keccak ledger 10 [.chainCommitted a1]
  exact ⟨⟨onLedger_a1, Or.inl rfl⟩, trivial⟩

theorem published_ne_nil : final.published ≠ [] := by decide +kernel

/-- The commit that was published. -/
def commit : Publication := final.published.head published_ne_nil

theorem publishedBetween_ne_nil : finalBetween.published ≠ [] := by decide +kernel

/-- The second commit. -/
def commitBetween : Publication := finalBetween.published.getLast publishedBetween_ne_nil

end EarlyRead

open scoped Revm in
open EarlyRead Branches in
/-- The rule at the first commit after a read of the initial snapshot, where both sides fail, and at
a `Valid` commit that merges the slot, where both hold. -/
theorem mergedFromBase_iff_earlyRead :
    (final.MergedFromBase commit a1 ↔ commit.MergeFits keccak a1) ∧
      commitBetween.caches.storage.Takes 11 ((7, 0) : SlotKey) 5 ∧
        finalBetween.MergedFromBase commitBetween a2 :=
  ⟨mergedFromBase_iff (run.mono fun _ _ _ ↦ trivial) commit (List.head_mem _) a1
      ⟨rfl, by decide +kernel⟩,
    And.intro (by decide +kernel) (by decide +kernel),
    (mergedFromBase_iff (Lts.Run.of_replay (Option.some_get isSome_replay_between).symm
      fun _ _ _ ↦ trivial) commitBetween (List.getLast_mem _) a2 ⟨rfl, by decide +kernel⟩).mpr
      (Or.inl (by decide +kernel))⟩

open scoped Revm in
open EarlyRead Branches in
/-- **An entry of the zero hash is merged.**  The slot was fetched at block `0` under the zero hash,
and the first commit takes it into its snapshot, though its diff starts from the block `10`. -/
theorem not_mergedFromBase_earlyRead :
    Lts.Run (Sys.Step ledger) (Sys.Honest ledger) (.new keccak {} 10) final ∧
      commit ∈ final.published ∧ commit.IsCommit a1 ∧
      commit.caches.storage.Takes 0 ((7, 0) : SlotKey) 5 ∧
      commit.round.snapshot.storage[((7, 0) : SlotKey)]? = some 5 ∧
      ¬ final.MergedFromBase commit a1 := by
  have hmem : commit ∈ final.published := List.head_mem _
  have htakes : commit.caches.storage.Takes 0 ((7, 0) : SlotKey) 5 :=
    And.intro (by decide +kernel) (by decide +kernel)
  refine ⟨run, hmem, ⟨rfl, by decide +kernel⟩, htakes, by decide +kernel, fun h ↦ ?_⟩
  have hcurrent : commit.current.blockHash = 0 := by decide +kernel
  obtain ⟨-, hbase⟩ := h .storage (by decide) ((7, 0) : SlotKey) 5 (by rw [hcurrent]; exact htakes)
  rw [show cacheTag .storage (commit.caches.cache keccak .storage) = 0 from htakes.tag] at hbase
  rcases hbase with hparent | ⟨b, hb, -, -, hhash⟩
  · exact absurd hparent (by decide)
  · rw [List.mem_singleton.mp hb] at hhash
    exact absurd hhash (by decide)

end RexSim
