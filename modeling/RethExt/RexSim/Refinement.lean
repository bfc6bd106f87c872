import RethExt.RexSim.Recovery

/-!
# The client refines the chain

As long as no verdict goes against it, the client is meant to be indistinguishable from the state of
the block it stands on: `Sys.Refines` says that what a snapshot holds, and what a reader is told,
are the values at the snapshot's block.

Two things the code leaves to chance are guarded.  A query is sent by number, so the block that
answers it must agree with the one the request is tagged with (`Sys.Pinned`); and a diff that takes
an account or a slot away must not meet it among what is held (`BundleState.Covers`).  Everything
else is in scope: lost notifications, commits that overlap, reorgs from behind the tip, reads that
land between a flush and the swap, fetches that are overtaken or given up.

`Sys.Faithful` is the invariant.  It holds together where the caches come from (`Sys.Fed`), what is
told (`Sys.Told`), what is answered (`FetchLayer.Right`) and what is asked (`Sys.Asks`).
-/

set_option autoImplicit false

open Std

namespace RexSim

section

variable [Revm]

/-! ## Values -/

section values

variable {keccak256 : Bytes → B256}

/-- A block-hash read asks for a height below `n`. -/
def Below (n : ℕ) : (k : FetchKind) → (spec keccak256 k).Key → Prop
  | .account, _ => True
  | .code, _ => True
  | .storage, _ => True
  | .blockHash, number => number < n

variable (keccak256) in
/-- The response is the value at the block `h`. -/
def Ledger.IsValue (L : Ledger) (h : B256) :
    (k : FetchKind) → (spec keccak256 k).Key → (spec keccak256 k).Resp → Prop
  | .account, address, info => info = some ((L.state h).info keccak256 address)
  | .code, _, _ => True
  | .storage, key, value => value = (L.state h).storage key.1 key.2
  | .blockHash, number, hash => hash = L.lineage.ancestor h number

theorem Ledger.Right.isValue {L : Ledger} {h : B256} {k : FetchKind}
    {key : (spec keccak256 k).Key} {resp : (spec keccak256 k).Resp}
    (hright : L.Right keccak256 h k key resp) (hbelow : Below (L.lineage.height h) k key) :
    L.IsValue keccak256 h k key resp := by
  cases k with
  | code => trivial
  | account | storage => exact hright
  | blockHash => exact hright hbelow

/-- What a request asks is the read it was made for. -/
theorem StateSnapshot.readRef_eq_fetch {s : StateSnapshot} {k : FetchKind}
    {key : (spec keccak256 k).Key} {req : (spec keccak256 k).Req}
    (h : s.readRef keccak256 k key = .fetch req) :
    (spec keccak256 k).key req = key ∧
      ∀ tag, (spec keccak256 k).tag req = some tag → tag = s.blockHash := by
  cases k with
  | account =>
    rw [readRef, basicRef] at h
    split at h
    · cases h
    · split at h <;> cases h
      exact ⟨rfl, fun _ htag ↦ by cases htag; rfl⟩
  | code =>
    rw [readRef, codeByHashRef] at h
    split at h
    · cases h
    · split at h <;> cases h
      exact ⟨rfl, fun _ htag ↦ by cases htag⟩
  | storage =>
    rw [readRef, storageRef] at h
    split at h
    · cases h
    · split at h <;> cases h
      exact ⟨rfl, fun _ htag ↦ by cases htag; rfl⟩
  | blockHash =>
    rw [readRef, blockHashRef] at h
    split at h
    · cases h
    · split at h <;> cases h
      exact ⟨rfl, fun _ htag ↦ by cases htag; rfl⟩

end values

/-! ## Snapshots -/

section snapshots

variable (keccak256 : Bytes → B256) (L : Ledger)

/-- What is held is the value at the snapshot's block. -/
structure StateSnapshot.Refines (s : StateSnapshot) : Prop where
  holds : Holds keccak256 s.accounts s.storage (L.state s.blockHash)
  blockHashes : ∀ n hash, n ≤ s.block → s.blockHashes[n]? = some hash →
    hash = L.lineage.ancestor s.blockHash n

/-- The snapshot stands on a block of the chain. -/
structure StateSnapshot.Stands (s : StateSnapshot) : Prop
    extends s.Refines keccak256 L, s.OnBlock L where
  fresh : s.stale = false

variable {keccak256 L}

theorem StateSnapshot.refines_initial : StateSnapshot.Refines keccak256 L {} where
  holds := holds_empty keccak256 _
  blockHashes _ _ _ h := absurd h getElem?_empty_ne

/-- **A hit** is the value at the snapshot's block. -/
theorem StateSnapshot.Stands.isValue {s : StateSnapshot} (h : s.Stands keccak256 L) {k : FetchKind}
    {key : (spec keccak256 k).Key} (hbelow : Below s.block k key) {resp : (spec keccak256 k).Resp}
    (hread : s.readRef keccak256 k key = .ready (.ok resp)) :
    L.IsValue keccak256 s.blockHash k key resp := by
  cases k with
  | account =>
    rw [readRef, basicRef, h.fresh] at hread
    split at hread
    · cases hread
    · split at hread <;> cases hread
      rename_i info hinfo
      exact congrArg some (h.holds.accounts _ info hinfo)
  | code => trivial
  | storage =>
    rw [readRef, storageRef, h.fresh] at hread
    split at hread
    · cases hread
    · split at hread <;> cases hread
      rename_i hvalue
      exact h.holds.storage _ _ hvalue
  | blockHash =>
    rw [readRef, blockHashRef, h.fresh] at hread
    split at hread
    · cases hread
    · split at hread <;> cases hread
      rename_i hhash
      exact h.blockHashes _ _ (Nat.le_of_lt hbelow) hhash

end snapshots

/-! ## Rounds -/

namespace Publication

variable {keccak256 : Bytes → B256} {L : Ledger} {p : Publication} {old new : Chain}

variable (keccak256 L p) in
/-- The entries a commit would take are the values at the current block, which is not the zero
hash. -/
def CachesRight : Prop :=
  ∀ k, k ≠ .code → ∀ key value, p.caches.Takes p.current.blockHash k key value →
    p.current.blockHash ≠ 0 ∧
      L.IsValue keccak256 p.current.blockHash k key ((spec keccak256 k).hit value)

/-- What is merged is held or taken. -/
theorem CachesRight.holds (h : p.CachesRight keccak256 L)
    (hcurrent : Holds keccak256 p.current.accounts p.current.storage
      (L.state p.current.blockHash)) :
    Holds keccak256 p.merged p.mergedStorage (L.state p.current.blockHash) where
  accounts _ _ := TaggedCache.of_mergeInto
    (fun a held htakes ↦ Option.some.inj (h .account (by decide) a held htakes).2)
    hcurrent.accounts
  storage _ _ := TaggedCache.of_mergeInto
    (fun key held htakes ↦ (h .storage (by decide) key held htakes).2) hcurrent.storage

theorem CachesRight.blockHashes (h : p.CachesRight keccak256 L)
    (hcurrent : p.current.Refines keccak256 L) {n : ℕ} {hash : B256} (hn : n ≤ p.current.block)
    (hheld : p.mergedHashes[n]? = some hash) :
    hash = L.lineage.ancestor p.current.blockHash n :=
  TaggedCache.of_mergeInto
    (fun n hash htakes (_ : n ≤ p.current.block) ↦ (h .blockHash (by decide) n hash htakes).2)
    (fun n hash hheld hn ↦ hcurrent.blockHashes n hash hn hheld) hheld hn

/-- Nothing is merged into the initial snapshot. -/
theorem CachesRight.merged_eq_empty (h : p.CachesRight keccak256 L) (hcurrent : p.current = {}) :
    p.merged = ∅ ∧ p.mergedStorage = ∅ ∧ p.mergedHashes = ∅ := by
  rw [merged, mergedStorage, mergedHashes, hcurrent]
  rw [CachesRight, hcurrent] at h
  exact ⟨TaggedCache.mergeInto_eq_empty fun a info ht ↦ (h .account (by decide) a info ht).1 rfl,
    TaggedCache.mergeInto_eq_empty fun key value ht ↦ (h .storage (by decide) key value ht).1 rfl,
    TaggedCache.mergeInto_eq_empty fun n hash ht ↦ (h .blockHash (by decide) n hash ht).1 rfl⟩

/-- What a commit publishes stands on the chain's tip, if what it starts from is right at a base of
the diff. -/
theorem IsCommit.stands_of (h : p.IsCommit new) (hnew : new.OnLedger keccak256 L) {base : B256}
    (hbase : base = new.first.parentHash ∨ ∃ b ∈ new.blocks, b.hash = base)
    (hcovers : new.bundle.Covers p.merged p.mergedStorage)
    (hkept : new.bundle.KeptHold keccak256 p.merged p.mergedStorage (L.state base))
    (hhashes : ∀ n hash, n < new.first.number → p.mergedHashes[n]? = some hash →
      hash = L.lineage.ancestor new.first.parentHash n) :
    p.round.snapshot.Stands keccak256 L where
  holds := by
    have hholds := (h.holds_iff hnew hbase).mpr ⟨hcovers, hkept⟩
    rw [h.snapshot] at hholds ⊢
    exact hholds
  blockHashes n hash hn hhash := by
    rw [h.snapshot] at hn hhash ⊢
    rw [buildCommitState_blockHashes] at hhash
    exact hnew.blockHashes hhashes hn hhash
  toOnBlock := hnew.onBlock (by rw [h.snapshot]; rfl) (by rw [h.snapshot]; rfl)
  fresh := by rw [h.snapshot, buildCommitState_stale]

/-- **A commit** on a snapshot that stands, or on the initial one. -/
theorem IsCommit.stands (h : p.IsCommit new) (hnew : new.OnLedger keccak256 L)
    (hcurrent : p.current = {} ∨ p.current.Stands keccak256 L)
    (hcaches : p.CachesRight keccak256 L)
    (hcovers : new.bundle.Covers p.merged p.mergedStorage) :
    p.round.snapshot.Stands keccak256 L := by
  rcases hcurrent with hinit | hstands
  · obtain ⟨haccounts, hstorage, hhashes⟩ := hcaches.merged_eq_empty hinit
    refine h.stands_of hnew (Or.inl rfl) hcovers ?_ fun n hash _ hhash ↦ ?_
    · rw [haccounts, hstorage]
      exact (holds_empty keccak256 _).keptHold
    · rw [hhashes, ExtTreeMap.getElem?_empty] at hhash
      cases hhash
  · have hvalid := hstands.commit_valid hstands.fresh h.2
    exact h.stands_of hnew (Chain.isBase_of_valid hvalid).starts hcovers
      (hcaches.holds hstands.holds).keptHold fun n hash hfirst hhash ↦
        hnew.kept_of_valid hvalid hstands.height
          (fun m hash hm hheld ↦ hcaches.blockHashes hstands.toRefines hm hheld) hfirst hhash

/-- **A reorg** on a snapshot that stands, or on the initial one. -/
theorem IsReorg.stands (h : p.IsReorg old new) (hold : old.OnLedger keccak256 L)
    (hnew : new.OnLedger keccak256 L) (hparent : new.first.parentHash = old.first.parentHash)
    (hcurrent : p.current = {} ∨ p.current.Stands keccak256 L) :
    p.round.snapshot.Stands keccak256 L where
  holds := by
    rw [h.snapshot, buildReorgState_accounts, buildReorgState_storage]
    exact holds_empty keccak256 _
  blockHashes n hash hn hhash := by
    rw [h.snapshot] at hn hhash ⊢
    rw [buildReorgState_blockHashes] at hhash
    refine hnew.reorg_blockHashes (fun m hash hm hheld ↦ ?_) hn hhash
    rcases hcurrent with hinit | hstands
    · rw [hinit, ExtTreeMap.getElem?_empty] at hheld
      cases hheld
    · exact hold.kept_of_valid_reorg hparent (hstands.reorg_valid h.2) hstands.height
        hstands.blockHashes hm hheld
  toOnBlock := hnew.onBlock (by rw [h.snapshot]; rfl) (by rw [h.snapshot]; rfl)
  fresh := by rw [h.snapshot, buildReorgState_stale]

end Publication

/-! ## Runs -/

variable {keccak256 : Bytes → B256} {L : Ledger}

variable (L) in
/-- The read was made on a snapshot that stands, below its block. -/
structure ReadCall.Sensible (read : ReadCall keccak256) : Prop where
  stands : read.snapshot.Stands keccak256 L
  below : Below read.snapshot.block read.kind read.key

namespace Sys

variable {s s' : Sys keccak256} {e : Event keccak256}

/-- The reader has been told `resp`: from the snapshot it loaded, or in reply to its request. -/
def Replied (s : Sys keccak256) (read : ReadCall keccak256)
    (resp : (spec keccak256 read.kind).Resp) : Prop :=
  read.outcome = .ready (.ok resp) ∨
    ∃ req, read.outcome = .fetch req ∧
      ∃ r ∈ (s.layer.managers read.kind).replies, r.request = req ∧ r.result = .ok resp

variable (L) in
/-- The client refines the chain: its snapshot does, and every reader has been told the value at
the block of the snapshot it read from. -/
structure Refines (s : Sys keccak256) : Prop where
  snapshot : s.snapshot.Refines keccak256 L
  reads : ∀ read ∈ s.reads, ∀ resp, s.Replied read resp →
    L.IsValue keccak256 read.snapshot.blockHash read.kind read.key resp

variable (L) in
/-- What is assumed of a run: the node is honest; readers start after the first round, and ask for
the hashes of blocks below the snapshot's only; and no notification is rejected or a revert. -/
def InScope (s : Sys keccak256) : Event keccak256 → Prop
  | .node n _ => n.Extends keccak256 L s.layer.tip
  | .load k key => 0 < s.generation ∧ Below s.snapshot.block k key
  | .publish => ∀ p, s.Publishes p →
      p.notification.isAccepted p.current = true ∧ ∀ old, p.notification ≠ .chainReverted old
  | _ => True

variable (L) in
/-- Queries are answered by blocks that agree with the tags of their requests, and no diff takes
away what is held. -/
def Undamaged (s : Sys keccak256) : Event keccak256 → Prop
  | .answer k i q fails => s.layer.Pinned L (.answer k i q fails)
  | .publish => ∀ p, s.Publishes p → ∀ new, p.notification = .chainCommitted new →
      new.bundle.Covers p.merged p.mergedStorage
  | _ => True

variable (keccak256 L) in
/-- A request is made under a hash that is not zero, and below its block. -/
def Asked (k : FetchKind) (req : (spec keccak256 k).Req) : Prop :=
  ∀ tag, (spec keccak256 k).tag req = some tag →
    tag ≠ 0 ∧ Below (L.lineage.height tag) k ((spec keccak256 k).key req)

variable (L) in
structure Faithful (s : Sys keccak256) : Prop where
  fed : s.Fed
  told : s.Told L
  right : s.layer.Right L
  asks : s.Asks (Asked keccak256 L)
  snapshot : s.generation = 0 ∧ s.snapshot = {} ∨ s.snapshot.Stands keccak256 L
  loaded : ∀ read ∈ s.loaded, read.Sensible L
  reads : ∀ read ∈ s.reads, read.Sensible L

theorem faithful_new (fetch : FetchConfig) (tip : B256) : (new keccak256 fetch tip).Faithful L where
  fed := fed_new fetch tip
  told := told_new L fetch tip
  right := FetchLayer.right_new L fetch tip
  asks := asks_new _ fetch tip
  snapshot := Or.inl ⟨rfl, rfl⟩
  loaded _ h := absurd h List.not_mem_nil
  reads _ h := absurd h List.not_mem_nil

/-- The caches that are there for a publication are right. -/
theorem Faithful.cachesRight (h : s.Faithful L) {p : Publication} (hp : s.Publishes p) :
    p.CachesRight keccak256 L := by
  intro k hk key value htakes
  have hfetched := hp.fetched h.fed hk htakes
  obtain ⟨req, hasked, htag, hkey⟩ := hfetched.asked hk h.asks
  obtain ⟨hne, hbelow⟩ := hasked _ htag
  rw [hkey] at hbelow
  exact ⟨hne, (hfetched.right hk (h.right k hk)).isValue hbelow⟩

/-- **What is published** stands on its block. -/
theorem Faithful.publish (h : s.Faithful L) {p : Publication} (hp : s.Publishes p)
    (hacc : p.notification.isAccepted p.current = true)
    (hrevert : ∀ old, p.notification ≠ .chainReverted old)
    (hcovers : ∀ new, p.notification = .chainCommitted new →
      new.bundle.Covers p.merged p.mergedStorage) : p.round.snapshot.Stands keccak256 L := by
  have hcurrent : p.current = {} ∨ p.current.Stands keccak256 L := by
    rw [hp.current h.fed]
    exact h.snapshot.imp And.right id
  have htold := hp.told h.told
  cases hn : p.notification with
  | chainCommitted new =>
    rw [hn] at htold hacc
    exact Publication.IsCommit.stands ⟨hn, hacc⟩ htold hcurrent (h.cachesRight hp) (hcovers new hn)
  | chainReorged old new =>
    rw [hn] at htold hacc
    exact Publication.IsReorg.stands ⟨hn, hacc⟩ htold.1 htold.2.1 htold.2.2 hcurrent
  | chainReverted old => exact absurd hn (hrevert old)

/-- **The step lemma.** -/
theorem Faithful.step (h : s.Faithful L) (hs : Step L e s s') (hscope : s.InScope L e)
    (hundamaged : s.Undamaged L e) : s'.Faithful L where
  fed := h.fed.step hs
  told := h.told.step hs (by cases e <;> first | exact hscope | trivial)
  right k hk := rightAt_step hk (h.right k hk) hs fun i q he ↦ by
    rw [he] at hundamaged ⊢
    exact hundamaged
  asks := by
    refine h.asks.step hs fun k key he req hreq tag htag ↦ ?_
    rw [he] at hscope
    obtain ⟨hgeneration, hbelow⟩ := hscope
    have hstands := h.snapshot.resolve_left fun hinit ↦ Nat.ne_of_gt hgeneration hinit.1
    obtain ⟨hkey, htags⟩ := StateSnapshot.readRef_eq_fetch hreq
    rw [htags tag htag, hkey, hstands.height]
    exact ⟨hstands.blockHash_ne, hbelow⟩
  snapshot := by
    cases hs.transition with
    | publish hjob hcaches =>
      obtain ⟨hacc, hrevert⟩ := hscope _ ⟨_, _, hjob, hcaches, rfl⟩
      exact Or.inr (h.publish ⟨_, _, hjob, hcaches, rfl⟩ hacc hrevert
        (hundamaged _ ⟨_, _, hjob, hcaches, rfl⟩))
    | _ => exact h.snapshot
  loaded := by
    cases hs.transition with
    | load k key =>
      intro read hread
      rcases List.mem_append.mp hread with hread | hread
      · exact h.loaded read hread
      · rw [List.mem_singleton.mp hread]
        exact ⟨h.snapshot.resolve_left fun hinit ↦ Nat.ne_of_gt hscope.1 hinit.1, hscope.2⟩
    | served | sent => exact fun read hread ↦ h.loaded read (List.mem_of_mem_eraseIdx hread)
    | _ => exact h.loaded
  reads := by
    cases hs.transition with
    | served hread | sent hread =>
      intro read hmem
      rcases List.mem_append.mp hmem with hmem | hmem
      · exact h.reads read hmem
      · rw [List.mem_singleton.mp hmem]
        exact h.loaded _ (List.mem_of_getElem? hread)
    | _ => exact h.reads

/-- **What a reader is told** is the value at the block it read from. -/
theorem Faithful.replied (h : s.Faithful L) {read : ReadCall keccak256} (hread : read ∈ s.reads)
    {resp : (spec keccak256 read.kind).Resp} (hreplied : s.Replied read resp) :
    L.IsValue keccak256 read.snapshot.blockHash read.kind read.key resp := by
  obtain ⟨hstands, hbelow⟩ := h.reads read hread
  rcases hreplied with hhit | ⟨req, hreq, r, hr, rfl, hresp⟩
  · exact hstands.isValue hbelow hhit
  · obtain ⟨hkey, htags⟩ := StateSnapshot.readRef_eq_fetch hreq
    by_cases hk : read.kind = .code
    · obtain ⟨kind, key, snapshot⟩ := read
      subst hk
      trivial
    · obtain ⟨tag, htag⟩ := (epochGuarded_spec keccak256 hk).tagged r.request
      have hright := (h.right _ hk).sound.reply (h.right _ hk).isolated hr hresp htag
      rw [htags tag htag, hkey] at hright
      exact hright.isValue (by rw [hstands.height]; exact hbelow)

theorem Faithful.refines (h : s.Faithful L) : s.Refines L where
  snapshot := by
    rcases h.snapshot with ⟨-, hinit⟩ | hstands
    · rw [hinit]
      exact StateSnapshot.refines_initial
    · exact hstands.toRefines
  reads _ hread _ hreplied := h.replied hread hreplied

end Sys

/-- **The client refines the chain** in every run in scope that is not damaged. -/
theorem refines_of_run {fetch : FetchConfig} {tip : B256} {s : Sys keccak256}
    (h : Lts.Run (Sys.Step L) (fun s e ↦ s.InScope L e ∧ s.Undamaged L e)
      (.new keccak256 fetch tip) s) : s.Refines L :=
  (h.invariant (fun e _ _ hinv hs hok ↦ hinv.step (e := e) hs hok.1 hok.2)
    (Sys.faithful_new fetch tip)).refines

end

/-! ## A fetch the node overtakes -/

namespace Overtaken

open Branches

open scoped Revm

def notReverted : ExExNotification → Bool
  | .chainReverted _ => false
  | _ => true

/-- Reads of the slot after the first round, and rounds that are accepted. -/
def inScope (s : Sys keccak) : Event keccak → Bool
  | .load .storage _ => 0 < s.generation
  | .load _ _ => false
  | .publish => match s.job with
    | some job => job.notification.isAccepted job.current && notReverted job.notification
    | none => true
  | _ => true

theorem inScope_of_check {s : Sys keccak} {e : Event keccak} (h : inScope s e = true)
    (hhonest : s.Honest ledger e) : s.InScope ledger e := by
  cases e with
  | node n lost => exact hhonest
  | load k key =>
    cases k with
    | storage => exact ⟨of_decide_eq_true h, trivial⟩
    | _ => cases h
  | publish =>
    rintro _ ⟨job, caches, hjob, -, rfl⟩
    rw [inScope, hjob, Bool.and_eq_true] at h
    refine ⟨h.1, fun old hold ↦ ?_⟩
    rw [show job.notification = _ from hold] at h
    cases h.2
  | _ => trivial

/-- The storage fetch is answered on the block of its tag, and no diff takes anything away. -/
def undamaged (s : Sys keccak) : Event keccak → Bool
  | .publish => match s.job with
    | some job => (job.caches.map fun caches ↦ covered (s.publication job caches)).getD true
    | none => true
  | e => pinned s e

theorem undamaged_of_check {s : Sys keccak} {e : Event keccak} (h : undamaged s e = true) :
    s.Undamaged ledger e := by
  cases e with
  | publish =>
    rintro _ ⟨job, caches, hjob, hcaches, rfl⟩ new hn
    simp only [undamaged, hjob, hcaches, Option.map_some, Option.getD_some] at h
    exact covers_of_covered h hn
  | answer => exact pinned_of_check h
  | _ => trivial

/-- The slot is read at the block `11`, carried to `12` and rewritten by `13`. -/
def quiet : List (Event keccak) :=
  .node (.chainCommitted a1) false :: round ++ readSlot ++ answerSlot 1 ++
    .node (.chainCommitted a2) false :: round ++ .node (.chainCommitted a3) false :: round

/-- The slot is read at the block `11`, which the node replaces before it answers. -/
def overtaken : List (Event keccak) :=
  .node (.chainCommitted a1) false :: round ++ readSlot ++
    .node (.chainReorged a1 b1) false :: answerSlot 1

theorem isSome_replay_quiet :
    (Lts.replay (Sys.step ledger) (fun s e ↦ inScope s e && undamaged s e) quiet start).isSome =
      true := by
  decide +kernel

def afterQuiet : Sys keccak :=
  (Lts.replay (Sys.step ledger) (fun s e ↦ inScope s e && undamaged s e) quiet start).get
    isSome_replay_quiet

theorem run_quiet :
    Lts.Run (Sys.Step ledger) (fun s e ↦ s.InScope ledger e ∧ s.Undamaged ledger e) start
      afterQuiet := by
  refine Sys.run_of_replay (Option.some_get isSome_replay_quiet).symm ?_ fun s e hcheck hhonest ↦ ?_
  · change Sys.History keccak ledger 10 [.chainCommitted a1, .chainCommitted a2, .chainCommitted a3]
    exact ⟨⟨onLedger_a1, Or.inl rfl⟩, ⟨onLedger_a2, Or.inl rfl⟩, ⟨onLedger_a3, Or.inl rfl⟩, trivial⟩
  · rw [Bool.and_eq_true] at hcheck
    exact ⟨inScope_of_check hcheck.1 hhonest, undamaged_of_check hcheck.2⟩

/-- The slot is held with the value the last block wrote. -/
example : afterQuiet.snapshot.blockHash = 13 ∧
    afterQuiet.snapshot.storage[((7, 0) : SlotKey)]? = some 6 := by decide +kernel

theorem isSome_replay_overtaken :
    (Lts.replay (Sys.step ledger) inScope overtaken start).isSome = true := by
  decide +kernel

def afterOvertaken : Sys keccak :=
  (Lts.replay (Sys.step ledger) inScope overtaken start).get isSome_replay_overtaken

theorem run_overtaken : Lts.Run (Sys.Step ledger) (Sys.InScope ledger) start afterOvertaken := by
  refine Sys.run_of_replay (Option.some_get isSome_replay_overtaken).symm ?_
    fun s e hcheck hhonest ↦ inScope_of_check hcheck hhonest
  change Sys.History keccak ledger 10 [.chainCommitted a1, .chainReorged a1 b1]
  exact ⟨⟨onLedger_a1, Or.inl rfl⟩, ⟨onLedger_a1, onLedger_b1, rfl, rfl⟩, trivial⟩

/-- The read of the slot. -/
def slotRead : ReadCall keccak := ⟨.storage, ((7, 0) : SlotKey), afterOvertaken.snapshot⟩

theorem replied : afterOvertaken.Replied slotRead (6 : U256) :=
  Or.inr ⟨⟨7, 0, 1, 11⟩, rfl, ⟨⟨7, 0, 1, 11⟩, 0, .ok (6 : U256)⟩, List.mem_singleton.mpr rfl,
    rfl, rfl⟩

end Overtaken

open scoped Revm in
open Overtaken in
/-- The client after a fetch that is merged, carried and rewritten. -/
theorem refines_of_run_quiet : afterQuiet.Refines Branches.ledger := refines_of_run run_quiet

open scoped Revm in
open Overtaken Branches in
/-- **A reader is told the value of another block.**  It read the slot from the snapshot at the
block `11`, in whose state it is `5`; the node went on to `21` before it answered, and the reply is
`6`. -/
theorem not_refines_overtaken :
    Lts.Run (Sys.Step ledger) (Sys.InScope ledger) (.new keccak {} 10) afterOvertaken ∧
      afterOvertaken.snapshot.blockHash = 11 ∧ (ledger.state 11).storage 7 0 = 5 ∧
      (afterOvertaken.layer.managers .storage).replies.map
        (fun r ↦ (r.request, r.result.toOption)) = [(⟨7, 0, 1, 11⟩, some 6)] ∧
      ¬ afterOvertaken.Refines ledger := by
  refine ⟨run_overtaken, by decide +kernel, rfl, by decide +kernel, fun h ↦ ?_⟩
  have hvalue := h.reads slotRead (List.mem_singleton.mpr rfl) (6 : U256) replied
  exact absurd (show (6 : U256) = 5 from hvalue) (by decide)

end RexSim
