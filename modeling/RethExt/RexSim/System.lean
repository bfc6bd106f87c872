import RethExt.RexSim.FetchLayer

/-!
# The whole client

The managers with the node (`FetchLayer`), the snapshot, the changeset manager and the readers, as
one transition system.  The node changes its canonical chain and tells of it or not; what it tells
waits in a queue.  The changeset manager takes a notification and the snapshot, asks the managers
for their caches one by one, waits for all four and swaps in what `handleNotification` makes of
them.  A reader loads the snapshot, and is answered from it or sends a request later on, whatever
has happened in between.

Nothing is assumed of the order of all this.  `Sys.Honest` is the guard that notifications tell the
truth about a ledger, and `Sys.Pinned` the one that queries are answered by blocks that agree with
the tags of their requests.  `reads` and `published` are kept for the proofs: every read that was
answered or sent, and every round of the changeset manager.
-/

set_option autoImplicit false

open Std

namespace RexSim

section

variable [Revm]

/-! ## Caches by kind -/

section kinds

variable {keccak256 : Bytes → B256}

/-- The tag of a flushed cache; that of code has none. -/
def cacheTag : (k : FetchKind) → (spec keccak256 k).Cache → B256
  | .account, cache => cache.blockHash
  | .code, _ => 0
  | .storage, cache => cache.blockHash
  | .blockHash, cache => cache.blockHash

def cacheData : (k : FetchKind) → (spec keccak256 k).Cache →
    HashMap (spec keccak256 k).Key (spec keccak256 k).Val
  | .account, cache => cache.data
  | .code, cache => cache.data
  | .storage, cache => cache.data
  | .blockHash, cache => cache.data

theorem cacheTag_flushed {k : FetchKind} (hk : k ≠ .code)
    (m : FetchManager (spec keccak256 k)) : cacheTag k m.flushed = m.cacheHash := by
  cases k with
  | code => exact absurd rfl hk
  | _ => rfl

theorem cacheData_flushed (k : FetchKind) (m : FetchManager (spec keccak256 k)) :
    cacheData k m.flushed = m.cache := by
  cases k <;> rfl

variable (keccak256) in
/-- The cache of each kind. -/
def Caches.cache (caches : Caches) : (k : FetchKind) → (spec keccak256 k).Cache
  | .account => caches.accounts
  | .code => caches.code
  | .storage => caches.storage
  | .blockHash => caches.blockHashes

end kinds

/-! ## The state -/

section State

variable (keccak256 : Bytes → B256)

/-- A notification that is being handled: the snapshot that was loaded with it, the managers still
to be asked, and the caches they have handed over. -/
structure Job where
  current : StateSnapshot
  notification : ExExNotification
  pending : List FetchKind := [.account, .code, .storage, .blockHash]
  handed : (k : FetchKind) → Option (spec keccak256 k).Cache := fun _ ↦ none

/-- A read, with the snapshot it has loaded. -/
structure ReadCall where
  kind : FetchKind
  key : (spec keccak256 kind).Key
  snapshot : StateSnapshot

variable {keccak256} in
/-- What the read makes of its snapshot. -/
def ReadCall.outcome (read : ReadCall keccak256) :
    ReadOutcome (spec keccak256 read.kind).Req (spec keccak256 read.kind).Resp :=
  read.snapshot.readRef keccak256 read.kind read.key

variable {keccak256} in
/-- All four caches, once they are there. -/
def Job.caches (job : Job keccak256) : Option Caches :=
  match job.handed .account, job.handed .code, job.handed .storage, job.handed .blockHash with
  | some accounts, some code, some storage, some blockHashes =>
    some ⟨accounts, code, storage, blockHashes⟩
  | _, _, _, _ => none

variable {keccak256} in
/-- A job that has all its caches has each. -/
theorem Job.handed_of_caches {job : Job keccak256} {caches : Caches}
    (h : job.caches = some caches) (k : FetchKind) :
    job.handed k = some (caches.cache keccak256 k) := by
  rw [Job.caches] at h
  split at h
  · cases h
    cases k <;> assumption
  · cases h

/-- A round of the changeset manager, by what went into it. -/
structure Publication where
  current : StateSnapshot
  generation : ℕ
  caches : Caches
  notification : ExExNotification

/-- What came out of the round. -/
def Publication.round (p : Publication) : Round :=
  handleNotification p.current p.generation p.caches p.notification

structure Sys where
  layer : FetchLayer keccak256
  snapshot : StateSnapshot := {}
  generation : ℕ := 0
  rx : List ExExNotification := []
  job : Option (Job keccak256) := none
  loaded : List (ReadCall keccak256) := []
  reads : List (ReadCall keccak256) := []
  published : List Publication := []

inductive Event
  /-- The node changes its canonical chain, and its notification is lost or not. -/
  | node (n : ExExNotification) (lost : Bool)
  /-- The changeset manager takes a notification and loads the snapshot. -/
  | recv
  /-- It asks the next manager for its cache. -/
  | requestFlush
  /-- A manager ends its drain and hands its cache over. -/
  | handOver (k : FetchKind)
  /-- The changeset manager has all four caches, and swaps. -/
  | publish
  /-- Any other step of a manager. -/
  | manager (k : FetchKind) (e : ManagerEvent (spec keccak256 k))
  /-- The node answers a query, or fails to. -/
  | answer (k : FetchKind) (task : ℕ) (query : Query) (fails : Bool)
  /-- A reader loads the snapshot. -/
  | load (k : FetchKind) (key : (spec keccak256 k).Key)
  /-- A reader is answered from the snapshot it loaded, or sends its request. -/
  | read (i : ℕ)

end State

/-- The event is one a manager takes by itself. -/
def ManagerEvent.isInternal {S : FetchSpec} : ManagerEvent S → Bool
  | .send _ => false
  | .requestFlush => false
  | .handOver => false
  | e => e.isLocal

namespace Sys

variable {keccak256 : Bytes → B256}

/-- The client at its creation, with the node at `tip`. -/
def new (keccak256 : Bytes → B256) (fetch : FetchConfig) (tip : B256) : Sys keccak256 where
  layer := .new keccak256 fetch tip

/-! ## The steps -/

/-- The publication of a job that has all its caches. -/
def publication (s : Sys keccak256) (job : Job keccak256) (caches : Caches) : Publication :=
  ⟨job.current, s.generation, caches, job.notification⟩

/-- The publication that is due. -/
def Publishes (s : Sys keccak256) (p : Publication) : Prop :=
  ∃ job caches, s.job = some job ∧ job.caches = some caches ∧ p = s.publication job caches

/-- The round is swapped in and announced. -/
def publish (s : Sys keccak256) (p : Publication) : Sys keccak256 :=
  { s with
    snapshot := p.round.snapshot
    generation := s.generation + 1
    job := none
    published := s.published ++ [p] }

def step (L : Ledger) (s : Sys keccak256) : Event keccak256 → Option (Sys keccak256)
  | .node n lost =>
    (s.layer.step L (.head n.newTip)).map fun layer ↦
      { s with layer := layer, rx := if lost then s.rx else s.rx ++ [n] }
  | .recv => match s.job, s.rx with
    | none, n :: rest =>
      some { s with rx := rest, job := some { current := s.snapshot, notification := n } }
    | _, _ => none
  | .requestFlush => match s.job with
    | some job => match job.pending with
      | k :: rest =>
        (s.layer.step L (.manager k .requestFlush)).map fun layer ↦
          { s with layer := layer, job := some { job with pending := rest } }
      | [] => none
    | none => none
  | .handOver k => match s.job with
    | some job =>
      (s.layer.step L (.manager k .handOver)).map fun layer ↦
        { s with
          layer := layer
          job := some { job with
            handed := Function.update job.handed k (some (s.layer.managers k).flushed) } }
    | none => none
  | .publish => match s.job with
    | some job => match job.caches with
      | some caches => some (s.publish (s.publication job caches))
      | none => none
    | none => none
  | .manager k e =>
    if e.isInternal then
      (s.layer.step L (.manager k e)).map fun layer ↦ { s with layer := layer }
    else none
  | .answer k i q fails =>
    (s.layer.step L (.answer k i q fails)).map fun layer ↦ { s with layer := layer }
  | .load k key => some { s with loaded := s.loaded ++ [⟨k, key, s.snapshot⟩] }
  | .read i => match s.loaded[i]? with
    | some read => match read.outcome with
      | .ready _ => some { s with loaded := s.loaded.eraseIdx i, reads := s.reads ++ [read] }
      | .fetch req =>
        (s.layer.step L (.manager read.kind (.send req))).map fun layer ↦
          { s with
            layer := layer, loaded := s.loaded.eraseIdx i, reads := s.reads ++ [read] }
    | none => none

abbrev Step (L : Ledger) : Event keccak256 → Sys keccak256 → Sys keccak256 → Prop :=
  Lts.Executes (step L)

/-- What each event does, and when it can happen. -/
inductive Transition (L : Ledger) (s : Sys keccak256) : Event keccak256 → Sys keccak256 → Prop
  | node (n : ExExNotification) (lost : Bool) :
      Transition L s (.node n lost)
        { s with
          layer := { s.layer with tip := n.newTip }, rx := if lost then s.rx else s.rx ++ [n] }
  | recv {n : ExExNotification} {rest : List ExExNotification} (hjob : s.job = none)
      (hrx : s.rx = n :: rest) :
      Transition L s .recv
        { s with rx := rest, job := some { current := s.snapshot, notification := n } }
  | requestFlush {job : Job keccak256} {k : FetchKind} {rest : List FetchKind}
      {layer : FetchLayer keccak256} (hjob : s.job = some job) (hpending : job.pending = k :: rest)
      (hlayer : FetchLayer.Step L (.manager k .requestFlush) s.layer layer) :
      Transition L s .requestFlush
        { s with layer := layer, job := some { job with pending := rest } }
  | handOver {job : Job keccak256} {k : FetchKind} {layer : FetchLayer keccak256}
      (hjob : s.job = some job)
      (hlayer : FetchLayer.Step L (.manager k .handOver) s.layer layer) :
      Transition L s (.handOver k)
        { s with
          layer := layer
          job := some { job with
            handed := Function.update job.handed k (some (s.layer.managers k).flushed) } }
  | publish {job : Job keccak256} {caches : Caches} (hjob : s.job = some job)
      (hcaches : job.caches = some caches) :
      Transition L s .publish (s.publish (s.publication job caches))
  | manager {k : FetchKind} {e : ManagerEvent (spec keccak256 k)} {layer : FetchLayer keccak256}
      (hinternal : e.isInternal = true) (hlayer : FetchLayer.Step L (.manager k e) s.layer layer) :
      Transition L s (.manager k e) { s with layer := layer }
  | answer {k : FetchKind} {i : ℕ} {q : Query} {fails : Bool} {layer : FetchLayer keccak256}
      (hlayer : FetchLayer.Step L (.answer k i q fails) s.layer layer) :
      Transition L s (.answer k i q fails) { s with layer := layer }
  | load (k : FetchKind) (key : (spec keccak256 k).Key) :
      Transition L s (.load k key) { s with loaded := s.loaded ++ [⟨k, key, s.snapshot⟩] }
  | served {i : ℕ} {read : ReadCall keccak256}
      {result : Except SimError (spec keccak256 read.kind).Resp}
      (hread : s.loaded[i]? = some read) (houtcome : read.outcome = .ready result) :
      Transition L s (.read i)
        { s with loaded := s.loaded.eraseIdx i, reads := s.reads ++ [read] }
  | sent {i : ℕ} {read : ReadCall keccak256} {req : (spec keccak256 read.kind).Req}
      {layer : FetchLayer keccak256} (hread : s.loaded[i]? = some read)
      (houtcome : read.outcome = .fetch req)
      (hlayer : FetchLayer.Step L (.manager read.kind (.send req)) s.layer layer) :
      Transition L s (.read i)
        { s with layer := layer, loaded := s.loaded.eraseIdx i, reads := s.reads ++ [read] }

variable {L : Ledger} {s s' : Sys keccak256} {e : Event keccak256}

/-- **What a step can do.** -/
theorem Step.transition (h : Step L e s s') : s.Transition L e s' := by
  replace h : s.step L e = some s' := h
  cases e with
  | node n lost =>
    cases h
    exact .node n lost
  | recv =>
    rw [step] at h
    split at h
    · rename_i hjob hrx; cases h; exact .recv hjob hrx
    · cases h
  | requestFlush =>
    rw [step] at h
    split at h
    · rename_i job hjob
      split at h
      · rename_i hpending
        obtain ⟨layer, hlayer, rfl⟩ := Option.map_eq_some_iff.mp h
        exact .requestFlush hjob hpending hlayer
      · cases h
    · cases h
  | handOver k =>
    rw [step] at h
    split at h
    · rename_i job hjob
      obtain ⟨layer, hlayer, rfl⟩ := Option.map_eq_some_iff.mp h
      exact .handOver hjob hlayer
    · cases h
  | publish =>
    rw [step] at h
    split at h
    · rename_i job hjob
      split at h
      · rename_i caches hcaches; cases h; exact .publish hjob hcaches
      · cases h
    · cases h
  | manager k e =>
    rw [step] at h
    split at h
    · rename_i hinternal
      obtain ⟨layer, hlayer, rfl⟩ := Option.map_eq_some_iff.mp h
      exact .manager hinternal hlayer
    · cases h
  | answer k i q fails =>
    obtain ⟨layer, hlayer, rfl⟩ := Option.map_eq_some_iff.mp h
    exact .answer hlayer
  | load k key =>
    cases h
    exact .load k key
  | read i =>
    rw [step] at h
    split at h
    · rename_i read hread
      split at h
      · rename_i houtcome; cases h; exact .served hread houtcome
      · rename_i req houtcome
        obtain ⟨layer, hlayer, rfl⟩ := Option.map_eq_some_iff.mp h
        exact .sent hread houtcome hlayer
    · cases h

/-! ## What a step is to the managers -/

/-- A loaded read is about to send this request. -/
inductive Sends (s : Sys keccak256) : (k : FetchKind) → (spec keccak256 k).Req → Prop
  | intro {read : ReadCall keccak256} {req : (spec keccak256 read.kind).Req}
      (hread : read ∈ s.loaded) (houtcome : read.outcome = .fetch req) : Sends s read.kind req

/-- A query is answered by a block that agrees with the tag of its request, or not at all. -/
def Pinned (L : Ledger) (s : Sys keccak256) : Event keccak256 → Prop
  | .answer k i q fails => s.layer.Pinned L (.answer k i q fails)
  | _ => True

/-- A step leaves the layer alone, or is a step of it. -/
private theorem Step.layer (h : Step L e s s') :
    s'.layer = s.layer ∨ ∃ d, FetchLayer.Step L d s.layer s'.layer ∧
      (∀ k i q, d = .answer k i q false → e = .answer k i q false) ∧
      ∀ k req, d = .manager k (.send req) → s.Sends k req := by
  cases h.transition with
  | recv | publish | load | served => exact Or.inl rfl
  | node n => exact Or.inr ⟨.head n.newTip, rfl, nofun, nofun⟩
  | requestFlush _ _ hlayer | handOver _ hlayer =>
    exact Or.inr ⟨_, hlayer, nofun, nofun⟩
  | manager hinternal hlayer =>
    refine Or.inr ⟨_, hlayer, nofun, fun _ _ hd ↦ ?_⟩
    cases hd
    cases hinternal
  | answer hlayer =>
    refine Or.inr ⟨_, hlayer, fun _ _ _ hd ↦ ?_, nofun⟩
    cases hd
    rfl
  | @sent i read req layer hread houtcome hlayer =>
    refine Or.inr ⟨_, hlayer, nofun, fun k' req' hd ↦ ?_⟩
    injection hd with hkind hsend
    subst hkind
    injection eq_of_heq hsend with hreq
    subst hreq
    exact .intro (List.mem_of_getElem? hread) houtcome

/-- **What a step is to one manager**: nothing, or one of its own steps, which brings no wrong
answer if the event is pinned, and a request only from a loaded read. -/
theorem Step.manager (h : Step L e s s') {k : FetchKind} (hk : k ≠ .code) :
    s'.layer.managers k = s.layer.managers k ∨
      ∃ e', FetchManager.Step e' (s.layer.managers k) (s'.layer.managers k) ∧
        ((∀ i q, e = .answer k i q false → s.Pinned L e) →
          (s.layer.managers k).AnswersRight L.RightAnswer e') ∧
        ∀ req, e' = .send req → s.Sends k req := by
  rcases h.layer with heq | ⟨d, hd, hanswer, hsends⟩
  · exact Or.inl (by rw [heq])
  · rcases hd.manager hk with heq | ⟨e', hstep, hright, hsend⟩
    · exact Or.inl heq
    · refine Or.inr ⟨e', hstep, fun hpinned ↦ hright fun i q he ↦ ?_, fun req he ↦
        hsends k req (hsend req he)⟩
      have hp := hpinned i q (hanswer k i q he)
      rw [hanswer k i q he] at hp
      rwa [he]

/-- **Soundness of one manager** through a step of the client. -/
theorem rightAt_step {k : FetchKind} (hk : k ≠ .code) (h : s.layer.RightAt L k)
    (hs : Step L e s s') (hok : ∀ i q, e = .answer k i q false → s.Pinned L e) :
    s'.layer.RightAt L k := by
  rcases hs.manager hk with heq | ⟨e', hstep, hright, -⟩
  · exact ⟨by rw [heq]; exact h.isolated, by rw [heq]; exact h.sound⟩
  · exact ⟨h.isolated.step (epochGuarded_spec keccak256 hk) hstep,
      h.sound.step (L.lawful keccak256 k) h.isolated hstep (hright hok)⟩

/-! ## Honest notifications -/

/-- The node tells of changes of its canonical chain as they are. -/
def Honest (L : Ledger) (s : Sys keccak256) : Event keccak256 → Prop
  | .node n _ => n.Extends keccak256 L s.layer.tip
  | _ => True

/-- Every notification that is on its way, in hand or applied is of the ledger. -/
structure Told (L : Ledger) (s : Sys keccak256) : Prop where
  rx : ∀ n ∈ s.rx, n.OnLedger keccak256 L
  job : ∀ job, s.job = some job → job.notification.OnLedger keccak256 L
  published : ∀ p ∈ s.published, p.notification.OnLedger keccak256 L

theorem told_new (L : Ledger) (fetch : FetchConfig) (tip : B256) :
    (new keccak256 fetch tip).Told L where
  rx _ h := absurd h List.not_mem_nil
  job _ h := by cases h
  published _ h := absurd h List.not_mem_nil

/-- **The step lemma.** -/
theorem Told.step (h : s.Told L) (hs : Step L e s s') (hok : s.Honest L e) : s'.Told L := by
  cases hs.transition with
  | node n lost =>
    refine { h with rx := fun n' hn' ↦ ?_ }
    change n' ∈ (if lost then s.rx else s.rx ++ [n]) at hn'
    split at hn'
    · exact h.rx n' hn'
    · rcases List.mem_append.mp hn' with hn' | hn'
      · exact h.rx n' hn'
      · rw [List.mem_singleton.mp hn']
        exact hok.onLedger
  | @recv n rest _ hrx =>
    refine { h with rx := fun n' hn' ↦ ?_, job := ?_ }
    · exact h.rx n' (by rw [hrx]; exact List.mem_cons_of_mem _ hn')
    · rintro _ ⟨⟩
      exact h.rx n (by rw [hrx]; exact List.mem_cons_self)
  | @requestFlush job _ _ _ hjob | @handOver job _ _ hjob =>
    refine { h with job := ?_ }
    rintro _ ⟨⟩
    exact h.job job hjob
  | publish hjob =>
    refine { h with job := nofun, published := fun p hp ↦ ?_ }
    rcases List.mem_append.mp hp with hp | hp
    · exact h.published p hp
    · rw [List.mem_singleton.mp hp]
      exact h.job _ hjob
  | manager | answer | load | served | sent => exact { h with }

/-- In every run of an honest node, what is told is of the ledger. -/
theorem told_of_run {fetch : FetchConfig} {tip : B256}
    (h : Lts.Run (Step L) (Honest L) (.new keccak256 fetch tip) s) : s.Told L :=
  h.invariant (fun e _ _ hinv hs hok ↦ hinv.step (e := e) hs hok) (told_new L fetch tip)

/-! ## Replays of a node history -/

variable (keccak256) in
/-- The notifications follow each other, from a canonical chain that ends at `tip`. -/
def History (L : Ledger) : B256 → List ExExNotification → Prop
  | _, [] => True
  | tip, n :: rest => n.Extends keccak256 L tip ∧ History L n.newTip rest

/-- The change of the canonical chain an event is, if it is one. -/
def change : Event keccak256 → Option ExExNotification
  | .node n _ => some n
  | _ => none

/-- The canonical chain is changed by the node alone. -/
theorem Step.tip (h : Step L e s s') :
    s'.layer.tip = ((change e).map ExExNotification.newTip).getD s.layer.tip := by
  cases h.transition with
  | node | recv | publish | load | served => rfl
  | requestFlush _ _ hlayer | handOver _ hlayer | manager _ hlayer | sent _ _ hlayer =>
    exact hlayer.tip
  | answer hlayer => exact hlayer.tip

/-- **A replay of a node history** is a run in which the node is honest. -/
theorem run_of_replay {ok : Sys keccak256 → Event keccak256 → Prop}
    {check : Sys keccak256 → Event keccak256 → Bool} {es : List (Event keccak256)}
    (h : Lts.replay (step L) check es s = some s')
    (hist : History keccak256 L s.layer.tip (es.filterMap change))
    (hcheck : ∀ s e, check s e = true → s.Honest L e → ok s e) : Lts.Run (Step L) ok s s' := by
  induction es generalizing s with
  | nil => cases h; exact .refl
  | cons e es ih =>
    rw [Lts.replay] at h
    split at h
    · rename_i he
      obtain ⟨t, ht, hrest⟩ := Option.bind_eq_some_iff.mp h
      have htip := Step.tip (L := L) (e := e) (s := s) ht
      cases hchange : change e with
      | none =>
        rw [List.filterMap_cons_none hchange] at hist
        have hhonest : s.Honest L e := by
          cases e with
          | node => cases hchange
          | _ => trivial
        rw [hchange] at htip
        exact (Lts.Run.one ht (hcheck s e he hhonest)).trans (ih hrest (by rwa [htip]))
      | some n =>
        rw [List.filterMap_cons_some hchange] at hist
        have hhonest : s.Honest L e := by
          cases e with
          | node => cases hchange; exact hist.1
          | _ => trivial
        rw [hchange] at htip
        exact (Lts.Run.one ht (hcheck s e he hhonest)).trans (ih hrest (by rw [htip]; exact hist.2))
    · cases h

end Sys

end

/-! ## Two branches and a slot

The blocks `11` to `15` are one branch on the block `10`, and `21` to `23` another.  The slot `0` of
the account `7` is `5` up to the block `12`, and `6` from `13` on and on the whole other branch. -/

namespace Branches

open scoped Revm

abbrev keccak : Bytes → B256 := fun _ ↦ 0

/-- The state in which the slot holds `v`. -/
def world (v : U256) : WorldState where
  account _ := none
  storage a slot := if a = 7 ∧ slot = 0 then v else 0

theorem world_storage_of_ne (v : U256) {a : Address} {slot : U256} (h : ¬ (a = 7 ∧ slot = 0)) :
    (world v).storage a slot = 0 := if_neg h

/-- The diff that writes `v` to the slot. -/
def write (v : U256) : BundleState where
  state := (∅ : HashMap Address BundleAccount).insert 7
    { storage := (∅ : HashMap U256 StorageSlot).insert 0 ⟨v⟩ }

/-- The block `hash`, with a transaction of the same hash. -/
def block (number : ℕ) (parent hash : B256) : Block where
  header := ⟨number, parent, hash, []⟩
  txHashes := [hash]

def ledger : Ledger :=
  .ofList (fun h ↦ world (if h ∈ [13, 14, 15, 21, 22, 23] then 6 else 5))
    [block 1 10 11, block 2 11 12, block 3 12 13, block 4 13 14, block 5 14 15, block 1 10 21,
      block 2 21 22, block 3 22 23] (by decide)

/-- A chain of one block. -/
def chain (b : Block) (bundle : BundleState) : Chain where
  blocks := [b]
  bundle := bundle
  nonempty := List.cons_ne_nil _ _
  linked := .singleton _

theorem carries_nothing (v : U256) : BundleState.Carries keccak {} (world v) (world v) where
  account_unlisted _ _ := rfl
  account_some a _ _ h _ := by simp at h
  account_none _ _ _ _ := rfl
  slot_unlisted _ _ _ := rfl
  slot_some a _ _ _ h _ := by simp at h
  slot_none a _ _ h _ := by simp at h

theorem write_state (v : U256) (a : Address) :
    (write v).state[a]? =
      if 7 = a then some { storage := (∅ : HashMap U256 StorageSlot).insert 0 ⟨v⟩ } else none := by
  simp only [write, ExtTreeMap.getElem?_insert, LawfulEqCmp.compare_eq_iff_eq,
    ExtTreeMap.getElem?_empty]

theorem carries_write (u v : U256) : (write v).Carries keccak (world u) (world v) where
  account_unlisted _ _ := rfl
  account_some a account info h hinfo := by
    rw [write_state] at h
    split at h <;> cases h
    cases hinfo
  account_none _ _ _ _ := rfl
  slot_unlisted a slot h := by
    rw [write_state] at h
    split at h
    · cases h
    · rename_i ha
      rw [world_storage_of_ne v fun h7 ↦ ha h7.1.symm, world_storage_of_ne u fun h7 ↦ ha h7.1.symm]
  slot_some a slot account value h hslot := by
    rw [write_state] at h
    split at h <;> cases h
    rename_i ha
    rw [ExtTreeMap.getElem?_insert] at hslot
    simp only [LawfulEqCmp.compare_eq_iff_eq, ExtTreeMap.getElem?_empty] at hslot
    split at hslot <;> cases hslot
    rename_i hs
    exact if_pos ⟨ha.symm, hs.symm⟩
  slot_none a slot account h hslot := by
    rw [write_state] at h
    split at h <;> cases h
    rw [ExtTreeMap.getElem?_insert] at hslot
    simp only [LawfulEqCmp.compare_eq_iff_eq, ExtTreeMap.getElem?_empty] at hslot
    split at hslot
    · cases hslot
    · rename_i hs
      rw [world_storage_of_ne v fun h0 ↦ hs h0.2.symm, world_storage_of_ne u fun h0 ↦ hs h0.2.symm]
      rfl

/-- A chain of one block is on the ledger when its diff is the one between the two states. -/
theorem onLedger {b : Block} {bundle : BundleState} (hblock : ledger.block b.hash = b)
    (hnumber : 0 < b.number) (hhash : b.hash ≠ 0)
    (hparent : bundle.Carries keccak (ledger.state b.parentHash) (ledger.state b.hash))
    (hself : bundle.Carries keccak (ledger.state b.hash) (ledger.state b.hash)) :
    (chain b bundle).OnLedger keccak ledger where
  block b' hb' := by rw [List.mem_singleton.mp hb']; exact hblock
  number_pos b' hb' := by rw [List.mem_singleton.mp hb']; exact hnumber
  hash_ne b' hb' := by rw [List.mem_singleton.mp hb']; exact hhash
  carries h hh := by
    rcases hh with rfl | ⟨b', hb', rfl⟩
    · exact hparent
    · rw [List.mem_singleton.mp hb']
      exact hself

def a1 : Chain := chain (block 1 10 11) {}

def a2 : Chain := chain (block 2 11 12) {}

def a3 : Chain := chain (block 3 12 13) (write 6)

def a4 : Chain := chain (block 4 13 14) {}

def a5 : Chain := chain (block 5 14 15) {}

def b1 : Chain := chain (block 1 10 21) (write 6)

def b2 : Chain := chain (block 2 21 22) {}

def b3 : Chain := chain (block 3 22 23) {}

theorem onLedger_a1 : a1.OnLedger keccak ledger :=
  onLedger (by decide) (by decide) (by decide) (carries_nothing _) (carries_nothing _)

theorem onLedger_a2 : a2.OnLedger keccak ledger :=
  onLedger (by decide) (by decide) (by decide) (carries_nothing _) (carries_nothing _)

theorem onLedger_a3 : a3.OnLedger keccak ledger :=
  onLedger (by decide) (by decide) (by decide) (carries_write _ _) (carries_write _ _)

theorem onLedger_a4 : a4.OnLedger keccak ledger :=
  onLedger (by decide) (by decide) (by decide) (carries_nothing _) (carries_nothing _)

theorem onLedger_a5 : a5.OnLedger keccak ledger :=
  onLedger (by decide) (by decide) (by decide) (carries_nothing _) (carries_nothing _)

theorem onLedger_b1 : b1.OnLedger keccak ledger :=
  onLedger (by decide) (by decide) (by decide) (carries_write _ _) (carries_write _ _)

theorem onLedger_b2 : b2.OnLedger keccak ledger :=
  onLedger (by decide) (by decide) (by decide) (carries_nothing _) (carries_nothing _)

theorem onLedger_b3 : b3.OnLedger keccak ledger :=
  onLedger (by decide) (by decide) (by decide) (carries_nothing _) (carries_nothing _)

/-- A round of the changeset manager. -/
def round : List (Event keccak) :=
  [.recv, .requestFlush, .requestFlush, .requestFlush, .requestFlush,
    .manager .account .recvFlush, .handOver .account, .manager .code .recvFlush, .handOver .code,
    .manager .storage .recvFlush, .handOver .storage, .manager .blockHash .recvFlush,
    .handOver .blockHash, .publish]

/-- A read of the slot, up to its fetch. -/
def readSlot : List (Event keccak) :=
  [.load .storage ((7, 0) : SlotKey), .read 0, .manager .storage .recvFetch,
    .manager .storage .serve, .manager .storage .spawn, .manager .storage .tryNext]

/-- The answer to the fetch, at the height `n`. -/
def answerSlot (n : ℕ) : List (Event keccak) :=
  [.answer .storage 0 (.getStorageAt 7 0 n) false, .manager .storage (.finish 0),
    .manager .storage (.complete 0), .manager .storage .recvDone]

def start : Sys keccak := .new keccak {} 10

end Branches

end RexSim
