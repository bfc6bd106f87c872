import RethExt.RexSim.AnyNode

/-!
# Bytecode is what its hash says

Code comes into a snapshot by two ways: the code manager fetches it from the node, and the bundle of
a chain brings contracts.  It is never taken out again.  `getCodeByHash` hashes what the node
answers before it hands it on, so nothing a node answers, and no address it is asked for, can bring
in code under another hash: `bytecodeIntact_of_run`.

`Sys.OpenStep` is the client with any node, and with requests and registrations from anywhere: its
runs have every choice of address hints in them, right or wrong.
-/

set_option autoImplicit false

open Std

namespace RexSim

section

variable [Revm] {keccak256 : Bytes → B256}

/-! ## Code under its own hash -/

variable (keccak256) in
/-- Every entry is code with the hash it is listed under. -/
def Intact (code : HashMap B256 Bytecode) : Prop :=
  ∀ h c, code[h]? = some c → codeHashOf keccak256 c.originalBytes = h

instance (code : HashMap B256 Bytecode) : Decidable (Intact keccak256 code) :=
  decidable_of_iff (∀ p ∈ code.toList, codeHashOf keccak256 p.2.originalBytes = p.1)
    ⟨fun h _ _ hc ↦ h _ (ExtTreeMap.mem_toList_iff_getElem?_eq_some.mpr hc),
      fun h _ hp ↦ h _ _ (ExtTreeMap.mem_toList_iff_getElem?_eq_some.mp hp)⟩

theorem intact_empty : Intact keccak256 ∅ := fun _ _ hc ↦ absurd hc getElem?_empty_ne

/-- Where every lookup is one of two intact maps, the map is intact. -/
theorem Intact.of_or {code code' code'' : HashMap B256 Bytecode} (h : Intact keccak256 code)
    (h' : Intact keccak256 code')
    (heq : ∀ hash : B256, code''[hash]? = (code[hash]?).or code'[hash]?) :
    Intact keccak256 code'' := by
  intro hash c hc
  rw [heq, Option.or_eq_some_iff] at hc
  rcases hc with hc | ⟨-, hc⟩
  · exact h hash c hc
  · exact h' hash c hc

namespace FetchManager.Grounded

variable {m : FetchManager (codeSpec keccak256)}

/-- What a completed code fetch has brought. -/
theorem code_processed (h : m.Grounded) {d : FetchDone (codeSpec keccak256)} (hd : d ∈ m.processed)
    {code : Bytecode} (hcode : d.result = .ok code) :
    codeHashOf keccak256 code.originalBytes = d.request.codeHash := by
  obtain ⟨ctx, answers, hres⟩ := h.processed d hd
  rw [hcode] at hres
  exact (getCodeByHash_eq_ok hres).1

theorem intact (h : m.Grounded) : Intact keccak256 m.cache := by
  intro hash code hcode
  obtain ⟨d, hd, rfl, hstored⟩ := h.cached hash code hcode
  obtain ⟨resp, hresp, hstore⟩ := FetchDone.exists_of_stored hstored
  cases hstore
  exact h.code_processed hd hresp

theorem code_reply (h : m.Grounded) {r : Reply (codeSpec keccak256)} (hr : r ∈ m.replies)
    {code : Bytecode} (hcode : r.result = .ok code) :
    codeHashOf keccak256 code.originalBytes = r.request.codeHash := by
  obtain ⟨d, hd, hkey, hfrom⟩ := h.replies r hr code hcode
  rw [← show d.request.codeHash = r.request.codeHash from hkey]
  rcases hfrom with hresult | ⟨value, hstored, rfl⟩
  · exact h.code_processed hd hresult
  · obtain ⟨resp, hresp, hstore⟩ := FetchDone.exists_of_stored hstored
    cases hstore
    exact h.code_processed hd hresp

end FetchManager.Grounded

/-! ## Rounds -/

variable (keccak256) in
/-- The contracts of a bundle that is applied are listed under the hash of their code. -/
def ExExNotification.Keyed : ExExNotification → Prop
  | .chainCommitted new => Intact keccak256 new.bundle.contracts
  | .chainReorged _ new => Intact keccak256 new.bundle.contracts
  | .chainReverted _ => True

instance (n : ExExNotification) : Decidable (n.Keyed keccak256) :=
  match n with
  | .chainCommitted new => inferInstanceAs (Decidable (Intact keccak256 new.bundle.contracts))
  | .chainReorged _ new => inferInstanceAs (Decidable (Intact keccak256 new.bundle.contracts))
  | .chainReverted _ => inferInstanceAs (Decidable True)

theorem intact_extract {new : Chain} (h : Intact keccak256 new.bundle.contracts) :
    Intact keccak256 (extractExecutionChanges new).contracts := by
  intro hash c hc
  rw [extractExecutionChanges, ExtTreeMap.getElem?_map] at hc
  obtain ⟨c', hc', rfl⟩ := Option.map_eq_some_iff.mp hc
  exact h hash c' hc'

/-- **A round keeps code intact.** -/
theorem intact_nextSnapshot {current : StateSnapshot} {caches : Caches} {n : ExExNotification}
    (hcurrent : Intact keccak256 current.code) (hcaches : Intact keccak256 caches.code.data)
    (hn : n.Keyed keccak256) : Intact keccak256 (nextSnapshot current caches n).code := by
  rw [nextSnapshot.eq_def]
  cases n with
  | chainCommitted new =>
    show Intact keccak256 (if _ then _ else _ : StateSnapshot).code
    split
    · have hmerged : Intact keccak256 (current.code ∪ caches.code.data) :=
        hcaches.of_or hcurrent fun _ ↦ ExtTreeMap.getElem?_union
      refine (intact_extract hn).of_or hmerged fun hash ↦ ?_
      rw [buildCommitState_code, ExtTreeMap.getElem?_union]
    · exact hcurrent
  | chainReorged old new =>
    show Intact keccak256 (if _ then _ else _ : StateSnapshot).code
    split
    · exact (intact_extract hn).of_or hcurrent fun hash ↦ buildReorgState_code _ _ _ _ _ hash
    · exact hcurrent
  | chainReverted old => exact hcurrent

/-! ## The client with any node -/

/-- The event is one of the world outside the managers: a request, a registration or an answer. -/
def ManagerEvent.isOutside {S : FetchSpec} : ManagerEvent S → Bool
  | .send _ => true
  | .sendSide _ => true
  | .answer _ _ _ => true
  | _ => false

inductive OpenEvent (keccak256 : Bytes → B256)
  | client (e : Event keccak256)
  /-- A request, a registration or an answer, whatever it is. -/
  | outside (k : FetchKind) (e : ManagerEvent (spec keccak256 k))

namespace Sys

variable {L : Ledger} {s s' : Sys keccak256} {e : OpenEvent keccak256}

def openStep (L : Ledger) (s : Sys keccak256) : OpenEvent keccak256 → Option (Sys keccak256)
  | .client e => s.step L e
  | .outside k e =>
    if e.isOutside then
      ((s.layer.managers k).step e).map fun m ↦ { s with layer := s.layer.setManager k m }
    else none

abbrev OpenStep (L : Ledger) : OpenEvent keccak256 → Sys keccak256 → Sys keccak256 → Prop :=
  Lts.Executes (openStep L)

/-- What each event of the open client is. -/
inductive OpenTransition (L : Ledger) (s : Sys keccak256) :
    OpenEvent keccak256 → Sys keccak256 → Prop
  | client {e : Event keccak256} {s' : Sys keccak256} (h : Step L e s s') :
      OpenTransition L s (.client e) s'
  | outside {k : FetchKind} {e : ManagerEvent (spec keccak256 k)} {layer : FetchLayer keccak256}
      (h : s.layer.Advances layer) : OpenTransition L s (.outside k e) { s with layer := layer }

theorem OpenStep.transition (h : OpenStep L e s s') : s.OpenTransition L e s' := by
  replace h : s.openStep L e = some s' := h
  cases e with
  | client e => exact .client h
  | outside k e =>
    rw [openStep] at h
    split at h
    · obtain ⟨m, hm, rfl⟩ := Option.map_eq_some_iff.mp h
      exact .outside (.intro hm)
    · cases h

/-- What the event tells of the node's chain. -/
def told : OpenEvent keccak256 → Option ExExNotification
  | .client e => change e
  | .outside _ _ => none

/-- What the node tells is of bundles that list contracts under the hash of their code. -/
abbrev Keyed (_ : Sys keccak256) (e : OpenEvent keccak256) : Prop :=
  ∀ n ∈ told e, n.Keyed keccak256

/-! ## The invariant -/

/-- All code the client holds, hands over and has read is intact. -/
structure HoldsIntact (s : Sys keccak256) : Prop where
  grounded : ∀ k, (s.layer.managers k).Grounded
  snapshot : Intact keccak256 s.snapshot.code
  rx : ∀ n ∈ s.rx, n.Keyed keccak256
  current : ∀ job, s.job = some job → Intact keccak256 job.current.code
  notification : ∀ job, s.job = some job → job.notification.Keyed keccak256
  handed : ∀ job, s.job = some job → ∀ cache, job.handed .code = some cache →
    Intact keccak256 cache.data
  loaded : ∀ read ∈ s.loaded, Intact keccak256 read.snapshot.code
  reads : ∀ read ∈ s.reads, Intact keccak256 read.snapshot.code
  published : ∀ p ∈ s.published, Intact keccak256 p.round.snapshot.code

theorem holdsIntact_new (fetch : FetchConfig) (tip : B256) :
    (new keccak256 fetch tip).HoldsIntact where
  grounded _ := FetchManager.grounded_new _ _ fetch
  snapshot := intact_empty
  rx _ h := absurd h List.not_mem_nil
  current _ h := by cases h
  notification _ h := by cases h
  handed _ h := by cases h
  loaded _ h := absurd h List.not_mem_nil
  reads _ h := absurd h List.not_mem_nil
  published _ h := absurd h List.not_mem_nil

/-- The layer of the client may get on by itself. -/
theorem HoldsIntact.withLayer (h : s.HoldsIntact) {layer : FetchLayer keccak256}
    (hlayer : s.layer.Advances layer) : HoldsIntact { s with layer := layer } :=
  { h with grounded := hlayer.grounded h.grounded }

theorem HoldsIntact.layerStep (h : s.HoldsIntact) {layer : FetchLayer keccak256}
    {d : LayerEvent keccak256} (hlayer : FetchLayer.Step L d s.layer layer) :
    HoldsIntact { s with layer := layer } := by
  rcases hlayer.advances with hadv | heq
  · exact h.withLayer hadv
  · exact { h with grounded := fun k ↦ by rw [heq]; exact h.grounded k }

/-- The code cache a flush hands over is intact. -/
theorem HoldsIntact.handOver (h : s.HoldsIntact) {job : Job keccak256} (hjob : s.job = some job)
    {k : FetchKind} {cache : CodeCache}
    (hcache : Function.update job.handed k (some (s.layer.managers k).flushed) .code =
      some cache) : Intact keccak256 cache.data := by
  by_cases hk : k = .code
  · subst hk
    rw [Function.update_self, Option.some.injEq] at hcache
    rw [← hcache]
    exact (h.grounded .code).intact
  · rw [Function.update_of_ne (Ne.symm hk)] at hcache
    exact h.handed job hjob cache hcache

/-- A read that is taken off the list has been loaded. -/
theorem HoldsIntact.read (h : s.HoldsIntact) {i : ℕ} {read : ReadCall keccak256}
    (hread : s.loaded[i]? = some read) :
    HoldsIntact { s with loaded := s.loaded.eraseIdx i, reads := s.reads ++ [read] } :=
  { h with
    loaded := fun r hr ↦ h.loaded r (List.mem_of_mem_eraseIdx hr)
    reads := fun r hr ↦ by
      rcases List.mem_append.mp hr with hr | hr
      · exact h.reads r hr
      · rw [List.mem_singleton.mp hr]
        exact h.loaded read (List.mem_of_getElem? hread) }

/-- **The step lemma** for the events of the client. -/
theorem HoldsIntact.client (h : s.HoldsIntact) {e : Event keccak256} (hs : Step L e s s')
    (hok : s.Keyed (.client e)) : s'.HoldsIntact := by
  cases hs.transition with
  | node n lost =>
    refine { h with grounded := h.grounded, rx := fun n' hn' ↦ ?_ }
    change n' ∈ (if lost then s.rx else s.rx ++ [n]) at hn'
    split at hn'
    · exact h.rx n' hn'
    · rcases List.mem_append.mp hn' with hn' | hn'
      · exact h.rx n' hn'
      · rw [List.mem_singleton.mp hn']
        exact hok n rfl
  | @recv n rest _ hrx =>
    have hall : ∀ n' ∈ n :: rest, n'.Keyed keccak256 := hrx ▸ h.rx
    refine { h with
      rx := fun n' hn' ↦ hall n' (List.mem_cons_of_mem _ hn'), current := ?_, notification := ?_,
      handed := ?_ }
    · rintro _ ⟨⟩
      exact h.snapshot
    · rintro _ ⟨⟩
      exact hall n List.mem_cons_self
    · rintro _ ⟨⟩ _ ⟨⟩
  | @requestFlush job _ _ _ hjob _ hlayer =>
    refine { h.layerStep hlayer with current := ?_, notification := ?_, handed := ?_ }
    · rintro _ ⟨⟩
      exact h.current job hjob
    · rintro _ ⟨⟩
      exact h.notification job hjob
    · rintro _ ⟨⟩
      exact h.handed job hjob
  | @handOver job k _ hjob hlayer =>
    refine { h.layerStep hlayer with current := ?_, notification := ?_, handed := ?_ }
    · rintro _ ⟨⟩
      exact h.current job hjob
    · rintro _ ⟨⟩
      exact h.notification job hjob
    · rintro _ ⟨⟩ cache hcache
      exact h.handOver hjob hcache
  | @publish job caches hjob hcaches =>
    have hround : Intact keccak256 (s.publication job caches).round.snapshot.code := by
      rw [Publication.round, handleNotification_snapshot]
      exact intact_nextSnapshot (h.current job hjob)
        (h.handed job hjob _ (Job.handed_of_caches hcaches .code)) (h.notification job hjob)
    refine { h with
      snapshot := hround, current := nofun, notification := nofun, handed := nofun,
      published := fun p hp ↦ ?_ }
    rcases List.mem_append.mp hp with hp | hp
    · exact h.published p hp
    · rw [List.mem_singleton.mp hp]
      exact hround
  | manager _ hlayer => exact h.layerStep hlayer
  | answer hlayer => exact h.layerStep hlayer
  | load k key =>
    refine { h with loaded := fun r hr ↦ ?_ }
    rcases List.mem_append.mp hr with hr | hr
    · exact h.loaded r hr
    · rw [List.mem_singleton.mp hr]
      exact h.snapshot
  | served hread => exact h.read hread
  | sent hread _ hlayer => exact (h.read hread).layerStep hlayer

/-- **The step lemma.** -/
theorem HoldsIntact.step (h : s.HoldsIntact) (hs : OpenStep L e s s') (hok : s.Keyed e) :
    s'.HoldsIntact := by
  cases hs.transition with
  | client hs => exact h.client hs hok
  | outside hlayer => exact h.withLayer hlayer

/-- **Bytecode integrity.** -/
structure BytecodeIntact (s : Sys keccak256) : Prop where
  /-- Every snapshot: the current one, the published ones, and those that readers have loaded. -/
  snapshot : ∀ h c, s.snapshot.code[h]? = some c → codeHashOf keccak256 c.originalBytes = h
  published : ∀ p ∈ s.published, ∀ h c, p.round.snapshot.code[h]? = some c →
    codeHashOf keccak256 c.originalBytes = h
  /-- A read of code that is served from its snapshot. -/
  served : ∀ read ∈ s.loaded ++ s.reads, ∀ h c, read.snapshot.codeByHashRef h = .ready (.ok c) →
    codeHashOf keccak256 c.originalBytes = h
  /-- The cache of the code manager, and its replies. -/
  cached : ∀ h c, (s.layer.managers .code).cache[h]? = some c →
    codeHashOf keccak256 c.originalBytes = h
  replies : ∀ r ∈ (s.layer.managers .code).replies, ∀ c, r.result = .ok c →
    codeHashOf keccak256 c.originalBytes = r.request.codeHash

theorem codeByHashRef_eq_ok {s : StateSnapshot} {h : B256} {c : Bytecode}
    (hc : s.codeByHashRef h = .ready (.ok c)) : s.code[h]? = some c := by
  rw [StateSnapshot.codeByHashRef] at hc
  split at hc
  · cases hc
  · split at hc
    · rename_i hcode
      cases hc
      exact hcode
    · cases hc

theorem HoldsIntact.bytecodeIntact (h : s.HoldsIntact) : s.BytecodeIntact where
  snapshot := h.snapshot
  published := h.published
  served read hread hash c hc := by
    rcases List.mem_append.mp hread with hread | hread
    · exact h.loaded read hread hash c (codeByHashRef_eq_ok hc)
    · exact h.reads read hread hash c (codeByHashRef_eq_ok hc)
  cached := (h.grounded .code).intact
  replies _ hr _ hc := (h.grounded .code).code_reply hr hc

end Sys

/-- **Bytecode is what its hash says**, in every run of the client, whatever the node answers and
whatever is requested and registered. -/
theorem bytecodeIntact_of_run {L : Ledger} {fetch : FetchConfig} {tip : B256} {s : Sys keccak256}
    (h : Lts.Run (Sys.OpenStep L) Sys.Keyed (.new keccak256 fetch tip) s) : s.BytecodeIntact :=
  (h.invariant (fun _ _ _ hinv hs hok ↦ hinv.step hs hok)
    (Sys.holdsIntact_new fetch tip)).bytecodeIntact

end

namespace WrongHints

open scoped Revm

open Branches

/-- A code request for the hash `0` that is fetched at `address`, where the node answers `bytes`. -/
def fetchCode (address : Address) (bytes : Bytes) : List (OpenEvent keccak) :=
  [.outside .code (.send ⟨0, 1, some address⟩), .client (.manager .code .recvFetch),
    .client (.manager .code .serve), .client (.manager .code .spawn),
    .client (.manager .code .tryNext),
    .outside .code (.answer 0 (.getCodeAt address 1) (.ok bytes)),
    .client (.manager .code (.finish 0)), .client (.manager .code (.complete 0)),
    .client (.manager .code .recvDone)]

/-- The first hint is wrong.  A commit brings a contract with the hash of the second one's code. -/
def events : List (OpenEvent keccak) :=
  let contracts : HashMap B256 Bytecode := (∅ : HashMap B256 Bytecode).insert 0 ⟨[2], rfl⟩
  fetchCode 8 [] ++ fetchCode 7 [1] ++
    (.node (.chainCommitted (chain (block 1 10 11) { contracts := contracts })) false ::
      round).map .client

theorem isSome_replay :
    (Lts.replay (Sys.openStep ledger) (fun s e ↦ decide (s.Keyed e)) events start).isSome =
      true := by
  decide +kernel

def final : Sys keccak :=
  (Lts.replay (Sys.openStep ledger) (fun s e ↦ decide (s.Keyed e)) events start).get isSome_replay

/-- The wrong hint is refused, and the contract is held. -/
example : (final.layer.managers .code).replies.map (fun r ↦ r.result) =
      [.error (.codeHashMismatch 8 0 keccakEmpty), .ok ⟨[1], rfl⟩] ∧
    final.snapshot.code[(0 : B256)]? = some ⟨[2], rfl⟩ := by decide +kernel

end WrongHints

open scoped Revm in
open WrongHints in
/-- Bytecode after a wrong hint, a fetch and a commit. -/
theorem bytecodeIntact_of_run_wrongHints : final.BytecodeIntact :=
  bytecodeIntact_of_run (L := Branches.ledger) (Lts.Run.of_replay
    (Option.some_get isSome_replay).symm fun _ _ h ↦ of_decide_eq_true h)

end RexSim
