import RethExt.RexSim.AnyNode

/-!
# Fetches and the block they are for

Every query is sent by number, so what it is answered with depends on the block that is canonical
at that moment.  `FetchLayer.OnBranch` asks of the node what the client does not: a block that
answers a query of a tagged request is the block of the tag, or for a block hash its ancestor.

Then what is said under a tag is right for it, and a request gets no value when the node can no
longer answer one of its queries for the block: `pinnedToTag_of_run`.  For the second part the
request is followed from that answer on (`FetchManager.ErrorOnly`).  A call that was refused an
answer it needs does not return a value whatever else arrives.
-/

set_option autoImplicit false

namespace RexSim

/-! ## Calls that cannot succeed -/

/-- The answer gives what was asked for. -/
def Query.Found : (q : Query) → Except SimError q.Answer → Prop
  | .getBlockByNumber _, a => ∃ hash, a = .ok (some hash)
  | _, a => ∃ v, a = .ok v

/-- Whatever else arrives, the call does not return a value. -/
def RpcCall.Refused {R : Type} (call : RpcCall R) (answers : Answers) : Prop :=
  ∀ later : Answers, (∀ q a, answers q = some a → later q = some a) →
    ∀ resp, call.result later ≠ some (.returned (.ok resp))

theorem RpcCall.Refused.record {S : FetchSpec} {task : FetchTask S}
    (h : task.call.Refused task.answers) {q : Query} {a : Except SimError q.Answer}
    (hanswer : task.answers q = none) : task.call.Refused (task.record q a).answers := by
  refine fun later hlater ↦ h later fun q' a' ha' ↦ hlater q' a' ?_
  have hne : q' ≠ q := by
    rintro rfl
    rw [hanswer] at ha'
    cases ha'
  exact (Function.update_of_ne hne _ _).trans ha'

/-- A fetch returns a value only if each of its queries was answered with what it asks for. -/
def FetchSpec.Exacting (S : FetchSpec) : Prop :=
  ∀ ctx req answers resp, (S.fetch ctx req).result answers = some (.returned (.ok resp)) →
    ∀ q ∈ (S.fetch ctx req).queries, ∃ a, answers q = some a ∧ q.Found a

theorem exacting_spec [Revm] (keccak256 : Bytes → B256) (k : FetchKind) :
    (spec keccak256 k).Exacting := by
  intro ctx req answers resp h q hq
  cases k with
  | account =>
    obtain ⟨balance, nonce, code, hbalance, hnonce, hcode, -⟩ := getAccount_eq_ok h
    simp only [getAccount, List.mem_cons, List.not_mem_nil, or_false] at hq
    rcases hq with rfl | rfl | rfl
    · exact ⟨_, hbalance, balance, rfl⟩
    · exact ⟨_, hnonce, nonce, rfl⟩
    · exact ⟨_, hcode, code, rfl⟩
  | code =>
    obtain ⟨-, a, haddress, hcode⟩ := getCodeByHash_eq_ok h
    change q ∈ (getCodeByHash keccak256 _ (req.addressHint.or _) _).queries at hq
    rw [haddress] at hq
    rw [List.mem_singleton.mp hq]
    exact ⟨_, hcode, _, rfl⟩
  | storage =>
    rw [List.mem_singleton.mp hq]
    exact ⟨_, getStorage_eq_iff.mp h, resp, rfl⟩
  | blockHash =>
    rw [List.mem_singleton.mp hq]
    exact ⟨_, getBlockHash_eq_ok h, resp, rfl⟩

namespace FetchManager

section step

variable {S : FetchSpec} {m m' : FetchManager S} {e : ManagerEvent S} {id : ℕ}

/-- Nothing but an error can still be sent on the reply channel. -/
structure ErrorOnly (id : ℕ) (m : FetchManager S) : Prop where
  grounded : m.Grounded
  gone : m.Gone id
  tracks : m.Tracks (fun msg call answers ↦ msg.respondTo = id → call.Refused answers)
    fun msg result ↦ msg.respondTo = id → ∀ resp, result ≠ .ok resp

/-- **The step lemma.** -/
theorem ErrorOnly.step (h : m.ErrorOnly id) (hs : Step e m m') : m'.ErrorOnly id where
  grounded := h.grounded.step hs
  gone := h.gone.step hs
  tracks := by
    refine h.tracks.step h.grounded hs ?_ ?_ ?_ ?_
    · exact fun msg hphase hid ↦ absurd hid (h.gone.held msg (Phase.mem_held.mpr (Or.inr hphase)))
    · exact fun i q a _ t _ hnone hrefused hid ↦ (hrefused hid).record hnone
    · exact fun msg hphase _ hid ↦
        absurd hid (h.gone.held msg (Phase.mem_held.mpr (Or.inl hphase)))
    · rintro t - result hrefused hresult hid resp rfl
      exact hrefused hid t.answers (fun _ _ h ↦ h) resp hresult

/-- A task whose call was refused has nothing but an error to bring. -/
theorem Ticketed.errorOnly (h : m.Ticketed) (hground : m.Grounded) {t : FetchTask S}
    (ht : t ∈ m.tasks) (hrefused : t.call.Refused t.answers) : m.ErrorOnly t.respondTo := by
  have hrunning : t.message ∈ m.messagesAt .running := List.mem_map_of_mem ht
  refine ⟨hground, h.gone ht, fun t' ht' hid ↦ ?_, fun d hd hid ↦ ?_, fun r hr hid ↦ ?_⟩
  · rw [h.task_unique ht' ht hid]
    exact hrefused
  · exact absurd (List.mem_map.mpr ⟨_, List.mem_map_of_mem hd, hid⟩)
      (h.not_elsewhere hrunning (p := .completed) (by decide))
  · exact absurd (List.mem_map.mpr ⟨_, List.mem_map_of_mem hr, hid⟩)
      (h.not_elsewhere hrunning (p := .answered) (by decide))

/-- **An answer that refuses a query** of a fetch leaves its request nothing but an error. -/
theorem Transition.errorOnly (hS : S.Exacting) {i : ℕ} {q : Query} {a : Except SimError q.Answer}
    (h : m.Transition (.answer i q a) m') (hticketed : m'.Ticketed) (hground : m'.Grounded)
    {t : FetchTask S} (ht : m.tasks[i]? = some t) (ha : ¬ q.Found a) :
    m'.ErrorOnly t.respondTo := by
  cases h with
  | @answer i q a task htask hq hanswer hresult =>
    obtain rfl : task = t := Option.some.inj (htask.symm.trans ht)
    have hmem : task.record q a ∈ m.tasks.set i (task.record q a) :=
      List.mem_set (List.getElem?_eq_some_iff.mp htask).1 _
    obtain ⟨⟨ctx, hctx⟩, -⟩ := hground.task _ hmem
    change task.call = S.fetch ctx task.request at hctx
    refine hticketed.errorOnly (t := task.record q a) hground hmem fun later hlater resp hresp ↦ ?_
    change task.call.result later = _ at hresp
    rw [hctx] at hresp hq
    obtain ⟨a', ha', hfound⟩ := hS ctx _ later resp hresp q hq
    rw [hlater q a (Function.update_self _ _ _), Option.some.injEq] at ha'
    exact ha (ha' ▸ hfound)

end step

end FetchManager

/-! ## What the node can answer for a block -/

namespace Ledger

variable (L : Ledger)

/-- The block whose answer to the query is right for the block `h`: `h`, and its ancestor when the
hash of a block is asked for. -/
def asked (h : B256) : Query → B256
  | .getBlockByNumber number => L.lineage.ancestor h number
  | _ => h

/-- The query asks about the block `h` or below. -/
def Concerns (h : B256) : Query → Prop
  | .getBlockByNumber number => number < L.lineage.height h
  | _ => True

/-- A node whose canonical chain ends at `tip` can answer the query for the block `h`: the block at
its height is the one to ask. -/
def CanAnswer (tip h : B256) (q : Query) : Prop :=
  q.height ≤ L.lineage.height tip ∧ L.lineage.ancestor tip q.height = L.asked h q

variable {L} {tip h : B256} {q : Query}

/-- What the right block answers is right. -/
theorem rightAnswer_of_ancestor
    (hright : L.Concerns h q → q.height ≤ L.lineage.height tip →
      L.lineage.ancestor tip q.height = L.asked h q)
    {v : q.Answer} (hv : L.answer tip q = .ok v) : L.RightAnswer h q v := by
  rw [Ledger.answer.eq_def] at hv
  split at hv
  · rename_i hle
    cases hv
    cases q with
    | getBlockByNumber number =>
      rintro hlt hash ⟨⟩
      exact hright hlt hle
    | _ =>
      have heq := hright trivial hle
      exact congrArg (L.eval · _) heq
  · split at hv <;> cases hv
    exact fun _ _ h ↦ by cases h

/-- A node that cannot answer for the block has no answer, when it gives none but for the block. -/
theorem not_found_of_not_canAnswer (hcannot : ¬ L.CanAnswer tip h q)
    (hright : q.height ≤ L.lineage.height tip → L.lineage.ancestor tip q.height = L.asked h q) :
    ¬ q.Found (L.answer tip q) := by
  have hle : ¬ q.height ≤ L.lineage.height tip := fun hle ↦ hcannot ⟨hle, hright hle⟩
  rw [Ledger.answer.eq_def, if_neg hle]
  cases q <;> rintro ⟨v, hv⟩ <;> cases hv

end Ledger

namespace FetchLayer

variable [Revm] {keccak256 : Bytes → B256}

/-- A block that answers a query of a tagged request is the block of the tag, or its ancestor when
the hash of a block below it is asked for. -/
def OnBranch (L : Ledger) (s : FetchLayer keccak256) : LayerEvent keccak256 → Prop
  | .answer k i q false => ∀ t, (s.managers k).tasks[i]? = some t →
      ∀ tag, (spec keccak256 k).tag t.request = some tag → L.Concerns tag q →
        q.height ≤ L.lineage.height s.tip → L.lineage.ancestor s.tip q.height = L.asked tag q
  | _ => True

/-- **A fetch is pinned to its tag.** -/
structure PinnedToTag (L : Ledger) (s : FetchLayer keccak256) : Prop where
  /-- A value that is replied is that of the block of the request. -/
  replies : ∀ k, k ≠ .code → ∀ r ∈ (s.managers k).replies, ∀ resp, r.result = .ok resp →
    ∀ tag, (spec keccak256 k).tag r.request = some tag →
      L.Right keccak256 tag k ((spec keccak256 k).key r.request) resp
  /-- A value that is cached is that of the block the cache is tagged with. -/
  cached : ∀ k, k ≠ .code → ∀ key value, (s.managers k).cache[key]? = some value →
    L.Right keccak256 (s.managers k).cacheHash k key ((spec keccak256 k).hit value)
  /-- When a query comes to be answered that the node cannot answer for the block any more, the
  reply to its request is an error, whatever happens from then on. -/
  unanswerable : ∀ k, k ≠ .code → ∀ i q fails s₁, Step L (.answer k i q fails) s s₁ →
    s.OnBranch L (.answer k i q fails) → ∀ t, (s.managers k).tasks[i]? = some t →
      ∀ tag, (spec keccak256 k).tag t.request = some tag → L.Concerns tag q →
        ¬ L.CanAnswer s.tip tag q → ∀ s₂, Lts.Run (Step L) Lts.anyEvent s₁ s₂ →
          ∀ r ∈ (s₂.managers k).replies, r.respondTo = t.respondTo → ∃ e, r.result = .error e

variable {L : Ledger} {s s' : FetchLayer keccak256} {e : LayerEvent keccak256}

/-- An answer from the right block is a right answer. -/
theorem OnBranch.pinned (h : s.OnBranch L e) : s.Pinned L e := by
  cases e with
  | answer k i q fails =>
    cases fails with
    | true => trivial
    | false => exact fun t ht tag htag v hv ↦ Ledger.rightAnswer_of_ancestor (h t ht tag htag) hv
  | _ => trivial

/-- What carries `PinnedToTag` through a run. -/
structure PinInv (L : Ledger) (s : FetchLayer keccak256) : Prop where
  right : s.Right L
  grounded : ∀ k, (s.managers k).Grounded
  ticketed : ∀ k, (s.managers k).Ticketed

theorem pinInv_new (L : Ledger) (fetch : FetchConfig) (tip : B256) :
    (new keccak256 fetch tip).PinInv L where
  right := right_new L fetch tip
  grounded _ := FetchManager.grounded_new _ _ fetch
  ticketed _ := rfl

/-- **The step lemma.** -/
theorem PinInv.step (h : s.PinInv L) (hs : Step L e s s') (hok : s.OnBranch L e) : s'.PinInv L where
  right := h.right.step hs hok.pinned
  grounded := by
    rcases hs.advances with hadvances | heq
    · exact hadvances.grounded h.grounded
    · rw [heq]
      exact h.grounded
  ticketed := by
    rcases hs.advances with hadvances | heq
    · exact hadvances.preserves (P := fun _ m ↦ m.Ticketed)
        (fun _ _ _ _ h hm ↦ hm.transition.ticketed h) (fun _ _ h ↦ h) h.ticketed
    · rw [heq]
      exact h.ticketed

/-- **An answer the node cannot give for the block** leaves its request nothing but an error. -/
theorem PinInv.errorOnly (h : s.PinInv L) {k : FetchKind} (hk : k ≠ .code) {i : ℕ} {q : Query}
    {fails : Bool} (hs : Step L (.answer k i q fails) s s')
    (hok : s.OnBranch L (.answer k i q fails)) {t : FetchTask (spec keccak256 k)}
    (ht : (s.managers k).tasks[i]? = some t) {tag : B256}
    (htag : (spec keccak256 k).tag t.request = some tag) (hconcerns : L.Concerns tag q)
    (hcannot : ¬ L.CanAnswer s.tip tag q) : (s'.managers k).ErrorOnly t.respondTo := by
  have h' := h.step hs hok
  have hnot : ¬ q.Found (if fails then .error .rpc else L.answer s.tip q) := by
    cases fails with
    | true => cases q <;> rintro ⟨v, hv⟩ <;> cases hv
    | false => exact Ledger.not_found_of_not_canAnswer hcannot (hok t ht tag htag hconcerns)
  obtain ⟨m, hm, rfl⟩ := Option.map_eq_some_iff.mp (show s.step L _ = some s' from hs)
  have hmanager : (s.setManager k m).managers k = m := by
    rw [setManager_managers hk, Function.update_self]
  have hticketed := h'.ticketed k
  have hground := h'.grounded k
  rw [hmanager] at hticketed hground ⊢
  exact (FetchManager.Step.transition hm).errorOnly (exacting_spec keccak256 k) hticketed hground ht
    hnot

/-- What can only fail in one manager goes on to do so, whatever the layer does. -/
theorem errorOnly_of_run {k : FetchKind} (hk : k ≠ .code) {id : ℕ}
    (h : (s.managers k).ErrorOnly id) (hrun : Lts.Run (Step L) Lts.anyEvent s s') :
    (s'.managers k).ErrorOnly id := by
  induction hrun with
  | refl => exact h
  | tail _ hlast ih =>
    obtain ⟨e, hs, -⟩ := hlast
    rcases hs.manager hk with heq | ⟨e', hstep, -⟩
    · rw [heq]
      exact ih
    · exact ih.step hstep

theorem PinInv.pinnedToTag (h : s.PinInv L) : s.PinnedToTag L where
  replies k hk _ hr _ hresp _ htag :=
    (h.right k hk).sound.reply (h.right k hk).isolated hr hresp htag
  cached k hk _ _ hvalue :=
    (h.right k hk).sound.cached (epochGuarded_spec keccak256 hk) (h.right k hk).isolated hvalue
  unanswerable k hk i q fails s₁ hs hok t ht tag htag hconcerns hcannot s₂ hrun r hr hid := by
    have honly := errorOnly_of_run hk (h.errorOnly hk hs hok ht htag hconcerns hcannot) hrun
    have hne := honly.tracks.replies r hr hid
    cases hresult : r.result with
    | error e => exact ⟨e, rfl⟩
    | ok resp => exact absurd hresult (hne resp)

end FetchLayer

/-- **A fetch is pinned to its tag** in every run of the managers and the node in which a query is
answered by the block of the tag, or by its ancestor when it asks for a block hash. -/
theorem pinnedToTag_of_run [Revm] {keccak256 : Bytes → B256} {L : Ledger} {fetch : FetchConfig}
    {tip : B256} {s : FetchLayer keccak256}
    (h : Lts.Run (FetchLayer.Step L) (FetchLayer.OnBranch L) (.new keccak256 fetch tip) s) :
    s.PinnedToTag L :=
  (h.invariant (fun _ _ _ hinv hs hok ↦ hinv.step hs hok)
    (FetchLayer.pinInv_new L fetch tip)).pinnedToTag

namespace Reorged

open scoped Revm

/-- Two blocks at the height `1`, in whose states the slot `(7, 0)` differs. -/
def ledger : Ledger :=
  .ofList (fun h ↦ ⟨fun _ ↦ none, fun _ _ ↦ if h = 11 then 5 else if h = 12 then 6 else 0⟩)
    [{ header := ⟨1, 10, 11, []⟩ }, { header := ⟨1, 10, 12, []⟩ }] (by decide)

/-- A read of the slot at the block `11`, up to its fetch. -/
def asks (slot : U256) : List (LayerEvent fun _ ↦ 0) :=
  [.manager .storage (.send ⟨7, slot, 1, 11⟩), .manager .storage .recvFetch,
    .manager .storage .serve, .manager .storage .spawn, .manager .storage .tryNext]

/-- The node answers it, or fails to. -/
def answers (slot : U256) (fails : Bool) : List (LayerEvent fun _ ↦ 0) :=
  [.answer .storage 0 (.getStorageAt 7 slot 1) fails, .manager .storage (.finish 0),
    .manager .storage (.complete 0), .manager .storage .recvDone]

def start : FetchLayer fun _ ↦ 0 := .new _ {} 11

/-- One slot is answered from the block `11`; before another is, the node goes on to `12`, and has
no answer. -/
def refused : List (LayerEvent fun _ ↦ 0) :=
  asks 0 ++ answers 0 false ++ asks 1 ++ [.head 12] ++ answers 1 true

/-- The node has gone on to `12` before it answers. -/
def overtaken : List (LayerEvent fun _ ↦ 0) := asks 0 ++ [.head 12] ++ answers 0 false

/-- A storage query is answered by the block its request is tagged with, and no other query is. -/
def onBranch (s : FetchLayer fun _ ↦ 0) : LayerEvent (fun _ ↦ 0) → Bool
  | .answer .storage i q false => ((s.managers .storage).tasks[i]?).all fun t ↦
      ledger.lineage.ancestor s.tip q.height == ledger.asked t.request.blockHash q
  | .answer _ _ _ fails => fails
  | _ => true

theorem onBranch_of_check {s : FetchLayer fun _ ↦ 0} {e : LayerEvent fun _ ↦ 0}
    (h : onBranch s e = true) : s.OnBranch ledger e := by
  rw [onBranch.eq_def] at h
  split at h
  · rename_i i q
    rintro t ht tag ⟨⟩ - -
    rw [ht, Option.all_some, beq_iff_eq] at h
    exact h
  · subst h
    trivial
  · rename_i hanswer
    cases e with
    | answer k i q fails => exact absurd rfl (hanswer k i q fails)
    | _ => trivial

theorem isSome_replay_refused :
    (Lts.replay (FetchLayer.step ledger) onBranch refused start).isSome = true := by
  decide +kernel

def undisturbed : FetchLayer fun _ ↦ 0 :=
  (Lts.replay (FetchLayer.step ledger) onBranch refused start).get isSome_replay_refused

theorem isSome_replay_overtaken :
    (Lts.replay (FetchLayer.step ledger) Lts.anyCheck overtaken start).isSome = true := by
  decide +kernel

def replaced : FetchLayer fun _ ↦ 0 :=
  (Lts.replay (FetchLayer.step ledger) Lts.anyCheck overtaken start).get isSome_replay_overtaken

end Reorged

open scoped Revm in
open Reorged in
/-- A value from the block of the tag, and an error once that block is gone. -/
theorem pinnedToTag_of_run_undisturbed :
    (undisturbed.managers .storage).replies.map (fun r ↦ r.result.toOption) = [some 5, none] ∧
      undisturbed.PinnedToTag ledger :=
  ⟨by decide +kernel, pinnedToTag_of_run
    (Lts.Run.of_replay (Option.some_get isSome_replay_refused).symm fun _ _ ↦ onBranch_of_check)⟩

open scoped Revm in
open Reorged in
/-- **A fetch is answered from another block.**  The request is tagged with the block `11`, in whose
state the slot holds `5`; the node goes on to `12` before it answers, and the reply and the cache
under the tag `11` say `6`. -/
theorem not_pinnedToTag_of_head :
    Lts.Run (FetchLayer.Step ledger) Lts.anyEvent (.new (fun _ ↦ 0) {} 11) replaced ∧
      (replaced.managers .storage).replies.map (fun r ↦ (r.request, r.result.toOption)) =
        [(⟨7, 0, 1, 11⟩, some 6)] ∧
      (replaced.managers .storage).cacheHash = 11 ∧
      (replaced.managers .storage).cache[((7, 0) : SlotKey)]? = some 6 ∧
      (ledger.state 11).storage 7 0 = 5 ∧ ¬ replaced.PinnedToTag ledger := by
  have hcached : (replaced.managers .storage).cache[((7, 0) : SlotKey)]? = some 6 := by
    decide +kernel
  have htag : (replaced.managers .storage).cacheHash = 11 := by decide +kernel
  refine ⟨Lts.Run.of_replay (Option.some_get isSome_replay_overtaken).symm fun _ _ _ ↦ trivial,
    by decide +kernel, htag, hcached, rfl, fun h ↦ ?_⟩
  have hright := h.cached .storage (by decide) (7, 0) 6 hcached
  rw [htag] at hright
  exact absurd (show (6 : U256) = 5 from hright) (by decide)

end RexSim
