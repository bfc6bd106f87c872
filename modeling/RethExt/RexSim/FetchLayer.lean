import RethExt.RexSim.Isolation

/-!
# The fetch layer and the node

The four managers together, and the node that answers their queries.  The canonical chain of the
node may end on any block and change at any moment (`head`), and a query is answered from the block
that is canonical at its height at that moment, or with an error.

`FetchManager.Sound` carries a property of answers to a property of replies and cached values, for
any epoch-guarded manager: if every answer a task receives is right for the tag of its request, then
so is everything the manager says under a tag.  The layer instantiates it with the ledger: `Pinned`
says that a query is answered by a canonical block that gives the answer of the block the request is
tagged with.
-/

set_option autoImplicit false

namespace RexSim

/-! ## Soundness of one manager -/

/-- Answers that are right for a tag lead to a response that is right for it. -/
def FetchSpec.Lawful (S : FetchSpec) (RightAnswer : B256 → (q : Query) → q.Answer → Prop)
    (Right : B256 → S.Key → S.Resp → Prop) : Prop :=
  ∀ ctx req tag, S.tag req = some tag → ∀ answers : Answers,
    (∀ q v, answers q = some (.ok v) → RightAnswer tag q v) →
      ∀ resp, (S.fetch ctx req).result answers = some (.returned (.ok resp)) →
        Right tag (S.key req) resp

namespace FetchManager

variable {S : FetchSpec} {RightAnswer : B256 → (q : Query) → q.Answer → Prop}
  {Right : B256 → S.Key → S.Resp → Prop} {m m' : FetchManager S}

variable (RightAnswer Right) in
/-- The answers that have arrived are right for the tags of their tasks, and the results of the
completions for the tags of their requests. -/
structure Sound (m : FetchManager S) : Prop where
  task : ∀ t ∈ m.tasks, ∀ tag, S.tag t.request = some tag →
    ∀ q v, t.answers q = some (.ok v) → RightAnswer tag q v
  completion : ∀ d ∈ m.completionRx, ∀ tag, S.tag d.request = some tag →
    ∀ resp, d.result = .ok resp → Right tag (S.key d.request) resp
  processed : ∀ d ∈ m.processed, ∀ tag, S.tag d.request = some tag →
    ∀ resp, d.result = .ok resp → Right tag (S.key d.request) resp

variable (RightAnswer) in
/-- An event brings no answer but one that is right for the tag of its task. -/
def AnswersRight (m : FetchManager S) (e : ManagerEvent S) : Prop :=
  ∀ i q v, e = .answer i q (.ok v) → ∀ t, m.tasks[i]? = some t →
    ∀ tag, S.tag t.request = some tag → RightAnswer tag q v

theorem sound_new (S : FetchSpec) (Right : B256 → S.Key → S.Resp → Prop) (ctx : S.Ctx)
    (fetch : FetchConfig) : (new S ctx fetch).Sound RightAnswer Right where
  task _ h := absurd h List.not_mem_nil
  completion _ h := absurd h List.not_mem_nil
  processed _ h := absurd h List.not_mem_nil

/-- **The step lemma.** -/
theorem Sound.step (hlaw : S.Lawful RightAnswer Right) (hiso : m.Isolated)
    (h : m.Sound RightAnswer Right) {e : ManagerEvent S} (hs : Step e m m')
    (hok : m.AnswersRight RightAnswer e) : m'.Sound RightAnswer Right where
  task t ht tag htag q' v hv := by
    cases hs.transition.taskFrom ht with
    | kept ht => exact h.task t ht tag htag q' v hv
    | spawned => cases hv
    | @answered i q a task htask =>
      refine FetchTask.forall_record (P := fun q a ↦ ∀ v, a = .ok v → RightAnswer tag q v)
        ?_ ?_ q' _ hv v rfl
      · rintro v rfl
        exact hok i q v rfl task htask tag htag
      · rintro q _ hold v rfl
        exact h.task task (List.mem_of_getElem? htask) tag htag q v hold
    | @finished i task result htask => exact h.task task htask tag htag q' v hv
  completion d hd tag htag resp hresp := by
    rcases hs.transition.completionFrom hd with hd | ⟨task, htask, result, hresult, rfl⟩
    · exact h.completion d hd tag htag resp hresp
    · obtain ⟨⟨ctx, hctx⟩, hcall⟩ := (hiso.task task htask).2
      have hres := hcall _ hresult
      rw [hctx, show result = .ok resp from hresp] at hres
      exact hlaw ctx task.request tag htag task.answers (h.task task htask tag htag) resp hres
  processed d hd := (hs.transition.processedFrom hd).elim (h.processed d) (h.completion d)

/-- **What a sound manager replies** is right for the tag of the request. -/
theorem Sound.reply (hiso : m.Isolated) (h : m.Sound RightAnswer Right) {r : Reply S}
    (hr : r ∈ m.replies) {resp : S.Resp} (hresp : r.result = .ok resp) {tag : B256}
    (htag : S.tag r.request = some tag) : Right tag (S.key r.request) resp := by
  obtain ⟨d, hd, hdtag, hkey, hres⟩ := hiso.replies r hr resp hresp
  rw [← hkey]
  exact h.processed d hd tag (hdtag.trans htag) resp hres

/-- **What a sound manager caches** is right for the tag of the cache. -/
theorem Sound.cached (hS : S.EpochGuarded) (hiso : m.Isolated) (h : m.Sound RightAnswer Right)
    {k : S.Key} {value : S.Val} (hk : m.cache[k]? = some value) :
    Right m.cacheHash k (S.hit value) := by
  obtain ⟨d, hd, hepoch, rfl, hstored⟩ := hiso.cached k value hk
  obtain ⟨resp, hresp, hstore⟩ := FetchDone.exists_of_stored hstored
  rw [hS.hit_of_store resp value hstore]
  exact h.processed d hd _ ((hiso.processed d hd).1.2 hepoch) resp hresp

/-! ## What a manager is asked -/

/-- Every request the manager has ever been sent satisfies `P`. -/
structure Asks (P : S.Req → Prop) (m : FetchManager S) : Prop where
  fetchRx : ∀ msg ∈ m.fetchRx, P msg.request
  phase : ∀ msg, m.phase = .handle msg ∨ m.phase = .acquire msg → P msg.request
  task : ∀ t ∈ m.tasks, P t.request
  completion : ∀ d ∈ m.completionRx, P d.request
  processed : ∀ d ∈ m.processed, P d.request

variable {P : S.Req → Prop}

theorem asks_new (P : S.Req → Prop) (ctx : S.Ctx) (fetch : FetchConfig) :
    (new S ctx fetch).Asks P where
  fetchRx _ h := absurd h List.not_mem_nil
  phase _ h := by rcases h with h | h <;> cases h
  task _ h := absurd h List.not_mem_nil
  completion _ h := absurd h List.not_mem_nil
  processed _ h := absurd h List.not_mem_nil

/-- **The step lemma.**  A step asks for nothing but what is sent. -/
theorem Asks.step (h : m.Asks P) {e : ManagerEvent S} (hs : Step e m m')
    (hsend : ∀ req, e = .send req → P req) : m'.Asks P where
  fetchRx msg hmsg := by
    rcases hs.transition.queuedFrom hmsg with hmsg | ⟨req, he, rfl⟩
    · exact h.fetchRx msg hmsg
    · exact hsend req he
  phase msg hmsg := (hs.transition.heldFrom hmsg).elim (h.phase msg) (h.fetchRx msg)
  task t ht := by
    cases hs.transition.taskFrom ht with
    | kept ht => exact h.task t ht
    | @spawned msg hphase => exact h.phase msg (Or.inr hphase)
    | @answered i q a task htask => exact h.task task (List.mem_of_getElem? htask)
    | @finished i task result htask => exact h.task task htask
  completion d hd := by
    rcases hs.transition.completionFrom hd with hd | ⟨task, htask, result, -, rfl⟩
    · exact h.completion d hd
    · exact h.task task htask
  processed d hd := (hs.transition.processedFrom hd).elim (h.processed d) (h.completion d)

end FetchManager

/-! ## What is right -/

variable [Revm]

/-- The response to a request for a key, tagged with the block `h`, is the value at `h`: an account
or a slot in the state after `h`, and below `h` the hash of its ancestor. -/
def Ledger.Right (L : Ledger) (keccak256 : Bytes → B256) (h : B256) :
    (k : FetchKind) → (spec keccak256 k).Key → (spec keccak256 k).Resp → Prop
  | .account, address, info => info = some ((L.state h).info keccak256 address)
  | .code, _, _ => True
  | .storage, key, value => value = (L.state h).storage key.1 key.2
  | .blockHash, number, hash => number < L.lineage.height h → hash = L.lineage.ancestor h number

theorem Ledger.lawful (L : Ledger) (keccak256 : Bytes → B256) (k : FetchKind) :
    (spec keccak256 k).Lawful L.RightAnswer fun h ↦ L.Right keccak256 h k := by
  intro ctx req tag htag answers hanswers resp hresp
  cases k with
  | account =>
    obtain ⟨balance, nonce, code, hbalance, hnonce, hcode, rfl⟩ := getAccount_eq_ok hresp
    rw [Ledger.Right, L.info_eq_eval keccak256 tag req.address req.block]
    rw [hanswers _ _ hbalance, hanswers _ _ hnonce, hanswers _ _ hcode]
  | code => trivial
  | storage => exact hanswers _ _ (getStorage_eq_iff.mp hresp)
  | blockHash => exact fun hlt ↦ hanswers _ _ (getBlockHash_eq_ok hresp) hlt _ rfl

/-! ## The layer -/

/-- The four managers, and the tip of the node's canonical chain. -/
structure FetchLayer (keccak256 : Bytes → B256) where
  managers : (k : FetchKind) → FetchManager (spec keccak256 k)
  tip : B256

inductive LayerEvent (keccak256 : Bytes → B256)
  /-- A step of one manager that takes nothing from the node or from another manager. -/
  | manager (k : FetchKind) (e : ManagerEvent (spec keccak256 k))
  /-- The node answers a query, or fails to. -/
  | answer (k : FetchKind) (task : ℕ) (query : Query) (fails : Bool)
  /-- The canonical chain ends on another block. -/
  | head (tip : B256)

/-- The event takes nothing from outside the manager but requests. -/
def ManagerEvent.isLocal {S : FetchSpec} : ManagerEvent S → Bool
  | .answer _ _ _ => false
  | .sendSide _ => false
  | _ => true

namespace FetchLayer

variable {keccak256 : Bytes → B256}

/-- The managers at their creation. -/
def new (keccak256 : Bytes → B256) (fetch : FetchConfig) (tip : B256) : FetchLayer keccak256 where
  managers k := .new (spec keccak256 k) (initialCtx keccak256 k) fetch
  tip := tip

/-- One manager has taken a step: what the account manager sent meanwhile is in the side channel of
the code manager. -/
def setManager (s : FetchLayer keccak256) (k : FetchKind) (m : FetchManager (spec keccak256 k)) :
    FetchLayer keccak256 :=
  let managers := Function.update s.managers k m
  let registrations : List CodeRegistration :=
    (managers .account).ctx.drop (s.managers .account).ctx.length
  let code := managers .code
  { s with
    managers :=
      Function.update managers .code { code with sideRx := code.sideRx ++ registrations } }

def step (L : Ledger) (s : FetchLayer keccak256) :
    LayerEvent keccak256 → Option (FetchLayer keccak256)
  | .manager k e => if e.isLocal then ((s.managers k).step e).map (s.setManager k) else none
  | .answer k i q fails =>
    ((s.managers k).step (.answer i q (if fails then .error .rpc else L.answer s.tip q))).map
      (s.setManager k)
  | .head tip => some { s with tip := tip }

abbrev Step (L : Ledger) :
    LayerEvent keccak256 → FetchLayer keccak256 → FetchLayer keccak256 → Prop :=
  Lts.Executes (step L)

/-- A query of a tagged request is answered by a canonical block that gives the answer of the
block it is tagged with, or not at all. -/
def Pinned (L : Ledger) (s : FetchLayer keccak256) : LayerEvent keccak256 → Prop
  | .answer k i q false => ∀ t, (s.managers k).tasks[i]? = some t →
      ∀ tag, (spec keccak256 k).tag t.request = some tag →
        ∀ v, L.answer s.tip q = .ok v → L.RightAnswer tag q v
  | _ => True

variable {L : Ledger} {s s' : FetchLayer keccak256} {e : LayerEvent keccak256}

/-- Setting one manager leaves the others alone, but for the side channel of the code manager. -/
theorem setManager_managers {k j : FetchKind} (hj : j ≠ .code)
    (m : FetchManager (spec keccak256 k)) :
    (s.setManager k m).managers j = Function.update s.managers k m j := by
  rw [setManager]
  exact Function.update_of_ne hj _ _

/-- **What a step of the layer is to one manager**: nothing, or one of its own steps, which brings
no wrong answer if the layer's event is pinned, and a request only if the layer's event does. -/
def StepsTo (L : Ledger) (s s' : FetchLayer keccak256) (e : LayerEvent keccak256)
    (k : FetchKind) : Prop :=
  s'.managers k = s.managers k ∨
    ∃ e', FetchManager.Step e' (s.managers k) (s'.managers k) ∧
      ((∀ i q, e = .answer k i q false → s.Pinned L e) →
        (s.managers k).AnswersRight L.RightAnswer e') ∧
      ∀ req, e' = .send req → e = .manager k (.send req)

private theorem setManager_stepsTo {j k : FetchKind} (hk : k ≠ .code)
    {m : FetchManager (spec keccak256 j)} {e' : ManagerEvent (spec keccak256 j)}
    (hstep : FetchManager.Step e' (s.managers j) m)
    (hright : (∀ i q, e = .answer j i q false → s.Pinned L e) →
      (s.managers j).AnswersRight L.RightAnswer e')
    (hsend : ∀ req, e' = .send req → e = .manager j (.send req)) :
    StepsTo L s (s.setManager j m) e k := by
  rw [StepsTo, setManager_managers hk]
  by_cases hjk : j = k
  · subst hjk
    rw [Function.update_self]
    exact Or.inr ⟨e', hstep, hright, hsend⟩
  · rw [Function.update_of_ne (Ne.symm hjk)]
    exact Or.inl rfl

theorem Step.manager (h : Step L e s s') {k : FetchKind} (hk : k ≠ .code) :
    StepsTo L s s' e k := by
  replace h : s.step L e = some s' := h
  cases e with
  | manager j e' =>
    rw [step] at h
    split at h
    · rename_i hlocal
      obtain ⟨m, hm, rfl⟩ := Option.map_eq_some_iff.mp h
      refine setManager_stepsTo hk hm (fun _ i q v he ↦ ?_) (fun req he ↦ by rw [he])
      rw [he] at hlocal
      cases hlocal
    · cases h
  | answer j i q fails =>
    rw [step] at h
    obtain ⟨m, hm, rfl⟩ := Option.map_eq_some_iff.mp h
    refine setManager_stepsTo hk hm (fun hpinned i' q' v he ↦ ?_) (fun _ he ↦ by cases he)
    injection he with hi hq hv
    subst hi hq
    cases fails with
    | true => cases eq_of_heq hv
    | false => exact fun t ht tag htag ↦ hpinned i q rfl t ht tag htag v (eq_of_heq hv)
  | head tip =>
    cases h
    exact Or.inl rfl

/-- The canonical chain is changed by its own event alone. -/
theorem Step.tip (h : Step L e s s') :
    s'.tip = match e with
      | .head tip => tip
      | _ => s.tip := by
  replace h : s.step L e = some s' := h
  cases e with
  | manager j e' =>
    rw [step] at h
    split at h
    · obtain ⟨m, -, rfl⟩ := Option.map_eq_some_iff.mp h
      rfl
    · cases h
  | answer j i q fails =>
    obtain ⟨m, -, rfl⟩ := Option.map_eq_some_iff.mp h
    rfl
  | head tip =>
    cases h
    rfl

/-- One manager of the layer is isolated, and sound for the ledger. -/
structure RightAt (L : Ledger) (s : FetchLayer keccak256) (k : FetchKind) : Prop where
  isolated : (s.managers k).Isolated
  sound : (s.managers k).Sound L.RightAnswer fun h ↦ L.Right keccak256 h k

theorem rightAt_new (L : Ledger) (fetch : FetchConfig) (tip : B256) (k : FetchKind) :
    (new keccak256 fetch tip).RightAt L k :=
  ⟨FetchManager.isolated_new _ _ fetch, FetchManager.sound_new _ _ _ fetch⟩

/-- **The step lemma.**  Only the answers to its own queries matter to a manager. -/
theorem RightAt.step {k : FetchKind} (hk : k ≠ .code) (h : s.RightAt L k) (hs : Step L e s s')
    (hok : ∀ i q, e = .answer k i q false → s.Pinned L e) : s'.RightAt L k := by
  have hS := epochGuarded_spec keccak256 hk
  rcases hs.manager hk with heq | ⟨e', hstep, hright, -⟩
  · exact ⟨by rw [heq]; exact h.isolated, by rw [heq]; exact h.sound⟩
  · exact ⟨h.isolated.step hS hstep,
      h.sound.step (L.lawful keccak256 k) h.isolated hstep (hright hok)⟩

/-- Every epoch-guarded manager of the layer is isolated, and sound for the ledger. -/
def Right (L : Ledger) (s : FetchLayer keccak256) : Prop := ∀ k, k ≠ .code → s.RightAt L k

theorem right_new (L : Ledger) (fetch : FetchConfig) (tip : B256) :
    (new keccak256 fetch tip).Right L :=
  fun k _ ↦ rightAt_new L fetch tip k

theorem Right.step (h : s.Right L) (hs : Step L e s s') (hok : s.Pinned L e) : s'.Right L :=
  fun k hk ↦ (h k hk).step hk hs fun _ _ _ ↦ hok

end FetchLayer

end RexSim
