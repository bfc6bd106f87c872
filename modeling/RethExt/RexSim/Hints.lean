import RethExt.RexSim.AnyNode

/-!
# Code hints

Code is asked for by its hash, and the node is asked by address.  The account manager registers the
address of every account it replies with, over a channel to the code manager, and the code manager
keeps the last address registered under each hash.

A registration is on its way before the reply that it belongs to, but the code manager empties the
channel only when `select!` takes a message; the requests it pulls after that are served with the
hints it has.  `codeFetchable_of_run` says what is missing for every code request to be fetched, and
`hintedFetch_of_run` what becomes of a fetch at the address that was registered last.
-/

set_option autoImplicit false

open Std

namespace RexSim

section

variable [Revm] {keccak256 : Bytes → B256}

/-! ## The hint table -/

/-- The address registered last under the hash. -/
def lastRegistered (regs : List CodeRegistration) (h : B256) : Option Address :=
  (regs.reverse.find? fun reg ↦ reg.codeHash == h).map CodeRegistration.address

/-- **The hint table** holds the address registered last under each hash. -/
theorem foldl_onSide_hashToAddress (regs : List CodeRegistration) (hints : CodeHints) (h : B256) :
    (regs.foldl (codeSpec keccak256).onSide hints).hashToAddress[h]? =
      (lastRegistered regs h).or hints.hashToAddress[h]? := by
  induction regs generalizing hints with
  | nil => rfl
  | cons reg regs ih =>
    have hreg : ((codeSpec keccak256).onSide hints reg).hashToAddress[h]? =
        if reg.codeHash = h then some reg.address else hints.hashToAddress[h]? := by
      simp only [ExtTreeMap.getElem?_insert, LawfulEqCmp.compare_eq_iff_eq]
    rw [List.foldl_cons, ih, hreg, lastRegistered, lastRegistered, List.reverse_cons,
      List.find?_append]
    cases regs.reverse.find? fun reg ↦ reg.codeHash == h with
    | some r => rfl
    | none =>
      by_cases hh : reg.codeHash = h
      · simp [hh]
      · simp [hh]

omit [Revm] in
theorem mem_of_lastRegistered {regs : List CodeRegistration} {h : B256} {a : Address}
    (ha : lastRegistered regs h = some a) : ∃ reg ∈ regs, reg.codeHash = h ∧ reg.address = a := by
  obtain ⟨reg, hfind, rfl⟩ := Option.map_eq_some_iff.mp ha
  exact ⟨reg, List.mem_reverse.mp (List.mem_of_find?_eq_some hfind),
    by simpa using List.find?_some hfind, rfl⟩

omit [Revm] in
theorem exists_lastRegistered {regs : List CodeRegistration} {h : B256}
    (hreg : ∃ reg ∈ regs, reg.codeHash = h) : ∃ a, lastRegistered regs h = some a := by
  obtain ⟨reg, hmem, hh⟩ := hreg
  cases hf : regs.reverse.find? fun reg ↦ reg.codeHash == h with
  | none =>
    exact absurd hh (by simpa using List.find?_eq_none.mp hf reg (List.mem_reverse.mpr hmem))
  | some r => exact ⟨r.address, by rw [lastRegistered, hf]; rfl⟩

/-! ## How a code fetch ends -/

variable (keccak256) in
/-- What the client makes of the code it was answered for an address. -/
def codeResult (codeHash : B256) (address : Address) (code : Bytes) : CallOutcome Bytecode :=
  if codeHashOf keccak256 code ≠ codeHash then
    .returned (.error (.codeHashMismatch address codeHash (codeHashOf keccak256 code)))
  else if h : Revm.takes code = true then .returned (.ok (.newRaw code h))
  else .panicked

/-- A fetch at an address ends with what is made of the answer, or with an RPC error. -/
theorem getCodeByHash_result {Told : (q : Query) → Option q.Answer → Prop} {codeHash : B256}
    {address : Address} {block : ℕ} {answers : Answers} {outcome : CallOutcome Bytecode}
    (hanswers : GivenBy Told answers)
    (h : (getCodeByHash keccak256 codeHash (some address) block).result answers = some outcome) :
    (Told (.getCodeAt address block) none ∧ outcome = .returned (.error .rpc)) ∨
      ∃ code, Told (.getCodeAt address block) (some code) ∧
        outcome = codeResult keccak256 codeHash address code := by
  obtain ⟨answer, hanswer, hr⟩ := Option.map_eq_some_iff.mp h
  obtain ⟨o, rfl, htold⟩ := hanswers _ _ hanswer
  cases o with
  | none => exact Or.inl ⟨htold, hr.symm⟩
  | some code => exact Or.inr ⟨code, htold, hr.symm⟩

/-- No answer makes a fetch at an address fail for want of one. -/
theorem ne_missing_of_codeResult {codeHash : B256} {address : Address} {code : Bytes}
    {result : Except SimError Bytecode}
    (h : codeResult keccak256 codeHash address code = .returned result) (hash : B256) :
    result ≠ .error (.missingAddressHint hash) := by
  rintro rfl
  rw [codeResult] at h
  split at h
  · cases h
  · split at h <;> cases h

/-! ## The channel of registrations -/

namespace FetchManager

variable {S : FetchSpec} {m m' : FetchManager S} {e : ManagerEvent S}

omit [Revm] in
/-- **What a step does to the context**: nothing, or it takes in the side channel, or a completion
is applied to it. -/
theorem Transition.context (h : m.Transition e m') (hside : ∀ msg, e ≠ .sendSide msg) :
    (m'.ctx = m.ctx ∧ m'.sideRx = m.sideRx ∧ m'.processed = m.processed) ∨
      (m'.ctx = m.sideRx.foldl S.onSide m.ctx ∧ m'.sideRx = [] ∧ m'.processed = m.processed) ∨
      ∃ d, m'.ctx = m.ctxAfter d ∧ m'.sideRx = m.sideRx ∧ m'.processed = m.processed ++ [d] := by
  cases h with
  | sendSide msg => exact absurd rfl (hside msg)
  | drain | recvDone => exact Or.inr (Or.inr ⟨_, rfl, rfl, rfl⟩)
  | recvSide | recvFetch => exact Or.inr (Or.inl ⟨rfl, rfl, rfl⟩)
  | @serve msg =>
    refine Or.inl ⟨?_, ?_, ?_⟩
    · exact field_serve FetchManager.ctx (fun _ _ _ _ ↦ rfl) (fun _ _ _ ↦ rfl) m msg
    · exact field_serve FetchManager.sideRx (fun _ _ _ _ ↦ rfl) (fun _ _ _ ↦ rfl) m msg
    · exact field_serve FetchManager.processed (fun _ _ _ _ ↦ rfl) (fun _ _ _ ↦ rfl) m msg
  | _ => exact Or.inl ⟨rfl, rfl, rfl⟩

end FetchManager

namespace FetchLayer

variable {s s' : FetchLayer keccak256} {e : AnyEvent keccak256}

/-- The registrations the code manager has taken in: all that were sent but those in the channel. -/
def takenIn (s : FetchLayer keccak256) : List CodeRegistration :=
  (s.managers .account).ctx.take
    ((s.managers .account).ctx.length - (s.managers .code).sideRx.length)

/-- What was registered is what was taken in and what is in the channel, the hints are those taken
in, and every account that was fetched is registered. -/
structure Registers (s : FetchLayer keccak256) : Prop where
  channel : (s.managers .account).ctx = s.takenIn ++ (s.managers .code).sideRx
  hints : (s.managers .code).ctx = s.takenIn.foldl (codeSpec keccak256).onSide {}
  fetched : ∀ d ∈ (s.managers .account).processed, ∀ info, d.result = .ok (some info) →
    ⟨info.codeHash, d.request.address⟩ ∈ (s.managers .account).ctx

/-- What is registered is known by the registrations that were taken in. -/
theorem takenIn_eq {taken : List CodeRegistration}
    (h : (s.managers .account).ctx = taken ++ (s.managers .code).sideRx) : s.takenIn = taken := by
  rw [takenIn, h, List.length_append, Nat.add_sub_cancel, List.take_left']
  rfl

theorem Registers.of_taken {t : List CodeRegistration}
    (h : (s.managers .account).ctx = t ++ (s.managers .code).sideRx)
    (hhints : (s.managers .code).ctx = t.foldl (codeSpec keccak256).onSide {})
    (hfetched : ∀ d ∈ (s.managers .account).processed, ∀ info, d.result = .ok (some info) →
      ⟨info.codeHash, d.request.address⟩ ∈ (s.managers .account).ctx) : s.Registers :=
  ⟨by rw [takenIn_eq h, h], by rw [takenIn_eq h, hhints], hfetched⟩

theorem registers_new (fetch : FetchConfig) (tip : B256) : (new keccak256 fetch tip).Registers :=
  .of_taken (t := []) rfl rfl fun _ hd ↦ absurd hd List.not_mem_nil

/-- A step of the account manager puts what it registers into the side channel. -/
theorem setManager_account_code (m : FetchManager (accountSpec keccak256)) :
    (s.setManager .account m).managers .code =
      { s.managers .code with
        sideRx := (s.managers .code).sideRx ++
          m.ctx.drop (s.managers .account).ctx.length } := by
  rw [setManager_code]
  rfl

omit [Revm] in
/-- **What a step of the account manager registers**: what it sends is appended, and an account it
has fetched is in it. -/
theorem exists_registered {m m' : FetchManager (accountSpec keccak256)}
    {e : ManagerEvent (accountSpec keccak256)} (hs : FetchManager.Step e m m') :
    ∃ new, m'.ctx = m.ctx ++ new ∧
      ∀ d ∈ m'.processed, d ∈ m.processed ∨ ∀ info, d.result = .ok (some info) →
        ⟨info.codeHash, d.request.address⟩ ∈ new := by
  rcases hs.transition.context nofun with ⟨hctx, -, hproc⟩ | ⟨hctx, -, hproc⟩ | ⟨d, hctx, -, hproc⟩
  · exact ⟨[], by rw [hctx, List.append_nil], fun d hd ↦ Or.inl (hproc ▸ hd)⟩
  · refine ⟨[], ?_, fun d hd ↦ Or.inl (hproc ▸ hd)⟩
    rw [hctx, List.append_nil]
    cases m.sideRx with
    | nil => rfl
    | cons msg _ => exact msg.elim
  · have hnew : ∃ new, m'.ctx = m.ctx ++ new ∧ ∀ info, d.result = .ok (some info) →
        ⟨info.codeHash, d.request.address⟩ ∈ new := by
      rw [hctx, FetchManager.ctxAfter]
      cases d.result with
      | error e => exact ⟨[], by simp, nofun⟩
      | ok resp =>
        cases resp with
        | none => exact ⟨[], by simp, nofun⟩
        | some info =>
          refine ⟨[⟨info.codeHash, d.request.address⟩], rfl, ?_⟩
          rintro _ ⟨⟩
          exact List.mem_cons_self
    obtain ⟨new, hctx, hinfo⟩ := hnew
    refine ⟨new, hctx, fun d' hd' ↦ ?_⟩
    rw [hproc] at hd'
    rcases List.mem_append.mp hd' with hd' | hd'
    · exact Or.inl hd'
    · rw [List.mem_singleton.mp hd']
      exact Or.inr hinfo

/-- What has been registered stays so. -/
theorem StepAny.registered_subset (hs : StepAny e s s') :
    (s.managers .account).ctx ⊆ (s'.managers .account).ctx := by
  obtain ⟨k, e', m, hm, rfl, -⟩ := hs.exists_step
  rw [setManager_managers (by decide)]
  by_cases hk : k = .account
  · subst hk
    obtain ⟨new, hctx, -⟩ := exists_registered hm
    rw [Function.update_self, hctx]
    exact List.subset_append_left _ _
  · rw [Function.update_of_ne (Ne.symm hk)]
    exact List.Subset.refl _

/-- **The step lemma.** -/
theorem Registers.step (h : s.Registers) (hs : StepAny e s s') : s'.Registers := by
  obtain ⟨k, e', m, hm, rfl, hside, -⟩ := hs.exists_step
  cases k with
  | account =>
    obtain ⟨new, hctx, hnew⟩ := exists_registered hm
    have hacc : (s.setManager .account m).managers .account = m := by
      rw [setManager_managers (by decide), Function.update_self]
    have hdrop : m.ctx.drop (s.managers .account).ctx.length = new := by
      rw [hctx, List.drop_left]
    refine .of_taken (t := s.takenIn) ?_ ?_ ?_
    · rw [hacc, setManager_account_code, hdrop, hctx, h.channel, List.append_assoc]
    · rw [setManager_account_code]
      exact h.hints
    · rw [hacc, hctx]
      intro d hd info hinfo
      rcases hnew d hd with hold | hnew
      · exact List.mem_append_left _ (h.fetched d hold info hinfo)
      · exact List.mem_append_right _ (hnew info hinfo)
  | code =>
    have hcode : (s.setManager .code m).managers .code = m := by
      rw [setManager_code_of_ne (by decide), Function.update_self]
    have hacc : (s.setManager .code m).managers .account = s.managers .account := by
      rw [setManager_managers (by decide), Function.update_of_ne (by decide)]
    rcases hm.transition.context hside with ⟨hctx, hrx, -⟩ | ⟨hctx, hrx, -⟩ | ⟨d, hctx, hrx, -⟩
    · refine .of_taken (t := s.takenIn) ?_ ?_ ?_
      · rw [hacc, hcode, hrx]
        exact h.channel
      · rw [hcode, hctx]
        exact h.hints
      · rw [hacc]
        exact h.fetched
    · refine .of_taken (t := s.takenIn ++ (s.managers .code).sideRx) ?_ ?_ ?_
      · rw [hacc, hcode, hrx, List.append_nil]
        exact h.channel
      · rw [hcode, hctx, List.foldl_append, ← h.hints]
      · rw [hacc]
        exact h.fetched
    · have hsame : (s.managers .code).ctxAfter d = (s.managers .code).ctx := by
        rw [FetchManager.ctxAfter]
        split <;> rfl
      refine .of_taken (t := s.takenIn) ?_ ?_ ?_
      · rw [hacc, hcode, hrx]
        exact h.channel
      · rw [hcode, hctx, hsame]
        exact h.hints
      · rw [hacc]
        exact h.fetched
  | storage | blockHash =>
    refine .of_taken (t := s.takenIn) ?_ ?_ ?_
    · rw [setManager_managers (by decide), setManager_code_of_ne (by decide),
        Function.update_of_ne (by decide), Function.update_of_ne (by decide)]
      exact h.channel
    · rw [setManager_code_of_ne (by decide), Function.update_of_ne (by decide)]
      exact h.hints
    · rw [setManager_managers (by decide), Function.update_of_ne (by decide)]
      exact h.fetched

/-! ## Every run -/

/-- The node answers a query with what `Told` allows. -/
def Tells (Told : (q : Query) → Option q.Answer → Prop) (_ : FetchLayer keccak256) :
    AnyEvent keccak256 → Prop
  | .answer _ _ q o => Told q o
  | .manager _ _ => True

/-- What holds in every run of the managers. -/
structure Orderly (Told : (q : Query) → Option q.Answer → Prop) (s : FetchLayer keccak256) :
    Prop where
  grounded : ∀ k, (s.managers k).Grounded
  ticketed : (s.managers .code).Ticketed
  answered : (s.managers .code).AnsweredBy Told
  registers : s.Registers

variable {Told : (q : Query) → Option q.Answer → Prop}

theorem orderly_new (fetch : FetchConfig) (tip : B256) :
    (new keccak256 fetch tip).Orderly Told where
  grounded _ := FetchManager.grounded_new _ _ fetch
  ticketed := rfl
  answered _ ht := absurd ht List.not_mem_nil
  registers := registers_new fetch tip

/-- **The step lemma.** -/
theorem Orderly.step (h : s.Orderly Told) (hs : StepAny e s s') (hok : s.Tells Told e) :
    s'.Orderly Told := by
  have hcode : (s'.managers .code).Ticketed ∧ (s'.managers .code).AnsweredBy Told := by
    rcases hs.code_cases with ⟨side, heq⟩ | ⟨e', hm, hanswer, -⟩
    · rw [heq]
      exact ⟨h.ticketed, h.answered⟩
    · refine ⟨hm.transition.ticketed h.ticketed, h.answered.step hm fun i q a he ↦ ?_⟩
      obtain ⟨o, rfl, rfl⟩ := hanswer i q a he
      exact ⟨o, rfl, hok⟩
  exact ⟨hs.advances.grounded h.grounded, hcode.1, hcode.2, h.registers.step hs⟩

theorem orderly_of_run {fetch : FetchConfig} {tip : B256}
    (h : Lts.Run StepAny (Tells Told) (.new keccak256 fetch tip) s) : s.Orderly Told :=
  h.invariant (fun e _ _ hinv hs hok ↦ hinv.step (e := e) hs hok) (orderly_new fetch tip)

/-- An account the account manager has replied with is registered. -/
theorem Orderly.registered (h : s.Orderly Told) {r : Reply (accountSpec keccak256)}
    (hr : r ∈ (s.managers .account).replies) {info : AccountInfo}
    (hinfo : r.result = .ok (some info)) :
    ⟨info.codeHash, r.request.address⟩ ∈ (s.managers .account).ctx := by
  obtain ⟨d, hd, hkey, hfrom⟩ := (h.grounded .account).replies r hr _ hinfo
  rw [← show d.request.address = r.request.address from hkey]
  refine h.registers.fetched d hd info ?_
  rcases hfrom with hresult | ⟨value, hstored, hvalue⟩
  · exact hresult
  · obtain ⟨resp, hresp, hstore⟩ := FetchDone.exists_of_stored hstored
    cases hvalue
    rw [hresp, show resp = some info from hstore]

/-- A hash that is registered has a hint, or its registration is still in the channel. -/
theorem Registers.hint_or (h : s.Registers) {hash : B256}
    (hreg : ∃ reg ∈ (s.managers .account).ctx, reg.codeHash = hash) :
    (∃ a, (s.managers .code).ctx.hashToAddress[hash]? = some a) ∨
      ∃ reg ∈ (s.managers .code).sideRx, reg.codeHash = hash := by
  obtain ⟨reg, hmem, hh⟩ := hreg
  rw [h.channel] at hmem
  rcases List.mem_append.mp hmem with hmem | hmem
  · obtain ⟨a, ha⟩ := exists_lastRegistered ⟨reg, hmem, hh⟩
    refine Or.inl ⟨a, ?_⟩
    rw [h.hints, foldl_onSide_hashToAddress, ha, Option.some_or]
  · exact Or.inr ⟨reg, hmem, hh⟩

/-- A hint is an address that was registered under the hash. -/
theorem Registers.hint (h : s.Registers) {hash : B256} :
    (s.managers .code).ctx.hashToAddress[hash]? = lastRegistered s.takenIn hash := by
  rw [h.hints, foldl_onSide_hashToAddress]
  exact Option.or_none

theorem Registers.mem_of_hint (h : s.Registers) {hash : B256} {a : Address}
    (ha : (s.managers .code).ctx.hashToAddress[hash]? = some a) :
    ∃ reg ∈ (s.managers .account).ctx, reg.codeHash = hash ∧ reg.address = a := by
  rw [h.hint] at ha
  obtain ⟨reg, hmem, hreg⟩ := mem_of_lastRegistered ha
  refine ⟨reg, ?_, hreg⟩
  rw [h.channel]
  exact List.mem_append_left _ hmem

end FetchLayer

/-! ## Requests that are pulled past a registration -/

/-- A request for code under `hash` without an explicit hint, sent after `since` others. -/
structure Wanted (hash : B256) (since : ℕ) (msg : FetchMessage (codeSpec keccak256)) : Prop where
  since_le : since ≤ msg.respondTo
  codeHash : msg.request.codeHash = hash
  addressHint : msg.request.addressHint = none

namespace FetchManager

variable {hash : B256} {since : ℕ} {m m' : FetchManager (codeSpec keccak256)}
  {e : ManagerEvent (codeSpec keccak256)}

/-- There is a hint for the hash. -/
def HasHint (hash : B256) (m : FetchManager (codeSpec keccak256)) : Prop :=
  ∃ a, m.ctx.hashToAddress[hash]? = some a

/-- The request in hand has a hint if it is wanted, or its code is cached. -/
structure Hinted (hash : B256) (since : ℕ) (m : FetchManager (codeSpec keccak256)) : Prop where
  handle : ∀ msg, m.phase = .handle msg → Wanted hash since msg →
    m.HasHint hash ∨ ∃ c, m.cache[hash]? = some c
  acquire : ∀ msg, m.phase = .acquire msg → Wanted hash since msg → m.HasHint hash

/-- Without a request in hand. -/
theorem hinted_of_held (h : m.phase.held = []) : m.Hinted hash since := by
  refine ⟨fun msg hmsg ↦ ?_, fun msg hmsg ↦ ?_⟩
  · rw [hmsg] at h
    cases h
  · rw [hmsg] at h
    cases h

/-- Emptying the channel takes in what is registered. -/
theorem hasHint_drainSide
    (h : m.HasHint hash ∨ ∃ reg ∈ m.sideRx, reg.codeHash = hash) : m.drainSide.HasHint hash := by
  have hlook : m.drainSide.ctx.hashToAddress[hash]? =
      (lastRegistered m.sideRx hash).or m.ctx.hashToAddress[hash]? :=
    foldl_onSide_hashToAddress m.sideRx m.ctx hash
  rw [HasHint, hlook]
  rcases h with ⟨a, ha⟩ | hreg
  · cases lastRegistered m.sideRx hash with
    | none => exact ⟨a, ha⟩
    | some b => exact ⟨b, rfl⟩
  · obtain ⟨b, hb⟩ := exists_lastRegistered hreg
    exact ⟨b, by rw [hb]; rfl⟩

/-- **The step lemma.**  A request that is received comes after the channel is emptied; one that is
pulled does not. -/
theorem Hinted.step (h : m.Hinted hash since) (hs : Step e m m')
    (hreg : m.HasHint hash ∨ ∃ reg ∈ m.sideRx, reg.codeHash = hash)
    (hpull : e = .tryNext → ∀ msg rest, m.fetchRx = msg :: rest → Wanted hash since msg →
      m.HasHint hash ∨ ∃ c, m.cache[hash]? = some c) : m'.Hinted hash since := by
  cases hs.transition with
  | send | sendSide | requestFlush | answer | finish | complete => exact { h with }
  | recvFlush | handOver | spawn | leave => exact hinted_of_held rfl
  | drain hphase | recvDone hphase => exact hinted_of_held (by rw [applyCompletion, hphase]; rfl)
  | recvSide hphase => exact hinted_of_held (by rw [drainSide, hphase]; rfl)
  | recvFetch =>
    refine ⟨fun _ _ _ ↦ Or.inl (hasHint_drainSide hreg), fun _ hmsg ↦ ?_⟩
    cases hmsg
  | @tryNext msg rest _ hmsg =>
    refine ⟨?_, fun _ hmsg ↦ by cases hmsg⟩
    rintro _ ⟨⟩
    exact hpull rfl msg rest hmsg
  | @serve msg hphase =>
    -- code has no tag, so the cache is looked up as it is
    show ((m.retag msg.request).lookup msg).Hinted hash since
    rw [show m.retag msg.request = m from rfl, FetchManager.lookup]
    split
    · exact hinted_of_held rfl
    · rename_i hmiss
      refine ⟨fun _ hmsg ↦ (by cases hmsg), ?_⟩
      rintro _ ⟨⟩ hwanted
      refine (h.handle msg hphase hwanted).resolve_right ?_
      rintro ⟨c, hc⟩
      rw [← hwanted.codeHash] at hc
      rw [show m.cache[(codeSpec keccak256).key msg.request]? = some c from hc] at hmiss
      cases hmiss

end FetchManager

namespace FetchLayer

variable {s s' s₁ s₂ : FetchLayer keccak256} {e : AnyEvent keccak256} {hash : B256} {since : ℕ}

/-- A wanted request is pulled from the queue only when its hint is taken in, or its code cached. -/
def PullsHinted (hash : B256) (since : ℕ) (s : FetchLayer keccak256) : AnyEvent keccak256 → Prop
  | .manager .code .tryNext => ∀ msg rest, (s.managers .code).fetchRx = msg :: rest →
      Wanted hash since msg →
        (s.managers .code).HasHint hash ∨ ∃ c, (s.managers .code).cache[hash]? = some c
  | _ => True

/-- A wanted request is fetched at an address that was registered under the hash. -/
def FetchedFor (hash : B256) (since : ℕ) (s : FetchLayer keccak256)
    (msg : FetchMessage (codeSpec keccak256)) (call : RpcCall Bytecode) (_ : Answers) : Prop :=
  Wanted hash since msg → ∃ reg ∈ (s.managers .account).ctx, reg.codeHash = hash ∧
    call = getCodeByHash keccak256 hash (some reg.address) msg.request.block

/-- A wanted request does not fail for want of a hint. -/
def NotMissing (hash : B256) (since : ℕ) (msg : FetchMessage (codeSpec keccak256))
    (result : Except SimError Bytecode) : Prop :=
  Wanted hash since msg → ∀ h, result ≠ .error (.missingAddressHint h)

/-- **The code is fetchable**: every wanted request that is fetched is fetched at a registered
address, and none fails for want of a hint. -/
structure CodeFetchable (hash : B256) (since : ℕ) (s : FetchLayer keccak256) : Prop where
  task : ∀ t ∈ (s.managers .code).tasks, s.FetchedFor hash since t.message t.call t.answers
  completion : ∀ d ∈ (s.managers .code).completionRx, NotMissing hash since d.message d.result
  replies : ∀ r ∈ (s.managers .code).replies, NotMissing hash since r.message r.result

/-- The invariant from the moment the hash is registered. -/
structure Fetchable (hash : B256) (since : ℕ) (s : FetchLayer keccak256) : Prop where
  orderly : s.Orderly fun _ _ ↦ True
  registered : ∃ reg ∈ (s.managers .account).ctx, reg.codeHash = hash
  hinted : (s.managers .code).Hinted hash since
  tracks : (s.managers .code).Tracks (s.FetchedFor hash since) (NotMissing hash since)

/-- Nothing that is sent from now on is on its way yet. -/
theorem Orderly.fetchable (h : s.Orderly fun _ _ ↦ True)
    (hreg : ∃ reg ∈ (s.managers .account).ctx, reg.codeHash = hash) :
    s.Fetchable hash (s.managers .code).opened := by
  have hnew : ∀ place, ∀ msg ∈ (s.managers .code).messagesAt place,
      ¬ Wanted hash (s.managers .code).opened msg :=
    fun _ _ hmsg hwanted ↦ Nat.not_lt.mpr hwanted.since_le (h.ticketed.lt_opened hmsg)
  refine ⟨h, hreg, ⟨fun msg hmsg hw ↦ ?_, fun msg hmsg hw ↦ ?_⟩, ⟨fun t ht hw ↦ ?_,
    fun d hd hw ↦ ?_, fun r hr hw ↦ ?_⟩⟩
  · exact absurd hw (hnew .handled msg (Phase.mem_held.mpr (Or.inl hmsg)))
  · exact absurd hw (hnew .handled msg (Phase.mem_held.mpr (Or.inr hmsg)))
  · exact absurd hw (hnew .running _ (List.mem_map_of_mem ht))
  · exact absurd hw (hnew .completed _ (List.mem_map_of_mem hd))
  · exact absurd hw (hnew .answered _ (List.mem_map_of_mem hr))

/-- **The step lemma.** -/
theorem Fetchable.step (h : s.Fetchable hash since) (hs : StepAny e s s')
    (hok : s.PullsHinted hash since e) : s'.Fetchable hash since := by
  have horderly := h.orderly.step hs (by cases e <;> trivial)
  obtain ⟨reg, hmem, hreg⟩ := h.registered
  have hmono : ∀ msg call answers, s.FetchedFor hash since msg call answers →
      s'.FetchedFor hash since msg call answers :=
    fun msg call _ hcall hw ↦
      let ⟨reg, hmem, hreg⟩ := hcall hw
      ⟨reg, hs.registered_subset hmem, hreg⟩
  have hcode : (s'.managers .code).Hinted hash since ∧
      (s'.managers .code).Tracks (s.FetchedFor hash since) (NotMissing hash since) := by
    rcases hs.code_cases with ⟨side, heq⟩ | ⟨e', hm, -, hlocal⟩
    · rw [heq]
      exact ⟨{ h.hinted with }, { h.tracks with }⟩
    · refine ⟨h.hinted.step hm (h.orderly.registers.hint_or h.registered) ?_,
        h.tracks.step (h.orderly.grounded .code) hm ?_ (fun _ _ _ _ _ _ _ hcall ↦ hcall) nofun ?_⟩
      · rintro rfl
        rw [hlocal rfl] at hok
        exact hok
      · intro msg hphase hw
        obtain ⟨a, ha⟩ := h.hinted.acquire msg hphase hw
        obtain ⟨reg, hmem, hreg, rfl⟩ := h.orderly.registers.mem_of_hint ha
        refine ⟨reg, hmem, hreg, ?_⟩
        show getCodeByHash keccak256 msg.request.codeHash
          (msg.request.addressHint.or _) msg.request.block = _
        rw [hw.addressHint, hw.codeHash, Option.none_or, ha]
      · intro t ht result hcall hresult hw hash'
        obtain ⟨reg, -, -, heq⟩ := hcall hw
        rw [heq] at hresult
        rcases getCodeByHash_result (h.orderly.answered t ht) hresult with ⟨-, heq⟩ | ⟨code, -, heq⟩
        · cases heq
          nofun
        · exact ne_missing_of_codeResult heq.symm hash'

  exact ⟨horderly, ⟨reg, hs.registered_subset hmem, hreg⟩, hcode.1, hcode.2.mono hmono⟩

theorem Fetchable.codeFetchable (h : s.Fetchable hash since) : s.CodeFetchable hash since :=
  ⟨h.tracks.call, h.tracks.completion, h.tracks.replies⟩

end FetchLayer

/-- **An account reply makes its code fetchable**, in every run in which no request for the code is
pulled from the queue before its registration is taken in. -/
theorem codeFetchable_of_run {fetch : FetchConfig} {tip : B256} {s₁ s₂ : FetchLayer keccak256}
    (h₁ : Lts.Run FetchLayer.StepAny Lts.anyEvent (.new keccak256 fetch tip) s₁)
    {r : Reply (accountSpec keccak256)} (hr : r ∈ (s₁.managers .account).replies)
    {info : AccountInfo} (hinfo : r.result = .ok (some info))
    (h₂ : Lts.Run FetchLayer.StepAny
      (FetchLayer.PullsHinted info.codeHash (s₁.managers .code).opened) s₁ s₂) :
    s₂.CodeFetchable info.codeHash (s₁.managers .code).opened := by
  have horderly : s₁.Orderly fun _ _ ↦ True := FetchLayer.orderly_of_run (h₁.mono fun _ e _ ↦ by
    cases e <;> trivial)
  have hstart := horderly.fetchable ⟨_, horderly.registered hr hinfo, rfl⟩
  exact (h₂.invariant (fun _ _ _ hinv hs hok ↦ hinv.step hs hok) hstart).codeFetchable

/-- **The condition is exact**: a request that is pulled past the registration, without a hint and
with nothing cached, is fetched at no address. -/
theorem FetchManager.exists_call_of_pull {m : FetchManager (codeSpec keccak256)}
    {msg : FetchMessage (codeSpec keccak256)} {rest : List (FetchMessage (codeSpec keccak256))}
    (hphase : m.phase = .next) (hmsg : m.fetchRx = msg :: rest)
    (hexplicit : msg.request.addressHint = none)
    (hhint : m.ctx.hashToAddress[msg.request.codeHash]? = none)
    (hcache : m.cache[msg.request.codeHash]? = none) (hpermits : 0 < m.permits) :
    ∃ m', Lts.Run Step Lts.anyEvent m m' ∧ ∃ t ∈ m'.tasks, t.message = msg ∧
      t.call = getCodeByHash keccak256 msg.request.codeHash none msg.request.block := by
  let m₁ := { m with fetchRx := rest, phase := .handle msg }
  let m₂ := { m with fetchRx := rest, phase := .acquire msg }
  have hpull : Step .tryNext m m₁ := by
    show m.step .tryNext = some m₁
    rw [step, hphase, hmsg]
  have hserve : Step .serve m₁ m₂ := by
    show some ((m₁.retag msg.request).lookup msg) = some m₂
    rw [show m₁.retag msg.request = m₁ from rfl, lookup,
      show m₁.cache[(codeSpec keccak256).key msg.request]? = none from hcache]
  have hspawn : Step .spawn m₂ (m₂.spawnFetch msg) := if_pos hpermits
  refine ⟨m₂.spawnFetch msg, ((Lts.Run.one hpull trivial).next hserve trivial).next hspawn trivial,
    _, List.mem_append_right _ List.mem_cons_self, rfl, ?_⟩
  show getCodeByHash keccak256 _ (msg.request.addressHint.or m.ctx.hashToAddress[_]?) _ = _
  rw [hexplicit, hhint, Option.or_none]

end

namespace PulledPast

open scoped Revm

open Branches (keccak)

def start : FetchLayer keccak := .new keccak {} 0

/-- The account `a`, whose code is `[1]`, is asked for and answered. -/
def account (a : Address) : List (AnyEvent keccak) :=
  [.manager .account (.send ⟨a, 1, 11⟩), .manager .account .recvFetch, .manager .account .serve,
    .manager .account .spawn, .answer .account 0 (.getBalance a 1) (some 0),
    .answer .account 0 (.getTransactionCount a 1) (some 0),
    .answer .account 0 (.getCodeAt a 1) (some [1]), .manager .account (.finish 0),
    .manager .account (.complete 0), .manager .account .tryNext, .manager .account .recvDone]

/-- Some other code is being fetched. -/
def busy : List (AnyEvent keccak) :=
  [.manager .code (.send ⟨5, 1, some 9⟩), .manager .code .recvFetch, .manager .code .serve,
    .manager .code .spawn]

/-- The code of the account is asked for, and the request is pulled. -/
def wanted : List (AnyEvent keccak) :=
  [.manager .code (.send ⟨0, 1, none⟩), .manager .code .tryNext, .manager .code .serve,
    .manager .code .spawn]

/-- No code request is pulled without a hint for the hash `0`. -/
def pullsHinted (s : FetchLayer keccak) : AnyEvent keccak → Bool
  | .manager .code .tryNext => (s.managers .code).fetchRx.isEmpty ||
      ((s.managers .code).ctx.hashToAddress[(0 : B256)]?).isSome
  | _ => true

theorem pullsHinted_of_check {since : ℕ} (s : FetchLayer keccak) (e : AnyEvent keccak)
    (h : pullsHinted s e = true) : s.PullsHinted 0 since e := by
  unfold FetchLayer.PullsHinted
  split
  · intro msg rest hmsg _
    rw [pullsHinted, hmsg] at h
    exact Or.inl (Option.isSome_iff_exists.mp h)
  · trivial

theorem isSome_replay_account :
    (Lts.replay FetchLayer.stepAny Lts.anyCheck (account 7) start).isSome = true := by
  decide +kernel

def answered : FetchLayer keccak :=
  (Lts.replay FetchLayer.stepAny Lts.anyCheck (account 7) start).get isSome_replay_account

theorem run_answered : Lts.Run FetchLayer.StepAny Lts.anyEvent start answered :=
  Lts.Run.of_replay (Option.some_get isSome_replay_account).symm fun _ _ _ ↦ trivial

theorem isSome_replay_wanted :
    (Lts.replay FetchLayer.stepAny pullsHinted (busy ++ wanted) answered).isSome = true := by
  decide +kernel

/-- The other request comes after the reply: the registration is taken in with it. -/
def hinted : FetchLayer keccak :=
  (Lts.replay FetchLayer.stepAny pullsHinted (busy ++ wanted) answered).get isSome_replay_wanted

theorem isSome_replay_busy :
    (Lts.replay FetchLayer.stepAny Lts.anyCheck (busy ++ account 7) start).isSome = true := by
  decide +kernel

def answeredBusy : FetchLayer keccak :=
  (Lts.replay FetchLayer.stepAny Lts.anyCheck (busy ++ account 7) start).get isSome_replay_busy

theorem isSome_replay_past :
    (Lts.replay FetchLayer.stepAny Lts.anyCheck (wanted ++ [.manager .code (.finish 1),
      .manager .code (.complete 1)]) answeredBusy).isSome = true := by
  decide +kernel

/-- The other request came first: the registration is still in the channel. -/
def pulledPast : FetchLayer keccak :=
  (Lts.replay FetchLayer.stepAny Lts.anyCheck (wanted ++ [.manager .code (.finish 1),
    .manager .code (.complete 1)]) answeredBusy).get isSome_replay_past

/-- The info of the account. -/
def info : AccountInfo := ⟨0, 0, 0⟩

theorem exists_reply {s : FetchLayer keccak} {a : Address}
    (h : (a, some (some info)) ∈
      (s.managers .account).replies.map fun r ↦ (r.request.address, r.result.toOption)) :
    ∃ r ∈ (s.managers .account).replies, r.request.address = a ∧ r.result = .ok (some info) := by
  obtain ⟨r, hr, heq⟩ := List.mem_map.mp h
  obtain ⟨haddress, hresult⟩ := Prod.mk.inj heq
  refine ⟨r, hr, haddress, ?_⟩
  cases hres : r.result with
  | error e =>
    rw [hres] at hresult
    cases hresult
  | ok v =>
    rw [hres] at hresult
    exact congrArg Except.ok (Option.some.inj hresult)

/-- The hash that a hint is missing for. -/
def missing : Except SimError Bytecode → Option B256
  | .error (.missingAddressHint h) => some h
  | _ => none

theorem eq_of_missing {result : Except SimError Bytecode} {h : B256}
    (hmissing : missing result = some h) : result = .error (.missingAddressHint h) := by
  unfold missing at hmissing
  split at hmissing
  · cases hmissing
    rfl
  · cases hmissing

end PulledPast

open scoped Revm in
open PulledPast in
/-- The request is pulled when its hint is there. -/
theorem codeFetchable_of_run_hinted : hinted.CodeFetchable 0 0 := by
  obtain ⟨r, hr, -, hinfo⟩ := exists_reply (s := answered) (a := 7) (by decide +kernel)
  have hopened : (answered.managers .code).opened = 0 := by decide +kernel
  have := codeFetchable_of_run run_answered hr hinfo
    (Lts.Run.of_replay (Option.some_get isSome_replay_wanted).symm pullsHinted_of_check)
  rwa [hopened] at this

open scoped Revm in
open PulledPast in
/-- **A request is pulled past the registration**, and fails with `MissingAddressHint`. -/
theorem not_codeFetchable_pulledPast :
    ¬ ∀ (s₁ s₂ : FetchLayer Branches.keccak) (r : Reply (accountSpec Branches.keccak))
        (info : AccountInfo),
      Lts.Run FetchLayer.StepAny Lts.anyEvent start s₁ →
      r ∈ (s₁.managers .account).replies → r.result = .ok (some info) →
      Lts.Run FetchLayer.StepAny Lts.anyEvent s₁ s₂ →
      s₂.CodeFetchable info.codeHash (s₁.managers .code).opened := by
  intro h
  obtain ⟨r, hr, -, hinfo⟩ := exists_reply (s := answeredBusy) (a := 7) (by decide +kernel)
  have hrun₁ : Lts.Run FetchLayer.StepAny Lts.anyEvent start answeredBusy :=
    Lts.Run.of_replay (Option.some_get isSome_replay_busy).symm fun _ _ _ ↦ trivial
  have hrun₂ : Lts.Run FetchLayer.StepAny Lts.anyEvent answeredBusy pulledPast :=
    Lts.Run.of_replay (Option.some_get isSome_replay_past).symm fun _ _ _ ↦ trivial
  have hfails : (pulledPast.managers .code).completionRx.map
      (fun d ↦ (d.respondTo, d.request, missing d.result)) = [(1, ⟨0, 1, none⟩, some 0)] := by
    decide +kernel
  obtain ⟨d, hd⟩ := List.length_eq_one_iff.mp (by simpa using congrArg List.length hfails)
  rw [hd] at hfails
  simp only [List.map_cons, List.map_nil, List.cons.injEq, Prod.mk.injEq, and_true] at hfails
  obtain ⟨hid, hrequest, hmissing⟩ := hfails
  have hopened : (answeredBusy.managers .code).opened = 1 := by decide +kernel
  have hwanted : @Wanted _ Branches.keccak 0 (answeredBusy.managers .code).opened d.message :=
    ⟨hopened.trans_le hid.ge, congrArg CodeRequest.codeHash hrequest,
      congrArg CodeRequest.addressHint hrequest⟩
  exact (h _ _ r info hrun₁ hr hinfo hrun₂).completion d (by rw [hd]; exact List.mem_cons_self)
    hwanted 0 (eq_of_missing hmissing)

end RexSim
