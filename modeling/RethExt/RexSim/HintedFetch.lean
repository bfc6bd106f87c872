import RethExt.RexSim.Hints

/-!
# The address that was registered last

The hint table keeps one address for each hash, and every registration overwrites it, so a code
request without a hint of its own is fetched at the address that was registered last when its fetch
is spawned.  That account need not have the code any more at the block of the request, and the
client then says so: `hintedFetch_of_run`.  It does not try the other accounts that were registered
under the hash.
-/

set_option autoImplicit false

open Std

namespace RexSim

section

variable [Revm] {keccak256 : Bytes → B256} {codeAt : Address → ℕ → Bytes} {fails : Prop}

/-- The node answers a query of code with the code of the address at the block, or not at all if it
may fail. -/
def HonestCode (codeAt : Address → ℕ → Bytes) (fails : Prop) :
    (q : Query) → Option q.Answer → Prop
  | .getCodeAt address block, o => o = some (codeAt address block) ∨ (fails ∧ o = none)
  | _, _ => True

variable (keccak256) in
/-- How the fetch of a request at the address `b` ends: as the code of `b` at the block says, or
with an RPC error if its query `fails`. -/
def EndsAt (codeAt : Address → ℕ → Bytes) (fails : Prop) (b : Address) (request : CodeRequest)
    (outcome : CallOutcome Bytecode) : Prop :=
  outcome = codeResult keccak256 request.codeHash b (codeAt b request.block) ∨
    (fails ∧ outcome = .returned (.error .rpc))

theorem endsAt_of_result {b : Address} {request : CodeRequest} {answers : Answers}
    {outcome : CallOutcome Bytecode} (hanswers : GivenBy (HonestCode codeAt fails) answers)
    (h : (getCodeByHash keccak256 request.codeHash (some b) request.block).result answers =
      some outcome) : EndsAt keccak256 codeAt fails b request outcome := by
  rcases getCodeByHash_result hanswers h with ⟨hnone, rfl⟩ | ⟨code, hsome, rfl⟩
  · rcases hnone with hnone | ⟨hfails, -⟩
    · cases hnone
    · exact Or.inr ⟨hfails, rfl⟩
  · rcases hsome with hsome | ⟨-, hsome⟩
    · cases hsome
      exact Or.inl rfl
    · cases hsome

namespace FetchLayer

variable {s s' : FetchLayer keccak256} {e : AnyEvent keccak256} {b : Address}
  {msg : FetchMessage (codeSpec keccak256)}

/-- The node answers honestly, and it fails to answer the query of the request with this ticket only
if `fails`. -/
def TellsOwn (codeAt : Address → ℕ → Bytes) (fails : Prop) (id : ℕ) (s : FetchLayer keccak256)
    (e : AnyEvent keccak256) : Prop :=
  s.Tells (HonestCode codeAt True) e ∧
    ∀ i address block, e = .answer .code i (.getCodeAt address block) none →
      ∀ t, (s.managers .code).tasks[i]? = some t → t.respondTo = id → fails

/-- Where no query of code fails unless `fails`, the request's own does not. -/
theorem Tells.tellsOwn (h : s.Tells (HonestCode codeAt fails) e) (id : ℕ) :
    s.TellsOwn codeAt fails id e := by
  cases e with
  | manager => exact ⟨trivial, nofun⟩
  | answer k i q o =>
    refine ⟨?_, ?_⟩
    · cases q with
      | getCodeAt a n => exact h.imp_right fun h ↦ ⟨trivial, h.2⟩
      | _ => trivial
    · rintro _ _ _ ⟨⟩ _ _ _
      exact (h.resolve_left nofun).1

/-- What the request's own task is answered is what it may be. -/
theorem TellsOwn.own {id i : ℕ} {q : Query} {o : Option q.Answer}
    (h : s.TellsOwn codeAt fails id (.answer .code i q o)) {t : FetchTask (codeSpec keccak256)}
    (ht : (s.managers .code).tasks[i]? = some t) (hid : t.respondTo = id) :
    HonestCode codeAt fails q o := by
  cases q with
  | getCodeAt a n =>
    rcases h.1 with hsome | ⟨-, rfl⟩
    · exact Or.inl hsome
    · exact Or.inr ⟨h.2 i a n rfl t ht hid, rfl⟩
  | _ => trivial

/-- **The request is fetched at the address `b`**: it is running, completed or answered, and ends as
the code of `b` says.  A task that has panicked counts as running. -/
structure HintedFetch (codeAt : Address → ℕ → Bytes) (fails : Prop) (b : Address)
    (msg : FetchMessage (codeSpec keccak256)) (s : FetchLayer keccak256) : Prop where
  sent : msg.respondTo ∈ (s.managers .code).ticketsAt .running ∨
    msg.respondTo ∈ (s.managers .code).ticketsAt .completed ∨
    msg.respondTo ∈ (s.managers .code).ticketsAt .answered
  call : ∀ t ∈ (s.managers .code).tasks, t.respondTo = msg.respondTo →
    t.call = getCodeByHash keccak256 msg.request.codeHash (some b) msg.request.block
  result : ∀ t ∈ (s.managers .code).tasks, t.respondTo = msg.respondTo →
    ∀ outcome, t.result = some outcome → EndsAt keccak256 codeAt fails b msg.request outcome
  completion : ∀ d ∈ (s.managers .code).completionRx, d.respondTo = msg.respondTo →
    EndsAt keccak256 codeAt fails b msg.request (.returned d.result)
  replies : ∀ r ∈ (s.managers .code).replies, r.respondTo = msg.respondTo →
    EndsAt keccak256 codeAt fails b msg.request (.returned r.result)

/-- The invariant from the moment the fetch is spawned. -/
structure Spawned (codeAt : Address → ℕ → Bytes) (fails : Prop) (b : Address)
    (msg : FetchMessage (codeSpec keccak256)) (s : FetchLayer keccak256) : Prop where
  orderly : s.Orderly (HonestCode codeAt True)
  gone : (s.managers .code).Gone msg.respondTo
  tracks : (s.managers .code).Tracks
    (fun msg' call answers ↦ msg'.respondTo = msg.respondTo →
      call = getCodeByHash keccak256 msg.request.codeHash (some b) msg.request.block ∧
        GivenBy (HonestCode codeAt fails) answers)
    (fun msg' result ↦ msg'.respondTo = msg.respondTo →
      EndsAt keccak256 codeAt fails b msg.request (.returned result))

/-- **The step lemma.** -/
theorem Spawned.step (h : s.Spawned codeAt fails b msg) (hs : StepAny e s s')
    (hok : s.TellsOwn codeAt fails msg.respondTo e) : s'.Spawned codeAt fails b msg := by
  rcases hs.code_cases with ⟨side, heq⟩ | ⟨e', hm, hanswer, -⟩
  · refine ⟨h.orderly.step hs hok.1, ?_, ?_⟩ <;> rw [heq]
    · exact { h.gone with }
    · exact { h.tracks with }
  · refine ⟨h.orderly.step hs hok.1, h.gone.step hm,
      h.tracks.step (h.orderly.grounded .code) hm ?_ ?_ ?_ ?_⟩
    · exact fun msg' hphase hid ↦
        absurd hid (h.gone.held msg' (Phase.mem_held.mpr (Or.inr hphase)))
    · intro i q a he t ht _ hcall hid
      obtain ⟨hcall, hgiven⟩ := hcall hid
      obtain ⟨o, rfl, rfl⟩ := hanswer i q a he
      exact ⟨hcall, FetchTask.forall_record ⟨o, rfl, hok.own ht hid⟩ hgiven⟩
    · exact fun msg' hphase _ hid ↦
        absurd hid (h.gone.held msg' (Phase.mem_held.mpr (Or.inl hphase)))
    · intro t _ result hcall hresult hid
      obtain ⟨hcall, hgiven⟩ := hcall hid
      rw [hcall] at hresult
      exact endsAt_of_result hgiven hresult

theorem Spawned.hintedFetch (h : s.Spawned codeAt fails b msg) :
    s.HintedFetch codeAt fails b msg where
  sent := h.gone.sent h.orderly.ticketed
  call t ht hid := (h.tracks.call t ht hid).1
  result t ht hid outcome houtcome := by
    obtain ⟨heq, hgiven⟩ := h.tracks.call t ht hid
    have hcall := ((h.orderly.grounded .code).task t ht).2 outcome houtcome
    rw [heq] at hcall
    exact endsAt_of_result hgiven hcall
  completion := h.tracks.completion
  replies := h.tracks.replies

/-- The fetch of a request without a hint of its own is spawned at the hint. -/
theorem Orderly.spawned (h : s.Orderly (HonestCode codeAt True))
    (hphase : (s.managers .code).phase = .acquire msg) (hexplicit : msg.request.addressHint = none)
    (hlast : lastRegistered s.takenIn msg.request.codeHash = some b)
    (hs : StepAny (.manager .code .spawn) s s') : s'.Spawned codeAt fails b msg := by
  have hcode : s'.managers .code = (s.managers .code).spawnFetch msg := by
    obtain ⟨m, hm, rfl⟩ := Option.map_eq_some_iff.mp hs
    rw [setManager_code_of_ne (by decide), Function.update_self]
    cases FetchManager.Step.transition hm with
    | spawn hphase' =>
      rw [hphase'] at hphase
      cases hphase
      rfl
  have hmsg : msg ∈ (s.managers .code).messagesAt .handled :=
    Phase.mem_held.mpr (Or.inr hphase)
  refine ⟨h.step hs trivial, ?_, ?_⟩ <;> rw [hcode]
  · exact h.ticketed.gone_spawnFetch hphase
  · refine ⟨fun t ht hid ↦ ?_, fun d hd hid ↦ ?_, fun r hr hid ↦ ?_⟩
    · rcases List.mem_append.mp ht with ht | ht
      · exact absurd (List.mem_map.mpr ⟨_, List.mem_map_of_mem ht, hid⟩)
          (h.ticketed.not_elsewhere hmsg (p := .running) (by decide))
      · rw [List.mem_singleton.mp ht]
        refine ⟨?_, nofun⟩
        show getCodeByHash keccak256 _ (msg.request.addressHint.or
          (s.managers .code).ctx.hashToAddress[msg.request.codeHash]?) _ = _
        rw [hexplicit, h.registers.hint, hlast]
        rfl
    · exact absurd (List.mem_map.mpr ⟨_, List.mem_map_of_mem hd, hid⟩)
        (h.ticketed.not_elsewhere hmsg (p := .completed) (by decide))
    · exact absurd (List.mem_map.mpr ⟨_, List.mem_map_of_mem hr, hid⟩)
        (h.ticketed.not_elsewhere hmsg (p := .answered) (by decide))

end FetchLayer

/-- **A code request is fetched at the address that was registered last**, and ends with its code if
that is what the hash says, and with `CodeHashMismatch` otherwise, in every run with an honest
node; and with an RPC error only if the node has failed to answer its query. -/
theorem hintedFetch_of_run {fetch : FetchConfig} {tip : B256}
    {s₁ s₁' s₂ : FetchLayer keccak256} {msg : FetchMessage (codeSpec keccak256)} {b : Address}
    (h₁ : Lts.Run FetchLayer.StepAny (FetchLayer.Tells (HonestCode codeAt True))
      (.new keccak256 fetch tip) s₁)
    (hphase : (s₁.managers .code).phase = .acquire msg) (hexplicit : msg.request.addressHint = none)
    (hlast : lastRegistered s₁.takenIn msg.request.codeHash = some b)
    (hspawn : FetchLayer.StepAny (.manager .code .spawn) s₁ s₁')
    (h₂ : Lts.Run FetchLayer.StepAny (FetchLayer.TellsOwn codeAt fails msg.respondTo) s₁' s₂) :
    s₂.HintedFetch codeAt fails b msg :=
  (h₂.invariant (fun e _ _ hinv hs hok ↦ hinv.step (e := e) hs hok)
    ((FetchLayer.orderly_of_run h₁).spawned hphase hexplicit hlast hspawn)).hintedFetch

end

namespace Overwritten

open scoped Revm

open Branches (keccak)

open PulledPast (start account)

/-- The account `8` loses its code in the block `2`. -/
def codeOf (a : Address) (n : ℕ) : Bytes := if a = 8 ∧ n = 2 then [] else [1]

/-- The accounts `7` and `8` are answered, and then the code of `7` is asked for at the block
`2`. -/
def missed : List (AnyEvent keccak) :=
  account 7 ++ account 8 ++
    [.manager .code (.send ⟨0, 2, none⟩), .manager .code .recvFetch, .manager .code .serve]

/-- The fetch is made at `8`. -/
def fetched : List (AnyEvent keccak) :=
  [.manager .code .tryNext, .answer .code 0 (.getCodeAt 8 2) (some []), .manager .code (.finish 0),
    .manager .code (.complete 0), .manager .code .recvDone]

def honest (_ : FetchLayer keccak) : AnyEvent keccak → Bool
  | .answer _ _ (.getCodeAt a n) o => decide (o = some (codeOf a n))
  | _ => true

theorem honest_of_check (s : FetchLayer keccak) (e : AnyEvent keccak) (h : honest s e = true) :
    s.Tells (HonestCode codeOf False) e := by
  cases e with
  | manager => trivial
  | answer k i q o =>
    cases q with
    | getCodeAt a n => exact Or.inl (of_decide_eq_true h)
    | _ => trivial

theorem isSome_replay_missed :
    (Lts.replay FetchLayer.stepAny honest missed start).isSome = true := by decide +kernel

def atMiss : FetchLayer keccak :=
  (Lts.replay FetchLayer.stepAny honest missed start).get isSome_replay_missed

theorem isSome_spawn : (atMiss.stepAny (.manager .code .spawn)).isSome = true := by decide +kernel

def spawned : FetchLayer keccak := (atMiss.stepAny (.manager .code .spawn)).get isSome_spawn

theorem isSome_replay_fetched :
    (Lts.replay FetchLayer.stepAny honest fetched spawned).isSome = true := by decide +kernel

def mismatched : FetchLayer keccak :=
  (Lts.replay FetchLayer.stepAny honest fetched spawned).get isSome_replay_fetched

theorem run_atMiss : Lts.Run FetchLayer.StepAny (FetchLayer.Tells (HonestCode codeOf False))
    start atMiss :=
  Lts.Run.of_replay (Option.some_get isSome_replay_missed).symm honest_of_check

theorem step_spawned : FetchLayer.StepAny (.manager .code .spawn) atMiss spawned :=
  (Option.some_get isSome_spawn).symm

theorem run_mismatched : Lts.Run FetchLayer.StepAny (FetchLayer.Tells (HonestCode codeOf False))
    spawned mismatched :=
  Lts.Run.of_replay (Option.some_get isSome_replay_fetched).symm honest_of_check

/-- The request that misses. -/
def request : FetchMessage (codeSpec keccak) := ⟨⟨0, 2, none⟩, 0⟩

/-- The request that waits for a permit. -/
def waiting : Phase (codeSpec keccak) → Option (CodeRequest × ℕ)
  | .acquire msg => some (msg.request, msg.respondTo)
  | _ => none

theorem phase_atMiss : (atMiss.managers .code).phase = .acquire request := by
  have hwaiting : waiting (atMiss.managers .code).phase = some (⟨0, 2, none⟩, 0) := by
    decide +kernel
  cases hphase : (atMiss.managers .code).phase with
  | acquire msg =>
    rw [hphase] at hwaiting
    obtain ⟨hrequest, hid⟩ := Prod.mk.inj (Option.some.inj hwaiting)
    rw [request, ← hrequest, ← hid]
  | _ =>
    rw [hphase] at hwaiting
    cases hwaiting

end Overwritten

open scoped Revm in
open Overwritten in
/-- The hint is `8`, whose code is gone. -/
theorem hintedFetch_of_run_overwritten : mismatched.HintedFetch codeOf False 8 request :=
  hintedFetch_of_run (run_atMiss.mono fun _ _ h ↦ (h.tellsOwn 0).1) phase_atMiss rfl
    (by decide +kernel) step_spawned (run_mismatched.mono fun _ _ h ↦ h.tellsOwn 0)

open scoped Revm in
open Overwritten in
/-- **The account `7` still has the code, and its fetch fails**: `8` was registered last. -/
theorem not_live_overwritten :
    ¬ ∀ (codeAt : Address → ℕ → Bytes) (s₁ s₁' s₂ : FetchLayer Branches.keccak)
        (r : Reply (accountSpec Branches.keccak)) (info : AccountInfo)
        (msg : FetchMessage (codeSpec Branches.keccak)),
      Lts.Run FetchLayer.StepAny (FetchLayer.Tells (HonestCode codeAt False))
        (.new Branches.keccak {} 0) s₁ →
      r ∈ (s₁.managers .account).replies → r.result = .ok (some info) →
      info.codeHash ≠ keccakEmpty →
      codeHashOf Branches.keccak (codeAt r.request.address msg.request.block) = info.codeHash →
      (s₁.managers .code).phase = .acquire msg → msg.request.codeHash = info.codeHash →
      msg.request.addressHint = none →
      FetchLayer.StepAny (.manager .code .spawn) s₁ s₁' →
      Lts.Run FetchLayer.StepAny (FetchLayer.Tells (HonestCode codeAt False)) s₁' s₂ →
      ∀ r' ∈ (s₂.managers .code).replies, r'.respondTo = msg.respondTo →
        ∃ code, r'.result = .ok code := by
  intro h
  obtain ⟨r, hr, haddress, hinfo⟩ := PulledPast.exists_reply (s := atMiss) (a := 7)
    (by decide +kernel)
  have hlive : codeHashOf Branches.keccak (codeOf r.request.address request.request.block) =
      PulledPast.info.codeHash := by
    rw [haddress]
    decide +kernel
  have hreplies : (mismatched.managers .code).replies.map
      (fun r ↦ (r.respondTo, r.result.toOption)) = [(0, none)] := by decide +kernel
  obtain ⟨r', hr'⟩ := List.length_eq_one_iff.mp (by simpa using congrArg List.length hreplies)
  rw [hr'] at hreplies
  simp only [List.map_cons, List.map_nil, List.cons.injEq, Prod.mk.injEq, and_true] at hreplies
  obtain ⟨code, hcode⟩ := h codeOf atMiss spawned mismatched r _ request run_atMiss hr hinfo
    (by decide) hlive phase_atMiss rfl rfl step_spawned run_mismatched r'
    (by rw [hr']; exact List.mem_cons_self) hreplies.1
  rw [hcode] at hreplies
  cases hreplies.2

end RexSim
