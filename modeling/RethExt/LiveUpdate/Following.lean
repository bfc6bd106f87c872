import RethExt.LiveUpdate
import RethExt.RexCons.Carry
import RethExt.RexSim.Fork

/-!
# Nothing keeps a simulator from following

Connections are lost, a client lags behind and its session ends, notifications wait in one queue or
another, and a round waits for fetches that fail.  Whatever has happened, the parties can go on by
themselves until the simulator is at rest and its client reads a new session; the next change of the
chain that the ExEx tells of is then applied (`Reached.exists_hears`), and two commits bring the
simulator to the tip of the chain (`Live.catchesUp_of_run`).

The part of the way that the transport takes is a run of `Net`, and that of the simulator one of
`Sys`: `run_transport` and `run_sim` bring them here.
-/

set_option autoImplicit false

open RethRex (Codec CanonStateNotification RemoteExEx RemoteEvent Session)
open RexSim (B256 Bytes Chain ExExNotification FetchConfig Ledger Query Revm Sys)

namespace RexSim

variable [Revm] {keccak256 : Bytes → B256} {L : Ledger} {s s' : Sys keccak256}
  {fails : Query → Bool}

/-- Left to itself, a simulator for which nothing waits takes its own steps. -/
theorem Sys.rx_of_step {e : Event keccak256} (hs : Sys.Step L e s s') (hgoes : Sys.Goes fails s e)
    (hrx : s.rx = []) : e.isOwn = true ∧ s'.rx = [] := by
  have hown : e.isOwn = true := by
    cases e with
    | node => cases hgoes
    | recv =>
      cases hs.transition with
      | recv _ hqueue =>
        rw [hrx] at hqueue
        simp at hqueue
    | _ => rfl
  exact ⟨hown, (Sys.step_rx hown hs []).2.trans hrx⟩

/-- The round of a notification is going on, or over. -/
def Sys.InRound (current : StateSnapshot) (n : ExExNotification) (s : Sys keccak256) : Prop :=
  (∃ job, s.job = some job ∧ job.current = current ∧ job.notification = n) ∨
    s.job = none ∧ ∃ caches, s.snapshot = nextSnapshot current caches n

theorem Sys.InRound.step {current : StateSnapshot} {n : ExExNotification} {e : Event keccak256}
    (hround : s.InRound current n) (hs : Sys.Step L e s s') (hown : e.isOwn = true) :
    s'.InRound current n := by
  cases hs.transition with
  | node | recv => cases hown
  | requestFlush hjob | handOver hjob =>
    rcases hround with ⟨job, hjob', hcurrent, hn⟩ | ⟨hnone, -⟩
    · cases hjob.symm.trans hjob'
      exact Or.inl ⟨_, rfl, hcurrent, hn⟩
    · cases hjob.symm.trans hnone
  | publish hjob hcaches =>
    rcases hround with ⟨job, hjob', rfl, rfl⟩ | ⟨hnone, -⟩
    · cases hjob.symm.trans hjob'
      exact Or.inr ⟨rfl, _, handleNotification_snapshot _ _ _⟩
    · cases hjob.symm.trans hnone
  | _ => exact hround

/-- **A round that has begun is the last one**, if nothing waits. -/
theorem Sys.inRound_of_run {current : StateSnapshot} {n : ExExNotification}
    (h : Lts.Run (Sys.Step L) (Sys.Goes fails) s s') (hrx : s.rx = [])
    (hround : s.InRound current n) : s'.InRound current n := by
  have hstep : ∀ e (s s' : Sys keccak256), s.rx = [] ∧ s.InRound current n → Sys.Step L e s s' →
      Sys.Goes fails s e → s'.rx = [] ∧ s'.InRound current n := by
    intro e s s' ⟨hrx, hround⟩ hs hgoes
    obtain ⟨hown, hrx'⟩ := rx_of_step hs hgoes hrx
    exact ⟨hrx', hround.step hs hown⟩
  exact (h.invariant hstep ⟨hrx, hround⟩).2

end RexSim

namespace LiveUpdate

section

variable [Revm] {keccak256 : Bytes → B256} {ι D : Type} [DecidableEq ι]

namespace Live

variable {codec : Codec ExExNotification D} {L : Ledger} {c : ι} {s s' : Live ι D keccak256}
  {fails : Query → Bool}

/-- The parties go on by themselves: the node tells of nothing, no read begins, and no subscriber
goes away.  Which queries fail is up to `fails`. -/
def Goes (fails : Query → Bool) (s : Live ι D keccak256) : LiveEvent ι keccak256 → Prop
  | .node _ _ => False
  | .exex _ => False
  | .transport e => s.delivery.Fresh (.net e) ∧ ∀ c, e ≠ .thread c .unsubscribe
  | .recv => True
  | .sim e => Sys.Goes fails s.sim e

omit [DecidableEq ι] in
theorem Goes.fresh {e : LiveEvent ι keccak256} (h : s.Goes fails e) : s.Fresh e := by
  cases e with
  | transport e => exact h.1
  | _ => trivial

/-- What the parties make of the state by themselves. -/
abbrev GoOn (codec : Codec ExExNotification D) (L : Ledger) (c : ι) (fails : Query → Bool) :
    Live ι D keccak256 → Live ι D keccak256 → Prop :=
  Lts.Run (Step codec L c) (Goes fails)

/-! ## The transport -/

/-- A step of the transport, with what it adds to the logs. -/
theorem step_transport {e : RexCons.Event ι ExExNotification}
    {net : RexCons.Net ι ExExNotification D}
    (hnet : s.delivery.watch.net.step codec e = some net) (hbroadcast : ∀ n, e ≠ .broadcast n)
    (htakes : takes c e = false) :
    Step codec L c (.transport e) s
      { s with delivery := { s.delivery with
          watch := { net := net, logs := s.delivery.watch.logsAfter net e } } } := by
  have hwatch : s.delivery.watch.step codec e =
      some { net := net, logs := s.delivery.watch.logsAfter net e } := by
    rw [RexCons.Watch.step, hnet, Option.map_some]
  cases e with
  | broadcast n => exact absurd rfl (hbroadcast n)
  | _ => simp [Lts.Executes, step, htakes, RexCons.Delivery.step, hwatch]

/-- The transport does not touch the simulator, and what it was told stays so. -/
structure Beside (c : ι) (s s' : Live ι D keccak256) : Prop where
  sim : s'.sim = s.sim
  exex : s'.delivery.exex = s.delivery.exex
  told : s'.told c = s.told c

omit [DecidableEq ι] in
theorem Beside.trans {s'' : Live ι D keccak256} (h : s.Beside c s') (h' : s'.Beside c s'') :
    s.Beside c s'' :=
  ⟨h'.sim.trans h.sim, h'.exex.trans h.exex, h'.told.trans h.told⟩

/-- A step of the transport that nothing is taken by. -/
theorem exists_step_transport {e : RexCons.Event ι ExExNotification}
    {net : RexCons.Net ι ExExNotification D}
    (hnet : s.delivery.watch.net.step codec e = some net) (hbroadcast : ∀ n, e ≠ .broadcast n)
    (htakes : takes c e = false) :
    ∃ s', Step codec L c (.transport e) s s' ∧ s.Beside c s' ∧
      s'.delivery.watch = { net := net, logs := s.delivery.watch.logsAfter net e } := by
  have hstep := step_transport (L := L) hnet hbroadcast htakes
  refine ⟨_, hstep, ⟨rfl, rfl, ?_⟩, rfl⟩
  cases hstep.transition with
  | between _ _ htold => exact htold

variable (fails) in
/-- **What is carried to the client** is carried here. -/
theorem run_transport {net : RexCons.Net ι ExExNotification D}
    (h : s.delivery.watch.net.Carry codec c net) :
    ∃ s', GoOn codec L c fails s s' ∧ s.Beside c s' ∧ s'.delivery.watch.net = net := by
  induction h with
  | refl => exact ⟨s, .refl, ⟨rfl, rfl, rfl⟩, rfl⟩
  | @tail net net' _ hlast ih =>
    obtain ⟨s₁, hrun, hbeside, rfl⟩ := ih
    obtain ⟨e, hs, hcarries⟩ := hlast
    obtain ⟨hbroadcast, htakes, hgoes⟩ : (∀ n, e ≠ .broadcast n) ∧ takes c e = false ∧
        s₁.Goes fails (.transport e : LiveEvent ι keccak256) := by
      cases e with
      | session => exact ⟨nofun, rfl, trivial, nofun⟩
      | thread c' e =>
        cases e with
        | message | failed | handOver => exact ⟨nofun, rfl, trivial, nofun⟩
        | _ => cases hcarries
      | _ => cases hcarries
    obtain ⟨s₂, hstep, hbeside', hwatch⟩ := exists_step_transport (L := L) hs hbroadcast htakes
    exact ⟨s₂, hrun.next hstep hgoes, hbeside.trans hbeside', by rw [hwatch]⟩

/-! ## The simulator -/

/-- **What the simulator makes of itself**, if nothing waits in its queue, it makes of itself
here. -/
theorem run_sim {sim : Sys keccak256} (h : Lts.Run (Sys.Step L) (Sys.Goes fails) s.sim sim)
    (hrx : s.sim.rx = []) : GoOn codec L c fails s { s with sim := sim } := by
  have hempty : ∀ e (sim sim' : Sys keccak256), sim.rx = [] → Sys.Step L e sim sim' →
      Sys.Goes fails sim e → sim'.rx = [] :=
    fun e _ _ hempty hs hgoes ↦ (Sys.rx_of_step hs hgoes hempty).2
  induction h with
  | refl => exact .refl
  | @tail sim sim' hfirst hlast hrun =>
    obtain ⟨e, hs, hgoes⟩ := hlast
    have hnothing := Lts.Run.invariant hempty hrx hfirst
    have hown := (Sys.rx_of_step hs hgoes hnothing).1
    have hstep : Step codec L c (.sim e) { s with sim := sim } { s with sim := sim' } := by
      replace hs : sim.step L e = some sim' := hs
      simp [Lts.Executes, step, hown, hs]
    exact hrun.next hstep hgoes

/-! ## Coming to rest -/

variable {fetch : FetchConfig} {head : ℕ × B256}

/-- A run has led to the state. -/
abbrev Reached (codec : Codec ExExNotification D) (L : Ledger) (c : ι) (fetch : FetchConfig)
    (head : ℕ × B256) (s : Live ι D keccak256) : Prop :=
  Lts.Run (Step codec L c) Fresh (.new ι D keccak256 fetch head) s

theorem Reached.allowed (h : s.Reached codec L c fetch head) :
    Lts.Run (Step codec L c) (fun s e ↦ s.Fresh e ∧ s.Allowed (fun _ _ ↦ True) e)
      (.new ι D keccak256 fetch head) s :=
  h.mono fun s e hfresh ↦ ⟨hfresh, s.allowed_true e⟩

theorem Reached.goOn (h : s.Reached codec L c fetch head) (hgo : GoOn codec L c fails s s') :
    s'.Reached codec L c fetch head :=
  h.trans (hgo.mono fun _ _ hgoes ↦ hgoes.fresh)

/-- The simulator comes to rest. -/
theorem Reached.exists_quiet (hpos : ∀ k, 0 < (RexSim.spec keccak256 k).permits fetch)
    (h : s.Reached codec L c fetch head) (fails : Query → Bool) :
    ∃ sim, Lts.Run (Sys.Step L) (Sys.Goes fails) s.sim sim ∧ sim.Quiet ∧
      GoOn codec L c fails s { s with sim := sim } := by
  have hsim : Lts.Run (Sys.Step L) Lts.anyEvent (.new keccak256 fetch head.2) s.sim :=
    (sim_of_run (fun _ _ _ _ ↦ trivial) h.allowed).mono fun _ _ _ ↦ trivial
  obtain ⟨sim, hrun, hquiet⟩ := Sys.exists_run_quiet hpos hsim fails
  exact ⟨sim, hrun, hquiet, run_sim hrun (inv_of_run h.allowed).rx⟩

variable (codec L) in
/-- A simulator at rest takes what its client has for it. -/
theorem exists_step_recv {t : RexCons.Thread ExExNotification} {n : ExExNotification}
    {rest : List ExExNotification} (hjob : s.sim.job = none)
    (ht : s.delivery.watch.net.threads c = some t) (hqueue : t.queue = n :: rest) :
    ∃ s', Step codec L c .recv s s' ∧
      s'.delivery.watch.net.threads c = some { t with queue := rest } ∧
      s'.delivery.exex = s.delivery.exex ∧ s'.sim = { s.sim with
        job := some { current := s.sim.snapshot, notification := n } } := by
  have hupcoming : s.delivery.watch.net.upcoming c = some n := by
    simp [RexCons.Net.upcoming, ht, hqueue]
  have hstep : Step codec L c .recv s
      { delivery := { s.delivery with
          watch :=
            { net := { s.delivery.watch.net with
                threads := Function.update s.delivery.watch.net.threads c
                  (some { t with queue := rest }) }
              logs := Function.update s.delivery.watch.logs c
                { s.delivery.watch.logs c with took := s.told c ++ [n] } } }
        sim := { s.sim with
          job := some { current := s.sim.snapshot, notification := n } } } := by
    simp [Lts.Executes, step, hjob, hupcoming, RexCons.Delivery.step, RexCons.Watch.step,
      RexCons.Net.step, ht, RexCons.Thread.step, hqueue, RexCons.Watch.logsAfter, RexCons.Log.after,
      told]
  exact ⟨_, hstep, Function.update_self _ _ _, rfl, rfl⟩

/-- Nothing is under way between the server and the simulator. -/
structure Resting (c : ι) (s : Live ι D keccak256) : Prop where
  quiet : s.sim.Quiet
  idle : ∃ t, s.delivery.watch.net.threads c = some t ∧ t.Idle

/-- **The client and its simulator come to rest**: the simulator takes all that the thread has
returned. -/
theorem Reached.exists_resting (hpos : ∀ k, 0 < (RexSim.spec keccak256 k).permits fetch)
    (h : s.Reached codec L c fetch head) (fails : Query → Bool)
    {t : RexCons.Thread ExExNotification} (ht : s.delivery.watch.net.threads c = some t)
    (hsubscribed : t.subscribed = true) :
    ∃ s', GoOn codec L c fails s s' ∧ s'.Resting c ∧ s'.delivery.exex = s.delivery.exex := by
  induction hn : t.left using Nat.strongRecOn generalizing s t with
  | ind n ih =>
    subst hn
    obtain ⟨sim, -, hquiet, hrun⟩ := h.exists_quiet hpos fails
    cases hqueue : t.queue with
    | cons m rest =>
      obtain ⟨s₁, hstep, ht₁, hexex, -⟩ :=
        exists_step_recv codec L (s := { s with sim := sim }) hquiet.job ht hqueue
      have hgo := hrun.next hstep trivial
      have hless : RexCons.Thread.left { t with queue := rest } < t.left := by
        simp [RexCons.Thread.left, hqueue]
      obtain ⟨s', hgo', hresting, hexex'⟩ := ih _ hless (h.goOn hgo) ht₁ hsubscribed rfl
      exact ⟨s', hgo.trans hgo', hresting, hexex'.trans hexex⟩
    | nil =>
      cases hholding : t.holding with
      | none => exact ⟨_, hrun, ⟨hquiet, t, ht, hsubscribed, hholding, hqueue⟩, rfl⟩
      | some m =>
        -- what the thread holds has a place in its queue
        let handed : RexCons.Thread ExExNotification := { t with holding := none, queue := [m] }
        have hhanded : t.step codec s.delivery.watch.net.sessions .handOver =
            some (some handed, s.delivery.watch.net.sessions) := by
          simp [RexCons.Thread.step, RexCons.Thread.handOver, hholding, hsubscribed, hqueue,
            RexCons.subscriberCapacity, handed]
        have hcarry := RexCons.Net.carry_thread (e := .handOver) ht hhanded rfl
        obtain ⟨s₁, hgo, hbeside, hnet⟩ :=
          run_transport (s := { s with sim := sim }) (L := L) fails hcarry
        have hgo := hrun.trans hgo
        have hless : handed.left < t.left := by
          simp [RexCons.Thread.left, hholding, hqueue, handed]
        have ht₁ : s₁.delivery.watch.net.threads c = some handed := by
          rw [hnet]
          exact Function.update_self _ _ _
        obtain ⟨s', hgo', hresting, hexex'⟩ := ih _ hless (h.goOn hgo) ht₁ hsubscribed rfl
        exact ⟨s', hgo.trans hgo', hresting, hexex'.trans hbeside.exex⟩

/-! ## The next change -/

variable (codec L) in
/-- The connection of a client is lost, if it has one. -/
theorem exists_disconnected (fails : Query → Bool) {t : RexCons.Thread ExExNotification}
    (ht : s.delivery.watch.net.threads c = some t) (hidle : t.Idle) :
    ∃ s' t', GoOn codec L c fails s s' ∧ s.Beside c s' ∧
      s'.delivery.watch.net.threads c = some t' ∧ t'.Idle ∧ t'.stream.stream = none := by
  cases hstream : t.stream.stream with
  | none => exact ⟨s, t, .refl, ⟨rfl, rfl, rfl⟩, ht, hidle, hstream⟩
  | some i =>
    let lost : RexCons.Thread ExExNotification :=
      { t with stream := { t.stream with stream := none }, holding := none }
    have hlost : t.step codec s.delivery.watch.net.sessions .failed =
        some (some lost, s.delivery.watch.net.sessions) := by
      simp [RexCons.Thread.step, RexCons.Thread.next, hidle.holding,
        RexCons.NotificationStream.step, hstream, RexCons.Outcome.notification, lost]
    obtain ⟨s', hgo, hbeside, hnet⟩ :=
      run_transport (L := L) fails (RexCons.Net.carry_thread (e := .failed) ht hlost rfl)
    refine ⟨s', lost, hgo, hbeside, ?_, ⟨hidle.subscribed, rfl, hidle.queue⟩, rfl⟩
    rw [hnet]
    exact Function.update_self _ _ _

/-- **The client connects** to a new session, with the simulator at rest. -/
theorem Reached.exists_waiting (h : s.Reached codec L c fetch head) (hresting : s.Resting c)
    (fails : Query → Bool) :
    ∃ s' t i r, GoOn codec L c fails s s' ∧ s.Beside c s' ∧
      s'.delivery.watch.net.Waits c t i r ∧ r.cursor = s'.delivery.watch.net.sent.length := by
  obtain ⟨t₀, ht₀, hidle₀⟩ := hresting.idle
  obtain ⟨s₁, t, hgo₁, hbeside₁, ht, hidle, hnone⟩ := exists_disconnected codec L fails ht₀ hidle₀
  have hsince := ((inv_of_run (h.goOn hgo₁).allowed).delivery.watch.follows c).since_le
  -- the server starts a session
  let k := s₁.delivery.watch.net.sessions.length
  let session := Session.new ExExNotification D s₁.delivery.watch.net.sent.length
  have haccept : s₁.delivery.watch.net.step codec .accept =
      some { s₁.delivery.watch.net with
        sessions := s₁.delivery.watch.net.sessions ++ [session] } := rfl
  obtain ⟨s₂, hs₂, hbeside₂, hwatch₂⟩ :=
    exists_step_transport (L := L) (c := c) haccept (by simp) rfl
  -- and the client is given it
  let connected : RexCons.Thread ExExNotification :=
    { t with
      stream := { stream := some k, backoff := RexCons.initialBackoff }, holding := none }
  have hk : (s₁.delivery.watch.net.sessions ++ [session])[k]? = some session :=
    List.getElem?_concat_length
  have hconnected : s₂.delivery.watch.net.step codec (.thread c (.connected k)) =
      some { s₂.delivery.watch.net with
        sessions := s₂.delivery.watch.net.sessions.set k { session with claimed := true }
        threads := Function.update s₂.delivery.watch.net.threads c (some connected) } := by
    rw [hwatch₂]
    simp only [RexCons.Net.step, ht, Option.bind_some, RexCons.Thread.step, hk]
    simp [session, Session.new, RexCons.Thread.next, hidle.holding,
      RexCons.NotificationStream.step, hnone, RexCons.Outcome.notification, connected]
  obtain ⟨s₃, hs₃, hbeside₃, hwatch₃⟩ :=
    exists_step_transport (L := L) (c := c) hconnected (by simp) rfl
  have hfresh : s₂.delivery.Fresh (.net (.thread c (.connected k))) := by
    change (s₂.delivery.watch.logs c).since ≤ k
    rw [hwatch₂]
    exact hsince
  refine ⟨s₃, connected, k, { session with claimed := true },
    (hgo₁.next hs₂ ⟨trivial, by simp⟩).next hs₃ ⟨hfresh, by simp⟩,
    (hbeside₁.trans hbeside₂).trans hbeside₃, ?_, ?_⟩
  · rw [hwatch₃, hwatch₂]
    exact ⟨Function.update_self _ _ _, ⟨hidle.subscribed, rfl, hidle.queue⟩, rfl,
      List.getElem?_set_self (List.getElem?_eq_some_iff.mp hk).1, rfl, rfl, rfl, rfl⟩
  · rw [hwatch₃, hwatch₂]
    rfl

variable (codec L c) in
/-- The ExEx sees a change of the chain and tells of it. -/
theorem exists_step_node (hrunning : s.delivery.exex.running = true)
    (change : CanonStateNotification) :
    ∃ s', Step codec L c (.node change true) s s' ∧
      s'.delivery.watch.net =
        { s.delivery.watch.net with sent := s.delivery.watch.net.sent ++ [change.exex] } ∧
      s'.delivery.exex.running = true ∧
      s'.sim = { s.sim with layer := { s.sim.layer with tip := change.exex.newTip } } := by
  have hstep : Step codec L c (.node change true) s
      { delivery :=
          { exex := { s.delivery.exex with
              notifications := s.delivery.exex.notifications ++ [change.exex] }
            watch := { s.delivery.watch with
              net := { s.delivery.watch.net with
                sent := s.delivery.watch.net.sent ++ [change.exex] } } }
        sim := { s.sim with layer := { s.sim.layer with tip := change.exex.newTip } } } := by
    simp [Lts.Executes, step, RexCons.Delivery.step, RemoteExEx.step, hrunning,
      RemoteExEx.broadcast, RexCons.Watch.step, RexCons.Net.step, RexCons.Watch.logsAfter]
  exact ⟨_, hstep, rfl, hrunning, rfl⟩

/-- The simulator hears of the change: the ExEx tells of it, and the parties go on by themselves
before and after. -/
def Hears (codec : Codec ExExNotification D) (L : Ledger) (c : ι) (fails : Query → Bool)
    (change : CanonStateNotification) (s s' : Live ι D keccak256) : Prop :=
  ∃ s₁ s₂, GoOn codec L c fails s s₁ ∧ Step codec L c (.node change true) s₁ s₂ ∧
    GoOn codec L c fails s₂ s'

/-- **The next change is the next round**: from where everything rests it is carried to the
simulator and applied, and everything rests again. -/
theorem Reached.exists_hears (hpos : ∀ k, 0 < (RexSim.spec keccak256 k).permits fetch)
    (h : s.Reached codec L c fetch head) (hresting : s.Resting c)
    (hrunning : s.delivery.exex.running = true) (fails : Query → Bool)
    {change : CanonStateNotification} (hdecodes : codec.Decodes change.exex = true) :
    ∃ s', s.Hears codec L c fails change s' ∧ s'.Reached codec L c fetch head ∧ s'.Resting c ∧
      s'.delivery.exex.running = true ∧ ∃ caches,
        s'.sim.snapshot = RexSim.nextSnapshot s.sim.snapshot caches change.exex := by
  obtain ⟨s₁, t, i, r, hgo₁, hbeside₁, hwaits, hcursor⟩ := h.exists_waiting hresting fails
  obtain ⟨s₂, hs₂, hnet₂, hrunning₂, hsim₂⟩ :=
    exists_step_node codec L c (hbeside₁.exex ▸ hrunning) change
  have hreached₂ : s₂.Reached codec L c fetch head := (h.goOn hgo₁).next hs₂ trivial
  -- the change is carried to the client
  have hwaits₂ : s₂.delivery.watch.net.Waits c t i r := by
    rw [hnet₂]
    exact { hwaits with }
  have hrecv : Broadcast.recv RethRex.broadcastCapacity s₂.delivery.watch.net.sent r.cursor =
      .value change.exex := by
    rw [hnet₂, hcursor]
    exact Broadcast.recv_concat (by decide) _ _
  obtain ⟨net, t', hcarry, ht', hsubscribed, hholding, hqueue⟩ :=
    hwaits₂.exists_carry hrecv hdecodes
  obtain ⟨s₃, hgo₃, hbeside₃, rfl⟩ := run_transport (L := L) fails hcarry
  -- the simulator takes it
  have hsim₃ : s₃.sim = { s.sim with layer := { s.sim.layer with tip := change.exex.newTip } } := by
    rw [hbeside₃.sim, hsim₂, hbeside₁.sim]
  have hjob : s₃.sim.job = none := by
    rw [hsim₃]
    exact hresting.quiet.job
  obtain ⟨s₄, hs₄, ht₄, hexex₄, hsim₄⟩ := exists_step_recv codec L hjob ht' hqueue
  have hgo₄ := hgo₃.next hs₄ trivial
  have hreached₄ := hreached₂.goOn hgo₄
  -- and handles it
  obtain ⟨sim, hrun, hquiet, hgo₅⟩ := hreached₄.exists_quiet hpos fails
  have hround : s₄.sim.InRound s.sim.snapshot change.exex := by
    rw [hsim₄, hsim₃]
    exact Or.inl ⟨_, rfl, rfl, rfl⟩
  have hrunning₄ : s₄.delivery.exex.running = true := by
    rw [hexex₄, hbeside₃.exex]
    exact hrunning₂
  refine ⟨{ s₄ with sim := sim }, ⟨s₁, s₂, hgo₁, hs₂, hgo₄.trans hgo₅⟩, hreached₄.goOn hgo₅,
    ⟨hquiet, _, ht₄, hsubscribed, hholding, rfl⟩, hrunning₄, ?_⟩
  rcases Sys.inRound_of_run hrun (inv_of_run hreached₄.allowed).rx hround with
    ⟨job, hjob, -⟩ | ⟨-, hsnapshot⟩
  · cases hquiet.job.symm.trans hjob
  · exact hsnapshot

end Live

/-- **Two commits bring the simulator to the tip of the chain**, from wherever a run has led to in
which every `try_connect` subscribes anew, as the next ones do: lost connections, sessions that have
lagged behind, notifications that are still on their way and rounds that wait for their caches do
not keep it from following the node. -/
theorem Live.catchesUp_of_run {keccak256 : Bytes → B256} {ι D : Type} [DecidableEq ι]
    {codec : Codec ExExNotification D} {L : Ledger} {c : ι} {fetch : FetchConfig} {head : ℕ × B256}
    {s : Live ι D keccak256} (hpos : ∀ k, 0 < (RexSim.spec keccak256 k).permits fetch)
    (h : Lts.Run (Live.Step codec L c) Live.Fresh (.new ι D keccak256 fetch head) s)
    {t : RexCons.Thread ExExNotification} (ht : s.delivery.watch.net.threads c = some t)
    (hsubscribed : t.subscribed = true) (hrunning : s.delivery.exex.running = true)
    {first second : Chain} (hnext : second.first.number = first.tip.number + 1 ∧
      second.first.parentHash = first.tip.hash)
    (hfirst : codec.Decodes (CanonStateNotification.commit first).exex = true)
    (hsecond : codec.Decodes (CanonStateNotification.commit second).exex = true)
    (fails : Query → Bool) :
    ∃ s₁ s₂, s.Hears codec L c fails (.commit first) s₁ ∧
      s₁.Hears codec L c fails (.commit second) s₂ ∧ s₂.sim.Quiet ∧
      s₂.sim.snapshot.AtTip second := by
  have hreached : s.Reached codec L c fetch head := h
  obtain ⟨s₀, hgo, hresting, hexex⟩ := hreached.exists_resting hpos fails ht hsubscribed
  obtain ⟨s₁, hhears₁, hreached₁, hresting₁, hrunning₁, caches₁, hsnapshot₁⟩ :=
    (hreached.goOn hgo).exists_hears hpos hresting (hexex ▸ hrunning) fails hfirst
  obtain ⟨s₂, hhears₂, -, hresting₂, -, caches₂, hsnapshot₂⟩ :=
    hreached₁.exists_hears hpos hresting₁ hrunning₁ fails hsecond
  obtain ⟨s₁', s₁'', hgo₁, hs₁, hgo₁'⟩ := hhears₁
  refine ⟨s₁, s₂, ⟨s₁', s₁'', hgo.trans hgo₁, hs₁, hgo₁'⟩, hhears₂, hresting₂.quiet, ?_⟩
  rw [hsnapshot₂, hsnapshot₁]
  exact RexSim.StateSnapshot.atTip_of_commits hnext caches₁ caches₂

end

open scoped RexSim.Revm in
open Missed RexSim.Branches in
/-- The client that has missed a block catches up. -/
theorem Live.catchesUp_of_run_missed : ∃ s₁ s₂,
    final.Hears RexCons.Reconnecting.asIs ledger () (fun _ ↦ true) (.commit a2) s₁ ∧
      s₁.Hears RexCons.Reconnecting.asIs ledger () (fun _ ↦ true) (.commit a3) s₂ ∧
      s₂.sim.Quiet ∧ s₂.sim.snapshot.AtTip a3 := by
  have hclient : (final.delivery.watch.net.threads ()).map (·.subscribed) = some true := by
    decide +kernel
  obtain ⟨t, ht, hsubscribed⟩ := Option.map_eq_some_iff.mp hclient
  exact Live.catchesUp_of_run (fun k ↦ by cases k <;> decide)
    (run.mono fun s e hok ↦ hok.1) ht hsubscribed (by decide +kernel) ⟨rfl, rfl⟩ rfl rfl _

end LiveUpdate
