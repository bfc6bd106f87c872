import RethExt.RexCons.Delivery
import RethExt.RexSim.Refinement
import RethExt.RexSim.Rounds

/-!
# A simulator that follows a node

`live_update` gives what `subscribe` returns to `RexSim::spawn`: the channel of the client's thread
is the one from which the changeset manager takes its notifications.  `Live` is all of it: the node,
the ExEx, the server and its clients, and the simulator of one of them.

`Sys` knows nothing of a transport.  There the node tells the simulator of a change, or its
notification is lost, and what is told waits in a queue.  Here a notification may be lost long after
it was broadcast, when the client is seen to have missed it.  So the simulation goes backward: the
queue of `Sys` may be whatever may still be taken (`Live.Stands`), and every step is one of `Sys`
that comes from such a queue.
-/

set_option autoImplicit false

open RethRex (Codec CanonStateNotification RemoteExEx RemoteEvent)
open RexSim (B256 Bytes Chain ExExNotification FetchConfig Ledger Revm Sys)

namespace RexCons

variable {ι N D : Type} [DecidableEq ι] {codec : Codec N D}

/-- What the subscriber of a client takes next. -/
def Net.upcoming (net : Net ι N D) (c : ι) : Option N := (net.threads c).bind (·.queue.head?)

namespace Watch

variable {w w' : Watch ι N D} {e : Event ι N} {c : ι}

/-- A subscriber has taken what it takes, and nothing else. -/
theorem took_of_step (h : w.step codec e = some w') (hother : e ≠ .thread c .take) :
    (w'.logs c).took = (w.logs c).took := by
  obtain ⟨-, hlogs⟩ := exists_net_of_step h
  rw [hlogs]
  by_cases hmine : ∃ ev, e = .thread c ev
  · obtain ⟨ev, rfl⟩ := hmine
    rw [logsAfter_thread]
    cases ev with
    | take => exact absurd rfl hother
    | _ => rfl
  · push Not at hmine
    rw [logsAfter_other hmine]

theorem took_of_take (h : w.step codec (.thread c .take) = some w') {n : N}
    (hn : w.net.upcoming c = some n) : (w'.logs c).took = (w.logs c).took ++ [n] := by
  obtain ⟨-, hlogs⟩ := exists_net_of_step h
  rw [hlogs, logsAfter_thread, Log.after]
  rw [Net.upcoming] at hn
  simp [hn]

end Watch

namespace Delivery

variable [Revm] {codec : Codec ExExNotification D} {d d' : Delivery ι D}

/-- A step of the ExEx, which the subscribers do not notice at once. -/
theorem exex_of_step {e : RemoteEvent} (h : d.step codec (.exex e) = some d') (c : ι) :
    d'.exex.notifications = d.exex.notifications ++ (RemoteExEx.broadcast e).toList ∧
      (d'.watch.logs c).took = (d.watch.logs c).took := by
  obtain ⟨exex, hexex, hrest⟩ := Option.bind_eq_some_iff.mp h
  have hnotifications := (RemoteExEx.step_eq hexex).1
  split at hrest
  · rename_i n hbroadcast
    obtain ⟨watch, hwatch, rfl⟩ := Option.map_eq_some_iff.mp hrest
    exact ⟨hnotifications, Watch.took_of_step hwatch nofun⟩
  · cases hrest
    exact ⟨hnotifications, rfl⟩

end Delivery

end RexCons

namespace RexSim

variable [Revm] {keccak256 : Bytes → B256} {L : Ledger}

/-- The event is none of those of the transport. -/
def Event.isOwn : Event keccak256 → Bool
  | .node _ _ => false
  | .recv => false
  | _ => true

/-- The node tells of changes of its chain. -/
def Event.Canonical : Event keccak256 → Prop
  | .node n _ => ∃ change : RethRex.CanonStateNotification, n = change.exex
  | _ => True

theorem Event.canonical_of_isOwn {e : Event keccak256} (h : e.isOwn = true) : e.Canonical := by
  cases e with
  | node => cases h
  | _ => trivial

/-- Its own steps leave the queue of the simulator alone, whatever is in it. -/
theorem Sys.step_rx {s s' : Sys keccak256} {e : Event keccak256} (hown : e.isOwn = true)
    (h : Sys.Step L e s s') (rx : List ExExNotification) :
    Sys.Step L e { s with rx := rx } { s' with rx := rx } ∧ s'.rx = s.rx := by
  cases h.transition with
  | node | recv => cases hown
  | requestFlush hjob hpending hlayer =>
    replace hlayer : s.layer.step L _ = some _ := hlayer
    exact ⟨by simp [Lts.Executes, step, hjob, hpending, hlayer], rfl⟩
  | handOver hjob hlayer =>
    replace hlayer : s.layer.step L _ = some _ := hlayer
    exact ⟨by simp [Lts.Executes, step, hjob, hlayer], rfl⟩
  | publish hjob hcaches =>
    exact ⟨by simp [Lts.Executes, step, hjob, hcaches, publish, publication], rfl⟩
  | manager hinternal hlayer =>
    replace hlayer : s.layer.step L _ = some _ := hlayer
    exact ⟨by simp [Lts.Executes, step, hinternal, hlayer], rfl⟩
  | answer hlayer =>
    replace hlayer : s.layer.step L _ = some _ := hlayer
    exact ⟨by simp [Lts.Executes, step, hlayer], rfl⟩
  | load => exact ⟨rfl, rfl⟩
  | served hread houtcome =>
    exact ⟨by simp [Lts.Executes, step, hread, houtcome], rfl⟩
  | sent hread houtcome hlayer =>
    replace hlayer : s.layer.step L _ = some _ := hlayer
    exact ⟨by simp [Lts.Executes, step, hread, houtcome, hlayer], rfl⟩

/-- What the client was told are changes of the canonical chain. -/
def Sys.CanonTold (s : Sys keccak256) : Prop :=
  ∀ n ∈ s.taken, ∃ change : CanonStateNotification, n = change.exex

theorem Sys.CanonTold.step {s s' : Sys keccak256} {e : Event keccak256} (h : s.CanonTold)
    (hs : Sys.Step L e s s') (hcanonical : e.Canonical) : s'.CanonTold := by
  intro n hn
  rw [Step.taken_eq hs, List.mem_append, Option.mem_toList] at hn
  rcases hn with hn | hn
  · exact h n hn
  · cases e with
    | node n' lost =>
      cases lost with
      | true => cases hn
      | false => cases hn; exact hcanonical
    | _ => cases hn

/-- So it is not told of a revert. -/
theorem Sys.CanonTold.ne_reverted {s : Sys keccak256} (h : s.CanonTold) {p : Publication}
    (hp : s.Publishes p) (old : Chain) : p.notification ≠ .chainReverted old := by
  obtain ⟨job, caches, hjob, -, rfl⟩ := hp
  obtain ⟨change, hchange⟩ := h job.notification (by simp [taken, hjob])
  exact fun hreverted ↦ change.exex_ne_reverted old (hchange.symm.trans hreverted)

/-- `InScope`, of a client that is not told of reverts. -/
def Sys.Accepts (L : Ledger) (s : Sys keccak256) : Event keccak256 → Prop
  | .node n _ => n.Extends keccak256 L s.layer.tip
  | .load k key => 0 < s.generation ∧ Below s.snapshot.block k key
  | .publish => ∀ p, s.Publishes p → p.notification.isAccepted p.current = true
  | _ => True

theorem Sys.CanonTold.inScope {s : Sys keccak256} {e : Event keccak256} (h : s.CanonTold)
    (haccepts : s.Accepts L e) : s.InScope L e := by
  cases e with
  | publish => exact fun p hp ↦ ⟨haccepts p hp, h.ne_reverted hp⟩
  | node | load => exact haccepts
  | _ => trivial

end RexSim

namespace LiveUpdate

section

variable [Revm] {keccak256 : Bytes → B256} {ι D : Type} [DecidableEq ι]

/-- The node with its ExEx, the server and its clients, and the simulator.  What the simulator is
told waits with its client, and not in the queue of `sim`. -/
structure Live (ι D : Type) (keccak256 : Bytes → B256) where
  delivery : RexCons.Delivery ι D
  sim : Sys keccak256

inductive LiveEvent (ι : Type) (keccak256 : Bytes → B256)
  /-- The canonical chain of the node changes.  The ExEx sees the change, or has lagged behind. -/
  | node (change : CanonStateNotification) (seen : Bool)
  /-- The ExEx does anything else. -/
  | exex (e : RemoteEvent)
  /-- The server or a client takes a step. -/
  | transport (e : RexCons.Event ι ExExNotification)
  /-- The changeset manager takes a notification from the channel of its client. -/
  | recv
  /-- The simulator does anything else. -/
  | sim (e : RexSim.Event keccak256)

/-- The subscriber of `c` takes a notification. -/
def takes (c : ι) : RexCons.Event ι ExExNotification → Bool
  | .thread c' .take => decide (c' = c)
  | _ => false

namespace Live

variable {codec : Codec ExExNotification D} {L : Ledger} {c : ι} {s s' : Live ι D keccak256}
  {e : LiveEvent ι keccak256}

def step (codec : Codec ExExNotification D) (L : Ledger) (c : ι) (s : Live ι D keccak256) :
    LiveEvent ι keccak256 → Option (Live ι D keccak256)
  | .node change seen =>
    let sim := { s.sim with layer := { s.sim.layer with tip := change.exex.newTip } }
    if seen then
      (s.delivery.step codec (.exex (.canon (some change)))).map fun delivery ↦ ⟨delivery, sim⟩
    else some { s with sim := sim }
  | .exex e => match RemoteExEx.broadcast e with
    | none => (s.delivery.step codec (.exex e)).map fun delivery ↦ { s with delivery := delivery }
    | some _ => none
  | .transport e =>
    if takes c e then none
    else (s.delivery.step codec (.net e)).map fun delivery ↦ { s with delivery := delivery }
  | .recv => match s.sim.job, s.delivery.watch.net.upcoming c with
    | none, some n => (s.delivery.step codec (.net (.thread c .take))).map fun delivery ↦
      ⟨delivery, { s.sim with job := some { current := s.sim.snapshot, notification := n } }⟩
    | _, _ => none
  | .sim e =>
    if e.isOwn then (s.sim.step L e).map fun sim ↦ { s with sim := sim } else none

abbrev Step (codec : Codec ExExNotification D) (L : Ledger) (c : ι) :
    LiveEvent ι keccak256 → Live ι D keccak256 → Live ι D keccak256 → Prop :=
  Lts.Executes (step codec L c)

/-- Every `try_connect` subscribes anew. -/
def Fresh (s : Live ι D keccak256) : LiveEvent ι keccak256 → Prop
  | .transport e => s.delivery.Fresh (.net e)
  | _ => True

def new (ι D : Type) (keccak256 : Bytes → B256) (fetch : FetchConfig) (head : ℕ × B256) :
    Live ι D keccak256 where
  delivery := { exex := .install head }
  sim := .new keccak256 fetch head.2

/-- What was broadcast. -/
def sent (s : Live ι D keccak256) : List ExExNotification := s.delivery.exex.notifications

/-- What the simulator was told. -/
def told (c : ι) (s : Live ι D keccak256) : List ExExNotification :=
  (s.delivery.watch.logs c).took

/-- **What each step does.** -/
inductive Transition (codec : Codec ExExNotification D) (L : Ledger) (c : ι)
    (s : Live ι D keccak256) : LiveEvent ι keccak256 → Live ι D keccak256 → Prop
  /-- The chain changes; the change is broadcast or not. -/
  | node {change : CanonStateNotification} {seen : Bool} {s' : Live ι D keccak256}
      (hsim : s'.sim = { s.sim with layer := { s.sim.layer with tip := change.exex.newTip } })
      (hsent : s'.sent = s.sent ++ if seen then [change.exex] else [])
      (htold : s'.told c = s.told c) : Transition codec L c s (.node change seen) s'
  /-- Neither the simulator nor what was broadcast is touched. -/
  | between {e : LiveEvent ι keccak256} {s' : Live ι D keccak256} (hsim : s'.sim = s.sim)
      (hsent : s'.sent = s.sent) (htold : s'.told c = s.told c) : Transition codec L c s e s'
  | recv {n : ExExNotification} {s' : Live ι D keccak256} (hjob : s.sim.job = none)
      (hsim : s'.sim =
        { s.sim with job := some { current := s.sim.snapshot, notification := n } })
      (hsent : s'.sent = s.sent) (htold : s'.told c = s.told c ++ [n]) :
      Transition codec L c s .recv s'
  | sim {e : RexSim.Event keccak256} {sim : Sys keccak256} (hown : e.isOwn = true)
      (hs : Sys.Step L e s.sim sim) : Transition codec L c s (.sim e) { s with sim := sim }

/-- What a step does to the transport is a step of it. -/
theorem Step.delivery (h : Step codec L c e s s') :
    s'.delivery = s.delivery ∨
      ∃ e', s.delivery.step codec e' = some s'.delivery ∧ (s.Fresh e → s.delivery.Fresh e') := by
  replace h : s.step codec L c e = some s' := h
  cases e with
  | node change seen =>
    rw [step] at h
    split at h
    · obtain ⟨delivery, hdelivery, rfl⟩ := Option.map_eq_some_iff.mp h
      exact Or.inr ⟨_, hdelivery, fun _ ↦ trivial⟩
    · cases h
      exact Or.inl rfl
  | exex e =>
    rw [step] at h
    split at h
    · obtain ⟨delivery, hdelivery, rfl⟩ := Option.map_eq_some_iff.mp h
      exact Or.inr ⟨_, hdelivery, fun _ ↦ trivial⟩
    · simp at h
  | transport e =>
    rw [step] at h
    split at h
    · simp at h
    · obtain ⟨delivery, hdelivery, rfl⟩ := Option.map_eq_some_iff.mp h
      exact Or.inr ⟨_, hdelivery, id⟩
  | recv =>
    rw [step] at h
    split at h
    · obtain ⟨delivery, hdelivery, rfl⟩ := Option.map_eq_some_iff.mp h
      exact Or.inr ⟨_, hdelivery, fun _ ↦ trivial⟩
    · simp at h
  | sim e =>
    rw [step] at h
    split at h
    · obtain ⟨sim, -, rfl⟩ := Option.map_eq_some_iff.mp h
      exact Or.inl rfl
    · simp at h

theorem Step.delivery_inv (hinv : s.delivery.Inv codec) (h : Step codec L c e s s')
    (hfresh : s.Fresh e) : s'.delivery.Inv codec := by
  rcases h.delivery with hsame | ⟨e', hdelivery, hfresh'⟩
  · rwa [hsame]
  · exact hinv.step hdelivery (hfresh' hfresh)

theorem Step.transition (h : Step codec L c e s s') : s.Transition codec L c e s' := by
  replace h : s.step codec L c e = some s' := h
  cases e with
  | node change seen =>
    rw [step] at h
    split at h
    · rename_i hseen
      obtain ⟨delivery, hdelivery, rfl⟩ := Option.map_eq_some_iff.mp h
      obtain ⟨hsent, htook⟩ := RexCons.Delivery.exex_of_step hdelivery c
      exact .node rfl (by rw [if_pos hseen]; exact hsent) htook
    · rename_i hseen
      cases h
      exact .node rfl (by rw [if_neg hseen]; exact (List.append_nil _).symm) rfl
  | exex e =>
    rw [step] at h
    split at h
    · rename_i hbroadcast
      obtain ⟨delivery, hdelivery, rfl⟩ := Option.map_eq_some_iff.mp h
      obtain ⟨hsent, htook⟩ := RexCons.Delivery.exex_of_step hdelivery c
      rw [hbroadcast, Option.toList_none, List.append_nil] at hsent
      exact .between rfl hsent htook
    · simp at h
  | transport e =>
    rw [step] at h
    split at h
    · simp at h
    · rename_i htakes
      obtain ⟨delivery, hdelivery, rfl⟩ := Option.map_eq_some_iff.mp h
      obtain ⟨hexex, hwatch⟩ := RexCons.Delivery.net_of_step hdelivery
      refine .between rfl (congrArg RemoteExEx.notifications hexex)
        (RexCons.Watch.took_of_step hwatch ?_)
      rintro rfl
      simp [takes] at htakes
  | recv =>
    rw [step] at h
    split at h
    · rename_i n hjob hupcoming
      obtain ⟨delivery, hdelivery, rfl⟩ := Option.map_eq_some_iff.mp h
      obtain ⟨hexex, hwatch⟩ := RexCons.Delivery.net_of_step hdelivery
      exact .recv hjob rfl (congrArg RemoteExEx.notifications hexex)
        (RexCons.Watch.took_of_take hwatch hupcoming)
    · simp at h
  | sim e =>
    rw [step] at h
    split at h
    · rename_i hown
      obtain ⟨sim, hs, rfl⟩ := Option.map_eq_some_iff.mp h
      exact .sim hown hs
    · simp at h

/-! ## The simulation -/

/-- The queue of `sim` holds notifications that may still be taken: they follow what was taken in
what was broadcast. -/
def Stands (c : ι) (s : Live ι D keccak256) (sim : Sys keccak256) : Prop :=
  ∃ rx, (s.told c ++ rx).Sublist s.sent ∧ sim = { s.sim with rx := rx }

/-- The guard does not look at the queue. -/
def QueueBlind (ok : Sys keccak256 → RexSim.Event keccak256 → Prop) : Prop :=
  ∀ s e rx, ok s e → ok { s with rx := rx } e

/-- The guard on what the simulator sees of an event. -/
def Allowed (ok : Sys keccak256 → RexSim.Event keccak256 → Prop) (s : Live ι D keccak256) :
    LiveEvent ι keccak256 → Prop
  | .node change _ => ∀ lost, ok s.sim (.node change.exex lost)
  | .recv => ok s.sim .recv
  | .sim e => ok s.sim e
  | _ => True

omit [DecidableEq ι] in
theorem allowed_true (s : Live ι D keccak256) (e : LiveEvent ι keccak256) :
    s.Allowed (fun _ _ ↦ True) e := by
  cases e <;> simp [Allowed]

omit [Revm] in
/-- What may be taken of one more notification: as before, or this one at the end. -/
theorem sublist_concat {α : Type} {told rx sent : List α} {n : α}
    (h : (told ++ rx).Sublist (sent ++ [n])) (htold : told.Sublist sent) :
    (told ++ rx).Sublist sent ∨ ∃ rest, rx = rest ++ [n] ∧ (told ++ rest).Sublist sent := by
  rcases rx.eq_nil_or_concat' with rfl | ⟨rest, m, rfl⟩
  · exact Or.inl (by rwa [List.append_nil])
  · have hreverse : (m :: (told ++ rest).reverse).Sublist (n :: sent.reverse) := by
      simpa using h.reverse
    rcases List.cons_sublist_cons'.mp hreverse with hbefore | ⟨rfl, hrest⟩
    · exact Or.inl (by simpa using hbefore.reverse)
    · exact Or.inr ⟨rest, rfl, List.reverse_sublist.mp hrest⟩

omit [DecidableEq ι] in
/-- **The backward step.** -/
theorem Transition.backward {ok : Sys keccak256 → RexSim.Event keccak256 → Prop}
    (hblind : QueueBlind ok) (h : s.Transition codec L c e s')
    (htold : (s.told c).Sublist s.sent) (hok : s.Allowed ok e) {sim' : Sys keccak256}
    (hsim' : s'.Stands c sim') :
    ∃ sim, s.Stands c sim ∧
      Lts.Run (Sys.Step L) (fun s e ↦ ok s e ∧ e.Canonical) sim sim' := by
  obtain ⟨rx, hrx, rfl⟩ := hsim'
  cases h with
  | @node change seen _ hsim hsent hsame =>
    rw [hsame, hsent] at hrx
    rw [hsim]
    have hlost : (s.told c ++ rx).Sublist s.sent → ∃ sim, s.Stands c sim ∧
        Lts.Run (Sys.Step L) (fun s e ↦ ok s e ∧ e.Canonical) sim
          { s.sim with layer := { s.sim.layer with tip := change.exex.newTip }, rx := rx } :=
      fun hrx ↦ ⟨{ s.sim with rx := rx }, ⟨rx, hrx, rfl⟩,
        .one (e := .node change.exex true) rfl ⟨hblind _ _ rx (hok true), change, rfl⟩⟩
    cases seen with
    | false => exact hlost (by simpa using hrx)
    | true =>
      -- the notification is taken some time, or it is not
      rcases sublist_concat hrx htold with hrx | ⟨rest, rfl, hrest⟩
      · exact hlost hrx
      · exact ⟨{ s.sim with rx := rest }, ⟨rest, hrest, rfl⟩,
          .one (e := .node change.exex false) rfl ⟨hblind _ _ rest (hok false), change, rfl⟩⟩
  | between hsim hsent hsame =>
    rw [hsame, hsent] at hrx
    exact ⟨_, ⟨rx, hrx, rfl⟩, by rw [hsim]⟩
  | @recv n _ hjob hsim hsent htook =>
    rw [htook, hsent, List.append_assoc] at hrx
    refine ⟨{ s.sim with rx := n :: rx }, ⟨n :: rx, hrx, rfl⟩, ?_⟩
    refine .one (e := .recv) ?_ ⟨hblind _ _ _ hok, trivial⟩
    rw [hsim]
    simp [Lts.Executes, Sys.step, hjob]
  | sim hown hs =>
    exact ⟨{ s.sim with rx := rx }, ⟨rx, hrx, rfl⟩,
      .one (Sys.step_rx hown hs rx).1 ⟨hblind _ _ rx hok, RexSim.Event.canonical_of_isOwn hown⟩⟩

/-! ## The runs -/

/-- What is kept of the delivery, and of what the simulator was told. -/
structure Inv (codec : Codec ExExNotification D) (c : ι) (s : Live ι D keccak256) : Prop where
  delivery : s.delivery.Inv codec
  rx : s.sim.rx = []
  /-- What the simulator was told has been applied, or is in hand. -/
  taken : s.sim.taken = s.told c

theorem inv_new (codec : Codec ExExNotification D) (c : ι) (fetch : FetchConfig)
    (head : ℕ × B256) : (new ι D keccak256 fetch head).Inv codec c where
  delivery := ⟨RexCons.Watch.inv_new codec, rfl, [], rfl⟩
  rx := rfl
  taken := rfl

theorem Inv.step (h : s.Inv codec c) (hs : Step codec L c e s s') (hfresh : s.Fresh e) :
    s'.Inv codec c := by
  refine ⟨hs.delivery_inv h.delivery hfresh, ?_, ?_⟩
  · cases hs.transition with
    | node hsim | between hsim | recv _ hsim => simp [hsim, h.rx]
    | sim hown hstep => exact (Sys.step_rx hown hstep []).2.trans h.rx
  · cases hs.transition with
    | node hsim _ htold => rw [htold, ← h.taken, hsim]; rfl
    | between hsim _ htold => rw [htold, ← h.taken, hsim]
    | recv hjob hsim _ htold =>
      rw [htold, ← h.taken, hsim]
      simp [Sys.taken, hjob, h.rx]
    | @sim e sim hown hstep =>
      have hqueued : Sys.queued e = none := by
        cases e with
        | node => cases hown
        | _ => rfl
      have htaken := Sys.Step.taken_eq hstep
      rw [hqueued, Option.toList_none, List.append_nil] at htaken
      exact htaken.trans h.taken

omit [DecidableEq ι] in
/-- What the simulator was told is in the order of the broadcast. -/
theorem Inv.inOrder (h : s.Inv codec c) : (s.told c).Sublist (s.sent.filter codec.Decodes) :=
  (h.delivery.delivered c).taken.1.trans (h.delivery.delivered c).inOrder

/-- **From the node to the simulator.** -/
structure EndToEnd (codec : Codec ExExNotification D) (L : Ledger) (c : ι)
    (ok : Sys keccak256 → RexSim.Event keccak256 → Prop) (fetch : FetchConfig) (head : ℕ × B256)
    (s : Live ι D keccak256) : Prop where
  /-- The simulator is where it could be if the node told it of each change of its chain at once, or
  not at all. -/
  run : Lts.Run (Sys.Step L) (fun s e ↦ ok s e ∧ e.Canonical) (.new keccak256 fetch head.2) s.sim
  /-- It was told of changes that were broadcast, in their order and of none of them twice. -/
  inOrder : (s.told c).Sublist (s.sent.filter codec.Decodes)
  /-- It has applied them in this order, each once, but for the one in hand. -/
  applied : s.sim.published.map RexSim.Publication.notification ++
    (s.sim.job.map RexSim.Job.notification).toList = s.told c

variable {ok : Sys keccak256 → RexSim.Event keccak256 → Prop} {fetch : FetchConfig}
  {head : ℕ × B256}

theorem inv_of_run (h : Lts.Run (Step codec L c) (fun s e ↦ s.Fresh e ∧ s.Allowed ok e)
    (.new ι D keccak256 fetch head) s) : s.Inv codec c :=
  h.invariant (fun e _ _ hinv hs hok ↦ hinv.step (e := e) hs hok.1) (inv_new codec c fetch head)

/-- **The simulation.** -/
theorem sim_of_run (hblind : QueueBlind ok)
    (h : Lts.Run (Step codec L c) (fun s e ↦ s.Fresh e ∧ s.Allowed ok e)
      (.new ι D keccak256 fetch head) s) :
    Lts.Run (Sys.Step L) (fun s e ↦ ok s e ∧ e.Canonical) (.new keccak256 fetch head.2) s.sim := by
  have hinv := inv_of_run h
  have hnothing : (s.told c ++ []).Sublist s.sent := by
    rw [List.append_nil]
    exact hinv.inOrder.trans List.filter_sublist
  refine Lts.Run.of_backward (R := Stands c)
    (fun e s s' (hinv : s.Inv codec c) hs hok ↦ hinv.step (e := e) hs hok.1)
    (fun e s s' hinv hs hok sim' hsim' ↦ ?_) (inv_new codec c fetch head) ?_ h
    ⟨[], hnothing, by rw [← hinv.rx]⟩
  · exact (Step.transition (e := e) hs).backward hblind
      (hinv.inOrder.trans List.filter_sublist) hok.2 hsim'
  · -- nothing was broadcast yet
    rintro _ ⟨rx, hrx, rfl⟩
    rw [(List.append_eq_nil_iff.mp (List.sublist_nil.mp hrx)).2]
    exact .refl

end Live

/-- **The simulator behind the transport is the simulator**, if every `try_connect` subscribes anew:
whatever connections are lost, and whatever lags behind in between, what the node, the server and
the client make of it is a run of `Sys`.  All that holds of those holds here. -/
theorem Live.endToEnd_of_run {keccak256 : Bytes → B256} {ι D : Type} [DecidableEq ι]
    {codec : Codec ExExNotification D} {L : Ledger} {c : ι}
    {ok : Sys keccak256 → RexSim.Event keccak256 → Prop} {fetch : FetchConfig} {head : ℕ × B256}
    {s : Live ι D keccak256} (hblind : Live.QueueBlind ok)
    (h : Lts.Run (Live.Step codec L c) (fun s e ↦ s.Fresh e ∧ s.Allowed ok e)
      (.new ι D keccak256 fetch head) s) : s.EndToEnd codec L c ok fetch head := by
  have hinv := Live.inv_of_run h
  refine ⟨Live.sim_of_run hblind h, hinv.inOrder, ?_⟩
  rw [← hinv.taken, Sys.taken, hinv.rx, List.append_nil]

/-- **A simulator that follows a node refines its chain**, if every `try_connect` subscribes anew,
reads begin after the first round and ask for block hashes below their block, every answer agrees
with the tag of its request, and no round is rejected or takes away what is held: its readers are
told the values of the state of the block they read at, through every loss of a connection.  Reverts
need not be excluded, for the ExEx tells of none. -/
theorem Live.followsChain_of_run {keccak256 : Bytes → B256} {ι D : Type} [DecidableEq ι]
    {codec : Codec ExExNotification D} {L : Ledger} {c : ι} {fetch : FetchConfig} {head : ℕ × B256}
    {s : Live ι D keccak256}
    (h : Lts.Run (Live.Step codec L c)
      (fun s e ↦ s.Fresh e ∧ s.Allowed (fun s e ↦ s.Accepts L e ∧ s.Undamaged L e) e)
      (.new ι D keccak256 fetch head) s) : s.sim.Refines L := by
  have hblind : Live.QueueBlind fun (s : Sys keccak256) e ↦ s.Accepts L e ∧ s.Undamaged L e := by
    intro s e rx hok
    cases e <;> exact hok
  have hrun := Live.sim_of_run hblind h
  have hstep : ∀ e (s s' : Sys keccak256), s.Faithful L ∧ s.CanonTold → Sys.Step L e s s' →
      (s.Accepts L e ∧ s.Undamaged L e) ∧ e.Canonical → s'.Faithful L ∧ s'.CanonTold :=
    fun e _ _ hinv hs hok ↦
      ⟨hinv.1.step (e := e) hs (hinv.2.inScope hok.1.1) hok.1.2, hinv.2.step hs hok.2⟩
  exact (hrun.invariant hstep
    ⟨Sys.faithful_new fetch head.2, fun _ hn ↦ absurd hn List.not_mem_nil⟩).1.refines

end

/-! ## A client that misses a block -/

namespace Missed

open RexSim.Branches (a1 a2 keccak ledger)
open RexSim.Overtaken (inScope undamaged)

open scoped RexSim.Revm

abbrev Event := LiveEvent Unit keccak

/-- The client gets the session `i`. -/
def connects (i : ℕ) : List Event :=
  [.transport .accept, .transport (.thread () (.connected i))]

/-- A notification on its way from the broadcast channel of a session to the client. -/
def passes (i : ℕ) : List Event :=
  [.transport (.session i .recv), .transport (.session i .send), .transport (.session i .forward),
    .transport (.thread () .message), .transport (.thread () .handOver)]

/-- The client is told of the block `11`, at which the slot is read; the block `12` is committed
while it has no connection. -/
def events : List Event :=
  .transport (.spawn ()) :: connects 0 ++ .node (.commit a1) true :: passes 0 ++
    .recv :: (RexSim.Branches.round.tail ++ RexSim.Branches.readSlot ++
      RexSim.Branches.answerSlot 1).map .sim ++
    [.transport (.session 0 .drop), .transport (.thread () .failed), .node (.commit a2) true] ++
    connects 1

/-- The block comes after the tip of the chain. -/
def comesNext (tip : B256) : CanonStateNotification → Bool
  | .commit new => tip = new.first.parentHash
  | .reorg _ _ => false

def check (s : Live Unit ExExNotification keccak) : Event → Bool
  | .node change _ => comesNext s.sim.layer.tip change
  | .transport e => RexCons.Reconnecting.isFresh s.delivery (.net e)
  | .sim e => e.isOwn && inScope s.sim e && undamaged s.sim e
  | _ => true

def start : Live Unit ExExNotification keccak := .new Unit ExExNotification keccak {} (0, 10)

theorem extends_of_comesNext {change : CanonStateNotification} {seen : Bool} {tip : B256}
    (hmem : LiveEvent.node change seen ∈ events) (h : comesNext tip change = true) :
    change.exex.Extends keccak ledger tip := by
  have hchange : change ∈ events.filterMap fun e ↦ match e with
      | .node change _ => some change
      | _ => none :=
    List.mem_filterMap.mpr ⟨_, hmem, rfl⟩
  rw [show events.filterMap _ = [.commit a1, .commit a2] from rfl, List.mem_cons,
    List.mem_singleton] at hchange
  rcases hchange with rfl | rfl
  · exact ⟨RexSim.Branches.onLedger_a1, Or.inl (of_decide_eq_true h)⟩
  · exact ⟨RexSim.Branches.onLedger_a2, Or.inl (of_decide_eq_true h)⟩

theorem allowed_of_check {s : Live Unit ExExNotification keccak} {e : Event} (hmem : e ∈ events)
    (h : check s e = true) :
    s.Fresh e ∧ s.Allowed (fun s e ↦ s.Accepts ledger e ∧ s.Undamaged ledger e) e := by
  cases e with
  | node change seen => exact ⟨trivial, fun _ ↦ ⟨extends_of_comesNext hmem h, trivial⟩⟩
  | exex => exact ⟨trivial, trivial⟩
  | transport e => exact ⟨RexCons.Reconnecting.fresh_of_isFresh _ _ h, trivial⟩
  | recv => exact ⟨trivial, trivial, trivial⟩
  | sim e =>
    rw [check, Bool.and_eq_true, Bool.and_eq_true] at h
    refine ⟨trivial, ?_, RexSim.Overtaken.undamaged_of_check h.2⟩
    have hhonest : s.sim.Honest ledger e := by
      cases e with
      | node => cases h.1.1
      | _ => trivial
    have hscope := RexSim.Overtaken.inScope_of_check h.1.2 hhonest
    cases e with
    | publish => exact fun p hp ↦ (hscope p hp).1
    | node | load => exact hscope
    | _ => trivial

theorem isSome_replay : (Lts.replay (Live.step RexCons.Reconnecting.asIs ledger ()) check events
    start).isSome = true := by
  decide +kernel

def final : Live Unit ExExNotification keccak :=
  (Lts.replay (Live.step RexCons.Reconnecting.asIs ledger ()) check events start).get isSome_replay

theorem run : Lts.Run (Live.Step RexCons.Reconnecting.asIs ledger ())
    (fun s e ↦ s.Fresh e ∧ s.Allowed (fun s e ↦ s.Accepts ledger e ∧ s.Undamaged ledger e) e)
    start final :=
  .of_replay_of_mem (Option.some_get isSome_replay).symm fun _ _ hmem hcheck ↦
    allowed_of_check hmem hcheck

/-- Two blocks were broadcast and one was applied; the slot has been read at it. -/
example : final.sent.length = 2 ∧ final.sim.snapshot.blockHash = 11 ∧ final.sim.layer.tip = 12 ∧
    (final.sim.layer.managers .storage).replies.length = 1 := by decide +kernel

end Missed

open scoped RexSim.Revm in
open Missed RexSim.Branches in
/-- The run in which the client misses a block. -/
theorem Live.endToEnd_of_run_missed :
    final.EndToEnd RexCons.Reconnecting.asIs ledger () (fun _ _ ↦ True) {} (0, 10) :=
  Live.endToEnd_of_run (fun _ _ _ _ ↦ trivial)
    (run.mono fun s e hok ↦ ⟨hok.1, s.allowed_true e⟩)

open scoped RexSim.Revm in
open Missed RexSim.Branches in
/-- Its readers are told the values of the block it stands on. -/
theorem Live.followsChain_of_run_missed : final.sim.Refines ledger := Live.followsChain_of_run run

end LiveUpdate
