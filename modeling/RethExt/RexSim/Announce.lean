import RethExt.RexSim.Rounds

/-!
# What a round lets others see

`handleNotification` says what a round comes to, and `Sys.publish` ends it at once.  In the code it
ends with several statements, and others look in between: the readers of the snapshot, the receiver
of the updates, the log sink, and whoever waits for the ready signal.  `roundEffects` are these
statements in their order, and the `Announcer` executes them one at a time.

What is left of a round always leads to the same end, `Outlets.finish`, which is the `Round` of the
other modules (`foldl_roundEffects`); so between two rounds the outlets are those of the rounds
(`Outlets.after`), and in a round they are on the way from one to the next.  With that
`announced_of_run` says what can be seen at any moment.
-/

set_option autoImplicit false

namespace RexSim

section

variable [Revm]

/-! ## The statements -/

/-- The statements at the end of a round that others can see. -/
inductive Effect
  /-- The snapshot is stored. -/
  | store (snapshot : StateSnapshot)
  /-- The generation goes up. -/
  | count
  /-- An update is sent, with the generation that is read then. -/
  | update (block : ℕ) (blockHash : B256)
  /-- The logs are handed to the sink, unless there are none. -/
  | logs (logs : List Log)
  /-- The ready signal is taken and fired, if it is still there. -/
  | ready (block : ℕ)

/-- `StaticState::swap`. -/
def swap (snapshot : StateSnapshot) : List Effect := [.store snapshot, .count]

/-- How `run_changeset_manager` ends a round. -/
def roundEffects (current : StateSnapshot) (caches : Caches) : ExExNotification → List Effect
  | .chainCommitted new =>
    if (commitVerdict current new).isAcceptable then
      swap (buildCommitState current caches (extractExecutionChanges new) (extractBlockData new)
          new.chainTip).1 ++
        [.update new.tip.number new.tip.hash, .logs (extractLogs new), .ready new.tip.number]
    else swap (markStale current)
  | .chainReorged old new =>
    if (reorgVerdict current old).isAcceptable then
      swap (buildReorgState current old.commonAncestor (extractExecutionChanges new)
          (extractBlockData new) new.chainTip) ++
        [.update new.tip.number new.tip.hash, .logs (extractLogs new), .ready new.tip.number]
    else swap (markStale current)
  | .chainReverted old =>
    swap (buildRevertState current old.commonAncestor) ++ [.update old.commonAncestor 0]

/-- What others see.  Of the updates, the watch channel holds the last; there may be no receiver of
updates, no sink and no ready signal. -/
structure Outlets where
  snapshot : StateSnapshot := {}
  generation : ℕ := 0
  updates : Option (List StateUpdate) := some []
  sink : Option (List (List Log)) := some []
  armed : Bool := true
  fired : List ℕ := []

namespace Outlets

def perform (o : Outlets) : Effect → Outlets
  | .store snapshot => { o with snapshot := snapshot }
  | .count => { o with generation := o.generation + 1 }
  | .update block blockHash =>
    { o with updates := o.updates.map fun us ↦ us ++ [⟨block, blockHash, o.generation⟩] }
  | .logs logs =>
    { o with sink := o.sink.map fun batches ↦ if logs.isEmpty then batches else batches ++ [logs] }
  | .ready block =>
    if o.armed then { o with armed := false, fired := o.fired ++ [block] } else o

/-- The outlets when a round is over. -/
def finish (o : Outlets) (p : Publication) : Outlets where
  snapshot := p.round.snapshot
  generation := o.generation + 1
  updates := o.updates.map fun us ↦ us ++ p.round.update.toList
  sink := o.sink.map fun batches ↦
    if p.round.logs.isEmpty then batches else batches ++ [p.round.logs]
  armed := o.armed && p.round.ready.isNone
  fired := o.fired ++ if o.armed then p.round.ready.toList else []

/-- The outlets when the rounds are over. -/
def after (o : Outlets) (ps : List Publication) : Outlets := ps.foldl finish o

theorem after_concat (o : Outlets) (ps : List Publication) (p : Publication) :
    o.after (ps ++ [p]) = (o.after ps).finish p := List.foldl_concat _ _ _ _

/-- **The statements of a round come to its `Round`.** -/
theorem foldl_roundEffects (o : Outlets) (caches : Caches) (n : ExExNotification) :
    (roundEffects o.snapshot caches n).foldl perform o =
      o.finish ⟨o.snapshot, o.generation, caches, n⟩ := by
  have hrejected : n.isAccepted o.snapshot = false →
      (swap (markStale o.snapshot)).foldl perform o =
        o.finish ⟨o.snapshot, o.generation, caches, n⟩ := by
    intro h
    simp [finish, Publication.round, handleNotification, h, nextSnapshot_of_not_accepted caches h,
      swap, perform]
  cases n with
  | chainCommitted new =>
    rw [roundEffects]
    split
    · rename_i h
      have haccepted : ExExNotification.isAccepted o.snapshot (.chainCommitted new) = true := h
      cases harmed : o.armed <;>
        simp [finish, Publication.round, handleNotification, haccepted, harmed,
          nextSnapshot_committed caches h, swap, perform]
    · rename_i h
      exact hrejected (Bool.eq_false_of_not_eq_true h)
  | chainReorged old new =>
    rw [roundEffects]
    split
    · rename_i h
      have haccepted : ExExNotification.isAccepted o.snapshot (.chainReorged old new) = true := h
      cases harmed : o.armed <;>
        simp [finish, Publication.round, handleNotification, haccepted, harmed,
          nextSnapshot_reorged caches h, swap, perform]
    · rename_i h
      exact hrejected (Bool.eq_false_of_not_eq_true h)
  | chainReverted old =>
    simp [roundEffects, finish, Publication.round, handleNotification, nextSnapshot,
      ExExNotification.isAccepted, swap, perform]

end Outlets

/-! ## The announcer -/

/-- The changeset manager with what it has still to do of its round, and the rounds it has begun. -/
structure Announcer where
  outlets : Outlets
  todo : List Effect := []
  rounds : List Publication := []

inductive AnnouncerEvent
  /-- It has a notification, the snapshot and the four caches. -/
  | begin (caches : Caches) (n : ExExNotification)
  /-- It executes the next statement. -/
  | perform

namespace Announcer

def step (a : Announcer) : AnnouncerEvent → Option Announcer
  | .begin caches n => match a.todo with
    | [] => some { a with
        todo := roundEffects a.outlets.snapshot caches n
        rounds := a.rounds ++ [⟨a.outlets.snapshot, a.outlets.generation, caches, n⟩] }
    | _ :: _ => none
  | .perform => match a.todo with
    | effect :: rest => some { a with outlets := a.outlets.perform effect, todo := rest }
    | [] => none

abbrev Step : AnnouncerEvent → Announcer → Announcer → Prop := Lts.Executes step

/-- **Where the announcer is**: between two rounds the outlets are those of the rounds that are
over; in a round some of its statements are executed, and the others are left. -/
inductive At (start : Outlets) : Announcer → Prop
  | idle {ps : List Publication}
      (h : Chained ps (start.after ps).snapshot (start.after ps).generation) :
      At start ⟨start.after ps, [], ps⟩
  | ending {ps : List Publication} {caches : Caches} {n : ExExNotification}
      {done todo : List Effect}
      (h : Chained ps (start.after ps).snapshot (start.after ps).generation)
      (hsplit : roundEffects (start.after ps).snapshot caches n = done ++ todo) :
      At start ⟨done.foldl Outlets.perform (start.after ps), todo,
        ps ++ [⟨(start.after ps).snapshot, (start.after ps).generation, caches, n⟩]⟩

variable {start : Outlets} {a a' : Announcer} {e : AnnouncerEvent}

/-- A round that has nothing left to do is over. -/
theorem At.idle_of_todo (h : At start a) (htodo : a.todo = []) :
    a = ⟨start.after a.rounds, [], a.rounds⟩ ∧
      Chained a.rounds (start.after a.rounds).snapshot (start.after a.rounds).generation := by
  cases h with
  | idle h => exact ⟨rfl, h⟩
  | @ending ps caches n done todo h hsplit =>
    subst htodo
    rw [List.append_nil] at hsplit
    have hover := (start.after ps).foldl_roundEffects caches n
    rw [hsplit] at hover
    have hafter := start.after_concat ps
      ⟨(start.after ps).snapshot, (start.after ps).generation, caches, n⟩
    rw [← hover] at hafter
    refine ⟨by rw [hafter], ?_⟩
    rw [hafter, hover]
    exact h.next caches n

/-- **The step lemma.** -/
theorem At.step (h : At start a) (hs : Step e a a') : At start a' := by
  replace hs : a.step e = some a' := hs
  cases e with
  | begin caches n =>
    rw [Announcer.step] at hs
    split at hs
    · rename_i htodo
      obtain ⟨ha, hrounds⟩ := h.idle_of_todo htodo
      rw [ha] at hs
      cases hs
      exact .ending hrounds (List.nil_append _).symm
    · simp at hs
  | perform =>
    rw [Announcer.step] at hs
    split at hs
    · rename_i effect rest htodo
      cases hs
      cases h with
      | idle h => cases htodo
      | @ending ps caches n done todo h hsplit =>
        subst htodo
        rw [List.append_cons] at hsplit
        have hat := At.ending h hsplit
        rw [List.foldl_concat] at hat
        exact hat
    · simp at hs

theorem at_of_run
    (h : Lts.Run Step Lts.anyEvent { outlets := start } a) (hsnapshot : start.snapshot = {})
    (hgeneration : start.generation = 0) : At start a := by
  induction h with
  | refl =>
    have hstart : Chained [] start.snapshot start.generation := by
      rw [hsnapshot, hgeneration]
      exact .start
    exact .idle hstart
  | tail _ hlast ih =>
    obtain ⟨e, hs, -⟩ := hlast
    exact ih.step hs

end Announcer

/-! ## What the rounds come to -/

namespace Outlets

variable {o o' : Outlets}

theorem after_updates (o : Outlets) (ps : List Publication) :
    (o.after ps).updates = o.updates.map fun us ↦ us ++ ps.filterMap fun p ↦ p.round.update := by
  induction ps using List.reverseRecOn with
  | nil => simp [after]
  | append_singleton ps p ih =>
    simp only [after_concat, finish, ih]
    rcases o.updates with _ | us
    · rfl
    · cases hupdate : p.round.update <;> simp [hupdate]

theorem after_sink (o : Outlets) (ps : List Publication) :
    (o.after ps).sink =
      o.sink.map fun batches ↦
        batches ++ (ps.map fun p ↦ p.round.logs).filter fun logs ↦ !logs.isEmpty := by
  induction ps using List.reverseRecOn with
  | nil => simp [after]
  | append_singleton ps p ih =>
    simp only [after_concat, finish, ih]
    rcases o.sink with _ | batches
    · rfl
    · cases hlogs : p.round.logs.isEmpty <;> simp [hlogs]

theorem after_armed (o : Outlets) (ps : List Publication) :
    (o.after ps).armed = (o.armed && (ps.filterMap fun p ↦ p.round.ready).isEmpty) := by
  induction ps using List.reverseRecOn with
  | nil => simp [after]
  | append_singleton ps p ih =>
    rw [after_concat, finish, ih]
    cases hready : p.round.ready <;> simp [hready]

theorem after_fired (o : Outlets) (ps : List Publication) :
    (o.after ps).fired =
      o.fired ++ if o.armed then (ps.filterMap fun p ↦ p.round.ready).take 1 else [] := by
  induction ps using List.reverseRecOn with
  | nil => simp [after]
  | append_singleton ps p ih =>
    rw [after_concat, finish, ih, after_armed]
    cases harmed : o.armed
    · simp
    · rcases hbefore : ps.filterMap fun p ↦ p.round.ready with _ | ⟨b, bs⟩ <;>
        cases hready : p.round.ready <;> simp [hbefore, hready]

theorem after_generation (o : Outlets) (ps : List Publication) :
    (o.after ps).generation = o.generation + ps.length := by
  induction ps using List.reverseRecOn with
  | nil => rfl
  | append_singleton ps p ih =>
    rw [after_concat, finish, ih, List.length_append, List.length_singleton, Nat.add_assoc]

/-! ## On the way -/

/-- What is seen at one moment is still seen later: the outlets only go on. -/
structure Le (o o' : Outlets) : Prop where
  updates : ∀ us, o.updates = some us → ∃ us', o'.updates = some us' ∧ us <+: us'
  sink : ∀ bs, o.sink = some bs → ∃ bs', o'.sink = some bs' ∧ bs <+: bs'
  fired : o.fired <+: o'.fired

theorem Le.refl (o : Outlets) : o.Le o where
  updates us h := ⟨us, h, List.prefix_rfl⟩
  sink bs h := ⟨bs, h, List.prefix_rfl⟩
  fired := List.prefix_rfl

theorem Le.trans {o'' : Outlets} (h : o.Le o') (h' : o'.Le o'') : o.Le o'' where
  updates us hus := by
    obtain ⟨us', hus', hpre⟩ := h.updates us hus
    obtain ⟨us'', hus'', hpre'⟩ := h'.updates us' hus'
    exact ⟨us'', hus'', hpre.trans hpre'⟩
  sink bs hbs := by
    obtain ⟨bs', hbs', hpre⟩ := h.sink bs hbs
    obtain ⟨bs'', hbs'', hpre'⟩ := h'.sink bs' hbs'
    exact ⟨bs'', hbs'', hpre.trans hpre'⟩
  fired := h.fired.trans h'.fired

theorem le_perform (o : Outlets) (effect : Effect) : o.Le (o.perform effect) := by
  cases effect with
  | store | count => exact ⟨(Le.refl o).updates, (Le.refl o).sink, List.prefix_rfl⟩
  | update block blockHash =>
    refine ⟨fun us h ↦ ?_, (Le.refl o).sink, List.prefix_rfl⟩
    exact ⟨us ++ [⟨block, blockHash, o.generation⟩], by simp [perform, h], List.prefix_append _ _⟩
  | logs logs =>
    refine ⟨(Le.refl o).updates, fun bs h ↦ ?_, List.prefix_rfl⟩
    refine ⟨if logs.isEmpty then bs else bs ++ [logs], by simp [perform, h], ?_⟩
    split
    · exact List.prefix_rfl
    · exact List.prefix_append _ _
  | ready block =>
    rw [perform]
    split
    · exact ⟨(Le.refl o).updates, (Le.refl o).sink, List.prefix_append _ _⟩
    · exact Le.refl o

theorem le_foldl_perform (o : Outlets) (effects : List Effect) :
    o.Le (effects.foldl perform o) := by
  induction effects generalizing o with
  | nil => exact Le.refl o
  | cons effect rest ih => exact (o.le_perform effect).trans (ih _)

end Outlets

/-! ## What the rounds announce -/

/-- The block that a notification brings the client to, if it does. -/
def ExExNotification.newBlock : ExExNotification → Option ℕ
  | .chainCommitted new => some new.tip.number
  | .chainReorged _ new => some new.tip.number
  | .chainReverted _ => none

/-- An update is of an accepted round, and tells of the snapshot it has published. -/
theorem Publication.round_update_eq_some {p : Publication} {u : StateUpdate}
    (h : p.round.update = some u) :
    p.notification.isAccepted p.current = true ∧
      u = ⟨p.round.snapshot.block, p.round.snapshot.blockHash, p.generation + 1⟩ := by
  rw [Publication.round, handleNotification_update] at h
  split at h
  · rename_i haccepted
    cases h
    rw [Publication.round, handleNotification_snapshot]
    exact ⟨haccepted, rfl⟩
  · simp at h

namespace Chained

variable {ps : List Publication} {current : StateSnapshot} {generation : ℕ}

/-- The updates of rounds come in the order of their generations. -/
theorem updates_increasing (h : Chained ps current generation) :
    ((ps.filterMap fun p ↦ p.round.update).map StateUpdate.generation).Pairwise (· < ·) ∧
      ∀ u ∈ ps.filterMap fun p ↦ p.round.update, u.generation ≤ generation := by
  induction h with
  | start => exact ⟨.nil, nofun⟩
  | @next ps current generation h caches n ih =>
    obtain ⟨hpairwise, hle⟩ := ih
    rw [List.filterMap_append, List.map_append, List.pairwise_append]
    have hlast : ∀ u ∈ [(⟨current, generation, caches, n⟩ : Publication)].filterMap
        (fun p ↦ p.round.update), u.generation = generation + 1 := by
      intro u hu
      simp only [List.filterMap_cons, List.filterMap_nil] at hu
      split at hu
      · simp at hu
      · rename_i hupdate
        rw [List.mem_singleton.mp hu, (Publication.round_update_eq_some hupdate).2]
    refine ⟨⟨hpairwise, ?_, ?_⟩, ?_⟩
    · simp only [List.filterMap_cons, List.filterMap_nil]
      split <;> simp
    · simp only [List.mem_map]
      rintro _ ⟨u, hu, rfl⟩ _ ⟨u', hu', rfl⟩
      rw [hlast u' hu']
      exact Nat.lt_succ_of_le (hle u hu)
    · intro u hu
      rcases List.mem_append.mp hu with hu | hu
      · exact (hle u hu).trans (Nat.le_succ _)
      · exact (hlast u hu).le

/-- Nothing but reverts leaves the client without a block, and the first notification that brings it
to one is accepted, whatever it is. -/
theorem first_ready (h : Chained ps current generation) :
    ((ps.filterMap fun p ↦ p.notification.newBlock) = [] → current.blockHash = 0) ∧
      (ps.filterMap fun p ↦ p.round.ready).take 1 =
        (ps.filterMap fun p ↦ p.notification.newBlock).take 1 := by
  induction h with
  | start => exact ⟨fun _ ↦ rfl, rfl⟩
  | @next ps current generation h caches n ih =>
    obtain ⟨hhash, hfirst⟩ := ih
    simp only [List.filterMap_append, handleNotification_snapshot]
    rcases hbefore : ps.filterMap fun p ↦ p.notification.newBlock with _ | ⟨b, bs⟩
    · -- so far there are reverts only, and the next notification is accepted
      have hblock := hhash hbefore
      rw [hbefore, List.take_nil, List.take_eq_nil_iff] at hfirst
      rw [hfirst.resolve_left Nat.one_ne_zero, hbefore]
      cases n with
      | chainCommitted new =>
        have haccepted : (commitVerdict current new).isAcceptable = true := by
          rw [commitVerdict_eq_acceptAny.mpr (Or.inl (Or.inr hblock))]
          rfl
        simp [ExExNotification.newBlock, Publication.round, handleNotification,
          ExExNotification.isAccepted, haccepted]
      | chainReorged old new =>
        have haccepted : (reorgVerdict current old).isAcceptable = true := by
          rw [reorgVerdict_eq_acceptAny.mpr (Or.inr hblock)]
          rfl
        simp [ExExNotification.newBlock, Publication.round, handleNotification,
          ExExNotification.isAccepted, haccepted]
      | chainReverted old =>
        simp [ExExNotification.newBlock, Publication.round, handleNotification,
          ExExNotification.isAccepted, nextSnapshot, buildRevertState, copyHistoryBefore]
    · rw [hbefore] at hfirst ⊢
      refine ⟨fun hnil ↦ absurd hnil (List.cons_ne_nil _ _), ?_⟩
      rcases hready : ps.filterMap fun p ↦ p.round.ready with _ | ⟨b', bs'⟩
      · simp [hready] at hfirst
      · simpa [hready] using hfirst

end Chained

/-! ## What can be seen at any moment -/

namespace Effect

/-- The statement tells someone of a round that is swapped in. -/
def IsNotice : Effect → Prop
  | .store _ => False
  | .count => False
  | _ => True

end Effect

/-- A round swaps first, and tells afterwards. -/
theorem roundEffects_eq (current : StateSnapshot) (caches : Caches) (n : ExExNotification) :
    ∃ notices, roundEffects current caches n = swap (nextSnapshot current caches n) ++ notices ∧
      ∀ effect ∈ notices, effect.IsNotice := by
  cases n with
  | chainCommitted new =>
    rw [roundEffects, nextSnapshot]
    split
    · exact ⟨_, rfl, by simp [Effect.IsNotice]⟩
    · exact ⟨[], (List.append_nil _).symm, by simp⟩
  | chainReorged old new =>
    rw [roundEffects, nextSnapshot]
    split
    · exact ⟨_, rfl, by simp [Effect.IsNotice]⟩
    · exact ⟨[], (List.append_nil _).symm, by simp⟩
  | chainReverted old => exact ⟨_, rfl, by simp [Effect.IsNotice]⟩

namespace Outlets

theorem foldl_notices (o : Outlets) {notices : List Effect}
    (h : ∀ effect ∈ notices, effect.IsNotice) :
    (notices.foldl perform o).snapshot = o.snapshot ∧
      (notices.foldl perform o).generation = o.generation := by
  induction notices generalizing o with
  | nil => exact ⟨rfl, rfl⟩
  | cons effect rest ih =>
    rw [List.forall_mem_cons] at h
    obtain ⟨hsnapshot, hgeneration⟩ := ih (o.perform effect) h.2
    rw [List.foldl_cons, hsnapshot, hgeneration]
    cases effect with
    | store | count => exact absurd h.1 id
    | update | logs => exact ⟨rfl, rfl⟩
    | ready block =>
      rw [perform]
      split <;> exact ⟨rfl, rfl⟩

/-- **Halfway through a round**: nothing is done, the snapshot is stored and not counted yet, or it
is swapped in and others are being told. -/
theorem halfway (o : Outlets) {caches : Caches} {n : ExExNotification} {done todo : List Effect}
    (h : roundEffects o.snapshot caches n = done ++ todo) :
    done.foldl perform o = o ∨
      done.foldl perform o = { o with snapshot := nextSnapshot o.snapshot caches n } ∨
      (done.foldl perform o).snapshot = nextSnapshot o.snapshot caches n ∧
        (done.foldl perform o).generation = o.generation + 1 := by
  obtain ⟨notices, heq, hnotices⟩ := roundEffects_eq o.snapshot caches n
  rw [h, swap] at heq
  rcases done with _ | ⟨e₁, _ | ⟨e₂, rest⟩⟩
  · exact Or.inl rfl
  · simp only [List.cons_append, List.nil_append, List.cons.injEq] at heq
    rw [heq.1]
    exact Or.inr (Or.inl rfl)
  · simp only [List.cons_append, List.nil_append, List.cons.injEq] at heq
    obtain ⟨rfl, rfl, rfl⟩ := heq
    exact Or.inr (Or.inr (foldl_notices _ fun effect he ↦
      hnotices effect (List.mem_append_left _ he)))

end Outlets

/-- The outlets at the start, with a receiver of updates, a sink and a ready signal or without. -/
def Outlets.new (updates sink ready : Bool) : Outlets where
  updates := if updates then some [] else none
  sink := if sink then some [] else none
  armed := ready

namespace Announcer

/-- **What can be seen of the changeset manager at any moment.** -/
structure Announced (start : Outlets) (a : Announcer) : Prop where
  /-- The rounds it has begun are the fold of the notifications. -/
  rounds : ∃ snapshot, Chained a.rounds snapshot a.rounds.length
  /-- Between two rounds, the outlets are those of the rounds. -/
  idle : a.todo = [] → a.outlets = start.after a.rounds
  /-- The snapshot that is seen is the one some number of rounds have left.  It is seen before it is
  counted. -/
  visible : ∃ n ≤ a.rounds.length, a.outlets.snapshot = (start.after (a.rounds.take n)).snapshot ∧
    a.outlets.generation ≤ n ∧ n ≤ a.outlets.generation + 1
  /-- The updates are of the accepted rounds that have been counted, in their order, and tell of the
  snapshots of these. -/
  updates : ∀ us, a.outlets.updates = some us →
    us <+: (a.rounds.take a.outlets.generation).filterMap (fun p ↦ p.round.update) ∧
    ∀ u ∈ us, ∃ p ∈ a.rounds, p.notification.isAccepted p.current = true ∧
      u = ⟨p.round.snapshot.block, p.round.snapshot.blockHash, p.generation + 1⟩
  /-- Their generations go up. -/
  increasing : ∀ us, a.outlets.updates = some us →
    (us.map StateUpdate.generation).Pairwise (· < ·)
  /-- The sink has the logs of the rounds that have some, each after its snapshot. -/
  sink : ∀ batches, a.outlets.sink = some batches →
    batches <+: ((a.rounds.take a.outlets.generation).map fun p ↦ p.round.logs).filter
      fun logs ↦ !logs.isEmpty
  /-- The ready signal is fired at most once, with the first block the client is brought to, and
  when that can be seen. -/
  ready : a.outlets.fired <+:
    ((a.rounds.take a.outlets.generation).filterMap fun p ↦ p.notification.newBlock).take 1

variable {updates sink ready : Bool} {a : Announcer}

theorem after_new_generation (ps : List Publication) :
    ((Outlets.new updates sink ready).after ps).generation = ps.length := by
  rw [Outlets.after_generation]
  exact Nat.zero_add _

/-- Where the announcer is, by its rounds: how many are stored, how many are counted, and what was
told is a part of what the counted ones come to. -/
theorem At.halfway (h : At (.new updates sink ready) a) :
    ∃ n ≤ a.rounds.length,
      a.outlets.snapshot = ((Outlets.new updates sink ready).after (a.rounds.take n)).snapshot ∧
      a.outlets.generation ≤ n ∧ n ≤ a.outlets.generation + 1 ∧
      a.outlets.Le
        ((Outlets.new updates sink ready).after (a.rounds.take a.outlets.generation)) := by
  cases h with
  | @idle ps h =>
    refine ⟨ps.length, Nat.le_refl _, ?_, ?_, ?_, ?_⟩ <;>
      simp only [after_new_generation, List.take_length, Nat.le_refl, Nat.le_succ]
    exact Outlets.Le.refl _
  | @ending ps caches n done todo h hsplit =>
    -- the outlets when the rounds before are over, and when this one is
    generalize hbefore : (Outlets.new updates sink ready).after ps = before at h hsplit ⊢
    have hgeneration : before.generation = ps.length := by
      rw [← hbefore, after_new_generation]
    generalize hp : (⟨before.snapshot, before.generation, caches, n⟩ : Publication) = p
    have hover : (Outlets.new updates sink ready).after (ps ++ [p]) = before.finish p := by
      rw [Outlets.after_concat, hbefore]
    have hnext : (before.finish p).snapshot = nextSnapshot before.snapshot caches n := by
      rw [← hp]
      exact handleNotification_snapshot _ _ _
    have htake : (ps ++ [p]).take (ps.length + 1) = ps ++ [p] := List.take_of_length_le (by simp)
    rcases before.halfway hsplit with heq | heq | ⟨hsnapshot, hgen⟩
    · refine ⟨ps.length, by simp, ?_, ?_, ?_, ?_⟩ <;>
        simp only [heq, hgeneration, List.take_left', hbefore, Nat.le_refl, Nat.le_succ]
      exact Outlets.Le.refl _
    · refine ⟨ps.length + 1, by simp, ?_, ?_, ?_, ?_⟩ <;>
        simp only [heq, hgeneration, List.take_left', htake, hover, hnext, hbefore, Nat.le_refl,
          Nat.le_succ]
      exact ⟨(Outlets.Le.refl before).updates, (Outlets.Le.refl before).sink, List.prefix_rfl⟩
    · refine ⟨ps.length + 1, by simp, ?_, ?_, ?_, ?_⟩ <;>
        simp only [hsnapshot, hgen, hgeneration, htake, hover, hnext, Nat.le_refl, Nat.le_succ]
      have hle := (done.foldl Outlets.perform before).le_foldl_perform todo
      rw [← List.foldl_append, ← hsplit, Outlets.foldl_roundEffects, hp] at hle
      exact hle

/-- The rounds that were begun. -/
theorem At.rounds {start : Outlets} (h : At start a) :
    ∃ snapshot, Chained a.rounds snapshot a.rounds.length := by
  cases h with
  | idle h => exact ⟨_, h.length_eq ▸ h⟩
  | @ending ps caches n done todo h hsplit =>
    have hnext := h.next caches n
    exact ⟨_, hnext.length_eq ▸ hnext⟩

end Announcer

/-- A part of the rounds are rounds. -/
theorem Chained.take {ps : List Publication} {current : StateSnapshot} {generation : ℕ}
    (h : Chained ps current generation) (n : ℕ) :
    ∃ current' generation', Chained (ps.take n) current' generation' := by
  induction h with
  | start => exact ⟨_, _, by simpa using Chained.start⟩
  | @next ps current generation h caches m ih =>
    by_cases hn : n ≤ ps.length
    · rwa [List.take_append_of_le_length hn]
    · exact ⟨_, _, by rw [List.take_of_length_le (by simp; omega)]; exact h.next caches m⟩

/-- **Announcements.**  At any moment of any run, whatever others have been told is of rounds whose
snapshots are swapped in and counted, in their order, once each, and nothing else. -/
theorem Announcer.announced_of_run {updates sink ready : Bool} {a : Announcer}
    (h : Lts.Run Announcer.Step Lts.anyEvent { outlets := .new updates sink ready } a) :
    a.Announced (.new updates sink ready) := by
  have hat := at_of_run h rfl rfl
  obtain ⟨snapshot, hrounds⟩ := hat.rounds
  obtain ⟨current, generation, htaken⟩ := hrounds.take a.outlets.generation
  obtain ⟨n, hn, hsnapshot, hle, hle', htold⟩ := hat.halfway
  have hupdates : ∀ us, a.outlets.updates = some us →
      us <+: (a.rounds.take a.outlets.generation).filterMap fun p ↦ p.round.update := by
    intro us hus
    obtain ⟨us', hus', hpre⟩ := htold.updates us hus
    rw [Outlets.after_updates] at hus'
    cases updates <;> cases hus'
    exact hpre
  refine ⟨⟨snapshot, hrounds⟩, fun htodo ↦ ?_, ⟨n, hn, hsnapshot, hle, hle'⟩,
    fun us hus ↦ ⟨hupdates us hus, fun u hu ↦ ?_⟩, fun us hus ↦ ?_, fun bs hbs ↦ ?_, ?_⟩
  · rw [(hat.idle_of_todo htodo).1]
  · obtain ⟨p, hp, hupdate⟩ := List.mem_filterMap.mp ((hupdates us hus).subset hu)
    exact ⟨p, List.mem_of_mem_take hp, Publication.round_update_eq_some hupdate⟩
  · exact htaken.updates_increasing.1.sublist ((hupdates us hus).sublist.map _)
  · obtain ⟨bs', hbs', hpre⟩ := htold.sink bs hbs
    rw [Outlets.after_sink] at hbs'
    cases sink <;> cases hbs'
    exact hpre
  · have hfired := htold.fired
    rw [Outlets.after_fired, htaken.first_ready.2] at hfired
    split at hfired
    · exact hfired
    · exact hfired.trans List.nil_prefix

/-! ## The rounds of the client -/

namespace Announcer

/-- A round executes its statements one after the other. -/
theorem run_foldl (a : Announcer) {done todo : List Effect} (h : a.todo = done ++ todo) :
    Lts.Run Step Lts.anyEvent a
      { a with outlets := done.foldl Outlets.perform a.outlets, todo := todo } := by
  induction done generalizing a with
  | nil =>
    rw [List.nil_append] at h
    rw [← h]
    exact .refl
  | cons effect done ih =>
    have hstep : a.step .perform =
        some { a with outlets := a.outlets.perform effect, todo := done ++ todo } := by
      rw [Announcer.step, h]
      rfl
    exact (Lts.Run.one hstep trivial).trans
      (ih { a with outlets := a.outlets.perform effect, todo := done ++ todo } rfl)

/-- Every sequence of rounds is one that the announcer can go through. -/
theorem exists_run_of_chained {start : Outlets} (hsnapshot : start.snapshot = {})
    (hgeneration : start.generation = 0) {ps : List Publication} {current : StateSnapshot}
    {generation : ℕ} (h : Chained ps current generation) :
    Lts.Run Step Lts.anyEvent { outlets := start } ⟨start.after ps, [], ps⟩ ∧
      (start.after ps).snapshot = current ∧ (start.after ps).generation = generation := by
  induction h with
  | start => exact ⟨.refl, hsnapshot, hgeneration⟩
  | @next ps current generation _ caches n ih =>
    obtain ⟨hrun, rfl, rfl⟩ := ih
    have hbegin : step ⟨start.after ps, [], ps⟩ (.begin caches n) =
        some ⟨start.after ps, roundEffects (start.after ps).snapshot caches n,
          ps ++ [⟨(start.after ps).snapshot, (start.after ps).generation, caches, n⟩]⟩ := rfl
    have hround := (hrun.next hbegin trivial).trans (run_foldl _ (List.append_nil _).symm)
    simp only [Outlets.foldl_roundEffects] at hround
    rw [← Outlets.after_concat] at hround
    refine ⟨hround, ?_, ?_⟩ <;> rw [Outlets.after_concat] <;> rfl

end Announcer

/-- **Publishing a round at once is no less than executing its statements one by one**: for every
run of the client there is a run of the announcer that is between two rounds, with the same rounds,
the same snapshot and the same generation. -/
theorem Sys.exists_run_announcer {keccak256 : Bytes → B256} {L : Ledger} {fetch : FetchConfig}
    {tip : B256} {s : Sys keccak256}
    (h : Lts.Run (Sys.Step L) Lts.anyEvent (.new keccak256 fetch tip) s)
    (updates sink ready : Bool) :
    ∃ outlets, Lts.Run Announcer.Step Lts.anyEvent { outlets := .new updates sink ready }
        ⟨outlets, [], s.published⟩ ∧
      outlets.snapshot = s.snapshot ∧ outlets.generation = s.generation :=
  ⟨_, Announcer.exists_run_of_chained rfl rfl (Sys.chained_of_run h)⟩

end

namespace Halfway

open Branches

open scoped Revm

/-- A commit is stored, counted and announced; its logs and the ready signal are still to come. -/
def events : List AnnouncerEvent :=
  [.begin ⟨⟨0, ∅⟩, ⟨∅⟩, ⟨0, ∅⟩, ⟨0, ∅⟩⟩ (.chainCommitted a1), .perform, .perform, .perform]

def start : Announcer := { outlets := .new true true true }

theorem isSome_replay :
    (Lts.replay Announcer.step Lts.anyCheck events start).isSome = true := by decide +kernel

def final : Announcer := (Lts.replay Announcer.step Lts.anyCheck events start).get isSome_replay

/-- The update is out, and the ready signal has not been fired. -/
example : final.outlets.updates = some [⟨1, 11, 1⟩] ∧ final.outlets.fired = [] ∧
    final.todo.length = 2 := by decide +kernel

end Halfway

open scoped Revm in
open Halfway in
/-- What can be seen before the ready signal is fired. -/
theorem Announcer.announced_of_run_halfway : final.Announced (.new true true true) :=
  Announcer.announced_of_run
    (Lts.Run.of_replay (Option.some_get isSome_replay).symm fun _ _ _ ↦ trivial)

end RexSim
