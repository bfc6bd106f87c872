import RethExt.RexCons.NoHole
import RethExt.RethRex.RemoteExEx

/-!
# What a client gets, across connections

`noHole_of_run` is about one connection.  A client that loses its connection subscribes again, and
goes on with what is broadcast from then on: what it misses in between is lost, but what it gets is
in the order of the broadcast and has nothing twice.  `Watch` is the server with its clients, and a
`Log` for each client of what it gets, with the sessions it has read one after the other.

That a client never goes back rests on what `try_connect` does: it subscribes anew, so the session
that it returns was started after the thread went to connect.  `Watch.Fresh` says so of a run, and
`delivered_of_run` is about the runs in which it holds.  The ExEx broadcasts the changes of the
canonical chain and nothing else (`Delivery`), so a client is never told that the chain was
reverted.
-/

set_option autoImplicit false

open RethRex (Codec Session SessionEvent RemoteExEx RemoteEvent)
open Broadcast (slice)

namespace RexCons

/-! ## What is observed of a client -/

structure Log (N : Type) where
  /-- The notifications that `next` has returned. -/
  got : List N := []
  /-- The notifications that the subscriber has taken. -/
  took : List N := []
  /-- The sessions that were read, one for each connection. -/
  read : List ℕ := []
  /-- How many sessions were started when the thread went to connect. -/
  since : ℕ := 0
  /-- The subscriber has dropped its side of a channel. -/
  dropped : Bool := false

structure Watch (ι N D : Type) where
  net : Net ι N D := {}
  logs : ι → Log N := fun _ ↦ {}

variable {ι N D : Type} [DecidableEq ι] {codec : Codec N D}

/-- What an event of the client's thread adds to its log. -/
def Log.after (net net' : Net ι N D) (c : ι) (log : Log N) : ThreadEvent → Log N
  | .connected i => { log with read := log.read ++ [i] }
  | .message => { log with got := log.got ++ ((net'.threads c).bind Thread.holding).toList }
  | .take => { log with took := log.took ++ ((net.threads c).bind (·.queue.head?)).toList }
  | .unsubscribe => { log with dropped := true }
  | .refused => { log with since := net.sessions.length }
  | .closed => { log with since := net.sessions.length }
  | .failed => { log with since := net.sessions.length }
  | .handOver => { log with since := net.sessions.length }

namespace Watch

/-- The logs after an event that leaves the network as `net`. -/
def logsAfter (w : Watch ι N D) (net : Net ι N D) : Event ι N → ι → Log N
  | .thread c e => Function.update w.logs c ((w.logs c).after w.net net c e)
  | _ => w.logs

def step (codec : Codec N D) (w : Watch ι N D) (e : Event ι N) : Option (Watch ι N D) :=
  (w.net.step codec e).map fun net ↦
    { net := net, logs := w.logsAfter net e }

/-- **`try_connect` subscribes anew**: the session it returns was started after the thread went to
connect. -/
def Fresh (w : Watch ι N D) : Event ι N → Prop
  | .thread c (.connected i) => (w.logs c).since ≤ i
  | _ => True

variable {w w' : Watch ι N D} {e : Event ι N} {c : ι}

@[simp] theorem logsAfter_thread (net : Net ι N D) (c : ι) (ev : ThreadEvent) :
    w.logsAfter net (.thread c ev) c = (w.logs c).after w.net net c ev :=
  Function.update_self _ _ _

/-- The log of a client is left alone by what is not its thread's. -/
theorem logsAfter_other {net : Net ι N D} (hother : ∀ ev, e ≠ .thread c ev) :
    w.logsAfter net e c = w.logs c := by
  cases e with
  | thread c' ev =>
    have hc : c ≠ c' := fun hc ↦ hother ev (by rw [hc])
    exact Function.update_of_ne hc _ _
  | _ => rfl

/-- A step of the network, with what it adds to the logs. -/
theorem exists_net_of_step (h : w.step codec e = some w') :
    w.net.step codec e = some w'.net ∧ w'.logs = w.logsAfter w'.net e := by
  obtain ⟨net, hnet, rfl⟩ := Option.map_eq_some_iff.mp h
  exact ⟨hnet, rfl⟩

end Watch

/-! ## The sessions that a client has read -/

/-- The part of the broadcast that was read from the session. -/
def readSlice (s : Session N D) : ℕ × ℕ := (s.start, s.seen.length)

namespace Net

variable {net net' : Net ι N D} {e : Event ι N} {c : ι} {s s' : Session N D} {i k : ℕ}

/-- **What a step leaves alone of a session**: when it subscribed, and what was read from it, unless
its reader takes a message. -/
theorem session_of_step (h : net.step codec e = some net') (hs : net.sessions[k]? = some s) :
    ∃ s', net'.sessions[k]? = some s' ∧ s'.start = s.start ∧
      (s.claimed = true → s'.claimed = true) ∧
      ((∀ c, e = .thread c .message → ¬ net.Reads c k) →
        s'.seen = s.seen ∧ s'.returned = s.returned) := by
  have hset : ∀ {j : ℕ} {r r' : Session N D}, net.sessions[j]? = some r → r'.start = r.start →
      (r.claimed = true → r'.claimed = true) →
      (j = k → r'.seen = r.seen ∧ r'.returned = r.returned) →
      ∃ s', (net.sessions.set j r')[k]? = some s' ∧ s'.start = s.start ∧
        (s.claimed = true → s'.claimed = true) ∧ s'.seen = s.seen ∧ s'.returned = s.returned := by
    intro j r r' hr hstart hclaimed hsame
    by_cases hj : j = k
    · subst hj
      cases hs.symm.trans hr
      exact ⟨r', List.getElem?_set_self (List.getElem?_eq_some_iff.mp hs).1, hstart, hclaimed,
        hsame rfl⟩
    · exact ⟨s, by rw [List.getElem?_set_ne hj, hs], rfl, id, rfl, rfl⟩
  cases transition_of_step h with
  | broadcast n | spawn => exact ⟨s, hs, rfl, id, fun _ ↦ ⟨rfl, rfl⟩⟩
  | accept =>
    have hlt := (List.getElem?_eq_some_iff.mp hs).1
    exact ⟨s, by rw [List.getElem?_append_left hlt, hs], rfl, id, fun _ ↦ ⟨rfl, rfl⟩⟩
  | @session j e r r' hr hstep =>
    have hframe : r'.start = r.start ∧ r'.claimed = r.claimed ∧ r'.seen = r.seen ∧
        r'.returned = r.returned := by
      cases Session.transition_of_step hstep <;> exact ⟨rfl, rfl, rfl, rfl⟩
    obtain ⟨hstart, hclaimed, hseen, hreturned⟩ := hframe
    obtain ⟨s', hs', hstart', hclaimed', hsame⟩ :=
      hset hr hstart (fun h ↦ hclaimed.trans h) fun _ ↦ ⟨hseen, hreturned⟩
    exact ⟨s', hs', hstart', hclaimed', fun _ ↦ hsame⟩
  | @thread c e t t' sessions ht hstep =>
    cases Thread.transition_of_step hstep with
    | @connected i r stream hr hclaimed hnone hsome =>
      obtain ⟨s', hs', hstart', hclaimed', hsame⟩ :=
        @hset i r { r with claimed := true } hr rfl (fun _ ↦ rfl) fun _ ↦ ⟨rfl, rfl⟩
      exact ⟨s', hs', hstart', hclaimed', fun _ ↦ hsame⟩
    | @message i r data rest stream hreads hr hwire hidle hsome =>
      by_cases hi : i = k
      · subst hi
        cases hs.symm.trans hr
        exact ⟨_, List.getElem?_set_self (List.getElem?_eq_some_iff.mp hs).1, rfl, id,
          fun hnot ↦ absurd ⟨t, ht, hreads⟩ (hnot c rfl)⟩
      · exact ⟨s, by rw [List.getElem?_set_ne hi, hs], rfl, id, fun _ ↦ ⟨rfl, rfl⟩⟩
    | _ => exact ⟨s, hs, rfl, id, fun _ ↦ ⟨rfl, rfl⟩⟩

/-- A session after a step is one from before, or has just been started. -/
theorem started_of_step (h : net.step codec e = some net') (hs' : net'.sessions[k]? = some s') :
    (∃ s, net.sessions[k]? = some s ∧ s'.start = s.start) ∨
      k = net.sessions.length ∧ s' = Session.new N D net.sent.length := by
  rcases moves_of_step h hs' with ⟨s, hs, -⟩ | ⟨hk, -, hnew⟩
  · obtain ⟨r, hr, hstart, -⟩ := session_of_step h hs
    cases hs'.symm.trans hr
    exact Or.inl ⟨s, hs, hstart⟩
  · exact Or.inr ⟨hk, hnew⟩

/-- What was read up to now is before what is broadcast from now on. -/
theorem le_start_of_step (hintact : net.Intact codec) (hstep : net.step codec e = some net')
    {j since : ℕ} {r : Session N D} (hs : net.sessions[k]? = some s)
    (hold : ∀ r, since ≤ j → net.sessions[j]? = some r → s.start + s.seen.length ≤ r.start)
    (hj : since ≤ j) (hr : net'.sessions[j]? = some r) : s.start + s.seen.length ≤ r.start := by
  rcases started_of_step hstep hr with ⟨r', hr', hstart⟩ | ⟨-, rfl⟩
  · rw [hstart]
    exact hold r' hj hr'
  · have hkept := hintact k s hs
    have hseen := ((List.prefix_append s.seen s.wire).trans hkept.wire_prefix).length_le
    have htaken := hkept.taken_prefix.length_le
    have hstart := hkept.start_le
    rw [List.length_map] at hseen
    rw [List.length_drop] at htaken
    change _ ≤ net.sent.length
    omega

/-- Nothing was read from a session that no client was given. -/
def Unread (net : Net ι N D) : Prop :=
  ∀ (k : ℕ) (s : Session N D), net.sessions[k]? = some s → s.claimed = false →
    s.seen = [] ∧ s.returned = []

theorem Unread.step (h : net.Unread) (howned : net.Owned) (hstep : net.step codec e = some net') :
    net'.Unread := by
  intro k s' hs' hclaimed'
  rcases moves_of_step hstep hs' with ⟨s, hs, -⟩ | ⟨-, -, rfl⟩
  · obtain ⟨r, hr, -, hclaimed, hsame⟩ := session_of_step hstep hs
    cases hs'.symm.trans hr
    have hnot : s.claimed = false := by
      by_contra hne
      rw [hclaimed (eq_true_of_ne_false hne)] at hclaimed'
      simp at hclaimed'
    obtain ⟨hseen, hreturned⟩ := hsame fun c _ ↦ howned.not_reads hs hnot c
    obtain ⟨hseen', hreturned'⟩ := h k s hs hnot
    exact ⟨hseen.trans hseen', hreturned.trans hreturned'⟩
  · exact ⟨rfl, rfl⟩

end Net

/-- **Where a client is in the broadcast.**  It has read sessions that were started one after the
other, each of which only from where it had left the one before; what it got are the notifications
that were returned from them. -/
structure Follows (net : Net ι N D) (c : ι) (log : Log N) : Prop where
  claimed : ∀ k ∈ log.read, ∃ s, net.sessions[k]? = some s ∧ s.claimed = true
  increasing : log.read.Pairwise (· < ·)
  current : ∀ i, net.Reads c i → ∃ before, log.read = before ++ [i]
  mine : ∀ k ∈ log.read, ∀ c', net.Reads c' k → c' = c
  since_le : log.since ≤ net.sessions.length
  waiting : (∀ i, ¬ net.Reads c i) → ∀ k ∈ log.read, k < log.since ∧
    ∀ s j r, net.sessions[k]? = some s → log.since ≤ j → net.sessions[j]? = some r →
      s.start + s.seen.length ≤ r.start
  slices : log.read.Pairwise fun k k' ↦ ∀ s s', net.sessions[k]? = some s →
    net.sessions[k']? = some s' → s.start + s.seen.length ≤ s'.start
  got_eq : log.got = log.read.flatMap fun k ↦ ((net.sessions[k]?).map Session.returned).getD []

omit [DecidableEq ι] in
theorem follows_new (c : ι) : Follows ({} : Net ι N D) c {} where
  claimed _ h := absurd h List.not_mem_nil
  increasing := .nil
  current i h := by obtain ⟨t, ht, -⟩ := h; cases ht
  mine _ h := absurd h List.not_mem_nil
  since_le := Nat.le_refl 0
  waiting _ _ h := absurd h List.not_mem_nil
  slices := .nil
  got_eq := rfl

namespace Follows

variable {net net' : Net ι N D} {e : Event ι N} {c : ι} {log log' : Log N}

/-- A session that was read is as it was, unless the client takes a message from it. -/
theorem kept (h : Follows net c log) (hstep : net.step codec e = some net') {k : ℕ}
    (hk : k ∈ log.read) (hmessage : e = .thread c .message → ¬ net.Reads c k) :
    ∃ s s', net.sessions[k]? = some s ∧ net'.sessions[k]? = some s' ∧ s'.start = s.start ∧
      s'.claimed = true ∧ s'.seen = s.seen ∧ s'.returned = s.returned := by
  obtain ⟨s, hs, hclaimed⟩ := h.claimed k hk
  obtain ⟨s', hs', hstart, hclaimed', hsame⟩ := Net.session_of_step hstep hs
  obtain ⟨hseen, hreturned⟩ := hsame fun c' he hreads ↦ by
    cases h.mine k hk c' hreads
    exact hmessage he hreads
  exact ⟨s, s', hs, hs', hstart, hclaimed' hclaimed, hseen, hreturned⟩

/-- A client that was given the session is the only one that ever reads it. -/
theorem mine_of_step (h : Follows net c log) (hstep : net.step codec e = some net') {k : ℕ}
    (hk : k ∈ log.read) {c' : ι} (hreads : net'.Reads c' k) : c' = c := by
  rcases Net.reads_of_step hstep hreads with hreads | ⟨s, hs, hnot, -⟩
  · exact h.mine k hk c' hreads
  · obtain ⟨s', hs', hclaimed⟩ := h.claimed k hk
    cases hs.symm.trans hs'
    cases hnot.symm.trans hclaimed

/-- **A step that reads nothing**, when the client neither gets a session nor a message. -/
theorem frame (h : Follows net c log) (hintact : net.Intact codec)
    (hstep : net.step codec e = some net') (hmessage : e ≠ .thread c .message)
    (hconnect : ∀ i, e ≠ .thread c (.connected i)) (hread : log'.read = log.read)
    (hgot : log'.got = log.got)
    (hsince : (log'.since = log.since ∧ ∀ i, net.Reads c i → net'.Reads c i) ∨
      log'.since = net.sessions.length) : Follows net' c log' where
  claimed k hk := by
    obtain ⟨s, s', -, hs', -, hclaimed, -⟩ :=
      h.kept hstep (hread ▸ hk) fun he ↦ absurd he hmessage
    exact ⟨s', hs', hclaimed⟩
  increasing := hread ▸ h.increasing
  current i hreads := by
    rcases Net.reads_of_step hstep hreads with hreads | ⟨-, -, -, he, -⟩
    · rw [hread]
      exact h.current i hreads
    · exact absurd he (hconnect i)
  mine k hk c' hreads := h.mine_of_step hstep (hread ▸ hk) hreads
  since_le := by
    have hle := Net.length_le_of_step hstep
    rcases hsince with ⟨hsince, -⟩ | hsince
    · rw [hsince]
      exact h.since_le.trans hle
    · rwa [hsince]
  waiting hnot k hk := by
    rw [hread] at hk
    obtain ⟨s, s', hs, hs', hstart, -, hseen, -⟩ := h.kept hstep hk fun he ↦ absurd he hmessage
    have hlt := (List.getElem?_eq_some_iff.mp hs).1
    rcases hsince with ⟨hsince, hkeeps⟩ | hsince
    · obtain ⟨hk', hle⟩ := h.waiting (fun i hi ↦ hnot i (hkeeps i hi)) k hk
      refine ⟨hsince ▸ hk', fun r j r' hr hj hr' ↦ ?_⟩
      cases hs'.symm.trans hr
      rw [hstart, hseen]
      exact Net.le_start_of_step hintact hstep hs (fun r hj hr ↦ hle s j r hs hj hr)
        (hsince ▸ hj) hr'
    · refine ⟨hsince ▸ hlt, fun r j r' hr hj hr' ↦ ?_⟩
      cases hs'.symm.trans hr
      rw [hstart, hseen]
      refine Net.le_start_of_step hintact hstep hs
        (fun r (hj : net.sessions.length ≤ j) hr ↦ ?_) (hsince ▸ hj) hr'
      have := (List.getElem?_eq_some_iff.mp hr).1
      omega
  slices := by
    rw [hread]
    refine h.slices.imp_of_mem fun {k k'} hk hk' hle r r' hr hr' ↦ ?_
    obtain ⟨s, s', hs, hs', hstart, -, hseen, -⟩ := h.kept hstep hk fun he ↦ absurd he hmessage
    obtain ⟨t, t', ht, ht', hstart', -, -, -⟩ := h.kept hstep hk' fun he ↦ absurd he hmessage
    cases hs'.symm.trans hr
    cases ht'.symm.trans hr'
    rw [hstart, hseen, hstart']
    exact hle s t hs ht
  got_eq := by
    rw [hgot, hread, h.got_eq]
    refine List.flatMap_congr fun k hk ↦ ?_
    obtain ⟨s, s', hs, hs', -, -, -, hreturned⟩ := h.kept hstep hk fun he ↦ absurd he hmessage
    rw [hs, hs', Option.map_some, Option.map_some, hreturned]

/-- **A connection**: the session was started after the thread went to connect, so it starts after
all that was read. -/
theorem connect (h : Follows net c log) (howned : net.Owned) (hunread : net.Unread)
    {i : ℕ} (hstep : net.step codec (.thread c (.connected i)) = some net')
    (hfresh : log.since ≤ i) : Follows net' c { log with read := log.read ++ [i] } := by
  obtain ⟨t, s, hs, hnot, ht, hnone, hs', hreads'⟩ :
      ∃ t s, net.sessions[i]? = some s ∧ s.claimed = false ∧ net.threads c = some t ∧
        t.stream.stream = none ∧ net'.sessions[i]? = some { s with claimed := true } ∧
        net'.Reads c i := by
    cases Net.transition_of_step hstep with
    | thread ht hthread =>
      cases Thread.transition_of_step hthread with
      | connected hs hclaimed hnone hsome =>
        exact ⟨_, _, hs, hclaimed, ht, hnone,
          List.getElem?_set_self (List.getElem?_eq_some_iff.mp hs).1,
          ⟨_, Function.update_self _ _ _, hsome⟩⟩
  have hwaits : ∀ j, ¬ net.Reads c j := by
    rintro j ⟨t', ht', hstream⟩
    cases ht.symm.trans ht'
    cases hnone.symm.trans hstream
  have hwaiting := h.waiting hwaits
  obtain ⟨hseen, hreturned⟩ := hunread i s hs hnot
  refine {
    claimed := fun k hk ↦ ?_
    increasing := ?_
    current := fun j hreads ↦ ?_
    mine := fun k hk c' hreads ↦ ?_
    since_le := h.since_le.trans (Net.length_le_of_step hstep)
    waiting := fun hnot ↦ absurd hreads' (hnot i)
    slices := ?_
    got_eq := ?_ }
  · rcases List.mem_append.mp hk with hk | hk
    · obtain ⟨r, r', -, hr', -, hclaimed, -⟩ := h.kept hstep hk nofun
      exact ⟨r', hr', hclaimed⟩
    · rw [List.mem_singleton.mp hk]
      exact ⟨_, hs', rfl⟩
  · refine List.pairwise_append.mpr ⟨h.increasing, List.pairwise_singleton _ _, fun k hk j hj ↦ ?_⟩
    rw [List.mem_singleton.mp hj]
    exact (hwaiting k hk).1.trans_le hfresh
  · rcases Net.reads_of_step hstep hreads with hreads | ⟨-, -, -, he, -⟩
    · exact absurd hreads (hwaits j)
    · cases he
      exact ⟨log.read, rfl⟩
  · rcases List.mem_append.mp hk with hk | hk
    · exact h.mine_of_step hstep hk hreads
    · rw [List.mem_singleton.mp hk] at hreads
      rcases Net.reads_of_step hstep hreads with hreads | ⟨-, -, -, he, -⟩
      · exact absurd hreads (howned.not_reads hs hnot c')
      · cases he
        rfl
  · refine List.pairwise_append.mpr
      ⟨?_, List.pairwise_singleton _ _, fun k hk j hj r r' hr hr' ↦ ?_⟩
    · refine h.slices.imp_of_mem fun {k k'} hk hk' hle r r' hr hr' ↦ ?_
      obtain ⟨q, q', hq, hq', hstart, -, hqseen, -⟩ := h.kept hstep hk nofun
      obtain ⟨p, p', hp, hp', hstart', -, -, -⟩ := h.kept hstep hk' nofun
      cases hq'.symm.trans hr
      cases hp'.symm.trans hr'
      rw [hstart, hqseen, hstart']
      exact hle q p hq hp
    · rw [List.mem_singleton.mp hj] at hr'
      cases hs'.symm.trans hr'
      obtain ⟨q, q', hq, hq', hstart, -, hqseen, -⟩ := h.kept hstep hk nofun
      cases hq'.symm.trans hr
      rw [hstart, hqseen]
      exact (hwaiting k hk).2 q i s hq hfresh hs
  · rw [List.flatMap_append, List.flatMap_singleton, hs', Option.map_some, Option.getD_some,
      hreturned, List.append_nil, h.got_eq]
    refine List.flatMap_congr fun k hk ↦ ?_
    obtain ⟨r, r', hr, hr', -, -, -, hsame⟩ := h.kept hstep hk nofun
    rw [hr, hr', Option.map_some, Option.map_some, hsame]

/-- **A message**: one more of what was broadcast is read from the session that was connected
last. -/
theorem message (h : Follows net c log) (hstep : net.step codec (.thread c .message) = some net') :
    Follows net' c
      { log with got := log.got ++ ((net'.threads c).bind Thread.holding).toList } := by
  obtain ⟨i, s, s', hs, hs', hstart, hclaimed, hreads, hreads', hreturned⟩ :
      ∃ i s s', net.sessions[i]? = some s ∧ net'.sessions[i]? = some s' ∧ s'.start = s.start ∧
        s'.claimed = s.claimed ∧ net.Reads c i ∧ net'.Reads c i ∧
        s'.returned = s.returned ++ ((net'.threads c).bind Thread.holding).toList := by
    cases Net.transition_of_step hstep with
    | thread ht hthread =>
      cases Thread.transition_of_step hthread with
      | message hstream hs hwire hidle hsome =>
        refine ⟨_, _, _, hs, List.getElem?_set_self (List.getElem?_eq_some_iff.mp hs).1, rfl, rfl,
          ⟨_, ht, hstream⟩, ⟨_, Function.update_self _ _ _, hsome⟩, ?_⟩
        simp [Session.deliver]
  obtain ⟨before, hread⟩ := h.current i hreads
  have hbefore : ∀ k ∈ before, k ≠ i := by
    have hincreasing := h.increasing
    rw [hread, List.pairwise_append] at hincreasing
    exact fun k hk ↦ (hincreasing.2.2 k hk i List.mem_cons_self).ne
  -- the sessions that were read before are left alone
  have hkept : ∀ k ∈ before, ∃ r r', net.sessions[k]? = some r ∧ net'.sessions[k]? = some r' ∧
      r'.start = r.start ∧ r'.claimed = true ∧ r'.seen = r.seen ∧ r'.returned = r.returned := by
    refine fun k hk ↦
      h.kept hstep (by rw [hread]; exact List.mem_append_left _ hk) fun _ hreadsk ↦ ?_
    obtain ⟨t, ht, hstream⟩ := hreads
    obtain ⟨t', ht', hstream'⟩ := hreadsk
    cases ht.symm.trans ht'
    cases hstream.symm.trans hstream'
    exact hbefore i hk rfl
  refine {
    claimed := fun k hk ↦ ?_
    increasing := h.increasing
    current := fun j hreads ↦ ?_
    mine := fun k hk c' hreads ↦ h.mine_of_step hstep hk hreads
    since_le := h.since_le.trans (Net.length_le_of_step hstep)
    waiting := fun hnot ↦ absurd hreads' (hnot i)
    slices := ?_
    got_eq := ?_ }
  · obtain ⟨r, hr, hrclaimed⟩ := h.claimed k hk
    obtain ⟨r', hr', -, hkeeps, -⟩ := Net.session_of_step hstep hr
    exact ⟨r', hr', hkeeps hrclaimed⟩
  · rcases Net.reads_of_step hstep hreads with hreads | ⟨-, -, -, he, -⟩
    · exact h.current j hreads
    · simp at he
  · have hslices := h.slices
    rw [hread, List.pairwise_append] at hslices
    change log.read.Pairwise _
    rw [hread, List.pairwise_append]
    refine ⟨?_, List.pairwise_singleton _ _, fun k hk j hj r r' hr hr' ↦ ?_⟩
    · refine hslices.1.imp_of_mem fun {k k'} hk hk' hle r r' hr hr' ↦ ?_
      obtain ⟨q, q', hq, hq', hqstart, -, hqseen, -⟩ := hkept k hk
      obtain ⟨p, p', hp, hp', hpstart, -, -, -⟩ := hkept k' hk'
      cases hq'.symm.trans hr
      cases hp'.symm.trans hr'
      rw [hqstart, hqseen, hpstart]
      exact hle q p hq hp
    · rw [List.mem_singleton.mp hj] at hr'
      cases hs'.symm.trans hr'
      obtain ⟨q, q', hq, hq', hqstart, -, hqseen, -⟩ := hkept k hk
      cases hq'.symm.trans hr
      rw [hqstart, hqseen, hstart]
      exact hslices.2.2 k hk i List.mem_cons_self q s hq hs
  · simp only [h.got_eq, hread, List.flatMap_append, List.flatMap_singleton, hs, hs',
      Option.map_some, Option.getD_some, hreturned, List.append_assoc]
    congr 1
    refine List.flatMap_congr fun k hk ↦ ?_
    obtain ⟨q, q', hq, hq', -, -, -, hsame⟩ := hkept k hk
    rw [hq, hq', Option.map_some, Option.map_some, hsame]

end Follows

/-! ## What is in the client -/

namespace Thread

variable {sessions sessions' : List (Session N D)} {t : Thread N} {t' : Option (Thread N)}
  {e : ThreadEvent}

/-- A thread in `next` holds no notification. -/
theorem holding_of_step (h : t.step codec sessions e = some (t', sessions')) :
    t.holding = none ∨ e = .handOver ∨ e = .take ∨ e = .unsubscribe := by
  cases e with
  | refused | failed => exact Or.inl (exists_transition_of_map h).1
  | connected i =>
    obtain ⟨s, -, h⟩ := Option.bind_eq_some_iff.mp h
    split at h
    · simp at h
    · exact Or.inl (exists_transition_of_map h).1
  | message =>
    obtain ⟨i, -, h⟩ := Option.bind_eq_some_iff.mp h
    obtain ⟨s, -, h⟩ := Option.bind_eq_some_iff.mp h
    split at h
    · simp at h
    · exact Or.inl (exists_transition_of_map h).1
  | closed =>
    obtain ⟨i, -, h⟩ := Option.bind_eq_some_iff.mp h
    obtain ⟨s, -, h⟩ := Option.bind_eq_some_iff.mp h
    split at h
    · exact Or.inl (exists_transition_of_map h).1
    · simp at h
  | handOver | take | unsubscribe => simp

/-- A thread ends when its subscriber is gone. -/
theorem subscribed_of_ended (h : t.step codec sessions .handOver = some (none, sessions')) :
    t.subscribed = false := by
  obtain ⟨r, hr, heq⟩ := Option.map_eq_some_iff.mp h
  cases heq
  rw [handOver] at hr
  split at hr
  · simp at hr
  · split at hr
    · assumption
    · split at hr <;> cases hr

/-- The notifications that a thread has returned from `next` and its subscriber has not taken. -/
def pending (t : Thread N) : List N := t.queue ++ t.holding.toList

end Thread

/-- The notifications on their way to the subscriber of a client. -/
def Net.pending (net : Net ι N D) (c : ι) : List N := (net.threads c).elim [] Thread.pending

/-- **What a subscriber takes** was returned by `next`, in that order; if it never drops its side of
a channel, nothing is lost on the way. -/
structure Hands (net : Net ι N D) (c : ι) (log : Log N) : Prop where
  sublist : (log.took ++ net.pending c).Sublist log.got
  lossless : log.dropped = false → log.took ++ net.pending c = log.got ∧
    ∀ t, net.threads c = some t → t.subscribed = true

namespace Hands

variable {net net' : Net ι N D} {e : Event ι N} {c : ι} {log : Log N}

omit [DecidableEq ι] in
/-- The thread of another party leaves the client alone. -/
theorem frame (h : Hands net c log) (hthread : net'.threads c = net.threads c) :
    Hands net' c log := by
  have hpending : net'.pending c = net.pending c := by rw [Net.pending, hthread, Net.pending]
  exact ⟨hpending ▸ h.sublist, fun hdropped ↦ by rw [hpending, hthread]; exact h.lossless hdropped⟩

omit [DecidableEq ι] in
/-- The client's thread goes on: what `next` returns is put after what was on its way, and that is
taken from the front. -/
theorem flow (h : Hands net c log) (ns : List N) {t t' : Thread N} (ht : net.threads c = some t)
    (ht' : net'.threads c = some t') (hsubscribed : t'.subscribed = t.subscribed) {log' : Log N}
    (htook : log'.took ++ t'.pending = log.took ++ t.pending ++ ns)
    (hgot : log'.got = log.got ++ ns) (hdropped : log'.dropped = log.dropped) :
    Hands net' c log' := by
  have hpending : net.pending c = t.pending := by rw [Net.pending, ht]; rfl
  have hpending' : net'.pending c = t'.pending := by rw [Net.pending, ht']; rfl
  have hsublist := h.sublist
  have hlossless := h.lossless
  rw [hpending] at hsublist hlossless
  constructor
  · rw [hpending', htook, hgot]
    exact hsublist.append_right _
  · intro hnot
    obtain ⟨heq, hall⟩ := hlossless (hdropped ▸ hnot)
    refine ⟨by rw [hpending', htook, hgot, heq], fun r hr ↦ ?_⟩
    cases ht'.symm.trans hr
    exact hsubscribed.trans (hall t ht)

/-- **The step lemma** of the client's thread. -/
theorem thread (h : Hands net c log) {e : ThreadEvent}
    (hstep : net.step codec (.thread c e) = some net') :
    Hands net' c (log.after net net' c e) := by
  cases Net.transition_of_step hstep with
  | @thread _ _ t t' sessions ht hthread =>
    have hidle := Thread.holding_of_step hthread
    cases Thread.transition_of_step hthread with
    | refused | connected | closed | failed =>
      have hnone : t.holding = none := by simpa using hidle
      refine h.flow [] ht (Function.update_self _ _ _) ?_ ?_ ?_ ?_ <;>
        simp [Log.after, Thread.pending, hnone]
    | @message i s data rest stream hreads hs hwire hnone hsome =>
      refine h.flow (codec.deserialize data).toList ht (Function.update_self _ _ _)
        ?_ ?_ ?_ ?_ <;> simp [Log.after, Thread.pending, hnone]
    | handed hholding =>
      refine h.flow [] ht (Function.update_self _ _ _) ?_ ?_ ?_ ?_ <;>
        simp [Log.after, Thread.pending, hholding]
    | took hqueue =>
      refine h.flow [] ht (Function.update_self _ _ _) ?_ ?_ ?_ ?_ <;>
        simp [Log.after, Thread.pending, ht, hqueue]
    | ended =>
      -- the subscriber is gone, and what was on its way to it is lost
      have hsubscribed := Thread.subscribed_of_ended hthread
      refine ⟨?_, fun hdropped ↦ ?_⟩
      · simpa [Log.after, Net.pending] using (List.sublist_append_left _ _).trans h.sublist
      · cases hsubscribed.symm.trans ((h.lossless hdropped).2 t ht)
    | unsubscribed hsubscribed =>
      refine ⟨List.Sublist.trans ?_ h.sublist, fun hdropped ↦ by cases hdropped⟩
      simp [Log.after, Net.pending, Thread.pending, ht]

end Hands

/-! ## The runs -/

namespace Net

variable {net net' : Net ι N D} {e : Event ι N} {c : ι}

/-- The thread of a client is replaced by its own events alone, but for one that is spawned. -/
theorem thread_of_step (h : net.step codec e = some net') (hother : ∀ ev, e ≠ .thread c ev) :
    net'.threads c = net.threads c ∨ net.threads c = none ∧ net'.threads c = some {} := by
  cases transition_of_step h with
  | broadcast | accept | session => exact Or.inl rfl
  | @spawn c' hnone =>
    by_cases hc : c = c'
    · subst hc
      exact Or.inr ⟨hnone, Function.update_self _ _ _⟩
    · exact Or.inl (Function.update_of_ne hc _ _)
  | @thread c' ev =>
    have hc : c ≠ c' := fun hc ↦ hother ev (by rw [hc])
    exact Or.inl (Function.update_of_ne hc _ _)

/-- Only a broadcast is sent. -/
theorem sent_eq_of_step (h : net.step codec e = some net') (hother : ∀ n, e ≠ .broadcast n) :
    net'.sent = net.sent := by
  cases transition_of_step h with
  | broadcast n => exact absurd rfl (hother n)
  | _ => rfl

/-- A client reads on until its own thread does something. -/
theorem reads_of_other (h : net.step codec e = some net') (hother : ∀ ev, e ≠ .thread c ev)
    {i : ℕ} (hreads : net.Reads c i) : net'.Reads c i := by
  obtain ⟨t, ht, hstream⟩ := hreads
  rcases thread_of_step h hother with heq | ⟨hnone, -⟩
  · exact ⟨t, heq.trans ht, hstream⟩
  · cases hnone.symm.trans ht

/-- The subscriber's own steps leave the stream alone. -/
theorem reads_of_subscriber {ev : ThreadEvent} (h : net.step codec (.thread c ev) = some net')
    (hev : ev = .take ∨ ev = .unsubscribe) {i : ℕ} (hreads : net.Reads c i) : net'.Reads c i := by
  obtain ⟨t, ht, hstream⟩ := hreads
  cases transition_of_step h with
  | thread ht₀ hstep =>
    cases ht.symm.trans ht₀
    cases Thread.transition_of_step hstep with
    | took | unsubscribed => exact ⟨_, Function.update_self _ _ _, hstream⟩
    | _ => rcases hev with hev | hev <;> cases hev

end Net

namespace Watch

variable {w w' : Watch ι N D} {e : Event ι N}

/-- What is kept of the server, its sessions and the logs. -/
structure Inv (codec : Codec N D) (w : Watch ι N D) : Prop where
  intact : w.net.Intact codec
  owned : w.net.Owned
  unread : w.net.Unread
  follows : ∀ c, Follows w.net c (w.logs c)
  hands : ∀ c, Hands w.net c (w.logs c)

theorem inv_new (codec : Codec N D) : ({} : Watch ι N D).Inv codec where
  intact _ _ hs := by cases hs
  owned := Net.owned_of_run (.refl : Net.Run codec {} {})
  unread _ _ hs := by cases hs
  follows := follows_new
  hands _ := ⟨List.Sublist.refl _, fun _ ↦ ⟨rfl, fun _ ht ↦ by cases ht⟩⟩

theorem Inv.follows_step (h : w.Inv codec) (hstep : w.step codec e = some w') (hfresh : w.Fresh e)
    (c : ι) : Follows w'.net c (w'.logs c) := by
  obtain ⟨hnet, hlogs⟩ := exists_net_of_step hstep
  have hfollows := h.follows c
  by_cases hmine : ∃ ev, e = .thread c ev
  · obtain ⟨ev, rfl⟩ := hmine
    simp only [hlogs, logsAfter_thread]
    cases ev with
    | connected i => exact hfollows.connect h.owned h.unread hnet hfresh
    | message => exact hfollows.message hnet
    | take | unsubscribe =>
      exact hfollows.frame h.intact hnet nofun nofun rfl rfl
        (Or.inl ⟨rfl, fun i ↦ Net.reads_of_subscriber hnet (by simp)⟩)
    | refused | closed | failed | handOver =>
      exact hfollows.frame h.intact hnet nofun nofun rfl rfl (Or.inr rfl)
  · push Not at hmine
    rw [hlogs, logsAfter_other hmine]
    exact hfollows.frame h.intact hnet (hmine _) (fun i ↦ hmine _) rfl rfl
      (Or.inl ⟨rfl, fun i ↦ Net.reads_of_other hnet hmine⟩)

theorem Inv.hands_step (h : w.Inv codec) (hstep : w.step codec e = some w') (c : ι) :
    Hands w'.net c (w'.logs c) := by
  obtain ⟨hnet, hlogs⟩ := exists_net_of_step hstep
  have hhands := h.hands c
  by_cases hmine : ∃ ev, e = .thread c ev
  · obtain ⟨ev, rfl⟩ := hmine
    simp only [hlogs, logsAfter_thread]
    exact hhands.thread hnet
  · push Not at hmine
    rw [hlogs, logsAfter_other hmine]
    rcases Net.thread_of_step hnet hmine with heq | ⟨hnone, hnew⟩
    · exact hhands.frame heq
    · -- a thread that is spawned has nothing on its way yet
      have hpending : w'.net.pending c = w.net.pending c := by
        simp [Net.pending, hnone, hnew, Thread.pending]
      refine ⟨hpending ▸ hhands.sublist, fun hdropped ↦ ?_⟩
      refine ⟨hpending ▸ (hhands.lossless hdropped).1, fun t ht ↦ ?_⟩
      cases hnew.symm.trans ht
      rfl

/-- **The step lemma.** -/
theorem Inv.step (h : w.Inv codec) (hstep : w.step codec e = some w') (hfresh : w.Fresh e) :
    w'.Inv codec where
  intact := h.intact.step (exists_net_of_step hstep).1
  owned := h.owned.step (exists_net_of_step hstep).1
  unread := h.unread.step h.owned (exists_net_of_step hstep).1
  follows := h.follows_step hstep hfresh
  hands := h.hands_step hstep

end Watch

/-- What was returned from a session is what was read of the broadcast, as far as it is read
back. -/
theorem returned_eq_slice {sent : List N} {s : Session N D} (h : s.Intact codec sent) :
    s.returned = (slice sent (readSlice s)).filter codec.Decodes := by
  have hseen : s.seen <+: s.taken.map codec.serialize :=
    (List.prefix_append s.seen s.wire).trans h.wire_prefix
  have hlength : s.seen.length ≤ s.taken.length := by
    simpa using hseen.length_le
  have hread : s.seen = (slice sent (readSlice s)).map codec.serialize := by
    rw [slice, readSlice, ← h.take_taken hlength, List.map_take]
    exact List.prefix_iff_eq_take.mp hseen
  rw [h.returned_eq, ← codec.filterMap_deserialize, ← hread]

/-! ## With the ExEx -/

section

variable [RexSim.Revm]

/-- The ExEx, the server and its clients. -/
structure Delivery (ι D : Type) where
  exex : RemoteExEx
  watch : Watch ι RexSim.ExExNotification D := {}

inductive DeliveryEvent (ι : Type)
  | exex (e : RemoteEvent)
  /-- Any step of the server and the clients; only the ExEx broadcasts. -/
  | net (e : Event ι RexSim.ExExNotification)

namespace Delivery

variable {codec : Codec RexSim.ExExNotification D}

def step (codec : Codec RexSim.ExExNotification D) (d : Delivery ι D) :
    DeliveryEvent ι → Option (Delivery ι D)
  | .exex e => (d.exex.step e).bind fun exex ↦ match RemoteExEx.broadcast e with
    | some n => (d.watch.step codec (.broadcast n)).map fun watch ↦ ⟨exex, watch⟩
    | none => some ⟨exex, d.watch⟩
  | .net (.broadcast _) => none
  | .net e => (d.watch.step codec e).map fun watch ↦ { d with watch := watch }

/-- Every `try_connect` subscribes anew. -/
def Fresh (d : Delivery ι D) : DeliveryEvent ι → Prop
  | .exex _ => True
  | .net e => d.watch.Fresh e

variable {d d' : Delivery ι D} {e : DeliveryEvent ι}

/-- A step of the server or of a client. -/
theorem net_of_step {e : Event ι RexSim.ExExNotification} (h : d.step codec (.net e) = some d') :
    d'.exex = d.exex ∧ d.watch.step codec e = some d'.watch := by
  cases e with
  | broadcast n => cases h
  | accept | session | spawn | thread =>
    simp only [Delivery.step] at h
    obtain ⟨watch, hwatch, rfl⟩ := Option.map_eq_some_iff.mp h
    exact ⟨rfl, hwatch⟩

/-- What is broadcast are changes of the canonical chain. -/
structure Inv (codec : Codec RexSim.ExExNotification D) (d : Delivery ι D) : Prop where
  watch : d.watch.Inv codec
  sent : d.watch.net.sent = d.exex.notifications
  canon : ∃ changes : List RethRex.CanonStateNotification,
    d.exex.notifications = changes.map RethRex.CanonStateNotification.exex

theorem Inv.step (h : d.Inv codec) (hstep : d.step codec e = some d') (hfresh : d.Fresh e) :
    d'.Inv codec := by
  cases e with
  | exex e =>
    obtain ⟨exex, hexex, hrest⟩ := Option.bind_eq_some_iff.mp hstep
    have hnotifications := (RemoteExEx.step_eq hexex).1
    cases hbroadcast : RemoteExEx.broadcast e with
    | none =>
      rw [hbroadcast] at hrest hnotifications
      cases hrest
      have hsame : exex.notifications = d.exex.notifications := by simpa using hnotifications
      exact ⟨h.watch, h.sent.trans hsame.symm, hsame ▸ h.canon⟩
    | some n =>
      rw [hbroadcast] at hrest hnotifications
      obtain ⟨watch, hwatch, rfl⟩ := Option.map_eq_some_iff.mp hrest
      have hsent : watch.net.sent = d.watch.net.sent ++ [n] := by
        obtain ⟨net, hnet, rfl⟩ := Option.map_eq_some_iff.mp hwatch
        cases hnet
        rfl
      refine ⟨h.watch.step hwatch trivial, ?_, ?_⟩
      · rw [hsent, hnotifications, h.sent]
        rfl
      · obtain ⟨changes, hchanges⟩ := h.canon
        cases e with
        | canon change =>
          cases change with
          | none => cases hbroadcast
          | some change =>
            cases hbroadcast
            exact ⟨changes ++ [change], by rw [hnotifications, hchanges]; simp⟩
        | _ => cases hbroadcast
  | net e =>
    cases e with
    | broadcast n => cases hstep
    | accept | session | spawn | thread =>
      simp only [Delivery.step] at hstep
      obtain ⟨watch, hwatch, rfl⟩ := Option.map_eq_some_iff.mp hstep
      refine ⟨h.watch.step hwatch hfresh, ?_, h.canon⟩
      exact (Net.sent_eq_of_step (Watch.exists_net_of_step hwatch).1 nofun).trans h.sent

/-- **What a client gets.** -/
structure Delivered (codec : Codec RexSim.ExExNotification D) (d : Delivery ι D) (c : ι) :
    Prop where
  /-- Each connection gives it a slice of what the ExEx has broadcast, and each slice is after the
  one before. -/
  slices : ∃ slices : List (ℕ × ℕ), slices.length = (d.watch.logs c).read.length ∧
    (slices.Pairwise fun s t ↦ s.1 + s.2 ≤ t.1) ∧
    (d.watch.logs c).got =
      (slices.flatMap (slice d.exex.notifications)).filter codec.Decodes
  /-- So it gets notifications in the order of the broadcast, and none of them twice. -/
  inOrder : (d.watch.logs c).got.Sublist (d.exex.notifications.filter codec.Decodes)
  /-- What the subscriber takes are these, in that order; nothing is lost in the client unless the
  subscriber goes away. -/
  taken : (d.watch.logs c).took.Sublist (d.watch.logs c).got ∧
    ((d.watch.logs c).dropped = false →
      (d.watch.logs c).took ++ d.watch.net.pending c = (d.watch.logs c).got)
  /-- It is told of changes of the canonical chain only, which are commits and reorgs. -/
  canon : ∀ n ∈ (d.watch.logs c).got, ∃ change : RethRex.CanonStateNotification, n = change.exex

omit [DecidableEq ι] in
theorem Inv.delivered (h : d.Inv codec) (c : ι) : d.Delivered codec c := by
  have hfollows := h.watch.follows c
  -- the sessions that the client has read, with what it has read of each
  have hsession : ∀ k ∈ (d.watch.logs c).read, ∃ s, d.watch.net.sessions[k]? = some s :=
    fun k hk ↦ (hfollows.claimed k hk).imp fun _ hs ↦ hs.1
  let sliceAt (k : ℕ) : ℕ × ℕ := ((d.watch.net.sessions[k]?).map readSlice).getD (0, 0)
  let sessions := (d.watch.logs c).read.map sliceAt
  have hslice : ∀ {k s}, d.watch.net.sessions[k]? = some s → sliceAt k = readSlice s :=
    fun hs ↦ by simp only [sliceAt, hs, Option.map_some, Option.getD_some]
  have hpairwise : sessions.Pairwise fun s t ↦ s.1 + s.2 ≤ t.1 := by
    refine List.pairwise_map.mpr ?_
    refine hfollows.slices.imp_of_mem fun {k k'} hk hk' hle ↦ ?_
    obtain ⟨s, hs⟩ := hsession k hk
    obtain ⟨s', hs'⟩ := hsession k' hk'
    rw [hslice hs, hslice hs']
    exact hle s s' hs hs'
  have hgot : (d.watch.logs c).got =
      (sessions.flatMap (slice d.exex.notifications)).filter codec.Decodes := by
    rw [hfollows.got_eq, List.filter_flatMap, List.flatMap_map]
    refine List.flatMap_congr fun k hk ↦ ?_
    obtain ⟨s, hs⟩ := hsession k hk
    rw [hs, hslice hs, ← h.sent, Option.map_some, Option.getD_some]
    exact returned_eq_slice (h.watch.intact k s hs)
  have hbound : ∀ t ∈ sessions, t.1 + t.2 ≤ d.exex.notifications.length := by
    intro t ht
    obtain ⟨k, hk, rfl⟩ := List.mem_map.mp ht
    obtain ⟨s, hs⟩ := hsession k hk
    have hkept := h.watch.intact k s hs
    have hseen := ((List.prefix_append s.seen s.wire).trans hkept.wire_prefix).length_le
    have htaken := hkept.taken_prefix.length_le
    have hstart := hkept.start_le
    rw [List.length_map] at hseen
    rw [List.length_drop] at htaken
    rw [hslice hs, ← h.sent, readSlice]
    omega
  have hinOrder : (d.watch.logs c).got.Sublist (d.exex.notifications.filter codec.Decodes) := by
    have hsub : ((sessions.flatMap (slice d.exex.notifications)).filter codec.Decodes).Sublist
        ((d.exex.notifications.take d.exex.notifications.length).filter codec.Decodes) :=
      (Broadcast.flatMap_slice_sublist hpairwise hbound).filter codec.Decodes
    rwa [← hgot, List.take_length] at hsub
  refine ⟨⟨_, List.length_map _, hpairwise, hgot⟩, hinOrder, ⟨?_, fun hdropped ↦ ?_⟩, ?_⟩
  · exact (List.sublist_append_left _ _).trans (h.watch.hands c).sublist
  · exact ((h.watch.hands c).lossless hdropped).1
  · intro n hn
    obtain ⟨changes, hchanges⟩ := h.canon
    have hmem := (List.mem_filter.mp (hinOrder.subset hn)).1
    rw [hchanges] at hmem
    obtain ⟨change, -, hchange⟩ := List.mem_map.mp hmem
    exact ⟨change, hchange.symm⟩

end Delivery

/-- **Delivery**: in every run of the ExEx, the server and its clients, in which every connection is
a new subscription, every client gets changes of the canonical chain in their order and none of them
twice, whatever connections it has lost. -/
theorem Delivery.delivered_of_run {ι D : Type} [DecidableEq ι]
    {codec : Codec RexSim.ExExNotification D} {head : ℕ × RexSim.B256} {d : Delivery ι D}
    (h : Lts.Run (Lts.Executes (Delivery.step codec)) Delivery.Fresh
      { exex := .install head } d) (c : ι) : d.Delivered codec c := by
  have hinv : d.Inv codec :=
    h.invariant (fun e _ _ hinv hstep hok ↦ Inv.step (e := e) hinv hstep hok)
      ⟨Watch.inv_new codec, rfl, [], rfl⟩
  exact hinv.delivered c

end

namespace Reconnecting

open scoped RexSim.Revm

/-- The notifications themselves are sent. -/
def asIs : Codec RexSim.ExExNotification RexSim.ExExNotification where
  serialize n := n
  deserialize := some
  eq_of_deserialize h := (Option.some.inj h).symm

/-- A chain of one block. -/
def chain (number : ℕ) (parentHash hash : RexSim.B256) : RexSim.Chain where
  blocks := [{ header := { number, parentHash, hash, rest := [] } }]
  nonempty := List.cons_ne_nil _ _
  linked := .singleton _

def commit (number : ℕ) (parentHash hash : RexSim.B256) : DeliveryEvent Unit :=
  .exex (.canon (some (.commit (chain number parentHash hash))))

def reorg : DeliveryEvent Unit :=
  .exex (.canon (some (.reorg (chain 2 11 12) (chain 2 11 22))))

/-- A notification on its way from the broadcast channel of a session to the subscriber. -/
def passes (i : ℕ) : List (DeliveryEvent Unit) :=
  [.net (.session i .recv), .net (.session i .send), .net (.session i .forward),
    .net (.thread () .message), .net (.thread () .handOver), .net (.thread () .take)]

/-- The client is told of the block `11`, and loses its connection while `12` is committed.  It is
told of the reorg after it has subscribed again. -/
def events : List (DeliveryEvent Unit) :=
  [.net (.spawn ()), .net .accept, .net (.thread () (.connected 0)), commit 1 10 11] ++ passes 0 ++
    [.net (.session 0 .drop), .net (.thread () .failed), commit 2 11 12, .net .accept,
      .net (.thread () (.connected 1)), .exex (.exex (.chainCommitted (chain 2 11 12)) true),
      reorg] ++ passes 1

/-- The connection is a new subscription. -/
def isFresh (d : Delivery Unit RexSim.ExExNotification) : DeliveryEvent Unit → Bool
  | .net (.thread c (.connected i)) => decide ((d.watch.logs c).since ≤ i)
  | _ => true

theorem fresh_of_isFresh (d : Delivery Unit RexSim.ExExNotification) (e : DeliveryEvent Unit)
    (h : isFresh d e = true) : d.Fresh e := by
  rw [isFresh.eq_def] at h
  split at h
  · exact Nat.le_of_ble_eq_true (by simpa using h)
  · rename_i hnot
    cases e with
    | exex e => trivial
    | net e =>
      cases e with
      | thread c e =>
        cases e with
        | connected i => exact absurd rfl (hnot c i)
        | _ => trivial
      | _ => trivial

/-- The hashes of the blocks that a notification brings. -/
def hashes (n : RexSim.ExExNotification) : List RexSim.B256 :=
  ((RethRex.committedChain n).map fun chain ↦ chain.blocks.map (·.hash)).getD []

/-- What the client took, the sessions it has read, and what was broadcast. -/
def view (d : Delivery Unit RexSim.ExExNotification) :
    List (List RexSim.B256) × List ℕ × List (List RexSim.B256) :=
  ((d.watch.logs ()).took.map hashes, (d.watch.logs ()).read, d.exex.notifications.map hashes)

end Reconnecting

open scoped RexSim.Revm in
open Reconnecting in
/-- A client that has lost a connection. -/
theorem Delivery.delivered_of_run_reconnecting :
    ∃ d : Delivery Unit RexSim.ExExNotification,
      Lts.Run (Lts.Executes (Delivery.step asIs)) Delivery.Fresh
        { exex := .install (0, 10) } d ∧
      view d = ([[11], [22]], [0, 1], [[11], [12], [22]]) ∧ d.Delivered asIs () := by
  have hview : (Lts.replay (Delivery.step asIs) isFresh events
      { exex := .install (0, 10) }).map view =
        some ([[11], [22]], [0, 1], [[11], [12], [22]]) := by
    decide +kernel
  obtain ⟨d, hd, hview⟩ := Option.map_eq_some_iff.mp hview
  have hrun : Lts.Run (Lts.Executes (Delivery.step asIs)) Delivery.Fresh
      { exex := .install (0, 10) } d := .of_replay hd fresh_of_isFresh
  exact ⟨d, hrun, hview, Delivery.delivered_of_run hrun ()⟩

end RexCons
