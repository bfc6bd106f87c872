import RethExt.RexSim.Artifacts
import RethExt.RexSim.Fork
import RethExt.RexSim.System

/-!
# What a recording replays

`test_artifacts` takes the commits that the recorder has left behind, in the order of their blocks,
and puts them through a changeset manager whose caches are empty.  It fails unless each of them
takes the client to its block.

The recorder writes a file again when it gets a notification with the same numbers, so of each block
the last commit is left (`lastCommit`), and reorgs and reverts are in files of their own.  So a
replay goes through what was committed, and not through what was received: `replays_of_record` says
which recordings it goes through, namely those in which the commits that are left are built on each
other.
-/

set_option autoImplicit false

open Std

namespace RexSim

/-! ## A directory that is written -/

namespace Directory

variable {D : Type} (dir : Directory D)

theorem read_write (name name' : List Char) (data : D) :
    (dir.write name data).read name' = if name = name' then some data else dir.read name' := by
  have hother : name ≠ name' →
      (dir.files.filter (·.1 ≠ name)).lookup name' = dir.files.lookup name' := by
    intro hne
    induction dir.files with
    | nil => rfl
    | cons file files ih =>
      rw [List.filter_cons]
      split
      · rw [List.lookup_cons, List.lookup_cons, ih]
      · rename_i hsame
        have hfile : file.1 = name := by simpa using hsame
        rw [ih, List.lookup_cons, hfile, beq_eq_false_iff_ne.mpr hne.symm]
  have hgone : (dir.files.filter (·.1 ≠ name)).lookup name = none := by
    rw [List.lookup_eq_none_iff]
    intro file hfile
    have hne := of_decide_eq_true (List.mem_filter.mp hfile).2
    exact bne_iff_ne.mpr (Ne.symm hne)
  rw [read, write, List.lookup_append]
  split
  · rename_i heq
    subst heq
    rw [hgone]
    simp
  · rename_i hne
    rw [hother hne]
    simp [List.lookup_cons, beq_eq_false_iff_ne.mpr (Ne.symm hne), read]

/-- **A file holds what was last written to it.** -/
theorem read_writeAll (files : List (Artifact × D)) (name : List Char) :
    (dir.writeAll files).read name =
      (files.reverse.findSome? fun file ↦
        if file.1.fileName = name then some file.2 else none).or (dir.read name) := by
  induction files using List.reverseRecOn with
  | nil => rfl
  | append_singleton files file ih =>
    have hlast : dir.writeAll (files ++ [file]) =
        (dir.writeAll files).write file.1.fileName file.2 := by
      rw [writeAll, List.foldl_append]
      rfl
    rw [hlast, read_write, ih, List.reverse_append, List.reverse_singleton, List.singleton_append,
      List.findSome?_cons]
    by_cases hname : file.1.fileName = name <;> simp [hname]

end Directory

section

variable [Revm]

/-! ## What is left of a recording -/

/-- The chain of a commit of this block alone. -/
def singleCommit (block : UInt64) : ExExNotification → Option Chain
  | .chainCommitted new =>
    if UInt64.ofNat new.first.number = block ∧ UInt64.ofNat new.tip.number = block then some new
    else none
  | _ => none

/-- The last commit of the block alone. -/
def lastCommit (notifications : List ExExNotification) (block : UInt64) : Option Chain :=
  notifications.reverse.findSome? (singleCommit block)

theorem artifact_eq_commit_iff {n : ExExNotification} {start stop : UInt64} :
    n.artifact = .commit start stop ↔ ∃ new, n = .chainCommitted new ∧
      UInt64.ofNat new.first.number = start ∧ UInt64.ofNat new.tip.number = stop := by
  cases n <;> simp [ExExNotification.artifact]

/-- The file that is opened for a block is that of a commit of it alone. -/
theorem fileName_eq_commitFileName_iff {n : ExExNotification} {block : UInt64} :
    n.artifact.fileName = commitFileName block ↔ n.artifact = .commit block block :=
  ⟨Artifact.eq_commit_of_fileName, fun h ↦ congrArg Artifact.fileName h⟩

theorem singleCommit_eq_some_iff {n : ExExNotification} {block : UInt64} {c : Chain} :
    singleCommit block n = some c ↔ n = .chainCommitted c ∧ n.artifact = .commit block block := by
  cases n with
  | chainCommitted new =>
    simp only [singleCommit, ExExNotification.artifact, Option.ite_none_right_eq_some,
      Option.some.injEq, ExExNotification.chainCommitted.injEq, Artifact.commit.injEq]
    exact and_comm
  | chainReorged | chainReverted => simp [singleCommit, ExExNotification.artifact]

theorem singleCommit_eq_none_iff {n : ExExNotification} {block : UInt64} :
    singleCommit block n = none ↔ n.artifact ≠ .commit block block := by
  rw [← not_iff_not, not_not, ← ne_eq, Option.ne_none_iff_exists']
  simp only [singleCommit_eq_some_iff]
  constructor
  · rintro ⟨c, -, h⟩
    exact h
  · intro h
    obtain ⟨c, rfl, -⟩ := artifact_eq_commit_iff.mp h
    exact ⟨c, rfl, h⟩

/-- A block of which there is a commit has a last one. -/
theorem isSome_lastCommit_iff {notifications : List ExExNotification} {block : UInt64} :
    (lastCommit notifications block).isSome = true ↔
      ∃ n ∈ notifications, n.artifact = .commit block block := by
  rw [lastCommit, List.findSome?_isSome_iff]
  simp only [List.mem_reverse, Option.isSome_iff_ne_none, ne_eq, singleCommit_eq_none_iff, not_not]

/-- It was received, and is of this block alone. -/
theorem lastCommit_eq_some {notifications : List ExExNotification} {block : UInt64} {c : Chain}
    (h : lastCommit notifications block = some c) :
    ExExNotification.chainCommitted c ∈ notifications ∧
      UInt64.ofNat c.first.number = block ∧ UInt64.ofNat c.tip.number = block := by
  obtain ⟨n, hn, hcommit⟩ := List.exists_of_findSome?_eq_some h
  obtain ⟨rfl, hartifact⟩ := singleCommit_eq_some_iff.mp hcommit
  obtain ⟨new, hnew, hnumbers⟩ := artifact_eq_commit_iff.mp hartifact
  cases hnew
  exact ⟨List.mem_reverse.mp hn, hnumbers⟩

section Record

variable {D E : Type} {serialize : ExExNotification → D}
  {deserialize : D → Except E ExExNotification} {notifications : List ExExNotification}

/-- **Loading a recorded block** gives the last commit of it. -/
theorem loadCommit_record (hround : ∀ n, deserialize (serialize n) = .ok n) (block : UInt64) :
    loadCommit deserialize (record serialize (.empty D) notifications) block =
      match lastCommit notifications block with
      | some c => .ok (.chainCommitted c)
      | none => .error .notFound := by
  have hfile : ∀ n, (if n.artifact.fileName = commitFileName block then some (serialize n)
      else none) = (singleCommit block n).map fun c ↦ serialize (.chainCommitted c) := by
    intro n
    split
    · rename_i hname
      have hartifact := fileName_eq_commitFileName_iff.mp hname
      obtain ⟨new, rfl, -⟩ := artifact_eq_commit_iff.mp hartifact
      rw [singleCommit_eq_some_iff.mpr ⟨rfl, hartifact⟩]
      rfl
    · rename_i hname
      rw [singleCommit_eq_none_iff.mpr fun h ↦ hname (fileName_eq_commitFileName_iff.mpr h)]
      rfl
  have hread : (record serialize (.empty D) notifications).read (commitFileName block) =
      (lastCommit notifications block).map fun c ↦ serialize (.chainCommitted c) := by
    have hempty : (Directory.empty D).read (commitFileName block) = none := rfl
    rw [record, Directory.read_writeAll, hempty, Option.or_none, lastCommit, ← List.map_reverse,
      List.findSome?_map, List.map_findSome?]
    exact congrArg (List.findSome? · _) (funext hfile)
  rw [loadCommit, loadNotification, hread]
  cases lastCommit notifications block with
  | none => rfl
  | some c => simp [hround, Except.mapError]

/-- The files of a recording are those of the notifications. -/
theorem mem_names_record {name : List Char} :
    name ∈ (record serialize (.empty D) notifications).names ↔
      ∃ n ∈ notifications, n.artifact.fileName = name := by
  have hnone : name ∉ (Directory.empty D).names := List.not_mem_nil
  simp [record, Directory.mem_names_writeAll, hnone]

theorem recorded_record : (record serialize (.empty D) notifications).Recorded :=
  Directory.recorded_empty.writeAll _

/-- **What is listed of a recording**: the first blocks of its commits. -/
theorem mem_listCommitBlocks_record {block : UInt64} :
    block ∈ listCommitBlocks (record serialize (.empty D) notifications) ↔
      ∃ n ∈ notifications, ∃ stop, n.artifact = .commit block stop := by
  rw [mem_listCommitBlocks recorded_record]
  constructor
  · rintro ⟨stop, hmem⟩
    obtain ⟨n, hn, hname⟩ := mem_names_record.mp hmem
    exact ⟨n, hn, stop, Artifact.eq_commit_of_fileName hname⟩
  · rintro ⟨n, hn, stop, hartifact⟩
    exact ⟨stop, mem_names_record.mpr ⟨n, hn, congrArg Artifact.fileName hartifact⟩⟩

/-- **A block is listed once** unless two commits that begin with it end differently. -/
theorem nodup_listCommitBlocks_record_iff :
    (listCommitBlocks (record serialize (.empty D) notifications)).Nodup ↔
      ∀ n ∈ notifications, ∀ n' ∈ notifications, ∀ start stop stop',
        n.artifact = .commit start stop → n'.artifact = .commit start stop' → stop = stop' := by
  rw [listCommitBlocks, List.nodup_mergeSort, List.Nodup, List.pairwise_filterMap]
  constructor
  · intro hnodup n hn n' hn' start stop stop' hstop hstop'
    by_contra hne
    have hnames : n.artifact.fileName ≠ n'.artifact.fileName := by
      rw [hstop, hstop']
      exact fun h ↦ hne (Artifact.commit.inj (Artifact.eq_commit_of_fileName h)).2
    have hsymm : Std.Symm fun filename filename' ↦ ∀ block, listedCommit filename = some block →
        ∀ block', listedCommit filename' = some block' → block ≠ block' :=
      ⟨fun _ _ h _ hb _ hb' ↦ (h _ hb' _ hb).symm⟩
    exact hnodup.forall (mem_names_record.mpr ⟨n, hn, rfl⟩) (mem_names_record.mpr ⟨n', hn', rfl⟩)
      hnames start ((Artifact.listedCommit_fileName_eq_some_iff _ _).mpr ⟨stop, hstop⟩)
      start ((Artifact.listedCommit_fileName_eq_some_iff _ _).mpr ⟨stop', hstop'⟩) rfl
  · intro hends
    refine List.Pairwise.imp_of_mem ?_ (record serialize (.empty D) notifications).nodup
    rintro filename filename' hmem hmem' hne block hlisted _ hlisted' rfl
    obtain ⟨n, hn, rfl⟩ := mem_names_record.mp hmem
    obtain ⟨n', hn', rfl⟩ := mem_names_record.mp hmem'
    obtain ⟨stop, hstop⟩ := (Artifact.listedCommit_fileName_eq_some_iff _ _).mp hlisted
    obtain ⟨stop', hstop'⟩ := (Artifact.listedCommit_fileName_eq_some_iff _ _).mp hlisted'
    obtain rfl := hends n hn n' hn' _ _ _ hstop hstop'
    exact hne (by rw [hstop, hstop'])

end Record

omit [Revm] in
/-- The blocks are listed in their order. -/
theorem pairwise_listCommitBlocks {D : Type} (dir : Directory D) :
    (listCommitBlocks dir).Pairwise (· ≤ ·) := by
  have hle : ∀ a b : UInt64, decide (a ≤ b) = true ↔ a ≤ b := fun a b ↦ decide_eq_true_iff
  refine (List.pairwise_mergeSort ?_ ?_ _).imp fun {a b} h ↦ (hle a b).mp h
  · intro a b c hab hbc
    rw [hle] at hab hbc ⊢
    exact UInt64.le_trans hab hbc
  · intro a b
    rw [Bool.or_eq_true, hle, hle]
    exact UInt64.le_total a b

/-! ## The replay -/

/-- Why the replay stops. -/
inductive TestFailure (E : Type)
  | load (e : LoadError E)
  | blockMismatch
  | stale

/-- The loop of `test_normal_commits`: each block is loaded and sent, and the responder of the
flushes hands over empty caches.  A round is over before the state is looked at. -/
def testNormalCommits {E : Type} (loadCommit : UInt64 → Except (LoadError E) ExExNotification) :
    StateSnapshot → List UInt64 → Except (TestFailure E) StateSnapshot
  | state, [] => .ok state
  | state, block :: blocks => match loadCommit block with
    | .error e => .error (.load e)
    | .ok notification =>
      let state := nextSnapshot state {} notification
      if state.block ≠ block.toNat then .error .blockMismatch
      else if state.stale then .error .stale
      else testNormalCommits loadCommit state blocks

/-- A commit of `y` is accepted after one of `x`: it is built on it, or the client takes anything
there. -/
def Chain.Continues (y x : Chain) : Prop :=
  (x.tip.number = 0 ∨ x.tip.hash = 0) ∨
    y.first.number = x.tip.number + 1 ∧ y.first.parentHash = x.tip.hash

/-- The commits that are left of two blocks go together. -/
def Connects (notifications : List ExExNotification) (a b : UInt64) : Prop :=
  a = b ∨ ∃ x y, lastCommit notifications a = some x ∧ lastCommit notifications b = some y ∧
    y.Continues x

/-- A commit of later blocks is accepted if it continues the last one. -/
theorem StateSnapshot.AtTip.accepts_iff {s : StateSnapshot} {x y : Chain} (h : s.AtTip x)
    (hlater : x.tip.number < y.first.number) :
    (commitVerdict s y).isAcceptable = true ↔ y.Continues x := by
  rw [← h.block] at hlater
  rw [Chain.Continues, ← h.block, ← h.blockHash]
  constructor
  · intro hacceptable
    rcases CommitValidation.isAcceptable_iff.mp hacceptable with hvalid | hany
    · obtain ⟨-, -, -, hextends | ⟨b, hb, hnumber, -⟩⟩ := commitVerdict_eq_valid hvalid
      · exact Or.inr hextends
      · have := y.first_number_le hb
        omega
    · exact Or.inl ((commitVerdict_eq_acceptAny.mp hany).resolve_right (by simp [h.stale]))
  · rintro (hany | hextends)
    · rw [commitVerdict_eq_acceptAny.mpr (Or.inl hany)]
      rfl
    · exact commitVerdict_of_extendedBy hextends

/-- The same commit again is accepted. -/
theorem StateSnapshot.AtTip.accepts_same {s : StateSnapshot} {x : Chain} (h : s.AtTip x)
    (hsingle : x.first.number = x.tip.number) : (commitVerdict s x).isAcceptable = true := by
  have hmem : (s.block, s.blockHash) ∈ x.ids := by
    rw [h.block, h.blockHash]
    exact List.mem_map.mpr ⟨x.tip, x.tip_mem, rfl⟩
  have hany : (x.ids.any fun b ↦ b.1 == s.block && b.2 == s.blockHash) = true :=
    List.any_eq_true.mpr ⟨_, hmem, by simp⟩
  have hle : x.first.info.number ≤ s.block := by
    rw [h.block, ← hsingle]
    exact Nat.le_refl _
  rw [commitVerdict, validateChainCommitted]
  split
  · rfl
  · split <;> rfl

section Replay

variable {E : Type} {load : UInt64 → Except (LoadError E) ExExNotification}
  {notifications : List ExExNotification} {s : StateSnapshot} {x y : Chain} {a b : UInt64}
  {blocks : List UInt64}

/-- **One block of a replay**: the commit that is loaded has to be accepted. -/
theorem testNormalCommits_cons_iff (hload : load b = .ok (.chainCommitted y))
    (hnumber : y.tip.number = b.toNat) :
    (∃ s', testNormalCommits load s (b :: blocks) = .ok s') ↔
      (commitVerdict s y).isAcceptable = true ∧
        ∃ s', testNormalCommits load (nextSnapshot s {} (.chainCommitted y)) blocks = .ok s' := by
  rw [testNormalCommits, hload]
  dsimp only
  by_cases hacceptable : (commitVerdict s y).isAcceptable = true
  · have htip : (nextSnapshot s {} (.chainCommitted y)).AtTip y :=
      StateSnapshot.atTip_of_accepted hacceptable
    generalize nextSnapshot s {} (.chainCommitted y) = s' at htip ⊢
    simp [hacceptable, htip.block, hnumber, htip.stale]
  · have hstale : (nextSnapshot s {} (.chainCommitted y)).stale = true := by
      rw [nextSnapshot_of_not_accepted {} (n := .chainCommitted y)
        (eq_false_of_ne_true hacceptable)]
      rfl
    generalize nextSnapshot s {} (.chainCommitted y) = s' at hstale ⊢
    by_cases hblock : s'.block = b.toNat <;> simp [hacceptable, hblock, hstale]

/-- What is loaded of a recording, and under which number. -/
structure Loads (load : UInt64 → Except (LoadError E) ExExNotification)
    (notifications : List ExExNotification) : Prop where
  load_eq : ∀ b, load b = match lastCommit notifications b with
    | some c => .ok (.chainCommitted c)
    | none => .error .notFound
  numbers : ∀ b c, lastCommit notifications b = some c →
    c.first.number = b.toNat ∧ c.tip.number = b.toNat

/-- Two commits that are left go together if the later one is accepted after the other. -/
theorem Loads.connects_iff (h : Loads load notifications) (hs : s.AtTip x)
    (hx : lastCommit notifications a = some x) (hy : lastCommit notifications b = some y)
    (hle : a ≤ b) :
    Connects notifications a b ↔ (commitVerdict s y).isAcceptable = true := by
  by_cases hab : a = b
  · subst hab
    cases hx.symm.trans hy
    obtain ⟨hfirst, htip⟩ := h.numbers a x hx
    exact iff_of_true (Or.inl rfl) (hs.accepts_same (hfirst.trans htip.symm))
  · have hlater : x.tip.number < y.first.number := by
      rw [(h.numbers a x hx).2, (h.numbers b y hy).1]
      exact Nat.lt_of_le_of_ne (UInt64.le_iff_toNat_le.mp hle) fun h ↦ hab (UInt64.toNat_inj.mp h)
    rw [hs.accepts_iff hlater]
    constructor
    · rintro (heq | ⟨x', y', hx', hy', hcontinues⟩)
      · exact absurd heq hab
      · cases hx.symm.trans hx'
        cases hy.symm.trans hy'
        exact hcontinues
    · exact fun hcontinues ↦ Or.inr ⟨x, y, hx, hy, hcontinues⟩

/-- **A replay that has begun** goes through if the commits that are left are there and are built on
each other. -/
theorem Loads.isOk_of_atTip_iff (h : Loads load notifications) (hs : s.AtTip x)
    (hx : lastCommit notifications a = some x) (hsorted : (a :: blocks).Pairwise (· ≤ ·)) :
    (∃ s', testNormalCommits load s blocks = .ok s') ↔
      (∀ b ∈ blocks, (lastCommit notifications b).isSome = true) ∧
        (a :: blocks).IsChain (Connects notifications) := by
  induction blocks generalizing s x a with
  | nil => simp [testNormalCommits]
  | cons b blocks ih =>
    obtain ⟨hle, hrest⟩ := List.pairwise_cons.mp hsorted
    have hload := h.load_eq b
    cases hy : lastCommit notifications b with
    | none =>
      rw [hy] at hload
      simp [testNormalCommits, hload, hy]
    | some y =>
      rw [hy] at hload
      rw [testNormalCommits_cons_iff hload (h.numbers b y hy).2, List.isChain_cons_cons,
        List.forall_mem_cons, h.connects_iff hs hx hy (hle b List.mem_cons_self)]
      by_cases hacceptable : (commitVerdict s y).isAcceptable = true
      · rw [ih (StateSnapshot.atTip_of_accepted hacceptable) hy hrest]
        simp [hacceptable, hy]
      · simp [hacceptable]

/-- **A replay from the start**: the first commit is taken whatever it is built on. -/
theorem Loads.isOk_iff (h : Loads load notifications) (hsorted : blocks.Pairwise (· ≤ ·)) :
    (∃ s', testNormalCommits load {} blocks = .ok s') ↔
      (∀ b ∈ blocks, (lastCommit notifications b).isSome = true) ∧
        blocks.IsChain (Connects notifications) := by
  cases blocks with
  | nil => simp [testNormalCommits]
  | cons b blocks =>
    have hload := h.load_eq b
    cases hy : lastCommit notifications b with
    | none =>
      rw [hy] at hload
      simp [testNormalCommits, hload, hy]
    | some y =>
      rw [hy] at hload
      have hacceptable : (commitVerdict {} y).isAcceptable = true := rfl
      rw [testNormalCommits_cons_iff hload (h.numbers b y hy).2,
        h.isOk_of_atTip_iff (StateSnapshot.atTip_of_accepted hacceptable) hy hsorted,
        and_iff_right hacceptable, List.forall_mem_cons, hy]
      simp

end Replay

/-- **What a recording replays.** -/
structure Replays {D E : Type} (deserialize : D → Except E ExExNotification)
    (artifactsDir : Directory D) (notifications : List ExExNotification) : Prop where
  /-- The first blocks of the commits are listed in their order, -/
  sorted : (listCommitBlocks artifactsDir).Pairwise (· ≤ ·)
  listed : ∀ block, block ∈ listCommitBlocks artifactsDir ↔
    ∃ n ∈ notifications, ∃ stop, n.artifact = .commit block stop
  /-- each once unless two commits that begin with it end differently. -/
  once : (listCommitBlocks artifactsDir).Pairwise (· < ·) ↔
    ∀ n ∈ notifications, ∀ n' ∈ notifications, ∀ start stop stop',
      n.artifact = .commit start stop → n'.artifact = .commit start stop' → stop = stop'
  /-- A block is loaded as the last commit of it alone. -/
  loaded : ∀ block, loadCommit deserialize artifactsDir block =
    match lastCommit notifications block with
    | some c => .ok (.chainCommitted c)
    | none => .error .notFound
  /-- As many of them as are replayed go through if they are all there and built on each other. -/
  passes : ∀ m, (∃ s, testNormalCommits (loadCommit deserialize artifactsDir) {}
      ((listCommitBlocks artifactsDir).take m) = .ok s) ↔
    (∀ block ∈ (listCommitBlocks artifactsDir).take m,
        ∃ n ∈ notifications, n.artifact = .commit block block) ∧
      ((listCommitBlocks artifactsDir).take m).IsChain (Connects notifications)

/-- **A recording is replayed as what was committed last**, whatever the recorder has received and
in whatever order the files are listed: reorgs and reverts are left out, and a replay goes through
exactly when the commits that are left are built on each other. -/
theorem replays_of_record {D E : Type} {serialize : ExExNotification → D}
    {deserialize : D → Except E ExExNotification} {notifications : List ExExNotification}
    (hround : ∀ n, deserialize (serialize n) = .ok n)
    (hfits : ∀ new, ExExNotification.chainCommitted new ∈ notifications →
      new.tip.number < UInt64.size) :
    Replays deserialize (record serialize (.empty D) notifications) notifications := by
  have hloads : Loads (loadCommit deserialize (record serialize (.empty D) notifications))
      notifications := by
    refine ⟨loadCommit_record hround, fun b c hc ↦ ?_⟩
    obtain ⟨hmem, hfirst, htip⟩ := lastCommit_eq_some hc
    have htip_lt := hfits c hmem
    have hfirst_lt := (c.first_number_le c.tip_mem).trans_lt htip_lt
    rw [← UInt64.toNat_inj, UInt64.toNat_ofNat_of_lt' hfirst_lt] at hfirst
    rw [← UInt64.toNat_inj, UInt64.toNat_ofNat_of_lt' htip_lt] at htip
    exact ⟨hfirst, htip⟩
  have hsorted := pairwise_listCommitBlocks (record serialize (.empty D) notifications)
  have hpasses := fun m ↦ hloads.isOk_iff (hsorted.sublist (List.take_sublist m _))
  simp only [isSome_lastCommit_iff] at hpasses
  refine ⟨hsorted, fun block ↦ mem_listCommitBlocks_record, ?_, hloads.load_eq, hpasses⟩
  suffices h : (listCommitBlocks (record serialize (.empty D) notifications)).Pairwise (· < ·) ↔
      (listCommitBlocks (record serialize (.empty D) notifications)).Nodup from
    h.trans nodup_listCommitBlocks_record_iff
  constructor
  · exact fun hlt ↦ hlt.imp fun {a b} h ↦ UInt64.ne_of_lt h
  · exact fun hnodup ↦ (hsorted.and hnodup).imp fun {a b} ⟨hle, hne⟩ ↦
      UInt64.lt_of_le_of_ne hle hne

end

/-! ## A recording of a reorg -/

namespace LeftOut

open Branches

open scoped Revm

/-- The block `11` is committed and replaced by `21`, on which `22` is committed. -/
def notifications : List ExExNotification :=
  [.chainCommitted a1, .chainReorged a1 b1, .chainCommitted b2]

def recording : Directory ExExNotification := record id (.empty ExExNotification) notifications

def readBack (data : ExExNotification) : Except Unit ExExNotification := .ok data

def isMismatch : Except (TestFailure Unit) StateSnapshot → Bool
  | .error .blockMismatch => true
  | _ => false

/-- The replay stops at the block `22`: the one it is built on is in no file of a commit. -/
example : isMismatch (testNormalCommits (loadCommit readBack recording) {} [1, 2]) = true := by
  decide +kernel

end LeftOut

open scoped Revm in
open LeftOut Branches in
/-- A recording from which a reorg is left out. -/
theorem replays_of_record_leftOut : Replays readBack recording notifications := by
  refine replays_of_record (fun n ↦ rfl) fun new hnew ↦ ?_
  simp only [notifications, List.mem_cons, ExExNotification.chainCommitted.injEq, reduceCtorEq,
    List.not_mem_nil, or_false, false_or] at hnew
  rcases hnew with rfl | rfl <;> decide

end RexSim
