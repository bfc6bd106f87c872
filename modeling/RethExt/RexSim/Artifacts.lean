import RethExt.Lib.Text
import RethExt.RexSim.Changeset
import Mathlib.Data.List.Nodup

/-!
# Recorded notifications

The recorder of `rex-cons` writes each notification to a file named after its blocks, and
`rex-sim` lists such files and loads them.  The writer, the two listers and the loaders each spell
the format out for themselves, so here are the names they use, one function for each, and what they
make of each other's.

The listers read back what the recorder writes: `listedCommit_fileName_eq_some_iff` for commits and
`listedReorg_fileName_eq_some_iff` for reorgs.  A commit has two numbers in its name, but
`list_commit_blocks` returns only the first of them and `load_commit` takes it for both.  So listing
and loading agree on reorgs, and they agree on commits exactly when each of them is a single block:
`agree_iff`.

A directory is the list of its files, in the order in which `read_dir` returns them, and a file name
is a list of characters.
-/

set_option autoImplicit false

namespace RexSim

open Text (stripPrefix stripSuffix splitText parseDecimal)

/-! ## The literals of the format -/

-- irreducible, since unification would decode the string again and again
@[irreducible] def commitPrefix : List Char := "commit_".toList

@[irreducible] def reorgPrefix : List Char := "reorg_".toList

@[irreducible] def revertPrefix : List Char := "revert_".toList

@[irreducible] def toSeparator : List Char := "_to_".toList

@[irreducible] def bincodeSuffix : List Char := ".bincode".toList

theorem commitPrefix_eq : commitPrefix = ['c', 'o', 'm', 'm', 'i', 't', '_'] := by
  unfold commitPrefix
  rfl

theorem reorgPrefix_eq : reorgPrefix = ['r', 'e', 'o', 'r', 'g', '_'] := by
  unfold reorgPrefix
  rfl

theorem revertPrefix_eq : revertPrefix = ['r', 'e', 'v', 'e', 'r', 't', '_'] := by
  unfold revertPrefix
  rfl

theorem toSeparator_eq : toSeparator = ['_', 't', 'o', '_'] := by
  unfold toSeparator
  rfl

/-! ## Numbers -/

/-- What a number is formatted as. -/
def decimal (n : UInt64) : List Char := Nat.toDigits 10 n.toNat

/-- `str::parse::<u64>`: digits, after a `+` that may be left out, of a number that fits. -/
def parseU64 (s : List Char) : Option UInt64 :=
  (parseDecimal ((stripPrefix ['+'] s).getD s)).bind fun n ↦
    if h : n < UInt64.size then some (UInt64.ofNatLT n h) else none

theorem parseU64_decimal (n : UInt64) : parseU64 (decimal n) = some n := by
  have hplus : '+' ∉ decimal n := Text.not_mem_toDigits rfl
  have hnone : stripPrefix ['+'] (decimal n) = none :=
    Text.stripPrefix_eq_none fun h ↦ hplus (h.subset List.mem_cons_self)
  rw [parseU64, hnone, Option.getD_none, decimal, Text.parseDecimal_toDigits, Option.bind_some,
    dif_pos n.toNat_lt_size, UInt64.ofNatLT_toNat]

theorem decimal_injective {m n : UInt64} (h : decimal m = decimal n) : m = n :=
  Option.some.inj ((parseU64_decimal m).symm.trans (h ▸ parseU64_decimal n))

/-- Two numbers with a `_` between them. -/
def between (start stop : UInt64) : List Char := decimal start ++ '_' :: decimal stop

theorem underscore_not_mem_decimal (n : UInt64) : '_' ∉ decimal n := Text.not_mem_toDigits rfl

theorem splitOn_between (start stop : UInt64) :
    (between start stop).splitOn '_' = [decimal start, decimal stop] := by
  rw [between, List.splitOn_append_cons_self_of_not_mem (underscore_not_mem_decimal start),
    List.splitOn_eq_singleton (underscore_not_mem_decimal stop)]

/-- The separator `_to_` has a character that two numbers do not have. -/
theorem t_not_mem_between (start stop : UInt64) : 't' ∉ between start stop := by
  have hnot : ∀ n, 't' ∉ decimal n := fun n ↦ Text.not_mem_toDigits rfl
  simp [between, hnot]

theorem splitText_toSeparator (os oe ns ne : UInt64) :
    splitText toSeparator (between os oe ++ (toSeparator ++ between ns ne)) =
      [between os oe, between ns ne] := by
  have hmem : 't' ∈ ['_', 't', 'o', '_'] := by decide
  rw [toSeparator_eq, Text.splitText_append (by decide) (t_not_mem_between os oe),
    Text.splitText_eq_singleton hmem (t_not_mem_between ns ne)]

theorem between_injective {start stop start' stop' : UInt64}
    (h : between start stop = between start' stop') : start = start' ∧ stop = stop' := by
  have hsplit := congrArg (List.splitOn '_') h
  rw [splitOn_between, splitOn_between, List.cons.injEq, List.cons.injEq] at hsplit
  exact ⟨decimal_injective hsplit.1, decimal_injective hsplit.2.1⟩

/-! ## The recorder -/

/-- What the name of a recorded file says. -/
inductive Artifact
  | commit (start stop : UInt64)
  | reorg (oldStart oldEnd newStart newEnd : UInt64)
  | revert (start stop : UInt64)
  deriving DecidableEq

namespace Artifact

/-- The name that the recorder gives the file. -/
def fileName : Artifact → List Char
  | commit start stop => commitPrefix ++ (between start stop ++ bincodeSuffix)
  | reorg oldStart oldEnd newStart newEnd =>
    reorgPrefix ++
      (between oldStart oldEnd ++ (toSeparator ++ between newStart newEnd) ++ bincodeSuffix)
  | revert start stop => revertPrefix ++ (between start stop ++ bincodeSuffix)

theorem suffix_fileName (a : Artifact) : bincodeSuffix <:+ a.fileName := by
  cases a <;> exact (List.suffix_append _ _).trans (List.suffix_append _ _)

end Artifact

/-- What the recorder writes a notification as. -/
def ExExNotification.artifact [Revm] : ExExNotification → Artifact
  | .chainCommitted new => .commit (.ofNat new.first.number) (.ofNat new.tip.number)
  | .chainReorged old new =>
    .reorg (.ofNat old.first.number) (.ofNat old.tip.number)
      (.ofNat new.first.number) (.ofNat new.tip.number)
  | .chainReverted old => .revert (.ofNat old.first.number) (.ofNat old.tip.number)

/-- The files of a directory, each with its contents. -/
structure Directory (D : Type) where
  files : List (List Char × D)
  nodup : (files.map Prod.fst).Nodup

namespace Directory

variable {D N E : Type} (dir : Directory D)

def names : List (List Char) := dir.files.map Prod.fst

def read (name : List Char) : Option D := dir.files.lookup name

theorem read_eq_none_iff (name : List Char) : dir.read name = none ↔ name ∉ dir.names := by
  simp only [read, names, List.lookup_eq_none_iff, List.mem_map, not_exists, not_and, bne_iff_ne]
  exact forall₂_congr fun file _ ↦ ne_comm

/-- `fs::write`: the file is replaced if there is one. -/
def write (name : List Char) (data : D) : Directory D where
  files := dir.files.filter (·.1 ≠ name) ++ [(name, data)]
  nodup := by
    rw [List.map_append, List.nodup_append]
    refine ⟨(List.filter_sublist.map _).nodup dir.nodup, List.nodup_singleton _, ?_⟩
    intro a ha b hb heq
    obtain ⟨file, hfile, rfl⟩ := List.mem_map.mp ha
    have hne : file.1 ≠ name := of_decide_eq_true (List.mem_filter.mp hfile).2
    exact hne (heq.trans (List.mem_singleton.mp hb))

theorem mem_names_write {name name' : List Char} {data : D} :
    name' ∈ (dir.write name data).names ↔ name' = name ∨ name' ∈ dir.names := by
  by_cases h : name' = name <;> simp [names, write, h]

/-- Each of the files has a name that the recorder gives. -/
def Recorded : Prop := ∀ name ∈ dir.names, ∃ a : Artifact, a.fileName = name

/-- What is left by files that are written one after the other. -/
def writeAll (files : List (Artifact × D)) : Directory D :=
  files.foldl (fun dir file ↦ dir.write file.1.fileName file.2) dir

theorem mem_names_writeAll {files : List (Artifact × D)} {name : List Char} :
    name ∈ (dir.writeAll files).names ↔
      (∃ file ∈ files, file.1.fileName = name) ∨ name ∈ dir.names := by
  induction files generalizing dir with
  | nil => simp [writeAll]
  | cons file files ih =>
    have hrest : name ∈ ((dir.write file.1.fileName file.2).writeAll files).names ↔ _ :=
      ih (dir.write file.1.fileName file.2)
    refine hrest.trans ?_
    rw [mem_names_write, List.exists_mem_cons_iff]
    grind

/-- The recorder's files are all its own. -/
theorem Recorded.writeAll {dir : Directory D} (h : dir.Recorded) (files : List (Artifact × D)) :
    (dir.writeAll files).Recorded := by
  intro name hname
  rcases (mem_names_writeAll dir).mp hname with ⟨file, -, rfl⟩ | hname
  · exact ⟨file.1, rfl⟩
  · exact h name hname

/-- A directory without files. -/
def empty (D : Type) : Directory D := ⟨[], List.nodup_nil⟩

theorem recorded_empty : (empty D).Recorded := by
  intro name hname
  cases hname

end Directory

/-- The recorder's loop, over the notifications that it receives. -/
def record [Revm] {D : Type} (serialize : ExExNotification → D) (artifactsDir : Directory D)
    (notifications : List ExExNotification) : Directory D :=
  artifactsDir.writeAll (notifications.map fun n ↦ (n.artifact, serialize n))

/-! ## Loading -/

/-- Why a file is not loaded: there is none, or it is no notification. -/
inductive LoadError (E : Type)
  | notFound
  | malformed (e : E)

section Loading

variable {D N E : Type} (deserialize : D → Except E N) (artifactsDir : Directory D)

def loadNotification (path : List Char) : Except (LoadError E) N :=
  match artifactsDir.read path with
  | none => .error .notFound
  | some data => (deserialize data).mapError .malformed

/-- The file that `load_commit` opens. -/
def commitFileName (block : UInt64) : List Char :=
  commitPrefix ++ (between block block ++ bincodeSuffix)

def loadCommit (block : UInt64) : Except (LoadError E) N :=
  loadNotification deserialize artifactsDir (commitFileName block)

/-- The file that `load_reorg` opens. -/
def reorgFileName (oldStart oldEnd newStart newEnd : UInt64) : List Char :=
  reorgPrefix ++
    (between oldStart oldEnd ++ (toSeparator ++ between newStart newEnd) ++ bincodeSuffix)

def loadReorg (oldStart oldEnd newStart newEnd : UInt64) : Except (LoadError E) N :=
  loadNotification deserialize artifactsDir (reorgFileName oldStart oldEnd newStart newEnd)

/-- The file that `load_revert` opens. -/
def revertFileName (start stop : UInt64) : List Char :=
  revertPrefix ++ (between start stop ++ bincodeSuffix)

def loadRevert (start stop : UInt64) : Except (LoadError E) N :=
  loadNotification deserialize artifactsDir (revertFileName start stop)

variable {deserialize artifactsDir} {path : List Char}

/-- A file is opened if it is there. -/
theorem loadNotification_eq_notFound_iff :
    loadNotification deserialize artifactsDir path = .error .notFound ↔
      path ∉ artifactsDir.names := by
  rw [← Directory.read_eq_none_iff, loadNotification]
  cases artifactsDir.read path with
  | none => simp
  | some data => cases h : deserialize data <;> simp [Except.mapError, h]

end Loading

/-! ## Listing -/

/-- What `list_commit_blocks` makes of a file name. -/
def listedCommit (filename : List Char) : Option UInt64 :=
  if commitPrefix <+: filename ∧ bincodeSuffix <:+ filename then
    (stripPrefix commitPrefix filename).bind fun s ↦ (s.splitOn '_').head?.bind parseU64
  else none

def listCommitBlocks {D : Type} (artifactsDir : Directory D) : List UInt64 :=
  (artifactsDir.names.filterMap listedCommit).mergeSort

abbrev Reorg := UInt64 × UInt64 × UInt64 × UInt64

/-- The order of tuples. -/
def Reorg.le (p q : Reorg) : Bool :=
  (compareLex (compareOn Prod.fst) (compareLex (compareOn (·.2.1))
    (compareLex (compareOn (·.2.2.1)) (compareOn (·.2.2.2)))) p q).isLE

/-- The four numbers, if the parts are two pairs of numbers. -/
def reorgOfParts : List (List Char) → Option Reorg
  | [oldPart, newPart] => match oldPart.splitOn '_', newPart.splitOn '_' with
    | [os, oe], [ns, ne] =>
      match parseU64 os, parseU64 oe, parseU64 ns, parseU64 ne with
      | some os, some oe, some ns, some ne => some (os, oe, ns, ne)
      | _, _, _, _ => none
    | _, _ => none
  | _ => none

/-- What `list_reorgs` makes of a file name. -/
def listedReorg (filename : List Char) : Option Reorg :=
  if reorgPrefix <+: filename ∧ bincodeSuffix <:+ filename then
    let s := (stripPrefix reorgPrefix filename).getD []
    reorgOfParts (splitText toSeparator ((stripSuffix bincodeSuffix s).getD []))
  else none

def listReorgs {D : Type} (artifactsDir : Directory D) : List Reorg :=
  (artifactsDir.names.filterMap listedReorg).mergeSort Reorg.le

namespace Artifact

/-- The prefix of a commit is that of no other file. -/
theorem commitPrefix_iff (a : Artifact) :
    commitPrefix <+: a.fileName ↔ ∃ start stop, a = .commit start stop := by
  cases a with
  | commit start stop => simp [fileName]
  | reorg => simp [fileName, commitPrefix_eq, reorgPrefix_eq]
  | revert => simp [fileName, commitPrefix_eq, revertPrefix_eq]

/-- The prefix of a reorg is that of no other file. -/
theorem reorgPrefix_iff (a : Artifact) :
    reorgPrefix <+: a.fileName ↔ ∃ os oe ns ne, a = .reorg os oe ns ne := by
  cases a with
  | commit => simp [fileName, commitPrefix_eq, reorgPrefix_eq]
  | reorg os oe ns ne => simp [fileName]
  | revert => simp [fileName, reorgPrefix_eq, revertPrefix_eq]

/-- **The lister of commits** finds the first number of every commit, and nothing else. -/
theorem listedCommit_fileName_eq_some_iff (a : Artifact) (block : UInt64) :
    listedCommit a.fileName = some block ↔ ∃ stop, a = .commit block stop := by
  rw [listedCommit]
  split
  · rename_i h
    obtain ⟨start, stop, rfl⟩ := (commitPrefix_iff a).mp h.1
    rw [fileName, Text.stripPrefix_append, Option.bind_some, between, List.append_assoc,
      List.cons_append,
      List.splitOn_append_cons_self_of_not_mem (underscore_not_mem_decimal start),
      List.head?_cons, Option.bind_some, parseU64_decimal]
    simp
  · rename_i h
    have hcommit : ∀ stop, a ≠ .commit block stop := fun stop heq ↦
      h ⟨(commitPrefix_iff a).mpr ⟨block, stop, heq⟩, suffix_fileName a⟩
    simp [hcommit]

/-- **The lister of reorgs** finds the four numbers of every reorg, and nothing else. -/
theorem listedReorg_fileName_eq_some_iff (a : Artifact) (os oe ns ne : UInt64) :
    listedReorg a.fileName = some (os, oe, ns, ne) ↔ a = .reorg os oe ns ne := by
  rw [listedReorg]
  split
  · rename_i h
    obtain ⟨os', oe', ns', ne', rfl⟩ := (reorgPrefix_iff a).mp h.1
    simp only [fileName, Text.stripPrefix_append, Option.getD_some, Text.stripSuffix_append,
      splitText_toSeparator, reorgOfParts, splitOn_between, parseU64_decimal, Option.some.injEq,
      Prod.mk.injEq, reorg.injEq]
  · rename_i h
    have hreorg : a ≠ .reorg os oe ns ne := fun heq ↦
      h ⟨(reorgPrefix_iff a).mpr ⟨os, oe, ns, ne, heq⟩, suffix_fileName a⟩
    simp [hreorg]

/-- A commit's name is that of no other file. -/
theorem eq_commit_of_fileName {a : Artifact} {start stop : UInt64}
    (h : a.fileName = (commit start stop).fileName) : a = .commit start stop := by
  obtain ⟨start', stop', rfl⟩ := (commitPrefix_iff a).mp
    (h ▸ (commitPrefix_iff (commit start stop)).mpr ⟨start, stop, rfl⟩)
  obtain ⟨rfl, rfl⟩ := between_injective (List.append_cancel_right (List.append_cancel_left h))
  rfl

end Artifact

/-! ## Listing and loading -/

open Artifact in
/-- **Listing and loading agree.**  Every block that is listed names a file that is opened, and
every recorded commit is the file of a block that is listed.  Every recorded reorg is listed once,
and the file that its numbers open is the one they were read from. -/
structure Agree {D N E : Type} (deserialize : D → Except E N) (artifactsDir : Directory D) :
    Prop where
  commit_opens : ∀ block ∈ listCommitBlocks artifactsDir,
    loadCommit deserialize artifactsDir block ≠ .error .notFound
  commit_listed : ∀ start stop, (commit start stop).fileName ∈ artifactsDir.names →
    ∃ block ∈ listCommitBlocks artifactsDir, commitFileName block = (commit start stop).fileName
  reorg_nodup : (listReorgs artifactsDir).Nodup
  reorg_listed : ∀ os oe ns ne, (os, oe, ns, ne) ∈ listReorgs artifactsDir ↔
    (reorg os oe ns ne).fileName ∈ artifactsDir.names
  reorg_opens : ∀ filename ∈ artifactsDir.names, ∀ os oe ns ne,
    listedReorg filename = some (os, oe, ns, ne) →
      reorgFileName os oe ns ne = filename ∧
        loadReorg deserialize artifactsDir os oe ns ne ≠ .error .notFound

section Agreement

variable {D N E : Type} {deserialize : D → Except E N} {artifactsDir : Directory D}

theorem mem_listCommitBlocks (h : artifactsDir.Recorded) {block : UInt64} :
    block ∈ listCommitBlocks artifactsDir ↔
      ∃ stop, (Artifact.commit block stop).fileName ∈ artifactsDir.names := by
  rw [listCommitBlocks, List.mem_mergeSort, List.mem_filterMap]
  constructor
  · rintro ⟨filename, hmem, hlisted⟩
    obtain ⟨a, rfl⟩ := h filename hmem
    obtain ⟨stop, rfl⟩ := (Artifact.listedCommit_fileName_eq_some_iff a block).mp hlisted
    exact ⟨stop, hmem⟩
  · rintro ⟨stop, hmem⟩
    exact ⟨_, hmem, (Artifact.listedCommit_fileName_eq_some_iff _ block).mpr ⟨stop, rfl⟩⟩

/-- A file whose name is read as four numbers has the name that is written for them. -/
theorem eq_reorgFileName_of_listed (h : artifactsDir.Recorded) {filename : List Char}
    (hmem : filename ∈ artifactsDir.names) {os oe ns ne : UInt64}
    (hlisted : listedReorg filename = some (os, oe, ns, ne)) :
    filename = reorgFileName os oe ns ne := by
  obtain ⟨a, rfl⟩ := h filename hmem
  rw [(Artifact.listedReorg_fileName_eq_some_iff a os oe ns ne).mp hlisted]
  rfl

theorem mem_listReorgs (h : artifactsDir.Recorded) {os oe ns ne : UInt64} :
    (os, oe, ns, ne) ∈ listReorgs artifactsDir ↔
      (Artifact.reorg os oe ns ne).fileName ∈ artifactsDir.names := by
  rw [listReorgs, List.mem_mergeSort, List.mem_filterMap]
  constructor
  · rintro ⟨filename, hmem, hlisted⟩
    obtain rfl := eq_reorgFileName_of_listed h hmem hlisted
    exact hmem
  · intro hmem
    exact ⟨_, hmem, (Artifact.listedReorg_fileName_eq_some_iff _ os oe ns ne).mpr rfl⟩

/-- No reorg is listed twice: two files with the same numbers have the same name. -/
theorem nodup_listReorgs (h : artifactsDir.Recorded) : (listReorgs artifactsDir).Nodup := by
  rw [listReorgs, List.nodup_mergeSort, List.Nodup, List.pairwise_filterMap]
  refine List.Pairwise.imp_of_mem ?_ artifactsDir.nodup
  rintro filename filename' hmem hmem' hne ⟨os, oe, ns, ne⟩ hlisted _ hlisted' rfl
  exact hne ((eq_reorgFileName_of_listed h hmem hlisted).trans
    (eq_reorgFileName_of_listed h hmem' hlisted').symm)

/-- **Listing and loading agree** on the files of the recorder exactly when every recorded commit is
a single block. -/
theorem agree_iff (h : artifactsDir.Recorded) :
    Agree deserialize artifactsDir ↔
      ∀ start stop, (Artifact.commit start stop).fileName ∈ artifactsDir.names → start = stop := by
  constructor
  · intro hagree start stop hmem
    obtain ⟨block, -, hname⟩ := hagree.commit_listed start stop hmem
    have hcommit : (Artifact.commit block block).fileName = (Artifact.commit start stop).fileName :=
      hname
    cases Artifact.eq_commit_of_fileName hcommit
    rfl
  · intro hsingle
    refine ⟨fun block hblock ↦ ?_, fun start stop hmem ↦ ?_, nodup_listReorgs h,
      fun os oe ns ne ↦ mem_listReorgs h, fun filename hmem os oe ns ne hlisted ↦ ?_⟩
    · obtain ⟨stop, hmem⟩ := (mem_listCommitBlocks h).mp hblock
      obtain rfl := hsingle block stop hmem
      rw [loadCommit, ne_eq, loadNotification_eq_notFound_iff, not_not]
      exact hmem
    · obtain rfl := hsingle start stop hmem
      exact ⟨start, (mem_listCommitBlocks h).mpr ⟨start, hmem⟩, rfl⟩
    · have hname := eq_reorgFileName_of_listed h hmem hlisted
      refine ⟨hname.symm, ?_⟩
      rw [loadReorg, ne_eq, loadNotification_eq_notFound_iff, not_not]
      exact hname ▸ hmem

/-- **The recorder's directory** is listed and loaded in agreement exactly when the recorder has
received no commit of several blocks. -/
theorem agree_record_iff [Revm] (serialize : ExExNotification → D)
    (notifications : List ExExNotification) :
    Agree deserialize (record serialize (.empty D) notifications) ↔
      ∀ n ∈ notifications, ∀ start stop, n.artifact = .commit start stop → start = stop := by
  rw [record, agree_iff (Directory.recorded_empty.writeAll _)]
  constructor
  · intro h n hn start stop hcommit
    refine h start stop ((Directory.mem_names_writeAll _).mpr (Or.inl ?_))
    exact ⟨_, List.mem_map.mpr ⟨n, hn, rfl⟩, congrArg Artifact.fileName hcommit⟩
  · intro h start stop hmem
    rcases (Directory.mem_names_writeAll _).mp hmem with ⟨file, hfile, hname⟩ | hmem
    · obtain ⟨n, hn, rfl⟩ := List.mem_map.mp hfile
      exact h n hn start stop (Artifact.eq_commit_of_fileName hname)
    · cases hmem

end Agreement

namespace Recordings

/-- Two commits of one block, a reorg and a revert. -/
def single : List (Artifact × ℕ) :=
  [(.commit 6 6, 60), (.reorg 5 6 5 7, 61), (.commit 5 5, 62), (.revert 6 8, 63)]

/-- A commit of two blocks. -/
def multi : List (Artifact × ℕ) := [(.commit 5 6, 60)]

/-- The contents are the notification. -/
def readNat (data : ℕ) : Except Unit ℕ := .ok data

end Recordings

open Recordings in
/-- A directory with reorgs and reverts, whose commits are single blocks. -/
theorem agree_iff_single : Agree readNat ((Directory.empty ℕ).writeAll single) := by
  refine (agree_iff (Directory.recorded_empty.writeAll single)).mpr fun start stop hmem ↦ ?_
  rcases (Directory.mem_names_writeAll _).mp hmem with ⟨file, hfile, hname⟩ | hmem
  · have hcommit := Artifact.eq_commit_of_fileName hname
    simp only [single, List.mem_cons, List.not_mem_nil, or_false] at hfile
    rcases hfile with rfl | rfl | rfl | rfl <;> cases hcommit <;> rfl
  · cases hmem

open Recordings in
/-- **A commit that cannot be loaded.**  Blocks 5 and 6 are committed together: `list_commit_blocks`
returns 5, and there is no file that `load_commit` of 5 opens. -/
theorem not_agree_multi :
    ((Directory.empty ℕ).writeAll multi).Recorded ∧
      (5 : UInt64) ∈ listCommitBlocks ((Directory.empty ℕ).writeAll multi) ∧
      loadCommit readNat ((Directory.empty ℕ).writeAll multi) 5 = .error .notFound ∧
      ¬ Agree readNat ((Directory.empty ℕ).writeAll multi) := by
  have hrecorded := Directory.recorded_empty.writeAll multi
  have hlisted : (5 : UInt64) ∈ listCommitBlocks ((Directory.empty ℕ).writeAll multi) := by
    refine (mem_listCommitBlocks hrecorded).mpr ⟨6, ?_⟩
    exact (Directory.mem_names_writeAll _).mpr (Or.inl ⟨_, List.mem_singleton_self _, rfl⟩)
  have hmissing : loadCommit readNat ((Directory.empty ℕ).writeAll multi) 5 =
      .error .notFound := by
    rw [loadCommit, loadNotification_eq_notFound_iff]
    decide +kernel
  exact ⟨hrecorded, hlisted, hmissing, fun h ↦ h.commit_opens 5 hlisted hmissing⟩

end RexSim
