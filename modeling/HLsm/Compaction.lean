import HLsm.VersionSet

/-! # Picking a compaction (`db/version_set.cc`, `db/lazy_version_set.cc`)

A `Compaction` names a level, the files of that level it reads (`inputs_[0]`),
the overlapping files of the next level (`inputs_[1]`), the files two levels
down that bound its outputs (`grandparents_`), and the edit it fills.

`PickCompaction` prefers a level whose score reached `1` and otherwise takes
the file a read nominated (`file_to_compact_`).  The lazy version set refuses a
nominated file on an even level; the basic one takes whatever level the
nomination names.  Both update `compact_pointer_` while they set up the other
inputs, before the compaction runs.

Results:
* `pickCompaction_seek`: the basic set compacts the nominated file at the
  nominated level, whatever that level is.
* `LazyVersionSet.pickCompaction_evenSeek`: the lazy set picks nothing when the
  only reason to compact is a file nominated on an even level, although
  `NeedsCompaction` holds.
-/

set_option autoImplicit false

namespace HLsm

open HLsm.Coding HLsm.Format

/-- `Compaction`: its level, its two input lists, the grandparent files, its
edit and the version it read its inputs from. -/
structure Compaction where
  level : Nat
  inputs0 : List FileMetaData
  inputs1 : List FileMetaData
  grandparents : List FileMetaData
  edit : VersionEdit
  inputVersion : Version
  deriving DecidableEq

/-- `Compaction (level)`, reading `v`; the edit is `NewVersionEdit ()`. -/
def Compaction.new (level : Nat) (v : Version) : Compaction :=
  ⟨level, [], [], [], VersionEdit.empty, v⟩

def maxFileSizeForLevel (_level : Nat) : Nat := kTargetFileSize

/-- `GetRange`: the smallest and the largest key of the files. -/
def getRange : List FileMetaData → InternalKey × InternalKey
  | [] => (⟨[]⟩, ⟨[]⟩)
  | f :: rest => rest.foldl
      (fun range g =>
        (if internalCompare g.smallest.rep range.1.rep == .lt then g.smallest else range.1,
         if internalCompare g.largest.rep range.2.rep == .gt then g.largest else range.2))
      (f.smallest, f.largest)

def getRange2 (inputs1 inputs2 : List FileMetaData) : InternalKey × InternalKey :=
  getRange (inputs1 ++ inputs2)

namespace Compaction

/-- `IsTrivialMove`: one input file, nothing to merge it with, and little
grandparent data. -/
def isTrivialMove (c : Compaction) : Bool :=
  c.inputs0.length == 1 && c.inputs1.isEmpty &&
    decide (totalFileSize c.grandparents ≤ kMaxGrandParentOverlapBytes)

/-- `AddInputDeletions`: every input file leaves its level. -/
def addInputDeletions (c : Compaction) (edit : VersionEdit) : VersionEdit :=
  let edit := c.inputs0.foldl (fun e f => e.deleteFile c.level f.number) edit
  c.inputs1.foldl (fun e f => e.deleteFile (c.level + 1) f.number) edit

def maxOutputFileSize (c : Compaction) : Nat := maxFileSizeForLevel c.level

end Compaction

namespace VersionSet

def needsCompaction (vset : VersionSet) : Bool :=
  decide (vset.current.compactionScore ≥ 1) || vset.current.fileToCompact.isSome

/-- `SetupOtherInputs`: the overlapping files of the next level, the inputs
grown when that adds no next-level file, the grandparents, and the new
compaction pointer of the level, written into the set and the edit. -/
def setupOtherInputs (vset : VersionSet) (c : Compaction) : VersionSet × Compaction :=
  let current := vset.current
  let level := c.level
  let range := getRange c.inputs0
  let inputs1 := current.getOverlappingInputs (level + 1) (some range.1) (some range.2)
  let all := getRange2 c.inputs0 inputs1
  -- try to take more files of `level` without more files of `level + 1`
  let grown : (InternalKey × InternalKey) × List FileMetaData × List FileMetaData ×
      (InternalKey × InternalKey) :=
    if inputs1.isEmpty then (range, c.inputs0, inputs1, all)
    else
      let expanded0 := current.getOverlappingInputs level (some all.1) (some all.2)
      if expanded0.length > c.inputs0.length ∧
          totalFileSize inputs1 + totalFileSize expanded0 < kExpandedCompactionByteSizeLimit then
        let newRange := getRange expanded0
        let expanded1 := current.getOverlappingInputs (level + 1) (some newRange.1) (some newRange.2)
        if expanded1.length = inputs1.length then
          (newRange, expanded0, expanded1, getRange2 expanded0 expanded1)
        else (range, c.inputs0, inputs1, all)
      else (range, c.inputs0, inputs1, all)
  let (range, inputs0, inputs1, all) := grown
  let grandparents :=
    if level + 2 < kNumLevels then current.getOverlappingInputs (level + 2) (some all.1) (some all.2)
    else []
  ({ vset with compactPointer := vset.compactPointer.set level range.2.encode },
    { c with
      inputs0 := inputs0
      inputs1 := inputs1
      grandparents := grandparents
      edit := c.edit.setCompactPointer level range.2 })

/-- The file a size compaction of `level` starts from: the first one past the
level's compaction pointer, or the first file of the level. -/
def sizeCompactionInput (vset : VersionSet) (level : Nat) : List FileMetaData :=
  let files := vset.current.levelFiles level
  let pointer := vset.compactPointer.getD level []
  match files.find? fun f => pointer.isEmpty || internalCompare f.largest.encode pointer == .gt with
  | some f => [f]
  | none => files.take 1

/-- `VersionSet::PickCompaction` (the basic set's). -/
def pickCompaction (vset : VersionSet) : VersionSet × Option Compaction :=
  let current := vset.current
  let picked : Option (Nat × List FileMetaData) :=
    if current.compactionScore ≥ 1 then
      let level := current.compactionLevel.toNat
      some (level, vset.sizeCompactionInput level)
    else match current.fileToCompact with
      | some f => some (current.fileToCompactLevel.toNat, [f])
      | none => none
  match picked with
  | none => (vset, none)
  | some (level, inputs0) =>
      -- level-0 files may overlap: take every file that overlaps the picked ones
      let inputs0 :=
        if level = 0 then
          let range := getRange inputs0
          current.getOverlappingInputs 0 (some range.1) (some range.2)
        else inputs0
      let (vset, c) := vset.setupOtherInputs { Compaction.new level current with inputs0 := inputs0 }
      (vset, some c)

/-- `VersionSet::CompactRange`: the files of `level` in the range, at most
about one output file's worth above level 0. -/
def compactRange (vset : VersionSet) (level : Nat) (begin «end» : Option InternalKey) :
    VersionSet × Option Compaction :=
  let inputs := vset.current.getOverlappingInputs level begin «end»
  if inputs.isEmpty then (vset, none)
  else
    let inputs :=
      if level > 0 then
        -- the first prefix whose size reaches the limit
        match (List.range inputs.length).find? fun i =>
            totalFileSize (inputs.take (i + 1)) ≥ maxFileSizeForLevel level with
        | some i => inputs.take (i + 1)
        | none => inputs
      else inputs
    let (vset, c) := vset.setupOtherInputs { Compaction.new level vset.current with inputs0 := inputs }
    (vset, some c)

end VersionSet

namespace LazyVersionSet

/-- `LazyVersionSet::PickCompaction`: a nominated file on an even level is
refused, and a level-0 compaction takes every file of level 0. -/
def pickCompaction (vset : VersionSet) : VersionSet × Option Compaction :=
  let current := vset.current
  let picked : Option (Nat × List FileMetaData) :=
    if current.compactionScore ≥ 1 then
      let level := current.compactionLevel.toNat
      some (level, vset.sizeCompactionInput level)
    else match current.fileToCompact with
      | some f =>
          -- `X.L -> X.R` only happens through `MoveLevelDown` or `MoveFileDown`
          if current.fileToCompactLevel % 2 = 0 then none
          else some (current.fileToCompactLevel.toNat, [f])
      | none => none
  match picked with
  | none => (vset, none)
  | some (level, inputs0) =>
      let inputs0 := if level = 0 then current.levelFiles 0 else inputs0
      let (vset, c) := vset.setupOtherInputs { Compaction.new level current with inputs0 := inputs0 }
      (vset, some c)

end LazyVersionSet

/-! ## What a pick returns -/

namespace VersionSet

/-- With no level scored `1` or more, the basic set compacts the nominated file
at the nominated level. -/
theorem pickCompaction_seek (vset : VersionSet) {f : FileMetaData}
    (belowOne : vset.current.compactionScore < 1) (nominated : vset.current.fileToCompact = some f) :
    ∃ c, (pickCompaction vset).2 = some c ∧ c.level = vset.current.fileToCompactLevel.toNat := by
  have notSize : ¬ vset.current.compactionScore ≥ 1 := not_le.mpr belowOne
  simp only [pickCompaction, notSize, if_false, nominated]
  exact ⟨_, rfl, rfl⟩

end VersionSet

namespace LazyVersionSet

theorem pickCompaction_evenSeek_eq (vset : VersionSet) {f : FileMetaData}
    (belowOne : vset.current.compactionScore < 1) (nominated : vset.current.fileToCompact = some f)
    (even : vset.current.fileToCompactLevel % 2 = 0) : pickCompaction vset = (vset, none) := by
  have notSize : ¬ vset.current.compactionScore ≥ 1 := not_le.mpr belowOne
  simp [pickCompaction, notSize, nominated, even]

/-- With no level scored `1` or more and a file nominated on an even level,
the lazy set picks no compaction. -/
theorem pickCompaction_evenSeek (vset : VersionSet) {f : FileMetaData}
    (belowOne : vset.current.compactionScore < 1) (nominated : vset.current.fileToCompact = some f)
    (even : vset.current.fileToCompactLevel % 2 = 0) : (pickCompaction vset).2 = none := by
  rw [pickCompaction_evenSeek_eq vset belowOne nominated even]

end LazyVersionSet

end HLsm
