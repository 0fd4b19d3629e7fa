import HLsm.Compaction
import HLsm.Storage

/-! # Where the lazy version puts a moved or compacted file

In hLSM mode every change of the primary version is mirrored into the lazy
version by the same edit (`lazy_version_edit.cc`, `lazy_version_set.cc`):

* a level-0 compaction drops its level-0 inputs from lazy level 0 and adds its
  outputs to lazy level 1, then opens a new delta sub-level of logical level 1
  when the active one holds files;
* a file leaving level 1 goes to the active delta sub-level of logical level 1;
* a file leaving a level of a two-phase logical level `X` is queued for a copy
  to secondary storage and added to `X.NEW`;
* a whole-level move of `X.R` hands `X.NEW` to the active delta sub-level of
  `X + 1`, clears the delta sub-levels that `X.NEW` made obsolete and rolls the
  delta ring of `X` forward;
* past the two-phase levels the lazy version mirrors the primary levels.

Every move also records the file's new level in `table_level`, and the copies
it asks for join the helper thread's queue (`MirrorState`).
-/

set_option autoImplicit false

namespace HLsm

open HLsm.Coding HLsm.Format

/-! ## `UpdateLazyLevels` -/

/-- `LazyVersionEdit::Output`: a compaction output file. -/
structure CompactionOutput where
  number : UInt64
  fileSize : UInt64
  smallest : InternalKey
  largest : InternalKey
  deriving DecidableEq, Repr

namespace VersionEdit

/-- `AddLazyFile` for a file of the primary version. -/
def addLazyCopy (e : VersionEdit) (level : Nat) (f : FileMetaData) : VersionEdit :=
  e.addLazyFile level f.number f.fileSize f.smallest f.largest

/-- `AddLazyFile` for a compaction output. -/
def addLazyOutput (e : VersionEdit) (level : Nat) (out : CompactionOutput) : VersionEdit :=
  e.addLazyFile level out.number out.fileSize out.smallest out.largest

/-- `DeleteLazyFile` for every file, at one lazy level. -/
def deleteLazyFiles (e : VersionEdit) (level : Nat) (files : List FileMetaData) : VersionEdit :=
  files.foldl (fun e f => e.deleteLazyFile level f.number) e

end VersionEdit

/-- `LazyVersionEdit::UpdateLazyLevels (level, v, c, outputs)`: the lazy half of
a compaction's edit, and the copies it queues. -/
def updateLazyLevels (rt : Runtime) (level : Nat) (vset : VersionSet) (c : Compaction)
    (outputs : List CompactionOutput) (edit : VersionEdit) (mirror : MirrorState) :
    VersionEdit × MirrorState :=
  let llevel := getLogicalLevel level
  let edit := edit.setDeltaLevels vset.deltaMeta
  if level = 0 then
    -- `L0.R -> L0.L`: the level-0 inputs leave, the outputs join lazy level 1
    let edit := edit.deleteLazyFiles 0 c.inputs0
    let edit := outputs.foldl (fun e out => e.addLazyOutput 1 out) edit
    let active := (getActiveDeltaLevel edit.deltaMeta 1).toNat
    (if vset.currentLazy.numFiles active > 0 then edit.advanceActiveDeltaLevel 1 else edit, mirror)
  else if llevel = 0 then
    -- `X.L (f) -> (X+1).R`: the inputs move to the active delta sub-level
    let active := (getActiveDeltaLevel edit.deltaMeta 1).toNat
    (c.inputs0.foldl (fun e f => (e.deleteLazyFile level f.number).addLazyCopy active f) edit, mirror)
  else if llevel < rt.twoPhaseEndLevel then
    -- the inputs are copied to secondary storage and join `X.NEW`
    c.inputs0.foldl
      (fun (acc : VersionEdit × MirrorState) f =>
        (acc.1.addLazyCopy (getHlsmNewLevel level) f, acc.2.addCopyFile f.number))
      (edit, mirror)
  else if llevel = rt.twoPhaseEndLevel then
    let next := getPureMirrorLevel rt (level + 1)
    let edit := edit.deleteLazyFiles next c.inputs1
    (outputs.foldl (fun e out => e.addLazyOutput next out) edit, mirror)
  else
    let here := getPureMirrorLevel rt level
    let next := getPureMirrorLevel rt (level + 1)
    let edit := (edit.deleteLazyFiles here c.inputs0).deleteLazyFiles next c.inputs1
    (outputs.foldl (fun e out => e.addLazyOutput next out) edit, mirror)

/-! ## Trivial and whole-level moves -/

/-- The primary half of a move: every file leaves `level` for `level + 1`, and
`table_level` records its new level. -/
def moveFiles (level : Nat) (files : List FileMetaData) (edit : VersionEdit)
    (mirror : MirrorState) : VersionEdit × MirrorState :=
  files.foldl
    (fun (acc : VersionEdit × MirrorState) f =>
      ((acc.1.deleteFile level f.number).addFile (level + 1) f.number f.fileSize f.smallest f.largest,
        acc.2.addTableLevel f.number (level + 1)))
    (edit, mirror)

/-- Queue a copy of every file when the move reaches `mirror_start_level`. -/
def copyIntoMirror (rt : Runtime) (level : Nat) (files : List FileMetaData) (mirror : MirrorState) :
    MirrorState :=
  if ((level + 1 : Nat) : Int) = rt.mirrorStartLevel then
    files.foldl (fun m f => m.addCopyFile f.number) mirror
  else mirror

namespace BasicVersionSet

/-- `BasicVersionSet::MoveFileDown`'s edit: the first input file moves down. -/
def moveFileDownEdit (rt : Runtime) (c : Compaction) (mirror : MirrorState) :
    VersionEdit × MirrorState :=
  let files := c.inputs0.take 1
  let (edit, mirror) := moveFiles c.level files c.edit mirror
  (edit, copyIntoMirror rt c.level files mirror)

/-- `BasicVersionSet::MoveLevelDown`'s edit: every file of the level moves down. -/
def moveLevelDownEdit (rt : Runtime) (vset : VersionSet) (c : Compaction) (mirror : MirrorState) :
    VersionEdit × MirrorState :=
  let files := vset.current.levelFiles c.level
  let (edit, mirror) := moveFiles c.level files c.edit mirror
  (edit, copyIntoMirror rt c.level files mirror)

end BasicVersionSet

namespace LazyVersionSet

/-- `LazyVersionSet::MoveFileDown`'s edit: the input file moves down, and the
lazy version places it by the logical level it leaves. -/
def moveFileDownEdit (rt : Runtime) (vset : VersionSet) (c : Compaction) (mirror : MirrorState) :
    VersionEdit × MirrorState :=
  let level := c.level
  let edit := c.edit.setDeltaLevels vset.deltaMeta
  match c.inputs0.head? with
  | none => (edit, mirror)
  | some f =>
      let (edit, mirror) := moveFiles level [f] edit mirror
      let llevel := getLogicalLevel level
      if llevel = 0 then
        ((edit.deleteLazyFile level f.number).addLazyCopy
          (getActiveDeltaLevel vset.deltaMeta 1).toNat f, mirror)
      else if llevel < rt.twoPhaseEndLevel then
        (edit.addLazyCopy (getHlsmNewLevel level) f, mirror.addCopyFile f.number)
      else if llevel = rt.twoPhaseEndLevel then
        -- `(X+1).R`: the last two-phase level has no `NEW` sub-level
        (edit.addLazyCopy (getHlsmNewLevel level) f, mirror.addCopyFile f.number)
      else
        let here := getPureMirrorLevel rt level
        ((edit.deleteLazyFile here f.number).addLazyCopy (here + 1) f, mirror)

/-- Clear the delta sub-levels `get_obsolete_delta_levels` names: `none` when
that loop does not stop. -/
def clearObsoleteDeltaLevels (vset : VersionSet) (llevel : Nat) (edit : VersionEdit) :
    Option VersionEdit :=
  (getObsoleteDeltaLevels vset.deltaMeta llevel).map fun dlevels =>
    dlevels.foldl
      (fun e dlevel => e.deleteLazyFiles dlevel.toNat (vset.currentLazy.levelFiles dlevel.toNat))
      edit

/-- `LazyVersionSet::MoveLevelDown`'s edit: every file of the level moves
down; for a two-phase logical level the lazy version hands `X.NEW` on, clears
the obsolete delta sub-levels and rolls the delta ring forward.  `none` when
the obsolete delta sub-levels cannot be listed. -/
def moveLevelDownEdit (rt : Runtime) (vset : VersionSet) (c : Compaction) (mirror : MirrorState) :
    Option (VersionEdit × MirrorState) :=
  let level := c.level
  let files := vset.current.levelFiles level
  let edit := c.edit.setDeltaLevels vset.deltaMeta
  let (edit, mirror) := moveFiles level files edit mirror
  let mirror := copyIntoMirror rt level files mirror
  let llevel := getLogicalLevel level
  if 0 < llevel ∧ llevel < rt.twoPhaseEndLevel then
    let newLevel := getHlsmNewLevel level
    let newFiles := vset.currentLazy.levelFiles newLevel
    let active := (getActiveDeltaLevel vset.deltaMeta (llevel + 1)).toNat
    let edit := newFiles.foldl (fun e f => (e.deleteLazyFile newLevel f.number).addLazyCopy active f) edit
    (clearObsoleteDeltaLevels vset llevel edit).map fun edit =>
      let edit := edit.rollForwardDeltaLevels llevel
      (if newFiles.length > 0 then edit.advanceActiveDeltaLevel (llevel + 1) else edit, mirror)
  else if llevel = rt.twoPhaseEndLevel then
    (clearObsoleteDeltaLevels vset llevel edit).map fun edit =>
      (edit.rollForwardDeltaLevels llevel, mirror)
  else if llevel > rt.twoPhaseEndLevel then
    let here := getPureMirrorLevel rt level
    let lazyFiles := vset.currentLazy.levelFiles here
    some (lazyFiles.foldl (fun e f => (e.deleteLazyFile here f.number).addLazyCopy (here + 1) f) edit,
      mirror)
  else some (edit, mirror)

end LazyVersionSet

end HLsm
