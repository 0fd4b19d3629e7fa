import HLsm.Version

/-! # Table files on the two stores

hLSM keeps table files on a primary and a secondary store.  Whether a new
table file is also written to the secondary store is decided when it is
created, from the level `table_level` records for it (`is_mirrored_write`,
`PosixEnv::NewWritableFile`); a file that reaches a mirrored lazy level later
is copied by the helper thread, which works through the FIFO `op_queue`
(`opq_helper` in `util/hlsm_util.cc`).  `PosixEnv::DeleteFile` unlinks a file
and, for a file placed at a purely mirrored level, queues the removal of its
secondary copy.

The copy itself is the argument of an `assert`
(`assert(copy_file(sfname, fname) > 0)`): built with `-DNDEBUG`, the
production setting of the `Makefile`, the copy is compiled out.  `helperStep`
takes that build switch as its first argument.

A table file's contents never change once written; `Storage.contents` keeps
them by number, and reads go through `Storage.read`.
-/

set_option autoImplicit false

namespace HLsm

open HLsm.Coding HLsm.Format

/-! ## The globals of `hlsm::runtime` -/

/-- An operation of the helper thread's queue that touches table files. -/
inductive MirrorOp where
  /-- `MCopyFile`: copy the primary table file to secondary storage. -/
  | copyFile (number : UInt64)
  /-- `MDelete`: unlink the table file on secondary storage. -/
  | delete (number : UInt64)
  deriving DecidableEq, Repr

/-- `table_level`, the table-file operations of `op_queue`, in order, and
`moving_tables_`. -/
structure MirrorState where
  tableLevel : List (UInt64 × Int)
  opQueue : List MirrorOp
  movingTables : List UInt64
  deriving DecidableEq, Repr

namespace MirrorState

def empty : MirrorState := ⟨[], [], []⟩

/-- `TableLevel::add`. -/
def addTableLevel (m : MirrorState) (number : UInt64) (level : Int) : MirrorState :=
  { m with tableLevel := (number, level) :: m.tableLevel.filter fun entry => entry.1 != number }

/-- `TableLevel::remove`. -/
def removeTableLevel (m : MirrorState) (number : UInt64) : MirrorState :=
  { m with tableLevel := m.tableLevel.filter fun entry => entry.1 != number }

/-- `TableLevel::get`: `-1` for a number it does not hold. -/
def getTableLevel (m : MirrorState) (number : UInt64) : Int :=
  (m.tableLevel.lookup number).getD (-1)

/-- `OPQ_ADD_COPYFILE`: the file joins `moving_tables_` and its copy is queued. -/
def addCopyFile (m : MirrorState) (number : UInt64) : MirrorState :=
  { m with
    movingTables := if number ∈ m.movingTables then m.movingTables else m.movingTables ++ [number]
    opQueue := m.opQueue ++ [.copyFile number] }

/-- `OPQ_ADD_DELETE`. -/
def addDelete (m : MirrorState) (number : UInt64) : MirrorState :=
  { m with opQueue := m.opQueue ++ [.delete number] }

/-- `TableLevel::withinMirroredLevel`: a file placed at a level whose writes go
to both stores. -/
def withinMirroredLevel (rt : Runtime) (m : MirrorState) (number : UInt64) : Bool :=
  let level := m.getTableLevel number
  level != -1 && (decide (level ≥ rt.mirrorStartLevel) || decide (level ≤ rt.topMirrorEndLevel))

def withinPureMirroredLevel (rt : Runtime) (m : MirrorState) (number : UInt64) : Bool :=
  let level := m.getTableLevel number
  level != -1 && (decide (level ≥ rt.mirrorStartLevel) || decide (level ≤ rt.topPureMirrorEndLevel))

end MirrorState

/-- `is_mirrored_write (fname, pure)` for a table file: every table with full
mirroring, otherwise by the level the file was placed at. -/
def isMirroredWrite (rt : Runtime) (m : MirrorState) (number : UInt64) (pure : Bool) : Bool :=
  rt.hasSecondary &&
    (rt.fullMirror ||
      if pure then m.withinPureMirroredLevel rt number else m.withinMirroredLevel rt number)

/-! ## The two stores -/

/-- The table files: what each one holds, which store has a copy, and the
globals of `hlsm::runtime` that decide where copies go. -/
structure Storage where
  contents : List (UInt64 × Table)
  primary : List UInt64
  secondary : List UInt64
  mirror : MirrorState
  deriving DecidableEq, Repr

namespace Storage

def empty : Storage := ⟨[], [], [], .empty⟩

def read (s : Storage) (number : UInt64) : Except Status Table :=
  match s.contents.lookup number with
  | some table => .ok table
  | none => .error (.ioError "No such file or directory")

/-- `table_level.add (number, level)`, then `NewWritableFile`: the file is
created on the primary store, and also on the secondary one when the level
makes it a mirrored write. -/
def newTableFile (rt : Runtime) (s : Storage) (number : UInt64) (level : Int) : Storage :=
  let mirror := s.mirror.addTableLevel number level
  { s with
    primary := s.primary.insert number
    secondary := if isMirroredWrite rt mirror number false then s.secondary.insert number else s.secondary
    mirror := mirror }

def finishTable (s : Storage) (number : UInt64) (table : Table) : Storage :=
  { s with contents := (number, table) :: s.contents }

/-- `BuildTable` on a non-empty memtable: the file is placed at level 0 and
written in one go. -/
def writeTable (rt : Runtime) (s : Storage) (number : UInt64) (table : Table) : Storage :=
  (s.newTableFile rt number 0).finishTable number table

/-- `PosixEnv::DeleteFile` on a table file of one store; `deletePrimaryOnly`
is `hlsm::runtime::delete_primary_only` during the call. -/
def deleteFile (rt : Runtime) (s : Storage) (onSecondary : Bool) (number : UInt64)
    (deletePrimaryOnly : Bool) : Status × Storage :=
  let present := if onSecondary then s.secondary.contains number else s.primary.contains number
  if !present then (.ioError "No such file or directory", s)
  else
    let s := if onSecondary then { s with secondary := s.secondary.erase number }
      else { s with primary := s.primary.erase number }
    if isMirroredWrite rt s.mirror number true then
      let mirror := if deletePrimaryOnly then s.mirror else s.mirror.addDelete number
      (.ok, { s with mirror := mirror.removeTableLevel number })
    else (.ok, s)

/-- One table-file operation of `opq_helper`: `MDelete` unlinks the secondary
copy; `MCopyFile` copies a file the secondary store lacks and takes it out of
`moving_tables_`.  The copy is the argument of an `assert`, so a build with
`NDEBUG` never copies, and without `NDEBUG` a failed copy (no primary file)
aborts the program: `none`. -/
def helperStep (ndebug : Bool) (s : Storage) : Option Storage :=
  match s.mirror.opQueue with
  | [] => some s
  | .delete number :: rest =>
      some { s with secondary := s.secondary.erase number, mirror := { s.mirror with opQueue := rest } }
  | .copyFile number :: rest =>
      let mirror := { s.mirror with opQueue := rest, movingTables := s.mirror.movingTables.erase number }
      if s.secondary.contains number || ndebug then some { s with mirror := mirror }
      else if s.primary.contains number then
        some { s with secondary := s.secondary.insert number, mirror := mirror }
      else none

end Storage

end HLsm
