import HLsm.CompactionWork

/-! # `DBImpl` as a state machine

The database is the version set, the MANIFEST files, the memtables, the table
files on both stores, and the flags the background thread works from.  The
threads that change it (writers, readers, the caller of a manual compaction,
the background compaction thread and the helper thread) each take their turn
as one `Action`; `step` runs one under the mutex, and `none` is a turn that
cannot be taken now (a writer or a manual compaction that would wait, a
background call that is not scheduled) or that never returns.

Every call of the background thread runs to completion in one turn: a
compaction's loop gives the mutex up only to compact the immutable memtable,
and none is pending while a compaction runs.  I/O never fails in the model;
the statuses the code propagates are still modelled where a read can miss a
table file.
-/

set_option autoImplicit false

namespace HLsm

open HLsm.Coding HLsm.Format

def DBMode.ishLSM : DBMode → Bool
  | .hLSM => true
  | _ => false

/-- What a run of the database is parameterised by: the run-time switches, the
sizes the model does not compute, and whether the build defines `NDEBUG`. -/
structure Config where
  rt : Runtime
  sizes : Sizes
  ndebug : Bool

/-- `ManualCompaction`: the level and the range left to compact. -/
structure ManualCompaction where
  level : Nat
  begin : Option InternalKey
  «end» : Option InternalKey
  deriving DecidableEq, Repr

/-- The fields of `DBImpl` the modelled functions read or write. -/
structure DB where
  versions : VersionSet
  store : ManifestStore
  mem : MemTable
  imm : Option MemTable
  logfileNumber : UInt64
  pendingOutputs : List UInt64
  bgError : Status
  bgCompactionScheduled : Bool
  manualCompaction : Option ManualCompaction
  storage : Storage
  deriving DecidableEq, Repr

namespace DB

variable (cfg : Config)

/-- The version set is a `LazyVersionSet`, and `CALL_IF_HLSM` calls run. -/
def lazy : Bool := cfg.rt.mode.ishLSM

/-- `NewVersionEdit (versions_)`: in hLSM mode the edit starts from the set's
delta metadata. -/
def newVersionEdit (vset : VersionSet) : VersionEdit :=
  if lazy cfg then VersionEdit.empty.setDeltaLevels vset.deltaMeta else VersionEdit.empty

/-- `versions_->LogAndApply (edit, &mutex_)`. -/
def logAndApply (db : DB) (edit : VersionEdit) : Status × DB :=
  let (s, vset, store) := VersionSet.logAndApply (lazy cfg) cfg.rt .allOk db.versions db.store edit
  (s, { db with versions := vset, store := store })

/-- `RecordBackgroundError`: the first error sticks. -/
def recordBackgroundError (db : DB) (s : Status) : DB :=
  if db.bgError.isOk then { db with bgError := s } else db

def maybeScheduleCompaction (db : DB) : DB :=
  if db.bgCompactionScheduled then db
  else if !db.bgError.isOk then db
  else if db.imm.isNone && db.manualCompaction.isNone && !db.versions.needsCompaction then db
  else { db with bgCompactionScheduled := true }

/-! ## Deleting obsolete files -/

/-- `AddLiveFiles` with `pending_outputs_`: the versions other than the current
one live only as long as an iterator holds them, and no iterator is modelled. -/
def liveFiles (db : DB) : List UInt64 :=
  db.pendingOutputs ++ db.versions.current.files.flatten.map FileMetaData.number

/-- `AddLiveLazyFiles` with `moving_tables_`. -/
def liveLazyFiles (db : DB) : List UInt64 :=
  db.storage.mirror.movingTables ++ db.versions.currentLazy.files.flatten.map FileMetaData.number

/-- `BasicDeleteObsoleteFiles` on the table files. -/
def basicDeleteObsoleteFiles (rt : Runtime) (db : DB) : DB :=
  if !db.bgError.isOk then db
  else
    let live := liveFiles db
    let storage := db.storage.primary.foldl
      (fun s number => if live.contains number then s else (s.deleteFile rt false number false).2)
      db.storage
    { db with storage := storage }

/-- `HLSMDeleteObsoleteFiles` on the table files: a primary file that is not
live goes unless a copy is under way, and only its primary copy goes when the
lazy version still uses it; a secondary file goes when neither version uses it. -/
def hlsmDeleteObsoleteFiles (rt : Runtime) (db : DB) : DB :=
  if !db.bgError.isOk then db
  else
    let live := liveFiles db
    let lazyLive := liveLazyFiles db
    let onTheFly := db.storage.mirror.movingTables
    let storage := db.storage.primary.foldl
      (fun s number =>
        if live.contains number || onTheFly.contains number then s
        else (s.deleteFile rt false number (lazyLive.contains number)).2)
      db.storage
    let storage := storage.secondary.foldl
      (fun s number =>
        if lazyLive.contains number || live.contains number then s
        else (s.deleteFile rt true number false).2)
      storage
    { db with storage := storage }

/-- `DeleteObsoleteFiles`, with the run-time switches the caller has set. -/
def deleteObsoleteFiles (rt : Runtime) (db : DB) : DB :=
  if rt.mode.ishLSM then hlsmDeleteObsoleteFiles rt db else basicDeleteObsoleteFiles rt db

/-! ## Flushing the memtable -/

/-- `WriteLevel0Table`: the memtable becomes a table file, added to the level
`PickLevelForMemTableOutput` chooses (and in hLSM mode to the same lazy
level) unless it came out empty. -/
def writeLevel0Table (mem : MemTable) (edit : VersionEdit) (db : DB) : VersionEdit × DB :=
  let (number, vset) := db.versions.newFileNumber
  let db := { db with versions := vset }
  match mem.entries.head?, mem.entries.getLast? with
  | some first, some last =>
      let db := { db with storage := db.storage.writeTable cfg.rt number mem.entries }
      let fileSize := cfg.sizes.tableSize mem.entries
      if fileSize > 0 then
        let level := db.versions.current.pickLevelForMemTableOutput cfg.rt first.1.userKey last.1.userKey
        let edit := edit.addFile level number (UInt64.ofNat fileSize) first.1 last.1
        let edit :=
          if lazy cfg then edit.addLazyFile level number (UInt64.ofNat fileSize) first.1 last.1 else edit
        (edit, db)
      else (edit, db)
  | _, _ => (edit, db)

def compactMemTable (db : DB) : DB :=
  match db.imm with
  | none => db
  | some imm =>
      let (edit, db) := writeLevel0Table cfg imm (newVersionEdit cfg db.versions) db
      let edit := (edit.setPrevLogNumber 0).setLogNumber db.logfileNumber
      let (s, db) := logAndApply cfg db edit
      if s.isOk then deleteObsoleteFiles cfg.rt { db with imm := none }
      else recordBackgroundError db s

/-! ## Writing -/

/-- The loop of `MakeRoomForWrite`: `none` where the writer waits for the
background thread.  The slowdown branch only sleeps, so it is left out. -/
def makeRoomLoop : Nat → Bool → DB → Option (Status × DB)
  | 0, _, _ => none
  | fuel + 1, force, db =>
      if !db.bgError.isOk then some (db.bgError, db)
      else if !force && cfg.sizes.memUsage db.mem ≤ cfg.sizes.writeBufferSize then some (.ok, db)
      else if db.imm.isSome then none
      else if db.versions.current.numFiles 0 ≥ cfg.rt.l0StopWritesTrigger then none
      else
        -- switch to a new memtable and log file
        let (newLogNumber, vset) := db.versions.newFileNumber
        let db := { db with versions := vset, logfileNumber := newLogNumber, imm := some db.mem,
                            mem := MemTable.empty }
        makeRoomLoop fuel false (maybeScheduleCompaction db)

/-- `MakeRoomForWrite (force)`: after a switch the loop ends on its next turn. -/
def makeRoomForWrite (force : Bool) (db : DB) : Option (Status × DB) :=
  makeRoomLoop cfg 2 force db

/-- `DBImpl::Write`: a `NULL` batch only makes room, forcing a switch. -/
def write (batch : Option (List BatchOp)) (db : DB) : Option (Status × DB) :=
  (makeRoomForWrite cfg batch.isNone db).map fun (s, db) =>
    match batch with
    | some ops =>
        if s.isOk then
          let last := db.versions.lastSequence
          (s, { db with
                mem := insertInto db.mem (last + 1) ops
                versions := { db.versions with lastSequence := last + UInt64.ofNat ops.length } })
        else (s, db)
    | none => (s, db)

/-! ## Reading -/

def readsLazy : Bool := lazy cfg && !cfg.rt.readFromPrimary false

/-- `current->UpdateStats (stats)` with the stats of the version that served
the read: the charged file object is the one of that version, the seek
nomination is `current_`'s. -/
def updateStats (stats : GetStats) (db : DB) : DB :=
  match stats.seekFile with
  | none => db
  | some (level, number) =>
      let owner := if readsLazy cfg then db.versions.currentLazy else db.versions.current
      match owner.findSeekFile level number with
      | none => db
      | some f =>
          let (f, current, nominated) := db.versions.current.updateStats level f
          let versions :=
            if readsLazy cfg then
              { db.versions with current := current,
                                 currentLazy := db.versions.currentLazy.replaceFile level f }
            else { db.versions with current := current.replaceFile level f }
          let db := { db with versions := versions }
          if nominated then maybeScheduleCompaction db else db

/-- `DBImpl::Get` at the latest sequence number: the memtable, the immutable
memtable, then the version. -/
def get (key : Bytes) (db : DB) : (Status × Option Bytes) × DB :=
  let snapshot := db.versions.lastSequence
  match db.mem.get key snapshot with
  | some found => (found, db)
  | none =>
      match db.imm.bind fun imm => imm.get key snapshot with
      | some found => (found, db)
      | none =>
          let v := if readsLazy cfg then db.versions.currentLazy else db.versions.current
          let result := v.get db.storage.read key snapshot
          ((result.status, result.value), updateStats cfg result.stats db)

/-! ## Background compactions -/

/-- `MoveFileDown` of the set's kind, then `LogAndApply`. -/
def moveFileDown (db : DB) (c : Compaction) : Status × DB :=
  let (edit, mirror) :=
    if lazy cfg then LazyVersionSet.moveFileDownEdit cfg.rt db.versions c db.storage.mirror
    else BasicVersionSet.moveFileDownEdit cfg.rt c db.storage.mirror
  logAndApply cfg { db with storage := { db.storage with mirror := mirror } } edit

/-- `MoveLevelDown` of the set's kind, then `LogAndApply`. -/
def moveLevelDown (db : DB) (c : Compaction) : Option (Status × DB) :=
  let moved :=
    if lazy cfg then LazyVersionSet.moveLevelDownEdit cfg.rt db.versions c db.storage.mirror
    else some (BasicVersionSet.moveLevelDownEdit cfg.rt db.versions c db.storage.mirror)
  moved.map fun (edit, mirror) =>
    logAndApply cfg { db with storage := { db.storage with mirror := mirror } } edit

/-- `DoCompactionWork` with `InstallCompactionResults`, then
`CleanupCompaction`: the status, and the state with the outputs no longer
pending. -/
def doCompactionWork (db : DB) (c : Compaction) : Status × DB :=
  let (s, w) := doCompactionLoop cfg.sizes cfg.rt c db.versions db.pendingOutputs db.storage
  let db := { db with versions := w.vset, pendingOutputs := w.pendingOutputs, storage := w.storage }
  let (s, db) :=
    if s.isOk then
      let (edit, mirror) := compactionResultsEdit cfg.rt (lazy cfg) c db.versions w.outputs db.storage.mirror
      logAndApply cfg { db with storage := { db.storage with mirror := mirror } } edit
    else (s, db)
  let db := if s.isOk then db else recordBackgroundError db s
  (s, { db with pendingOutputs := db.pendingOutputs.filter fun n => !(w.outputs.map (·.number)).contains n })

/-- `PickCompaction` of the set's kind. -/
def pickCompaction (vset : VersionSet) : VersionSet × Option Compaction :=
  if lazy cfg then LazyVersionSet.pickCompaction vset else vset.pickCompaction

/-- Run the compaction `BackgroundCompaction` chose: a trivial move, a whole
level move, or a merge (always a merge for a manual compaction). -/
def runCompaction (isManual : Bool) (db : DB) (c : Compaction) : Option (Status × DB) :=
  if !isManual && c.isTrivialMove && cfg.rt.isTrivialMove c.level then
    let (s, db) := moveFileDown cfg db c
    some (s, if s.isOk then db else recordBackgroundError db s)
  else if !isManual && cfg.rt.isWholeLevelMove c.level then
    (moveLevelDown cfg db c).map fun (s, db) => (s, if s.isOk then db else recordBackgroundError db s)
  else
    let (s, db) := doCompactionWork cfg db c
    some (s, deleteObsoleteFiles cfg.rt db)

/-- `BackgroundCompaction`: the immutable memtable first, then the manual
compaction, then what `PickCompaction` chooses.  A manual compaction is
cleared after one turn; its caller asks again for the range left. -/
def backgroundCompaction (db : DB) : Option DB :=
  if db.imm.isSome then some (compactMemTable cfg db)
  else
    let (vset, picked) :=
      match db.manualCompaction with
      | some m => db.versions.compactRange m.level m.begin m.«end»
      | none => pickCompaction cfg db.versions
    let db := { db with versions := vset }
    let ran :=
      match picked with
      | none => some (Status.ok, db)
      | some c => runCompaction cfg db.manualCompaction.isSome db c
    ran.map fun (_, db) => { db with manualCompaction := none }

def backgroundCall (db : DB) : Option DB :=
  let ran := if db.bgError.isOk then backgroundCompaction cfg db else some db
  ran.map fun db => maybeScheduleCompaction { db with bgCompactionScheduled := false }

/-- `AdvanceHLSMActiveDeltaLevel (level)`, which the `db_gen` tool calls: a new
delta sub-level is opened for the logical level of `level`. -/
def advanceHLSMActiveDeltaLevel (level : Nat) (db : DB) : DB :=
  if !lazy cfg then db
  else
    let edit := (newVersionEdit cfg db.versions).advanceActiveDeltaLevel (getLogicalLevel level)
    (logAndApply cfg db ((edit.setPrevLogNumber 0).setLogNumber db.logfileNumber)).2

/-! ## Opening -/

/-- `NewDB`'s MANIFEST: one record, named by `CURRENT`. -/
def newDB (name : Bytes) : ManifestStore :=
  let newDb := (((VersionEdit.empty.setComparatorName name).setLogNumber 0).setNextFile 2).setLastSequence 0
  ((ManifestStore.empty.create 1).append 1 (newDb.encodeWith (lazy cfg) [])).setCurrent 1

/-- `DB::Open` on a directory with no database, with a comparator called
`name`: `NewDB`, `Recover`, a new log file named by a first `LogAndApply`,
then `DeleteObsoleteFiles` with `mirror_start_level = -1`. -/
def «open» (name : Bytes) : Option DB := do
  let store := newDB cfg name
  let (s, vset) ← VersionSet.recover (lazy cfg) cfg.rt (VersionSet.new name) store
  if !s.isOk then none
  let edit := newVersionEdit cfg vset
  let (newLogNumber, vset) := vset.newFileNumber
  let (s, vset, store) :=
    VersionSet.logAndApply (lazy cfg) cfg.rt .allOk vset store (edit.setLogNumber newLogNumber)
  if !s.isOk then none
  let db : DB := ⟨vset, store, MemTable.empty, none, newLogNumber, [], .ok, false, none, Storage.empty⟩
  some (maybeScheduleCompaction (deleteObsoleteFiles { cfg.rt with mirrorStartLevel := -1 } db))

/-! ## Turns -/

/-- A turn of one of the threads. -/
inductive Action where
  /-- `DB::Write`; `none` is the `NULL` batch of `TEST_CompactMemTable`. -/
  | write (batch : Option (List BatchOp))
  | get (key : Bytes)
  /-- `TEST_CompactRange` installing its request. -/
  | compactRange (level : Nat) (begin «end» : Option InternalKey)
  | backgroundCall
  /-- The helper thread runs the first queued table-file operation. -/
  | helper
  | advanceDeltaLevel (level : Nat)
  deriving DecidableEq, Repr

/-- One turn: `none` when the thread cannot take it now, or never returns. -/
def step (db : DB) : Action → Option DB
  | .write batch => (write cfg batch db).map Prod.snd
  | .get key => some (get cfg key db).2
  | .compactRange level begin «end» =>
      if !db.bgError.isOk then some db
      else if db.manualCompaction.isSome then none
      else some (maybeScheduleCompaction { db with manualCompaction := some ⟨level, begin, «end»⟩ })
  | .backgroundCall => if db.bgCompactionScheduled then backgroundCall cfg db else none
  | .helper => (db.storage.helperStep cfg.ndebug).map fun storage => { db with storage := storage }
  | .advanceDeltaLevel level => some (advanceHLSMActiveDeltaLevel cfg level db)

def run (db : DB) : List Action → Option DB
  | [] => some db
  | a :: rest => (step cfg db a).bind fun db => run db rest

/-- The states a database opened with comparator `name` can reach. -/
inductive Reachable (name : Bytes) : DB → Prop where
  | opened {db : DB} : «open» cfg name = some db → Reachable name db
  | step {db db' : DB} (a : Action) : Reachable name db → step cfg db a = some db' → Reachable name db'

theorem run_append (db : DB) (first later : List Action) :
    run cfg db (first ++ later) = (run cfg db first).bind fun db => run cfg db later := by
  induction first generalizing db with
  | nil => rfl
  | cons a rest ih =>
      simp only [List.cons_append, run]
      cases step cfg db a with
      | none => rfl
      | some db => exact ih db

theorem Reachable.run {name : Bytes} {db : DB} (reach : Reachable cfg name db) :
    ∀ {actions : List Action} {db' : DB}, DB.run cfg db actions = some db' → Reachable cfg name db'
  | [], _, ran => by
      cases ran
      exact reach
  | a :: rest, db', ran => by
      simp only [DB.run] at ran
      cases stepped : DB.step cfg db a with
      | none => simp [stepped] at ran
      | some mid =>
          rw [stepped, Option.bind_some] at ran
          exact (reach.step a stepped).run ran

theorem reachable_of_run {name : Bytes} {actions : List Action} {db : DB}
    (ran : ((«open» cfg name).bind fun db => run cfg db actions) = some db) : Reachable cfg name db := by
  cases opened : «open» cfg name with
  | none => simp [opened] at ran
  | some first =>
      rw [opened, Option.bind_some] at ran
      exact Reachable.run cfg (Reachable.opened opened) ran

end DB

end HLsm
