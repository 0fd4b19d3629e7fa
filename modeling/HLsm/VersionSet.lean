import HLsm.Builder
import HLsm.EditCodec

/-!
# `VersionSet::LogAndApply`, `WriteSnapshot`, `Recover`

`LogAndApply` folds one edit into the current versions and appends it to the
MANIFEST; the first call after opening creates a new MANIFEST that starts
with a snapshot of the state.  `Recover` reads the MANIFEST that `CURRENT`
names and folds all of its records through one builder.

The file system is reduced to what these functions touch: the MANIFEST files,
each with the records written to it, and the MANIFEST that `CURRENT` names.
The outcome of every file-system call `LogAndApply` makes is a parameter
(`ManifestIO`), so that every failure point can be taken.  A call that fails
writes nothing.  The log format of the MANIFEST (blocks, checksums) is below
this model: `Recover` reads back the records that were added.

`BasicVersionSet` and `LazyVersionSet` implement these functions with the same
code apart from the lazy version and the delta metadata; they are one
definition with a `lazy` switch.
-/

set_option autoImplicit false

namespace HLsm

open HLsm.Coding HLsm.Format

/-! ## The MANIFEST files -/

/-- The MANIFEST files by number, with the records written to each, and the
MANIFEST `CURRENT` names. -/
structure ManifestStore where
  manifests : List (UInt64 × List Bytes)
  current : Option UInt64
  deriving DecidableEq, Repr

namespace ManifestStore

def empty : ManifestStore := ⟨[], none⟩

/-- The records of MANIFEST `num`, if the file exists. -/
def records (store : ManifestStore) (num : UInt64) : Option (List Bytes) :=
  store.manifests.lookup num

/-- `NewWritableFile`: an empty file, replacing any file of that name. -/
def create (store : ManifestStore) (num : UInt64) : ManifestStore :=
  { store with manifests := (num, []) :: store.manifests.filter fun entry => entry.1 != num }

/-- `log::Writer::AddRecord` on MANIFEST `num`. -/
def append (store : ManifestStore) (num : UInt64) (record : Bytes) : ManifestStore :=
  { store with manifests := store.manifests.map fun entry =>
      if entry.1 == num then (entry.1, entry.2 ++ [record]) else entry }

/-- `Env::DeleteFile`. -/
def delete (store : ManifestStore) (num : UInt64) : ManifestStore :=
  { store with manifests := store.manifests.filter fun entry => entry.1 != num }

/-- `SetCurrentFile`. -/
def setCurrent (store : ManifestStore) (num : UInt64) : ManifestStore :=
  { store with current := some num }

@[simp] theorem delete_append (store : ManifestStore) (num : UInt64) (record : Bytes) :
    (store.append num record).delete num = store.delete num := by
  obtain ⟨manifests, current⟩ := store
  simp only [delete, append, mk.injEq, and_true, beq_iff_eq]
  induction manifests with
  | nil => rfl
  | cons entry rest ih =>
      by_cases same : entry.1 = num
      · simp [same, ih]
      · simp [same, ih]

@[simp] theorem delete_create (store : ManifestStore) (num : UInt64) :
    (store.create num).delete num = store.delete num := by
  simp [delete, create, List.filter_filter]

@[simp] theorem records_create (store : ManifestStore) (num : UInt64) :
    (store.create num).records num = some [] := by
  simp [records, create]

@[simp] theorem records_append (store : ManifestStore) (num : UInt64) (record : Bytes) :
    (store.append num record).records num = (store.records num).map (· ++ [record]) := by
  obtain ⟨manifests, current⟩ := store
  simp only [records, append, beq_iff_eq]
  induction manifests with
  | nil => rfl
  | cons entry rest ih =>
      by_cases same : entry.1 = num
      · simp [List.lookup, same]
      · have other : (num == entry.1) = false := by simpa using Ne.symm same
        simp [List.lookup, same, other, ih]

@[simp] theorem records_setCurrent (store : ManifestStore) (num other : UInt64) :
    (store.setCurrent num).records other = store.records other := rfl

@[simp] theorem current_create (store : ManifestStore) (num : UInt64) :
    (store.create num).current = store.current := rfl

@[simp] theorem current_append (store : ManifestStore) (num : UInt64) (record : Bytes) :
    (store.append num record).current = store.current := rfl

@[simp] theorem current_setCurrent (store : ManifestStore) (num : UInt64) :
    (store.setCurrent num).current = some num := rfl

end ManifestStore

/-- The status of each file-system call `LogAndApply` may make, in call order:
creating the new MANIFEST, adding the snapshot record, adding the edit's
record, syncing, and pointing `CURRENT` at the new MANIFEST. -/
structure ManifestIO where
  newWritableFile : Status
  addSnapshotRecord : Status
  addRecord : Status
  sync : Status
  setCurrentFile : Status
  deriving DecidableEq, Repr

def ManifestIO.allOk : ManifestIO := ⟨.ok, .ok, .ok, .ok, .ok⟩

namespace VersionSet

/-! ## File numbers -/

/-- `NewFileNumber`: the number handed out, and the set after it. -/
def newFileNumber (vset : VersionSet) : UInt64 × VersionSet :=
  (vset.nextFileNumber, { vset with nextFileNumber := vset.nextFileNumber + 1 })

def reuseFileNumber (vset : VersionSet) (fileNumber : UInt64) : VersionSet :=
  if vset.nextFileNumber = fileNumber + 1 then { vset with nextFileNumber := fileNumber } else vset

def markFileNumberUsed (vset : VersionSet) (number : UInt64) : VersionSet :=
  if vset.nextFileNumber ≤ number then { vset with nextFileNumber := number + 1 } else vset

/-! ## The snapshot -/

/-- The edit `WriteSnapshot` encodes: the comparator name, the non-empty
compaction pointers, for a lazy set the delta metadata, and every file of the
current versions. -/
def snapshotEdit (lazy : Bool) (vset : VersionSet) : VersionEdit :=
  let e := VersionEdit.empty.setComparatorName vset.userComparatorName
  let e := (List.range kNumLevels).foldl
    (fun e level =>
      let pointer := vset.compactPointer.getD level []
      if pointer.isEmpty then e else e.setCompactPointer level (InternalKey.decodeFrom pointer))
    e
  let e := if lazy then e.setDeltaLevels vset.deltaMeta else e
  let e := (List.range kNumLevels).foldl
    (fun e level => (vset.current.levelFiles level).foldl
      (fun e f => e.addFile level f.number f.fileSize f.smallest f.largest) e)
    e
  if lazy then
    (List.range kNumLazyLevels).foldl
      (fun e level => (vset.currentLazy.levelFiles level).foldl
        (fun e f => e.addLazyFile level f.number f.fileSize f.smallest f.largest) e)
      e
  else e

/-- `WriteSnapshot`'s record. -/
def writeSnapshot (lazy : Bool) (vset : VersionSet) : Bytes :=
  (snapshotEdit lazy vset).encodeWith lazy []

/-! ## `LogAndApply` -/

/-- The counters `LogAndApply` writes into the edit before applying it. -/
def prepareEdit (vset : VersionSet) (edit : VersionEdit) : VersionEdit :=
  let edit := if edit.logNumber.isSome then edit else edit.setLogNumber vset.logNumber
  let edit := if edit.prevLogNumber.isSome then edit else edit.setPrevLogNumber vset.prevLogNumber
  (edit.setNextFile vset.nextFileNumber).setLastSequence vset.lastSequence

theorem prepareEdit_eq (vset : VersionSet) (edit : VersionEdit) :
    vset.prepareEdit edit =
      { edit with
        logNumber := some (edit.logNumber.getD vset.logNumber)
        prevLogNumber := some (edit.prevLogNumber.getD vset.prevLogNumber)
        nextFileNumber := some vset.nextFileNumber
        lastSequence := some vset.lastSequence } := by
  cases edit
  rename_i logNumber prevLogNumber _ _ _ _ _ _ _ _ _ _
  cases logNumber <;> cases prevLogNumber <;> rfl

section PrepareEdit

variable (vset : VersionSet) (edit : VersionEdit)

@[simp] theorem prepareEdit_comparator : (vset.prepareEdit edit).comparator = edit.comparator := by
  rw [prepareEdit_eq]

@[simp] theorem prepareEdit_compactPointers :
    (vset.prepareEdit edit).compactPointers = edit.compactPointers := by
  rw [prepareEdit_eq]

@[simp] theorem prepareEdit_deltaMeta : (vset.prepareEdit edit).deltaMeta = edit.deltaMeta := by
  rw [prepareEdit_eq]

@[simp] theorem prepareEdit_newFiles : (vset.prepareEdit edit).newFiles = edit.newFiles := by
  rw [prepareEdit_eq]

@[simp] theorem prepareEdit_newFilesLazy :
    (vset.prepareEdit edit).newFilesLazy = edit.newFilesLazy := by
  rw [prepareEdit_eq]

@[simp] theorem prepareEdit_deletedFiles :
    (vset.prepareEdit edit).deletedFiles = edit.deletedFiles := by
  rw [prepareEdit_eq]

@[simp] theorem prepareEdit_deletedFilesLazy :
    (vset.prepareEdit edit).deletedFilesLazy = edit.deletedFilesLazy := by
  rw [prepareEdit_eq]

@[simp] theorem prepareEdit_logNumber :
    (vset.prepareEdit edit).logNumber = some (edit.logNumber.getD vset.logNumber) := by
  rw [prepareEdit_eq]

@[simp] theorem prepareEdit_prevLogNumber :
    (vset.prepareEdit edit).prevLogNumber = some (edit.prevLogNumber.getD vset.prevLogNumber) := by
  rw [prepareEdit_eq]

@[simp] theorem prepareEdit_nextFileNumber :
    (vset.prepareEdit edit).nextFileNumber = some vset.nextFileNumber := by
  rw [prepareEdit_eq]

@[simp] theorem prepareEdit_lastSequence :
    (vset.prepareEdit edit).lastSequence = some vset.lastSequence := by
  rw [prepareEdit_eq]

end PrepareEdit

def openManifest (lazy : Bool) (io : ManifestIO) (vset : VersionSet) (store : ManifestStore) :
    Status × VersionSet × ManifestStore × Bool :=
  match vset.descriptorLog with
  | some _ => (.ok, vset, store, false)
  | none =>
      let num := vset.manifestFileNumber
      match io.newWritableFile with
      | .ok =>
          let vset := { vset with descriptorLog := some num }
          let store := store.create num
          match io.addSnapshotRecord with
          | .ok => (.ok, vset, store.append num (writeSnapshot lazy vset), true)
          | s => (s, vset, store, true)
      | s => (s, vset, store, true)

/-- The edit's record on the open MANIFEST, then `Sync`. -/
def writeRecord (lazy : Bool) (io : ManifestIO) (num : UInt64) (edit : VersionEdit)
    (store : ManifestStore) : Status × ManifestStore :=
  match io.addRecord with
  | .ok => (io.sync, store.append num (edit.encodeWith lazy []))
  | s => (s, store)

/-- The writes of `LogAndApply`: a new MANIFEST on the first call, the edit's
record, and `CURRENT` for a new MANIFEST.  The status, the set (with its
descriptor), the files, and whether a new MANIFEST was started. -/
def writeManifest (lazy : Bool) (io : ManifestIO) (vset : VersionSet) (store : ManifestStore)
    (edit : VersionEdit) : Status × VersionSet × ManifestStore × Bool :=
  let (s, vset, store, newManifest) := openManifest lazy io vset store
  let num := vset.descriptorLog.getD vset.manifestFileNumber
  let (s, store) := if s.isOk then writeRecord lazy io num edit store else (s, store)
  let s := if s.isOk && newManifest then io.setCurrentFile else s
  let store := if s.isOk && newManifest then store.setCurrent num else store
  (s, vset, store, newManifest)

/-- `LogAndApply`: the status, the version set and the MANIFEST files after
it.  The new versions are installed only when every write succeeded; a new
MANIFEST is closed and deleted when one failed. -/
def logAndApply (lazy : Bool) (rt : Runtime) (io : ManifestIO) (vset : VersionSet)
    (store : ManifestStore) (edit : VersionEdit) : Status × VersionSet × ManifestStore :=
  let edit := vset.prepareEdit edit
  let (vset, builder) := Builder.apply lazy rt vset (Builder.new lazy vset.current vset.currentLazy) edit
  let (s, vset, store, newManifest) := writeManifest lazy io vset store edit
  if s.isOk then
    (s, { vset with
          current := finalize rt builder.saveTo
          currentLazy := if lazy then builder.saveToLazy else vset.currentLazy
          logNumber := edit.logNumber.getD vset.logNumber
          prevLogNumber := edit.prevLogNumber.getD vset.prevLogNumber }, store)
  else if newManifest then
    (s, { vset with descriptorLog := none }, store.delete vset.manifestFileNumber)
  else (s, vset, store)

end VersionSet

def BasicVersionSet.logAndApply (rt : Runtime) (io : ManifestIO) (vset : VersionSet)
    (store : ManifestStore) (edit : VersionEdit) : Status × VersionSet × ManifestStore :=
  VersionSet.logAndApply false rt io vset store edit

def LazyVersionSet.logAndApply (rt : Runtime) (io : ManifestIO) (vset : VersionSet)
    (store : ManifestStore) (edit : VersionEdit) : Status × VersionSet × ManifestStore :=
  VersionSet.logAndApply true rt io vset store edit

/-! ## `Recover` -/

/-- What `Recover` has read so far: the status, the version set (which
`Builder::Apply` writes into), the builder, and the last value of each counter
seen in a record. -/
structure RecoverState where
  status : Status
  vset : VersionSet
  builder : Builder
  logNumber : Option UInt64
  prevLogNumber : Option UInt64
  nextFile : Option UInt64
  lastSequence : Option SequenceNumber

def RecoverState.start (lazy : Bool) (vset : VersionSet) : RecoverState :=
  ⟨.ok, vset, Builder.new lazy vset.current vset.currentLazy, none, none, none, none⟩

/-- A decoded record that passed the comparator check: `builder.Apply (&edit)`,
and the counters it carries. -/
def RecoverState.applyEdit (lazy : Bool) (rt : Runtime) (st : RecoverState) (edit : VersionEdit) :
    RecoverState :=
  let (vset, builder) := Builder.apply lazy rt st.vset st.builder edit
  { st with
    vset := vset
    builder := builder
    logNumber := edit.logNumber.or st.logNumber
    prevLogNumber := edit.prevLogNumber.or st.prevLogNumber
    nextFile := edit.nextFileNumber.or st.nextFile
    lastSequence := edit.lastSequence.or st.lastSequence }

namespace VersionSet

/-- One record of the MANIFEST; `none` where decoding it writes a delta meta out
of bounds.  The counters a failed record carries are not kept: after a failure
`Recover` returns without reading them. -/
def recoverRecord (lazy : Bool) (rt : Runtime) (st : RecoverState) (record : Bytes) :
    Option RecoverState :=
  match VersionEdit.decodeWith lazy VersionEdit.empty record with
  | .outOfBounds _ => none
  | .corrupt msg => some { st with status := .corruption ("VersionEdit: " ++ msg) }
  | .decoded edit =>
      match edit.comparator with
      | some name =>
          if name ≠ st.vset.userComparatorName then
            some { st with status := .invalidArgument " does not match existing comparator " }
          else some (st.applyEdit lazy rt edit)
      | none => some (st.applyEdit lazy rt edit)

def recoverRecords (lazy : Bool) (rt : Runtime) : RecoverState → List Bytes → Option RecoverState
  | st, [] => some st
  | st, record :: rest =>
      if st.status.isOk then
        match recoverRecord lazy rt st record with
        | some st => recoverRecords lazy rt st rest
        | none => none
      else some st

def finishRecover (rt : Runtime) (st : RecoverState) : Status × VersionSet :=
  if st.status.isOk then
    let s : Status :=
      match st.nextFile, st.logNumber, st.lastSequence with
      | none, _, _ => .corruption "no meta-nextfile entry in descriptor"
      | some _, none, _ => .corruption "no meta-lognumber entry in descriptor"
      | some _, some _, none => .corruption "no last-sequence-number entry in descriptor"
      | some _, some _, some _ => .ok
    let prevLogNumber := st.prevLogNumber.getD 0
    let logNumber := st.logNumber.getD 0
    let vset := (st.vset.markFileNumberUsed prevLogNumber).markFileNumberUsed logNumber
    if s.isOk then
      let nextFile := st.nextFile.getD 0
      (s, { vset with
            current := finalize rt st.builder.saveTo
            currentLazy := if st.builder.lazyLevels.isEmpty then vset.currentLazy
              else st.builder.saveToLazy
            manifestFileNumber := nextFile
            nextFileNumber := nextFile + 1
            lastSequence := st.lastSequence.getD 0
            logNumber := logNumber
            prevLogNumber := prevLogNumber })
    else (s, vset)
  else (st.status, st.vset)

/-- `Recover`: `none` where a record writes a delta meta out of bounds. -/
def recover (lazy : Bool) (rt : Runtime) (vset : VersionSet) (store : ManifestStore) :
    Option (Status × VersionSet) :=
  match store.current with
  | none => some (.ioError "CURRENT: No such file or directory", vset)
  | some num =>
      match store.records num with
      | none => some (.ioError "MANIFEST: No such file or directory", vset)
      | some records =>
          (recoverRecords lazy rt (RecoverState.start lazy vset) records).map (finishRecover rt)

end VersionSet

def BasicVersionSet.recover (rt : Runtime) (vset : VersionSet) (store : ManifestStore) :
    Option (Status × VersionSet) :=
  VersionSet.recover false rt vset store

def LazyVersionSet.recover (rt : Runtime) (vset : VersionSet) (store : ManifestStore) :
    Option (Status × VersionSet) :=
  VersionSet.recover true rt vset store

end HLsm
