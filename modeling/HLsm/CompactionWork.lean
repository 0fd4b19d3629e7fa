import HLsm.LazyLevels
import HLsm.MemTable
import HLsm.Lib.KMerge

/-! # `DoCompactionWork` and `InstallCompactionResults` (`db/db_impl.cc`)

A compaction merges the entries of its input files in internal-key order
(`MakeInputIterator`: one child per level-0 file, one concatenation per other
input level) and writes what it keeps to new tables of `level + 1`.  An entry
is dropped when a newer entry of the same user key at or below the smallest
snapshot precedes it (rule (A)), or when it is a deletion at or below the
snapshot and no level below the output level may hold the key
(`IsBaseLevelForKey`).  An output file is closed when the next key would make
it overlap too much grandparent data (`ShouldStopBefore`) and when it reaches
`MaxOutputFileSize`.

The sizes of tables being built and of memtables are not computed by the
model: they come from `Sizes`.  With no snapshot modelled, the smallest
snapshot is `LastSequence ()`.  The immutable memtable is never pending while
a compaction runs, since `BackgroundCompaction` compacts it first.
-/

set_option autoImplicit false

namespace HLsm

open HLsm.Coding HLsm.Format

/-- What the model does not compute: `TableBuilder::FileSize` after the given
entries, `MemTable::ApproximateMemoryUsage`, and `options_.write_buffer_size`. -/
structure Sizes where
  tableSize : Table → Nat
  memUsage : MemTable → Nat
  writeBufferSize : Nat

/-- `CompactionState` with the iteration state the `Compaction` keeps
(`grandparent_index_`, `seen_key_`, `overlapped_bytes_`, `level_ptrs_`), the
loop's key tracking, and the parts of the database the loop changes. -/
structure WorkState where
  /-- The finished outputs, in order. -/
  outputs : List CompactionOutput
  /-- The output being built (`builder != NULL`) and the entries added to it. -/
  current : Option (CompactionOutput × Table)
  totalBytes : Nat
  grandparentIndex : Nat
  seenKey : Bool
  overlappedBytes : Nat
  levelPtrs : List Nat
  hasCurrentUserKey : Bool
  currentUserKey : Bytes
  lastSequenceForKey : SequenceNumber
  vset : VersionSet
  pendingOutputs : List UInt64
  storage : Storage

namespace WorkState

/-- The state at `input->SeekToFirst ()`. -/
def start (vset : VersionSet) (pendingOutputs : List UInt64) (storage : Storage) : WorkState :=
  ⟨[], none, 0, 0, false, 0, List.replicate kNumLevels 0, false, [], kMaxSequenceNumber, vset,
    pendingOutputs, storage⟩

end WorkState

/-! ## The input iterator -/

/-- The tables of the files, in order, and the first error opening one; a file
that cannot be opened contributes nothing (`TwoLevelIterator` skips it). -/
def readTables (storage : Storage) (files : List FileMetaData) : List Table × Option Status :=
  files.foldl
    (fun (acc : List Table × Option Status) f =>
      match storage.read f.number with
      | .ok table => (acc.1 ++ [table], acc.2)
      | .error s => (acc.1 ++ [[]], acc.2 <|> some s))
    ([], none)

/-- `MakeInputIterator`'s children: every level-0 file on its own, the files of
any other input level concatenated. -/
def inputChildren (storage : Storage) (c : Compaction) : List Table × Option Status :=
  let (tables0, error0) := readTables storage c.inputs0
  let (tables1, error1) := readTables storage c.inputs1
  let children0 := if c.inputs0.isEmpty then [] else if c.level = 0 then tables0 else [tables0.flatten]
  let children1 := if c.inputs1.isEmpty then [] else [tables1.flatten]
  (children0 ++ children1, error0 <|> error1)

/-- `NewMergingIterator` over the children, in internal-key order. -/
def mergeInputs (children : List Table) : Table :=
  KMerge.merge entryOrder children

/-! ## The compaction's iteration state -/

/-- The loop of `ShouldStopBefore` over the grandparents from the current
index: the new index and overlap. -/
def advanceGrandparents (key : Bytes) (seenKey : Bool) :
    List FileMetaData → Nat → Nat → Nat × Nat
  | [], index, overlapped => (index, overlapped)
  | g :: rest, index, overlapped =>
      if internalCompare key g.largest.encode == .gt then
        advanceGrandparents key seenKey rest (index + 1)
          (if seenKey then overlapped + g.fileSize.toNat else overlapped)
      else (index, overlapped)

def shouldStopBefore (c : Compaction) (key : Bytes) (w : WorkState) : Bool × WorkState :=
  let (index, overlapped) :=
    advanceGrandparents key w.seenKey (c.grandparents.drop w.grandparentIndex) w.grandparentIndex
      w.overlappedBytes
  let w := { w with grandparentIndex := index, seenKey := true, overlappedBytes := overlapped }
  if overlapped > kMaxGrandParentOverlapBytes then (true, { w with overlappedBytes := 0 })
  else (false, w)

/-- The inner loop of `IsBaseLevelForKey` on one level, from the level's
pointer: the new pointer, and whether the key falls in the file it stops at. -/
def scanLevel (userKey : Bytes) : List FileMetaData → Nat → Nat × Bool
  | [], ptr => (ptr, false)
  | f :: rest, ptr =>
      if bytewiseCompare userKey f.largest.userKey != .gt then
        (ptr, bytewiseCompare userKey f.smallest.userKey != .lt)
      else scanLevel userKey rest (ptr + 1)

/-- The outer loop of `IsBaseLevelForKey` over the given levels. -/
def isBaseLevelLoop (v : Version) (userKey : Bytes) : List Nat → List Nat → Bool × List Nat
  | [], ptrs => (true, ptrs)
  | lvl :: rest, ptrs =>
      let ptr := ptrs.getD lvl 0
      let (ptr, inFile) := scanLevel userKey ((v.levelFiles lvl).drop ptr) ptr
      let ptrs := ptrs.set lvl ptr
      if inFile then (false, ptrs) else isBaseLevelLoop v userKey rest ptrs

/-- `Compaction::IsBaseLevelForKey`: no level from `level + 2` down may hold
the key. -/
def isBaseLevelForKey (c : Compaction) (userKey : Bytes) (ptrs : List Nat) : Bool × List Nat :=
  isBaseLevelLoop c.inputVersion userKey (List.range' (c.level + 2) (kNumLevels - (c.level + 2))) ptrs

/-! ## Output files -/

/-- `OpenCompactionOutputFile`: a new file number, kept in `pending_outputs_`,
placed at `level + 1` and created. -/
def openCompactionOutputFile (rt : Runtime) (c : Compaction) (w : WorkState) : WorkState :=
  let (number, vset) := w.vset.newFileNumber
  { w with
    vset := vset
    pendingOutputs := w.pendingOutputs.insert number
    current := some (⟨number, 0, ⟨[]⟩, ⟨[]⟩⟩, [])
    storage := w.storage.newTableFile rt number (c.level + 1 : Nat) }

/-- `FinishCompactionOutputFile`: the output gets its size and contents. -/
def finishCompactionOutputFile (sizes : Sizes) (w : WorkState) : WorkState :=
  match w.current with
  | none => w
  | some (out, entries) =>
      let size := sizes.tableSize entries
      { w with
        outputs := w.outputs ++ [{ out with fileSize := UInt64.ofNat size }]
        current := none
        totalBytes := w.totalBytes + size
        storage := w.storage.finishTable out.number entries }

/-- `builder->Add (key, value)`, the first key becoming the output's smallest
and every key its largest. -/
def addToOutput (entry : InternalKey × Bytes) (w : WorkState) : WorkState :=
  match w.current with
  | none => w
  | some (out, entries) =>
      let out := if entries.isEmpty then { out with smallest := entry.1 } else out
      { w with current := some ({ out with largest := entry.1 }, entries ++ [entry]) }

/-! ## The loop -/

def dropEntry (c : Compaction) (smallestSnapshot : SequenceNumber) (key : Bytes) (w : WorkState) :
    Bool × WorkState :=
  match parseInternalKey key with
  | none =>
      -- do not hide error keys
      (false, { w with currentUserKey := [], hasCurrentUserKey := false,
                       lastSequenceForKey := kMaxSequenceNumber })
  | some ikey =>
      let w :=
        if !w.hasCurrentUserKey || bytewiseCompare ikey.userKey w.currentUserKey != .eq then
          { w with currentUserKey := ikey.userKey, hasCurrentUserKey := true,
                   lastSequenceForKey := kMaxSequenceNumber }
        else w
      let (drop, w) :=
        if w.lastSequenceForKey ≤ smallestSnapshot then (true, w)
        else if ikey.type = .kTypeDeletion ∧ ikey.sequence ≤ smallestSnapshot then
          -- `IsBaseLevelForKey` is asked only here, and moves `level_ptrs_`
          let (base, ptrs) := isBaseLevelForKey c ikey.userKey w.levelPtrs
          (base, { w with levelPtrs := ptrs })
        else (false, w)
      (drop, { w with lastSequenceForKey := ikey.sequence })

/-- One turn of `DoCompactionWork`'s loop, on the entry the iterator is at. -/
def compactionStep (sizes : Sizes) (rt : Runtime) (c : Compaction) (smallestSnapshot : SequenceNumber)
    (w : WorkState) (entry : InternalKey × Bytes) : WorkState :=
  let key := entry.1.rep
  let (stop, w) := shouldStopBefore c key w
  let w := if stop && w.current.isSome then finishCompactionOutputFile sizes w else w
  let (drop, w) := dropEntry c smallestSnapshot key w
  if drop then w
  else
    let w := if w.current.isNone then openCompactionOutputFile rt c w else w
    let w := addToOutput entry w
    match w.current with
    | some (_, entries) =>
        if sizes.tableSize entries ≥ c.maxOutputFileSize then finishCompactionOutputFile sizes w else w
    | none => w

/-- `DoCompactionWork` up to `InstallCompactionResults`: the status and the
state after the loop and the last output closed. -/
def doCompactionLoop (sizes : Sizes) (rt : Runtime) (c : Compaction) (vset : VersionSet)
    (pendingOutputs : List UInt64) (storage : Storage) : Status × WorkState :=
  let smallestSnapshot := vset.lastSequence
  let (children, readError) := inputChildren storage c
  let w := (mergeInputs children).foldl (compactionStep sizes rt c smallestSnapshot)
    (WorkState.start vset pendingOutputs storage)
  let w := if w.current.isSome then finishCompactionOutputFile sizes w else w
  (readError.getD .ok, w)

/-- `InstallCompactionResults`' edit: the inputs leave, the outputs join
`level + 1`, and in hLSM mode `UpdateLazyLevels` adds the lazy half. -/
def compactionResultsEdit (rt : Runtime) (lazy : Bool) (c : Compaction) (vset : VersionSet)
    (outputs : List CompactionOutput) (mirror : MirrorState) : VersionEdit × MirrorState :=
  let edit := c.addInputDeletions c.edit
  let edit := outputs.foldl
    (fun e out => e.addFile (c.level + 1) out.number out.fileSize out.smallest out.largest) edit
  if lazy then updateLazyLevels rt c.level vset c outputs edit mirror else (edit, mirror)

end HLsm
