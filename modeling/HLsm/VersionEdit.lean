import HLsm.Format
import HLsm.Params

/-!
# `db/version_edit.{h,cc}`, `db/lazy_version_edit.{h,cc}`: edits and MANIFEST records

A version edit lists what changes between two versions: files deleted from and
added to the levels of the primary version, the same for the lazy version
(`LazyVersionEdit`), compaction pointers, the counters of the version set, and
the delta-level metadata of every logical level.  `EncodeTo` writes an edit as
a sequence of tagged records and `DecodeFrom` reads one back.

`VersionEdit` holds the fields of both edit classes; a `BasicVersionEdit` never
touches the lazy ones, and its codec is the lazy codec without the three lazy
record kinds, so both codecs are one definition with a `lazy` switch.

The `has_x_` / `x_` pairs are `Option`s: the setters are the only writers of
`x_` besides `Clear`, so a value without its flag is never observable.  The
`FileMetaData` values an edit carries are built by `AddFile`, `AddLazyFile` or
`DecodeFrom` from a default `FileMetaData`, so their `allowed_seeks` is always
`1 << 30`; the edit records this as a field.  `refs` is left out (no modelled
function reads it).

`DecodeFrom` writes `delta_meta_[level]` for every `level` below
`kNumLazyLevels`, while the array has `kLogicalLevels` entries; the model
returns `outOfBounds` for such a write instead of inventing what it does.
-/

set_option autoImplicit false

namespace HLsm

open HLsm.Coding HLsm.Format Std

/-- `FileMetaData`, without the reference count. -/
structure FileMetaData where
  allowedSeeks : Int
  number : UInt64
  fileSize : UInt64
  smallest : InternalKey
  largest : InternalKey
  deriving DecidableEq, Repr

/-- `allowed_seeks` of a default-constructed `FileMetaData` (`1 << 30`). -/
def defaultAllowedSeeks : Int := 2 ^ 30

/-- A default `FileMetaData` with the four fields `AddFile` sets. -/
def FileMetaData.make (number fileSize : UInt64) (smallest largest : InternalKey) :
    FileMetaData :=
  ⟨defaultAllowedSeeks, number, fileSize, smallest, largest⟩

/-- The order of `std::set<std::pair<int, uint64_t>>`. -/
def deletedFileCmp : Nat × UInt64 → Nat × UInt64 → Ordering :=
  compareLex (byKey compare Prod.fst) (byKey compare Prod.snd)

instance : TransCmp deletedFileCmp :=
  inferInstanceAs (TransCmp (compareLex (byKey compare Prod.fst) (byKey compare Prod.snd)))

abbrev DeletedFileSet := OrdSet deletedFileCmp

/-- The fields of `VersionEdit` and `LazyVersionEdit`. -/
structure VersionEdit where
  comparator : Option Bytes
  logNumber : Option UInt64
  prevLogNumber : Option UInt64
  nextFileNumber : Option UInt64
  lastSequence : Option SequenceNumber
  compactPointers : List (Nat × InternalKey)
  deletedFiles : DeletedFileSet
  newFiles : List (Nat × FileMetaData)
  deletedFilesLazy : DeletedFileSet
  newFilesLazy : List (Nat × FileMetaData)
  deltaMeta : DeltaMetas
  newFilesFresh : ∀ entry ∈ newFiles, entry.2.allowedSeeks = defaultAllowedSeeks
  newFilesLazyFresh : ∀ entry ∈ newFilesLazy, entry.2.allowedSeeks = defaultAllowedSeeks

namespace VersionEdit

@[ext] theorem ext {e f : VersionEdit} (comparator : e.comparator = f.comparator)
    (logNumber : e.logNumber = f.logNumber) (prevLogNumber : e.prevLogNumber = f.prevLogNumber)
    (nextFileNumber : e.nextFileNumber = f.nextFileNumber)
    (lastSequence : e.lastSequence = f.lastSequence)
    (compactPointers : e.compactPointers = f.compactPointers)
    (deletedFiles : e.deletedFiles = f.deletedFiles) (newFiles : e.newFiles = f.newFiles)
    (deletedFilesLazy : e.deletedFilesLazy = f.deletedFilesLazy)
    (newFilesLazy : e.newFilesLazy = f.newFilesLazy) (deltaMeta : e.deltaMeta = f.deltaMeta) :
    e = f := by
  cases e
  cases f
  simp only at *
  subst comparator logNumber prevLogNumber nextFileNumber lastSequence compactPointers
    deletedFiles newFiles deletedFilesLazy newFilesLazy deltaMeta
  rfl

theorem eq_iff_fields {e f : VersionEdit} :
    e = f ↔ e.comparator = f.comparator ∧ e.logNumber = f.logNumber ∧
      e.prevLogNumber = f.prevLogNumber ∧ e.nextFileNumber = f.nextFileNumber ∧
      e.lastSequence = f.lastSequence ∧ e.compactPointers = f.compactPointers ∧
      e.deletedFiles = f.deletedFiles ∧ e.newFiles = f.newFiles ∧
      e.deletedFilesLazy = f.deletedFilesLazy ∧ e.newFilesLazy = f.newFilesLazy ∧
      e.deltaMeta = f.deltaMeta := by
  constructor
  · intro same
    subst same
    simp
  · rintro ⟨c, l, p, n, s, cp, d, nf, dl, nl, dm⟩
    exact ext c l p n s cp d nf dl nl dm

instance : DecidableEq VersionEdit := fun _ _ => decidable_of_iff _ eq_iff_fields.symm

/-- `LazyVersionEdit ()`: what `Clear` leaves in a fresh object. -/
def empty : VersionEdit where
  comparator := none
  logNumber := none
  prevLogNumber := none
  nextFileNumber := none
  lastSequence := none
  compactPointers := []
  deletedFiles := ∅
  newFiles := []
  deletedFilesLazy := ∅
  newFilesLazy := []
  deltaMeta := initialDeltaMetas
  newFilesFresh := by simp
  newFilesLazyFresh := by simp

/-- `Clear`: it leaves `compact_pointers_` and `delta_meta_` alone. -/
def clear (e : VersionEdit) : VersionEdit :=
  { empty with compactPointers := e.compactPointers, deltaMeta := e.deltaMeta }

/-! ## The setters -/

def setComparatorName (e : VersionEdit) (name : Bytes) : VersionEdit :=
  { e with comparator := some name }

def setLogNumber (e : VersionEdit) (num : UInt64) : VersionEdit :=
  { e with logNumber := some num }

def setPrevLogNumber (e : VersionEdit) (num : UInt64) : VersionEdit :=
  { e with prevLogNumber := some num }

def setNextFile (e : VersionEdit) (num : UInt64) : VersionEdit :=
  { e with nextFileNumber := some num }

def setLastSequence (e : VersionEdit) (seq : SequenceNumber) : VersionEdit :=
  { e with lastSequence := some seq }

def setCompactPointer (e : VersionEdit) (level : Nat) (key : InternalKey) : VersionEdit :=
  { e with compactPointers := e.compactPointers ++ [(level, key)] }

def addFile (e : VersionEdit) (level : Nat) (file fileSize : UInt64)
    (smallest largest : InternalKey) : VersionEdit :=
  { e with
    newFiles := e.newFiles ++ [(level, FileMetaData.make file fileSize smallest largest)]
    newFilesFresh := by
      intro entry member
      rcases List.mem_append.mp member with old | new
      · exact e.newFilesFresh entry old
      · simp only [List.mem_singleton] at new
        subst new
        rfl }

def deleteFile (e : VersionEdit) (level : Nat) (file : UInt64) : VersionEdit :=
  { e with deletedFiles := e.deletedFiles.insert (level, file) }

def addLazyFile (e : VersionEdit) (level : Nat) (file fileSize : UInt64)
    (smallest largest : InternalKey) : VersionEdit :=
  { e with
    newFilesLazy := e.newFilesLazy ++ [(level, FileMetaData.make file fileSize smallest largest)]
    newFilesLazyFresh := by
      intro entry member
      rcases List.mem_append.mp member with old | new
      · exact e.newFilesLazyFresh entry old
      · simp only [List.mem_singleton] at new
        subst new
        rfl }

def deleteLazyFile (e : VersionEdit) (level : Nat) (file : UInt64) : VersionEdit :=
  { e with deletedFilesLazy := e.deletedFilesLazy.insert (level, file) }

/-- `SetDeltaLevels (meta)`: all `kLogicalLevels` metas are copied. -/
def setDeltaLevels (e : VersionEdit) (metas : DeltaMetas) : VersionEdit :=
  { e with deltaMeta := metas }

def advanceActiveDeltaLevel (e : VersionEdit) (llevel : Nat) : VersionEdit :=
  { e with deltaMeta := modifyMeta e.deltaMeta llevel DeltaLevelMeta.advanceActive }

def rollForwardDeltaLevels (e : VersionEdit) (llevel : Nat) : VersionEdit :=
  { e with deltaMeta := modifyMeta e.deltaMeta llevel DeltaLevelMeta.rollForward }

end VersionEdit

/-! ## Records -/

/-- One tagged record of an encoded edit, by what it carries. -/
inductive Record where
  | comparator (name : Bytes)
  | logNumber (num : UInt64)
  | prevLogNumber (num : UInt64)
  | nextFileNumber (num : UInt64)
  | lastSequence (seq : UInt64)
  | compactPointer (level : Nat) (key : InternalKey)
  | deltaLevelOffset (level : Nat) (dm : DeltaLevelMeta)
  | deletedFile (level : Nat) (file : UInt64)
  | deletedLazyFile (level : Nat) (file : UInt64)
  | newFile (level : Nat) (f : FileMetaData)
  | newLazyFile (level : Nat) (f : FileMetaData)
  deriving DecidableEq, Repr

/-- The `Tag` values. -/
def kComparator : UInt32 := 1
def kLogNumber : UInt32 := 2
def kNextFileNumber : UInt32 := 3
def kLastSequence : UInt32 := 4
def kCompactPointer : UInt32 := 5
def kDeletedFile : UInt32 := 6
def kNewFile : UInt32 := 7
def kPrevLogNumber : UInt32 := 9
def kDeletedLazyFile : UInt32 := 10
def kNewLazyFile : UInt32 := 11
def kDeltaLevelOffset : UInt32 := 12

def encodeFileEntry (level : Nat) (f : FileMetaData) : Bytes :=
  encodeVarint32 (UInt32.ofNat level) ++ encodeVarint64 f.number ++ encodeVarint64 f.fileSize ++
    putLengthPrefixedSlice [] f.smallest.encode ++ putLengthPrefixedSlice [] f.largest.encode

/-- The bytes `EncodeTo` appends for one record. -/
def Record.encode : Record → Bytes
  | .comparator name => encodeVarint32 kComparator ++ putLengthPrefixedSlice [] name
  | .logNumber num => encodeVarint32 kLogNumber ++ encodeVarint64 num
  | .prevLogNumber num => encodeVarint32 kPrevLogNumber ++ encodeVarint64 num
  | .nextFileNumber num => encodeVarint32 kNextFileNumber ++ encodeVarint64 num
  | .lastSequence seq => encodeVarint32 kLastSequence ++ encodeVarint64 seq
  | .compactPointer level key =>
      encodeVarint32 kCompactPointer ++ encodeVarint32 (UInt32.ofNat level) ++
        putLengthPrefixedSlice [] key.encode
  | .deltaLevelOffset level dm =>
      encodeVarint32 kDeltaLevelOffset ++ encodeVarint32 (UInt32.ofNat level) ++
        encodeVarint32 dm.start ++ encodeVarint32 dm.clear ++ encodeVarint32 dm.active
  | .deletedFile level file =>
      encodeVarint32 kDeletedFile ++ encodeVarint32 (UInt32.ofNat level) ++ encodeVarint64 file
  | .deletedLazyFile level file =>
      encodeVarint32 kDeletedLazyFile ++ encodeVarint32 (UInt32.ofNat level) ++
        encodeVarint64 file
  | .newFile level f => encodeVarint32 kNewFile ++ encodeFileEntry level f
  | .newLazyFile level f => encodeVarint32 kNewLazyFile ++ encodeFileEntry level f

/-- The records `EncodeTo` writes, in its order; `lazy` selects
`LazyVersionEdit::EncodeTo` over `BasicVersionEdit::EncodeTo`. -/
def VersionEdit.records (lazy : Bool) (e : VersionEdit) : List Record :=
  (e.comparator.map Record.comparator).toList ++
  (e.logNumber.map Record.logNumber).toList ++
  (e.prevLogNumber.map Record.prevLogNumber).toList ++
  (e.nextFileNumber.map Record.nextFileNumber).toList ++
  (e.lastSequence.map Record.lastSequence).toList ++
  e.compactPointers.map (fun p => Record.compactPointer p.1 p.2) ++
  (if lazy then (List.range kLogicalLevels).map fun i =>
      Record.deltaLevelOffset i (metaAt e.deltaMeta i) else []) ++
  e.deletedFiles.elems.map (fun p => Record.deletedFile p.1 p.2) ++
  (if lazy then e.deletedFilesLazy.elems.map fun p => Record.deletedLazyFile p.1 p.2 else []) ++
  e.newFiles.map (fun p => Record.newFile p.1 p.2) ++
  (if lazy then e.newFilesLazy.map fun p => Record.newLazyFile p.1 p.2 else [])

/-- `EncodeTo (dst)`. -/
def VersionEdit.encodeWith (lazy : Bool) (e : VersionEdit) (dst : Bytes) : Bytes :=
  dst ++ (e.records lazy).flatMap Record.encode

def LazyVersionEdit.encodeTo (e : VersionEdit) (dst : Bytes) : Bytes :=
  e.encodeWith true dst

def BasicVersionEdit.encodeTo (e : VersionEdit) (dst : Bytes) : Bytes :=
  e.encodeWith false dst

/-! ## Reading records -/

/-- `GetLevel`: a level below `kNumLevels`. -/
def getLevel (input : Bytes) : Option (Nat × Bytes) :=
  match getVarint32 input with
  | some (v, rest) => if v.toNat < kNumLevels then some (v.toNat, rest) else none
  | none => none

/-- `GetLazyLevel`: a level below `kNumLazyLevels`. -/
def getLazyLevel (input : Bytes) : Option (Nat × Bytes) :=
  match getVarint32 input with
  | some (v, rest) => if v.toNat < kNumLazyLevels then some (v.toNat, rest) else none
  | none => none

/-- `GetInternalKey`: `InternalKey::DecodeFrom`'s result (whether the key is
empty) is not looked at. -/
def getInternalKey (input : Bytes) : Option (InternalKey × Bytes) :=
  (getLengthPrefixedSlice input).map fun r => (InternalKey.decodeFrom r.1, r.2)

def getFileEntry (readLevel : Bytes → Option (Nat × Bytes)) (input : Bytes) :
    Option ((Nat × FileMetaData) × Bytes) := do
  let (level, input) ← readLevel input
  let (number, input) ← getVarint64 input
  let (fileSize, input) ← getVarint64 input
  let (smallest, input) ← getInternalKey input
  let (largest, input) ← getInternalKey input
  pure ((level, FileMetaData.make number fileSize smallest largest), input)

/-- One arm of `DecodeFrom`'s `switch`: the record after the tag, or the
message of the failure. -/
def parseRecord (lazy : Bool) (tag : UInt32) (input : Bytes) : Except String (Record × Bytes) :=
  let orFail {β : Type} (msg : String) (read : Option (β × Bytes)) (make : β → Record) :
      Except String (Record × Bytes) :=
    match read with
    | some (v, rest) => .ok (make v, rest)
    | none => .error msg
  if tag = kComparator then
    orFail "comparator name" (getLengthPrefixedSlice input) Record.comparator
  else if lazy ∧ tag = kDeltaLevelOffset then
    orFail "delta level offset"
      (do
        let (level, input) ← getLazyLevel input
        let (start, input) ← getVarint32 input
        let (clear, input) ← getVarint32 input
        let (active, input) ← getVarint32 input
        pure ((level, DeltaLevelMeta.mk start clear active), input))
      fun r => Record.deltaLevelOffset r.1 r.2
  else if tag = kLogNumber then
    orFail "log number" (getVarint64 input) Record.logNumber
  else if tag = kPrevLogNumber then
    orFail "previous log number" (getVarint64 input) Record.prevLogNumber
  else if tag = kNextFileNumber then
    orFail "next file number" (getVarint64 input) Record.nextFileNumber
  else if tag = kLastSequence then
    orFail "last sequence number" (getVarint64 input) Record.lastSequence
  else if tag = kCompactPointer then
    orFail "compaction pointer"
      (do
        let (level, input) ← getLevel input
        let (key, input) ← getInternalKey input
        pure ((level, key), input))
      fun r => Record.compactPointer r.1 r.2
  else if tag = kDeletedFile then
    orFail "deleted file"
      (do
        let (level, input) ← getLevel input
        let (number, input) ← getVarint64 input
        pure ((level, number), input))
      fun r => Record.deletedFile r.1 r.2
  else if lazy ∧ tag = kDeletedLazyFile then
    orFail "deleted lazy file"
      (do
        let (level, input) ← getLazyLevel input
        let (number, input) ← getVarint64 input
        pure ((level, number), input))
      fun r => Record.deletedLazyFile r.1 r.2
  else if tag = kNewFile then
    orFail "new-file entry" (getFileEntry getLevel input) fun r => Record.newFile r.1 r.2
  else if lazy ∧ tag = kNewLazyFile then
    orFail "new-lazy-file entry" (getFileEntry getLazyLevel input)
      fun r => Record.newLazyFile r.1 r.2
  else .error "unknown tag"

/-- What a parsed record does to the edit being decoded; the error carries the
level of a write of `delta_meta_` past its end. -/
def VersionEdit.applyRecord (e : VersionEdit) : Record → Except Nat VersionEdit
  | .comparator name => .ok (e.setComparatorName name)
  | .logNumber num => .ok (e.setLogNumber num)
  | .prevLogNumber num => .ok (e.setPrevLogNumber num)
  | .nextFileNumber num => .ok (e.setNextFile num)
  | .lastSequence seq => .ok (e.setLastSequence seq)
  | .compactPointer level key => .ok (e.setCompactPointer level key)
  | .deltaLevelOffset level dm =>
      if level < kLogicalLevels then
        .ok { e with deltaMeta := e.deltaMeta.setIfInBounds level dm }
      else .error level
  | .deletedFile level file => .ok (e.deleteFile level file)
  | .deletedLazyFile level file => .ok (e.deleteLazyFile level file)
  | .newFile level f => .ok (e.addFile level f.number f.fileSize f.smallest f.largest)
  | .newLazyFile level f => .ok (e.addLazyFile level f.number f.fileSize f.smallest f.largest)

/-- How `DecodeFrom` ends. -/
inductive DecodeResult where
  /-- `Status::OK ()`, with the edit it filled in. -/
  | decoded (edit : VersionEdit)
  /-- `Status::Corruption ("VersionEdit", msg)`. -/
  | corrupt (msg : String)
  /-- `delta_meta_[level]` written with `level ≥ kLogicalLevels`. -/
  | outOfBounds (level : Nat)
  deriving DecidableEq

/-- `DecodeFrom`'s loop.  Each round reads a tag of at least one byte, so a
budget of the input's length is never exhausted while input is left. -/
def decodeLoop (lazy : Bool) : Nat → VersionEdit → Bytes → DecodeResult
  | 0, e, input => if input.isEmpty then .decoded e else .corrupt "invalid tag"
  | fuel + 1, e, input =>
      match getVarint32 input with
      | none => if input.isEmpty then .decoded e else .corrupt "invalid tag"
      | some (tag, rest) =>
          match parseRecord lazy tag rest with
          | .error msg => .corrupt msg
          | .ok (record, rest) =>
              match e.applyRecord record with
              | .ok e' => decodeLoop lazy fuel e' rest
              | .error level => .outOfBounds level

/-- `DecodeFrom (src)` on the edit `e`. -/
def VersionEdit.decodeWith (lazy : Bool) (e : VersionEdit) (src : Bytes) : DecodeResult :=
  decodeLoop lazy src.length e.clear src

def LazyVersionEdit.decodeFrom (e : VersionEdit) (src : Bytes) : DecodeResult :=
  e.decodeWith true src

def BasicVersionEdit.decodeFrom (e : VersionEdit) (src : Bytes) : DecodeResult :=
  e.decodeWith false src

end HLsm
