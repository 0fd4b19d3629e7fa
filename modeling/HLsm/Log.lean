import HLsm.Version

/-! # `db/log_writer.cc`, `db/log_reader.cc`: the log file format

The write-ahead log and the MANIFEST are written by `log::Writer` and read by
`log::Reader`.  The file is a sequence of 32 KiB blocks.  `AddRecord` cuts a
record into fragments that each fit, with their 7-byte header (masked CRC-32C
of type and payload, length, type), in what is left of the current block; a
block tail shorter than a header is filled with zeros.  `ReadRecord` reads the
file a block at a time and glues the fragments back together, reporting what
it drops to its `Reporter`.

The writer's file may fail: a `WritableFile` carries what each `Append` or
`Flush`, and each `Sync`, to come will do.  `PosixSequentialFile::Read` and
`Skip` are taken to succeed: the reader's file is the bytes it has not read
yet.  `crc32c::Extend` handles four bytes at a time
through four tables; that is four steps of the byte-at-a-time `STEP1`, whose
table `table0_` holds the byte steps of the reflected Castagnoli polynomial,
computed here rather than listed.
-/

set_option autoImplicit false

namespace HLsm

open HLsm.Coding

/-! ## `util/crc32c.cc` -/

namespace Crc32c

/-- `table0_ [c]`: one byte through the reflected polynomial `0x82f63b78`. -/
def table0 (c : UInt32) : UInt32 :=
  (List.range 8).foldl (fun l _ => if l &&& 1 = 1 then (l >>> 1) ^^^ 0x82f63b78 else l >>> 1) c

example : table0 1 = 0xf26b8303 ∧ table0 255 = 0xad7d5351 := by decide

def step1 (l : UInt32) (byte : UInt8) : UInt32 :=
  table0 ((l &&& 0xff) ^^^ byte.toUInt32) ^^^ (l >>> 8)

def extend (crc : UInt32) (data : Bytes) : UInt32 :=
  data.foldl step1 (crc ^^^ 0xffffffff) ^^^ 0xffffffff

def value (data : Bytes) : UInt32 := extend 0 data

example : value (List.replicate 32 0) = 0x8a9136aa := by decide +kernel

def kMaskDelta : UInt32 := 0xa282ead8

/-- `Mask`: rotate right by 15 bits and add a constant. -/
def mask (crc : UInt32) : UInt32 := ((crc >>> 15) ||| (crc <<< 17)) + kMaskDelta

def unmask (maskedCrc : UInt32) : UInt32 :=
  let rot := maskedCrc - kMaskDelta
  (rot >>> 17) ||| (rot <<< 15)

theorem extend_append (crc : UInt32) (a b : Bytes) : extend (extend crc a) b = extend crc (a ++ b) := by
  simp [extend, List.foldl_append]

theorem unmask_mask (crc : UInt32) : unmask (mask crc) = crc := by
  apply UInt32.toBitVec_inj.mp
  simp only [unmask, mask, add_sub_cancel_right]
  ext i hi
  simp [BitVec.getElem_or, BitVec.getElem_ushiftRight, BitVec.getElem_shiftLeft]
  -- bit `i` of the rotation back comes from bit `i` of `crc`, on one side of bit 15
  have outside : crc.toBitVec.getLsbD (15 + (17 + i)) = false := BitVec.getLsbD_of_ge _ _ (by omega)
  rcases Nat.lt_or_ge i 15 with low | high
  · simp [outside, low, show 17 + i < 32 by omega, BitVec.getLsbD_eq_getElem hi]
  · have back : 15 + (i - 15) = i := by omega
    simp [outside, show ¬ i < 15 by omega, show i - 15 < 17 by omega, back,
      BitVec.getLsbD_eq_getElem hi]

end Crc32c

namespace Log

/-! ## `db/log_format.h` -/

/-- `RecordType`. -/
inductive RecordType where
  | kZeroType
  | kFullType
  | kFirstType
  | kMiddleType
  | kLastType
  deriving DecidableEq, Repr

def RecordType.toNat : RecordType → Nat
  | .kZeroType => 0
  | .kFullType => 1
  | .kFirstType => 2
  | .kMiddleType => 3
  | .kLastType => 4

def kMaxRecordType : Nat := RecordType.kLastType.toNat

def kBlockSize : Nat := 32768

def kHeaderSize : Nat := 4 + 1 + 2

/-! ## `WritableFile` -/

/-- A `PosixWritableFile`: the bytes that reached it, and what the `Append` and
`Flush` calls and the `Sync` calls to come will do.  `none` succeeds; an
`Append` that fails has written the first `n` bytes of its data (`fwrite`
returned `n`).  Calls past the end of a schedule succeed. -/
structure WritableFile where
  contents : Bytes
  writeFaults : List (Option (Nat × String))
  syncFaults : List (Option String)
  deriving DecidableEq, Repr

namespace WritableFile

def append (f : WritableFile) (data : Bytes) : Status × WritableFile :=
  match f.writeFaults.head? with
  | some (some (n, msg)) =>
    (.ioError msg, { f with contents := f.contents ++ data.take n, writeFaults := f.writeFaults.tail })
  | _ => (.ok, { f with contents := f.contents ++ data, writeFaults := f.writeFaults.tail })

def flush (f : WritableFile) : Status × WritableFile :=
  match f.writeFaults.head? with
  | some (some (_, msg)) => (.ioError msg, { f with writeFaults := f.writeFaults.tail })
  | _ => (.ok, { f with writeFaults := f.writeFaults.tail })

def sync (f : WritableFile) : Status × WritableFile :=
  match f.syncFaults.head? with
  | some (some msg) => (.ioError msg, { f with syncFaults := f.syncFaults.tail })
  | _ => (.ok, { f with syncFaults := f.syncFaults.tail })

/-- No `Append` or `Flush` to come fails. -/
def Reliable (f : WritableFile) : Prop := ∀ fault ∈ f.writeFaults, fault = none

theorem Reliable.append {f : WritableFile} (reliable : f.Reliable) (data : Bytes) :
    f.append data = (.ok, { f with contents := f.contents ++ data, writeFaults := f.writeFaults.tail }) ∧
      Reliable { f with contents := f.contents ++ data, writeFaults := f.writeFaults.tail } := by
  refine ⟨?_, fun fault mem => reliable fault (List.mem_of_mem_tail mem)⟩
  unfold WritableFile.append
  cases faults : f.writeFaults with
  | nil => rfl
  | cons head rest =>
    rw [reliable head (by simp [faults])]
    rfl

theorem Reliable.flush {f : WritableFile} (reliable : f.Reliable) :
    f.flush = (.ok, { f with writeFaults := f.writeFaults.tail }) ∧
      Reliable { f with writeFaults := f.writeFaults.tail } := by
  refine ⟨?_, fun fault mem => reliable fault (List.mem_of_mem_tail mem)⟩
  unfold WritableFile.flush
  cases faults : f.writeFaults with
  | nil => rfl
  | cons head rest =>
    rw [reliable head (by simp [faults])]
    rfl

@[simp] theorem contents_flush (f : WritableFile) : f.flush.2.contents = f.contents := by
  unfold WritableFile.flush
  split <;> rfl

@[simp] theorem contents_sync (f : WritableFile) : f.sync.2.contents = f.contents := by
  unfold sync
  split <;> rfl

@[simp] theorem writeFaults_sync (f : WritableFile) : f.sync.2.writeFaults = f.writeFaults := by
  unfold sync
  split <;> rfl

end WritableFile

/-! ## `log::Writer` -/

/-- A `log::Writer`: its file and `block_offset_`. -/
structure Writer where
  dest : WritableFile
  blockOffset : Nat
  deriving DecidableEq, Repr

/-- `Writer (dest)` on an empty file. -/
def Writer.new (dest : WritableFile) : Writer := ⟨dest, 0⟩

/-- `type_crc_ [t]`: the CRC of the type byte alone. -/
def typeCrc (t : RecordType) : UInt32 := Crc32c.value [UInt8.ofNat t.toNat]

/-- The header of a physical record with type `t` and payload `data`. -/
def header (t : RecordType) (data : Bytes) : Bytes :=
  encodeFixed32 (Crc32c.mask (Crc32c.extend (typeCrc t) data)) ++
    [UInt8.ofNat data.length, UInt8.ofNat (data.length >>> 8), UInt8.ofNat t.toNat]

/-- `EmitPhysicalRecord (t, ptr, n)`: the header, the payload and a `Flush`,
each only once the one before succeeded; `block_offset_` moves on whatever
the status. -/
def Writer.emitPhysicalRecord (w : Writer) (t : RecordType) (data : Bytes) : Status × Writer :=
  let (s, dest) := w.dest.append (header t data)
  let (s, dest) :=
    if s.isOk then
      let (s, dest) := dest.append data
      if s.isOk then dest.flush else (s, dest)
    else (s, dest)
  (s, ⟨dest, w.blockOffset + kHeaderSize + data.length⟩)

/-- The top of `AddRecord`'s loop: fewer than `kHeaderSize` bytes left in the
block are filled with zeros, whatever that `Append` returns, and a new block
starts. -/
def Writer.switchBlock (w : Writer) : Writer :=
  let leftover := kBlockSize - w.blockOffset
  if leftover < kHeaderSize then
    ⟨if leftover > 0 then (w.dest.append (List.replicate leftover 0)).2 else w.dest, 0⟩
  else w

def fragmentType (begin «end» : Bool) : RecordType :=
  if begin && «end» then .kFullType
  else if begin then .kFirstType
  else if «end» then .kLastType
  else .kMiddleType

theorem blockOffset_switchBlock (w : Writer) :
    w.switchBlock.blockOffset = if kBlockSize - w.blockOffset < kHeaderSize then 0 else w.blockOffset := by
  simp only [Writer.switchBlock]
  split <;> rfl

@[simp] theorem blockOffset_emitPhysicalRecord (w : Writer) (t : RecordType) (data : Bytes) :
    (w.emitPhysicalRecord t data).2.blockOffset = w.blockOffset + kHeaderSize + data.length := rfl

/-- `AddRecord`'s loop: one fragment per turn, at least one (an empty record
is one empty fragment), until a fragment fails or the record is written. -/
def Writer.addRecordLoop (w : Writer) (begin : Bool) (left : Bytes) : Status × Writer :=
  let w' := w.switchBlock
  let avail := kBlockSize - w'.blockOffset - kHeaderSize
  let fragmentLength := min left.length avail
  let emitted := w'.emitPhysicalRecord (fragmentType begin (left.length == fragmentLength))
    (left.take fragmentLength)
  if emitted.1.isOk && left.length - fragmentLength > 0 then
    emitted.2.addRecordLoop false (left.drop fragmentLength)
  else emitted
termination_by (left.length, kBlockSize - w.blockOffset)
decreasing_by
  -- a turn either writes payload or, with exactly a header's room, fills the block
  have switched := blockOffset_switchBlock w
  rename_i continues
  have more := (Bool.and_eq_true_iff.mp continues).2
  simp only [blockOffset_emitPhysicalRecord, List.length_take, List.length_drop, decide_eq_true_eq] at *
  split at switched
  · exact Prod.Lex.left _ _ (by simp only [kBlockSize, kHeaderSize] at *; omega)
  · by_cases payload : 0 < kBlockSize - w.blockOffset - kHeaderSize
    · exact Prod.Lex.left _ _ (by rw [switched]; omega)
    · have full : min left.length (kBlockSize - w.switchBlock.blockOffset - kHeaderSize) = 0 := by
        rw [switched]
        omega
      rw [full, Nat.sub_zero]
      exact Prod.Lex.right _ (by rw [switched]; simp only [kBlockSize, kHeaderSize] at *; omega)

def Writer.addRecord (w : Writer) (slice : Bytes) : Status × Writer := w.addRecordLoop true slice

/-! ## `log::Reader` -/

/-- A `log::Reader`: what is left of its file, its buffer and offsets, and the
`(bytes, status)` of every `Reporter::Corruption` call so far. -/
structure Reader where
  file : Bytes
  checksum : Bool
  buffer : Bytes
  eof : Bool
  lastRecordOffset : UInt64
  endOfBufferOffset : UInt64
  initialOffset : UInt64
  reported : List (Nat × Status)
  deriving DecidableEq, Repr

/-- `Reader (file, reporter, checksum, initial_offset)`. -/
def Reader.new (file : Bytes) (checksum : Bool) (initialOffset : UInt64) : Reader :=
  ⟨file, checksum, [], false, 0, 0, initialOffset, []⟩

/-- `kEof` and `kBadRecord`, the two codes past the record types. -/
def kEof : Nat := kMaxRecordType + 1

def kBadRecord : Nat := kMaxRecordType + 2

namespace Reader

/-- `ReportDrop (bytes, reason)`: only drops at or past `initial_offset_` are
reported. -/
def reportDrop (r : Reader) (bytes : Nat) (reason : Status) : Reader :=
  if r.endOfBufferOffset - UInt64.ofNat r.buffer.length - UInt64.ofNat bytes ≥ r.initialOffset then
    { r with reported := r.reported ++ [(bytes, reason)] }
  else r

def reportCorruption (r : Reader) (bytes : Nat) (reason : String) : Reader :=
  r.reportDrop bytes (.corruption reason)

/-- `SkipToInitialBlock`: skip the blocks wholly before `initial_offset_`. -/
def skipToInitialBlock (r : Reader) : Reader :=
  let offsetInBlock := r.initialOffset % UInt64.ofNat kBlockSize
  let blockStartLocation := r.initialOffset - offsetInBlock
  -- don't search a block if we'd be in the trailer
  let blockStartLocation :=
    if offsetInBlock > UInt64.ofNat (kBlockSize - 6) then blockStartLocation + UInt64.ofNat kBlockSize
    else blockStartLocation
  let r := { r with endOfBufferOffset := blockStartLocation }
  if blockStartLocation > 0 then { r with file := r.file.drop blockStartLocation.toNat } else r

/-- `const unsigned int type = header[6]`: `char` is signed, so a byte from
`0x80` up reads as a number past `2 ^ 32 - 128`. -/
def headerType (byte : UInt8) : Nat :=
  if byte.toNat < 128 then byte.toNat else byte.toNat + (2 ^ 32 - 256)

/-- `ReadPhysicalRecord`: a record type, `kEof` or `kBadRecord`, with the
fragment. -/
def readPhysicalRecord (r : Reader) : Nat × Bytes × Reader :=
  if r.buffer.length < kHeaderSize then
    if !r.eof then
      -- the last read was a full block, so this is a trailer to skip
      let buffer := r.file.take kBlockSize
      readPhysicalRecord { r with
        buffer := buffer
        file := r.file.drop kBlockSize
        endOfBufferOffset := r.endOfBufferOffset + UInt64.ofNat buffer.length
        eof := decide (buffer.length < kBlockSize) }
    else if r.buffer.length = 0 then (kEof, [], r)
    else (kEof, [], ({ r with buffer := [] }).reportCorruption r.buffer.length "truncated record at end of file")
  else
    let header := r.buffer
    let length := (header.getD 4 0).toNat ||| (header.getD 5 0).toNat <<< 8
    let type := headerType (header.getD 6 0)
    if kHeaderSize + length > r.buffer.length then
      (kBadRecord, [], ({ r with buffer := [] }).reportCorruption r.buffer.length "bad record length")
    else if type = RecordType.kZeroType.toNat ∧ length = 0 then
      -- preallocated space of the mmap writer, dropped without a report
      (kBadRecord, [], { r with buffer := [] })
    else if r.checksum ∧
        Crc32c.unmask (decodeFixed32 header) ≠ Crc32c.value ((header.drop 6).take (1 + length)) then
      (kBadRecord, [], ({ r with buffer := [] }).reportCorruption r.buffer.length "checksum mismatch")
    else
      let r := { r with buffer := r.buffer.drop (kHeaderSize + length) }
      if r.endOfBufferOffset - UInt64.ofNat r.buffer.length - UInt64.ofNat kHeaderSize -
          UInt64.ofNat length < r.initialOffset then
        -- a physical record that started before `initial_offset_`
        (kBadRecord, [], r)
      else (type, (header.drop kHeaderSize).take length, r)
termination_by 2 * r.file.length + if r.eof then 0 else 1
decreasing_by
  have notEof : r.eof = false := by simp_all
  simp only [notEof, Bool.false_eq_true, if_false, List.length_drop, List.length_take, kBlockSize,
    decide_eq_true_eq]
  split <;> omega

def unread (r : Reader) : Nat := r.file.length + r.buffer.length

@[simp] theorem unread_reportCorruption (r : Reader) (bytes : Nat) (reason : String) :
    (r.reportCorruption bytes reason).unread = r.unread := by
  unfold reportCorruption reportDrop
  split <;> rfl

@[simp] theorem reported_reportCorruption (r : Reader) (bytes : Nat) (reason : String) :
    (r.reportCorruption bytes reason).reported =
      if r.endOfBufferOffset - UInt64.ofNat r.buffer.length - UInt64.ofNat bytes ≥ r.initialOffset then
        r.reported ++ [(bytes, .corruption reason)]
      else r.reported := by
  unfold reportCorruption reportDrop
  split <;> rfl

theorem unread_readPhysicalRecord (r : Reader) :
    (readPhysicalRecord r).1 = kEof ∨ (readPhysicalRecord r).2.2.unread < r.unread := by
  fun_induction readPhysicalRecord r with
  | case1 r low notEof buffer ih =>
    -- reading a block moves bytes from the file to the buffer
    rcases ih with ended | smaller
    · exact .inl ended
    · refine .inr (Nat.lt_of_lt_of_le smaller ?_)
      simp only [unread, buffer, List.length_drop, List.length_take]
      omega
  | case2 | case3 => exact .inl rfl
  | case4 r high header length long =>
    right
    simp only [kHeaderSize] at high
    simp only [unread_reportCorruption]
    simp [unread]
    omega
  | case5 r high header length type long zero =>
    right
    simp only [kHeaderSize] at high
    simp [unread]
    omega
  | case6 r high header length type long zero mismatch =>
    right
    simp only [kHeaderSize] at high
    simp only [unread_reportCorruption]
    simp [unread]
    omega
  | case7 r high header length type long zero mismatch r' before
  | case8 r high header length type long zero mismatch r' before =>
    right
    simp only [kHeaderSize] at high
    simp [unread, r', kHeaderSize]
    omega

theorem unread_lt_of_readPhysicalRecord {r next : Reader} {recordType : Nat} {fragment : Bytes}
    (read : readPhysicalRecord r = (recordType, fragment, next)) (notEof : recordType ≠ kEof) :
    next.unread < r.unread := by
  have := unread_readPhysicalRecord r
  rw [read] at this
  exact this.resolve_left notEof

def reportPartialRecord (r : Reader) (inFragmentedRecord : Bool) (scratch : Bytes) (reason : String) :
    Reader :=
  if inFragmentedRecord ∧ scratch ≠ [] then r.reportCorruption scratch.length reason else r

@[simp] theorem unread_reportPartialRecord (r : Reader) (inFragmentedRecord : Bool) (scratch : Bytes)
    (reason : String) : (r.reportPartialRecord inFragmentedRecord scratch reason).unread = r.unread := by
  unfold reportPartialRecord
  split <;> simp

-- the linter misses the use of the match hypothesis in `decreasing_by`
set_option linter.unusedVariables false in
/-- `ReadRecord`'s loop, from its local state: whether a fragmented record is
open, the fragments so far, and the offset of its first fragment. -/
def readRecordLoop (r : Reader) (inFragmentedRecord : Bool) (scratch : Bytes)
    (prospectiveRecordOffset : UInt64) : Option Bytes × Reader :=
  let physicalRecordOffset := r.endOfBufferOffset - UInt64.ofNat r.buffer.length
  match read : readPhysicalRecord r with
  | (recordType, fragment, next) =>
    if recordType = RecordType.kFullType.toNat then
      let next := next.reportPartialRecord inFragmentedRecord scratch "partial record without end(1)"
      (some fragment, { next with lastRecordOffset := physicalRecordOffset })
    else if recordType = RecordType.kFirstType.toNat then
      let next := next.reportPartialRecord inFragmentedRecord scratch "partial record without end(2)"
      readRecordLoop next true fragment physicalRecordOffset
    else if recordType = RecordType.kMiddleType.toNat then
      if inFragmentedRecord then readRecordLoop next true (scratch ++ fragment) prospectiveRecordOffset
      else
        readRecordLoop (next.reportCorruption fragment.length "missing start of fragmented record(1)")
          false scratch prospectiveRecordOffset
    else if recordType = RecordType.kLastType.toNat then
      if inFragmentedRecord then
        (some (scratch ++ fragment), { next with lastRecordOffset := prospectiveRecordOffset })
      else
        readRecordLoop (next.reportCorruption fragment.length "missing start of fragmented record(2)")
          false scratch prospectiveRecordOffset
    else if recordType = kEof then
      (none, if inFragmentedRecord then next.reportCorruption scratch.length "partial record without end(3)"
        else next)
    else if recordType = kBadRecord then
      if inFragmentedRecord then
        readRecordLoop (next.reportCorruption scratch.length "error in middle of record") false []
          prospectiveRecordOffset
      else readRecordLoop next false scratch prospectiveRecordOffset
    else
      readRecordLoop
        (next.reportCorruption (fragment.length + if inFragmentedRecord then scratch.length else 0)
          ("unknown record type " ++ toString recordType))
        false [] prospectiveRecordOffset
termination_by r.unread
decreasing_by
  all_goals
    try simp only [unread_reportCorruption, unread_reportPartialRecord]
    exact unread_lt_of_readPhysicalRecord read (by simp_all [kEof, kMaxRecordType, RecordType.toNat])

/-- `ReadRecord (record, scratch)`: the next record, or `none` at the end of
the file. -/
def readRecord (r : Reader) : Option Bytes × Reader :=
  let r := if r.lastRecordOffset < r.initialOffset then r.skipToInitialBlock else r
  readRecordLoop r false [] 0

theorem unread_readRecordLoop_lt (r : Reader) (inFragmentedRecord : Bool) (scratch : Bytes)
    (prospectiveRecordOffset : UInt64) :
    (readRecordLoop r inFragmentedRecord scratch prospectiveRecordOffset).1.isSome →
      (readRecordLoop r inFragmentedRecord scratch prospectiveRecordOffset).2.unread < r.unread := by
  fun_induction readRecordLoop r inFragmentedRecord scratch prospectiveRecordOffset with
  | case7 => simp
  | case1 r _ _ _ _ _ next reported read =>
    intro _
    change reported.unread < r.unread
    simpa [reported] using unread_lt_of_readPhysicalRecord read (by decide)
  | case5 r _ _ _ next read =>
    intro _
    have := unread_lt_of_readPhysicalRecord read (by decide)
    simpa [unread] using this
  | case2 r _ _ _ _ _ next reported read _ ih =>
    intro found
    exact Nat.lt_trans (by simpa [reported] using ih found) (unread_lt_of_readPhysicalRecord read (by decide))
  | case3 r _ _ _ next read _ _ ih | case4 r _ _ _ _ next _ read _ _ ih
  | case6 r _ _ _ _ next _ read _ _ _ ih | case8 r _ _ _ next read _ _ _ _ _ ih
  | case9 r _ _ _ _ next _ read _ _ _ _ _ ih =>
    intro found
    exact Nat.lt_trans (by simpa using ih found) (unread_lt_of_readPhysicalRecord read (by decide))
  | case10 r _ _ _ _ _ next read _ _ _ _ notEof _ ih =>
    intro found
    exact Nat.lt_trans (by simpa using ih found) (unread_lt_of_readPhysicalRecord read notEof)

theorem unread_skipToInitialBlock_le (r : Reader) : r.skipToInitialBlock.unread ≤ r.unread := by
  unfold skipToInitialBlock
  dsimp only
  split <;> split <;> simp [unread]

theorem unread_readRecord_lt {r next : Reader} {record : Bytes} (read : readRecord r = (some record, next)) :
    next.unread < r.unread := by
  unfold readRecord at read
  have shorter := unread_readRecordLoop_lt _ false [] 0 (by rw [read]; rfl)
  rw [read] at shorter
  split at shorter
  · exact Nat.lt_of_lt_of_le shorter (unread_skipToInitialBlock_le r)
  · exact shorter

end Reader

end Log

end HLsm
