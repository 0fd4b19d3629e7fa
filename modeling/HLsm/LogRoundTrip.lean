import HLsm.Log

/-! # Reading back what the log writer wrote

The two halves meet at a description of the file: a list of `Piece`s, each a
physical record or a block trailer, that `Fits` the blocks (no physical record
crosses a block boundary, a trailer fills exactly a tail shorter than a
header).  `AddRecord` appends such pieces, and the fragments among them are
`Shaped` like a record (one full fragment, or first, middles and last).  A
reader that stands inside such a file (`At`) `Emits` the fragments one by one,
skipping the trailers, and `ReadRecord` glues each record's fragments back.

On a file whose writes do not fail, every call succeeds and the file is
exactly the pieces; a failed `Append` is where the two halves part.

Results:
* `yields_of_pieces`: a file of pieces that fit the blocks reads back as the
  records they carry, then the end of the file, with nothing reported to the
  `Reporter`.
* `readRecord_addRecord`: so, on a new log file whose writes do not fail, the
  records `AddRecord` wrote come back from `ReadRecord` in order.
-/

set_option autoImplicit false

namespace HLsm.Log

open HLsm.Coding Reader

/-! ## The pieces of a log file -/

/-- A physical record, or the zeros of a block's tail. -/
inductive Piece where
  | physical (t : RecordType) (data : Bytes)
  | trailer (n : Nat)
  deriving DecidableEq, Repr

def Piece.encode : Piece → Bytes
  | .physical t data => header t data ++ data
  | .trailer n => List.replicate n 0

/-- What a piece hands to `ReadRecord`. -/
def Piece.fragment : Piece → Option (RecordType × Bytes)
  | .physical t data => some (t, data)
  | .trailer _ => none

/-- The pieces, written from block offset `o`, fit the blocks and end at `o'`. -/
inductive Fits : Nat → List Piece → Nat → Prop
  | nil (o : Nat) : Fits o [] o
  | physical {o o' : Nat} {t : RecordType} {data : Bytes} {pieces : List Piece} :
      t ≠ .kZeroType → o + kHeaderSize + data.length ≤ kBlockSize →
      Fits (o + kHeaderSize + data.length) pieces o' → Fits o (.physical t data :: pieces) o'
  | trailer {o o' : Nat} {pieces : List Piece} :
      kBlockSize - o < kHeaderSize → Fits 0 pieces o' → Fits o (.trailer (kBlockSize - o) :: pieces) o'

theorem Fits.append {o o' o'' : Nat} {first later : List Piece} (fits : Fits o first o')
    (fitsLater : Fits o' later o'') : Fits o (first ++ later) o'' := by
  induction fits with
  | nil => exact fitsLater
  | physical valid room _ ih => exact .physical valid room (ih fitsLater)
  | trailer tail _ ih => exact .trailer tail (ih fitsLater)

theorem Fits.le {o o' : Nat} {pieces : List Piece} (fits : Fits o pieces o') (bounded : o ≤ kBlockSize) :
    o' ≤ kBlockSize := by
  induction fits with
  | nil => exact bounded
  | physical _ room _ ih => exact ih room
  | trailer _ _ ih => exact ih (Nat.zero_le _)

/-- The fragments of one record, as the writer types them. -/
inductive Shaped : Bool → List (RecordType × Bytes) → Bytes → Prop
  | full (data : Bytes) : Shaped true [(.kFullType, data)] data
  | last (data : Bytes) : Shaped false [(.kLastType, data)] data
  | first {data rest : Bytes} {frags : List (RecordType × Bytes)} :
      Shaped false frags rest → Shaped true ((.kFirstType, data) :: frags) (data ++ rest)
  | middle {data rest : Bytes} {frags : List (RecordType × Bytes)} :
      Shaped false frags rest → Shaped false ((.kMiddleType, data) :: frags) (data ++ rest)

/-- The fragments of the records, one record after the other. -/
inductive Records : List (RecordType × Bytes) → List Bytes → Prop
  | nil : Records [] []
  | cons {frags rest : List (RecordType × Bytes)} {record : Bytes} {records : List Bytes} :
      Shaped true frags record → Records rest records → Records (frags ++ rest) (record :: records)

/-! ## What `AddRecord` appends -/

/-- The trailer `AddRecord` writes before a fragment, if the block is full. -/
def switchPieces (w : Writer) : List Piece :=
  if kBlockSize - w.blockOffset < kHeaderSize then [.trailer (kBlockSize - w.blockOffset)] else []

theorem Records.append {frags frags' : List (RecordType × Bytes)} {records : List Bytes} (written : Records frags records)
    {record : Bytes} (shaped : Shaped true frags' record) : Records (frags ++ frags') (records ++ [record]) := by
  induction written with
  | nil => simpa using Records.cons shaped .nil
  | cons first _ ih => simpa [List.append_assoc] using Records.cons first ih

section Reliable

variable {w : Writer} (reliable : w.dest.Reliable)
include reliable

theorem switchBlock_reliable :
    w.switchBlock.dest.contents = w.dest.contents ++ (switchPieces w).flatMap Piece.encode ∧
      w.switchBlock.dest.Reliable := by
  unfold Writer.switchBlock switchPieces
  by_cases tail : kBlockSize - w.blockOffset < kHeaderSize
  · by_cases empty : kBlockSize - w.blockOffset > 0
    · obtain ⟨appended, stillReliable⟩ := reliable.append (List.replicate (kBlockSize - w.blockOffset) 0)
      simp [tail, empty, appended, stillReliable, Piece.encode]
    · simp_all [Piece.encode]
  · simp [tail, reliable]

theorem emitPhysicalRecord_reliable (t : RecordType) (data : Bytes) :
    (w.emitPhysicalRecord t data).1 = .ok ∧
      (w.emitPhysicalRecord t data).2.dest.contents = w.dest.contents ++ (header t data ++ data) ∧
      (w.emitPhysicalRecord t data).2.dest.Reliable := by
  obtain ⟨headerAppended, afterHeader⟩ := reliable.append (header t data)
  obtain ⟨dataAppended, afterData⟩ := afterHeader.append data
  obtain ⟨flushed, afterFlush⟩ := afterData.flush
  simp only [Writer.emitPhysicalRecord, headerAppended, Status.isOk, if_true, dataAppended, flushed]
  refine ⟨trivial, by simp, afterFlush⟩

end Reliable

theorem fits_switchBlock (w : Writer) :
    Fits w.blockOffset (switchPieces w) w.switchBlock.blockOffset := by
  rw [blockOffset_switchBlock]
  unfold switchPieces
  split
  · exact .trailer ‹_› (.nil 0)
  · exact .nil _

theorem filterMap_switchPieces (w : Writer) : (switchPieces w).filterMap Piece.fragment = [] := by
  unfold switchPieces
  split <;> rfl

theorem fragmentType_ne_zero (begin «end» : Bool) : fragmentType begin «end» ≠ .kZeroType := by
  unfold fragmentType
  split_ifs <;> simp

theorem Shaped.single (begin : Bool) (data : Bytes) : Shaped begin [(fragmentType begin true, data)] data := by
  cases begin
  · exact .last data
  · exact .full data

theorem Shaped.cons_fragment {begin : Bool} {data rest : Bytes} {frags : List (RecordType × Bytes)}
    (shaped : Shaped false frags rest) : Shaped begin ((fragmentType begin false, data) :: frags) (data ++ rest) := by
  cases begin
  · exact .middle shaped
  · exact .first shaped

theorem room_switchBlock (w : Writer) : w.switchBlock.blockOffset + kHeaderSize ≤ kBlockSize ∨
    kBlockSize - w.blockOffset < kHeaderSize ∧ w.switchBlock.blockOffset = 0 := by
  rw [blockOffset_switchBlock]
  split
  · exact .inr ⟨‹_›, rfl⟩
  · left
    simp only [kBlockSize, kHeaderSize] at *
    omega

theorem addRecordLoop_pieces (w : Writer) (begin : Bool) (left : Bytes) (reliable : w.dest.Reliable) :
    (w.addRecordLoop begin left).1 = .ok ∧
    ∃ pieces, (w.addRecordLoop begin left).2.dest.contents = w.dest.contents ++ pieces.flatMap Piece.encode ∧
      Fits w.blockOffset pieces (w.addRecordLoop begin left).2.blockOffset ∧
      Shaped begin (pieces.filterMap Piece.fragment) left ∧ (w.addRecordLoop begin left).2.dest.Reliable := by
  fun_induction Writer.addRecordLoop w begin left with
  | case1 w begin left switched avail fragmentLength emitted more ih =>
    -- a fragment that does not end the record, then the rest of the loop
    obtain ⟨switchedContents, switchedReliable⟩ := switchBlock_reliable reliable
    obtain ⟨-, emittedContents, emittedReliable⟩ := emitPhysicalRecord_reliable switchedReliable
      (fragmentType begin (left.length == fragmentLength)) (left.take fragmentLength)
    obtain ⟨ok, pieces, contents, fits, shaped, finalReliable⟩ := ih emittedReliable
    have notEnd : (left.length == fragmentLength) = false := by
      have := (Bool.and_eq_true_iff.mp more).2
      simp only [beq_eq_false_iff_ne, decide_eq_true_eq] at this ⊢
      omega
    have room : switched.blockOffset + kHeaderSize + (left.take fragmentLength).length ≤ kBlockSize := by
      have bound := room_switchBlock w
      simp only [switched, avail, fragmentLength, List.length_take, kBlockSize, kHeaderSize] at bound ⊢
      omega
    refine ⟨ok, switchPieces w ++
      .physical (fragmentType begin (left.length == fragmentLength)) (left.take fragmentLength) :: pieces,
      ?_, ?_, ?_, finalReliable⟩
    · rw [contents, emittedContents, switchedContents]
      simp [Piece.encode]
    · exact (fits_switchBlock w).append (.physical (fragmentType_ne_zero _ _) room fits)
    · rw [List.filterMap_append, filterMap_switchPieces, List.nil_append]
      simp only [List.filterMap_cons, Piece.fragment, notEnd]
      have shapedAll : Shaped begin ((fragmentType begin false, left.take fragmentLength) ::
          pieces.filterMap Piece.fragment) (left.take fragmentLength ++ left.drop fragmentLength) :=
        Shaped.cons_fragment shaped
      rwa [List.take_append_drop] at shapedAll
  | case2 w begin left switched avail fragmentLength emitted stops =>
    -- the last fragment: the rest of the record fits in this block
    obtain ⟨switchedContents, switchedReliable⟩ := switchBlock_reliable reliable
    obtain ⟨ok, emittedContents, emittedReliable⟩ := emitPhysicalRecord_reliable switchedReliable
      (fragmentType begin (left.length == fragmentLength)) (left.take fragmentLength)
    have whole : fragmentLength = left.length := by
      have emittedOk : emitted.1 = .ok := ok
      simp only [emittedOk, Status.isOk, Bool.true_and, decide_eq_true_eq] at stops
      omega
    have room : switched.blockOffset + kHeaderSize + (left.take fragmentLength).length ≤ kBlockSize := by
      have bound := room_switchBlock w
      simp only [switched, avail, fragmentLength, List.length_take, kBlockSize, kHeaderSize] at bound ⊢
      omega
    refine ⟨ok, switchPieces w ++
      [.physical (fragmentType begin (left.length == fragmentLength)) (left.take fragmentLength)], ?_, ?_, ?_,
      emittedReliable⟩
    · rw [emittedContents, switchedContents]
      simp [Piece.encode]
    · exact (fits_switchBlock w).append (.physical (fragmentType_ne_zero _ _) room (.nil _))
    · rw [List.filterMap_append, filterMap_switchPieces, List.nil_append]
      simp only [List.filterMap_cons, Piece.fragment, List.filterMap_nil, whole, beq_self_eq_true,
        List.take_length]
      exact Shaped.single begin left

theorem addRecords_pieces (records : List Bytes) : ∀ (w : Writer), w.dest.Reliable →
    ∃ pieces, (records.foldl (fun w record => (w.addRecord record).2) w).dest.contents =
        w.dest.contents ++ pieces.flatMap Piece.encode ∧
      Fits w.blockOffset pieces (records.foldl (fun w record => (w.addRecord record).2) w).blockOffset ∧
      Records (pieces.filterMap Piece.fragment) records ∧
      (records.foldl (fun w record => (w.addRecord record).2) w).dest.Reliable := by
  induction records with
  | nil => intro w reliable; exact ⟨[], by simp, .nil _, .nil, reliable⟩
  | cons record records ih =>
    intro w reliable
    obtain ⟨-, first, contents, fits, shaped, stillReliable⟩ := addRecordLoop_pieces w true record reliable
    obtain ⟨later, contentsLater, fitsLater, written, finalReliable⟩ := ih (w.addRecord record).2 stillReliable
    refine ⟨first ++ later, ?_, fits.append fitsLater, ?_, finalReliable⟩
    · rw [List.foldl_cons, contentsLater, Writer.addRecord, contents, List.flatMap_append, List.append_assoc]
    · rw [List.filterMap_append]
      exact .cons shaped written

/-! ## The reader inside a block -/

/-- The reader stands at offset `o` of a block, with `rest` the file from
there on: its buffer holds the rest of the block, its file what follows, and
`eof` records whether the block was cut short by the end of the file. -/
structure At (r : Reader) (o : Nat) (rest : Bytes) : Prop where
  buffer : r.buffer = rest.take (kBlockSize - o)
  file : r.file = rest.drop (kBlockSize - o)
  eof : r.eof = decide (rest.length < kBlockSize - o)
  initialOffset : r.initialOffset = 0
  bounded : o ≤ kBlockSize

theorem At.new (file : Bytes) (checksum : Bool) : At (Reader.new file checksum 0) kBlockSize file where
  buffer := by simp [Reader.new]
  file := by simp [Reader.new]
  eof := by simp [Reader.new]
  initialOffset := rfl
  bounded := le_rfl

theorem length_field (n : Nat) (small : n < 2 ^ 16) :
    (UInt8.ofNat n).toNat ||| (UInt8.ofNat (n >>> 8)).toNat <<< 8 = n := by
  simp only [UInt8.toNat_ofNat', Nat.shiftRight_eq_div_pow]
  rw [show n / 2 ^ 8 % 2 ^ 8 = n / 256 by omega, Nat.or_comm,
    ← Nat.shiftLeft_add_eq_or_of_lt (by omega : n % 2 ^ 8 < 2 ^ 8), Nat.shiftLeft_eq]
  omega

@[simp] theorem length_header (t : RecordType) (data : Bytes) : (header t data).length = kHeaderSize := by
  simp [header, kHeaderSize]

theorem headerType_toNat (t : RecordType) : headerType (UInt8.ofNat t.toNat) = t.toNat := by
  cases t <;> rfl

theorem header_fields (t : RecordType) (data more : Bytes) :
    (header t data ++ more).getD 4 0 = UInt8.ofNat data.length ∧
    (header t data ++ more).getD 5 0 = UInt8.ofNat (data.length >>> 8) ∧
    (header t data ++ more).getD 6 0 = UInt8.ofNat t.toNat ∧
    decodeFixed32 (header t data ++ more) = Crc32c.mask (Crc32c.extend (typeCrc t) data) ∧
    (header t data ++ more).drop 6 = UInt8.ofNat t.toNat :: more ∧
    (header t data ++ more).drop kHeaderSize = more := by
  simp [header, List.getD_eq_getElem?_getD, List.getElem?_append_right, List.drop_append,
    decodeFixed32_encode, kHeaderSize]

theorem unmask_header_crc (t : RecordType) (data : Bytes) :
    Crc32c.unmask (Crc32c.mask (Crc32c.extend (typeCrc t) data)) = Crc32c.value (UInt8.ofNat t.toNat :: data) := by
  rw [Crc32c.unmask_mask, typeCrc, Crc32c.value, Crc32c.value, Crc32c.extend_append]
  rfl

theorem At.readPhysicalRecord_physical {r : Reader} {o : Nat} {t : RecordType} {data rest : Bytes}
    (at_ : At r o (header t data ++ data ++ rest)) (valid : t ≠ .kZeroType)
    (fits : o + kHeaderSize + data.length ≤ kBlockSize) :
    readPhysicalRecord r = (t.toNat, data, { r with buffer := r.buffer.drop (kHeaderSize + data.length) }) ∧
      At { r with buffer := r.buffer.drop (kHeaderSize + data.length) } (o + kHeaderSize + data.length) rest := by
  have buffer : r.buffer =
      header t data ++ (data ++ rest.take (kBlockSize - (o + kHeaderSize + data.length))) := by
    rw [at_.buffer, List.append_assoc, List.take_append, List.take_of_length_le (by simp; omega),
      List.take_append, List.take_of_length_le (by simp; omega)]
    simp only [length_header]
    congr 3
    omega
  have short : data.length < 2 ^ 16 := by
    simp only [kBlockSize, kHeaderSize] at fits
    omega
  obtain ⟨f4, f5, f6, crc, drop6, dropHeader⟩ :=
    header_fields t data (data ++ rest.take (kBlockSize - (o + kHeaderSize + data.length)))
  have typeCode : t.toNat ≠ RecordType.kZeroType.toNat := by
    cases t <;> simp_all [RecordType.toNat]
  have takeCrc : ∀ more : Bytes,
      (UInt8.ofNat t.toNat :: (data ++ more)).take (1 + data.length) = UInt8.ofNat t.toNat :: data := by
    intro more
    rw [Nat.add_comm]
    simp
  constructor
  · rw [readPhysicalRecord.eq_1 r]
    simp only [buffer, f4, f5, f6, length_field _ short, headerType_toNat, crc, drop6, dropHeader,
      unmask_header_crc, takeCrc, at_.initialOffset]
    simp [kHeaderSize, typeCode]
  · have remaining : kBlockSize - o =
        (header t data ++ data).length + (kBlockSize - (o + kHeaderSize + data.length)) := by
      simp only [List.length_append, length_header]
      omega
    constructor
    · simp [buffer, List.drop_append, kHeaderSize]
    · rw [at_.file, remaining, List.drop_append]
      simp
    · simp only [at_.eof, List.length_append, length_header, decide_eq_decide]
      omega
    · exact at_.initialOffset
    · exact fits

/-- The reader after `file_->Read (kBlockSize, ...)`. -/
def nextBlock (r : Reader) : Reader :=
  { r with
    buffer := r.file.take kBlockSize
    file := r.file.drop kBlockSize
    endOfBufferOffset := r.endOfBufferOffset + UInt64.ofNat (r.file.take kBlockSize).length
    eof := decide ((r.file.take kBlockSize).length < kBlockSize) }

theorem readPhysicalRecord_nextBlock {r : Reader} (low : r.buffer.length < kHeaderSize) (notEof : r.eof = false) :
    readPhysicalRecord r = readPhysicalRecord (nextBlock r) := by
  rw [readPhysicalRecord.eq_1 r]
  simp only [low, if_true, notEof, Bool.not_false]
  rfl

theorem At.readPhysicalRecord_trailer {r : Reader} {o : Nat} {rest : Bytes}
    (at_ : At r o (List.replicate (kBlockSize - o) 0 ++ rest)) (tail : kBlockSize - o < kHeaderSize) :
    readPhysicalRecord r = readPhysicalRecord (nextBlock r) ∧ At (nextBlock r) 0 rest := by
  have buffer : r.buffer = List.replicate (kBlockSize - o) 0 := by
    rw [at_.buffer, List.take_append, List.take_of_length_le (by simp)]
    simp
  have notEof : r.eof = false := by
    simp only [at_.eof, List.length_append, List.length_replicate, decide_eq_false_iff_not]
    omega
  have file : r.file = rest := by
    rw [at_.file, List.drop_append]
    simp
  refine ⟨readPhysicalRecord_nextBlock (by simpa [buffer] using tail) notEof, ?_⟩
  constructor
  · simp [nextBlock, file]
  · simp [nextBlock, file]
  · simp [nextBlock, file]
  · exact at_.initialOffset
  · exact Nat.zero_le _

theorem At.readPhysicalRecord_end {r : Reader} {o : Nat} (at_ : At r o []) :
    ∃ next, readPhysicalRecord r = (kEof, [], next) ∧ next.reported = r.reported := by
  have buffer : r.buffer = [] := by simp [at_.buffer]
  have file : r.file = [] := by simp [at_.file]
  by_cases inside : o < kBlockSize
  · have ended : r.eof = true := by
      simp only [at_.eof, List.length_nil, decide_eq_true_eq]
      omega
    refine ⟨r, ?_, rfl⟩
    rw [readPhysicalRecord.eq_1 r]
    simp [buffer, ended, kHeaderSize]
  · -- at the end of a full block: one more read finds nothing
    have notEof : r.eof = false := by
      simp only [at_.eof, List.length_nil, decide_eq_false_iff_not]
      omega
    refine ⟨nextBlock r, ?_, rfl⟩
    rw [readPhysicalRecord_nextBlock (by simp [buffer, kHeaderSize]) notEof, readPhysicalRecord.eq_1]
    simp [nextBlock, file, kHeaderSize, kBlockSize]

/-! ## The fragments a reader hands out -/

/-- The reader hands out the physical records `frags` (type code and payload),
one a call and each without a report, and then the end of the file. -/
inductive Emits : Reader → List (Nat × Bytes) → Prop
  | eof {r next : Reader} : readPhysicalRecord r = (kEof, [], next) → next.reported = r.reported → Emits r []
  | fragment {r next : Reader} {t : Nat} {data : Bytes} {frags : List (Nat × Bytes)} :
      readPhysicalRecord r = (t, data, next) → next.reported = r.reported → next.initialOffset = 0 →
      Emits next frags → Emits r ((t, data) :: frags)

theorem Emits.of_read_eq {r r' : Reader} {frags : List (Nat × Bytes)} (emits : Emits r' frags)
    (same : readPhysicalRecord r = readPhysicalRecord r') (reported : r'.reported = r.reported) :
    Emits r frags := by
  cases emits with
  | eof read kept => exact .eof (same.trans read) (kept.trans reported)
  | fragment read kept initial rest => exact .fragment (same.trans read) (kept.trans reported) initial rest

def codes (frags : List (RecordType × Bytes)) : List (Nat × Bytes) :=
  frags.map fun frag => (frag.1.toNat, frag.2)

theorem emits_of_fits {o o' : Nat} {pieces : List Piece} (fits : Fits o pieces o') :
    ∀ {r : Reader}, At r o (pieces.flatMap Piece.encode) → Emits r (codes (pieces.filterMap Piece.fragment)) := by
  induction fits with
  | nil o =>
    intro r at_
    obtain ⟨next, read, kept⟩ := At.readPhysicalRecord_end (by simpa using at_)
    exact .eof read kept
  | @physical o o' t data pieces valid room _ ih =>
    intro r at_
    have atRecord : At r o (header t data ++ data ++ pieces.flatMap Piece.encode) := by
      simpa [Piece.encode] using at_
    obtain ⟨read, atNext⟩ := atRecord.readPhysicalRecord_physical valid room
    simpa [codes, Piece.fragment] using .fragment read rfl atNext.initialOffset (ih atNext)
  | trailer tail _ ih =>
    intro r at_
    obtain ⟨read, atNext⟩ := At.readPhysicalRecord_trailer (by simpa [Piece.encode] using at_) tail
    exact (ih atNext).of_read_eq read rfl

/-! ## `ReadRecord` on emitted fragments -/

theorem reportCorruption_eq (r : Reader) (bytes : Nat) (reason : String) :
    r.reportCorruption bytes reason =
      { r with reported :=
          if r.endOfBufferOffset - UInt64.ofNat r.buffer.length - UInt64.ofNat bytes ≥ r.initialOffset then
            r.reported ++ [(bytes, .corruption reason)]
          else r.reported } := by
  unfold reportCorruption reportDrop
  split <;> rfl

theorem readPhysicalRecord_withLastRecordOffset (r : Reader) (x : UInt64) :
    readPhysicalRecord { r with lastRecordOffset := x } =
      ((readPhysicalRecord r).1, (readPhysicalRecord r).2.1,
        { (readPhysicalRecord r).2.2 with lastRecordOffset := x }) := by
  fun_induction readPhysicalRecord r with
  | case1 r low notEof buffer ih =>
    have notEof' : r.eof = false := by simpa using notEof
    rw [readPhysicalRecord_nextBlock (show ({ r with lastRecordOffset := x } : Reader).buffer.length < kHeaderSize
      from low) notEof']
    exact ih
  | case2 r low eof empty =>
    rw [readPhysicalRecord.eq_1]
    dsimp only
    rw [if_pos low, if_neg eof, if_pos empty]
  | case3 r low eof nonempty =>
    rw [readPhysicalRecord.eq_1]
    dsimp only
    rw [if_pos low, if_neg eof, if_neg nonempty]
    simp [reportCorruption_eq]
  | case4 r high header length long =>
    rw [readPhysicalRecord.eq_1]
    dsimp only
    rw [if_neg high, if_pos long]
    simp [reportCorruption_eq]
  | case5 r high header length type long zero =>
    rw [readPhysicalRecord.eq_1]
    dsimp only
    rw [if_neg high, if_neg long, if_pos zero]
  | case6 r high header length type long zero mismatch =>
    rw [readPhysicalRecord.eq_1]
    dsimp only
    rw [if_neg high, if_neg long, if_neg zero, if_pos mismatch]
    simp [reportCorruption_eq]
  | case7 r high header length type long zero mismatch r' before =>
    rw [readPhysicalRecord.eq_1]
    dsimp only
    rw [if_neg high, if_neg long, if_neg zero, if_neg mismatch, if_pos before]
  | case8 r high header length type long zero mismatch r' notBefore =>
    rw [readPhysicalRecord.eq_1]
    dsimp only
    rw [if_neg high, if_neg long, if_neg zero, if_neg mismatch, if_neg notBefore]

theorem Emits.withLastRecordOffset {r : Reader} {frags : List (Nat × Bytes)} (emits : Emits r frags)
    (x : UInt64) : Emits { r with lastRecordOffset := x } frags := by
  induction emits with
  | @eof r next read kept =>
    exact .eof (show readPhysicalRecord { r with lastRecordOffset := x } =
      (kEof, [], { next with lastRecordOffset := x }) by rw [readPhysicalRecord_withLastRecordOffset, read]) kept
  | @fragment r next t data frags read kept initial _ ih =>
    exact .fragment (show readPhysicalRecord { r with lastRecordOffset := x } =
      (t, data, { next with lastRecordOffset := x }) by rw [readPhysicalRecord_withLastRecordOffset, read])
      kept initial ih

theorem readRecordLoop_shaped {begin : Bool} {frags : List (RecordType × Bytes)} {record : Bytes}
    (shaped : Shaped begin frags record) :
    ∀ (r : Reader) (scratch : Bytes) (prospective : UInt64) {rest : List (Nat × Bytes)},
      Emits r (codes frags ++ rest) → (begin = true → scratch = []) →
      ∃ next, readRecordLoop r (!begin) scratch prospective = (some (scratch ++ record), next) ∧
        next.reported = r.reported ∧ next.initialOffset = 0 ∧ Emits next rest := by
  induction shaped with
  | full data =>
    intro r scratch prospective rest emits fresh
    cases emits with
    | @fragment _ next _ _ _ read kept initial emitsRest =>
      refine ⟨{ next with lastRecordOffset := r.endOfBufferOffset - UInt64.ofNat r.buffer.length }, ?_, kept,
        initial, emitsRest.withLastRecordOffset _⟩
      rw [readRecordLoop.eq_1]
      split
      rename_i same
      rw [read] at same
      cases same
      simp [fresh rfl, reportPartialRecord, RecordType.toNat]
  | last data =>
    intro r scratch prospective rest emits _
    cases emits with
    | @fragment _ next _ _ _ read kept initial emitsRest =>
      refine ⟨{ next with lastRecordOffset := prospective }, ?_, kept, initial,
        emitsRest.withLastRecordOffset _⟩
      rw [readRecordLoop.eq_1]
      split
      rename_i same
      rw [read] at same
      cases same
      simp [RecordType.toNat]
  | @first data _ _ _ ih =>
    intro r scratch prospective rest emits fresh
    cases emits with
    | @fragment _ next _ _ _ read kept initial emitsRest =>
      obtain ⟨final, loop, keptRest, initialRest, emitsFinal⟩ :=
        ih next data (r.endOfBufferOffset - UInt64.ofNat r.buffer.length) emitsRest (fun absurd => by cases absurd)
      refine ⟨final, ?_, keptRest.trans kept, initialRest, emitsFinal⟩
      rw [readRecordLoop.eq_1]
      split
      rename_i same
      rw [read] at same
      cases same
      simpa [fresh rfl, reportPartialRecord, RecordType.toNat] using loop
  | @middle data _ _ _ ih =>
    intro r scratch prospective rest emits _
    cases emits with
    | @fragment _ next _ _ _ read kept initial emitsRest =>
      obtain ⟨final, loop, keptRest, initialRest, emitsFinal⟩ :=
        ih next (scratch ++ data) prospective emitsRest (fun absurd => by cases absurd)
      refine ⟨final, ?_, keptRest.trans kept, initialRest, emitsFinal⟩
      rw [readRecordLoop.eq_1]
      split
      rename_i same
      rw [read] at same
      cases same
      simpa [RecordType.toNat] using loop

/-! ## The records read back -/

/-- Successive `ReadRecord` calls return `records`, then `false`, and none of
them calls the reporter. -/
inductive Yields : Reader → List Bytes → Prop
  | done {r next : Reader} : readRecord r = (none, next) → next.reported = r.reported → Yields r []
  | record {r next : Reader} {record : Bytes} {records : List Bytes} :
      readRecord r = (some record, next) → next.reported = r.reported → Yields next records →
      Yields r (record :: records)

theorem readRecord_of_initialOffset {r : Reader} (initial : r.initialOffset = 0) :
    readRecord r = readRecordLoop r false [] 0 := by
  simp [readRecord, initial]

theorem yields_of_records {frags : List (RecordType × Bytes)} {records : List Bytes}
    (written : Records frags records) :
    ∀ {r : Reader}, r.initialOffset = 0 → Emits r (codes frags) → Yields r records := by
  induction written with
  | nil =>
    intro r initial emits
    cases emits with
    | @eof _ next read kept =>
      refine .done ?_ kept
      rw [readRecord_of_initialOffset initial, readRecordLoop.eq_1]
      split
      rename_i same
      rw [read] at same
      cases same
      simp [RecordType.toNat, kEof, kMaxRecordType]
  | @cons frags rest record records shaped _ ih =>
    intro r initial emits
    obtain ⟨next, loop, kept, initialNext, emitsNext⟩ :=
      readRecordLoop_shaped shaped r [] 0 (by simpa [codes] using emits) (fun _ => rfl)
    exact .record (by rw [readRecord_of_initialOffset initial]; simpa using loop) kept (ih initialNext emitsNext)

/-- A file of pieces that fit the blocks from the start: `ReadRecord` returns
the records they carry, in order, and then the end of the file, without
reporting any corruption. -/
theorem yields_of_pieces {pieces : List Piece} {o : Nat} {records : List Bytes} (fits : Fits 0 pieces o)
    (written : Records (pieces.filterMap Piece.fragment) records) (checksum : Bool) :
    Yields (Reader.new (pieces.flatMap Piece.encode) checksum 0) records := by
  have atStart : At (Reader.new (pieces.flatMap Piece.encode) checksum 0) kBlockSize
      (List.replicate (kBlockSize - kBlockSize) 0 ++ pieces.flatMap Piece.encode) := by
    simpa using At.new (pieces.flatMap Piece.encode) checksum
  -- the first call reads the first block
  obtain ⟨read, atBlock⟩ := atStart.readPhysicalRecord_trailer (by simp [kHeaderSize])
  exact yields_of_records written rfl ((emits_of_fits fits atBlock).of_read_eq read rfl)

/-- On a new log file whose writes do not fail, `ReadRecord` returns the
records `AddRecord` wrote, in order, and then the end of the file, without
reporting any corruption. -/
theorem readRecord_addRecord (records : List Bytes) (dest : WritableFile) (empty : dest.contents = [])
    (reliable : dest.Reliable) (checksum : Bool) :
    Yields (Reader.new (records.foldl (fun w record => (w.addRecord record).2) (Writer.new dest)).dest.contents
      checksum 0) records := by
  obtain ⟨pieces, contents, fits, written, -⟩ := addRecords_pieces records (Writer.new dest) reliable
  rw [contents, Writer.new, empty, List.nil_append]
  exact yields_of_pieces fits written checksum

end HLsm.Log
