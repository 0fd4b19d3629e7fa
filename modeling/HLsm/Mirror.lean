import HLsm.Coding
import HLsm.Lib.PosixFile

/-!
# `FullMirror_PosixWritableFile` and `PosixBufferFile` (`util/hlsm_util.cc`)

A mirrored file writes every `Append` to the primary file at once and hands
the secondary copy to `sfp_`, through the helper thread's FIFO queue when
`use_opq_thread` is set (as `hlsm::runtime::init` sets it in every mirroring
mode).  `sfp_` is a `PosixWritableFile` (`fwrite` straight to the file) or,
with `secondary_use_buffer_file`, a `PosixBufferFile`: it fills 4 MiB
buffers, queues each full one as an `MBufSync` (`pwrite` at `file_offset_`),
and on `Close` queues the last one padded to a multiple of `BLKSIZE`, an
`MTruncate` back to the file's length and an `MBufClose`.

The main thread and the helper thread are two step functions on one state;
a schedule of threads is an interleaving of whole calls and whole operations.
The two threads share only the queue, under its mutex.  `memalign` is a
parameter: the bytes of each new buffer are arbitrary, and the padding of the
last write comes from them.  Appended buffers stay unchanged until the helper
consumes them, and every `pwrite`, `fwrite` and `ftruncate` takes effect as
issued.  Operations of other files in the queue touch other descriptors and
are left out.

Results:
* `appendLoop_spec`: `PosixBufferFile::Append` queues full buffers at
  consecutive offsets and keeps the rest, for every split of the data.
* `foldl_applyOp_bufferFileOps`: a `PosixBufferFile`'s writes and cut leave
  the concatenation of its data.
* `inv_mainStep`, `inv_helperStep`: the invariant of the two threads.
* `mirroredWrites_identical`: for every split of the data and every
  interleaving, once the helper has run every operation, the primary and
  the secondary file both hold the concatenation of the appended data.
-/

set_option autoImplicit false

namespace HLsm.Mirror

open HLsm.Coding PosixFile

/-- `buffer_size_`: `4<<20`. -/
def bufferSize : Nat := 4 <<< 20

def blkSize : Nat := 4096

def roundup (x y : Nat) : Nat := (x + y - 1) / y * y

/-- The operations of `mio_op_t` that a mirrored file queues.  An `MBufSync`
carries the `size` bytes of its buffer: the writer never touches a queued
buffer again, and the helper frees it after the `pwrite`. -/
inductive Op where
  | append (data : Bytes)
  | appendOnly (data : Bytes)
  | close
  | bufSync (data : Bytes) (offset : Nat)
  | truncate (size : Nat)
  | bufClose
  deriving DecidableEq, Repr

def Op.isRequest : Op → Bool
  | .append _ | .appendOnly _ | .close => true
  | _ => false

def Op.isSync : Op → Bool
  | .bufSync _ _ => true
  | _ => false

/-- The data an operation hands to `sfp_->Append`. -/
def Op.data : Op → Bytes
  | .append data | .appendOnly data => data
  | _ => []

def Op.write : Op → Option (Nat × Bytes)
  | .bufSync data offset => some (offset, data)
  | _ => none

def syncOp (w : Nat × Bytes) : Op := .bufSync w.2 w.1

def requests (q : List Op) : Nat := q.countP Op.isRequest

def appendData (q : List Op) : Bytes := q.flatMap Op.data

def syncs (q : List Op) : List (Nat × Bytes) := q.filterMap Op.write

def applyOp (file : Bytes) : Op → Bytes
  | .bufSync data offset => pwrite 0 file offset data
  | .truncate size => ftruncate 0 file size
  | _ => file

@[simp] theorem appendData_nil : appendData [] = [] := rfl

@[simp] theorem appendData_cons (op : Op) (q : List Op) :
    appendData (op :: q) = op.data ++ appendData q := rfl

@[simp] theorem appendData_append (p q : List Op) :
    appendData (p ++ q) = appendData p ++ appendData q := List.flatMap_append

@[simp] theorem syncs_nil : syncs [] = [] := rfl

@[simp] theorem syncs_append (p q : List Op) : syncs (p ++ q) = syncs p ++ syncs q :=
  List.filterMap_append

@[simp] theorem syncs_map_syncOp (writes : List (Nat × Bytes)) : syncs (writes.map syncOp) = writes := by
  induction writes with
  | nil => rfl
  | cons w rest ih => simp [syncs, syncOp, Op.write] at ih ⊢; exact ih

@[simp] theorem appendData_map_syncOp (writes : List (Nat × Bytes)) :
    appendData (writes.map syncOp) = [] := by
  induction writes with
  | nil => rfl
  | cons w rest ih => simp [syncOp, Op.data, ih]

/-- `PosixBufferFile`: the bytes of the buffer `base_` points to, `dst_ - base_`,
`file_offset_`, and how many buffers were allocated.  `limit_ - base_` is
always `bufferSize`. -/
structure BufferFile where
  buffer : Nat → UInt8
  used : Nat
  fileOffset : Nat
  allocations : Nat

namespace BufferFile

/-- The buffer's bytes `[base_, dst_)`. -/
def bytes (f : BufferFile) : Bytes := (List.range f.used).map f.buffer

/-- `memcpy (dst_, src, n)` with `n = src.size ()`, and `dst_ += n`. -/
def copy (f : BufferFile) (src : Bytes) : BufferFile :=
  { f with
    buffer := fun i => if f.used ≤ i ∧ i < f.used + src.length then src.getD (i - f.used) 0 else f.buffer i
    used := f.used + src.length }

variable (memalign : Nat → Nat → UInt8)

def new : BufferFile := ⟨memalign 0, 0, 0, 1⟩

/-- A full buffer leaves for the queue: `file_offset_ += limit_ - base_` and a
new buffer from `memalign`. -/
def swap (f : BufferFile) : BufferFile :=
  ⟨memalign f.allocations, 0, f.fileOffset + bufferSize, f.allocations + 1⟩

/-- The `while (left > 0)` loop of `Append` over what is left of the data.
`avail` is read before a full buffer is swapped, so the turn that swaps copies
nothing. -/
def appendLoop (f : BufferFile) (src : Bytes) : BufferFile × List Op :=
  if src = [] then (f, [])
  else
    let avail := bufferSize - f.used
    let queued := if avail = 0 then [Op.bufSync f.bytes f.fileOffset] else []
    let g := if avail = 0 then f.swap memalign else f
    let n := min src.length avail
    let rest := appendLoop (g.copy (src.take n)) (src.drop n)
    (rest.1, queued ++ rest.2)
termination_by 2 * src.length + if bufferSize - f.used = 0 then 1 else 0
decreasing_by
  have nonempty : 0 < src.length := List.length_pos_iff.mpr ‹_›
  have full : 0 < bufferSize := by decide
  by_cases zero : bufferSize - f.used = 0
  · simp [zero, copy, swap]
    omega
  · simp only [zero, ↓reduceDIte, ↓reduceIte, copy, List.length_drop, List.length_take]
    split <;> omega

def append (f : BufferFile) (data : Bytes) : BufferFile × List Op := appendLoop memalign f data

/-- `PosixBufferFile::Close`: the buffer padded to a multiple of `BLKSIZE`,
the cut back to the file's length, and the `fclose`. -/
def close (f : BufferFile) : List Op :=
  [.bufSync ((List.range (roundup f.used blkSize)).map f.buffer) f.fileOffset,
    .truncate (f.fileOffset + f.used), .bufClose]

@[simp] theorem length_bytes (f : BufferFile) : f.bytes.length = f.used := by
  simp [bytes]

theorem bytes_copy (f : BufferFile) (src : Bytes) : (f.copy src).bytes = f.bytes ++ src := by
  simp only [bytes, copy, List.range_add, List.map_append, List.map_map]
  congr 1
  · refine List.map_congr_left fun i member => ?_
    have below : i < f.used := List.mem_range.mp member
    simp [show ¬ f.used ≤ i by omega]
  · refine List.ext_getElem (by simp) fun j inRange _ => ?_
    have below : j < src.length := by simpa using inRange
    simp [below, List.getD_eq_getElem?_getD]

@[simp] theorem used_swap (f : BufferFile) : (f.swap memalign).used = 0 := rfl

@[simp] theorem fileOffset_swap (f : BufferFile) :
    (f.swap memalign).fileOffset = f.fileOffset + bufferSize := rfl

@[simp] theorem bytes_swap (f : BufferFile) : (f.swap memalign).bytes = [] := rfl

@[simp] theorem fileOffset_copy (f : BufferFile) (src : Bytes) :
    (f.copy src).fileOffset = f.fileOffset := rfl

@[simp] theorem used_copy (f : BufferFile) (src : Bytes) : (f.copy src).used = f.used + src.length :=
  rfl

/-- What an append leaves: the writes it queued, at consecutive offsets from
the old file offset, and a buffer holding the rest of the data. -/
structure Appended (f : BufferFile) (data : Bytes) (f' : BufferFile) (writes : List (Nat × Bytes)) :
    Prop where
  consecutive : Consecutive f.fileOffset writes
  content : written writes ++ f'.bytes = f.bytes ++ data
  fileOffset : f'.fileOffset = f.fileOffset + (written writes).length
  fits : f'.used ≤ bufferSize

/-- `Append`'s loop queues whole buffers at consecutive offsets and keeps the
rest of the data in the buffer, for every split of the data. -/
theorem appendLoop_spec (f : BufferFile) (src : Bytes) (fits : f.used ≤ bufferSize) :
    ∃ writes, (appendLoop memalign f src).2 = writes.map syncOp ∧
      Appended f src (appendLoop memalign f src).1 writes := by
  fun_induction appendLoop memalign f src with
  | case1 f => exact ⟨[], rfl, ⟨trivial, by simp, by simp, fits⟩⟩
  | case2 f src nonempty avail queued g n rest ih =>
      simp only [rest, queued, g, n, avail] at ih ⊢
      by_cases full : bufferSize - f.used = 0
      · -- the full buffer is queued and a new one started; this turn copies nothing
        have atLimit : f.used = bufferSize := by omega
        simp only [full, ↓reduceDIte, Nat.min_zero, List.take_zero, List.drop_zero] at ih ⊢
        obtain ⟨writes, queuedRest, appended⟩ := ih (by simp)
        refine ⟨(f.fileOffset, f.bytes) :: writes, by simp [queuedRest, syncOp], ?_⟩
        have content := appended.content
        have offset := appended.fileOffset
        simp only [bytes_copy, bytes_swap, List.nil_append, fileOffset_copy, fileOffset_swap]
          at content offset
        refine ⟨⟨rfl, ?_⟩, ?_, ?_, appended.fits⟩
        · simpa [atLimit] using appended.consecutive
        · rw [written_cons, List.append_assoc, content]
        · rw [offset, written_cons, List.length_append, length_bytes, atLimit]
          omega
      · simp only [full, ↓reduceDIte, List.nil_append] at ih ⊢
        obtain ⟨writes, queuedRest, appended⟩ := ih (by simp; omega)
        have content := appended.content
        simp only [bytes_copy, List.append_assoc, List.take_append_drop] at content
        exact ⟨writes, queuedRest, appended.consecutive, content, appended.fileOffset, appended.fits⟩

theorem requests_appendLoop (f : BufferFile) (src : Bytes) :
    requests (appendLoop memalign f src).2 = 0 := by
  fun_induction appendLoop memalign f src with
  | case1 => rfl
  | case2 f src nonempty avail queued g n rest ih =>
      simp only [rest, queued] at ih ⊢
      split <;> simpa [requests, Op.isRequest] using ih

end BufferFile

theorem le_roundup (x : Nat) : x ≤ roundup x blkSize := by
  unfold roundup blkSize
  omega

theorem foldl_applyOp_syncs : ∀ (q : List Op) (file : Bytes), (∀ op ∈ q, op.isSync) →
    q.foldl applyOp file = (syncs q).foldl (fun f w => pwrite 0 f w.1 w.2) file
  | [], _, _ => rfl
  | op :: q, file, onlySyncs => by
      have rest := foldl_applyOp_syncs q (applyOp file op) fun op member =>
        onlySyncs op (List.mem_cons_of_mem _ member)
      cases op with
      | bufSync data offset => simpa [syncs, Op.write, applyOp] using rest
      | _ => simp [Op.isSync] at onlySyncs

theorem foldl_applyOp_close (file : Bytes) (q : List Op) (f : BufferFile)
    (onlySyncs : ∀ op ∈ q, op.isSync) (consecutive : Consecutive file.length (syncs q))
    (offset : f.fileOffset = file.length + (written (syncs q)).length) :
    (q ++ f.close).foldl applyOp file = file ++ written (syncs q) ++ f.bytes := by
  have atEnd : f.fileOffset = (file ++ written (syncs q)).length := by simp [offset]
  have padded : f.used ≤ ((List.range (roundup f.used blkSize)).map f.buffer).length := by
    simpa using le_roundup f.used
  rw [List.foldl_append, foldl_applyOp_syncs q file onlySyncs,
    foldl_pwrite_consecutive 0 _ _ consecutive]
  simp only [BufferFile.close, List.foldl_cons, List.foldl_nil, applyOp, atEnd, pwrite_length]
  rw [ftruncate_append 0 _ _ padded, ← List.map_take, List.take_range,
    Nat.min_eq_left (le_roundup f.used)]
  rfl

section BufferRun

variable (memalign : Nat → Nat → UInt8)

/-- One `Append` of a `PosixBufferFile`, with the operations queued so far. -/
def appendQueued (acc : BufferFile × List Op) (data : Bytes) : BufferFile × List Op :=
  ((acc.1.append memalign data).1, acc.2 ++ (acc.1.append memalign data).2)

/-- The operations a `PosixBufferFile` queues for appends of each data in
turn, then for its `Close`. -/
def bufferFileOps (datas : List Bytes) : List Op :=
  let last := datas.foldl (appendQueued memalign) (BufferFile.new memalign, [])
  last.2 ++ last.1.close

theorem foldl_appendQueued : ∀ (datas : List Bytes) (acc : BufferFile × List Op)
    (writes : List (Nat × Bytes)), acc.2 = writes.map syncOp → Consecutive 0 writes →
    acc.1.fileOffset = (written writes).length → acc.1.used ≤ bufferSize →
    ∃ writes', (datas.foldl (appendQueued memalign) acc).2 = writes'.map syncOp ∧
      Consecutive 0 writes' ∧
      (datas.foldl (appendQueued memalign) acc).1.fileOffset = (written writes').length ∧
      written writes' ++ (datas.foldl (appendQueued memalign) acc).1.bytes =
        written writes ++ acc.1.bytes ++ datas.flatten
  | [], acc, writes, queued, consecutive, offset, _ => ⟨writes, queued, consecutive, offset, by simp⟩
  | data :: datas, acc, writes, queued, consecutive, offset, fits => by
      obtain ⟨more, queuedMore, appended⟩ := BufferFile.appendLoop_spec memalign acc.1 data fits
      obtain ⟨writes', result⟩ := foldl_appendQueued datas (appendQueued memalign acc data)
        (writes ++ more) (by simp [appendQueued, BufferFile.append, queued, queuedMore])
        (consecutive_append.mpr ⟨consecutive, by simpa [offset] using appended.consecutive⟩)
        (by simp [appendQueued, BufferFile.append, appended.fileOffset, offset])
        appended.fits
      refine ⟨writes', result.1, result.2.1, result.2.2.1, ?_⟩
      rw [List.foldl_cons, result.2.2.2, List.flatten_cons]
      simp only [appendQueued, BufferFile.append, written_append, List.append_assoc, appended.content]

/-- For every split of the data, the operations of a `PosixBufferFile`, run in
order on the empty file, leave the concatenation of the data. -/
theorem foldl_applyOp_bufferFileOps (datas : List Bytes) :
    (bufferFileOps memalign datas).foldl applyOp [] = datas.flatten := by
  obtain ⟨writes, queued, consecutive, offset, content⟩ :=
    foldl_appendQueued memalign datas (BufferFile.new memalign, []) [] rfl trivial rfl (Nat.zero_le _)
  have onlySyncs : ∀ op ∈ writes.map syncOp, op.isSync := by
    intro op member
    obtain ⟨w, -, rfl⟩ := List.mem_map.mp member
    rfl
  rw [bufferFileOps]
  simp only [queued]
  rw [foldl_applyOp_close [] _ _ onlySyncs (by simpa using consecutive) (by simpa using offset)]
  simpa [BufferFile.new, BufferFile.bytes] using content

end BufferRun

/-- `sfp_`. -/
inductive Writer where
  | plain
  | buffer (f : BufferFile)
  | deleted

/-- The settings a mirrored file reads: `hlsm::runtime::delayed_buf_reset`,
`hlsm::config::append_by_opq` and `hlsm::config::secondary_use_buffer_file`. -/
structure Config where
  delayedBufReset : Bool
  appendByOpq : Bool
  secondaryUseBufferFile : Bool
  deriving DecidableEq, Repr

/-- A mirrored file and the helper thread: the `Append` calls still to come
(with their `delayed_buf_reset` argument), whether `Close` was called, the
queue, `sfp_`, and the contents of the two files. -/
structure System where
  calls : List (Bytes × Bool)
  closed : Bool
  queue : List Op
  writer : Writer
  primary : Bytes
  secondary : Bytes

section Steps

variable (memalign : Nat → Nat → UInt8) (cfg : Config)

/-- The constructor: both files opened empty, `sfp_` by the setting. -/
def System.init (calls : List (Bytes × Bool)) : System :=
  ⟨calls, false, [],
    if cfg.secondaryUseBufferFile then .buffer (BufferFile.new memalign) else .plain, [], []⟩

/-- `sfp_->Append (data)`. -/
def writerAppend (s : System) (data : Bytes) : System :=
  match s.writer with
  | .plain => { s with secondary := s.secondary ++ data }
  | .buffer f =>
      { s with writer := .buffer (f.append memalign data).1,
               queue := s.queue ++ (f.append memalign data).2 }
  | .deleted => s

/-- `sfp_->Close (); delete sfp_`. -/
def writerClose (s : System) : System :=
  match s.writer with
  | .plain => { s with writer := .deleted }
  | .buffer f => { s with writer := .deleted, queue := s.queue ++ f.close }
  | .deleted => s

/-- `FullMirror_PosixWritableFile::Append (data, delayed_buf_reset)`: the
secondary copy, then `fp_->Append (data)`. -/
def mirrorAppend (s : System) (data : Bytes) (delayed : Bool) : System :=
  let s :=
    if cfg.delayedBufReset then
      { s with queue := s.queue ++ [if delayed then .appendOnly data else .append data] }
    else if cfg.appendByOpq then { s with queue := s.queue ++ [.append data] }
    else writerAppend memalign s data
  { s with primary := s.primary ++ data }

/-- `FullMirror_PosixWritableFile::Close`: `fp_->Close ()` leaves the primary
contents as they are. -/
def mirrorClose (s : System) : System := { s with queue := s.queue ++ [.close], closed := true }

def mainStep (s : System) : System :=
  match s.calls with
  | (data, delayed) :: rest => mirrorAppend memalign cfg { s with calls := rest } data delayed
  | [] => if s.closed then s else mirrorClose s

/-- One operation of `opq_helper`. -/
def runOp (s : System) : Op → System
  | .append data | .appendOnly data => writerAppend memalign s data
  | .close => writerClose s
  | .bufSync data offset => { s with secondary := pwrite 0 s.secondary offset data }
  | .truncate size => { s with secondary := ftruncate 0 s.secondary size }
  | .bufClose => s

def helperStep (s : System) : System :=
  match s.queue with
  | [] => s
  | op :: rest => runOp memalign { s with queue := rest } op

/-- The thread that takes the next step. -/
inductive Thread where
  | main
  | helper
  deriving DecidableEq, Repr

def run (s : System) (schedule : List Thread) : System :=
  schedule.foldl
    (fun s t => match t with
      | .main => mainStep memalign cfg s
      | .helper => helperStep memalign s)
    s

/-- The main thread's remaining calls and its `Close`. -/
def finishMain (s : System) : System := (mainStep memalign cfg)^[s.calls.length + 1] s

end Steps

/-! ## Draining the queue -/

section Drain

variable (memalign : Nat → Nat → UInt8)

theorem requests_writerAppend (s : System) (data : Bytes) :
    requests (writerAppend memalign s data).queue = requests s.queue := by
  unfold writerAppend
  split
  · rfl
  · rw [requests, List.countP_append]
    exact congrArg (requests s.queue + ·) (BufferFile.requests_appendLoop memalign _ data)
  · rfl

theorem requests_writerClose (s : System) : requests (writerClose s).queue = requests s.queue := by
  unfold writerClose
  split <;> simp [requests, BufferFile.close, Op.isRequest]

theorem helperStep_lt {s : System} {op : Op} {rest : List Op} (head : s.queue = op :: rest) :
    Prod.Lex (· < ·) (· < ·)
      (requests (helperStep memalign s).queue, (helperStep memalign s).queue.length)
      (requests s.queue, s.queue.length) := by
  have popped : requests (op :: rest) = requests rest + (if op.isRequest then 1 else 0) := by
    rw [requests, List.countP_cons]
    rfl
  rw [Prod.lex_def]
  simp only [helperStep, head]
  cases op with
  | append data | appendOnly data =>
      left
      simp [runOp, requests_writerAppend, popped, Op.isRequest]
  | close =>
      left
      simp [runOp, requests_writerClose, popped, Op.isRequest]
  | bufSync data offset | truncate size | bufClose =>
      right
      simp [runOp, popped, Op.isRequest]

def drain (s : System) : System :=
  match _head : s.queue with
  | [] => s
  | _ :: _ => drain (helperStep memalign s)
termination_by (requests s.queue, s.queue.length)
decreasing_by exact helperStep_lt memalign ‹_›

end Drain

def finish (memalign : Nat → Nat → UInt8) (cfg : Config) (s : System) : System :=
  drain memalign (finishMain memalign cfg s)

/-! ## The invariant of the two threads -/

section Invariant

variable (memalign : Nat → Nat → UInt8) (cfg : Config) (total : Bytes)

/-- What the secondary side holds beyond the queued appends: the file, the
queued writes and `sfp_`'s buffer; once `sfp_` is deleted, what the queued
file operations leave of the file. -/
def held (s : System) : Bytes :=
  match s.writer with
  | .plain => s.secondary
  | .buffer f => s.secondary ++ written (syncs s.queue) ++ f.bytes
  | .deleted => s.queue.foldl applyOp s.secondary

/-- The queue agrees with `sfp_`: a `PosixWritableFile` queues nothing of its
own, a buffer's writes follow each other up to its file offset, and after
`MClose` only file operations are left. -/
def WriterOk (s : System) : Prop :=
  match s.writer with
  | .plain => ∀ op ∈ s.queue, op.isRequest
  | .buffer f => (∀ op ∈ s.queue, op.isRequest ∨ op.isSync) ∧
      Consecutive s.secondary.length (syncs s.queue) ∧
      f.fileOffset = s.secondary.length + (written (syncs s.queue)).length ∧ f.used ≤ bufferSize
  | .deleted => ∀ op ∈ s.queue, op.isRequest = false

/-- The queue holds the main thread's `MClose`, and nothing of the main thread
after it. -/
def CloseQueued (q : List Op) : Prop :=
  ∃ a c, q = a ++ .close :: c ∧ Op.close ∉ a ∧ ∀ op ∈ c, op.isRequest = false

/-- The invariant of the main thread and the helper; `total` is the data of
all the calls. -/
structure Inv (s : System) : Prop where
  primary : s.primary ++ (s.calls.map Prod.fst).flatten = total
  direct : cfg.delayedBufReset = false → cfg.appendByOpq = false → appendData s.queue = []
  opened : s.closed = false → Op.close ∉ s.queue ∧ s.writer ≠ .deleted
  closing : s.closed = true → s.calls = [] ∧ (s.writer = .deleted ∨ CloseQueued s.queue)
  writer : WriterOk s
  secondary : held s ++ appendData s.queue = s.primary

theorem Op.write_eq_none {op : Op} (notSync : op.isSync = false) : op.write = none := by
  cases op <;> simp_all [Op.isSync, Op.write]

theorem Op.data_eq_nil {op : Op} (notRequest : op.isRequest = false) : op.data = [] := by
  cases op <;> simp_all [Op.isRequest, Op.data]

theorem Op.isSync_of_request {op : Op} (request : op.isRequest) : op.isSync = false := by
  cases op <;> simp_all [Op.isRequest, Op.isSync]

theorem Op.isRequest_of_sync {op : Op} (sync : op.isSync) : op.isRequest = false := by
  cases op <;> simp_all [Op.isRequest, Op.isSync]

@[simp] theorem syncs_cons_bufSync (data : Bytes) (offset : Nat) (q : List Op) :
    syncs (.bufSync data offset :: q) = (offset, data) :: syncs q := rfl

theorem syncs_cons_of_not_sync {op : Op} (notSync : op.isSync = false) (q : List Op) :
    syncs (op :: q) = syncs q := by
  simp [syncs, Op.write_eq_none notSync]

theorem syncs_singleton_request {op : Op} (request : op.isRequest) : syncs [op] = [] := by
  simp [syncs, Op.write_eq_none (Op.isSync_of_request request)]

section Writer

@[simp] theorem writerAppend_primary (s : System) (data : Bytes) :
    (writerAppend memalign s data).primary = s.primary := by
  unfold writerAppend
  split <;> rfl

@[simp] theorem writerAppend_calls (s : System) (data : Bytes) :
    (writerAppend memalign s data).calls = s.calls := by
  unfold writerAppend
  split <;> rfl

@[simp] theorem writerAppend_closed (s : System) (data : Bytes) :
    (writerAppend memalign s data).closed = s.closed := by
  unfold writerAppend
  split <;> rfl

theorem writerAppend_spec {s : System} (data : Bytes) (ok : WriterOk s)
    (live : s.writer ≠ .deleted) :
    WriterOk (writerAppend memalign s data) ∧ held (writerAppend memalign s data) = held s ++ data ∧
      (writerAppend memalign s data).writer ≠ .deleted ∧
      ∃ new, (writerAppend memalign s data).queue = s.queue ++ new ∧ ∀ op ∈ new, op.isSync := by
  unfold writerAppend
  rcases hw : s.writer with _ | f | _
  · simp only [WriterOk, held, hw] at ok ⊢
    exact ⟨ok, trivial, by simp, [], by simp, by simp⟩
  · simp only [WriterOk, held, hw] at ok ⊢
    obtain ⟨kinds, consecutive, offset, fits⟩ := ok
    obtain ⟨writes, queued, appended⟩ := BufferFile.appendLoop_spec memalign f data fits
    simp only [BufferFile.append, queued, syncs_append, syncs_map_syncOp, written_append]
    refine ⟨⟨?_, consecutive_append.mpr ⟨consecutive, ?_⟩, ?_, appended.fits⟩, ?_, by simp,
      writes.map syncOp, rfl, fun op member => ?_⟩
    · intro op member
      rcases List.mem_append.mp member with before | new
      · exact kinds op before
      · obtain ⟨w, -, rfl⟩ := List.mem_map.mp new
        simp [syncOp, Op.isSync]
    · rw [← offset]
      exact appended.consecutive
    · rw [appended.fileOffset, offset, List.length_append, Nat.add_assoc]
    · simp only [List.append_assoc, appended.content]
    · obtain ⟨w, -, rfl⟩ := List.mem_map.mp member
      rfl
  · exact absurd hw live

@[simp] theorem writerClose_primary (s : System) : (writerClose s).primary = s.primary := by
  unfold writerClose
  split <;> rfl

@[simp] theorem writerClose_calls (s : System) : (writerClose s).calls = s.calls := by
  unfold writerClose
  split <;> rfl

@[simp] theorem writerClose_closed (s : System) : (writerClose s).closed = s.closed := by
  unfold writerClose
  split <;> rfl

theorem appendData_eq_nil {q : List Op} (noRequests : ∀ op ∈ q, op.isRequest = false) :
    appendData q = [] := by
  simp only [appendData, List.flatMap_eq_nil_iff]
  exact fun op member => Op.data_eq_nil (noRequests op member)

theorem enqueue_request {s : System} (op : Op) (request : op.isRequest) (ok : WriterOk s)
    (live : s.writer ≠ .deleted) :
    WriterOk { s with queue := s.queue ++ [op] } ∧ held { s with queue := s.queue ++ [op] } = held s := by
  rcases hw : s.writer with _ | f | _
  · simp only [WriterOk, held, hw] at ok ⊢
    refine ⟨fun x member => ?_, trivial⟩
    rcases List.mem_append.mp member with before | new
    · exact ok x before
    · rw [List.mem_singleton.mp new]
      exact request
  · simp only [WriterOk, held, hw, syncs_append, syncs_singleton_request request, List.append_nil]
      at ok ⊢
    refine ⟨⟨fun x member => ?_, ok.2⟩, trivial⟩
    rcases List.mem_append.mp member with before | new
    · exact ok.1 x before
    · rw [List.mem_singleton.mp new]
      exact .inl request
  · exact absurd hw live

theorem pop_request {s : System} {op : Op} {rest : List Op} (head : s.queue = op :: rest)
    (request : op.isRequest) (ok : WriterOk s) (live : s.writer ≠ .deleted) :
    WriterOk { s with queue := rest } ∧ held { s with queue := rest } = held s := by
  rcases hw : s.writer with _ | f | _
  · simp only [WriterOk, held, hw, head] at ok ⊢
    exact ⟨fun x member => ok x (List.mem_cons_of_mem _ member), trivial⟩
  · simp only [WriterOk, held, hw, head, syncs_cons_of_not_sync (Op.isSync_of_request request)]
      at ok ⊢
    exact ⟨⟨fun x member => ok.1 x (List.mem_cons_of_mem _ member), ok.2⟩, trivial⟩
  · exact absurd hw live

theorem closeQueued_pop {rest new : List Op} {op : Op} (notClose : op ≠ .close)
    (newOk : ∀ x ∈ new, x.isRequest = false) (queued : CloseQueued (op :: rest)) :
    CloseQueued (rest ++ new) := by
  obtain ⟨a, c, split, notIn, after⟩ := queued
  cases a with
  | nil => exact absurd (List.cons.inj split).1 notClose
  | cons x a =>
      have later : rest = a ++ .close :: c := (List.cons.inj split).2
      refine ⟨a, c ++ new, by simp [later], fun member => notIn (List.mem_cons_of_mem _ member), ?_⟩
      intro y member
      rcases List.mem_append.mp member with inC | inNew
      · exact after y inC
      · exact newOk y inNew

end Writer

section Main

variable {cfg total}

theorem not_closed_of_calls {s : System} (inv : Inv cfg total s) {call : Bytes × Bool}
    {rest : List (Bytes × Bool)} (calls : s.calls = call :: rest) : s.closed = false := by
  cases closed : s.closed
  · rfl
  · exact absurd (inv.closing closed).1 (by simp [calls])

theorem inv_enqueueAppend {s : System} {data : Bytes} {delayed : Bool}
    {rest : List (Bytes × Bool)} (inv : Inv cfg total s) (calls : s.calls = (data, delayed) :: rest)
    (op : Op) (request : op.isRequest) (carries : op.data = data) (notClose : op ≠ .close)
    (queued : cfg.delayedBufReset = true ∨ cfg.appendByOpq = true) :
    Inv cfg total { s with calls := rest, queue := s.queue ++ [op], primary := s.primary ++ data } := by
  have notClosed := not_closed_of_calls inv calls
  obtain ⟨noClose, live⟩ := inv.opened notClosed
  obtain ⟨ok, same⟩ := enqueue_request op request inv.writer live
  have primary := inv.primary
  rw [calls] at primary
  refine ⟨?_, ?_, fun _ => ⟨?_, live⟩, fun closed => absurd closed (by simp [notClosed]), ok, ?_⟩
  · simpa using primary
  · intro delayedOff opqOff
    simp [delayedOff, opqOff] at queued
  · simp [noClose, Ne.symm notClose]
  · have secondary := inv.secondary
    change held { s with queue := s.queue ++ [op] } ++ appendData (s.queue ++ [op]) = s.primary ++ data
    rw [same, appendData_append, ← List.append_assoc, secondary]
    simp [carries]

theorem inv_directAppend {s : System} {data : Bytes} {delayed : Bool}
    {rest : List (Bytes × Bool)} (inv : Inv cfg total s) (calls : s.calls = (data, delayed) :: rest)
    (delayedOff : cfg.delayedBufReset = false) (opqOff : cfg.appendByOpq = false) :
    Inv cfg total
      { writerAppend memalign { s with calls := rest } data with primary := s.primary ++ data } := by
  have notClosed := not_closed_of_calls inv calls
  obtain ⟨noClose, live⟩ := inv.opened notClosed
  obtain ⟨ok, grown, live', new, queue, onlySyncs⟩ :=
    writerAppend_spec memalign data (show WriterOk { s with calls := rest } from inv.writer) live
  have noAppends : appendData new = [] :=
    appendData_eq_nil fun op member => Op.isRequest_of_sync (onlySyncs op member)
  have before := inv.direct delayedOff opqOff
  have primary := inv.primary
  rw [calls] at primary
  refine ⟨by simpa using primary, fun _ _ => ?_, fun _ => ⟨?_, live'⟩,
    fun closed => absurd closed (by simp [notClosed]), ok, ?_⟩
  · simp [queue, before, noAppends]
  · simp only [queue, List.mem_append, not_or]
    exact ⟨noClose, fun member => absurd (onlySyncs _ member) (by simp [Op.isSync])⟩
  · have secondary := inv.secondary
    rw [before, List.append_nil] at secondary
    change held (writerAppend memalign { s with calls := rest } data) ++
      appendData (writerAppend memalign { s with calls := rest } data).queue = s.primary ++ data
    rw [grown, queue, appendData_append, before, noAppends, List.append_nil, List.append_nil]
    exact congrArg (· ++ data) secondary

theorem inv_mirrorClose {s : System} (inv : Inv cfg total s) (calls : s.calls = [])
    (notClosed : s.closed = false) : Inv cfg total (mirrorClose s) := by
  obtain ⟨noClose, live⟩ := inv.opened notClosed
  obtain ⟨ok, same⟩ := enqueue_request Op.close rfl inv.writer live
  have closeData : appendData [Op.close] = [] := rfl
  refine ⟨inv.primary, fun delayedOff opqOff => ?_, fun opened => absurd opened (by simp [mirrorClose]),
    fun _ => ⟨calls, .inr ⟨s.queue, [], rfl, noClose, by simp⟩⟩, ok, ?_⟩
  · simp [mirrorClose, inv.direct delayedOff opqOff, closeData]
  · change held { s with queue := s.queue ++ [Op.close] } ++ appendData (s.queue ++ [Op.close]) = s.primary
    rw [same, appendData_append, closeData, List.append_nil, inv.secondary]

/-- One call of the main thread keeps the invariant. -/
theorem inv_mainStep {s : System} (inv : Inv cfg total s) : Inv cfg total (mainStep memalign cfg s) := by
  unfold mainStep
  split
  · rename_i data delayed rest calls
    unfold mirrorAppend
    cases delayedReset : cfg.delayedBufReset
    · cases byOpq : cfg.appendByOpq
      · simp only [Bool.false_eq_true, if_false, writerAppend_primary]
        exact inv_directAppend memalign inv calls delayedReset byOpq
      · simp only [Bool.false_eq_true, if_false, if_true]
        exact inv_enqueueAppend inv calls (.append data) rfl rfl (by simp) (.inr byOpq)
    · simp only [if_true]
      cases delayed
      · exact inv_enqueueAppend inv calls (.append data) rfl rfl (by simp) (.inl delayedReset)
      · exact inv_enqueueAppend inv calls (.appendOnly data) rfl rfl (by simp) (.inl delayedReset)
  · rename_i calls
    split
    · exact inv
    · rename_i notClosed
      exact inv_mirrorClose inv calls (by simpa using notClosed)

end Main

section Helper

variable {cfg total}

theorem runOp_file (s : System) {op : Op} (file : op.isRequest = false) :
    runOp memalign s op = { s with secondary := applyOp s.secondary op } := by
  cases op <;> simp_all [Op.isRequest, runOp, applyOp]

theorem live_of_request {s : System} (inv : Inv cfg total s) {op : Op} (queued : op ∈ s.queue)
    (request : op.isRequest) : s.writer ≠ .deleted := by
  intro deleted
  have ok := inv.writer
  simp only [WriterOk, deleted] at ok
  simp [ok op queued] at request

theorem inv_runAppend {s : System} {op : Op} {rest : List Op} (inv : Inv cfg total s)
    (head : s.queue = op :: rest) (request : op.isRequest) (notClose : op ≠ .close) :
    Inv cfg total (writerAppend memalign { s with queue := rest } op.data) := by
  have live := live_of_request inv (by simp [head]) request
  obtain ⟨okRest, heldRest⟩ := pop_request head request inv.writer live
  obtain ⟨ok, grown, live', new, queue, onlySyncs⟩ := writerAppend_spec memalign op.data okRest live
  have newOk : ∀ x ∈ new, x.isRequest = false := fun x member => Op.isRequest_of_sync (onlySyncs x member)
  have noAppends : appendData new = [] := appendData_eq_nil newOk
  have popped : appendData s.queue = op.data ++ appendData rest := by rw [head]; rfl
  refine ⟨by simpa using inv.primary, fun delayedOff opqOff => ?_, fun notClosed => ?_,
    fun closed => ?_, ok, ?_⟩
  · have before := inv.direct delayedOff opqOff
    rw [popped, List.append_eq_nil_iff] at before
    simp [queue, noAppends, before.2]
  · obtain ⟨noClose, _⟩ := inv.opened (by simpa using notClosed)
    refine ⟨?_, live'⟩
    simp only [queue, List.mem_append, not_or]
    exact ⟨fun member => noClose (by simp [head, member]),
      fun member => absurd (newOk _ member) (by simp [Op.isRequest])⟩
  · obtain ⟨noCalls, deletedOrQueued⟩ := inv.closing (by simpa using closed)
    refine ⟨by simpa using noCalls, .inr ?_⟩
    rcases deletedOrQueued with deleted | queued
    · exact absurd deleted live
    · rw [head] at queued
      rw [queue]
      exact closeQueued_pop notClose newOk queued
  · rw [grown, heldRest, queue, appendData_append, noAppends, List.append_nil, List.append_assoc,
      ← popped, writerAppend_primary]
    exact inv.secondary

theorem inv_runClose {s : System} {rest : List Op} (inv : Inv cfg total s)
    (head : s.queue = .close :: rest) : Inv cfg total (writerClose { s with queue := rest }) := by
  have closed : s.closed = true := by
    cases notClosed : s.closed
    · exact absurd (by simp [head]) (inv.opened notClosed).1
    · rfl
  have live := live_of_request inv (show Op.close ∈ s.queue by simp [head]) rfl
  obtain ⟨noCalls, deletedOrQueued⟩ := inv.closing closed
  -- nothing of the main thread is queued after its `MClose`
  have after : ∀ x ∈ rest, x.isRequest = false := by
    rcases deletedOrQueued with deleted | ⟨a, c, split, notIn, after⟩
    · exact absurd deleted live
    · rw [head] at split
      cases a with
      | nil => exact (List.cons.inj split).2 ▸ after
      | cons x a => exact absurd (by simp [(List.cons.inj split).1]) notIn
  have popped : appendData s.queue = appendData rest := by rw [head]; rfl
  have secondary := inv.secondary
  rw [popped, appendData_eq_nil after, List.append_nil] at secondary
  have ok := inv.writer
  rcases hw : s.writer with _ | f | _
  · -- a `PosixWritableFile`: the queue holds nothing else
    simp only [WriterOk, held, hw] at ok secondary
    have empty : rest = [] := List.eq_nil_iff_forall_not_mem.mpr fun x member => by
      simpa [after x member] using ok x (by simp [head, member])
    subst empty
    show Inv cfg total { s with queue := [], writer := .deleted }
    refine ⟨inv.primary, fun _ _ => rfl,
      fun opened => absurd (show s.closed = false from opened) (by simp [closed]),
      fun _ => ⟨noCalls, .inl rfl⟩, fun _ absent => absurd absent List.not_mem_nil, ?_⟩
    show s.secondary ++ [] = s.primary
    rw [List.append_nil, secondary]
  · simp only [WriterOk, held, hw, head, syncs_cons_of_not_sync (rfl : Op.close.isSync = false)]
      at ok secondary
    obtain ⟨kinds, consecutive, offset, -⟩ := ok
    have onlySyncs : ∀ x ∈ rest, x.isSync := fun x member => by
      simpa [after x member] using kinds x (List.mem_cons_of_mem _ member)
    have closeOps : ∀ x ∈ f.close, x.isRequest = false := by
      simp [BufferFile.close, Op.isRequest]
    show Inv cfg total { s with queue := rest ++ f.close, writer := .deleted }
    refine ⟨inv.primary, fun _ _ => ?_,
      fun opened => absurd (show s.closed = false from opened) (by simp [closed]),
      fun _ => ⟨noCalls, .inl rfl⟩, fun x member => ?_, ?_⟩
    · exact appendData_eq_nil fun x member => (List.mem_append.mp member).elim (after x) (closeOps x)
    · exact (List.mem_append.mp member).elim (after x) (closeOps x)
    · show (rest ++ f.close).foldl applyOp s.secondary ++ appendData (rest ++ f.close) = s.primary
      rw [foldl_applyOp_close _ rest f onlySyncs consecutive offset, appendData_append,
        appendData_eq_nil after, appendData_eq_nil closeOps, List.append_nil, List.append_nil, secondary]
  · exact absurd hw live

theorem inv_runFile {s : System} {op : Op} {rest : List Op} (inv : Inv cfg total s)
    (head : s.queue = op :: rest) (file : op.isRequest = false) :
    Inv cfg total { s with queue := rest, secondary := applyOp s.secondary op } := by
  have notClose : op ≠ .close := by
    rintro rfl
    exact absurd file (by simp [Op.isRequest])
  have popped : appendData s.queue = appendData rest := by
    rw [head, appendData_cons, Op.data_eq_nil file, List.nil_append]
  -- the operation is a buffer write at the end of the file, or `sfp_` is deleted
  obtain ⟨ok, same⟩ : WriterOk { s with queue := rest, secondary := applyOp s.secondary op } ∧
      held { s with queue := rest, secondary := applyOp s.secondary op } = held s := by
    have ok := inv.writer
    rcases hw : s.writer with _ | f | _
    · simp only [WriterOk, hw] at ok
      exact absurd (ok op (by simp [head])) (by simp [file])
    · simp only [WriterOk, held, hw, head] at ok ⊢
      obtain ⟨kinds, consecutive, offset, fits⟩ := ok
      cases op with
      | bufSync data at_ =>
          obtain ⟨atEnd, later⟩ := consecutive
          simp only at atEnd
          simp only [syncs_cons_bufSync, written_cons, List.length_append] at offset ⊢
          simp only [applyOp, atEnd, pwrite_length, List.length_append]
          exact ⟨⟨fun x member => kinds x (List.mem_cons_of_mem _ member), later, by omega, fits⟩,
            by simp⟩
      | truncate | bufClose => simp [Op.isRequest, Op.isSync] at kinds
      | append | appendOnly | close => simp [Op.isRequest] at file
    · simp only [WriterOk, held, hw, head] at ok ⊢
      exact ⟨fun x member => ok x (List.mem_cons_of_mem _ member), rfl⟩
  refine ⟨inv.primary, fun delayedOff opqOff => popped ▸ inv.direct delayedOff opqOff,
    fun notClosed => ⟨fun member => (inv.opened notClosed).1 (by simp [head, member]),
      (inv.opened notClosed).2⟩, fun closed => ?_, ok, ?_⟩
  · obtain ⟨noCalls, deletedOrQueued⟩ := inv.closing closed
    refine ⟨noCalls, deletedOrQueued.imp id fun queued => ?_⟩
    rw [head] at queued
    simpa using closeQueued_pop notClose (fun x (absent : x ∈ ([] : List Op)) => absurd absent
      List.not_mem_nil) queued
  · rw [same, ← popped]
    exact inv.secondary

/-- One operation of the helper keeps the invariant. -/
theorem inv_helperStep {s : System} (inv : Inv cfg total s) : Inv cfg total (helperStep memalign s) := by
  unfold helperStep
  split
  · exact inv
  · rename_i op rest head
    cases op with
    | append data => exact inv_runAppend memalign inv head rfl (by simp)
    | appendOnly data => exact inv_runAppend memalign inv head rfl (by simp)
    | close => exact inv_runClose inv head
    | bufSync data offset =>
        have popped := inv_runFile inv head rfl
        rw [runOp_file memalign _ rfl]
        exact popped
    | truncate size =>
        have popped := inv_runFile inv head rfl
        rw [runOp_file memalign _ rfl]
        exact popped
    | bufClose =>
        have popped := inv_runFile inv head rfl
        rw [runOp_file memalign _ rfl]
        exact popped

end Helper

theorem inv_init (calls : List (Bytes × Bool)) :
    Inv cfg (calls.map Prod.fst).flatten (System.init memalign cfg calls) := by
  refine ⟨by simp [System.init], fun _ _ => rfl, fun _ => ⟨by simp [System.init], ?_⟩,
    fun closed => absurd closed (by simp [System.init]), ?_, ?_⟩
  all_goals cases useBuffer : cfg.secondaryUseBufferFile <;>
    simp [System.init, useBuffer, WriterOk, held, BufferFile.new, BufferFile.bytes, Consecutive]

theorem mirrorAppend_calls (s : System) (data : Bytes) (delayed : Bool) :
    (mirrorAppend memalign cfg s data delayed).calls = s.calls ∧
      (mirrorAppend memalign cfg s data delayed).closed = s.closed := by
  unfold mirrorAppend
  split
  · exact ⟨rfl, rfl⟩
  · split
    · exact ⟨rfl, rfl⟩
    · exact ⟨writerAppend_calls memalign s data, writerAppend_closed memalign s data⟩

theorem helperStep_calls (s : System) :
    (helperStep memalign s).calls = s.calls ∧ (helperStep memalign s).closed = s.closed := by
  unfold helperStep
  split
  · exact ⟨rfl, rfl⟩
  · rename_i op rest _
    cases op <;> simp [runOp]

theorem inv_run {s : System} (inv : Inv cfg total s) (schedule : List Thread) :
    Inv cfg total (run memalign cfg s schedule) := by
  induction schedule generalizing s with
  | nil => exact inv
  | cons thread schedule ih =>
      cases thread with
      | main => exact ih (inv_mainStep memalign inv)
      | helper => exact ih (inv_helperStep memalign inv)

theorem mainStep_done (s : System) (calls : s.calls = []) (closed : s.closed = true) :
    mainStep memalign cfg s = s := by
  simp [mainStep, calls, closed]

theorem finishMain_spec {s : System} (inv : Inv cfg total s) :
    Inv cfg total (finishMain memalign cfg s) ∧ (finishMain memalign cfg s).calls = [] ∧
      (finishMain memalign cfg s).closed = true := by
  suffices loop : ∀ n (s : System), s.calls.length < n → Inv cfg total s →
      Inv cfg total ((mainStep memalign cfg)^[n] s) ∧ ((mainStep memalign cfg)^[n] s).calls = [] ∧
        ((mainStep memalign cfg)^[n] s).closed = true from
    loop _ s (Nat.lt_succ_self _) inv
  intro n
  induction n with
  | zero => intro s below; omega
  | succ n ih =>
      intro s below inv
      rw [Function.iterate_succ_apply]
      cases calls : s.calls with
      | cons call rest =>
          have next := mirrorAppend_calls memalign cfg { s with calls := rest } call.1 call.2
          refine ih _ ?_ (inv_mainStep memalign inv)
          simp only [mainStep, calls] at next ⊢
          rw [next.1]
          simp [calls] at below
          omega
      | nil =>
          -- the `Close`; after it the main thread has nothing left to do
          have done : (mainStep memalign cfg s).calls = [] ∧ (mainStep memalign cfg s).closed = true := by
            simp only [mainStep, calls]
            split <;> simp_all [mirrorClose]
          have stays : ∀ m, (mainStep memalign cfg)^[m] (mainStep memalign cfg s) =
              mainStep memalign cfg s := fun m =>
            Function.iterate_fixed (mainStep_done memalign cfg _ done.1 done.2) m
          rw [stays]
          exact ⟨inv_mainStep memalign inv, done⟩

theorem drain_spec {s : System} (inv : Inv cfg total s) :
    Inv cfg total (drain memalign s) ∧ (drain memalign s).queue = [] ∧
      (drain memalign s).calls = s.calls ∧ (drain memalign s).closed = s.closed := by
  fun_induction drain memalign s with
  | case1 s empty => exact ⟨inv, empty, rfl, rfl⟩
  | case2 s op rest head ih =>
      obtain ⟨inv', empty, calls, closed⟩ := ih (inv_helperStep memalign inv)
      obtain ⟨stepCalls, stepClosed⟩ := helperStep_calls memalign s
      exact ⟨inv', empty, calls.trans stepCalls, closed.trans stepClosed⟩

end Invariant

/-- Mirrored writes give identical copies.  A `PosixBufferFile`'s writes and
cut, run in order on the empty file, leave the concatenation of the appended
data for every split of it; and for every setting, every sequence of
`Append` calls followed by `Close` and every interleaving of the main thread
with the helper, once the helper has run every queued operation the primary
and the secondary file both hold that concatenation. -/
theorem mirroredWrites_identical (memalign : Nat → Nat → UInt8) :
    (∀ datas : List Bytes, (bufferFileOps memalign datas).foldl applyOp [] = datas.flatten) ∧
    ∀ (cfg : Config) (calls : List (Bytes × Bool)) (schedule : List Thread),
      (finish memalign cfg (run memalign cfg (System.init memalign cfg calls) schedule)).queue = [] ∧
      (finish memalign cfg (run memalign cfg (System.init memalign cfg calls) schedule)).primary =
        (calls.map Prod.fst).flatten ∧
      (finish memalign cfg (run memalign cfg (System.init memalign cfg calls) schedule)).secondary =
        (calls.map Prod.fst).flatten := by
  refine ⟨foldl_applyOp_bufferFileOps memalign, fun cfg calls schedule => ?_⟩
  have ran := inv_run memalign cfg _ (inv_init memalign cfg calls) schedule
  obtain ⟨finished, noCalls, closed⟩ := finishMain_spec memalign cfg _ ran
  obtain ⟨inv, empty, sameCalls, sameClosed⟩ := drain_spec memalign cfg _ finished
  unfold finish
  set last := drain memalign (finishMain memalign cfg (run memalign cfg
    (System.init memalign cfg calls) schedule))
  -- with the queue empty, the main thread's `MClose` has run and `sfp_` is deleted
  have deleted := (inv.closing (sameClosed.trans closed)).2.resolve_right fun ⟨a, c, split, _⟩ => by
    simp [empty] at split
  have primary := inv.primary
  have secondary := inv.secondary
  rw [sameCalls, noCalls, List.map_nil, List.flatten_nil, List.append_nil] at primary
  simp only [held, deleted, empty, List.foldl_nil, appendData_nil, List.append_nil] at secondary
  exact ⟨empty, primary, secondary.trans primary⟩

end HLsm.Mirror
