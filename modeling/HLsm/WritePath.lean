import HLsm.DB
import HLsm.LogRoundTrip
import HLsm.WriteBatch

/-! # `DBImpl::Write`: the writer queue and group commit

Writers queue up in `writers_`.  The writer at the front writes for a group:
`BuildBatchGroup` appends the batches of the writers behind it into
`tmp_batch_` until a sync writer would join a non-sync group or the group
would grow too large; the group gets the sequence numbers after the last one
and goes to the log as one record, which is synced when the front writer
asked for it; only if the log took it does it go into the memtable, and a
failed `Sync` becomes the background error.  Every writer of the group is
told the status, and the last sequence number moves on whatever happened.
`MakeRoomForWrite` first returns the background error; a front writer that
finds the memtable full switches to a new log, which ends a run on this one.
The log file's calls fail or succeed as a schedule given with the state says.

Results:
* `buildBatchGroup_encodes`: the group's batch carries the front writer's
  updates and then those of the writers that join, and its count never
  overflows.
* `writeGroup_eq_writes`: a group commit tells its writers the log's status,
  and then leaves the memtable and the last sequence number as writing the
  batches one at a time does.
* `run_writes_in_order`: along any interleaving of arrivals, turns and
  background errors, writers complete in arrival order, the log holds their
  updates numbered in order, the memtable holds those told OK, and on a file
  whose writes do not fail the synced prefix of the log covers every sync
  writer told OK.
* `write_eq_writeGroup`: `DB.write` is a lone writer's turn whose log write
  goes through.
-/

set_option autoImplicit false

namespace HLsm

open HLsm.Coding HLsm.Format WriteBatchInternal WriteBatch

/-! ## Sizes and sequence numbers -/

theorem length_record_ge (op : BatchOp) : 2 ≤ (record op).length := by
  have varint : ∀ n : UInt32, 1 ≤ (encodeVarint32 n).length := fun n =>
    List.length_pos_of_ne_nil (Varint.encode_ne_nil 5 _ (by decide))
  cases op with
  | put key value =>
    have := varint (UInt32.ofNat key.length)
    simp only [record, List.length_cons, List.length_append, putLengthPrefixedSlice_eq,
      List.nil_append]
    omega
  | delete key =>
    have := varint (UInt32.ofNat key.length)
    simp only [record, List.length_cons, List.length_append, putLengthPrefixedSlice_eq,
      List.nil_append]
    omega

theorem length_records_ge (ops : List BatchOp) : 2 * ops.length ≤ (ops.flatMap record).length := by
  induction ops with
  | nil => simp
  | cons op ops ih =>
    have := length_record_ge op
    simp only [List.flatMap_cons, List.length_append, List.length_cons]
    omega

theorem byteSize_of_encodes {b : WriteBatch} {ops : List BatchOp} (encodes : Encodes b ops) :
    byteSize b = kHeader + (ops.flatMap record).length := by
  rw [byteSize, encodes.rep, List.length_append, length_header]

theorem length_le_byteSize {b : WriteBatch} {ops : List BatchOp} (encodes : Encodes b ops) :
    kHeader + 2 * ops.length ≤ byteSize b := by
  rw [byteSize_of_encodes encodes]
  have := length_records_ge ops
  omega

theorem byteSize_append {dst src : WriteBatch} {dstOps srcOps : List BatchOp} (dstEncodes : Encodes dst dstOps)
    (srcEncodes : Encodes src srcOps) (fewer : dstOps.length + srcOps.length < 2 ^ 31) :
    byteSize (append dst src) + kHeader = byteSize dst + byteSize src := by
  rw [byteSize_of_encodes (encodes_append dstEncodes srcEncodes fewer), byteSize_of_encodes dstEncodes,
    byteSize_of_encodes srcEncodes, List.flatMap_append, List.length_append]
  omega

theorem uint64_ofInt_natCast (n : Nat) : UInt64.ofInt (n : Int) = UInt64.ofNat n := by
  have : ((n : Int) % 18446744073709551616).toNat = n % 2 ^ 64 := by omega
  simp only [UInt64.ofInt, Int.reducePow, this, UInt64.ofNat_mod_size]

theorem insertInto_append (mem : MemTable) (seq : SequenceNumber) (first later : List BatchOp) :
    insertInto mem seq (first ++ later) =
      insertInto (insertInto mem seq first) (seq + UInt64.ofNat first.length) later := by
  induction first generalizing mem seq with
  | nil => simp [insertInto]
  | cons op first ih =>
    cases op <;>
      simp only [List.cons_append, insertInto, ih, List.length_cons, UInt64.ofNat_add, add_assoc,
        add_comm (1 : UInt64)] <;> rfl

namespace DBImpl

/-! ## `BuildBatchGroup` -/

/-- `DBImpl::Writer`: its batch (`NULL` for a writer that only makes room)
and `sync`. -/
structure Writer where
  batch : Option WriteBatch
  sync : Bool
  deriving DecidableEq, Repr

/-- `BuildBatchGroup`'s loop over the writers behind the first: `result` is
`none` while the group is the first writer's batch, then `tmp_batch_`, and
`size` counts the bytes so far.  It returns the result and how many writers
join. -/
def buildBatchGroupLoop (firstSync : Bool) (firstBatch : WriteBatch) (maxSize : Nat) :
    Option WriteBatch → Nat → List Writer → Option WriteBatch × Nat
  | result, _, [] => (result, 0)
  | result, size, w :: rest =>
    -- a sync write is not included into a batch handled by a non-sync write
    if w.sync && !firstSync then (result, 0)
    else
      match w.batch with
      | none =>
        let (result, joined) := buildBatchGroupLoop firstSync firstBatch maxSize result size rest
        (result, joined + 1)
      | some batch =>
        let size := size + byteSize batch
        if size > maxSize then (result, 0)
        else
          -- the first append switches to `tmp_batch_`, which is empty here
          let tmp := result.getD (append WriteBatch.new firstBatch)
          let (result, joined) :=
            buildBatchGroupLoop firstSync firstBatch maxSize (some (append tmp batch)) size rest
          (result, joined + 1)

/-- `BuildBatchGroup`: the batch the front writer writes for its group, and
how many writers behind it join. -/
def buildBatchGroup (first : Writer) (firstBatch : WriteBatch) (rest : List Writer) : WriteBatch × Nat :=
  let size := byteSize firstBatch
  -- a small first write limits the growth, so as not to slow it down much
  let maxSize := if size ≤ 128 <<< 10 then size + 128 <<< 10 else 1 <<< 20
  let (result, joined) := buildBatchGroupLoop first.sync firstBatch maxSize none size rest
  (result.getD firstBatch, joined)

def Writer.updates (w : Writer) : List BatchOp :=
  match w.batch with
  | none => []
  | some b => b.iterate.1

/-- The writer's batch, if any, was filled by `Put`s and `Delete`s. -/
def Writer.WellFormed (w : Writer) : Prop := ∀ b, w.batch = some b → Encodes b w.updates

theorem Writer.encodes {w : Writer} (wellFormed : w.WellFormed) {b : WriteBatch} (batch : w.batch = some b) :
    Encodes b w.updates :=
  wellFormed b batch

section Group

variable (firstSync : Bool) (firstBatch : WriteBatch) (maxSize : Nat)

theorem encodes_join {result : Option WriteBatch} {size : Nat} {ops : List BatchOp}
    (current : Encodes (result.getD firstBatch) ops) (sized : byteSize (result.getD firstBatch) ≤ size)
    {batch : WriteBatch} {batchOps : List BatchOp} (batchEncodes : Encodes batch batchOps)
    (fits : size + byteSize batch ≤ 2 ^ 20) :
    Encodes (append (result.getD (append WriteBatch.new firstBatch)) batch) (ops ++ batchOps) ∧
      byteSize (append (result.getD (append WriteBatch.new firstBatch)) batch) ≤ size + byteSize batch := by
  -- `tmp_batch_` holds what the group held
  have tmp : Encodes (result.getD (append WriteBatch.new firstBatch)) ops ∧
      byteSize (result.getD (append WriteBatch.new firstBatch)) = byteSize (result.getD firstBatch) := by
    cases result with
    | none =>
      have fewer : ([] : List BatchOp).length + ops.length < 2 ^ 31 := by simpa using current.fewer
      refine ⟨by simpa using encodes_append encodes_new current fewer, ?_⟩
      have := byteSize_append encodes_new current fewer
      rw [byteSize_of_encodes encodes_new] at this
      simp only [Option.getD_none]
      simp at this
      omega
    | some tmp => exact ⟨current, rfl⟩
  have small := length_le_byteSize tmp.1
  have batchSmall := length_le_byteSize batchEncodes
  have fewer : ops.length + batchOps.length < 2 ^ 31 := by
    simp only [kHeader] at small batchSmall
    omega
  have sum := byteSize_append tmp.1 batchEncodes fewer
  exact ⟨encodes_append tmp.1 batchEncodes fewer, by omega⟩

theorem buildBatchGroupLoop_encodes (bounded : maxSize ≤ 2 ^ 20) :
    ∀ (rest : List Writer) (result : Option WriteBatch) (size : Nat) (ops : List BatchOp),
      (∀ w ∈ rest, w.WellFormed) → Encodes (result.getD firstBatch) ops →
      byteSize (result.getD firstBatch) ≤ size →
      Encodes ((buildBatchGroupLoop firstSync firstBatch maxSize result size rest).1.getD firstBatch)
        (ops ++ (rest.take (buildBatchGroupLoop firstSync firstBatch maxSize result size rest).2).flatMap
          Writer.updates) := by
  intro rest
  induction rest with
  | nil => intro result size ops _ current _; simpa [buildBatchGroupLoop] using current
  | cons w rest ih =>
    intro result size ops wellFormed current sized
    have restWellFormed : ∀ w ∈ rest, w.WellFormed := fun w' mem => wellFormed w' (by simp [mem])
    simp only [buildBatchGroupLoop]
    split
    · simpa using current
    · split
      · -- a writer without a batch joins and adds nothing
        rename_i noBatch
        have none : w.updates = [] := by simp [Writer.updates, noBatch]
        simp only [List.take_succ_cons, List.flatMap_cons, none, List.nil_append]
        exact ih result size ops restWellFormed current sized
      · rename_i batch hasBatch
        split
        · simpa using current
        · rename_i within
          have batchEncodes := Writer.encodes (wellFormed w (by simp)) hasBatch
          obtain ⟨joined, joinedSized⟩ :=
            encodes_join firstBatch current sized batchEncodes (by omega)
          simp only [List.take_succ_cons, List.flatMap_cons, ← List.append_assoc]
          exact ih (some _) _ _ restWellFormed joined joinedSized

theorem sync_of_buildBatchGroupLoop :
    ∀ (rest : List Writer) (result : Option WriteBatch) (size : Nat),
      ∀ w ∈ rest.take (buildBatchGroupLoop firstSync firstBatch maxSize result size rest).2,
        w.sync = true → firstSync = true := by
  intro rest
  induction rest with
  | nil => simp [buildBatchGroupLoop]
  | cons w rest ih =>
    intro result size w' mem sync
    simp only [buildBatchGroupLoop] at mem
    split at mem
    · simp at mem
    · rename_i joins
      split at mem
      · rcases List.mem_cons.mp (by simpa using mem) with rfl | later
        · simpa [sync] using joins
        · exact ih _ _ w' later sync
      · split at mem
        · simp at mem
        · rcases List.mem_cons.mp (by simpa using mem) with rfl | later
          · simpa [sync] using joins
          · exact ih _ _ w' later sync

end Group

theorem buildBatchGroup_encodes (first : Writer) {firstBatch : WriteBatch} {ops : List BatchOp}
    (firstEncodes : Encodes firstBatch ops) (rest : List Writer) (wellFormed : ∀ w ∈ rest, w.WellFormed) :
    Encodes (buildBatchGroup first firstBatch rest).1
      (ops ++ (rest.take (buildBatchGroup first firstBatch rest).2).flatMap Writer.updates) := by
  have bounded : (if byteSize firstBatch ≤ 128 <<< 10 then byteSize firstBatch + 128 <<< 10 else 1 <<< 20) ≤
      2 ^ 20 := by
    split <;> simp_all only [Nat.shiftLeft_eq] <;> omega
  exact buildBatchGroupLoop_encodes first.sync firstBatch _ bounded rest none _ ops wellFormed firstEncodes le_rfl

theorem sync_of_buildBatchGroup (first : Writer) (firstBatch : WriteBatch) (rest : List Writer) :
    ∀ w ∈ rest.take (buildBatchGroup first firstBatch rest).2, w.sync = true → first.sync = true :=
  sync_of_buildBatchGroupLoop first.sync firstBatch _ rest none _

theorem Writer.wellFormed_of_encodes {b : WriteBatch} {ops : List BatchOp} (encodes : Encodes b ops)
    (sync : Bool) : (⟨some b, sync⟩ : Writer).WellFormed := by
  intro b' batch
  cases batch
  simpa [Writer.updates, iterate_of_encodes encodes] using encodes

/-! ## The writer queue -/

/-- A front writer's turn, as its writers were told it: the writers it
completed, the record it numbered and wrote to the log (`none` when
`MakeRoomForWrite` failed or the writer had no batch), and the status. -/
structure Turn where
  writers : List Writer
  record : Option Bytes
  status : Status
  deriving DecidableEq, Repr

def Turn.logged (t : Turn) : Option (List BatchOp × Status) :=
  t.record.map fun _ => (t.writers.flatMap Writer.updates, t.status)

/-- The write path's part of `DBImpl`: `writers_`, `log_` on `logfile_`,
`mem_`, the last sequence number and `bg_error_`; and what the source keeps
nowhere: how much of the log a `Sync` made durable, and the turns so far. -/
structure WriteState where
  writers : List Writer
  log : Log.Writer
  synced : Nat
  mem : MemTable
  lastSequence : SequenceNumber
  bgError : Status
  turns : List Turn
  deriving DecidableEq, Repr

namespace WriteState

/-- A new log, as `DB::Open` and `MakeRoomForWrite` start one, on a file whose
calls go as the schedules say. -/
def init (mem : MemTable) (lastSequence : SequenceNumber) (writeFaults : List (Option (Nat × String)))
    (syncFaults : List (Option String)) : WriteState :=
  ⟨[], Log.Writer.new ⟨[], writeFaults, syncFaults⟩, 0, mem, lastSequence, .ok, []⟩

/-- `RecordBackgroundError (s)`: the first error stays. -/
def recordBackgroundError (st : WriteState) (s : Status) : WriteState :=
  if st.bgError.isOk then { st with bgError := s } else st

section RecordBackgroundError

variable (st : WriteState) (s : Status)

@[simp] theorem bgError_recordBackgroundError :
    (st.recordBackgroundError s).bgError = if st.bgError.isOk then s else st.bgError := by
  unfold recordBackgroundError
  split <;> rfl

@[simp] theorem turns_recordBackgroundError : (st.recordBackgroundError s).turns = st.turns := by
  unfold recordBackgroundError
  split <;> rfl

end RecordBackgroundError

def records (st : WriteState) : List Bytes := st.turns.filterMap Turn.record

def logged (st : WriteState) : List (List BatchOp × Status) := st.turns.filterMap Turn.logged

end WriteState

/-- `log_->AddRecord (record)`, then `logfile_->Sync ()` if asked and the
record went in: the status, the log, and whether it was the `Sync` that
failed. -/
def logRecord (log : Log.Writer) (record : Bytes) (sync : Bool) : Status × Log.Writer × Bool :=
  let (status, log) := log.addRecord record
  if status.isOk && sync then
    let (status, dest) := log.dest.sync
    (status, { log with dest }, !status.isOk)
  else (status, log, false)

/-- The front writer's turn in `Write`, once `MakeRoomForWrite` returned
`room`.  With room and a batch, the writers behind it join its group, which is
numbered after the last sequence number, goes to the log as one record, and
goes into the memtable only if the log took it; a failed `Sync` becomes the
background error.  Every writer of the turn is told the status. -/
def writeGroup (room : Status) (st : WriteState) (w : Writer) (rest : List Writer) : WriteState :=
  match w.batch with
  | some batch =>
    if room.isOk then
      let (updates, joined) := buildBatchGroup w batch rest
      let updates := setSequence updates (st.lastSequence + 1)
      let lastSequence := st.lastSequence + UInt64.ofInt (count updates)
      let (status, log, syncError) := logRecord st.log (contents updates) w.sync
      let synced := if w.sync && status.isOk then log.dest.contents.length else st.synced
      let (mem, status) := if status.isOk then WriteBatchInternal.insertInto updates st.mem else (st.mem, status)
      let st := if syncError then st.recordBackgroundError status else st
      { st with writers := rest.drop joined, log, synced, mem, lastSequence,
                turns := st.turns ++ [⟨w :: rest.take joined, some (contents updates), status⟩] }
    else { st with writers := rest, turns := st.turns ++ [⟨[w], none, room⟩] }
  | none => { st with writers := rest, turns := st.turns ++ [⟨[w], none, room⟩] }

inductive WriteAction where
  /-- `writers_.push_back (&w)` -/
  | arrive (w : Writer)
  /-- the front writer's turn -/
  | lead
  /-- the background thread's `RecordBackgroundError (s)` -/
  | backgroundError (s : Status)
  deriving DecidableEq, Repr

/-- One turn on the log.  `MakeRoomForWrite` yields the background error
first; then it finds room when the memtable is within the write buffer.  A
full memtable, or a writer without a batch, which forces the switch, moves to
a new memtable and a new log: a new `WriteState.init`, so no turn on this
log. -/
def step (sizes : Sizes) (st : WriteState) : WriteAction → Option WriteState
  | .arrive w => some { st with writers := st.writers ++ [w] }
  | .lead =>
    match st.writers with
    | [] => none
    | w :: rest =>
      if !st.bgError.isOk then some (writeGroup st.bgError st w rest)
      else if w.batch.isSome && sizes.memUsage st.mem ≤ sizes.writeBufferSize then some (writeGroup .ok st w rest)
      else none
  | .backgroundError s => some (st.recordBackgroundError s)

def run (sizes : Sizes) (st : WriteState) : List WriteAction → Option WriteState
  | [] => some st
  | a :: rest => (step sizes st a).bind fun st => run sizes st rest

/-! ## A group commit -/

def group (w : Writer) (batch : WriteBatch) (rest : List Writer) : List Writer :=
  w :: rest.take (buildBatchGroup w batch rest).2

theorem encodes_group {w : Writer} {batch : WriteBatch} (hasBatch : w.batch = some batch)
    (wellFormed : w.WellFormed) {rest : List Writer} (restWellFormed : ∀ w ∈ rest, w.WellFormed) :
    Encodes (buildBatchGroup w batch rest).1 ((group w batch rest).flatMap Writer.updates) := by
  rw [group, List.flatMap_cons]
  exact buildBatchGroup_encodes w (Writer.encodes wellFormed hasBatch) rest restWellFormed

theorem writeGroup_spec (st : WriteState) {w : Writer} {batch : WriteBatch} (hasBatch : w.batch = some batch)
    (wellFormed : w.WellFormed) {rest : List Writer} (restWellFormed : ∀ w ∈ rest, w.WellFormed) :
    ∃ record : Bytes, Encodes ⟨record⟩ ((group w batch rest).flatMap Writer.updates) ∧
      WriteBatchInternal.sequence ⟨record⟩ = st.lastSequence + 1 ∧
      ∀ status log syncError, logRecord st.log record w.sync = (status, log, syncError) →
      writeGroup .ok st w rest =
        { writers := rest.drop (buildBatchGroup w batch rest).2
          log
          synced := if w.sync && status.isOk then log.dest.contents.length else st.synced
          mem := if status.isOk then
              HLsm.insertInto st.mem (st.lastSequence + 1) ((group w batch rest).flatMap Writer.updates)
            else st.mem
          lastSequence := st.lastSequence + UInt64.ofNat ((group w batch rest).flatMap Writer.updates).length
          bgError := if syncError && st.bgError.isOk then status else st.bgError
          turns := st.turns ++ [⟨group w batch rest, some record, status⟩] } := by
  obtain ⟨numbered, numberedSeq⟩ :=
    encodes_setSequence (encodes_group hasBatch wellFormed restWellFormed) (st.lastSequence + 1)
  refine ⟨(setSequence (buildBatchGroup w batch rest).1 (st.lastSequence + 1)).rep, numbered, numberedSeq, ?_⟩
  intro status log syncError logged
  simp only [writeGroup, hasBatch, Status.isOk_eq_true, if_true, contents, numbered.count_eq,
    uint64_ofInt_natCast, logged]
  -- the memtable and the background error follow the log's status
  cases status <;> cases syncError <;> simp [insertInto_of_encodes numbered, numberedSeq, group]

theorem logged_writeGroup (st : WriteState) {w : Writer} {batch : WriteBatch} (hasBatch : w.batch = some batch)
    (wellFormed : w.WellFormed) {rest : List Writer} (restWellFormed : ∀ w ∈ rest, w.WellFormed) :
    (writeGroup .ok st w rest).logged.map Prod.fst =
      st.logged.map Prod.fst ++ [(group w batch rest).flatMap Writer.updates] := by
  obtain ⟨record, -, -, spec⟩ := writeGroup_spec st hasBatch wellFormed restWellFormed
  have triple : logRecord st.log record w.sync = ((logRecord st.log record w.sync).1,
      (logRecord st.log record w.sync).2.1, (logRecord st.log record w.sync).2.2) := rfl
  rw [spec _ _ _ triple]
  simp [WriteState.logged, Turn.logged]

/-- Log records that are batches numbered on from `seq`, with the updates of
each. -/
inductive Numbered : SequenceNumber → List Bytes → List (List BatchOp) → Prop
  | nil (seq : SequenceNumber) : Numbered seq [] []
  | cons {seq : SequenceNumber} {record : Bytes} {records : List Bytes} {ops : List BatchOp}
      {batches : List (List BatchOp)} :
      Encodes ⟨record⟩ ops → WriteBatchInternal.sequence ⟨record⟩ = seq →
      Numbered (seq + UInt64.ofNat ops.length) records batches → Numbered seq (record :: records) (ops :: batches)

theorem Numbered.snoc {seq : SequenceNumber} {records : List Bytes} {batches : List (List BatchOp)}
    (numbered : Numbered seq records batches) {record : Bytes} {ops : List BatchOp} (encodes : Encodes ⟨record⟩ ops)
    (numberedRecord : WriteBatchInternal.sequence ⟨record⟩ = seq + UInt64.ofNat batches.flatten.length) :
    Numbered seq (records ++ [record]) (batches ++ [ops]) := by
  induction numbered with
  | nil seq => exact .cons encodes (by simpa using numberedRecord) (.nil _)
  | cons encodesFirst numberedFirst _ ih =>
    refine .cons encodesFirst numberedFirst (ih ?_)
    rw [numberedRecord, List.flatten_cons, List.length_append, UInt64.ofNat_add, add_assoc]

def okInsert (mem : MemTable) (seq : SequenceNumber) : List (List BatchOp × Status) → MemTable
  | [] => mem
  | (ops, s) :: rest =>
    okInsert (if s.isOk then HLsm.insertInto mem seq ops else mem) (seq + UInt64.ofNat ops.length) rest

theorem okInsert_append (first later : List (List BatchOp × Status)) :
    ∀ (mem : MemTable) (seq : SequenceNumber), okInsert mem seq (first ++ later) =
      okInsert (okInsert mem seq first) (seq + UInt64.ofNat (first.map Prod.fst).flatten.length) later := by
  induction first with
  | nil => intro mem seq; simp [okInsert]
  | cons x first ih =>
    intro mem seq
    rw [List.cons_append, okInsert, ih, okInsert]
    simp only [List.map_cons, List.flatten_cons, List.length_append, UInt64.ofNat_add, add_assoc]

theorem okInsert_of_ok (logged : List (List BatchOp × Status)) (ok : ∀ x ∈ logged, x.2 = .ok) :
    ∀ (mem : MemTable) (seq : SequenceNumber),
      okInsert mem seq logged = HLsm.insertInto mem seq (logged.map Prod.fst).flatten := by
  induction logged with
  | nil => intro mem seq; simp [okInsert, insertInto]
  | cons x logged ih =>
    intro mem seq
    obtain ⟨ops, s⟩ := x
    have first : s = .ok := ok (ops, s) (by simp)
    rw [okInsert, ih (fun y mem => ok y (List.mem_cons_of_mem _ mem)), first]
    simp [insertInto_append]

def WriteAction.arrivals : WriteAction → List Writer
  | .arrive w => [w]
  | _ => []

theorem writeGroup_rejected {room : Status} (notOk : room.isOk = false) (st : WriteState) (w : Writer)
    (rest : List Writer) :
    writeGroup room st w rest = { st with writers := rest, turns := st.turns ++ [⟨[w], none, room⟩] } := by
  unfold writeGroup
  split
  · simp [notOk]
  · rfl

theorem step_lead {sizes : Sizes} {st st' : WriteState} (stepped : step sizes st .lead = some st') :
    ∃ w rest, st.writers = w :: rest ∧
      (st.bgError.isOk = false ∧ st' = { st with writers := rest, turns := st.turns ++ [⟨[w], none, st.bgError⟩] } ∨
        st.bgError.isOk = true ∧ sizes.memUsage st.mem ≤ sizes.writeBufferSize ∧
          ∃ batch, w.batch = some batch ∧ st' = writeGroup .ok st w rest) := by
  rw [step] at stepped
  split at stepped
  · cases stepped
  · rename_i w rest front
    refine ⟨w, rest, front, ?_⟩
    split at stepped
    · rename_i failed
      cases stepped
      have notOk : st.bgError.isOk = false := by simpa using failed
      exact .inl ⟨notOk, writeGroup_rejected notOk st w rest⟩
    · rename_i bgOk
      split at stepped
      · rename_i roomy
        cases stepped
        simp only [Bool.and_eq_true, decide_eq_true_eq] at roomy
        obtain ⟨batch, hasBatch⟩ := Option.isSome_iff_exists.mp roomy.1
        exact .inr ⟨by simpa using bgOk, roomy.2, batch, hasBatch, rfl⟩
      · cases stepped

/-- A property of the writers that arrived and of the state, kept by every
step, holds after every run. -/
theorem run_invariant {sizes : Sizes} (I : List Writer → WriteState → Prop)
    (preserved : ∀ {arrived : List Writer} {st st' : WriteState} {a : WriteAction}, I arrived st →
      step sizes st a = some st' → (∀ w ∈ a.arrivals, w.WellFormed) → I (arrived ++ a.arrivals) st')
    (actions : List WriteAction) : ∀ {arrived : List Writer} {st st' : WriteState}, I arrived st →
      run sizes st actions = some st' → (∀ w ∈ actions.flatMap WriteAction.arrivals, w.WellFormed) →
      I (arrived ++ actions.flatMap WriteAction.arrivals) st' := by
  induction actions with
  | nil =>
    intro arrived st st' holds ran _
    cases ran
    simpa using holds
  | cons a actions ih =>
    intro arrived st st' holds ran wellFormed
    obtain ⟨mid, stepped, ranRest⟩ := Option.bind_eq_some_iff.mp ran
    have midHolds := preserved holds stepped (fun w mem => wellFormed w (by simp [mem]))
    simpa [List.append_assoc] using ih midHolds ranRest (fun w mem => wellFormed w (by simp [mem]))

section Runs

variable (sizes : Sizes) (mem0 : MemTable) (last0 : SequenceNumber)

/-- What the write path keeps along a run on a log started by
`WriteState.init mem0 last0`, for the writers that arrived so far, whatever
the file and the background thread do. -/
structure Keeps (arrived : List Writer) (st : WriteState) : Prop where
  -- writers complete in the order they arrived, none lost and none twice
  fifo : st.turns.flatMap Turn.writers ++ st.writers = arrived
  wellFormed : ∀ w ∈ st.writers, w.WellFormed
  numbered : Numbered (last0 + 1) st.records (st.logged.map Prod.fst)
  mem : st.mem = okInsert mem0 (last0 + 1) st.logged
  lastSequence : st.lastSequence = last0 + UInt64.ofNat (st.logged.map Prod.fst).flatten.length
  -- each record was written while the memtable was within the write buffer
  roomy : ∀ k < st.logged.length,
    sizes.memUsage (okInsert mem0 (last0 + 1) (st.logged.take k)) ≤ sizes.writeBufferSize

theorem keeps_init (writeFaults : List (Option (Nat × String))) (syncFaults : List (Option String)) :
    Keeps sizes mem0 last0 [] (WriteState.init mem0 last0 writeFaults syncFaults) where
  fifo := rfl
  wellFormed := by simp [WriteState.init]
  numbered := .nil _
  mem := rfl
  lastSequence := by simp [WriteState.init, WriteState.logged]
  roomy := by simp [WriteState.init, WriteState.logged]

theorem keeps_arrive {arrived : List Writer} {st : WriteState} (keeps : Keeps sizes mem0 last0 arrived st)
    {w : Writer} (wellFormed : w.WellFormed) :
    Keeps sizes mem0 last0 (arrived ++ [w]) { st with writers := st.writers ++ [w] } where
  fifo := by rw [← keeps.fifo, List.append_assoc]
  wellFormed := by
    intro w' mem
    rcases List.mem_append.mp mem with old | new
    · exact keeps.wellFormed w' old
    · rw [List.mem_singleton.mp new]
      exact wellFormed
  numbered := keeps.numbered
  mem := keeps.mem
  lastSequence := keeps.lastSequence
  roomy := keeps.roomy

theorem keeps_recordBackgroundError {arrived : List Writer} {st : WriteState}
    (keeps : Keeps sizes mem0 last0 arrived st) (s : Status) :
    Keeps sizes mem0 last0 arrived (st.recordBackgroundError s) := by
  unfold WriteState.recordBackgroundError
  split
  · exact { keeps with }
  · exact keeps

theorem keeps_rejected {arrived : List Writer} {st : WriteState} (keeps : Keeps sizes mem0 last0 arrived st)
    {w : Writer} {rest : List Writer} (front : st.writers = w :: rest) (room : Status) :
    Keeps sizes mem0 last0 arrived { st with writers := rest, turns := st.turns ++ [⟨[w], none, room⟩] } where
  fifo := by
    rw [← keeps.fifo, front]
    simp
  wellFormed := fun w' mem => keeps.wellFormed w' (by simp [front, mem])
  numbered := by simpa [WriteState.records, WriteState.logged, Turn.record, Turn.logged] using keeps.numbered
  mem := by simpa [WriteState.logged, Turn.logged] using keeps.mem
  lastSequence := by simpa [WriteState.logged, Turn.logged] using keeps.lastSequence
  roomy := by simpa [WriteState.logged, Turn.logged] using keeps.roomy

theorem keeps_writeGroup {arrived : List Writer} {st : WriteState} (keeps : Keeps sizes mem0 last0 arrived st)
    {w : Writer} {rest : List Writer} (front : st.writers = w :: rest) {batch : WriteBatch}
    (hasBatch : w.batch = some batch) (room : sizes.memUsage st.mem ≤ sizes.writeBufferSize) :
    Keeps sizes mem0 last0 arrived (writeGroup .ok st w rest) := by
  have wellFormed : w.WellFormed := keeps.wellFormed w (by simp [front])
  have restWellFormed : ∀ w' ∈ rest, w'.WellFormed := fun w' mem => keeps.wellFormed w' (by simp [front, mem])
  obtain ⟨record, encodes, numberedRecord, spec⟩ := writeGroup_spec st hasBatch wellFormed restWellFormed
  rcases logged : logRecord st.log record w.sync with ⟨status, log, syncError⟩
  rw [spec status log syncError logged]
  constructor
  · rw [← keeps.fifo, front]
    simp [group]
  · exact fun w' mem => restWellFormed w' (List.mem_of_mem_drop mem)
  · simp only [WriteState.records, WriteState.logged, List.filterMap_append, List.filterMap_cons,
      List.filterMap_nil, Turn.logged, Option.map_some, List.map_append, List.map_cons, List.map_nil]
    refine keeps.numbered.snoc encodes ?_
    rw [numberedRecord, keeps.lastSequence, add_right_comm]
  · simp only [WriteState.logged, List.filterMap_append, List.filterMap_cons, List.filterMap_nil, Turn.logged,
      Option.map_some]
    rw [okInsert_append, ← WriteState.logged, ← keeps.mem, keeps.lastSequence, add_right_comm]
    simp [okInsert]
  · simp only [WriteState.logged, List.filterMap_append, List.filterMap_cons, List.filterMap_nil, Turn.logged,
      Option.map_some, List.map_append, List.map_cons, List.map_nil, List.flatten_append, List.flatten_cons,
      List.flatten_nil, List.append_nil, List.length_append, UInt64.ofNat_add]
    rw [← WriteState.logged, keeps.lastSequence, add_assoc]
  · intro k within
    simp only [WriteState.logged, List.filterMap_append, List.filterMap_cons, List.filterMap_nil, Turn.logged,
      Option.map_some] at within ⊢
    rw [← WriteState.logged] at within ⊢
    -- the turns before the new one were roomy already; the new one saw `st.mem`
    rcases Nat.lt_or_ge k st.logged.length with earlier | last
    · rw [List.take_append_of_le_length (by omega)]
      exact keeps.roomy k earlier
    · have whole : k = st.logged.length := by
        rw [List.length_append, List.length_singleton] at within
        omega
      rw [whole, List.take_left, ← keeps.mem]
      exact room

theorem keeps_step {arrived : List Writer} {st st' : WriteState} (keeps : Keeps sizes mem0 last0 arrived st)
    {a : WriteAction} (stepped : step sizes st a = some st') (wellFormed : ∀ w ∈ a.arrivals, w.WellFormed) :
    Keeps sizes mem0 last0 (arrived ++ a.arrivals) st' := by
  cases a with
  | arrive w =>
    cases stepped
    exact keeps_arrive sizes mem0 last0 keeps (wellFormed w (by simp [WriteAction.arrivals]))
  | lead =>
    simp only [WriteAction.arrivals, List.append_nil]
    obtain ⟨w, rest, front, ⟨-, rfl⟩ | ⟨-, room, batch, hasBatch, rfl⟩⟩ := step_lead stepped
    · exact keeps_rejected sizes mem0 last0 keeps front _
    · exact keeps_writeGroup sizes mem0 last0 keeps front hasBatch room
  | backgroundError s =>
    cases stepped
    simpa [WriteAction.arrivals] using keeps_recordBackgroundError sizes mem0 last0 keeps s

theorem keeps_run (actions : List WriteAction) {arrived : List Writer} {st st' : WriteState}
    (keeps : Keeps sizes mem0 last0 arrived st) (ran : run sizes st actions = some st')
    (wellFormed : ∀ w ∈ actions.flatMap WriteAction.arrivals, w.WellFormed) :
    Keeps sizes mem0 last0 (arrived ++ actions.flatMap WriteAction.arrivals) st' :=
  run_invariant (Keeps sizes mem0 last0) (fun keeps stepped arrived => keeps_step sizes mem0 last0 keeps stepped arrived)
    actions keeps ran wellFormed

/-! ## Durability on a file whose writes do not fail -/

theorem logRecord_reliable {log : Log.Writer} (reliable : log.dest.Reliable) (record : Bytes) (sync : Bool) :
    ∃ pieces, (logRecord log record sync).2.1.dest.contents = log.dest.contents ++ pieces.flatMap Log.Piece.encode ∧
      Log.Fits log.blockOffset pieces (logRecord log record sync).2.1.blockOffset ∧
      Log.Shaped true (pieces.filterMap Log.Piece.fragment) record ∧ (logRecord log record sync).2.1.dest.Reliable ∧
      (logRecord log record sync).2.2 = !(logRecord log record sync).1.isOk ∧
      (sync = false → (logRecord log record sync).1 = .ok) := by
  obtain ⟨ok, pieces, contents, fits, shaped, stillReliable⟩ := Log.addRecordLoop_pieces log true record reliable
  have added : log.addRecord record = (.ok, (log.addRecordLoop true record).2) := Prod.ext ok rfl
  cases sync with
  | false =>
    simp only [logRecord, added, Status.isOk, Bool.and_false]
    exact ⟨pieces, contents, fits, shaped, stillReliable, rfl, fun _ => rfl⟩
  | true =>
    simp only [logRecord, added, Status.isOk, Bool.and_true, if_true]
    -- the third component is `!status.isOk` by definition, which `simp` has closed
    refine ⟨pieces, by simpa using contents, fits, shaped, ?_, trivial, fun async => absurd async (by decide)⟩
    intro fault mem
    exact stillReliable fault (by simpa using mem)

theorem logRecord_unsynced {log : Log.Writer} (reliable : log.dest.Reliable) (record : Bytes) :
    (logRecord log record false).1 = .ok := by
  obtain ⟨-, -, -, -, -, -, unsyncedOk⟩ := logRecord_reliable reliable record false
  exact unsyncedOk rfl

/-- What the log keeps along a run on a file whose writes do not fail: the
records of the turns, in order; a synced prefix that carries the records of
every turn told OK that had a sync writer; and only the last record can have
been told an error, after which the background error is set. -/
structure LogKeeps (st : WriteState) : Prop where
  reliable : st.log.dest.Reliable
  log : ∃ pieces, st.log.dest.contents = pieces.flatMap Log.Piece.encode ∧ Log.Fits 0 pieces st.log.blockOffset ∧
    Log.Records (pieces.filterMap Log.Piece.fragment) st.records
  syncedLe : st.synced ≤ st.log.dest.contents.length
  synced : ∃ pieces o before after, st.log.dest.contents.take st.synced = pieces.flatMap Log.Piece.encode ∧
    Log.Fits 0 pieces o ∧ st.turns = before ++ after ∧
    Log.Records (pieces.filterMap Log.Piece.fragment) (before.filterMap Turn.record) ∧
    ∀ t ∈ after, t.status = .ok → ∀ w ∈ t.writers, w.sync = false
  okBefore : ∀ x ∈ st.logged.dropLast, x.2 = .ok
  failedLast : ∀ x ∈ st.logged.getLast?, x.2 ≠ .ok → st.bgError.isOk = false

theorem LogKeeps.ok_of_bgError {st : WriteState} (keeps : LogKeeps st) (bgOk : st.bgError.isOk = true) :
    ∀ x ∈ st.logged, x.2 = .ok := by
  intro x mem
  rcases List.eq_nil_or_concat st.logged with empty | ⟨init, last, split⟩
  · simp [empty] at mem
  · have okBefore := keeps.okBefore
    have failedLast := keeps.failedLast
    rw [split, List.concat_eq_append, List.dropLast_concat] at okBefore
    rw [split, List.concat_eq_append, List.getLast?_concat] at failedLast
    rw [split, List.concat_eq_append] at mem
    rcases List.mem_append.mp mem with early | final
    · exact okBefore x early
    · rw [List.mem_singleton.mp final]
      by_contra failed
      simp [failedLast last rfl failed] at bgOk

theorem logKeeps_init (mem : MemTable) (lastSequence : SequenceNumber) {writeFaults : List (Option (Nat × String))}
    (reliable : ∀ fault ∈ writeFaults, fault = none) (syncFaults : List (Option String)) :
    LogKeeps (WriteState.init mem lastSequence writeFaults syncFaults) where
  reliable := reliable
  log := ⟨[], rfl, .nil 0, by simpa [WriteState.init, WriteState.records] using Log.Records.nil⟩
  syncedLe := le_rfl
  synced := ⟨[], 0, [], [], rfl, .nil 0, rfl, .nil, by simp⟩
  okBefore := by simp [WriteState.init, WriteState.logged]
  failedLast := by simp [WriteState.init, WriteState.logged]

theorem logKeeps_recordBackgroundError {st : WriteState} (keeps : LogKeeps st) (s : Status) :
    LogKeeps (st.recordBackgroundError s) := by
  unfold WriteState.recordBackgroundError
  split
  · rename_i bgOk
    -- no record failed yet, so the new error is not claimed by one
    exact { keeps with
      failedLast := fun x last failed => absurd (keeps.failedLast x last failed) (by simp [bgOk]) }
  · exact keeps

theorem logKeeps_rejected {st : WriteState} (keeps : LogKeeps st) {w : Writer} (rest : List Writer)
    {room : Status} (notOk : room.isOk = false) :
    LogKeeps { st with writers := rest, turns := st.turns ++ [⟨[w], none, room⟩] } := by
  obtain ⟨pieces, o, before, after, prefix_, fits, turns, written, unsynced⟩ := keeps.synced
  refine ⟨keeps.reliable, by simpa [WriteState.records] using keeps.log, keeps.syncedLe,
    ⟨pieces, o, before, after ++ [⟨[w], none, room⟩], prefix_, fits, by simp [turns], written, ?_⟩,
    by simpa [WriteState.logged, Turn.logged] using keeps.okBefore,
    by simpa [WriteState.logged, Turn.logged] using keeps.failedLast⟩
  intro t mem ok
  rcases List.mem_append.mp mem with old | new
  · exact unsynced t old ok
  · rw [List.mem_singleton.mp new] at ok
    exact absurd (Status.isOk_eq_true.mpr ok) (by rw [notOk]; decide)

theorem logKeeps_writeGroup {st : WriteState} (keeps : LogKeeps st) (bgOk : st.bgError.isOk = true) {w : Writer}
    {rest : List Writer} {batch : WriteBatch} (hasBatch : w.batch = some batch) (wellFormed : w.WellFormed)
    (restWellFormed : ∀ w ∈ rest, w.WellFormed) :
    LogKeeps (writeGroup .ok st w rest) := by
  obtain ⟨record, -, -, spec⟩ := writeGroup_spec st hasBatch wellFormed restWellFormed
  obtain ⟨more, contents, fitsMore, shaped, stillReliable, syncError, unsyncedOk⟩ :=
    logRecord_reliable keeps.reliable record w.sync
  rcases logged : logRecord st.log record w.sync with ⟨status, log, syncError'⟩
  rw [logged] at contents fitsMore stillReliable syncError unsyncedOk
  rw [spec status log syncError' logged]
  obtain ⟨pieces, logContents, fits, written⟩ := keeps.log
  have newContents : log.dest.contents = (pieces ++ more).flatMap Log.Piece.encode := by
    rw [contents, logContents, List.flatMap_append]
  have newFits : Log.Fits 0 (pieces ++ more) log.blockOffset := fits.append fitsMore
  have newWritten : Log.Records ((pieces ++ more).filterMap Log.Piece.fragment) (st.records ++ [record]) := by
    rw [List.filterMap_append]
    exact written.append shaped
  have newLogged : (st.turns ++ [(⟨group w batch rest, some record, status⟩ : Turn)]).filterMap Turn.logged =
      st.logged ++ [((group w batch rest).flatMap Writer.updates, status)] := by
    simp [WriteState.logged, Turn.logged]
  refine ⟨stillReliable, ⟨pieces ++ more, newContents, newFits, ?_⟩, ?_, ?_, ?_, ?_⟩
  · simpa [WriteState.records] using newWritten
  · split
    · exact le_rfl
    · rw [contents, List.length_append]
      exact le_add_right keeps.syncedLe
  · split
    · -- a `Sync` that succeeded covers the whole log
      refine ⟨pieces ++ more, log.blockOffset, st.turns ++ [⟨group w batch rest, some record, status⟩], [],
        by rw [List.take_length, newContents], newFits, by simp, ?_, by simp⟩
      simpa [WriteState.records] using newWritten
    · -- the synced prefix stays; the new turn failed or has no sync writer
      rename_i notSynced
      obtain ⟨synced, o, before, after, prefix_, syncedFits, turns, syncedWritten, unsynced⟩ := keeps.synced
      refine ⟨synced, o, before, after ++ [⟨group w batch rest, some record, status⟩], ?_, syncedFits,
        by simp [turns], syncedWritten, ?_⟩
      · rw [contents, List.take_append_of_le_length keeps.syncedLe, prefix_]
      · intro t mem ok
        rcases List.mem_append.mp mem with old | new
        · exact unsynced t old ok
        · rw [List.mem_singleton.mp new] at ok ⊢
          have statusOk : status = .ok := ok
          have leaderAsync : w.sync = false := by
            cases sync : w.sync
            · rfl
            · simp [sync, statusOk, Status.isOk] at notSynced
          intro w' joined
          rcases List.mem_cons.mp joined with rfl | behind
          · exact leaderAsync
          · cases sync : w'.sync
            · rfl
            · simpa [leaderAsync] using sync_of_buildBatchGroup w batch rest w' behind sync
  · -- with no background error, every earlier record was told OK
    rw [WriteState.logged, newLogged, List.dropLast_concat]
    exact keeps.ok_of_bgError bgOk
  · -- a failed record is a failed `Sync`, which sets the background error
    rw [WriteState.logged, newLogged, List.getLast?_concat]
    intro x last failed
    cases Option.some.inj last
    have notOk : status.isOk = false := Bool.eq_false_iff.mpr fun ok => failed (Status.isOk_eq_true.mp ok)
    have syncFailed : syncError' = true := by simpa [notOk] using syncError
    simp [syncFailed, Status.isOk_eq_true.mp bgOk, notOk]

theorem logKeeps_step {arrived : List Writer} {st st' : WriteState} (keeps : Keeps sizes mem0 last0 arrived st)
    (logKeeps : LogKeeps st) {a : WriteAction} (stepped : step sizes st a = some st') : LogKeeps st' := by
  cases a with
  | arrive w =>
    cases stepped
    exact { logKeeps with }
  | lead =>
    obtain ⟨w, rest, front, ⟨notOk, rfl⟩ | ⟨bgOk, -, batch, hasBatch, rfl⟩⟩ := step_lead stepped
    · exact logKeeps_rejected logKeeps rest notOk
    · exact logKeeps_writeGroup logKeeps bgOk hasBatch (keeps.wellFormed w (by simp [front]))
        (fun w' mem => keeps.wellFormed w' (by simp [front, mem]))
  | backgroundError s =>
    cases stepped
    exact logKeeps_recordBackgroundError logKeeps s

theorem logKeeps_run (actions : List WriteAction) {arrived : List Writer} {st st' : WriteState}
    (keeps : Keeps sizes mem0 last0 arrived st) (logKeeps : LogKeeps st) (ran : run sizes st actions = some st')
    (wellFormed : ∀ w ∈ actions.flatMap WriteAction.arrivals, w.WellFormed) : LogKeeps st' :=
  -- `LogKeeps` needs the writers' batches well formed, which `Keeps` carries
  (run_invariant (fun arrived st => Keeps sizes mem0 last0 arrived st ∧ LogKeeps st)
    (fun both stepped arrived =>
      ⟨keeps_step sizes mem0 last0 both.1 stepped arrived, logKeeps_step sizes mem0 last0 both.1 both.2 stepped⟩)
    actions ⟨keeps, logKeeps⟩ ran wellFormed).2

theorem LogKeeps.yields {st : WriteState} (keeps : LogKeeps st) (checksum : Bool) :
    Log.Yields (Log.Reader.new st.log.dest.contents checksum 0) st.records := by
  obtain ⟨pieces, contents, fits, written⟩ := keeps.log
  rw [contents]
  exact Log.yields_of_pieces fits written checksum

/-- Both invariants after a run on a new log whose writes do not fail. -/
theorem keeps_of_run {writeFaults : List (Option (Nat × String))} (reliable : ∀ fault ∈ writeFaults, fault = none)
    (syncFaults : List (Option String)) {actions : List WriteAction} {st : WriteState}
    (ran : run sizes (WriteState.init mem0 last0 writeFaults syncFaults) actions = some st)
    (wellFormed : ∀ w ∈ actions.flatMap WriteAction.arrivals, w.WellFormed) :
    Keeps sizes mem0 last0 (actions.flatMap WriteAction.arrivals) st ∧ LogKeeps st := by
  have start := keeps_init sizes mem0 last0 writeFaults syncFaults
  have keeps := keeps_run sizes mem0 last0 actions start ran wellFormed
  rw [List.nil_append] at keeps
  exact ⟨keeps, logKeeps_run sizes mem0 last0 actions start (logKeeps_init mem0 last0 reliable syncFaults) ran
    wellFormed⟩

end Runs

def entryCount : Sizes := ⟨fun table => table.length, fun mem => mem.entries.length, 4⟩

/-- A sync writer leads a group that a writer without `sync` joins. -/
def groupedWrites : List WriteAction :=
  [.arrive ⟨some (build [.put [1] [2]]), true⟩, .arrive ⟨some (build [.delete [1], .put [3] [4]]), false⟩, .lead]

def groupedState : WriteState :=
  writeGroup .ok { WriteState.init MemTable.empty 0 [] [none] with
      writers := [⟨some (build [.put [1] [2]]), true⟩, ⟨some (build [.delete [1], .put [3] [4]]), false⟩] }
    ⟨some (build [.put [1] [2]]), true⟩ [⟨some (build [.delete [1], .put [3] [4]]), false⟩]

theorem groupedWrites_run :
    run entryCount (WriteState.init MemTable.empty 0 [] [none]) groupedWrites = some groupedState := rfl

theorem groupedWrites_wellFormed : ∀ w ∈ groupedWrites.flatMap WriteAction.arrivals, w.WellFormed := by
  intro w arrived
  simp only [groupedWrites, List.flatMap_cons, WriteAction.arrivals, List.flatMap_nil, List.cons_append,
    List.nil_append, List.mem_cons, List.not_mem_nil, or_false] at arrived
  rcases arrived with rfl | rfl <;>
    exact Writer.wellFormed_of_encodes (encodes_build _ (by simp [BatchOp.Small]) (by simp)) _

theorem groupedState_logged :
    groupedState.logged.map Prod.fst = [[.put [1] [2], .delete [1], .put [3] [4]]] := by
  have wellFormed := groupedWrites_wellFormed
  simp only [groupedWrites, List.flatMap_cons, WriteAction.arrivals, List.flatMap_nil, List.cons_append,
    List.nil_append, List.mem_cons, List.not_mem_nil, or_false, forall_eq_or_imp, forall_eq] at wellFormed
  rw [groupedState, logged_writeGroup _ rfl wellFormed.1 (fun w joined => by
    rw [List.mem_singleton.mp joined]
    exact wellFormed.2)]
  decide +kernel

/-- `DB.write` of a batch is the write path's turn of a lone writer whose log
write goes through: after the same `MakeRoomForWrite`, the writer is told the
same status, and the memtable and the last sequence number agree. -/
theorem write_eq_writeGroup (cfg : Config) (db : DB) {b : WriteBatch} {ops : List BatchOp} (encodes : Encodes b ops)
    (sync : Bool) (log : Log.Writer) (logged : ∀ record, (logRecord log record sync).1 = .ok) (synced : Nat)
    (turns : List Turn) :
    (DB.write cfg (some ops) db).map (fun r => (some r.1, r.2.mem, r.2.versions.lastSequence)) =
      (DB.makeRoomForWrite cfg false db).map fun r =>
        let st := writeGroup r.1 ⟨[], log, synced, r.2.mem, r.2.versions.lastSequence, r.2.bgError, turns⟩
          ⟨some b, sync⟩ []
        (st.turns.getLast?.map Turn.status, st.mem, st.lastSequence) := by
  cases room : DB.makeRoomForWrite cfg false db with
  | none => simp [DB.write, room]
  | some result =>
    obtain ⟨s, db'⟩ := result
    simp only [DB.write, Option.isNone_some, room, Option.map_some, Option.some.injEq]
    cases ok : s.isOk with
    | false =>
      -- `MakeRoomForWrite` failed: the writer is told so and nothing changes
      rw [writeGroup_rejected ok]
      simp
    | true =>
      cases Status.isOk_eq_true.mp ok
      obtain ⟨record, -, -, spec⟩ := writeGroup_spec
        ⟨[], log, synced, db'.mem, db'.versions.lastSequence, db'.bgError, turns⟩ (w := ⟨some b, sync⟩) rfl
        (Writer.wellFormed_of_encodes encodes sync) (show ∀ w ∈ ([] : List Writer), w.WellFormed by simp)
      have triple : logRecord log record sync =
          ((logRecord log record sync).1, (logRecord log record sync).2.1, (logRecord log record sync).2.2) := rfl
      rw [spec _ _ _ triple, logged record]
      simp [group, Writer.updates, iterate_of_encodes encodes]

theorem write_eq_writeGroup_put :
    (DB.write ⟨Runtime.hlsm, entryCount, true⟩ (some [.put [1] [2]])
        ⟨VersionSet.new [], ManifestStore.empty, MemTable.empty, none, 0, [], .ok, false, none, Storage.empty⟩).map
        (fun r => (some r.1, r.2.mem, r.2.versions.lastSequence)) =
      (DB.makeRoomForWrite ⟨Runtime.hlsm, entryCount, true⟩ false
        ⟨VersionSet.new [], ManifestStore.empty, MemTable.empty, none, 0, [], .ok, false, none, Storage.empty⟩).map
        fun r =>
        let st := writeGroup r.1 ⟨[], Log.Writer.new ⟨[], [], []⟩, 0, r.2.mem, r.2.versions.lastSequence, r.2.bgError, []⟩
          ⟨some (build [.put [1] [2]]), false⟩ []
        (st.turns.getLast?.map Turn.status, st.mem, st.lastSequence) :=
  write_eq_writeGroup _ _ (encodes_build _ (by simp [BatchOp.Small]) (by simp)) false (Log.Writer.new ⟨[], [], []⟩)
    (logRecord_unsynced
      (show (Log.Writer.new ⟨[], [], []⟩).dest.Reliable by simp [Log.Writer.new, Log.WritableFile.Reliable]))
    0 []

end DBImpl

end HLsm
