import HLsm.WritePath

/-! # `DBImpl::RecoverLogFile`: replaying a log into the memtable

Opening a database replays each log newer than the descriptor: `ReadRecord`
hands out the records, each goes into a memtable with `InsertInto`, the
largest sequence number seen is kept, and the memtable is written as a
level-0 table whenever it outgrows the write buffer and once more at the end.
The reader always checks checksums; with `paranoid_checks` the first
corruption the reader reports, and any error of `InsertInto`, stop the
recovery, and without it they are logged and dropped.  `WriteLevel0Table`
adds no table for an empty memtable, and its `BuildTable` can fail, which
ends the recovery.  Level-0 tables are modelled by the memtables written.

Results:
* `recoverLogs_numbered`: on a log that reads back as batches numbered in
  order, recovery is OK, raises the last sequence number over the batches,
  and writes their memtable as the one level-0 table.
* `recoverLogs_run`: after any run of the write path on a new log whose
  writes do not fail, replaying the log replays every record the run wrote,
  those whose writers were told a failed `Sync` included.
* `recoverLogs_synced`: a crash that keeps only the synced bytes of the log
  recovers exactly a first run of the turns, to which every turn told OK with
  a sync writer belongs.
-/

set_option autoImplicit false

namespace HLsm

open HLsm.Coding HLsm.Format WriteBatchInternal WriteBatch

namespace DBImpl

/-- `MaybeIgnoreError`: without `paranoid_checks` an error is logged and
dropped. -/
def maybeIgnoreError (paranoidChecks : Bool) (s : Status) : Status :=
  if s.isOk || paranoidChecks then s else .ok

/-- `LogReporter::Corruption` for each drop, in order: with `paranoid_checks`
the first one becomes the status. -/
def reportDrops (paranoidChecks : Bool) (status : Status) (drops : List (Nat × Status)) : Status :=
  drops.foldl (fun status drop => if paranoidChecks && status.isOk then drop.2 else status) status

/-- `WriteLevel0Table (mem, edit, NULL)` on the outcomes of the `BuildTable`
calls to come (`some msg` fails with an I/O error; calls past the end
succeed): the status, the table added to the edit, and the outcomes left.  An
empty memtable gives no file and no table. -/
def writeLevel0Table (buildFaults : List (Option String)) (mem : MemTable) :
    Status × List MemTable × List (Option String) :=
  if mem.entries.isEmpty then (.ok, [], buildFaults)
  else
    match buildFaults.head? with
    | some (some msg) => (.ioError msg, [], buildFaults.tail)
    | _ => (.ok, [mem], buildFaults.tail)

/-- The locals of `RecoverLogFile`, with the memtables `WriteLevel0Table` added
so far and the outcomes of the `BuildTable` calls to come. -/
structure Recovery where
  reader : Log.Reader
  status : Status
  mem : Option MemTable
  maxSequence : SequenceNumber
  tables : List MemTable
  buildFaults : List (Option String)

-- the linter misses the use of the match hypothesis in `decreasing_by`
set_option linter.unusedVariables false in
/-- `while (reader.ReadRecord (&record, &scratch) && status.ok ())`: the
record is read before the status is checked. -/
def recoverLogFileLoop (sizes : Sizes) (paranoidChecks : Bool) (st : Recovery) : Recovery :=
  match read : st.reader.readRecord with
  | (none, reader) =>
    { st with reader, status := reportDrops paranoidChecks st.status (reader.reported.drop st.reader.reported.length) }
  | (some record, reader) =>
    let status := reportDrops paranoidChecks st.status (reader.reported.drop st.reader.reported.length)
    if !status.isOk then { st with reader, status }
    else if record.length < 12 then
      recoverLogFileLoop sizes paranoidChecks
        { st with reader, status := reportDrops paranoidChecks status [(record.length, .corruption "log record too small")] }
    else
      let batch := setContents record
      let (mem, status) := WriteBatchInternal.insertInto batch (st.mem.getD MemTable.empty)
      let status := maybeIgnoreError paranoidChecks status
      if !status.isOk then { st with reader, status, mem := some mem }
      else
        let lastSeq := sequence batch + UInt64.ofInt (count batch) - 1
        let maxSequence := if lastSeq > st.maxSequence then lastSeq else st.maxSequence
        if sizes.memUsage mem > sizes.writeBufferSize then
          let (status, table, buildFaults) := writeLevel0Table st.buildFaults mem
          let st := { st with reader, status, mem := some mem, maxSequence, tables := st.tables ++ table, buildFaults }
          -- a failed `WriteLevel0Table` ends the recovery
          if !status.isOk then st
          else recoverLogFileLoop sizes paranoidChecks { st with mem := none }
        else recoverLogFileLoop sizes paranoidChecks { st with reader, status, mem := some mem, maxSequence }
termination_by st.reader.unread
decreasing_by all_goals exact Log.Reader.unread_readRecord_lt read

/-- `RecoverLogFile (log_number, edit, max_sequence)` on the log's bytes: the
status, the largest sequence number so far, the memtables written as level-0
tables, and the `BuildTable` outcomes left. -/
def recoverLogFile (sizes : Sizes) (paranoidChecks : Bool) (buildFaults : List (Option String)) (file : Bytes)
    (maxSequence : SequenceNumber) : Status × SequenceNumber × List MemTable × List (Option String) :=
  let st := recoverLogFileLoop sizes paranoidChecks
    ⟨Log.Reader.new file true 0, .ok, none, maxSequence, [], buildFaults⟩
  match st.mem with
  | some mem =>
    if st.status.isOk then
      let (status, table, buildFaults) := writeLevel0Table st.buildFaults mem
      (status, st.maxSequence, st.tables ++ table, buildFaults)
    else (st.status, st.maxSequence, st.tables, st.buildFaults)
  | none => (st.status, st.maxSequence, st.tables, st.buildFaults)

/-- The logs of `DBImpl::Recover`, oldest first: each log is recovered with
the largest sequence number so far, and its status replaces the one before;
then the last sequence number is raised to the largest seen. -/
def recoverLogs (sizes : Sizes) (paranoidChecks : Bool) (buildFaults : List (Option String))
    (lastSequence : SequenceNumber) (logs : List Bytes) : Status × SequenceNumber × List MemTable :=
  let (s, maxSequence, tables, _) := logs.foldl
    (fun (acc : Status × SequenceNumber × List MemTable × List (Option String)) file =>
      let (s, maxSequence, tables, buildFaults) := recoverLogFile sizes paranoidChecks acc.2.2.2 file acc.2.1
      (s, maxSequence, acc.2.2.1 ++ tables, buildFaults))
    (.ok, 0, [], buildFaults)
  (s, if s.isOk && lastSequence < maxSequence then maxSequence else lastSequence, tables)

/-- The tables `WriteLevel0Table` adds for a memtable when `BuildTable`
succeeds. -/
def level0Tables (mem : MemTable) : List MemTable := if mem.entries.isEmpty then [] else [mem]

theorem writeLevel0Table_reliable {buildFaults : List (Option String)} (reliable : ∀ fault ∈ buildFaults, fault = none)
    (mem : MemTable) :
    writeLevel0Table buildFaults mem = (.ok, level0Tables mem, (writeLevel0Table buildFaults mem).2.2) ∧
      ∀ fault ∈ (writeLevel0Table buildFaults mem).2.2, fault = none := by
  unfold writeLevel0Table level0Tables
  split
  · exact ⟨rfl, reliable⟩
  · cases faults : buildFaults with
    | nil => exact ⟨rfl, by simp⟩
    | cons head rest =>
      have first : head = none := reliable head (by simp [faults])
      subst first
      exact ⟨rfl, fun fault mem => reliable fault (by rw [faults]; exact List.mem_cons_of_mem _ mem)⟩

/-! ## One record -/

@[simp] theorem reportDrops_nil (paranoidChecks : Bool) (status : Status) :
    reportDrops paranoidChecks status [] = status := rfl

theorem reported_drop_self {r next : Log.Reader} (kept : next.reported = r.reported) :
    next.reported.drop r.reported.length = [] := by
  simp [kept]

theorem kHeader_le_of_encodes {b : WriteBatch} {ops : List BatchOp} (encodes : Encodes b ops) :
    kHeader ≤ b.rep.length := by
  rw [encodes.rep, List.length_append, length_header]
  omega

theorem max_step {m x : SequenceNumber} (le : m ≤ x) : (if x > m then x else m) = x := by
  split
  · rfl
  · exact UInt64.le_antisymm le (UInt64.not_lt.mp ‹_›)

theorem lastSeq_eq {b : WriteBatch} {ops : List BatchOp} (encodes : Encodes b ops) {base : SequenceNumber}
    {n : Nat} (numbered : WriteBatchInternal.sequence b = base + 1 + UInt64.ofNat n) :
    WriteBatchInternal.sequence b + UInt64.ofInt (count b) - 1 = base + UInt64.ofNat (n + ops.length) := by
  rw [numbered, encodes.count_eq, uint64_ofInt_natCast, UInt64.ofNat_add]
  grind

@[simp] theorem maybeIgnoreError_ok (paranoidChecks : Bool) : maybeIgnoreError paranoidChecks .ok = .ok := rfl

theorem recoverLogFileLoop_end (sizes : Sizes) (paranoidChecks : Bool) {st : Recovery} {reader : Log.Reader}
    (read : st.reader.readRecord = (none, reader)) (kept : reader.reported = st.reader.reported) :
    recoverLogFileLoop sizes paranoidChecks st = { st with reader } := by
  rw [recoverLogFileLoop]
  split
  · rename_i reader' read'
    rw [read] at read'
    cases read'
    simp [reported_drop_self kept]
  · rename_i record reader' read'
    rw [read] at read'
    cases read'

theorem recoverLogFileLoop_batch (sizes : Sizes) (paranoidChecks : Bool) {st : Recovery} {record : Bytes}
    {reader : Log.Reader} (read : st.reader.readRecord = (some record, reader))
    (kept : reader.reported = st.reader.reported) (status : st.status = .ok)
    (reliable : ∀ fault ∈ st.buildFaults, fault = none) {ops : List BatchOp} (encodes : Encodes ⟨record⟩ ops) :
    let mem := insertInto (st.mem.getD MemTable.empty) (WriteBatchInternal.sequence ⟨record⟩) ops
    let lastSeq := WriteBatchInternal.sequence ⟨record⟩ + UInt64.ofInt (count ⟨record⟩) - 1
    let maxSequence := if lastSeq > st.maxSequence then lastSeq else st.maxSequence
    recoverLogFileLoop sizes paranoidChecks st = recoverLogFileLoop sizes paranoidChecks
      (if sizes.memUsage mem > sizes.writeBufferSize then
        { st with reader, mem := none, maxSequence, tables := st.tables ++ level0Tables mem,
                  buildFaults := (writeLevel0Table st.buildFaults mem).2.2 }
      else { st with reader, mem := some mem, maxSequence }) := by
  intro mem lastSeq maxSequence
  have long : ¬ record.length < 12 := by
    have := kHeader_le_of_encodes encodes
    simp only [kHeader] at this
    omega
  rw [recoverLogFileLoop]
  split
  · rename_i reader' read'
    rw [read] at read'
    cases read'
  · rename_i record' reader' read'
    rw [read] at read'
    cases read'
    simp only [reported_drop_self kept, reportDrops_nil, status, Status.isOk, Bool.not_true,
      Bool.false_eq_true, if_false, long, setContents, insertInto_of_encodes encodes, maybeIgnoreError_ok]
    split
    · -- the full memtable is written out, which cannot fail here
      rw [(writeLevel0Table_reliable reliable mem).1]
      rfl
    · rfl

theorem toNat_add_ofNat {last : SequenceNumber} {n : Nat} (noWrap : last.toNat + n < 2 ^ 64) :
    (last + UInt64.ofNat n).toNat = last.toNat + n := by
  rw [UInt64.toNat_add, UInt64.toNat_ofNat', Nat.mod_eq_of_lt (show n < 2 ^ 64 by omega), Nat.mod_eq_of_lt noWrap]

/-! ## A log of numbered batches -/

section Numbered

variable (sizes : Sizes) (paranoidChecks : Bool) (last0 : SequenceNumber) (all : List (List BatchOp))

/-- The memtable of the first `j` batches. -/
def prefixMem (j : Nat) : MemTable := insertInto MemTable.empty (last0 + 1) (all.take j).flatten

/-- `RecoverLogFile`'s state after `j` of the batches `all`: OK, no
`BuildTable` failure to come, the memtable of those batches held, or written
once the last batch filled it, and their last sequence number kept. -/
structure Replayed (j : Nat) (st : Recovery) : Prop where
  status : st.status = .ok
  within : j ≤ all.length
  reliable : ∀ fault ∈ st.buildFaults, fault = none
  held : st.mem.getD MemTable.empty = prefixMem last0 all j ∧ st.tables = [] ∨
    j = all.length ∧ st.mem = none ∧ st.tables = level0Tables (prefixMem last0 all j)
  maxSequence : st.maxSequence = if j = 0 then 0 else last0 + UInt64.ofNat (all.take j).flatten.length

omit last0 in
theorem take_succ_of_drop {j : Nat} {ops : List BatchOp} {rest : List (List BatchOp)}
    (next : all.drop j = ops :: rest) : all.take (j + 1) = all.take j ++ [ops] := by
  have get : all[j]? = some ops := by rw [← List.head?_drop, next, List.head?_cons]
  rw [List.take_add_one, get, Option.toList_some]

theorem prefixMem_succ {j : Nat} {ops : List BatchOp} {rest : List (List BatchOp)} (next : all.drop j = ops :: rest) :
    prefixMem last0 all (j + 1) =
      insertInto (prefixMem last0 all j) (last0 + 1 + UInt64.ofNat (all.take j).flatten.length) ops := by
  rw [prefixMem, prefixMem, take_succ_of_drop all next, List.flatten_append, List.flatten_singleton,
    insertInto_append]

theorem Replayed.holding {j : Nat} {st : Recovery} (replayed : Replayed last0 all j st) (more : j < all.length) :
    st.mem.getD MemTable.empty = prefixMem last0 all j ∧ st.tables = [] := by
  rcases replayed.held with holding | ⟨whole, -, -⟩
  · exact holding
  · omega

theorem Replayed.next (roomy : ∀ k < all.length,
      sizes.memUsage (insertInto MemTable.empty (last0 + 1) (all.take k).flatten) ≤ sizes.writeBufferSize)
    (noWrap : last0.toNat + all.flatten.length < 2 ^ 64) {j : Nat} {st : Recovery}
    (replayed : Replayed last0 all j st) {record : Bytes} {ops : List BatchOp} {rest : List (List BatchOp)}
    (next : all.drop j = ops :: rest) (encodes : Encodes ⟨record⟩ ops)
    (numbered : WriteBatchInternal.sequence ⟨record⟩ = last0 + 1 + UInt64.ofNat (all.take j).flatten.length)
    (reader : Log.Reader) :
    let mem := insertInto (st.mem.getD MemTable.empty) (WriteBatchInternal.sequence ⟨record⟩) ops
    let lastSeq := WriteBatchInternal.sequence ⟨record⟩ + UInt64.ofInt (count ⟨record⟩) - 1
    let maxSequence := if lastSeq > st.maxSequence then lastSeq else st.maxSequence
    Replayed last0 all (j + 1)
      (if sizes.memUsage mem > sizes.writeBufferSize then
        { st with reader, mem := none, maxSequence, tables := st.tables ++ level0Tables mem,
                  buildFaults := (writeLevel0Table st.buildFaults mem).2.2 }
      else { st with reader, mem := some mem, maxSequence }) := by
  intro mem lastSeq maxSequence
  have more : j < all.length := by
    have := congrArg List.length next
    simp at this
    omega
  obtain ⟨holding, noTables⟩ := replayed.holding last0 all more
  have memEq : mem = prefixMem last0 all (j + 1) := by
    simp only [mem, holding, numbered, prefixMem_succ last0 all next]
  -- the batch's updates follow the ones before it
  have taken : (all.take (j + 1)).flatten.length = (all.take j).flatten.length + ops.length := by
    rw [take_succ_of_drop all next]
    simp
  have lastSeqEq : lastSeq = last0 + UInt64.ofNat (all.take (j + 1)).flatten.length := by
    rw [taken]
    exact lastSeq_eq encodes numbered
  have bounded : (all.take (j + 1)).flatten.length ≤ all.flatten.length := by
    have := List.take_append_drop (j + 1) all
    have lengths := congrArg (fun l => l.flatten.length) this
    simp only [List.flatten_append, List.length_append] at lengths
    omega
  have maxEq : maxSequence = lastSeq := by
    apply max_step
    rw [replayed.maxSequence]
    split
    · exact UInt64.zero_le
    · rw [lastSeqEq, taken, UInt64.le_iff_toNat_le, toNat_add_ofNat (by omega), toNat_add_ofNat (by omega)]
      omega
  split
  · rename_i full
    -- only the last batch can outgrow the write buffer
    have last : j + 1 = all.length := by
      by_contra notLast
      have := roomy (j + 1) (by omega)
      rw [← prefixMem, ← memEq] at this
      omega
    refine ⟨replayed.status, by omega, (writeLevel0Table_reliable replayed.reliable mem).2,
      .inr ⟨last, rfl, by rw [noTables, memEq, List.nil_append]⟩, ?_⟩
    simp [maxEq, lastSeqEq]
  · refine ⟨replayed.status, by omega, replayed.reliable, .inl ⟨by simp [memEq], noTables⟩, ?_⟩
    simp [maxEq, lastSeqEq]

theorem recoverLogFileLoop_numbered (roomy : ∀ k < all.length,
      sizes.memUsage (insertInto MemTable.empty (last0 + 1) (all.take k).flatten) ≤ sizes.writeBufferSize)
    (noWrap : last0.toNat + all.flatten.length < 2 ^ 64) :
    ∀ {reader : Log.Reader} {records : List Bytes}, Log.Yields reader records →
    ∀ (j : Nat) (st : Recovery) (rest : List (List BatchOp)), st.reader = reader → Replayed last0 all j st →
      all.drop j = rest → Numbered (last0 + 1 + UInt64.ofNat (all.take j).flatten.length) records rest →
      Replayed last0 all all.length (recoverLogFileLoop sizes paranoidChecks st) := by
  intro reader records yields
  induction yields with
  | @done r next read kept =>
    intro j st rest atReader replayed left numbered
    -- no records are left: every batch was replayed
    cases numbered
    have whole : j = all.length := by
      have := List.drop_eq_nil_iff.mp left
      have := replayed.within
      omega
    subst atReader whole
    rw [recoverLogFileLoop_end sizes paranoidChecks read kept]
    exact { replayed with }
  | @record r next record records read kept _ ih =>
    intro j st rest atReader replayed left numbered
    cases numbered with
    | @cons _ _ _ ops batches encodes numberedRecord numberedRest =>
      subst atReader
      rw [recoverLogFileLoop_batch sizes paranoidChecks read kept replayed.status replayed.reliable encodes]
      have taken : (all.take (j + 1)).flatten.length = (all.take j).flatten.length + ops.length := by
        rw [take_succ_of_drop all left]
        simp
      refine ih (j + 1) _ batches ?_
        (replayed.next sizes last0 all roomy noWrap left encodes numberedRecord next) ?_ ?_
      · split <;> rfl
      · rw [← List.drop_drop, left, List.drop_one, List.tail_cons]
      · rw [taken, UInt64.ofNat_add, ← add_assoc]
        exact numberedRest

theorem recoverLogFile_numbered (roomy : ∀ k < all.length,
      sizes.memUsage (insertInto MemTable.empty (last0 + 1) (all.take k).flatten) ≤ sizes.writeBufferSize)
    (noWrap : last0.toNat + all.flatten.length < 2 ^ 64) {buildFaults : List (Option String)}
    (reliable : ∀ fault ∈ buildFaults, fault = none) {file : Bytes} {records : List Bytes}
    (yields : Log.Yields (Log.Reader.new file true 0) records) (numbered : Numbered (last0 + 1) records all) :
    ∃ faults, recoverLogFile sizes paranoidChecks buildFaults file 0 =
      (.ok, if all = [] then 0 else last0 + UInt64.ofNat all.flatten.length,
        level0Tables (prefixMem last0 all all.length), faults) := by
  have start : Replayed last0 all 0 ⟨Log.Reader.new file true 0, .ok, none, 0, [], buildFaults⟩ :=
    ⟨rfl, by omega, reliable, .inl ⟨by simp [prefixMem, insertInto], rfl⟩, rfl⟩
  have replayed := recoverLogFileLoop_numbered sizes paranoidChecks last0 all roomy noWrap yields 0 _ all rfl start
    rfl (by simpa using numbered)
  have maxSequence : (recoverLogFileLoop sizes paranoidChecks
      ⟨Log.Reader.new file true 0, .ok, none, 0, [], buildFaults⟩).maxSequence =
      if all = [] then 0 else last0 + UInt64.ofNat all.flatten.length := by
    simp only [replayed.maxSequence, List.length_eq_zero_iff, List.take_length]
  unfold recoverLogFile
  generalize recoverLogFileLoop sizes paranoidChecks _ = st at replayed maxSequence ⊢
  rw [← maxSequence]
  rcases replayed.held with ⟨holding, noTables⟩ | ⟨-, noMem, tables⟩
  · cases mem : st.mem with
    | none =>
      -- no batch was read into a memtable, so theirs is empty and gives no table
      have empty : prefixMem last0 all all.length = MemTable.empty := by rw [← holding, mem, Option.getD_none]
      exact ⟨st.buildFaults, by simp [mem, replayed.status, noTables, empty, level0Tables]⟩
    | some m =>
      have held : m = prefixMem last0 all all.length := by rw [← holding, mem, Option.getD_some]
      obtain ⟨written, -⟩ := writeLevel0Table_reliable replayed.reliable m
      refine ⟨(writeLevel0Table st.buildFaults m).2.2, ?_⟩
      simp only [mem, replayed.status, Status.isOk, if_true]
      rw [written]
      simp [noTables, held]
  · exact ⟨st.buildFaults, by simp [noMem, replayed.status, tables]⟩

theorem raise_eq {last : SequenceNumber} {n : Nat} (noWrap : last.toNat + n < 2 ^ 64) :
    (if last < last + UInt64.ofNat n then last + UInt64.ofNat n else last) = last + UInt64.ofNat n := by
  split
  · rfl
  · rename_i notLess
    have zero : n = 0 := by
      rw [UInt64.lt_iff_toNat_lt, toNat_add_ofNat noWrap] at notLess
      omega
    simp [zero]

/-- `Recover` on one log that reads back as batches numbered on from `last0`:
OK, the last sequence number raised over the batches, and their memtable as
the one level-0 table, if it is not empty. -/
theorem recoverLogs_numbered (roomy : ∀ k < all.length,
      sizes.memUsage (insertInto MemTable.empty (last0 + 1) (all.take k).flatten) ≤ sizes.writeBufferSize)
    (noWrap : last0.toNat + all.flatten.length < 2 ^ 64) {buildFaults : List (Option String)}
    (reliable : ∀ fault ∈ buildFaults, fault = none) {file : Bytes} {records : List Bytes}
    (yields : Log.Yields (Log.Reader.new file true 0) records) (numbered : Numbered (last0 + 1) records all) :
    recoverLogs sizes paranoidChecks buildFaults last0 [file] =
      (.ok, last0 + UInt64.ofNat all.flatten.length, level0Tables (insertInto MemTable.empty (last0 + 1) all.flatten)) := by
  obtain ⟨faults, recovered⟩ :=
    recoverLogFile_numbered sizes paranoidChecks last0 all roomy noWrap reliable yields numbered
  simp only [recoverLogs, List.foldl_cons, List.foldl_nil, recovered, List.nil_append, prefixMem, List.take_length]
  by_cases empty : all = []
  · -- nothing was logged: the last sequence number stays
    subst empty
    simp
  · simp only [empty, if_false, Status.isOk, Bool.true_and, decide_eq_true_eq, raise_eq noWrap]

end Numbered

/-! ## Recovering what the write path wrote -/

section Run

variable (sizes : Sizes) (last0 : SequenceNumber)

theorem roomy_of_keeps {arrived : List Writer} {st : WriteState} (keeps : Keeps sizes MemTable.empty last0 arrived st)
    (logKeeps : LogKeeps st) :
    ∀ k < (st.logged.map Prod.fst).length, sizes.memUsage
      (insertInto MemTable.empty (last0 + 1) ((st.logged.map Prod.fst).take k).flatten) ≤ sizes.writeBufferSize := by
  intro k within
  rw [List.length_map] at within
  have ok : ∀ x ∈ st.logged.take k, x.2 = .ok := fun x mem => logKeeps.okBefore x (by
    rw [List.dropLast_eq_take]
    exact (List.take_sublist_take_left (by omega)).subset mem)
  have roomy := keeps.roomy k within
  rwa [okInsert_of_ok _ ok, List.map_take] at roomy

end Run

/-- After any run of the write path on a new log whose writes do not fail,
with no `BuildTable` failure, replaying the log is OK, gives back the run's
last sequence number, and writes the memtable of every update the run logged
as the one level-0 table; when every writer was told OK, that is the run's
memtable. -/
theorem recoverLogs_run (sizes : Sizes) (paranoidChecks : Bool) (last0 : SequenceNumber)
    {writeFaults : List (Option (Nat × String))} (reliable : ∀ fault ∈ writeFaults, fault = none)
    (syncFaults : List (Option String)) {buildFaults : List (Option String)}
    (built : ∀ fault ∈ buildFaults, fault = none) {actions : List WriteAction} {st : WriteState}
    (ran : run sizes (WriteState.init MemTable.empty last0 writeFaults syncFaults) actions = some st)
    (wellFormed : ∀ w ∈ actions.flatMap WriteAction.arrivals, w.WellFormed)
    (noWrap : last0.toNat + (st.logged.map Prod.fst).flatten.length < 2 ^ 64) :
    recoverLogs sizes paranoidChecks buildFaults last0 [st.log.dest.contents] =
        (.ok, st.lastSequence,
          level0Tables (insertInto MemTable.empty (last0 + 1) (st.logged.map Prod.fst).flatten)) ∧
      ((∀ x ∈ st.logged, x.2 = .ok) →
        insertInto MemTable.empty (last0 + 1) (st.logged.map Prod.fst).flatten = st.mem) := by
  obtain ⟨keeps, logKeeps⟩ := keeps_of_run sizes MemTable.empty last0 reliable syncFaults ran wellFormed
  refine ⟨?_, fun ok => ?_⟩
  · rw [recoverLogs_numbered sizes paranoidChecks last0 _ (roomy_of_keeps sizes last0 keeps logKeeps) noWrap built
      (logKeeps.yields true) keeps.numbered, keeps.lastSequence]
  · rw [keeps.mem, okInsert_of_ok _ ok]

theorem recoverLogs_run_grouped :
    recoverLogs entryCount true [] 0 [groupedState.log.dest.contents] =
        (.ok, groupedState.lastSequence,
          level0Tables (insertInto MemTable.empty (0 + 1) (groupedState.logged.map Prod.fst).flatten)) ∧
      ((∀ x ∈ groupedState.logged, x.2 = .ok) →
        insertInto MemTable.empty (0 + 1) (groupedState.logged.map Prod.fst).flatten = groupedState.mem) :=
  recoverLogs_run entryCount true 0 (by simp) [none] (by simp) groupedWrites_run groupedWrites_wellFormed
    (by rw [groupedState_logged]; decide)

end DBImpl

end HLsm
