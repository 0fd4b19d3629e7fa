import HLsm.MemTable

/-! # `db/write_batch.cc`: the batch a write hands to the log and the memtable

A `WriteBatch` is its `rep_`: an 8-byte sequence number, a 4-byte count, then
one record per update, a tag byte (`kTypeValue` or `kTypeDeletion`) and the
length-prefixed key, and for a `Put` the length-prefixed value.  `Iterate`
parses the records back and hands each to a handler; `InsertInto` iterates
with the `MemTableInserter`, which numbers the updates from `Sequence (b)` on.
`Count` returns the count word as an `int`.

The invariant is `Encodes b ops`: the rep is a header counting `ops` and the
records of `ops`.  `WriteBatch ()`, `Put`, `Delete`, `SetSequence` and
`Append` keep it, and on such a batch `Iterate` hands out exactly `ops` and
returns OK (`iterate_of_encodes`).
-/

set_option autoImplicit false

namespace HLsm

open HLsm.Coding HLsm.Format

structure WriteBatch where
  rep : Bytes
  deriving DecidableEq, Repr

/-- `kHeader`: the sequence number and the count. -/
def WriteBatch.kHeader : Nat := 12

namespace WriteBatchInternal

/-- The `int` a `uint32_t` converts to. -/
def intOfWord (w : UInt32) : Int := if w.toNat < 2 ^ 31 then w.toNat else w.toNat - 2 ^ 32

def count (b : WriteBatch) : Int := intOfWord (decodeFixed32 (b.rep.drop 8))

/-- `SetCount (b, n)`: `EncodeFixed32 (&rep_[8], n)` over the four count bytes. -/
def setCount (b : WriteBatch) (n : Int) : WriteBatch :=
  ⟨b.rep.take 8 ++ encodeFixed32 (UInt32.ofInt n) ++ b.rep.drop 12⟩

def sequence (b : WriteBatch) : SequenceNumber := decodeFixed64 b.rep

def setSequence (b : WriteBatch) (seq : SequenceNumber) : WriteBatch :=
  ⟨encodeFixed64 seq ++ b.rep.drop 8⟩

def contents (b : WriteBatch) : Bytes := b.rep

def byteSize (b : WriteBatch) : Nat := b.rep.length

/-- `SetContents (b, contents)`; the caller passes at least `kHeader` bytes. -/
def setContents (contents : Bytes) : WriteBatch := ⟨contents⟩

end WriteBatchInternal

namespace WriteBatch

open WriteBatchInternal

/-- `WriteBatch ()`, that is `Clear ()`: a header of zeros. -/
def new : WriteBatch := ⟨List.replicate kHeader 0⟩

def put (b : WriteBatch) (key value : Bytes) : WriteBatch :=
  let b := setCount b (count b + 1)
  ⟨putLengthPrefixedSlice
    (putLengthPrefixedSlice (b.rep ++ [UInt8.ofNat ValueType.kTypeValue.toNat]) key) value⟩

def delete (b : WriteBatch) (key : Bytes) : WriteBatch :=
  let b := setCount b (count b + 1)
  ⟨putLengthPrefixedSlice (b.rep ++ [UInt8.ofNat ValueType.kTypeDeletion.toNat]) key⟩

-- the linter misses the use of the outer match hypothesis in `decreasing_by`
set_option linter.unusedVariables false in
/-- `Iterate`'s loop over the records, from the handler calls made so far and
`found`, the records begun: the calls it makes, in order, and its status. -/
def iterateLoop (count : Int) (found : Nat) (calls : List BatchOp) : Bytes → List BatchOp × Status
  | [] => (calls, if (found : Int) ≠ count then .corruption "WriteBatch has wrong count" else .ok)
  | tag :: input =>
    let found := found + 1
    if tag.toNat = ValueType.kTypeValue.toNat then
      match readKey : getLengthPrefixedSlice input with
      | none => (calls, .corruption "bad WriteBatch Put")
      | some (key, input) =>
        match readValue : getLengthPrefixedSlice input with
        | none => (calls, .corruption "bad WriteBatch Put")
        | some (value, input) => iterateLoop count found (calls ++ [.put key value]) input
    else if tag.toNat = ValueType.kTypeDeletion.toNat then
      match readKey : getLengthPrefixedSlice input with
      | none => (calls, .corruption "bad WriteBatch Delete")
      | some (key, input) => iterateLoop count found (calls ++ [.delete key]) input
    else (calls, .corruption "unknown WriteBatch tag")
termination_by input => input.length
decreasing_by
  · have := getLengthPrefixedSlice_rest_length_lt readKey
    have := getLengthPrefixedSlice_rest_length_lt readValue
    simp only [List.length_cons]
    omega
  · have := getLengthPrefixedSlice_rest_length_lt readKey
    simp only [List.length_cons]
    omega

/-- `Iterate (handler)`: the handler calls, in order, and the status; the calls
made before an error stay made. -/
def iterate (b : WriteBatch) : List BatchOp × Status :=
  if b.rep.length < kHeader then ([], .corruption "malformed WriteBatch (too small)")
  else iterateLoop (count b) 0 [] (b.rep.drop kHeader)

end WriteBatch

namespace WriteBatchInternal

/-- `InsertInto (b, memtable)`: the `MemTableInserter` adds the updates
`Iterate` hands it, numbered from `Sequence (b)` on. -/
def insertInto (b : WriteBatch) (mem : MemTable) : MemTable × Status :=
  let (calls, status) := b.iterate
  (HLsm.insertInto mem (sequence b) calls, status)

/-- `Append (dst, src)`: the counts add up and `src`'s records follow `dst`'s. -/
def append (dst src : WriteBatch) : WriteBatch :=
  let dst := setCount dst (count dst + count src)
  ⟨dst.rep ++ src.rep.drop WriteBatch.kHeader⟩

end WriteBatchInternal

/-! ## Batches built by `Put` and `Delete` -/

def BatchOp.Small : BatchOp → Prop
  | .put key value => key.length < 2 ^ 32 ∧ value.length < 2 ^ 32
  | .delete key => key.length < 2 ^ 32

namespace WriteBatch

open WriteBatchInternal

/-- The record `Put` or `Delete` appends for an update. -/
def record : BatchOp → Bytes
  | .put key value =>
      UInt8.ofNat ValueType.kTypeValue.toNat ::
        (putLengthPrefixedSlice [] key ++ putLengthPrefixedSlice [] value)
  | .delete key => UInt8.ofNat ValueType.kTypeDeletion.toNat :: putLengthPrefixedSlice [] key

/-- `Put` or `Delete`, as the update says. -/
def apply (b : WriteBatch) : BatchOp → WriteBatch
  | .put key value => b.put key value
  | .delete key => b.delete key

/-- A batch filled by `Put`s and `Delete`s. -/
def build (ops : List BatchOp) : WriteBatch := ops.foldl apply new

def header (seq : SequenceNumber) (n : Nat) : Bytes := encodeFixed64 seq ++ encodeFixed32 (UInt32.ofNat n)

@[simp] theorem length_header (seq : SequenceNumber) (n : Nat) : (header seq n).length = kHeader := by
  simp [header, encodeFixed64_length, kHeader]

/-- The rep is a header counting `ops` and the records of `ops`. -/
structure Encodes (b : WriteBatch) (ops : List BatchOp) : Prop where
  rep : b.rep = header (WriteBatchInternal.sequence b) ops.length ++ ops.flatMap record
  small : ∀ op ∈ ops, op.Small
  fewer : ops.length < 2 ^ 31

/-! ### The header fields -/

theorem intOfWord_ofNat {n : Nat} (fits : n < 2 ^ 31) : intOfWord (UInt32.ofNat n) = n := by
  have : (UInt32.ofNat n).toNat = n := by
    rw [UInt32.toNat_ofNat']
    omega
  rw [intOfWord, this, if_pos fits]

theorem ofInt_natCast (n : Nat) : UInt32.ofInt (n : Int) = UInt32.ofNat n := by
  have : ((n : Int) % 4294967296).toNat = n % 2 ^ 32 := by omega
  simp only [UInt32.ofInt, Int.reducePow, this, UInt32.ofNat_mod_size]

theorem decodeFixed64_append (bytes rest : Bytes) (long : 8 ≤ bytes.length) :
    decodeFixed64 (bytes ++ rest) = decodeFixed64 bytes := by
  have low : ∀ i ∈ List.range 8, ∀ acc : Nat,
      acc * 256 + ((bytes ++ rest).getD i 0).toNat = acc * 256 + (bytes.getD i 0).toNat := by
    intro i range acc
    rw [List.getD_append _ _ _ _ (by have := List.mem_range.mp range; omega)]
  unfold decodeFixed64
  rw [List.foldr_ext _ _ 0 low]

theorem sequence_of_rep {b : WriteBatch} {seq : SequenceNumber} {n : Nat} {rest : Bytes}
    (rep : b.rep = header seq n ++ rest) : WriteBatchInternal.sequence b = seq := by
  rw [WriteBatchInternal.sequence, rep, header, List.append_assoc,
    decodeFixed64_append _ _ (by simp [encodeFixed64_length]), decodeFixed64_encode]

theorem count_of_rep {b : WriteBatch} {seq : SequenceNumber} {n : Nat} {rest : Bytes}
    (rep : b.rep = header seq n ++ rest) (fits : n < 2 ^ 31) : count b = n := by
  rw [count, rep, header, List.append_assoc, List.drop_left' (encodeFixed64_length seq),
    decodeFixed32_encode, intOfWord_ofNat fits]

theorem setCount_of_rep {b : WriteBatch} {seq : SequenceNumber} {n : Nat} {rest : Bytes}
    (rep : b.rep = header seq n ++ rest) (m : Nat) : (setCount b m).rep = header seq m ++ rest := by
  have prefix8 : b.rep.take 8 = encodeFixed64 seq := by
    simp [rep, header, encodeFixed64_length]
  have suffix12 : b.rep.drop 12 = rest := by
    rw [rep]
    exact List.drop_left' (by simp [kHeader])
  rw [setCount, prefix8, suffix12, ofInt_natCast, header]

theorem setSequence_of_rep {b : WriteBatch} {seq : SequenceNumber} {n : Nat} {rest : Bytes}
    (rep : b.rep = header seq n ++ rest) (seq' : SequenceNumber) :
    (setSequence b seq').rep = header seq' n ++ rest := by
  simp [setSequence, rep, header, encodeFixed64_length]

theorem encodes_of_rep {b : WriteBatch} {seq : SequenceNumber} {ops : List BatchOp}
    (rep : b.rep = header seq ops.length ++ ops.flatMap record) (small : ∀ op ∈ ops, op.Small)
    (fewer : ops.length < 2 ^ 31) : Encodes b ops :=
  ⟨by rw [sequence_of_rep rep]; exact rep, small, fewer⟩

theorem new_rep : new.rep = header 0 0 ++ [] := by decide

/-! ### `Iterate` over well-formed records -/

theorem ofNat_tag (t : ValueType) : (UInt8.ofNat t.toNat).toNat = t.toNat := by
  cases t <;> rfl

theorem iterateLoop_record (count : Int) (found : Nat) (calls : List BatchOp) {op : BatchOp}
    (small : op.Small) (rest : Bytes) :
    iterateLoop count found calls (record op ++ rest) = iterateLoop count (found + 1) (calls ++ [op]) rest := by
  cases op with
  | put key value =>
    obtain ⟨keySmall, valueSmall⟩ := small
    have readKey := getLengthPrefixedSlice_put key (putLengthPrefixedSlice [] value ++ rest) keySmall
    have readValue := getLengthPrefixedSlice_put value rest valueSmall
    rw [record, List.cons_append, iterateLoop, List.append_assoc, ofNat_tag, if_pos rfl]
    split
    · rename_i missing
      rw [readKey] at missing
      cases missing
    · rename_i key' input read
      rw [readKey] at read
      cases read
      split
      · rename_i missing
        rw [readValue] at missing
        cases missing
      · rename_i value' input' read'
        rw [readValue] at read'
        cases read'
        rfl
  | delete key =>
    have readKey := getLengthPrefixedSlice_put key rest small
    rw [record, List.cons_append, iterateLoop, ofNat_tag, if_neg (by decide), if_pos rfl]
    split
    · rename_i missing
      rw [readKey] at missing
      cases missing
    · rename_i key' input read
      rw [readKey] at read
      cases read
      rfl

theorem iterateLoop_records (count : Int) (ops : List BatchOp) (small : ∀ op ∈ ops, op.Small) :
    ∀ (found : Nat) (calls : List BatchOp), iterateLoop count found calls (ops.flatMap record) =
      (calls ++ ops, if ((found + ops.length : Nat) : Int) ≠ count then .corruption "WriteBatch has wrong count"
        else .ok) := by
  induction ops with
  | nil => intro found calls; simp [iterateLoop]
  | cons op ops ih =>
    intro found calls
    rw [List.flatMap_cons, iterateLoop_record count found calls (small op (by simp)),
      ih (fun op mem => small op (by simp [mem]))]
    simp only [List.append_assoc, List.singleton_append, List.length_cons]
    congr 3
    omega

theorem Encodes.count_eq {b : WriteBatch} {ops : List BatchOp} (encodes : Encodes b ops) :
    count b = ops.length :=
  count_of_rep encodes.rep encodes.fewer

/-- A batch that keeps the invariant iterates to its updates, and is OK. -/
theorem iterate_of_encodes {b : WriteBatch} {ops : List BatchOp} (encodes : Encodes b ops) :
    b.iterate = (ops, .ok) := by
  have long : ¬ b.rep.length < kHeader := by
    rw [encodes.rep]
    simp
  have records : b.rep.drop kHeader = ops.flatMap record := by
    rw [encodes.rep]
    exact List.drop_left' (length_header _ _)
  rw [iterate, if_neg long, records, iterateLoop_records _ ops encodes.small, encodes.count_eq]
  simp

theorem insertInto_of_encodes {b : WriteBatch} {ops : List BatchOp} (encodes : Encodes b ops)
    (mem : MemTable) :
    WriteBatchInternal.insertInto b mem = (HLsm.insertInto mem (WriteBatchInternal.sequence b) ops, .ok) := by
  simp [WriteBatchInternal.insertInto, iterate_of_encodes encodes]

/-! ### The operations keep the invariant -/

theorem encodes_new : Encodes new [] := encodes_of_rep new_rep (by simp) (by simp)

theorem encodes_setSequence {b : WriteBatch} {ops : List BatchOp} (encodes : Encodes b ops)
    (seq : SequenceNumber) :
    Encodes (setSequence b seq) ops ∧ WriteBatchInternal.sequence (setSequence b seq) = seq := by
  have rep := setSequence_of_rep encodes.rep seq
  exact ⟨encodes_of_rep rep encodes.small encodes.fewer, sequence_of_rep rep⟩

theorem put_rep (b : WriteBatch) (key value : Bytes) :
    (b.put key value).rep = (setCount b (count b + 1)).rep ++ record (.put key value) := by
  simp [put, record, putLengthPrefixedSlice_eq]

theorem delete_rep (b : WriteBatch) (key : Bytes) :
    (b.delete key).rep = (setCount b (count b + 1)).rep ++ record (.delete key) := by
  simp [delete, record, putLengthPrefixedSlice_eq]

theorem apply_rep (b : WriteBatch) (op : BatchOp) :
    (b.apply op).rep = (setCount b (count b + 1)).rep ++ record op := by
  cases op with
  | put key value => exact put_rep b key value
  | delete key => exact delete_rep b key

theorem encodes_apply {b : WriteBatch} {ops : List BatchOp} (encodes : Encodes b ops) {op : BatchOp}
    (small : op.Small) (fewer : ops.length + 1 < 2 ^ 31) : Encodes (b.apply op) (ops ++ [op]) := by
  have counted : count b + 1 = ((ops.length + 1 : Nat) : Int) := by
    rw [encodes.count_eq]
    push_cast
    rfl
  have rep : (b.apply op).rep =
      header (WriteBatchInternal.sequence b) (ops ++ [op]).length ++ (ops ++ [op]).flatMap record := by
    rw [apply_rep, counted, setCount_of_rep encodes.rep]
    simp
  refine encodes_of_rep rep ?_ (by simpa using fewer)
  intro op' mem
  rcases List.mem_append.mp mem with old | new
  · exact encodes.small op' old
  · rw [List.mem_singleton.mp new]
    exact small

theorem encodes_build (ops : List BatchOp) (small : ∀ op ∈ ops, op.Small) (fewer : ops.length < 2 ^ 31) :
    Encodes (build ops) ops := by
  induction ops using List.reverseRecOn with
  | nil => exact encodes_new
  | append_singleton ops op ih =>
    rw [build, List.foldl_append, List.foldl_cons, List.foldl_nil]
    have smallOps : ∀ op ∈ ops, op.Small := fun op mem => small op (List.mem_append_left _ mem)
    exact encodes_apply (ih smallOps (by simp at fewer; omega)) (small op (by simp)) (by simpa using fewer)

theorem encodes_append {dst src : WriteBatch} {dstOps srcOps : List BatchOp} (dstEncodes : Encodes dst dstOps)
    (srcEncodes : Encodes src srcOps) (fewer : dstOps.length + srcOps.length < 2 ^ 31) :
    Encodes (append dst src) (dstOps ++ srcOps) := by
  have counted : count dst + count src = ((dstOps ++ srcOps).length : Int) := by
    rw [dstEncodes.count_eq, srcEncodes.count_eq]
    simp
  have records : src.rep.drop kHeader = srcOps.flatMap record := by
    rw [srcEncodes.rep]
    exact List.drop_left' (length_header _ _)
  have rep : (append dst src).rep =
      header (WriteBatchInternal.sequence dst) (dstOps ++ srcOps).length ++ (dstOps ++ srcOps).flatMap record := by
    simp only [WriteBatchInternal.append, counted, setCount_of_rep dstEncodes.rep, records,
      List.flatMap_append, List.append_assoc]
  refine encodes_of_rep rep ?_ (by simpa using fewer)
  intro op mem
  rcases List.mem_append.mp mem with left | right
  · exact dstEncodes.small op left
  · exact srcEncodes.small op right

/-- A group of two batches of `Put`s and `Delete`s joined by `Append` and
numbered by `SetSequence`: `InsertInto` inserts the updates of both, in order,
numbered from that sequence number, and is OK. -/
theorem insertInto_append_build (first later : List BatchOp) (small : ∀ op ∈ first ++ later, op.Small)
    (fewer : first.length + later.length < 2 ^ 31) (seq : SequenceNumber) (mem : MemTable) :
    WriteBatchInternal.insertInto (setSequence (append (build first) (build later)) seq) mem =
      (HLsm.insertInto mem seq (first ++ later), .ok) := by
  have firstEncodes := encodes_build first (fun op mem => small op (List.mem_append_left _ mem)) (by omega)
  have laterEncodes := encodes_build later (fun op mem => small op (List.mem_append_right _ mem)) (by omega)
  obtain ⟨encodes, numbered⟩ := encodes_setSequence (encodes_append firstEncodes laterEncodes fewer) seq
  rw [insertInto_of_encodes encodes, numbered]

theorem insertInto_append_build_two :
    WriteBatchInternal.insertInto (setSequence (append (build [.put [1] [2]]) (build [.delete [1]])) 7)
        MemTable.empty =
      (HLsm.insertInto MemTable.empty 7 ([.put [1] [2]] ++ [.delete [1]]), .ok) :=
  insertInto_append_build [.put [1] [2]] [.delete [1]] (by simp [BatchOp.Small]) (by decide) 7 MemTable.empty

end WriteBatch

end HLsm
