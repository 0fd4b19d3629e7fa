import HLsm.Version

/-! # `db/memtable.cc`, `db/write_batch.cc`: the memtable and the write batch

The memtable is a skip list of entries in internal-key order; as an ordered
set of `(internal key, value)` pairs it is the strictly increasing list of its
entries, which is what its iterator visits and what `BuildTable` writes.  Two
entries never share an internal key, since every record of a write batch gets
a sequence number of its own.

`MemTable::Get` seeks the first entry at or after the lookup key, as
`TableCache::Get` does on a table file, and answers only when that entry has
the user key looked up.
-/

set_option autoImplicit false

namespace HLsm

open HLsm.Coding HLsm.Format

def entryOrder : InternalKey × Bytes → InternalKey × Bytes → Ordering :=
  byKey internalCompare fun entry => entry.1.rep

instance : Std.TransCmp entryOrder :=
  inferInstanceAs (Std.TransCmp (byKey internalCompare fun entry : InternalKey × Bytes => entry.1.rep))

/-- `MemTable`: its entries in internal-key order. -/
structure MemTable where
  table : OrdSet entryOrder
  deriving DecidableEq, Repr

namespace MemTable

def empty : MemTable := ⟨∅⟩

def add (mem : MemTable) (s : SequenceNumber) (type : ValueType) (key value : Bytes) : MemTable :=
  ⟨mem.table.insert (InternalKey.make key s type, value)⟩

def entries (mem : MemTable) : Table := mem.table.elems

/-- `MemTable::Get`: `none` when it returns `false`; otherwise the status it
sets and the value it stores. -/
def get (mem : MemTable) (key : Bytes) (s : SequenceNumber) : Option (Status × Option Bytes) :=
  match Table.seek mem.entries (lookupKey key s) with
  | none => none
  | some (ikey, value) =>
      if bytewiseCompare (extractUserKey ikey.rep) key == .eq then
        -- the type byte of the tag: `kTypeValue` or `kTypeDeletion`
        match (extractTag ikey.rep).toNat % 256 with
        | 1 => some (.ok, some value)
        | 0 => some (.notFound "", none)
        | _ => none
      else none

@[simp] theorem entries_empty : empty.entries = [] := rfl

end MemTable

/-! ## Write batches -/

/-- A record of a `WriteBatch`. -/
inductive BatchOp where
  | put (key value : Bytes)
  | delete (key : Bytes)
  deriving DecidableEq, Repr

/-- `WriteBatchInternal::InsertInto`: the records get the sequence numbers
`seq`, `seq + 1`, ... in order (`MemTableInserter`). -/
def insertInto (mem : MemTable) (seq : SequenceNumber) : List BatchOp → MemTable
  | [] => mem
  | .put key value :: rest => insertInto (mem.add seq .kTypeValue key value) (seq + 1) rest
  | .delete key :: rest => insertInto (mem.add seq .kTypeDeletion key []) (seq + 1) rest

end HLsm
