import HLsm.Coding
import HLsm.Lib.SortedSet

/-!
# `db/dbformat.{h,cc}`: internal keys and their order

An internal key is the user key followed by eight bytes that pack the sequence
number and the value type, and `InternalKey` keeps exactly those bytes (its
`rep_`), which is also what the MANIFEST records carry.  The order on internal
keys is the one `InternalKeyComparator::Compare` computes: increasing user key
under the bytewise comparator (`BytewiseComparatorImpl`, the default
`Options::comparator` and the one every tool in the repository opens its
database with), then decreasing packed tag.

`ExtractUserKey` and the tag read assert a key of at least eight bytes; on a
shorter key the model reads an empty user key and a tag whose missing bytes are
zero.
-/

set_option autoImplicit false

namespace HLsm.Format

open HLsm.Coding

/-- `ValueType`, with the values the enum fixes on disk. -/
inductive ValueType where
  | kTypeDeletion
  | kTypeValue
  deriving DecidableEq, Repr

def ValueType.toNat : ValueType → Nat
  | .kTypeDeletion => 0
  | .kTypeValue => 1

def kValueTypeForSeek : ValueType := .kTypeValue

/-- `SequenceNumber`, a `uint64_t`. -/
abbrev SequenceNumber := UInt64

def kMaxSequenceNumber : SequenceNumber := UInt64.ofNat (2 ^ 56 - 1)

/-- `PackSequenceAndType`: `(seq << 8) | t`. -/
def packSequenceAndType (seq : SequenceNumber) (t : ValueType) : UInt64 :=
  UInt64.ofNat (seq.toNat * 256 + t.toNat)

/-- `InternalKey`: the bytes of `rep_`. -/
structure InternalKey where
  rep : Bytes
  deriving DecidableEq, Repr

/-- `InternalKey (user_key, s, t)`, through `AppendInternalKey`. -/
def InternalKey.make (userKey : Bytes) (s : SequenceNumber) (t : ValueType) : InternalKey :=
  ⟨putFixed64 userKey (packSequenceAndType s t)⟩

def InternalKey.encode (key : InternalKey) : Bytes := key.rep

def InternalKey.decodeFrom (bytes : Bytes) : InternalKey := ⟨bytes⟩

def extractUserKey (internalKey : Bytes) : Bytes := internalKey.take (internalKey.length - 8)

def extractTag (internalKey : Bytes) : UInt64 :=
  decodeFixed64 (internalKey.drop (internalKey.length - 8))

def InternalKey.userKey (key : InternalKey) : Bytes := extractUserKey key.rep

/-- `ParsedInternalKey`. -/
structure ParsedInternalKey where
  userKey : Bytes
  sequence : SequenceNumber
  type : ValueType
  deriving DecidableEq, Repr

/-- `ParseInternalKey`: fails on a key shorter than eight bytes and on a type
byte above `kTypeValue`. -/
def parseInternalKey (internalKey : Bytes) : Option ParsedInternalKey :=
  if internalKey.length < 8 then none
  else
    let num := extractTag internalKey
    let c := num.toNat % 256
    let seq := UInt64.ofNat (num.toNat / 256)
    if c = 0 then some ⟨extractUserKey internalKey, seq, .kTypeDeletion⟩
    else if c = 1 then some ⟨extractUserKey internalKey, seq, .kTypeValue⟩
    else none

/-- `BytewiseComparatorImpl::Compare`, i.e. `Slice::compare`: `memcmp` over the
common prefix, then the shorter slice first. -/
def bytewiseCompare : Bytes → Bytes → Ordering
  | [], [] => .eq
  | [], _ :: _ => .lt
  | _ :: _, [] => .gt
  | a :: as, b :: bs =>
      match compare a b with
      | .eq => bytewiseCompare as bs
      | result => result

/-- `InternalKeyComparator::Compare`. -/
def internalCompare (a b : Bytes) : Ordering :=
  match bytewiseCompare (extractUserKey a) (extractUserKey b) with
  | .eq => compare (extractTag b).toNat (extractTag a).toNat
  | result => result

/-! ## Both comparators are lawful -/

theorem bytewiseCompare_eq_compareLex : bytewiseCompare = List.compareLex compare := by
  funext a b
  induction a generalizing b with
  | nil => cases b <;> rfl
  | cons x xs ih =>
      cases b with
      | nil => rfl
      | cons y ys =>
          simp only [bytewiseCompare, List.compareLex_cons_cons, ih]
          cases compare x y <;> rfl

instance : Std.TransCmp bytewiseCompare := by
  rw [bytewiseCompare_eq_compareLex]
  infer_instance

theorem internalCompare_eq_compareLex :
    internalCompare = compareLex (byKey bytewiseCompare extractUserKey)
      (byKey (fun x y => compare y x) fun key => (extractTag key).toNat) := by
  funext a b
  simp only [internalCompare, compareLex, byKey]
  cases bytewiseCompare (extractUserKey a) (extractUserKey b) <;> rfl

instance : Std.TransCmp internalCompare := by
  rw [internalCompare_eq_compareLex]
  infer_instance

/-- `InternalKeyComparator::Compare` on two `InternalKey`s. -/
def InternalKey.compare (a b : InternalKey) : Ordering := internalCompare a.rep b.rep

def lookupKey (userKey : Bytes) (s : SequenceNumber) : Bytes :=
  putFixed64 userKey (packSequenceAndType s kValueTypeForSeek)

/-! ## Facts about keys built by `InternalKey.make` -/

theorem encodeFixed64_length (value : UInt64) : (encodeFixed64 value).length = 8 := by
  simp [encodeFixed64]

theorem decodeFixed64_encode (value : UInt64) : decodeFixed64 (encodeFixed64 value) = value := by
  have low := value.toNat_lt
  apply UInt64.toNat_inj.mp
  simp only [decodeFixed64, encodeFixed64, List.range_succ, List.range_zero, List.nil_append,
    List.map_append, List.map_cons, List.map_nil, List.foldr_append, List.foldr_cons,
    List.foldr_nil]
  simp [UInt64.toNat_ofNat, Nat.mod_eq_of_lt]
  omega

@[simp] theorem extractUserKey_make (userKey : Bytes) (s : SequenceNumber) (t : ValueType) :
    extractUserKey (InternalKey.make userKey s t).rep = userKey := by
  simp [InternalKey.make, putFixed64, extractUserKey, encodeFixed64_length]

@[simp] theorem extractTag_make (userKey : Bytes) (s : SequenceNumber) (t : ValueType) :
    extractTag (InternalKey.make userKey s t).rep = packSequenceAndType s t := by
  simp [InternalKey.make, putFixed64, extractTag, encodeFixed64_length, decodeFixed64_encode]

end HLsm.Format
