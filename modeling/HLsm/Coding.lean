import HLsm.Lib.Varint

/-!
# `util/coding.cc`: varints, fixed-width words and length-prefixed slices

The byte-level primitives every on-disk record of the version set is written
with.  A `std::string` or `Slice` is a list of bytes; `PutX (dst, ...)` appends
to `dst`.  `EncodeVarint32` is the unrolled five-byte form of the
`EncodeVarint64` loop, so both are `Varint.encode` with the byte budget of
their word (five and ten bytes), and `GetVarint32PtrFallback` /
`GetVarint64Ptr` are `Varint.decode` with the same budgets and the widths of
`uint32_t` and `uint64_t`.

`PutLengthPrefixedSlice` writes `value.size()` through `PutVarint32`, whose
parameter is a `uint32_t`: the length is taken modulo `2 ^ 32`.
-/

set_option autoImplicit false

namespace HLsm.Coding

/-- The contents of a `std::string` or of a `Slice`. -/
abbrev Bytes := List UInt8

def encodeVarint32 (value : UInt32) : Bytes := Varint.encode 5 value.toNat

def encodeVarint64 (value : UInt64) : Bytes := Varint.encode 10 value.toNat

def putVarint32 (dst : Bytes) (value : UInt32) : Bytes := dst ++ encodeVarint32 value

def putVarint64 (dst : Bytes) (value : UInt64) : Bytes := dst ++ encodeVarint64 value

/-- `GetVarint32`: the value and the input left after it, or `none` when the
input ends inside the varint or the varint runs past five bytes. -/
def getVarint32 (input : Bytes) : Option (UInt32 × Bytes) :=
  (Varint.decode 32 5 0 0 input).map fun result => (UInt32.ofNat result.1, result.2)

def getVarint64 (input : Bytes) : Option (UInt64 × Bytes) :=
  (Varint.decode 64 10 0 0 input).map fun result => (UInt64.ofNat result.1, result.2)

def putLengthPrefixedSlice (dst value : Bytes) : Bytes :=
  putVarint32 dst (UInt32.ofNat value.length) ++ value

/-- `GetLengthPrefixedSlice`: a `uint32_t` length, then that many bytes. -/
def getLengthPrefixedSlice (input : Bytes) : Option (Bytes × Bytes) :=
  match getVarint32 input with
  | none => none
  | some (len, rest) =>
      if len.toNat ≤ rest.length then some (rest.take len.toNat, rest.drop len.toNat)
      else none

/-- `EncodeFixed64` on a little-endian host: the eight bytes of the word, low
byte first. -/
def encodeFixed64 (value : UInt64) : Bytes :=
  (List.range 8).map fun i => UInt8.ofNat (value.toNat / 256 ^ i % 256)

/-- `DecodeFixed64` of the first eight bytes; a missing byte reads as zero. -/
def decodeFixed64 (bytes : Bytes) : UInt64 :=
  UInt64.ofNat ((List.range 8).foldr (fun i acc => acc * 256 + (bytes.getD i 0).toNat) 0)

def putFixed64 (dst : Bytes) (value : UInt64) : Bytes := dst ++ encodeFixed64 value

/-- `EncodeFixed32` on a little-endian host. -/
def encodeFixed32 (value : UInt32) : Bytes :=
  (List.range 4).map fun i => UInt8.ofNat (value.toNat / 256 ^ i % 256)

/-- `DecodeFixed32` of the first four bytes; a missing byte reads as zero. -/
def decodeFixed32 (bytes : Bytes) : UInt32 :=
  UInt32.ofNat ((List.range 4).foldr (fun i acc => acc * 256 + (bytes.getD i 0).toNat) 0)

def putFixed32 (dst : Bytes) (value : UInt32) : Bytes := dst ++ encodeFixed32 value

@[simp] theorem putVarint32_eq (dst : Bytes) (value : UInt32) :
    putVarint32 dst value = dst ++ encodeVarint32 value := rfl

@[simp] theorem putVarint64_eq (dst : Bytes) (value : UInt64) :
    putVarint64 dst value = dst ++ encodeVarint64 value := rfl

theorem putLengthPrefixedSlice_eq (dst value : Bytes) :
    putLengthPrefixedSlice dst value =
      dst ++ encodeVarint32 (UInt32.ofNat value.length) ++ value := rfl

theorem getVarint32_encode (value : UInt32) (rest : Bytes) :
    getVarint32 (encodeVarint32 value ++ rest) = some (value, rest) := by
  have fits : value.toNat < 2 ^ (7 * 5) := by
    have := value.toNat_lt
    omega
  simp [getVarint32, encodeVarint32,
    Varint.decode_encode 32 5 value.toNat rest (by norm_num) fits value.toNat_lt]

theorem getVarint64_encode (value : UInt64) (rest : Bytes) :
    getVarint64 (encodeVarint64 value ++ rest) = some (value, rest) := by
  have fits : value.toNat < 2 ^ (7 * 10) := by
    have := value.toNat_lt
    omega
  simp [getVarint64, encodeVarint64,
    Varint.decode_encode 64 10 value.toNat rest (by norm_num) fits value.toNat_lt]

theorem getLengthPrefixedSlice_put (value rest : Bytes) (short : value.length < 2 ^ 32) :
    getLengthPrefixedSlice (putLengthPrefixedSlice [] value ++ rest) = some (value, rest) := by
  have lengthWord : (UInt32.ofNat value.length).toNat = value.length := by
    simpa using short
  simp only [getLengthPrefixedSlice, putLengthPrefixedSlice_eq, List.nil_append,
    List.append_assoc, getVarint32_encode, lengthWord]
  simp

theorem getVarint32_rest_length_lt {input rest : Bytes} {value : UInt32}
    (read : getVarint32 input = some (value, rest)) : rest.length < input.length := by
  simp only [getVarint32, Option.map_eq_some_iff, Prod.mk.injEq] at read
  obtain ⟨⟨decoded, rest'⟩, decode, -, rfl⟩ := read
  exact Varint.decode_rest_length_lt 32 input 5 0 0 decoded rest' decode

theorem getLengthPrefixedSlice_rest_length_lt {input slice rest : Bytes}
    (read : getLengthPrefixedSlice input = some (slice, rest)) : rest.length < input.length := by
  unfold getLengthPrefixedSlice at read
  split at read
  · cases read
  · rename_i len rest' varint
    have shorter := getVarint32_rest_length_lt varint
    split at read
    · cases read
      simp only [List.length_drop]
      omega
    · cases read

@[simp] theorem encodeFixed32_length (value : UInt32) : (encodeFixed32 value).length = 4 := by
  simp [encodeFixed32]

theorem decodeFixed32_encode (value : UInt32) (rest : Bytes) :
    decodeFixed32 (encodeFixed32 value ++ rest) = value := by
  have low := value.toNat_lt
  apply UInt32.toNat_inj.mp
  simp only [decodeFixed32, encodeFixed32, List.range_succ, List.range_zero, List.nil_append,
    List.map_append, List.map_cons, List.map_nil, List.foldr_append, List.foldr_cons,
    List.foldr_nil]
  simp [UInt32.toNat_ofNat, Nat.mod_eq_of_lt]
  omega

end HLsm.Coding
