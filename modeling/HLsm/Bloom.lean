import HLsm.Coding

/-! # The Bloom filter policy (`util/bloom.cc`, `util/hash.cc`)

`CreateFilter` sizes a bit array from the number of keys, sets `k_` bits per
key at the positions of a double-hashing sequence, and appends the array and
the byte `k_`.  `KeyMayMatch` reads the bit count back from the filter's
length and probes the first `min (k, k_use_)` positions of the same sequence,
where `k` is the byte the filter ends with and `k_use_` comes from
`hlsm::get_bloom_filter_probe_num`.

The writer clamps `k_` to `1 .. 30` and the reader never probes more than the
byte says, so a key that was added is found whatever `bloom_bits_use` and
`bits_per_key` are (`keyMayMatch_createFilter`).

`static_cast<size_t>(x * 0.69)` is a `double` computation, which the model
takes as the parameter `scaleProbes`; the result holds for every such function.
-/

set_option autoImplicit false

namespace HLsm

open HLsm.Coding

/-! ## `Hash` -/

/-- A `char` read as `int` and then added to a `uint32_t`: bytes from 128 on
are negative. -/
def charToUInt32 (b : UInt8) : UInt32 :=
  if b < 128 then b.toUInt32 else b.toUInt32 ||| 0xFFFFFF00

/-- The loop of `Hash` over whole four-byte words, each read by
`DecodeFixed32`; it returns the hash so far and the bytes left. -/
def hashWords (m : UInt32) : UInt32 → Bytes → UInt32 × Bytes
  | h, b0 :: b1 :: b2 :: b3 :: rest =>
      let w := b0.toUInt32 ||| (b1.toUInt32 <<< 8) ||| (b2.toUInt32 <<< 16) ||| (b3.toUInt32 <<< 24)
      let h := (h + w) * m
      hashWords m (h ^^^ (h >>> 16)) rest
  | h, rest => (h, rest)

def hash (data : Bytes) (seed : UInt32) : UInt32 :=
  let m : UInt32 := 0xc6a4a793
  let r : UInt32 := 24
  let (h, rest) := hashWords m (seed ^^^ (UInt32.ofNat data.length * m)) data
  -- the `switch` on the bytes left, falling through from case 3 to case 1
  let finish (h : UInt32) : UInt32 :=
    let h := h * m
    h ^^^ (h >>> r)
  match rest with
  | [b0, b1, b2] => finish (h + (charToUInt32 b2 <<< 16) + (charToUInt32 b1 <<< 8) + charToUInt32 b0)
  | [b0, b1] => finish (h + (charToUInt32 b1 <<< 8) + charToUInt32 b0)
  | [b0] => finish (h + charToUInt32 b0)
  | _ => h

def bloomHash (key : Bytes) : UInt32 :=
  hash key 0xbc9f1d34

/-! ## The bit array -/

/-- `array[bitpos / 8] |= (1 << (bitpos % 8))`. -/
def setBit (array : Bytes) (bitpos : Nat) : Bytes :=
  array.modify (bitpos / 8) (· ||| (1 <<< (bitpos % 8).toUInt8))

/-- `(array[bitpos / 8] & (1 << (bitpos % 8))) != 0`. -/
def testBit (array : Bytes) (bitpos : Nat) : Bool :=
  (array.getD (bitpos / 8) 0 &&& (1 <<< (bitpos % 8).toUInt8)) != 0

/-! ## The policy -/

structure BloomFilterPolicy where
  bitsPerKey : Nat
  k : Nat
  kUse : Nat

def getBloomFilterProbeNum (scaleProbes : Nat → Nat) (bloomBitsUse : Int) (bitsPerKey : Nat) : Nat :=
  let rawProbeNum : Int :=
    if bloomBitsUse < bitsPerKey ∧ bloomBitsUse > 0 then bloomBitsUse else bitsPerKey
  scaleProbes rawProbeNum.toNat

/-- The constructor `BloomFilterPolicy (bits_per_key)`. -/
def BloomFilterPolicy.new (scaleProbes : Nat → Nat) (bloomBitsUse : Int) (bitsPerKey : Nat) :
    BloomFilterPolicy :=
  let k := scaleProbes bitsPerKey
  let k := if k < 1 then 1 else k
  let k := if k > 30 then 30 else k
  ⟨bitsPerKey, k, getBloomFilterProbeNum scaleProbes bloomBitsUse bitsPerKey⟩

/-- `delta = (h >> 17) | (h << 15)`: `h` rotated right by 17 bits. -/
def probeDelta (h : UInt32) : UInt32 :=
  (h >>> 17) ||| (h <<< 15)

/-- The probe loop of `CreateFilter` for one key. -/
def addKeyLoop (bits : Nat) : Nat → UInt32 → UInt32 → Bytes → Bytes
  | 0, _, _, array => array
  | j + 1, h, delta, array => addKeyLoop bits j (h + delta) delta (setBit array (h.toNat % bits))

def addKey (k bits : Nat) (array : Bytes) (key : Bytes) : Bytes :=
  let h := bloomHash key
  addKeyLoop bits k h (probeDelta h) array

/-- `CreateFilter (keys, n, dst)`: `dst` with the filter appended.  The
product `n * bits_per_key_` of two `int`s does not wrap in `size_t`. -/
def BloomFilterPolicy.createFilter (policy : BloomFilterPolicy) (keys : List Bytes) (dst : Bytes) :
    Bytes :=
  let bits := keys.length * policy.bitsPerKey
  let bits := if bits < 64 then 64 else bits
  let bytes := (bits + 7) / 8
  let bits := bytes * 8
  let array := keys.foldl (addKey policy.k bits) (List.replicate bytes 0)
  dst ++ array ++ [UInt8.ofNat policy.k]

/-- The probe loop of `KeyMayMatch`. -/
def keyMayMatchLoop (array : Bytes) (bits : Nat) : Nat → UInt32 → UInt32 → Bool
  | 0, _, _ => true
  | j + 1, h, delta => testBit array (h.toNat % bits) && keyMayMatchLoop array bits j (h + delta) delta

/-- A `char` compared with and assigned to a `size_t`. -/
def charToSizeT (b : UInt8) : Nat :=
  if b < 128 then b.toNat else 2 ^ 64 - 256 + b.toNat

def BloomFilterPolicy.keyMayMatch (policy : BloomFilterPolicy) (key : Bytes) (bloomFilter : Bytes) :
    Bool :=
  let len := bloomFilter.length
  if len < 2 then false
  else
    let bits := (len - 1) * 8
    let encoded := charToSizeT (bloomFilter.getD (len - 1) 0)
    let k := if encoded > policy.kUse then policy.kUse else encoded
    -- reserved for new encodings of short filters
    if k > 30 then true
    else
      let h := bloomHash key
      keyMayMatchLoop bloomFilter bits k h (probeDelta h)

/-! ## Set bits stay set -/

section Bits

theorem or_mask_and_mask (x m : UInt8) : (x ||| m) &&& m = m := by
  rw [← UInt8.toBitVec_inj]
  simp only [UInt8.toBitVec_and, UInt8.toBitVec_or]
  ext i hi
  simp only [BitVec.getElem_and, BitVec.getElem_or]
  cases x.toBitVec[i] <;> cases m.toBitVec[i] <;> rfl

theorem or_and_ne_zero {x b : UInt8} (m : UInt8) (set : x &&& b ≠ 0) : (x ||| m) &&& b ≠ 0 := by
  intro cleared
  apply set
  rw [← UInt8.toBitVec_inj] at cleared ⊢
  simp only [UInt8.toBitVec_and, UInt8.toBitVec_or, UInt8.toBitVec_zero] at cleared ⊢
  ext i hi
  have bit := congrArg (fun v => v.getLsbD i) cleared
  simp at bit ⊢
  tauto

theorem mask_ne_zero {i : Nat} (small : i < 8) : (1 : UInt8) <<< UInt8.ofNat i ≠ 0 := by
  have each : ∀ j : Fin 8, (1 : UInt8) <<< UInt8.ofNat j.val ≠ 0 := by decide
  exact each ⟨i, small⟩

@[simp] theorem length_setBit (array : Bytes) (bitpos : Nat) : (setBit array bitpos).length = array.length := by
  simp [setBit]

theorem testBit_setBit_self {array : Bytes} {bitpos : Nat} (inRange : bitpos / 8 < array.length) :
    testBit (setBit array bitpos) bitpos = true := by
  simp [testBit, setBit, List.getD_eq_getElem?_getD, inRange, or_mask_and_mask,
    mask_ne_zero (Nat.mod_lt bitpos (by decide : 8 > 0))]

theorem testBit_setBit_of_testBit {array : Bytes} (bitpos : Nat) {q : Nat} (set : testBit array q = true) :
    testBit (setBit array bitpos) q = true := by
  simp only [testBit, setBit, List.getD_eq_getElem?_getD, List.getElem?_modify, bne_iff_ne, ne_eq] at set ⊢
  cases lookup : array[q / 8]? with
  | none => simp [lookup] at set
  | some x =>
      simp only [lookup, Option.getD_some] at set
      simp only [Option.map_eq_map, Option.map_some, Option.getD_some]
      split
      · exact or_and_ne_zero _ set
      · exact set

@[simp] theorem length_foldl_setBit (ps : List Nat) (array : Bytes) :
    (ps.foldl setBit array).length = array.length := by
  induction ps generalizing array with
  | nil => rfl
  | cons p ps ih => simp [ih]

theorem testBit_foldl_setBit_of_testBit (ps : List Nat) {array : Bytes} {q : Nat}
    (set : testBit array q = true) : testBit (ps.foldl setBit array) q = true := by
  induction ps generalizing array with
  | nil => exact set
  | cons p ps ih => exact ih (testBit_setBit_of_testBit p set)

theorem testBit_foldl_setBit (ps : List Nat) {array : Bytes} {q : Nat} (mem : q ∈ ps)
    (inRange : ∀ p ∈ ps, p / 8 < array.length) : testBit (ps.foldl setBit array) q = true := by
  induction ps generalizing array with
  | nil => simp at mem
  | cons p ps ih =>
      simp only [List.foldl_cons]
      rcases List.mem_cons.mp mem with rfl | later
      · exact testBit_foldl_setBit_of_testBit ps (testBit_setBit_self (inRange q List.mem_cons_self))
      · exact ih later fun r rMem => by
          simpa using inRange r (List.mem_cons_of_mem p rMem)

theorem testBit_append_of_lt {array : Bytes} (tail : Bytes) {q : Nat} (inRange : q / 8 < array.length) :
    testBit (array ++ tail) q = testBit array q := by
  simp [testBit, List.getD_eq_getElem?_getD, List.getElem?_append_left inRange]

end Bits

/-! ## The probe sequence -/

/-- The positions `h, h + delta, h + 2 * delta, ...` of `k` probes, modulo
`bits`. -/
def probes (bits : Nat) : Nat → UInt32 → UInt32 → List Nat
  | 0, _, _ => []
  | j + 1, h, delta => h.toNat % bits :: probes bits j (h + delta) delta

theorem addKeyLoop_eq (bits : Nat) :
    ∀ (k : Nat) (h delta : UInt32) (array : Bytes),
      addKeyLoop bits k h delta array = (probes bits k h delta).foldl setBit array := by
  intro k
  induction k with
  | zero => intro h delta array; rfl
  | succ k ih => intro h delta array; simp [addKeyLoop, probes, ih]

theorem keyMayMatchLoop_eq (array : Bytes) (bits : Nat) :
    ∀ (k : Nat) (h delta : UInt32),
      keyMayMatchLoop array bits k h delta = (probes bits k h delta).all (testBit array) := by
  intro k
  induction k with
  | zero => intro h delta; rfl
  | succ k ih => intro h delta; simp [keyMayMatchLoop, probes, ih]

theorem probes_sublist (bits : Nat) :
    ∀ {j k : Nat} (h delta : UInt32), j ≤ k → (probes bits j h delta).Sublist (probes bits k h delta) := by
  intro j k
  induction k generalizing j with
  | zero => intro h delta le; simp [Nat.le_zero.mp le, probes]
  | succ k ih =>
      intro h delta le
      cases j with
      | zero => simp [probes]
      | succ j => exact (ih (h + delta) delta (by omega)).cons_cons _

theorem probes_lt {bits : Nat} (pos : 0 < bits) :
    ∀ (k : Nat) (h delta : UInt32), ∀ p ∈ probes bits k h delta, p < bits := by
  intro k
  induction k with
  | zero => intro h delta p mem; simp [probes] at mem
  | succ k ih =>
      intro h delta p mem
      rcases List.mem_cons.mp mem with rfl | later
      · exact Nat.mod_lt _ pos
      · exact ih _ _ p later

def keyProbes (k bits : Nat) (key : Bytes) : List Nat :=
  probes bits k (bloomHash key) (probeDelta (bloomHash key))

@[simp] theorem length_foldl_addKey (k bits : Nat) (keys : List Bytes) (array : Bytes) :
    (keys.foldl (addKey k bits) array).length = array.length := by
  induction keys generalizing array with
  | nil => rfl
  | cons key keys ih => simp [ih, addKey, addKeyLoop_eq]

theorem testBit_foldl_addKey_of_testBit (k bits : Nat) (keys : List Bytes) {array : Bytes} {q : Nat}
    (set : testBit array q = true) : testBit (keys.foldl (addKey k bits) array) q = true := by
  induction keys generalizing array with
  | nil => exact set
  | cons key keys ih =>
      apply ih
      rw [addKey, addKeyLoop_eq]
      exact testBit_foldl_setBit_of_testBit _ set

theorem testBit_foldl_addKey (k bits : Nat) (pos : 0 < bits) (keys : List Bytes) {array : Bytes}
    (size : bits ≤ array.length * 8) {key : Bytes} (mem : key ∈ keys) {q : Nat}
    (probed : q ∈ keyProbes k bits key) : testBit (keys.foldl (addKey k bits) array) q = true := by
  have inRange : ∀ (array : Bytes), bits ≤ array.length * 8 → ∀ p ∈ keyProbes k bits key,
      p / 8 < array.length := fun array size p mem => by
    have := probes_lt pos _ _ _ p mem
    omega
  induction keys generalizing array with
  | nil => simp at mem
  | cons first keys ih =>
      simp only [List.foldl_cons]
      have sizeAfter : bits ≤ (addKey k bits array first).length * 8 := by
        simpa [addKey, addKeyLoop_eq] using size
      rcases List.mem_cons.mp mem with rfl | later
      · apply testBit_foldl_addKey_of_testBit
        rw [addKey, addKeyLoop_eq]
        exact testBit_foldl_setBit _ probed (inRange array size)
      · exact ih sizeAfter later

/-! ## No false negatives -/

theorem new_k_bounds (scaleProbes : Nat → Nat) (bloomBitsUse : Int) (bitsPerKey : Nat) :
    1 ≤ (BloomFilterPolicy.new scaleProbes bloomBitsUse bitsPerKey).k ∧
      (BloomFilterPolicy.new scaleProbes bloomBitsUse bitsPerKey).k ≤ 30 := by
  simp only [BloomFilterPolicy.new]
  split_ifs <;> omega

theorem drop_createFilter (policy : BloomFilterPolicy) (keys : List Bytes) (dst : Bytes) :
    ∃ bytes, 8 ≤ bytes ∧ (policy.createFilter keys dst).drop dst.length =
      keys.foldl (addKey policy.k (bytes * 8)) (List.replicate bytes 0) ++ [UInt8.ofNat policy.k] := by
  refine ⟨((if keys.length * policy.bitsPerKey < 64 then 64 else keys.length * policy.bitsPerKey) + 7) / 8,
    ?_, by simp [BloomFilterPolicy.createFilter]⟩
  split_ifs <;> omega

theorem keyMayMatch_append (policy : BloomFilterPolicy) (key : Bytes) {array : Bytes} (b : UInt8)
    (nonempty : 1 ≤ array.length) (small : b.toNat ≤ 30) :
    policy.keyMayMatch key (array ++ [b]) =
      (keyProbes (min b.toNat policy.kUse) (array.length * 8) key).all (testBit array) := by
  have encoded : charToSizeT b = b.toNat := by
    have : b < 128 := UInt8.lt_iff_toNat_lt.mpr (by simp; omega)
    simp [charToSizeT, this]
  have count : (if b.toNat > policy.kUse then policy.kUse else b.toNat) = min b.toNat policy.kUse := by
    split <;> omega
  have last : (array ++ [b]).getD (array.length + 1 - 1) 0 = b := by simp
  have pos : 0 < array.length * 8 := by omega
  simp only [BloomFilterPolicy.keyMayMatch, List.length_append, List.length_singleton, last, encoded, count]
  rw [if_neg (by omega), if_neg (by omega), Nat.add_sub_cancel, keyMayMatchLoop_eq]
  -- the probes stay inside the bit array, before the count byte
  have inside : ∀ q ∈ keyProbes (min b.toNat policy.kUse) (array.length * 8) key,
      testBit (array ++ [b]) q = testBit array q := fun q mem =>
    testBit_append_of_lt [b] (by have := probes_lt pos _ _ _ q mem; omega)
  rw [Bool.eq_iff_iff, List.all_eq_true, List.all_eq_true]
  exact forall₂_congr fun q mem => by rw [inside q mem]

/-- A key that `CreateFilter` added is found by `KeyMayMatch` in the filter it
appended, for every `bits_per_key`, every `bloom_bits_use` and every scaling of
the probe count. -/
theorem keyMayMatch_createFilter (scaleProbes : Nat → Nat) (bloomBitsUse : Int) (bitsPerKey : Nat)
    (keys : List Bytes) (dst : Bytes) {key : Bytes} (mem : key ∈ keys) :
    (BloomFilterPolicy.new scaleProbes bloomBitsUse bitsPerKey).keyMayMatch key
      (((BloomFilterPolicy.new scaleProbes bloomBitsUse bitsPerKey).createFilter keys dst).drop dst.length) =
      true := by
  obtain ⟨kLo, kHi⟩ := new_k_bounds scaleProbes bloomBitsUse bitsPerKey
  generalize BloomFilterPolicy.new scaleProbes bloomBitsUse bitsPerKey = policy at kLo kHi ⊢
  obtain ⟨bytes, enough, filter⟩ := drop_createFilter policy keys dst
  have countByte : (UInt8.ofNat policy.k).toNat = policy.k := by
    rw [UInt8.toNat_ofNat']
    omega
  have size : (keys.foldl (addKey policy.k (bytes * 8)) (List.replicate bytes 0)).length = bytes := by
    rw [length_foldl_addKey, List.length_replicate]
  rw [filter, keyMayMatch_append _ _ _ (by omega) (by omega), countByte, size, List.all_eq_true]
  -- the reader's probes are the first of the writer's, all of which are set
  intro q probed
  have written : q ∈ keyProbes policy.k (bytes * 8) key :=
    (probes_sublist _ _ _ (Nat.min_le_left _ _)).subset probed
  exact testBit_foldl_addKey _ _ (by omega) keys (by simp) mem written

/-- Ten bits per key with `bloom_bits_use = 4`, so that the reader probes
fewer bits than the writer sets, and a filter appended after a byte: the
second of two keys is found. -/
theorem keyMayMatch_createFilter_fewerProbes :
    ([4, 5] : Bytes) ∈ ([[1, 2, 3], [4, 5]] : List Bytes) ∧
      (BloomFilterPolicy.new (fun x => x * 69 / 100) 4 10).keyMayMatch [4, 5]
        (((BloomFilterPolicy.new (fun x => x * 69 / 100) 4 10).createFilter [[1, 2, 3], [4, 5]] [9]).drop
          ([9] : Bytes).length) = true :=
  ⟨by decide, keyMayMatch_createFilter (fun x => x * 69 / 100) 4 10 [[1, 2, 3], [4, 5]] [9] (by decide)⟩

end HLsm
