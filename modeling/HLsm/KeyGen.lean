import Mathlib

/-! # `YCSBKeyGenerator`: the key pool of `db_gen`

The constructor fills `keypool[0 .. n)`, `n = keysize * filenum`, with
`YCSBKey_hash (startnum + i)` and sorts it by `sort (keypool, 0, n)`, a
quicksort whose `partition` is Hoare's scheme with the pivot at `top`: `j`
runs down from `bottom + 1` while the pivot is above `array[j]`, `i` runs up
from `top - 1` while the pivot is below `array[i]`.  Array accesses are
checked here: the first index out of range ends the run with `Fault.read`.

`sort_keyPool_reads_past_end`: the constructor passes `n` as `bottom`, so the
first scan of the first partition reads `keypool[n]`, one past the pool, for
every pool that is not empty.
-/

set_option autoImplicit false

namespace HLsm.KeyGen

/-- `YCSBKey_hash`: FNV over the eight low bytes of `val`, in wrapping
`long long` arithmetic, then `llabs`. -/
def ycsbKeyHash (val : Int64) : Int64 :=
  let fnvOffsetBasis : Int64 := 0xCBF29CE484222325
  let fnvPrime : Int64 := 1099511628211
  let (hashval, _) := (List.range 8).foldl
    (fun (acc : Int64 × Int64) _ =>
      let (hashval, val) := acc
      let octet := val &&& 0xff
      ((hashval ^^^ octet) * fnvPrime, val >>> 8))
    (fnvOffsetBasis, val)
  hashval.abs

/-- How a run of the sort ends early: an access out of the array, or a loop
that did not stop within its budget. -/
inductive Fault where
  | read (index : Int)
  | fuel
  deriving DecidableEq, Repr

/-- `array[index]`, checked. -/
def readAt (a : Array Int64) (index : Int) : Except Fault Int64 :=
  if 0 ≤ index then
    match a[index.toNat]? with
    | some v => .ok v
    | none => .error (.read index)
  else .error (.read index)

/-- Exchange `array[i]` and `array[j]`, both read before. -/
def swapAt (a : Array Int64) (i j : Int) : Except Fault (Array Int64) := do
  let vi ← readAt a i
  let vj ← readAt a j
  pure ((a.set! i.toNat vj).set! j.toNat vi)

/-- `do j--; while (x > array[j]);`: the index it stops at. -/
def scanDown (a : Array Int64) (x : Int64) : Nat → Int → Except Fault Int
  | 0, _ => .error .fuel
  | fuel + 1, j => do
      let v ← readAt a (j - 1)
      if x > v then scanDown a x fuel (j - 1) else pure (j - 1)

/-- `do i++; while (x < array[i]);`: the index it stops at. -/
def scanUp (a : Array Int64) (x : Int64) : Nat → Int → Except Fault Int
  | 0, _ => .error .fuel
  | fuel + 1, i => do
      let v ← readAt a (i + 1)
      if x < v then scanUp a x fuel (i + 1) else pure (i + 1)

/-- The outer `do ... while (i < j)` of `partition`. -/
def partitionLoop (x : Int64) : Nat → Array Int64 → Int → Int → Except Fault (Array Int64 × Int)
  | 0, _, _, _ => .error .fuel
  | fuel + 1, a, i, j => do
      let j ← scanDown a x (a.size + 2) j
      let i ← scanUp a x (a.size + 2) i
      if i < j then
        let a ← swapAt a i j
        partitionLoop x fuel a i j
      else pure (a, j)

/-- `partition (array, top, bottom)`: the array and the middle subscript. -/
def partition (a : Array Int64) (top bottom : Int) : Except Fault (Array Int64 × Int) := do
  let x ← readAt a top
  partitionLoop x (a.size + 2) a (top - 1) (bottom + 1)

/-- `sort (num, top, bottom)`, recursing at most `fuel` deep. -/
def sort : Nat → Array Int64 → Int → Int → Except Fault (Array Int64)
  | 0, _, _, _ => .error .fuel
  | fuel + 1, a, top, bottom =>
      if top < bottom then do
        let (a, middle) ← partition a top bottom
        let a ← sort fuel a top middle
        sort fuel a (middle + 1) bottom
      else pure a

/-- The pool before sorting: `keypool[i] = YCSBKey_hash (i + startnum)`.
`keysize * filenum` is an `int` product in the source, taken exact here. -/
def keyPool (startnum : Int) (filenum keysize : Nat) : Array Int64 :=
  ((List.range (keysize * filenum)).map fun i => ycsbKeyHash (Int64.ofInt (i + startnum))).toArray

/-- The constructor's `sort (keypool, 0, keysize * filenum)`. -/
def ycsbKeyGenerator (startnum : Int) (filenum keysize : Nat) : Except Fault (Array Int64) :=
  let pool := keyPool startnum filenum keysize
  sort (pool.size + 1) pool 0 (keysize * filenum)

theorem size_keyPool (startnum : Int) (filenum keysize : Nat) :
    (keyPool startnum filenum keysize).size = keysize * filenum := by
  simp [keyPool]

theorem readAt_size (a : Array Int64) : readAt a a.size = .error (.read a.size) := by
  simp [readAt]

theorem readAt_of_lt (a : Array Int64) {index : Nat} (inRange : index < a.size) :
    readAt a index = .ok a[index] := by
  unfold readAt
  simp [Array.getElem?_eq_getElem inRange]

theorem partition_bottom_size (a : Array Int64) {top : Nat} (inRange : top < a.size) :
    partition a top a.size = .error (.read a.size) := by
  have firstScan : scanDown a a[top] (a.size + 2) ((a.size : Int) + 1) = .error (.read a.size) := by
    simp only [scanDown, Int.add_sub_cancel, readAt_size]
    rfl
  rw [partition, readAt_of_lt a inRange]
  -- one turn of the outer loop: its first scan already faults
  show partitionLoop a[top] (a.size + 1 + 1) a (top - 1) (a.size + 1) = _
  rw [partitionLoop, firstScan]
  rfl

/-- For every non-empty pool the constructor's sort reads `keypool[n]`,
`n = keysize * filenum`, one past the pool, before anything else goes out of
range. -/
theorem sort_keyPool_reads_past_end (startnum : Int) {filenum keysize : Nat}
    (files : 1 ≤ filenum) (keys : 1 ≤ keysize) :
    ycsbKeyGenerator startnum filenum keysize = .error (.read (keysize * filenum : Nat)) := by
  have size := size_keyPool startnum filenum keysize
  have nonempty : 0 < keysize * filenum := Nat.mul_pos keys files
  have pivot : (0 : Nat) < (keyPool startnum filenum keysize).size := by omega
  have firstPartition := partition_bottom_size (keyPool startnum filenum keysize) pivot
  simp only [size, Int.natCast_zero, Int.natCast_mul] at firstPartition
  -- the source's bound is the `int` product, which the model casts factor by factor
  have below : (0 : Int) < keysize * filenum := by exact_mod_cast nonempty
  simp only [ycsbKeyGenerator, size, sort, below, if_true, Int.natCast_mul, firstPartition]
  rfl

/-- One key, one file: the pool has one key, and sorting it reads index `1`. -/
theorem ycsbKeyGenerator_oneKey :
    1 ≤ 1 ∧ 1 ≤ 1 ∧ ycsbKeyGenerator 0 1 1 = .error (.read ((1 * 1 : Nat) : Int)) :=
  ⟨Nat.le_refl 1, Nat.le_refl 1, sort_keyPool_reads_past_end 0 (Nat.le_refl 1) (Nat.le_refl 1)⟩

end HLsm.KeyGen
