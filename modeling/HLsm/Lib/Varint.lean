import Mathlib

/-!
# Base-128 varints over byte lists

A little-endian base-128 codec: every byte carries seven payload bits, and the
high bit marks that another byte follows.  The writer and the reader both take
an explicit byte budget (`fuel`), so both are structural and evaluate by
`decide`; the reader also takes the width of the machine word it accumulates
into, since a reader that ORs a shifted payload into a `w`-bit word drops the
bits above `w`.

Results:
* `decode_encode`: reading back what the writer emitted, followed by any
  trailing bytes, returns the value and exactly the trailing bytes.
* `encode_ne_nil`: the writer emits at least one byte.
* `decode_rest_length_lt`: the reader consumes at least one byte.
-/

set_option autoImplicit false

namespace Varint

/-- The writer: low seven bits first, the high bit set on every byte but the
last.  A budget of `n` bytes is exact for every value below `2 ^ (7 * n)`. -/
def encode : Nat → Nat → List UInt8
  | 0, _ => []
  | fuel + 1, value =>
      if value < 128 then [UInt8.ofNat value]
      else UInt8.ofNat (value % 128 + 128) :: encode fuel (value / 128)

/-- The reader: at most `fuel` bytes, the payload of the byte read at `shift`
added at bit `shift` of a `width`-bit accumulator.  The payload bits of
different bytes never overlap, so adding them is the same as OR-ing them. -/
def decode (width : Nat) : Nat → Nat → Nat → List UInt8 → Option (Nat × List UInt8)
  | 0, _, _, _ => none
  | _ + 1, _, _, [] => none
  | fuel + 1, shift, acc, byte :: rest =>
      if 128 ≤ byte.toNat then
        decode width fuel (shift + 7) (acc + byte.toNat % 128 * 2 ^ shift % 2 ^ width) rest
      else
        some (acc + byte.toNat * 2 ^ shift % 2 ^ width, rest)

theorem toNat_ofNat_small (value : Nat) (small : value < 256) :
    (UInt8.ofNat value).toNat = value := by
  simp [Nat.mod_eq_of_lt small]

theorem encode_ne_nil (fuel value : Nat) (positive : 0 < fuel) :
    encode fuel value ≠ [] := by
  cases fuel with
  | zero => omega
  | succ fuel =>
      simp only [encode]
      split <;> simp

theorem decode_encode_from (width : Nat) (rest : List UInt8) :
    ∀ (fuel value shift acc : Nat), 0 < fuel → value < 2 ^ (7 * fuel) → acc < 2 ^ shift →
      acc + value * 2 ^ shift < 2 ^ width →
      decode width fuel shift acc (encode fuel value ++ rest) =
        some (acc + value * 2 ^ shift, rest) := by
  intro fuel
  induction fuel with
  | zero => intro value shift acc positive; omega
  | succ fuel ih =>
      intro value shift acc _ fits accFits total
      have shiftPos : 0 < 2 ^ shift := Nat.two_pow_pos shift
      by_cases small : value < 128
      · have byteNat : (UInt8.ofNat value).toNat = value := toNat_ofNat_small value (by omega)
        have noWrap : value * 2 ^ shift % 2 ^ width = value * 2 ^ shift :=
          Nat.mod_eq_of_lt (by omega)
        simp only [encode, if_pos small, List.cons_append, List.nil_append, decode, byteNat,
          noWrap]
        rw [if_neg (by omega)]
      · have byteNat : (UInt8.ofNat (value % 128 + 128)).toNat = value % 128 + 128 :=
          toNat_ofNat_small _ (by omega)
        have split := Nat.div_add_mod value 128
        have lowPart : value % 128 * 2 ^ shift ≤ value * 2 ^ shift :=
          Nat.mul_le_mul_right _ (Nat.mod_le value 128)
        have noWrap : value % 128 * 2 ^ shift % 2 ^ width = value % 128 * 2 ^ shift :=
          Nat.mod_eq_of_lt (by omega)
        have payload : (value % 128 + 128) % 128 = value % 128 := by omega
        have quotientFits : value / 128 < 2 ^ (7 * fuel) := by
          rw [Nat.div_lt_iff_lt_mul (by norm_num)]
          calc value < 2 ^ (7 * (fuel + 1)) := fits
            _ = 2 ^ (7 * fuel) * 128 := by rw [Nat.mul_succ, Nat.pow_add]
        have morePositive : 0 < fuel := by
          rcases Nat.eq_zero_or_pos fuel with zero | positive
          · subst zero
            simp at fits
            omega
          · exact positive
        have nextAcc : acc + value % 128 * 2 ^ shift < 2 ^ (shift + 7) := by
          have : value % 128 * 2 ^ shift ≤ 127 * 2 ^ shift :=
            Nat.mul_le_mul_right _ (by omega)
          rw [Nat.pow_add]
          omega
        have reassemble : acc + value % 128 * 2 ^ shift + value / 128 * 2 ^ (shift + 7) =
            acc + value * 2 ^ shift := by
          rw [Nat.pow_add]
          have : value * 2 ^ shift = (value % 128 + 128 * (value / 128)) * 2 ^ shift := by
            rw [Nat.mod_add_div]
          rw [this]
          ring
        simp only [encode, if_neg small, List.cons_append, decode, byteNat, payload, noWrap]
        rw [if_pos (by omega), ih (value / 128) (shift + 7) _ morePositive quotientFits nextAcc
          (by rw [reassemble]; exact total), reassemble]

theorem decode_encode (width fuel value : Nat) (rest : List UInt8) (positive : 0 < fuel)
    (fits : value < 2 ^ (7 * fuel)) (inWord : value < 2 ^ width) :
    decode width fuel 0 0 (encode fuel value ++ rest) = some (value, rest) := by
  have := decode_encode_from width rest fuel value 0 0 positive fits (by simp)
    (by simpa using inWord)
  simpa using this

/-- What the reader leaves is a strictly shorter suffix of its input. -/
theorem decode_rest_length_lt (width : Nat) :
    ∀ (input : List UInt8) (fuel shift acc value : Nat) (rest : List UInt8),
      decode width fuel shift acc input = some (value, rest) → rest.length < input.length := by
  intro input
  induction input with
  | nil => intro fuel shift acc value rest read; cases fuel <;> simp [decode] at read
  | cons byte bytes ih =>
    intro fuel shift acc value rest read
    cases fuel with
    | zero => simp [decode] at read
    | succ fuel =>
      simp only [decode] at read
      split at read
      · have := ih _ _ _ _ _ read
        simp only [List.length_cons]
        omega
      · cases read
        simp

end Varint
