import Mathlib

/-! # `std::string` searches and C number parsing on lists

A `std::string` is its list of characters; positions are list indices.

* `find s pat` is `s.find (pat)` and `findLastOf s c` is `s.find_last_of (c)`
  for a one-character set, with `none` for `npos`.  `nextPos` and `prevPos`
  are `pos + 1` and `pos - 1` in `size_t`, where `npos + 1` is `0` and `0 - 1`
  is `npos`.
* `substr s pos len` is `s.substr (pos, len)`, `none` where it throws
  `out_of_range`.
* `atoi` is glibc's `(int) strtol (s, NULL, 10)`: white space, a sign and
  decimal digits, saturated to `long`, then wrapped to `int`.
* `padDecimal w n` is what `snprintf` prints for `%0*llu` at width `w`.

Results: where a search lands in a concatenation (`find_append_left`,
`find_append_sep`, `find_append_of_head_not_mem`, `findLastOf_append_cons`),
and that `strtol` reads back what `padDecimal` printed
(`strtol_padDecimal_append`).
-/

set_option autoImplicit false

namespace CString

section Search

variable {α : Type} [DecidableEq α]

/-- `s.find (pat)`: the first position at which `pat` starts. -/
def find : List α → List α → Option Nat
  | [], pat => if pat.isPrefixOf [] then some 0 else none
  | c :: rest, pat => if pat.isPrefixOf (c :: rest) then some 0 else (find rest pat).map (· + 1)

/-- `s.find_last_of (c)`: the last position of `c`. -/
def findLastOf : List α → α → Option Nat
  | [], _ => none
  | x :: rest, c =>
      match findLastOf rest c with
      | some i => some (i + 1)
      | none => if x = c then some 0 else none

/-- `s.substr (pos, len)`; `none` where `pos` is past the end. -/
def substr (s : List α) (pos len : Nat) : Option (List α) :=
  if pos ≤ s.length then some ((s.drop pos).take len) else none

/-- `std::string::npos`, the largest `size_t`. -/
def npos : Nat := 2 ^ 64 - 1

/-- `pos + 1` in `size_t` for a position a search returned. -/
def nextPos : Option Nat → Nat
  | some i => i + 1
  | none => 0

/-- `pos - 1` in `size_t` for a position a search returned. -/
def prevPos : Option Nat → Nat
  | some 0 => npos
  | some (i + 1) => i
  | none => npos - 1

theorem find_at_start {s pat : List α} (pre : pat <+: s) : find s pat = some 0 := by
  cases s <;> simp [find, List.isPrefixOf_iff_prefix.mpr pre]

theorem find_cons_of_no_start {c : α} {rest pat : List α} (notPre : ¬ pat <+: c :: rest) :
    find (c :: rest) pat = (find rest pat).map (· + 1) := by
  have : pat.isPrefixOf (c :: rest) = false :=
    Bool.eq_false_iff.mpr fun pre => notPre (List.isPrefixOf_iff_prefix.mp pre)
  simp [find, this]

theorem find_some_le {s pat : List α} {i : Nat} (found : find s pat = some i) :
    i + pat.length ≤ s.length := by
  induction s generalizing i with
  | nil =>
      have empty : pat = [] := by
        by_contra nonempty
        cases pat with
        | nil => exact nonempty rfl
        | cons p ps => simp [find] at found
      subst empty
      simp [find] at found
      subst found
      simp
  | cons c rest ih =>
      by_cases pre : pat <+: c :: rest
      · rw [find_at_start pre] at found
        cases found
        simpa using pre.length_le
      · rw [find_cons_of_no_start pre] at found
        obtain ⟨j, inRest, rfl⟩ := Option.map_eq_some_iff.mp found
        have := ih inRest
        simp only [List.length_cons]
        omega

/-- What is already found in `xs` is found at the same place in `xs ++ ys`. -/
theorem find_append_left {xs ys pat : List α} {i : Nat} (found : find xs pat = some i) :
    find (xs ++ ys) pat = some i := by
  induction xs generalizing i with
  | nil =>
      have empty : pat = [] := by
        have := find_some_le found
        simp only [List.length_nil] at this
        exact List.eq_nil_of_length_eq_zero (by omega)
      subst empty
      simp [find] at found
      rw [← found, find_at_start List.nil_prefix]
  | cons x xs ih =>
      by_cases pre : pat <+: x :: xs
      · rw [find_at_start pre] at found
        rw [← found, find_at_start (pre.trans (List.prefix_append _ ys))]
      · rw [find_cons_of_no_start pre] at found
        obtain ⟨j, inXs, rfl⟩ := Option.map_eq_some_iff.mp found
        -- a match in `xs` is short enough that `ys` cannot complete one at the head
        have notLonger : ¬ pat <+: x :: (xs ++ ys) := by
          intro longer
          have short := find_some_le inXs
          exact pre (List.prefix_of_prefix_length_le longer (List.prefix_append (x :: xs) ys)
            (by simp; omega))
        rw [List.cons_append, find_cons_of_no_start notLonger, ih inXs]
        rfl

theorem find_append_of_no_match {xs ys pat : List α}
    (noMatch : ∀ i < xs.length, ¬ pat <+: (xs ++ ys).drop i) :
    find (xs ++ ys) pat = (find ys pat).map (· + xs.length) := by
  induction xs with
  | nil => simp
  | cons x xs ih =>
      have here : ¬ pat <+: x :: (xs ++ ys) := noMatch 0 (by simp)
      have later : ∀ i < xs.length, ¬ pat <+: (xs ++ ys).drop i := fun i below =>
        noMatch (i + 1) (by simp; omega)
      rw [List.cons_append, find_cons_of_no_start here, ih later, Option.map_map]
      rfl

omit [DecidableEq α] in
theorem prefix_of_prefix_append_cons {pat a b : List α} {c : α} (notMem : c ∉ pat)
    (pre : pat <+: a ++ c :: b) : pat <+: a := by
  induction a generalizing pat with
  | nil =>
      cases pat with
      | nil => exact List.nil_prefix
      | cons p ps =>
          have : p = c := (List.cons_prefix_cons.mp pre).1
          simp [this] at notMem
  | cons x a ih =>
      cases pat with
      | nil => exact List.nil_prefix
      | cons p ps =>
          obtain ⟨same, rest⟩ := List.cons_prefix_cons.mp pre
          have inner := ih (fun mem => notMem (List.mem_cons_of_mem p mem)) rest
          exact List.cons_prefix_cons.mpr ⟨same, inner⟩

/-- Past a separator that `pat` does not contain, in front of which `pat`
does not occur, the search goes on after the separator. -/
theorem find_append_sep {a b pat : List α} {c : α} (notMem : c ∉ pat) (absent : ¬ pat <:+: a) :
    find (a ++ c :: b) pat = (find b pat).map (· + (a.length + 1)) := by
  have split : a ++ c :: b = (a ++ [c]) ++ b := by simp
  rw [split, find_append_of_no_match]
  · simp
  intro i below found
  have inA : i ≤ a.length := by simp at below; omega
  rw [← split, List.drop_append_of_le_length inA] at found
  have pre := prefix_of_prefix_append_cons notMem found
  exact absent (pre.isInfix.trans (List.drop_suffix i a).isInfix)

/-- A stretch without the first element of `pat` is skipped whole. -/
theorem find_append_of_head_not_mem {xs ys : List α} {p : α} {ps : List α} (notMem : p ∉ xs) :
    find (xs ++ ys) (p :: ps) = (find ys (p :: ps)).map (· + xs.length) := by
  apply find_append_of_no_match
  intro i below found
  rw [List.drop_append_of_le_length (by omega), List.drop_eq_getElem_cons below,
    List.cons_append] at found
  have : p = xs[i] := (List.cons_prefix_cons.mp found).1
  exact notMem (this ▸ List.getElem_mem below)

theorem findLastOf_eq_none {s : List α} {c : α} (notMem : c ∉ s) : findLastOf s c = none := by
  induction s with
  | nil => rfl
  | cons x rest ih =>
      have differ : x ≠ c := fun same => notMem (same ▸ List.mem_cons_self)
      simp [findLastOf, ih (fun mem => notMem (List.mem_cons_of_mem x mem)), differ]

/-- The last `c` of `a ++ c :: b` is the one after `a` when `b` has none. -/
theorem findLastOf_append_cons {a b : List α} {c : α} (notMem : c ∉ b) :
    findLastOf (a ++ c :: b) c = some a.length := by
  induction a with
  | nil => simp [findLastOf, findLastOf_eq_none notMem]
  | cons x a ih => simp [findLastOf, ih]

theorem find_isSome_of_occurs {s pat : List α} (occurs : pat <:+: s) : (find s pat).isSome := by
  induction s with
  | nil =>
      rw [List.infix_nil.mp occurs, find_at_start List.nil_prefix]
      rfl
  | cons c rest ih =>
      by_cases pre : pat <+: c :: rest
      · rw [find_at_start pre]
        rfl
      · have later : pat <:+: rest := (List.infix_cons_iff.mp occurs).resolve_left pre
        rw [find_cons_of_no_start pre]
        simpa using ih later

omit [DecidableEq α] in
theorem substr_of_le {s : List α} {pos : Nat} (len : Nat) (inRange : pos ≤ s.length) :
    substr s pos len = some ((s.drop pos).take len) := by
  simp [substr, inRange]

end Search

/-! ## Decimal numbers -/

/-- `isspace` in the C locale. -/
def isSpace (c : Char) : Bool :=
  c = ' ' || c = '\t' || c = '\n' || c = '\r' || c.toNat = 11 || c.toNat = 12

/-- The value of the decimal digits `ds` appended to the value `v`. -/
def decimalFrom (v : Nat) (ds : List Char) : Nat :=
  ds.foldl (fun v c => 10 * v + (c.toNat - 48)) v

/-- `strtol (s, NULL, 10)`, saturating at the range of a 64-bit `long`. -/
def strtol (s : List Char) : Int :=
  let s := s.dropWhile isSpace
  let (negative, s) : Bool × List Char :=
    match s with
    | '-' :: rest => (true, rest)
    | '+' :: rest => (false, rest)
    | s => (false, s)
  let v : Int := decimalFrom 0 (s.takeWhile Char.isDigit)
  if negative then max (-v) (-2 ^ 63) else min v (2 ^ 63 - 1)

/-- `atoi`, which glibc defines as `(int) strtol (s, NULL, 10)`; the
conversion to `int` wraps. -/
def atoi (s : List Char) : Int32 := Int32.ofInt (strtol s)

/-- `%0*llu` at width `w`: the digits of `n`, padded with `'0'` on the left. -/
def padDecimal (w n : Nat) : List Char :=
  let ds := Nat.toDigits 10 n
  List.replicate (w - ds.length) '0' ++ ds

theorem decimalFrom_append (v : Nat) (xs ys : List Char) :
    decimalFrom v (xs ++ ys) = decimalFrom (decimalFrom v xs) ys := by
  simp [decimalFrom, List.foldl_append]

theorem le_decimalFrom (v : Nat) (ds : List Char) : v ≤ decimalFrom v ds := by
  induction ds generalizing v with
  | nil => exact Nat.le_refl v
  | cons d ds ih =>
      have next := ih (10 * v + (d.toNat - 48))
      simp only [decimalFrom, List.foldl_cons] at next ⊢
      omega

theorem decimalFrom_zeros (k : Nat) : decimalFrom 0 (List.replicate k '0') = 0 := by
  induction k with
  | zero => rfl
  | succ k ih =>
      rw [List.replicate_succ', decimalFrom_append, ih]
      rfl

theorem decimalFrom_toDigits (n : Nat) : decimalFrom 0 (Nat.toDigits 10 n) = n := by
  induction n using Nat.strong_induction_on with
  | _ n ih =>
      by_cases small : n < 10
      · rw [Nat.toDigits_of_lt_base small]
        simp only [decimalFrom, List.foldl_cons, List.foldl_nil]
        rw [Nat.toNat_digitChar_sub_48_of_lt_ten small]
        omega
      · -- the last digit comes after the digits of `n / 10`
        have split := Nat.toDigits_of_base_le (by decide : 1 < 10) (Nat.le_of_not_lt small)
        have lower := ih (n / 10) (by omega)
        rw [split, decimalFrom_append, lower]
        simp only [decimalFrom, List.foldl_cons, List.foldl_nil]
        rw [Nat.toNat_digitChar_sub_48_of_lt_ten (Nat.mod_lt n (by decide))]
        omega

theorem decimalFrom_padDecimal (w n : Nat) : decimalFrom 0 (padDecimal w n) = n := by
  rw [padDecimal, decimalFrom_append, decimalFrom_zeros, decimalFrom_toDigits]

theorem isDigit_of_mem_padDecimal {w n : Nat} {c : Char} (mem : c ∈ padDecimal w n) :
    c.isDigit := by
  rcases List.mem_append.mp mem with zero | digit
  · rw [List.eq_of_mem_replicate zero]
    rfl
  · exact Nat.isDigit_of_mem_toDigits (by decide) (by decide) digit

theorem padDecimal_ne_nil (w n : Nat) : padDecimal w n ≠ [] := by
  simp [padDecimal, List.ne_nil_of_length_pos Nat.length_toDigits_pos]

theorem length_padDecimal_le (w n : Nat) (small : n < 2 ^ 64) : (padDecimal w n).length ≤ max w 20 := by
  have digits : (Nat.toDigits 10 n).length ≤ 20 :=
    Nat.toDigits_length 10 n 20 (by decide) (lt_of_lt_of_le small (by decide))
  simp [padDecimal]
  omega

theorem isSpace_of_isDigit {c : Char} (digit : c.isDigit) : isSpace c = false := by
  have bounds := Char.isDigit_iff_toNat.mp digit
  -- every space character is below `'0'`
  have differ : ∀ d : Char, d.toNat < 48 → c ≠ d := fun d small same => by
    subst same
    simp at bounds
    omega
  simp only [isSpace, Bool.or_eq_false_iff, decide_eq_false_iff_not]
  refine ⟨⟨⟨⟨⟨differ ' ' (by decide), differ '\t' (by decide)⟩, differ '\n' (by decide)⟩,
    differ '\r' (by decide)⟩, ?_⟩, ?_⟩ <;> (simp at bounds; omega)

theorem strtol_digits_append {ds rest : List Char} (nonempty : ds ≠ [])
    (digits : ∀ c ∈ ds, c.isDigit) (stop : ∀ c ∈ rest.head?, c.isDigit = false) :
    strtol (ds ++ rest) = min (decimalFrom 0 ds : Int) (2 ^ 63 - 1) := by
  obtain ⟨d, ds', rfl⟩ := List.exists_cons_of_ne_nil nonempty
  have first : d.isDigit := digits d List.mem_cons_self
  have noSign : d ≠ '-' ∧ d ≠ '+' := by
    constructor <;> (intro same; subst same; simp at first)
  have taken : (d :: ds' ++ rest).takeWhile Char.isDigit = d :: ds' := by
    rw [List.takeWhile_append_of_pos digits]
    cases rest with
    | nil => simp
    | cons c rest => simp [stop c (by simp)]
  simp only [strtol, List.cons_append, List.dropWhile_cons, isSpace_of_isDigit first,
    Bool.false_eq_true, if_false]
  -- a digit is no sign
  split
  · rename_i signed
    exact absurd (List.cons.inj signed).1 noSign.1
  · rename_i signed
    exact absurd (List.cons.inj signed).1 noSign.2
  · rw [← List.cons_append, taken]
    simp

/-- `strtol` reads back a number printed by `%0*llu` and followed by a
character that is not a digit. -/
theorem strtol_padDecimal_append (w n : Nat) (c : Char) (rest : List Char) (stop : c.isDigit = false) :
    strtol (padDecimal w n ++ c :: rest) = min (n : Int) (2 ^ 63 - 1) := by
  rw [strtol_digits_append (padDecimal_ne_nil w n) (fun _ => isDigit_of_mem_padDecimal)
    (by simpa using stop), decimalFrom_padDecimal]

end CString
