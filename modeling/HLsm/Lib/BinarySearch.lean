import Mathlib

/-!
# Binary search for the first element satisfying a predicate

The loop shared by `std::upper_bound` (libstdc++'s `__upper_bound`) and a
hand-written `FindFile`: on the half-open range `[lo, hi)` it probes the middle
element `(lo + hi) / 2`, keeps `[lo, mid)` when the predicate holds there and
`[mid + 1, hi)` otherwise, and returns `lo` once the range is empty.  The two
spellings agree: `first + len / 2` is `(lo + hi) / 2` for `hi = first + len`.

The loop is written with an explicit budget so that it is structural; a budget
of the list's length is never exhausted (`firstIndex` uses it).

Results:
* `firstIndex_spec`: when the predicate is monotone along the list (false on a
  prefix, true on the rest), every element before the answer fails it and
  every element from the answer on satisfies it.
* `firstIndex_congr`: the search reads the list only through the predicate.
-/

set_option autoImplicit false

namespace BinarySearch

variable {α : Type}

/-- At most `fuel` probes on `[lo, hi)`. -/
def searchLoop (p : α → Bool) (l : List α) : Nat → Nat → Nat → Nat
  | 0, lo, _ => lo
  | fuel + 1, lo, hi =>
      if lo < hi then
        let mid := (lo + hi) / 2
        match l[mid]? with
        | some x => if p x then searchLoop p l fuel lo mid else searchLoop p l fuel (mid + 1) hi
        | none => lo
      else lo

/-- The first index of `l` whose element satisfies `p`, found by bisection. -/
def firstIndex (p : α → Bool) (l : List α) : Nat :=
  searchLoop p l l.length 0 l.length

/-- `p` is false on a prefix of `l` and true on the rest. -/
def Monotone (p : α → Bool) (l : List α) : Prop :=
  ∀ (i j : Nat) (hij : i ≤ j) (hj : j < l.length), p (l.get ⟨i, by omega⟩) = true →
    p (l.get ⟨j, hj⟩) = true

/-- The loop's invariant: `[lo, hi)` is a range of `l`, everything before `lo`
fails `p` and everything from `hi` on satisfies it. -/
structure Bracket (p : α → Bool) (l : List α) (lo hi : Nat) : Prop where
  ordered : lo ≤ hi
  inList : hi ≤ l.length
  below : ∀ (i : Nat) (hi : i < l.length), i < lo → p (l.get ⟨i, hi⟩) = false
  above : ∀ (i : Nat) (hi' : i < l.length), hi ≤ i → p (l.get ⟨i, hi'⟩) = true

theorem Bracket.probe {p : α → Bool} {l : List α} {lo hi : Nat} (bracket : Bracket p l lo hi)
    (monotone : Monotone p l) (nonEmpty : lo < hi) (inRange : (lo + hi) / 2 < l.length) :
    (p (l.get ⟨(lo + hi) / 2, inRange⟩) = true → Bracket p l lo ((lo + hi) / 2)) ∧
      (p (l.get ⟨(lo + hi) / 2, inRange⟩) = false → Bracket p l ((lo + hi) / 2 + 1) hi) := by
  constructor
  · intro holds
    refine ⟨by omega, by omega, bracket.below, fun i hi' later => ?_⟩
    exact monotone _ i later hi' holds
  · intro fails
    refine ⟨by omega, bracket.inList, fun i hi' earlier => ?_, bracket.above⟩
    by_contra holdsAt
    have atMid := monotone i ((lo + hi) / 2) (by omega) inRange (by simpa using holdsAt)
    rw [fails] at atMid
    exact Bool.false_ne_true atMid

theorem searchLoop_bracket (p : α → Bool) (l : List α) (monotone : Monotone p l) :
    ∀ (fuel lo hi : Nat), Bracket p l lo hi → hi - lo ≤ fuel →
      Bracket p l (searchLoop p l fuel lo hi) (searchLoop p l fuel lo hi) := by
  intro fuel
  induction fuel with
  | zero =>
      intro lo hi bracket budget
      have same : hi = lo := by have := bracket.ordered; omega
      subst same
      simpa [searchLoop] using bracket
  | succ fuel ih =>
      intro lo hi bracket budget
      simp only [searchLoop]
      by_cases nonEmpty : lo < hi
      · have inRange : (lo + hi) / 2 < l.length := by have := bracket.inList; omega
        rw [if_pos nonEmpty, List.getElem?_eq_getElem inRange]
        have step := bracket.probe monotone nonEmpty inRange
        simp only [List.get_eq_getElem] at step
        cases holds : p l[(lo + hi) / 2] with
        | true =>
            simp only [holds, if_true]
            exact ih _ _ (step.1 holds) (by omega)
        | false =>
            simp only [holds, Bool.false_eq_true, if_false]
            exact ih _ _ (step.2 holds) (by omega)
      · rw [if_neg nonEmpty]
        have same : hi = lo := by have := bracket.ordered; omega
        subst same
        exact bracket

/-- On a monotone predicate, `firstIndex` splits the list at the first element
that satisfies it. -/
theorem firstIndex_spec (p : α → Bool) (l : List α) (monotone : Monotone p l) :
    Bracket p l (firstIndex p l) (firstIndex p l) := by
  apply searchLoop_bracket p l monotone
  · exact ⟨Nat.zero_le _, le_refl _, fun i _ before => absurd before (Nat.not_lt_zero i),
      fun i hi' after => absurd hi' (by omega)⟩
  · omega

theorem searchLoop_congr {β : Type} (p : α → Bool) (q : β → Bool) (l : List α) (l' : List β)
    (same : l.map p = l'.map q) :
    ∀ (fuel lo hi : Nat), searchLoop p l fuel lo hi = searchLoop q l' fuel lo hi := by
  intro fuel
  induction fuel with
  | zero => intro lo hi; rfl
  | succ fuel ih =>
      intro lo hi
      have probe : (l[(lo + hi) / 2]?).map p = (l'[(lo + hi) / 2]?).map q := by
        rw [← List.getElem?_map, ← List.getElem?_map, same]
      simp only [searchLoop]
      split
      · cases atL : l[(lo + hi) / 2]? with
        | none =>
            cases atL' : l'[(lo + hi) / 2]? with
            | none => rfl
            | some y => rw [atL, atL'] at probe; cases probe
        | some x =>
            cases atL' : l'[(lo + hi) / 2]? with
            | none => rw [atL, atL'] at probe; cases probe
            | some y =>
                rw [atL, atL'] at probe
                have agree : p x = q y := Option.some.inj probe
                simp only [agree, ih]
      · rfl

theorem firstIndex_congr {β : Type} (p : α → Bool) (q : β → Bool) (l : List α) (l' : List β)
    (same : l.map p = l'.map q) : firstIndex p l = firstIndex q l' := by
  have length : l.length = l'.length := by
    rw [← List.length_map (f := p), same, List.length_map]
  rw [firstIndex, firstIndex, length]
  exact searchLoop_congr p q l l' same _ _ _

end BinarySearch
