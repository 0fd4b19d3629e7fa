import HLsm.Lib.BinarySearch
import HLsm.Lib.SortedSet

/-!
# Merging an ordered batch into an ordered list by upper bounds

The merge `Builder::SaveTo` performs on one level: for each element `a` of the
added batch, in order, it copies the base elements up to
`std::upper_bound (base, a)` (the first base element strictly above `a`), then
`a`; after the batch it copies what is left of the base.  Equivalent elements
of the base therefore come before an added one.

Results:
* `mergeUpper_perm`: the output is a rearrangement of base and batch.
* `mergeUpper_sorted`: when both inputs are non-decreasing under a lawful
  comparison, so is the output.
* `mergeUpper_strict`: when both are strictly increasing and no base element
  is equivalent to an added one, the output is strictly increasing.
-/

set_option autoImplicit false

namespace SortedMerge

open Std

variable {α : Type} (cmp : α → α → Ordering)

/-- The position `std::upper_bound` returns for `a`: the first base element
strictly above it. -/
def upperBound (base : List α) (a : α) : Nat :=
  BinarySearch.firstIndex (fun b => cmp a b == .lt) base

/-- The merge loop of `SaveTo`. -/
def mergeUpper : List α → List α → List α
  | base, [] => base
  | base, a :: rest =>
      let r := upperBound cmp base a
      base.take r ++ a :: mergeUpper (base.drop r) rest

def Ordered (l : List α) : Prop := l.Pairwise fun a b => (cmp a b).isLE

variable {cmp}

theorem mergeUpper_perm : ∀ (base added : List α),
    (mergeUpper cmp base added).Perm (base ++ added) := by
  intro base added
  induction added generalizing base with
  | nil => simp [mergeUpper]
  | cons a rest ih =>
      simp only [mergeUpper]
      let r := upperBound cmp base a
      -- `a` goes between the copied prefix and the rest of the base
      have tail : (a :: mergeUpper cmp (base.drop r) rest).Perm (base.drop r ++ a :: rest) :=
        ((ih (base.drop r)).cons a).trans List.perm_middle.symm
      have whole : base.take r ++ (base.drop r ++ a :: rest) = base ++ a :: rest := by
        rw [← List.append_assoc, List.take_append_drop]
      exact (tail.append_left _).trans (List.Perm.of_eq whole)

theorem mem_mergeUpper {base added : List α} {x : α} :
    x ∈ mergeUpper cmp base added ↔ x ∈ base ∨ x ∈ added := by
  rw [(mergeUpper_perm base added).mem_iff, List.mem_append]

section Lawful

variable [TransCmp cmp]

theorem above_monotone (a : α) {base : List α} (ordered : Ordered cmp base) :
    BinarySearch.Monotone (fun b => cmp a b == .lt) base := by
  intro i j earlier inList holds
  simp only [beq_iff_eq] at holds ⊢
  rcases Nat.lt_or_eq_of_le earlier with before | same
  · exact TransCmp.lt_of_lt_of_isLE holds
      (List.pairwise_iff_get.mp ordered ⟨i, by omega⟩ ⟨j, inList⟩ before)
  · subst same
    exact holds

theorem mergeUpper_sorted : ∀ {base added : List α}, Ordered cmp base → Ordered cmp added →
    Ordered cmp (mergeUpper cmp base added) := by
  intro base added
  induction added generalizing base with
  | nil => intro orderedBase _; simpa [mergeUpper] using orderedBase
  | cons a rest ih =>
      intro orderedBase orderedAdded
      simp only [mergeUpper]
      have spec : BinarySearch.Bracket (fun b => cmp a b == .lt) base (upperBound cmp base a)
          (upperBound cmp base a) :=
        BinarySearch.firstIndex_spec _ base (above_monotone a orderedBase)
      have split := List.take_append_drop (upperBound cmp base a) base
      have orderedSplit : Ordered cmp (base.take (upperBound cmp base a) ++
          base.drop (upperBound cmp base a)) := by rw [split]; exact orderedBase
      have headAdded := List.pairwise_cons.mp orderedAdded
      -- the copied prefix is at or below `a`, the rest of the base above it
      have prefixBelow : ∀ b ∈ base.take (upperBound cmp base a), (cmp b a).isLE := by
        intro b member
        obtain ⟨i, hi, rfl⟩ := List.getElem_of_mem member
        have index : i < upperBound cmp base a := by simp at hi; omega
        have hiBase : i < base.length := by simp at hi; omega
        have fails := spec.below i hiBase index
        simp only [List.get_eq_getElem, beq_eq_false_iff_ne, ne_eq] at fails
        rw [List.getElem_take]
        exact OrientedCmp.isLE_of_isGE (by
          cases h : cmp a base[i] with
          | lt => exact absurd h fails
          | eq => simp
          | gt => simp)
      have suffixAbove : ∀ b ∈ base.drop (upperBound cmp base a), cmp a b = .lt := by
        intro b member
        obtain ⟨i, hi, rfl⟩ := List.getElem_of_mem member
        have holds := spec.above (upperBound cmp base a + i) (by simp at hi; omega) (by omega)
        simpa [List.getElem_drop] using holds
      have rest := ih (List.pairwise_append.mp orderedSplit).2.1 headAdded.2
      refine List.pairwise_append.mpr ⟨(List.pairwise_append.mp orderedSplit).1, ?_, ?_⟩
      · refine List.pairwise_cons.mpr ⟨fun c member => ?_, rest⟩
        rcases mem_mergeUpper.mp member with inBase | inAdded
        · simp [suffixAbove c inBase]
        · exact headAdded.1 c inAdded
      · intro b inPrefix c member
        rcases List.mem_cons.mp member with rfl | inMerge
        · exact prefixBelow b inPrefix
        · rcases mem_mergeUpper.mp inMerge with inBase | inAdded
          · exact (List.pairwise_append.mp orderedSplit).2.2 b inPrefix c inBase
          · exact TransCmp.isLE_trans (prefixBelow b inPrefix) (headAdded.1 c inAdded)

theorem mergeUpper_strict {base added : List α} (sortedBase : SortedSet.Sorted cmp base)
    (sortedAdded : SortedSet.Sorted cmp added) (apart : ∀ b ∈ base, ∀ a ∈ added, cmp b a ≠ .eq) :
    SortedSet.Sorted cmp (mergeUpper cmp base added) := by
  have isLE_of_lt : ∀ {a b : α}, cmp a b = .lt → (cmp a b).isLE := fun below => by simp [below]
  have ne_of_lt : ∀ {a b : α}, cmp a b = .lt → cmp a b ≠ .eq := fun below => by simp [below]
  have ordered := mergeUpper_sorted (sortedBase.imp isLE_of_lt) (sortedAdded.imp isLE_of_lt)
  -- no two elements of the output are equivalent, since none of the inputs are
  have distinct : (mergeUpper cmp base added).Pairwise fun a b => cmp a b ≠ .eq := by
    rw [(mergeUpper_perm base added).pairwise_iff fun equiv same => equiv (OrientedCmp.eq_symm same)]
    exact List.pairwise_append.mpr ⟨sortedBase.imp ne_of_lt, sortedAdded.imp ne_of_lt, apart⟩
  refine (ordered.and distinct).imp fun ⟨atMost, notEq⟩ => ?_
  revert atMost notEq
  cases cmp _ _ <;> simp

end Lawful

end SortedMerge
