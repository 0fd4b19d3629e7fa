import Mathlib

/-!
# Ordered sets as strictly increasing lists

A `std::set` ordered by a comparison `cmp` is, for everything a program can
observe of it, the strictly increasing list of its elements: iteration visits
them in that order, `insert` keeps the element already present when an
equivalent one is inserted (it does not replace it), `erase` removes the
equivalent element, and `count` asks whether an equivalent element is present.

The comparison need not identify equivalent elements (`cmp a b = .eq` with
`a ≠ b` is allowed); the lemmas only ask that it be a lawful three-way
comparison (`Std.TransCmp`).

Results:
* `insert_sorted`, `erase_sorted`: both operations keep the list increasing.
* `contains_insert`, `contains_erase`, `mem_insert`: what a lookup sees after
  each operation.
* `foldl_insert_of_sorted`: inserting the elements of an increasing list one by
  one into an empty set rebuilds that list.
* `Sorted.eq_of_mem_iff`: an increasing list is determined by its elements.
-/

set_option autoImplicit false

namespace SortedSet

open Std

variable {α : Type} (cmp : α → α → Ordering)

/-- `insert`: an element equivalent to one already present is not added. -/
def insert (x : α) : List α → List α
  | [] => [x]
  | y :: ys =>
      match cmp x y with
      | .lt => x :: y :: ys
      | .eq => y :: ys
      | .gt => y :: insert x ys

/-- `erase` by key. -/
def erase (x : α) : List α → List α
  | [] => []
  | y :: ys =>
      match cmp x y with
      | .lt => y :: ys
      | .eq => ys
      | .gt => y :: erase x ys

/-- `count (x) > 0`. -/
def contains (x : α) (l : List α) : Bool := l.any fun y => cmp x y == .eq

def Sorted (l : List α) : Prop := l.Pairwise fun a b => cmp a b = .lt

variable {cmp}

@[simp] theorem contains_nil (x : α) : contains cmp x [] = false := rfl

@[simp] theorem contains_cons (x y : α) (ys : List α) :
    contains cmp x (y :: ys) = (cmp x y == .eq || contains cmp x ys) := by
  simp [contains]

theorem Sorted.cons_iff {y : α} {ys : List α} :
    Sorted cmp (y :: ys) ↔ (∀ z ∈ ys, cmp y z = .lt) ∧ Sorted cmp ys :=
  List.pairwise_cons

theorem mem_insert_cases {x z : α} :
    ∀ {l : List α}, z ∈ insert cmp x l → z = x ∨ z ∈ l := by
  intro l
  induction l with
  | nil => simp [insert]
  | cons y ys ih =>
      intro member
      simp only [insert] at member
      split at member
      · simpa using member
      · exact .inr member
      · simp only [List.mem_cons] at member
        rcases member with here | later
        · exact .inr (by simp [here])
        · rcases ih later with same | inTail
          · exact .inl same
          · exact .inr (by simp [inTail])

theorem erase_sublist (x : α) : ∀ l : List α, List.Sublist (erase cmp x l) l := by
  intro l
  induction l with
  | nil => simp [erase]
  | cons y ys ih =>
      simp only [erase]
      split
      · exact List.Sublist.refl _
      · exact List.sublist_cons_self y ys
      · exact ih.cons_cons y

theorem not_contains_of_lt_all {x : α} {l : List α} (below : ∀ z ∈ l, cmp x z = .lt) :
    contains cmp x l = false := by
  simp only [contains, List.any_eq_false, beq_iff_eq]
  intro z member same
  rw [below z member] at same
  cases same

theorem erase_sorted (x : α) {l : List α} (sorted : Sorted cmp l) :
    Sorted cmp (erase cmp x l) :=
  sorted.sublist (erase_sublist x l)

section Lawful

variable [TransCmp cmp]

theorem lt_all_of_lt_head {x y : α} {ys : List α} (sorted : Sorted cmp (y :: ys))
    (below : cmp x y = .lt) : ∀ z ∈ y :: ys, cmp x z = .lt := by
  intro z member
  rcases List.mem_cons.mp member with rfl | later
  · exact below
  · exact TransCmp.lt_trans below ((Sorted.cons_iff.mp sorted).1 z later)

theorem insert_sorted (x : α) : ∀ {l : List α}, Sorted cmp l → Sorted cmp (insert cmp x l) := by
  intro l
  induction l with
  | nil => intro _; simp [insert, Sorted]
  | cons y ys ih =>
      intro sorted
      have tail := (Sorted.cons_iff.mp sorted)
      simp only [insert]
      split
      · rename_i below
        exact Sorted.cons_iff.mpr ⟨lt_all_of_lt_head sorted below, sorted⟩
      · exact sorted
      · rename_i above
        refine Sorted.cons_iff.mpr ⟨fun z member => ?_, ih tail.2⟩
        rcases mem_insert_cases member with rfl | inTail
        · exact OrientedCmp.lt_of_gt above
        · exact tail.1 z inTail

theorem contains_insert (x z : α) : ∀ l : List α,
    contains cmp z (insert cmp x l) = (contains cmp z l || cmp z x == .eq) := by
  intro l
  induction l with
  | nil => simp [insert]
  | cons y ys ih =>
      simp only [insert]
      split
      · simp only [contains_cons]
        cases cmp z x <;> simp [Bool.or_comm]
      · rename_i same
        simp only [contains_cons]
        by_cases equiv : cmp z x = .eq
        · simp [equiv, TransCmp.eq_trans equiv same]
        · simp [equiv]
      · simp only [contains_cons, ih, Bool.or_assoc]

theorem contains_erase (x z : α) : ∀ {l : List α}, Sorted cmp l →
    contains cmp z (erase cmp x l) = (contains cmp z l && !(cmp z x == .eq)) := by
  intro l
  induction l with
  | nil => simp [erase]
  | cons y ys ih =>
      intro sorted
      have tail := Sorted.cons_iff.mp sorted
      simp only [erase]
      split
      · rename_i below
        by_cases equiv : cmp z x = .eq
        · have absent := not_contains_of_lt_all
            (lt_all_of_lt_head sorted (TransCmp.lt_of_eq_of_lt equiv below))
          simp [absent, equiv]
        · simp [equiv]
      · rename_i same
        by_cases equiv : cmp z x = .eq
        · have headEquiv : cmp z y = .eq := TransCmp.eq_trans equiv same
          have absent : contains cmp z ys = false := not_contains_of_lt_all fun w member =>
            TransCmp.lt_of_eq_of_lt headEquiv (tail.1 w member)
          simp [absent, equiv]
        · have notHead : (cmp z y == .eq) = false := by
            simpa using fun headEquiv =>
              equiv (TransCmp.eq_trans headEquiv (OrientedCmp.eq_symm same))
          have notX : (cmp z x == .eq) = false := by simpa using equiv
          simp [notHead, notX]
      · rename_i above
        simp only [contains_cons, ih tail.2]
        by_cases headEquiv : cmp z y = .eq
        · have notX : (cmp z x == .eq) = false := by
            simpa using fun equiv => by
              have := TransCmp.eq_trans (OrientedCmp.eq_symm equiv) headEquiv
              rw [above] at this
              cases this
          simp [headEquiv, notX]
        · have notHead : (cmp z y == .eq) = false := by simpa using headEquiv
          simp [notHead]

theorem mem_insert {x z : α} : ∀ {l : List α}, Sorted cmp l →
    (z ∈ insert cmp x l ↔ z ∈ l ∨ (z = x ∧ contains cmp x l = false)) := by
  intro l
  induction l with
  | nil => intro _; simp [insert]
  | cons y ys ih =>
      intro sorted
      have tail := Sorted.cons_iff.mp sorted
      simp only [insert]
      split
      · rename_i below
        have absent := not_contains_of_lt_all (lt_all_of_lt_head sorted below)
        simp only [absent, and_true, List.mem_cons]
        tauto
      · rename_i same
        simp [same]
      · rename_i above
        have notHead : (cmp x y == .eq) = false := by simp [above]
        simp only [List.mem_cons, ih tail.2, contains_cons, notHead, Bool.false_or]
        tauto

theorem insert_eq_append {x : α} : ∀ {l : List α}, (∀ y ∈ l, cmp y x = .lt) →
    insert cmp x l = l ++ [x] := by
  intro l
  induction l with
  | nil => intro _; rfl
  | cons y ys ih =>
      intro above
      have headAbove : cmp x y = .gt := OrientedCmp.gt_of_lt (above y (by simp))
      simp only [insert, headAbove, List.cons_append]
      rw [ih fun z member => above z (by simp [member])]

theorem foldl_insert_append : ∀ (l acc : List α), Sorted cmp (acc ++ l) →
    l.foldl (fun s x => insert cmp x s) acc = acc ++ l := by
  intro l
  induction l with
  | nil => intro acc _; simp
  | cons x xs ih =>
      intro acc sorted
      have before : ∀ y ∈ acc, cmp y x = .lt := fun y member =>
        (List.pairwise_append.mp sorted).2.2 y member x (by simp)
      simp only [List.foldl_cons, insert_eq_append before]
      rw [ih (acc ++ [x]) (by simpa using sorted)]
      simp

/-- Two strictly increasing lists with the same elements are the same list. -/
theorem Sorted.eq_of_mem_iff {l₁ l₂ : List α} (sorted₁ : Sorted cmp l₁) (sorted₂ : Sorted cmp l₂)
    (same : ∀ x, x ∈ l₁ ↔ x ∈ l₂) : l₁ = l₂ := by
  have irrefl : Std.Irrefl fun a b : α => cmp a b = .lt :=
    ⟨fun a below => by simp [ReflCmp.compare_self] at below⟩
  have antisymm : Std.Antisymm fun a b : α => cmp a b = .lt :=
    ⟨fun a b below above => absurd (OrientedCmp.gt_of_lt below) (by simp [above])⟩
  exact List.Pairwise.eq_of_mem_iff sorted₁ sorted₂ same

theorem Sorted.nodup {l : List α} (sorted : Sorted cmp l) : l.Nodup :=
  sorted.imp fun below same => by
    subst same
    simp [ReflCmp.compare_self] at below

/-- Reading an increasing list back into a fresh set gives the same list. -/
theorem foldl_insert_of_sorted {l : List α} (sorted : Sorted cmp l) :
    l.foldl (fun s x => insert cmp x s) [] = l := by
  simpa using foldl_insert_append l [] (by simpa using sorted)

end Lawful

end SortedSet

/-! ## Comparing by a key -/

def byKey {α β : Type} (cmp : β → β → Ordering) (key : α → β) : α → α → Ordering :=
  fun a b => cmp (key a) (key b)

instance byKey.transCmp {α β : Type} (cmp : β → β → Ordering) [Std.TransCmp cmp]
    (key : α → β) : Std.TransCmp (byKey cmp key) where
  eq_swap {a b} := Std.OrientedCmp.eq_swap (a := key a) (b := key b)
  isLE_trans {a b c} := Std.TransCmp.isLE_trans (a := key a) (b := key b) (c := key c)

/-! ## The set with its order as an invariant -/

/-- A set ordered by `cmp`: its elements, strictly increasing. -/
structure OrdSet {α : Type} (cmp : α → α → Ordering) where
  elems : List α
  sorted : SortedSet.Sorted cmp elems

namespace OrdSet

open Std

variable {α : Type} {cmp : α → α → Ordering}

@[ext] theorem ext {s t : OrdSet cmp} (same : s.elems = t.elems) : s = t := by
  cases s
  cases t
  simp only at same
  subst same
  rfl

instance [DecidableEq α] : DecidableEq (OrdSet cmp) := fun s t =>
  decidable_of_iff (s.elems = t.elems) ⟨ext, fun same => same ▸ rfl⟩

instance [Repr α] : Repr (OrdSet cmp) := ⟨fun s n => reprPrec s.elems n⟩

def empty : OrdSet cmp := ⟨[], List.Pairwise.nil⟩

instance : EmptyCollection (OrdSet cmp) := ⟨empty⟩

@[simp] theorem elems_empty : (∅ : OrdSet cmp).elems = [] := rfl

/-- `count (x) > 0`. -/
def contains (s : OrdSet cmp) (x : α) : Bool := SortedSet.contains cmp x s.elems

@[simp] theorem contains_empty (x : α) : (∅ : OrdSet cmp).contains x = false := rfl

variable [TransCmp cmp]

def insert (s : OrdSet cmp) (x : α) : OrdSet cmp :=
  ⟨SortedSet.insert cmp x s.elems, SortedSet.insert_sorted x s.sorted⟩

def erase (s : OrdSet cmp) (x : α) : OrdSet cmp :=
  ⟨SortedSet.erase cmp x s.elems, SortedSet.erase_sorted x s.sorted⟩

/-- Building a set from a list, one `insert` at a time. -/
def ofList (l : List α) : OrdSet cmp := l.foldl insert empty

@[simp] theorem contains_insert (s : OrdSet cmp) (x z : α) :
    (s.insert x).contains z = (s.contains z || cmp z x == .eq) :=
  SortedSet.contains_insert x z s.elems

@[simp] theorem contains_erase (s : OrdSet cmp) (x z : α) :
    (s.erase x).contains z = (s.contains z && !(cmp z x == .eq)) :=
  SortedSet.contains_erase x z s.sorted

theorem mem_insert (s : OrdSet cmp) (x z : α) :
    z ∈ (s.insert x).elems ↔ z ∈ s.elems ∨ (z = x ∧ s.contains x = false) :=
  SortedSet.mem_insert s.sorted

theorem elems_foldl_insert (l : List α) (s : OrdSet cmp) :
    (l.foldl insert s).elems = l.foldl (fun acc x => SortedSet.insert cmp x acc) s.elems := by
  induction l generalizing s with
  | nil => rfl
  | cons x xs ih => exact ih (s.insert x)

theorem ofList_elems (s : OrdSet cmp) : ofList s.elems = s := by
  apply ext
  rw [ofList, elems_foldl_insert]
  exact SortedSet.foldl_insert_of_sorted s.sorted

end OrdSet
