import Mathlib

/-! # Batches of deletions and additions

A batch removes from a collection every element whose key it deletes and adds
its own elements; its deletions do not touch what it adds itself.  Two batches
in a row can be merged into one: the keys deleted by either, less the keys
the second adds again, and the elements added by either.

Merging a whole sequence of batches first and applying the result once gives
what applying them one at a time gives, as long as no batch adds an element
whose key was already added before (by the collection or an earlier batch).
Without that condition the two differ: an element deleted and then added again
under the same key survives the merged batch together with the earlier
element of that key.

Results:
* `applyTo_andThen`: one merged step equals two steps.
* `applyTo_foldl_andThen`: the same for a sequence of batches. -/
set_option autoImplicit false

@[ext] structure Batch (κ α : Type) where
  deleted : Set κ
  added : Set α

namespace Batch

variable {κ α : Type} (key : α → κ)

def empty : Batch κ α := ⟨∅, ∅⟩

def applyTo (b : Batch κ α) (s : Set α) : Set α :=
  {x | (x ∈ s ∨ x ∈ b.added) ∧ key x ∉ b.deleted}

/-- `b` then `c` as one batch: a key `c` adds again is no longer deleted. -/
def andThen (b c : Batch κ α) : Batch κ α :=
  ⟨(b.deleted ∪ c.deleted) \ key '' c.added, b.added ∪ c.added⟩

def step (s : Set α) (c : Batch κ α) : Set α := (empty.andThen key c).applyTo key s

/-- No batch of the sequence adds a key that the collection `seen`, or an
earlier batch, already holds. -/
def FreshKeys : Set α → List (Batch κ α) → Prop
  | _, [] => True
  | seen, c :: cs => Disjoint (key '' c.added) (key '' seen) ∧ FreshKeys (seen ∪ c.added) cs

variable {key}

@[simp] theorem mem_applyTo {b : Batch κ α} {s : Set α} {x : α} :
    x ∈ b.applyTo key s ↔ (x ∈ s ∨ x ∈ b.added) ∧ key x ∉ b.deleted := Iff.rfl

@[simp] theorem applyTo_empty (s : Set α) : (empty : Batch κ α).applyTo key s = s := by
  ext x
  simp [applyTo, empty]

/-- Two steps in a row are one merged step, when the second adds no key of
what the first leaves or adds. -/
theorem applyTo_andThen (b c : Batch κ α) (s : Set α)
    (fresh : Disjoint (key '' c.added) (key '' (s ∪ b.added))) :
    (b.andThen key c).applyTo key s = step key (b.applyTo key s) c := by
  ext x
  simp only [step, andThen, empty, mem_applyTo, Set.mem_union, Set.mem_sdiff, Set.empty_union]
  by_cases again : x ∈ c.added
  · have readded : key x ∈ key '' c.added := Set.mem_image_of_mem key again
    simp [again, readded]
  · by_cases earlier : x ∈ s ∨ x ∈ b.added
    · -- an element from before keeps its key out of `c`'s additions
      have notReadded : key x ∉ key '' c.added := fun readded =>
        Set.disjoint_left.mp fresh readded (Set.mem_image_of_mem key earlier)
      simp only [again, notReadded, earlier, or_false, not_false_eq_true,
        and_true, true_and]
      tauto
    · simp [again, earlier]

theorem mem_foldl_andThen_added : ∀ (cs : List (Batch κ α)) (b : Batch κ α) (x : α),
    x ∈ (cs.foldl (andThen key) b).added ↔ x ∈ b.added ∨ ∃ c ∈ cs, x ∈ c.added := by
  intro cs
  induction cs with
  | nil => simp
  | cons c cs ih =>
      intro b x
      rw [List.foldl_cons, ih]
      simp [andThen, or_assoc]

/-- Merging a sequence of batches first and applying it once gives the
collection that applying them one at a time gives. -/
theorem applyTo_foldl_andThen : ∀ (cs : List (Batch κ α)) (b : Batch κ α) (s : Set α),
    FreshKeys key (s ∪ b.added) cs →
      (cs.foldl (andThen key) b).applyTo key s = cs.foldl (step key) (b.applyTo key s) := by
  intro cs
  induction cs with
  | nil => intro b s _; rfl
  | cons c cs ih =>
      intro b s fresh
      obtain ⟨freshHead, freshTail⟩ := fresh
      have later : FreshKeys key (s ∪ (b.andThen key c).added) cs := by
        simpa only [andThen, Set.union_assoc] using freshTail
      rw [List.foldl_cons, ih (b.andThen key c) s later, applyTo_andThen b c s freshHead,
        List.foldl_cons]

end Batch
