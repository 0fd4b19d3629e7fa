import Mathlib

/-! # File contents under `pwrite` and `ftruncate`

A file's contents as a list.  `pwrite` replaces the elements from an offset on
(a gap past the end reads as `zero`, as a hole does), `ftruncate` cuts the file
or extends it with `zero`.  A run of writes each starting where the previous
one ended appends their data.

Results:
* `pwrite_length`: a write at the end appends.
* `foldl_pwrite_consecutive`: consecutive writes append their data in order.
* `ftruncate_append`: cutting a file back into its last part. -/

set_option autoImplicit false

namespace PosixFile

variable {α : Type} (zero : α)

/-- `pwrite (fd, data, size, offset)` that writes all of `data`. -/
def pwrite (file : List α) (offset : Nat) (data : List α) : List α :=
  file.take offset ++ List.replicate (offset - file.length) zero ++ data ++
    file.drop (offset + data.length)

def ftruncate (file : List α) (size : Nat) : List α :=
  file.take size ++ List.replicate (size - file.length) zero

/-- Writes, as offset and data, each starting where the previous one ended,
the first at `n`. -/
def Consecutive : Nat → List (Nat × List α) → Prop
  | _, [] => True
  | n, w :: rest => w.1 = n ∧ Consecutive (n + w.2.length) rest

def written (writes : List (Nat × List α)) : List α := (writes.map Prod.snd).flatten

@[simp] theorem written_nil : written ([] : List (Nat × List α)) = [] := rfl

@[simp] theorem written_cons (w : Nat × List α) (rest : List (Nat × List α)) :
    written (w :: rest) = w.2 ++ written rest := rfl

@[simp] theorem written_append (ws vs : List (Nat × List α)) :
    written (ws ++ vs) = written ws ++ written vs := by
  simp [written]

theorem pwrite_length (file data : List α) : pwrite zero file file.length data = file ++ data := by
  simp [pwrite]

theorem consecutive_append : ∀ {n : Nat} {ws vs : List (Nat × List α)},
    Consecutive n (ws ++ vs) ↔ Consecutive n ws ∧ Consecutive (n + (written ws).length) vs
  | _, [], _ => by simp [Consecutive]
  | n, w :: ws, vs => by
      simp only [List.cons_append, Consecutive, written_cons, List.length_append]
      rw [consecutive_append, Nat.add_assoc, and_assoc]

theorem foldl_pwrite_consecutive : ∀ (writes : List (Nat × List α)) (file : List α),
    Consecutive file.length writes →
      writes.foldl (fun f w => pwrite zero f w.1 w.2) file = file ++ written writes
  | [], _, _ => by simp
  | w :: rest, file, ⟨atEnd, later⟩ => by
      have grown : pwrite zero file w.1 w.2 = file ++ w.2 := by rw [atEnd, pwrite_length]
      rw [List.foldl_cons, grown, foldl_pwrite_consecutive rest (file ++ w.2)
        (by rwa [List.length_append]), written_cons, List.append_assoc]

theorem ftruncate_append (file more : List α) {k : Nat} (within : k ≤ more.length) :
    ftruncate zero (file ++ more) (file.length + k) = file ++ more.take k := by
  have noGap : file.length + k - (file.length + more.length) = 0 := by omega
  simp [ftruncate, noGap, List.take_append, List.take_of_length_le]

end PosixFile
