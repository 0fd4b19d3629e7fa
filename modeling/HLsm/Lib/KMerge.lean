import Mathlib

/-!
# Merging several ordered sequences by repeated minimum

A merging iterator over `n` children repeatedly yields the smallest head and
advances the child it came from.  The smallest head is found by a scan that
keeps the first of equal heads, so on ties the child listed first wins.

The loop runs on fuel; one unit is spent per element yielded, so the total
length of the children is enough.
-/

set_option autoImplicit false

namespace KMerge

variable {α : Type} (cmp : α → α → Ordering)

/-- The scan over the children from position `i`, with the best head so far. -/
def findSmallestFrom : Nat → List (List α) → Option (α × Nat) → Option (α × Nat)
  | _, [], best => best
  | i, [] :: rest, best => findSmallestFrom (i + 1) rest best
  | i, (x :: _) :: rest, best =>
      let best :=
        match best with
        | none => some (x, i)
        | some (y, j) => if cmp x y == .lt then some (x, i) else some (y, j)
      findSmallestFrom (i + 1) rest best

def findSmallest (children : List (List α)) : Option (α × Nat) :=
  findSmallestFrom cmp 0 children none

/-- Yield the smallest head and advance its child, at most `fuel` times. -/
def mergeLoop : Nat → List (List α) → List α
  | 0, _ => []
  | fuel + 1, children =>
      match findSmallest cmp children with
      | none => []
      | some (x, i) => x :: mergeLoop fuel (children.modify i List.tail)

def merge (children : List (List α)) : List α :=
  mergeLoop cmp (children.map List.length).sum children

end KMerge
