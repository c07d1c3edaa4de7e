/-
  Positions in a list that may count from its end.
-/

namespace SwiftABI.Position

/-- The element at a position. A negative one counts from the end, where `-1` is the last. -/
def pick {α : Type} (xs : List α) (i : Int) : Option α :=
  if 0 ≤ i then xs[i.toNat]?
  else if -i ≤ xs.length then xs[(xs.length + i).toNat]?
  else none

/-- A position as the number of elements before it. Positions beyond either end are the end. -/
def before {α : Type} (xs : List α) (i : Int) : Nat :=
  if 0 ≤ i then min i.toNat xs.length else (xs.length + i).toNat

/-- The elements from one position up to another. -/
def slice {α : Type} (xs : List α) (start stop : Int) : List α :=
  (xs.take (before xs stop)).drop (before xs start)

end SwiftABI.Position
