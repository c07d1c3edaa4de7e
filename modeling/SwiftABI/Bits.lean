/-
  Single bits of integers.
-/

-- With Mathlib a power of natural numbers is elaborated as one of a monoid, and without it as one
-- of the core library. Most of the library is compiled without Mathlib, but its powers have to be
-- those that are met in the proofs that import it.
attribute [instance (2000)] instPowNat

namespace SwiftABI

/-- The bit of an integer at a position. Negative integers have infinitely many ones in front. -/
def bit (n : Int) (i : Nat) : Bool := n / 2 ^ i % 2 = 1

/-- The number that has a bit at a position, if the condition holds, and otherwise zero. -/
def bitIf (p : Bool) (i : Nat) : Nat := if p then 2 ^ i else 0

end SwiftABI
