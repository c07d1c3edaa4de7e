/-
  Powers of two, and the multiples of them that values are placed at.
-/
import SwiftABI.Bits

namespace SwiftABI

/-- Is this a power of two? -/
def isPowerOfTwo (n : Int) : Bool := 0 < n && 2 ^ n.toNat.log2 = n.toNat

/-- The least multiple of `alignment` that is not below `n`. -/
def roundUp (n alignment : Nat) : Nat := (n + alignment - 1) / alignment * alignment

end SwiftABI
