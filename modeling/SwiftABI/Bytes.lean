/-
  Integers as bytes.

  A number is written in a given number of bytes, in one of two orders. `ofNat` and `toNat` are the
  plain conversions, in which a number that is too large loses its high bytes. `encode` and
  `encodeSigned` refuse such numbers; `fits` tells which of them some bytes can hold.
-/
import SwiftABI.Text.Basic

namespace SwiftABI

abbrev Bytes := List UInt8

/-- Which byte of a number comes first. -/
inductive ByteOrder where
  | little
  | big
  deriving DecidableEq

/-- What somebody asks for as the order of the bytes. -/
inductive OrderRequest where
  | known (order : ByteOrder)
  /-- A name that neither of the orders has. -/
  | unknown
  /-- Not even a name. -/
  | nameless
  deriving DecidableEq

/-- Why an integer cannot be turned into bytes, or out of them. -/
inductive IntegerFault where
  /-- The order is neither of the two. -/
  | order
  /-- The order is not given by a name. -/
  | orderName
  | negativeLength
  | overflow
  | negativeShift
  | byteRange
  deriving DecidableEq

namespace IntegerFault

/-- The message of a fault. An overflow has none, and neither has an order without a name. -/
def message? : IntegerFault → Option Text
  | .order => some "byteorder must be either 'little' or 'big'"
  | .orderName => none
  | .negativeLength => some "length argument must be non-negative"
  | .overflow => none
  | .negativeShift => some "negative shift count"
  | .byteRange => some "bytes must be in range(0, 256)"

end IntegerFault

namespace Bytes

/-- The number that bytes stand for, the lowest byte first. -/
def toNat : Bytes → Nat
  | [] => 0
  | b :: bs => b.toNat + 256 * toNat bs

/-- The lowest `size` bytes of a number, the lowest one first. -/
def ofNat : Nat → Nat → Bytes
  | 0, _ => []
  | size + 1, n => UInt8.ofNat (n % 256) :: ofNat size (n / 256)

/-- Bytes in a given order, turned into the order with the lowest one first or back. -/
def inOrder : ByteOrder → Bytes → Bytes
  | .little, bs => bs
  | .big, bs => bs.reverse

/-- The integer that bytes stand for, the lowest byte first, if their highest bit is a sign. -/
def toSigned (bs : Bytes) : Int :=
  if 2 * bs.toNat < 256 ^ bs.length then bs.toNat else bs.toNat - (256 ^ bs.length : Nat)

/-- How many values some bytes can have. -/
def patterns (size : Nat) : Nat := 256 ^ size

/-- Is a number below the number of values that some bytes can have? Its own length tells, so that
there may be any number of bytes. -/
def fits (size n : Nat) : Bool := n = 0 || n.log2 < 8 * size

theorem fits_iff {size n : Nat} : fits size n = true ↔ n < patterns size := by
  have hpow : patterns size = 2 ^ (8 * size) := by rw [patterns, Nat.pow_mul]
  by_cases hn : n = 0
  · subst hn
    exact iff_of_true rfl (Nat.pow_pos (by decide))
  · simp [fits, hn, hpow, Nat.log2_lt hn]

/-- Is a number of bytes one that 64 bits can count? -/
def isLength (size : Int) : Bool := -(2 ^ (63 : Nat)) ≤ size && size < 2 ^ (63 : Nat)

/-- The most bytes that a string of bytes can have. With its head and its end, 64 bits can still
count them. Nothing but the fields of records is long enough to be held against it, since the bytes
of memory are those of pages. -/
def maxLength : Nat := 2 ^ (63 : Nat) - 34

/-- The order that is asked for, if there is one. -/
def orderOf : OrderRequest → Except IntegerFault ByteOrder
  | .known order => .ok order
  | .unknown => .error .order
  | .nameless => .error .orderName

/-- The bytes of a natural number, if they are enough. -/
def encode (order : OrderRequest) (size value : Int) : Except IntegerFault Bytes :=
  if !isLength size then .error .overflow
  else
    match orderOf order with
    | .error f => .error f
    | .ok order =>
      if size < 0 then .error .negativeLength
      else if (maxLength : Int) < size then .error .overflow
      else if value < 0 || !fits size.toNat value.toNat then .error .overflow
      else .ok (inOrder order (ofNat size.toNat value.toNat))

/-- Is an integer told from all others by its lowest `size` bytes, if their highest bit is a sign?
Zero and minus one take no bytes at all. -/
def fitsSigned (size : Nat) (value : Int) : Bool :=
  if size = 0 then value = 0 || value = -1
  else -(256 ^ size : Nat) ≤ 2 * value && 2 * value < (256 ^ size : Nat)

/-- The bytes of an integer with a sign, the lowest one first, if they are enough. -/
def encodeSigned (size value : Int) : Except IntegerFault Bytes :=
  if size < 0 then .error .negativeLength
  else if fitsSigned size.toNat value then
    .ok (ofNat size.toNat (value % (256 ^ size.toNat : Nat)).toNat)
  else .error .overflow

/-- The number that bytes in a given order stand for. -/
def decode (order : OrderRequest) (bs : Bytes) : Except IntegerFault Nat :=
  (orderOf order).map fun order => toNat (inOrder order bs)

end Bytes

end SwiftABI
