/-
  How many tags an enum needs, and how many bytes they take.
-/
import SwiftABI.Bytes

namespace SwiftABI.EnumTag

/-- The bytes that a number of tags takes. -/
def bytes (tags : Int) : Nat :=
  if tags ≤ 1 then 0 else if tags < 0x100 then 1 else if tags < 0x10000 then 2 else 4

/-- The tags that `emptyCases` take beside `payloadCases`. An empty case is told from the others by
its tag and by the value of the payload, so one tag serves as many of them as there are values. -/
def count (size : Nat) (emptyCases payloadCases : Int) : Int :=
  if emptyCases ≤ 0 then payloadCases
  else if 4 ≤ size then payloadCases + 1
  else payloadCases + (emptyCases + 256 ^ size - 1) / 256 ^ size

/-- The number of tags and of their bytes, for a payload of `size` bytes. -/
def counts (size : Int) (emptyCases payloadCases : Int) : Except IntegerFault (Int × Nat) :=
  if size < 0 ∧ 0 < emptyCases then .error .negativeShift
  else
    let tags := count size.toNat emptyCases payloadCases
    .ok (tags, bytes tags)

end SwiftABI.EnumTag
