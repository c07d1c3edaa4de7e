/-
  Punycode for identifiers, in the variant that symbols use.

  An identifier is given by its scalars. The ones that may stand in a symbol come first, followed by
  the delimiter `_`; then, for every other scalar in ascending order, the distance to it from the
  scalar before is written as a numeral of variable length. The digits are `a` to `z` and `A` to
  `J`, since an identifier must not begin with a digit, and ASCII characters that may not stand in a
  symbol are moved to the scalars from `0xD800` on, which no character has.

  The decoder reads one character at a time and inserts a scalar whenever a numeral is complete.
-/
import SwiftABI.Text.Basic

namespace SwiftABI.Punycode

def base : Nat := 36
def leastThreshold : Nat := 1
def greatestThreshold : Nat := 26
def skew : Nat := 38
def damping : Nat := 700
def initialBias : Nat := 72
def initialScalar : Nat := 0x80

def delimiter : CodePoint := '_'

/-- ASCII characters that may not stand in a symbol are encoded as if they began here. -/
def displacement : Nat := 0xD800

/-- Is this the scalar of a character that may stand in a symbol? -/
def isSymbolScalar (c : Nat) : Bool := c < 0x80 && Text.isSymbolChar (CodePoint.ofNat c)

/-- Does an identifier hold anything that may not stand in a symbol? -/
def needed (scalars : List Nat) : Bool := scalars.any fun c => !isSymbolScalar c

/-- The scalar that is encoded for `c`. -/
def displace (c : Nat) : Nat := if c < 0x80 && !isSymbolScalar c then c + displacement else c

/-- The scalar that is meant by `c`. -/
def restore (c : Nat) : Nat :=
  if displacement ≤ c && c < displacement + 0x80 then c - displacement else c

/-- Can `c` be encoded? The first surrogates can, since they stand for ASCII characters. -/
def isEncodable (c : Nat) : Bool := c < 0xD880 || (0xE000 ≤ c && c ≤ 0x1FFFFF)

/-! ### Numerals -/

/-- The digit with a value below `base`. -/
def digit (d : Nat) : CodePoint := if d < 26 then Text.lowerLetter d else Text.upperLetter (d - 26)

/-- The value of a digit. -/
def digitValue? (c : CodePoint) : Option Nat :=
  if Text.isLower c then some (Text.lowerIndex c)
  else if 'A' ≤ c && c ≤ 'J' then some (Text.upperIndex c + 26)
  else none

/-- A digit below this value ends a numeral, at the place that `k` counts up to in steps of
`base`. -/
def threshold (k bias : Nat) : Nat :=
  if k ≤ bias then leastThreshold
  else if bias + greatestThreshold ≤ k then greatestThreshold
  else k - bias

theorem threshold_pos (k bias : Nat) : 0 < threshold k bias := by
  unfold threshold leastThreshold greatestThreshold; split <;> (try split) <;> omega

theorem threshold_lt_base (k bias : Nat) : threshold k bias < base := by
  unfold threshold leastThreshold greatestThreshold base; split <;> (try split) <;> omega

/-- The numeral of `q`, from the place `k` on. -/
def numeral (bias k q : Nat) : Text :=
  let t := threshold k bias
  if _h : q < t then [digit q]
  else digit (t + (q - t) % (base - t)) :: numeral bias (k + base) ((q - t) / (base - t))
termination_by q
decreasing_by
  have ht := threshold_pos k bias
  have := Nat.div_le_self (q - threshold k bias) (base - threshold k bias)
  omega

/-- Divides until the distance is small, and counts the divisions in steps of `base`. -/
def settle (delta k : Nat) : Nat × Nat :=
  if _h : (base - leastThreshold) * greatestThreshold / 2 < delta then
    settle (delta / (base - leastThreshold)) (k + base)
  else (delta, k)
termination_by delta
decreasing_by
  unfold base leastThreshold at *
  omega

/-- The bias for the next numeral, after the distance `delta` led to the scalar number `count`. -/
def adapt (delta count : Nat) (first : Bool) : Nat :=
  let damped := if first then delta / damping else delta / 2
  let (rest, k) := settle (damped + damped / count) 0
  k + (base - leastThreshold + 1) * rest / (rest + skew)

/-! ### Encoding -/

/-- How far the encoder has come. -/
structure Encoder where
  /-- Scalars below this one have been handled. -/
  scalar : Nat
  /-- The distance that the next numeral has to cover. -/
  delta : Nat
  bias : Nat
  /-- How many scalars have been handled. -/
  handled : Nat
  output : Text

namespace Encoder

/-- Passes one scalar of the identifier: the ones handled before add to the distance, and the one in
turn is written. -/
def pass (first : Nat) (e : Encoder) (c : Nat) : Encoder :=
  if c < e.scalar then { e with delta := e.delta + 1 }
  else if c = e.scalar then
    { e with
      delta := 0
      bias := adapt e.delta (e.handled + 1) (e.handled = first)
      handled := e.handled + 1
      output := e.output ++ numeral e.bias base e.delta }
  else e

/-- Handles every occurrence of the scalar `m`, the next one in order. -/
def advance (scalars : List Nat) (first : Nat) (e : Encoder) (m : Nat) : Encoder :=
  let ready := { e with scalar := m, delta := e.delta + (m - e.scalar) * (e.handled + 1) }
  let passed := scalars.foldl (pass first) ready
  { passed with scalar := m + 1, delta := passed.delta + 1 }

end Encoder

/-- Inserts a number into an ascending list, unless it is there. -/
def insertDistinct (c : Nat) : List Nat → List Nat
  | [] => [c]
  | m :: ms => if c < m then c :: m :: ms else if c = m then m :: ms else m :: insertDistinct c ms

/-- The scalars that numerals are written for, in ascending order. -/
def extended (scalars : List Nat) : List Nat :=
  (scalars.filter fun c => initialScalar ≤ c).foldr insertDistinct []

/-- The scalars that are written as they are. -/
def literals (scalars : List Nat) : List Nat := scalars.filter fun c => c < initialScalar

/-- The encoded form of scalars that can all be encoded. -/
def encodeScalars (scalars : List Nat) : Text :=
  let basic := literals scalars
  let start : Encoder :=
    { scalar := initialScalar, delta := 0, bias := initialBias, handled := basic.length
      output := basic.map CodePoint.ofNat ++ (if basic.isEmpty then [] else [delimiter]) }
  ((extended scalars).foldl (Encoder.advance scalars basic.length) start).output

/-- The encoded form of an identifier, if all of its scalars can be encoded. -/
def encode (identifier : List Nat) : Option Text :=
  let scalars := identifier.map displace
  if scalars.all isEncodable then some (encodeScalars scalars) else none

/-! ### Decoding -/

/-- How far the decoder has come. -/
structure Decoder where
  scalar : Nat
  /-- The position of the next insertion, as far as the numeral has been read. -/
  position : Nat
  bias : Nat
  output : List Nat
  /-- The position at which the numeral began. -/
  start : Nat
  /-- What a digit at this place of the numeral counts. -/
  weight : Nat
  /-- The place in the numeral, in steps of `base`. The first one is `base`. -/
  place : Nat

namespace Decoder

/-- The decoder before the first numeral. -/
def begin (literals : List Nat) : Decoder :=
  { scalar := initialScalar, position := 0, bias := initialBias, output := literals
    start := 0, weight := 1, place := base }

/-- Inserts a scalar after a complete numeral. -/
def insert (d : Decoder) : Decoder :=
  let count := d.output.length + 1
  let scalar := d.scalar + d.position / count
  let position := d.position % count
  { scalar
    position := position + 1
    bias := adapt (d.position - d.start) count (d.start = 0)
    output := d.output.insertIdx position scalar
    start := position + 1, weight := 1, place := base }

/-- Reads one digit. -/
def feed (d : Decoder) (c : CodePoint) : Option Decoder := do
  let value ← digitValue? c
  let read := { d with position := d.position + value * d.weight }
  let t := threshold d.place d.bias
  if value < t then some read.insert
  else some { read with weight := d.weight * (base - t), place := d.place + base }

end Decoder

/-- The text before the last delimiter, and the text after it. -/
def splitAtDelimiter (t : Text) : Text × Text :=
  let reversed := t.reverse
  let isTail := fun c => c ≠ delimiter
  (((reversed.dropWhile isTail).drop 1).reverse, (reversed.takeWhile isTail).reverse)

/-- The scalars of the identifier that a text encodes, if it encodes one. -/
def decode (t : Text) : Option (List Nat) := do
  let (basic, numerals) := splitAtDelimiter t
  if basic.any fun c => 0x7f < c.toNat then none
  let d ← numerals.foldlM Decoder.feed (Decoder.begin (basic.map CodePoint.toNat))
  if d.place ≠ base then none
  let scalars := d.output.map restore
  if scalars.all fun c => c ≤ 0x10FFFF then some scalars else none

end SwiftABI.Punycode
