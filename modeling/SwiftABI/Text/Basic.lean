/-
  `Text` — names and symbols as sequences of code points, and the numerals written in them.

  Every offset, length and index of the library counts code points, so a name is a list of them.
  Numerals are decimal, with a minus sign where one is needed; addresses are hexadecimal with the
  marker `0x` after the sign. Decimal numerals that are shown to somebody have a greatest length.
-/
import SwiftABI.Bits
import SwiftABI.Text.CodePoint

namespace SwiftABI

namespace Text

/-- The decimal digits of a natural number. -/
def digits (n : Nat) : Text := (Nat.toDigits 10 n).map .char

/-- The number that a run of decimal digits spells. -/
def number (ds : Text) : Nat := ds.foldl (fun n d => 10 * n + (d.toNat - '0'.toNat)) 0

/-- An integer in decimal. Messages and lines of the log that show integers say what is shown of
those that can be shown (`isShowable`). Where it matters that longer ones cannot, it is asked before
(`decimal?`). -/
def decimal : Int → Text
  | .ofNat n => digits n
  | .negSucc n => '-' :: digits (n + 1)

/-- The digits that a decimal numeral may have that is shown. -/
def maxDigits : Nat := 4300

/-- Can an integer be shown in decimal? The bound is too large a number to be looked at in
passing. -/
@[irreducible]
def isShowable (n : Int) : Bool := n.natAbs < 10 ^ maxDigits

/-- An integer in decimal, if it can be shown. -/
def decimal? (n : Int) : Option Text := if isShowable n then some (decimal n) else none

/-- The digits of an integer in hexadecimal, as addresses are shown. There may be any number of
them. -/
def hex : Int → Text
  | .ofNat n => '0' :: 'x' :: (Nat.toDigits 16 n).map .char
  | .negSucc n => '-' :: '0' :: 'x' :: (Nat.toDigits 16 (n + 1)).map .char

/-- An ASCII digit, the only kind a numeral of a symbol is made of. -/
def isDigit (c : CodePoint) : Bool := '0' ≤ c && c ≤ '9'

def isLower (c : CodePoint) : Bool := 'a' ≤ c && c ≤ 'z'

def isUpper (c : CodePoint) : Bool := 'A' ≤ c && c ≤ 'Z'

/-- A character that may stand in a symbol. -/
def isSymbolChar (c : CodePoint) : Bool :=
  isLower c || isUpper c || isDigit c || c = '_' || c = '$'

/-- The letter with a given position in the alphabet, in lower case. -/
def lowerLetter (i : Nat) : CodePoint := CodePoint.ofNat ('a'.toNat + i)

/-- The letter with a given position in the alphabet, in upper case. -/
def upperLetter (i : Nat) : CodePoint := CodePoint.ofNat ('A'.toNat + i)

/-- The position of a lower-case letter in the alphabet. -/
def lowerIndex (c : CodePoint) : Nat := c.toNat - 'a'.toNat

/-- The position of an upper-case letter in the alphabet. -/
def upperIndex (c : CodePoint) : Nat := c.toNat - 'A'.toNat

def lineBreak : CodePoint := '\n'

/-- A text of nothing but blanks. -/
def blanks (count : Nat) : Text := List.replicate count ' '

/-- Splits off the longest run of decimal digits in front. -/
def spanDigits : Text → Text × Text
  | [] => ([], [])
  | c :: cs => if isDigit c then (c :: (spanDigits cs).1, (spanDigits cs).2) else ([], c :: cs)

/-- What is left of `t` after `p`, if it begins with `p`. -/
def dropPrefix? : Text → Text → Option Text
  | [], t => some t
  | _ :: _, [] => none
  | p :: ps, c :: cs => if p = c then dropPrefix? ps cs else none

def startsWith (p t : Text) : Bool := (dropPrefix? p t).isSome

/-- The pieces before and after the first `c`, and the second piece is empty if there is none. -/
def cut (c : CodePoint) : Text → Text × Text
  | [] => ([], [])
  | x :: xs => if x = c then ([], xs) else (x :: (cut c xs).1, (cut c xs).2)

end Text

end SwiftABI
