/-
  Quoted text, as messages and renderings show a name.

  A text stands between apostrophes, or between double quotes if it holds an apostrophe and no
  double quote. The delimiter in use and the backslash get a backslash, three blanks have letters of
  their own, and what cannot be printed is given by its number in two, four or eight hexadecimal
  digits, the fewest that hold it.
-/
import SwiftABI.Text.Printable

namespace SwiftABI.Text

def apostrophe : CodePoint := '\x27'

def doubleQuote : CodePoint := '\x22'

def backslash : CodePoint := '\x5c'

/-- The delimiter that a text is quoted with. -/
def delimiter (t : Text) : CodePoint :=
  if apostrophe ∈ t ∧ doubleQuote ∉ t then doubleQuote else apostrophe

/-- The last `width` hexadecimal digits of a number, leading zeros included. -/
def hexPadded : Nat → Nat → Text
  | 0, _ => []
  | width + 1, n => hexPadded width (n / 16) ++ [.char (Nat.digitChar (n % 16))]

/-- An unprintable character by its number. -/
def escapeNumber (c : CodePoint) : Text :=
  if c.toNat < 0x100 then backslash :: 'x' :: hexPadded 2 c.toNat
  else if c.toNat < 0x10000 then backslash :: 'u' :: hexPadded 4 c.toNat
  else backslash :: 'U' :: hexPadded 8 c.toNat

/-- One character of a text quoted with `quote`. -/
def escape (quote c : CodePoint) : Text :=
  if c = quote ∨ c = backslash then [backslash, c]
  else if c = '\n' then [backslash, 'n']
  else if c = '\r' then [backslash, 'r']
  else if c = '\t' then [backslash, 't']
  else if isPrintable c then [c]
  else escapeNumber c

/-- A text between delimiters. -/
def quoted (t : Text) : Text :=
  delimiter t :: t.flatMap (escape (delimiter t)) ++ [delimiter t]

/-- A single character between delimiters. -/
def quotedChar (c : CodePoint) : Text := quoted [c]

end SwiftABI.Text
