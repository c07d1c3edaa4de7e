/-
  Operator names, whose characters a symbol spells with letters.

  Each ASCII character that an operator can be made of has a lower-case letter, and all other
  characters stand for themselves.
-/
import SwiftABI.Text.Basic

namespace SwiftABI.Operator

/-- The letters and the operator characters that they stand for. -/
def letters : List (CodePoint × CodePoint) :=
  [('a', '&'), ('c', '@'), ('d', '/'), ('e', '='), ('g', '>'), ('l', '<'), ('m', '*'), ('n', '!'),
   ('o', '|'), ('p', '+'), ('q', '?'), ('r', '%'), ('s', '-'), ('t', '~'), ('x', '^'), ('z', '.')]

/-- The operator character that a letter stands for. Letters beyond ASCII stand for themselves, and
the ones that are not in the table for nothing. -/
def char? (letter : CodePoint) : Option CodePoint :=
  if 0x80 ≤ letter.toNat then some letter else letters.lookup letter

/-- The letter that stands for a character, which is itself unless it is an operator character. -/
def letter (c : CodePoint) : CodePoint :=
  match letters.find? fun entry => entry.2 = c with
  | some entry => entry.1
  | none => c

/-- An operator name as a symbol spells it. -/
def translate (name : Text) : Text := name.map letter

end SwiftABI.Operator
