/-
  Merging of substitutions that follow each other.

  A substitution is a sign and a letter. Where one directly follows another of the same sign, they
  share the sign: equal letters become one with a count before it, `AB` and `AB` the text `A2B`, and
  of different ones all but the last are written in lower case, `AB` and `AC` the text `AbC`. The
  letters of standard types mean different things in either case, so only equal ones are merged.

  Nothing here asks what the letter is: any text will do, and one that is no single character is
  never equal to the last one.
-/
import SwiftABI.Config
import SwiftABI.Text.Lowercase

namespace SwiftABI

/-- The two signs that a substitution can have. -/
inductive SubstitutionSign where
  | table
  | standard
  deriving DecidableEq

def SubstitutionSign.char : SubstitutionSign → CodePoint
  | .table => 'A'
  | .standard => 'S'

/-- Where the last substitution stands in the symbol. -/
structure Merging where
  position : Nat := 0
  size : Nat := 0
  /-- How often the last letter is repeated. With no repetition, nothing is merged. -/
  count : Nat := 0
  sign : SubstitutionSign := .table

namespace Merging

/-- Forgets the last substitution. -/
def clear (m : Merging) : Merging := { m with count := 0 }

/-- Can a substitution be merged with the last one? The symbol must end with that. -/
def isOpen (cfg : Config) (m : Merging) (symbol : Text) (sign : SubstitutionSign) : Bool :=
  0 < m.count && decide ((m.count : Int) < cfg.maxRepeatCount)
    && symbol.length = m.position + m.size && m.sign = sign

/-- The state after a substitution that is going to be written out. -/
def restart (symbol : Text) (sign : SubstitutionSign) : Merging :=
  { position := symbol.length + 1, size := 1, count := 1, sign }

/-- Tries to merge a substitution into the end of a symbol, and answers with the symbol if it
can. -/
def merge (cfg : Config) (m : Merging) (symbol letter : Text) (sign : SubstitutionSign) :
    Option Text × Merging :=
  if m.isOpen cfg symbol sign then
    match symbol.getLast? with
    | none => (none, restart symbol sign)
    | some last =>
      if [last] = letter then
        let merged := symbol.take m.position ++ Text.digits (m.count + 1) ++ letter
        (some merged, { m with count := m.count + 1, size := merged.length - m.position })
      else if sign = .standard then (none, restart symbol sign)
      else
        (some (symbol.dropLast ++ Text.lower last ++ letter),
         { m with position := symbol.length, count := 1, size := 1 })
  else (none, restart symbol sign)

/-- Writes a substitution at the end of a symbol, merged if it can be. -/
def write (cfg : Config) (m : Merging) (symbol letter : Text) (sign : SubstitutionSign) :
    Text × Merging :=
  match m.merge cfg symbol letter sign with
  | (some merged, m) => (merged, m)
  | (none, m) => (symbol ++ sign.char :: letter, m)

end Merging

end SwiftABI
