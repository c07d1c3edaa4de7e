/-
  Reading references to what has a name already: entries of the substitution table, and types of the
  standard library.

  A reference can be repeated, with the count in front of its letter, and references to the table
  can follow each other under one sign. All but the last are pushed by the way.
-/
import SwiftABI.Symbol.Code
import SwiftABI.Symbol.Machine
import SwiftABI.Symbol.Standard

namespace SwiftABI.Reading

/-- A count as the limit and the numbers of entries see it, where `-1` stands for no count. -/
def countOr (count : Option Nat) : Int :=
  match count with
  | some n => n
  | none => -1

/-- The node with a number, after all but one of its copies have been pushed. -/
def repeated (cfg : Config) (count : Option Nat) (i : Nat) : Reading Node := do
  let n ← resolve i
  check (countOr count ≤ cfg.maxRepeatCount) .repeatCount
  pushCopies (count.getD 0 - 1) n
  return n

/-- Reads references up to the last one under the same sign. A lower-case letter is followed by
another reference, an upper-case letter is the last one, and so is the number of an entry that has
no letter. `count` is a numeral that has been read. -/
def references (cfg : Config) : Nat → Option Nat → Reading Node
  | 0, _ => fail .endOfInput
  | fuel + 1, count => do
    match ← peek? with
    | none => fail .endOfInput
    | some c =>
      if Text.isLower c then
        advance 1
        push (← repeated cfg count (Text.lowerIndex c))
        references cfg fuel none
      else if Text.isUpper c then
        advance 1
        repeated cfg count (Text.upperIndex c)
      else if c = '_' then
        advance 1
        resolve (countOr count + 27)
      else
        match ← natural? with
        | some n => references cfg fuel (some n)
        | none => fail .badSubstitution

/-- Reads the references that follow the sign of the table. -/
def tableReference (cfg : Config) : Reading Node := do
  references cfg ((← get).rest.length + 1) none

/-- The type on the stack as an optional, which is registered. -/
def optional : Reading Node := do
  let arguments ← node .typeList [← popType]
  let t ← type .boundGenericEnum [Standard.optionalType, arguments]
  register t
  return t

/-- Reads what follows the sign of the standard library. -/
def standardReference (cfg : Config) : Reading Node := do
  match ← peek? with
  | none => fail .endOfInput
  | some 'o' => do advance 1; build .moduleName (.text Code.objcModule) []
  | some 'C' => do advance 1; build .moduleName (.text Code.importerModule) []
  | some 'g' => do advance 1; optional
  | some _ =>
    let count ← natural?
    check (count.all fun count => (count : Int) ≤ cfg.maxRepeatCount) .repeatCount
    let t ← require (Standard.type? (← next)) .unknownStandard
    pushCopies (count.getD 0 - 1) t
    return t

end SwiftABI.Reading
