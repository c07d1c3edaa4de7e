/-
  The state in which a symbol is written.

  A symbol grows at its end only. Beside it stand the words and the substitution table, which grow
  at the same points as they do when the symbol is read, so that references have the same numbers.
  What has been written stays written if the work fails later.
-/
import SwiftABI.Symbol.Code
import SwiftABI.Symbol.Identifier
import SwiftABI.Symbol.Merging
import SwiftABI.Symbol.Standard
import SwiftABI.Symbol.Substitution

namespace SwiftABI

/-- A symbol that is being written. -/
structure SymbolBuilder where
  symbol : Text := []
  words : List Text := []
  table : SubstitutionTable := {}
  merging : Merging := {}

/-- A step of writing. -/
abbrev Writing (α : Type) := ExceptT Fault (StateM SymbolBuilder) α

namespace Writing

/-- Writes some characters. -/
def emit (t : Text) : Writing Unit := modify fun d => { d with symbol := d.symbol ++ t }

/-- Gives up on a node. -/
def refuse {α : Type} (n : Node) (r : Refusal) : Writing α := throw (.refused ⟨n.kind, r⟩)

/-- A result that may be a fault. -/
def lift {α : Type} : Except Fault α → Writing α
  | .ok a => pure a
  | .error f => throw f

/-- The child at a position, which has to be there. -/
def child (n : Node) (i : Nat) : Writing Node := lift (n.child i)

/-- Writes the nodes of a list, from first to last. -/
def each (sub : Node → Writing Unit) : List Node → Writing Unit
  | [] => pure ()
  | n :: ns => do
    sub n
    each sub ns

/-! ### Substitutions -/

/-- Writes a substitution, merged into the last one if it can be. -/
def substitute (cfg : Config) (letter : CodePoint) (sign : SubstitutionSign) : Writing Unit :=
  modify fun d =>
    let (symbol, merging) := d.merging.write cfg d.symbol [letter] sign
    { d with symbol, merging }

/-- Writes a node by the letter it has in the standard library, if it has one. -/
def tryStandard (cfg : Config) (n : Node) : Writing Bool := do
  match Standard.code? n with
  | some letter => do
    substitute cfg letter .standard
    return true
  | none => return false

/-- Writes a reference to a node, if there is something to refer to. -/
def tryReference (cfg : Config) (n : Node) (byName : Bool) : Writing Bool := do
  if ← tryStandard cfg n then return true
  match ← lift (Fault.inTree ((← get).table.lookup n byName)) with
  | none => return false
  | some i =>
    if i < 26 then substitute cfg (Text.upperLetter i) .table
    else emit ('A' :: Code.index (i - 26 : Nat))
    return true

/-- Registers a node, as the reader of the symbol is going to do here. -/
def register (n : Node) (byName : Bool) : Writing Unit := do
  let table ← lift (Fault.inTree ((← get).table.register n byName))
  modify fun d => { d with table }

/-- Writes a reference to a node if it can, and otherwise the node itself, which is registered. -/
def referenceOr (cfg : Config) (n : Node) (byName : Bool) (write : Writing Unit) :
    Writing Unit := do
  if ← tryReference cfg n byName then return
  write
  register n byName

end Writing

end SwiftABI
