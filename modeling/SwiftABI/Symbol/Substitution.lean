/-
  The substitution table: what a symbol has named so far and may refer back to by number.

  An entry is registered under a key. That is the tree itself, or, where names are looked up as
  such, the text of a name with operators spelled out, so that a module and an identifier of one
  name are the same. The nodes stand in a list, by their numbers, and beside it each key has the
  first number that it was registered under.
-/
import SwiftABI.Node.Refusal
import SwiftABI.Symbol.Operator

namespace SwiftABI

/-- What an entry of the substitution table is looked up by. -/
inductive SubstitutionKey where
  | name (t : Text)
  | tree (n : Node)
  deriving DecidableEq

/-- A reference to an entry that the table does not have. -/
structure UnknownSubstitution where
  index : Int
  count : Nat

def UnknownSubstitution.message (u : UnknownSubstitution) : Text :=
  s!"Substitution index {u.index} out of range ({u.count} registered)"

/-- Can the message be written? It shows two numbers. -/
def UnknownSubstitution.isShowable (u : UnknownSubstitution) : Bool :=
  Text.isShowable u.index && Text.isShowable u.count

namespace SubstitutionKey

/-- The key of a node, by its name if `byName` is set. Only a node that is a name has one then. -/
def ofNode (n : Node) (byName : Bool) : Except ShapeMismatch SubstitutionKey :=
  if byName then
    if n.kind ∈ Kind.identifierLike then do
      let t ← n.text
      return .name (if n.kind ∈ Kind.operators then Operator.translate t else t)
    else .error (ShapeFault.notIdentifierLike.inKind n.kind)
  else .ok (.tree n)

end SubstitutionKey

/-- The nodes that have been registered, and where to find them. -/
structure SubstitutionTable where
  /-- The nodes in the order of their numbers. -/
  nodes : List Node := []
  /-- Every key and the first number that it was registered under. -/
  firstNumbers : List (SubstitutionKey × Nat) := []

namespace SubstitutionTable

def length (t : SubstitutionTable) : Nat := t.nodes.length

/-- The table with nothing in it. -/
def reset (t : SubstitutionTable) : SubstitutionTable := { t with nodes := [], firstNumbers := [] }

/-- The node with a number. -/
def node? (t : SubstitutionTable) (index : Int) : Except UnknownSubstitution Node :=
  if index < 0 then .error ⟨index, t.length⟩
  else
    match t.nodes[index.toNat]? with
    | some n => .ok n
    | none => .error ⟨index, t.length⟩

/-- The least number of a key. -/
def find? (t : SubstitutionTable) (key : SubstitutionKey) : Option Nat := t.firstNumbers.lookup key

/-- Adds a node at the end. -/
def push (t : SubstitutionTable) (n : Node) :
    SubstitutionTable := { t with nodes := t.nodes ++ [n] }

/-- Gives a number to a key, unless it has one. -/
def setFirst (t : SubstitutionTable) (key : SubstitutionKey) (number : Nat) : SubstitutionTable :=
  if (t.find? key).isSome then t
  else { t with firstNumbers := t.firstNumbers ++ [(key, number)] }

/-- Adds a node under a key. -/
def insert (t : SubstitutionTable) (n : Node) (key : SubstitutionKey) : SubstitutionTable :=
  (t.push n).setFirst key t.length

/-- Work on the table. If it fails, what it has changed before stays changed. -/
abbrev Work (α : Type) := ExceptT ShapeMismatch (StateM SubstitutionTable) α

/-- Registers a node, which must be of a kind that can be referred back to, and answers with its
number. -/
def enter (n : Node) (byName : Bool) : Work Nat := do
  if !n.kind.isSubstitutable then throw (ShapeFault.notSubstitutable.inKind n.kind)
  let key ← MonadExcept.ofExcept (SubstitutionKey.ofNode n byName)
  let number := (← get).length
  modify fun t => t.push n
  modify fun t => t.setFirst key number
  return number

/-- The table after a node has been registered. -/
def register (t : SubstitutionTable) (n : Node) (byName : Bool) :
    Except ShapeMismatch SubstitutionTable :=
  match (enter n byName).run t with
  | (.ok _, t') => .ok t'
  | (.error e, _) => .error e

/-- The number that a node can be referred to by. -/
def lookup (t : SubstitutionTable) (n : Node) (byName : Bool) :
    Except ShapeMismatch (Option Nat) := do
  return t.find? (← SubstitutionKey.ofNode n byName)

end SubstitutionTable

end SwiftABI
