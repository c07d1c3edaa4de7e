/-
  Why a tree has no mangled form, or no description.

  A `TreeFault` is something that a tree lacks where its kinds promise it. An `Unmangleable` is the
  answer that is given for it: the kind of a node, and the reason why nothing can be written for it.
  While a tree is being worked on both can arise, as a `Fault`; in the end a fault of the tree is
  reported on its root.
-/
import SwiftABI.Node.Basic

namespace SwiftABI

/-- Something that a tree does not have. -/
inductive TreeFault where
  | missingChild
  | unknownWitness
  | unknownText (t : Text)
  | shape (e : ShapeMismatch)

namespace TreeFault

def message : TreeFault → Text
  | .missingChild => "tuple index out of range"
  | .unknownWitness => "list index out of range"
  | .unknownText t => Text.quoted t
  | .shape e => e.message

end TreeFault

/-- Why nothing can be written for a node. -/
inductive Refusal where
  -- in symbols
  | unsupportedKind
  | notNominal
  | notFunctionType (found : Kind)
  | accessorOf (found : Kind)
  | badVector (name : Text)
  | badVectorElement (name : Text)
  | unknownBuiltin (name : Text)
  -- in identifiers
  | emptyIdentifier
  | unencodable (name : Text)
  | startsWithDigit (name : Text)
  | notUnspecializable
  -- in descriptions
  | expectedArgumentTuple
  | labelCount
  | expectedTupleElement
  | badFunctionType
  | untypedEntity
  | untypedElement
  | notStorage
  | unprintableKind
  -- in both
  | malformedTree (fault : TreeFault)

namespace Refusal

def message : Refusal → Text
  | .unsupportedKind => "Unsupported node kind"
  | .notNominal => "Not a nominal type"
  | .notFunctionType found => "Expected a function type, got " ++ found.name
  | .accessorOf found => "Accessor of " ++ found.name
  | .badVector name => "Bad builtin vector " ++ Text.quoted name
  | .badVectorElement name => "Bad builtin vector element " ++ Text.quoted name
  | .unknownBuiltin name => "Unknown builtin type " ++ Text.quoted name
  | .emptyIdentifier => "Empty identifier"
  | .unencodable name =>
    "Identifier " ++ Text.quoted name ++ " cannot be punycode encoded"
  | .startsWithDigit name =>
    "Identifier " ++ Text.quoted name ++ " has a sub-string starting with a digit"
  | .notUnspecializable => "Node can't be unspecialized"
  | .expectedArgumentTuple => "Expected an argument tuple"
  | .labelCount => "Label count doesn't match the parameter count"
  | .expectedTupleElement => "Expected a tuple element"
  | .badFunctionType => "Bad function type"
  | .untypedEntity => "Entity has no type"
  | .untypedElement => "Tuple element has no type"
  | .notStorage => "Not an abstract storage node"
  | .unprintableKind => "Unprintable node kind"
  | .malformedTree fault => "Malformed node tree: " ++ fault.message

end Refusal

/-- A node for which nothing can be written, and why. -/
structure Unmangleable where
  kind : Kind
  reason : Refusal

def Unmangleable.message (e : Unmangleable) : Text := e.kind.name ++ ": " ++ e.reason.message

/-- What can go wrong while a tree is worked on. -/
inductive Fault where
  | refused (e : Unmangleable)
  | tree (f : TreeFault)

namespace Fault

/-- The answer for a fault, met while working on a tree whose root has the kind `root`. -/
def settle (root : Kind) : Fault → Unmangleable
  | .refused e => e
  | .tree f => ⟨root, .malformedTree f⟩

/-- A result, with the fault of shape that prevents it as a fault of the tree. -/
def inTree {α : Type} : Except ShapeMismatch α → Except Fault α
  | .ok a => .ok a
  | .error e => .error (.tree (.shape e))

end Fault

namespace Node

/-- The child at a position, which has to be there. -/
def child (n : Node) (i : Nat) : Except Fault Node :=
  match n.children[i]? with
  | some c => .ok c
  | none => .error (.tree .missingChild)

end Node

end SwiftABI
