/-
  The shape of a node: its payload and its children, as its kind demands them.

  A kind says what payload its nodes carry, how many children they have, and, slot by slot, of which
  kinds the children are. `firstMisplaced` runs down the slots and answers with the position of the
  first child that fits none of them.
-/
import SwiftABI.Kind.Group

namespace SwiftABI

/-- What a node carries besides its children. -/
inductive PayloadShape where
  | none | text | index
  deriving DecidableEq

/-- One position in the children of a node. -/
structure Slot where
  /-- The kinds that fit, or every kind. -/
  accepted : Option (List Kind)
  /-- The slot may stay empty. -/
  optional : Bool := false
  /-- The slot takes every child that fits, up to the first that does not. -/
  repeated : Bool := false

namespace Slot

def accepts (s : Slot) (k : Kind) : Bool :=
  match s.accepted with
  | none => true
  | some ks => k ∈ ks

/-- A slot for exactly one child of one of the kinds. -/
def one (ks : List Kind) : Slot := { accepted := some ks }

/-- A slot for at most one child of one of the kinds. -/
def optionally (ks : List Kind) : Slot := { accepted := some ks, optional := true }

/-- A slot for any number of children of the kinds. -/
def many (ks : List Kind) : Slot := { accepted := some ks, repeated := true }

/-- The position of the first child that the slots do not accept. If a slot that must be filled
finds no child left, that is the position after the last. -/
def firstMisplaced : List Slot → Nat → List Kind → Option Nat
  | [], _, [] => none
  | [], i, _ :: _ => some i
  | s :: slots, i, ks =>
    if s.repeated then
      firstMisplaced slots (i + (ks.takeWhile s.accepts).length) (ks.dropWhile s.accepts)
    else
      match ks with
      | k :: rest =>
        if s.accepts k then firstMisplaced slots (i + 1) rest
        else if s.optional then firstMisplaced slots i (k :: rest)
        else some i
      | [] => if s.optional then firstMisplaced slots i [] else some i

end Slot

namespace Kind

/-! ### Payload and number of children -/

def payloadShape : Kind → PayloadShape
  | .suffix | .moduleName | .identifier | .relatedEntityDeclName | .prefixOperator
  | .postfixOperator | .infixOperator | .tupleElementName | .metatypeRepresentation
  | .builtinTypeName => .text
  | .number | .index | .argumentTuple | .valueWitness | .directness => .index
  | _ => .none

/-- The least number of children. -/
def minChildren (k : Kind) : Nat :=
  if k ∈ nominals ∨ k ∈ boundGenerics ∨ k ∈ functionTypes then 2
  else if k ∈ accessors then 1
  else match k with
    | .functionDecl | .variableDecl | .explicitClosure | .implicitClosure
    | .genericTypeParamDecl => 3
    | .localDeclName | .extensionDecl | .subscriptDecl | .allocator | .constructorDecl
    | .defaultArgumentInitializer | .sugaredDictionary | .dependentGenericParamType
    | .fieldOffset => 2
    | .global | .type | .privateDeclName | .relatedEntityDeclName | .staticDecl | .destructor
    | .deallocator | .initializer | .ivarInitializer | .ivarDestroyer | .argumentTuple
    | .returnType | .tupleElement | .weak | .unowned | .unmanaged | .dynamicSelf | .inOut
    | .shared | .owned | .metatype | .existentialMetatype | .protocolList
    | .protocolListWithAnyObject | .sugaredOptional | .sugaredArray | .sugaredParen
    | .typeMangling | .typeMetadata | .typeMetadataAccessFunction | .fullTypeMetadata
    | .nominalTypeDescriptor | .metaclass | .protocolDescriptor | .valueWitnessTable
    | .valueWitness | .enumCase => 1
    | _ => 0

/-- The greatest number of children, if there is one. -/
def maxChildren (k : Kind) : Option Nat :=
  if k ∈ functionTypes then some 3
  else match k with
    | .global | .typeList | .tuple | .labelList => none
    | .functionDecl | .variableDecl | .subscriptDecl | .allocator | .constructorDecl
    | .genericTypeParamDecl => some 4
    | .tupleElement => some 3
    | .privateDeclName | .metatype | .existentialMetatype | .typeMangling => some 2
    | _ => some k.minChildren

/-! ### Slots -/

private def typeSlot : Slot := .one [.type]
private def contextSlot : Slot := .one contextChildren
private def nameSlot : Slot := .one (all.filter isDeclName)
private def entitySlot : Slot := .one (all.filter isEntity)
private def numberSlot : Slot := .one [.number]
private def labelsSlot : Slot := .optionally [.labelList]

private def entitySlots : List Slot := [contextSlot, nameSlot, labelsSlot, typeSlot]

private def initializerSlots : List Slot :=
  [contextSlot, labelsSlot, typeSlot, .optionally [.privateDeclName]]

/-- The slots of a kind. A kind without slots leaves its children free. -/
def slots (k : Kind) : Option (List Slot) :=
  if k ∈ nominals then some [contextSlot, nameSlot]
  else if k ∈ boundNominals then some [typeSlot, .one [.typeList]]
  else if k ∈ accessors then some [.one [.variableDecl, .subscriptDecl]]
  else if k ∈ functionTypes then
    some [.optionally [.throwsMarker], .one [.argumentTuple], .one [.returnType]]
  else match k with
    | .global => some [{ accepted := none, repeated := true }]
    | .type | .inOut | .shared | .owned => some [.one types]
    | .localDeclName => some [numberSlot, nameSlot]
    | .privateDeclName => some [.one [.identifier], .optionally (all.filter isDeclName)]
    | .relatedEntityDeclName => some [nameSlot]
    | .extensionDecl => some [.one [.moduleName], .one (nominals ++ boundGenerics)]
    | .boundGenericFunction => some [.one [.functionDecl, .constructorDecl], .one [.typeList]]
    | .functionDecl | .variableDecl | .genericTypeParamDecl => some entitySlots
    | .subscriptDecl | .allocator | .constructorDecl => some initializerSlots
    | .staticDecl | .enumCase => some [entitySlot]
    | .destructor | .deallocator | .initializer | .ivarInitializer | .ivarDestroyer =>
      some [contextSlot]
    | .explicitClosure | .implicitClosure => some [contextSlot, numberSlot, typeSlot]
    | .defaultArgumentInitializer => some [contextSlot, numberSlot]
    | .argumentTuple | .returnType | .weak | .unowned | .unmanaged | .dynamicSelf
    | .sugaredOptional | .sugaredArray | .sugaredParen | .typeMetadata
    | .typeMetadataAccessFunction | .fullTypeMetadata | .nominalTypeDescriptor | .metaclass
    | .protocolDescriptor | .valueWitnessTable | .valueWitness => some [typeSlot]
    | .typeList => some [.many [.type]]
    | .tuple => some [.many [.tupleElement]]
    | .tupleElement =>
      some [.optionally [.variadicMarker], .optionally [.tupleElementName], typeSlot]
    | .labelList => some [.many [.identifier, .firstElementMarker]]
    | .metatype | .existentialMetatype => some [.optionally [.metatypeRepresentation], typeSlot]
    | .protocolList => some [.one [.typeList]]
    | .protocolListWithAnyObject => some [.one [.protocolList]]
    | .sugaredDictionary => some [typeSlot, typeSlot]
    | .dependentGenericParamType => some [.one [.index], .one [.index]]
    | .typeMangling => some [labelsSlot, typeSlot]
    | .fieldOffset => some [.one [.directness], entitySlot]
    | _ => none

end Kind

end SwiftABI
