/-
  Writing entities and the global symbols about them.

  Most kinds are written as their children and some letters at the end. This module has the tables
  of those letters, and the kinds whose children come in another order.
-/
import SwiftABI.Symbol.Writing.Name
import SwiftABI.Symbol.Writing.Type

namespace SwiftABI

namespace Code

/-- The letters of kinds that are written as their children and these letters. -/
def suffix? : Kind → Option String
  | .allocator => some "fC"
  | .constructorDecl => some "fc"
  | .deallocator => some "fD"
  | .destructor => some "fd"
  | .initializer => some "fi"
  | .ivarInitializer => some "fe"
  | .ivarDestroyer => some "fE"
  | .genericTypeParamDecl => some "fp"
  | .variableDecl => some "vp"
  | .subscriptDecl => some "ip"
  | .staticDecl => some "Z"
  | .inOut => some "z"
  | .shared => some "h"
  | .owned => some "n"
  | .weak => some "Xw"
  | .unowned => some "Xo"
  | .unmanaged => some "Xu"
  | .dynamicSelf => some "XD"
  | .sugaredOptional => some "XSq"
  | .sugaredArray => some "XSa"
  | .sugaredDictionary => some "XSD"
  | .sugaredParen => some "XSp"
  | .typeMangling => some "D"
  | .typeMetadata => some "N"
  | .typeMetadataAccessFunction => some "Ma"
  | .fullTypeMetadata => some "Mf"
  | .nominalTypeDescriptor => some "Mn"
  | .metaclass => some "Mm"
  | .valueWitnessTable => some "WV"
  | .enumCase => some "WC"
  | .throwsMarker => some "K"
  | .emptyList => some "y"
  | .firstElementMarker => some "_"
  | .variadicMarker => some "d"
  | .errorType => some "Xe"
  | _ => none

/-- The letters at the end of an accessor, after the one for what it gives access to. -/
def accessorSuffix? (k : Kind) : Option Text :=
  match encode? accessors k, encode? addressors k, encode? mutableAddressors k with
  | some c, _, _ => some [c]
  | none, some c, _ => some ['l', c]
  | none, none, some c => some ['a', c]
  | none, none, none => none

end Code

namespace Writing

variable (sub : Node → Writing Unit)

/-- Writes a function: the parts of its type stand in the place of the type. -/
def function (n : Node) : Writing Unit := do
  sub (← child n 0)
  sub (← child n 1)
  let third ← child n 2
  let hasLabels := third.kind = .labelList
  if hasLabels then sub third
  let type := (← if hasLabels then child n 3 else pure third).unwrapped
  if type.kind ≠ .functionType then refuse n (.notFunctionType type.kind)
  each sub type.children.reverse
  emit ['F']

/-- Writes a closure, which ends with its number. -/
def closure (letters : String) (n : Node) : Writing Unit := do
  sub (← child n 0)
  sub (← child n 2)
  emit letters.text
  sub (← child n 1)

/-- Writes the default value of an argument, which ends with its number. -/
def defaultArgument (n : Node) : Writing Unit := do
  sub (← child n 0)
  emit ['f', 'A']
  sub (← child n 1)

/-- Writes an accessor after the parts of what it gives access to. -/
def accessor (suffix : Text) (n : Node) : Writing Unit := do
  let storage ← child n 0
  let letter ←
    match storage.kind with
    | .variableDecl => pure 'v'
    | .subscriptDecl => pure 'i'
    | k => refuse n (.accessorOf k)
  each sub storage.children
  emit (letter :: suffix)

/-- Writes which value witness of a type is meant. -/
def valueWitness (n : Node) : Writing Unit := do
  sub (← child n 0)
  match Code.valueWitness? (← lift (Fault.inTree n.index)) with
  | some (code, _) => emit ('w' :: code)
  | none => throw (.tree .unknownWitness)

/-- Writes the offset of a field, and whether it is direct. -/
def fieldOffset (n : Node) : Writing Unit := do
  sub (← child n 1)
  let directness ← lift (Fault.inTree (← child n 0).index)
  emit (if directness = 0 then "Wvd" else "Wvi")

end Writing

end SwiftABI
