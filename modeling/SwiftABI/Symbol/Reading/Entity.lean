/-
  Reading entities and the global symbols about them.

  A declaration has a context, a name, the labels of its parameters if it has some, and a type. The
  letters after the operator say what part of it the symbol is about.
-/
import SwiftABI.Symbol.Reading.Type

namespace SwiftABI.Reading

/-- Pops a declaration that has a name and a type. -/
def entity (k : Kind) : Reading Node := do
  let t ← popType
  let labels ← popLabelList? t
  let name ← popDeclName
  let context ← popContext
  node k ([context, name] ++ labels.toList ++ [t])

/-- Pops a function, whose type lies on the stack in parts. -/
def function : Reading Node := do
  let t ← popFunctionType .functionType
  let labels ← popLabelList? t
  let name ← popDeclName
  let context ← popContext
  node .functionDecl ([context, name] ++ labels.toList ++ [t])

/-- Pops an extension: the module that it is in, and the type that it extends. -/
def extension : Reading Node := do
  let m ← require (← popModule?) .expectedModule
  node .extensionDecl [m, ← popNominal]

/-- Pops the children of a declaration without a name, apart from its context. -/
def unnamedChildren (k : Kind) : Reading (List Node) := do
  match k with
  | .allocator | .constructorDecl =>
    let privateName := (← pop? .privateDeclName).toList
    let t ← popType
    let labels ← popLabelList? t
    return labels.toList ++ [t] ++ privateName
  | .explicitClosure | .implicitClosure =>
    let number ← indexNode .number (← index)
    return [number, ← popType]
  | .defaultArgumentInitializer => return [← indexNode .number (← index)]
  | _ => return []

/-- Reads what kind of declaration without a name follows, and pops it. -/
def functionEntity : Reading Node := do
  let c ← next
  if c = 'p' then entity .genericTypeParamDecl
  else
    let k ← require (Code.decode? Code.functionEntities c) (.unsupportedFunctionEntity c)
    let children ← unnamedChildren k
    node k ((← popContext) :: children)

/-- Reads which accessor of a storage declaration is meant, if it is not the declaration itself. -/
def accessor (storage : Node) : Reading Node := do
  let c ← next
  if c = 'p' then return storage
  match Code.decode? Code.accessors c with
  | some k => node k [storage]
  | none =>
    if c = 'a' then
      let k ← require (Code.decode? Code.mutableAddressors (← next)) .badAddressor
      node k [storage]
    else if c = 'l' then
      let k ← require (Code.decode? Code.addressors (← next)) .badAddressor
      node k [storage]
    else fail (.unsupportedAccessor c)

def variableEntity : Reading Node := do accessor (← entity .variableDecl)

/-- Pops a subscript, which always has labels. -/
def subscriptEntity : Reading Node := do
  let privateName := (← pop? .privateDeclName).toList
  let t ← popType
  let labels ← require (← popLabelList? t) .expectedSubscriptLabels
  let context ← popContext
  accessor (← node .subscriptDecl ([context, labels, t] ++ privateName))

/-! ### Global symbols -/

/-- Pops a type together with the labels that go with it. -/
def typeMangling : Reading Node := do
  let t ← popType
  let labels ← popLabelList? t
  node .typeMangling (labels.toList ++ [t])

/-- Reads which metadata of a type is meant. -/
def metadata : Reading Node := do
  let c ← next
  match Code.decode? Code.metadata c with
  | some k => node k [← popType]
  | none =>
    if c = 'p' then node .protocolDescriptor [← popProtocol] else fail (.unsupportedMetadata c)

/-- Reads what is said about an enum case, a value witness table or a field. -/
def witness : Reading Node := do
  match ← next with
  | 'C' => node .enumCase [← popEntity]
  | 'V' => node .valueWitnessTable [← popType]
  | 'v' =>
    let d ← next
    check (d = 'd' || d = 'i') .fieldDirectness
    let directness ← indexNode .directness (if d = 'd' then 0 else 1)
    node .fieldOffset [directness, ← popEntity]
  | c => fail (.unsupportedWitness c)

/-- Reads which value witness of a type is meant. -/
def valueWitness : Reading Node := do
  let c ← next
  let d ← next
  let i ← require (Code.valueWitnessIndex? [c, d]) (.unknownValueWitness [c, d])
  build .valueWitness (.index i) [← popType]

/-- Takes the rest of the text as it is. -/
def suffix : Reading Node := do
  let rest := (← get).rest
  advance rest.length
  build .suffix (.text ('.' :: rest)) []

end SwiftABI.Reading
