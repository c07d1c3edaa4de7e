/-
  Writing types.

  A nominal type with generic arguments is written without them first, and then the arguments of all
  its contexts follow in lists, from the outermost to its own.
-/
import SwiftABI.Node.Specialization
import SwiftABI.Symbol.Writing.Basic
import SwiftABI.Text.Digit

namespace SwiftABI

namespace Code

/-- The letters at the end of a nominal type. -/
def nominalSuffix? (k : Kind) : Option Text :=
  if k = .otherNominalType then some ['X', 'Y'] else (encode? nominals k).map fun c => [c]

/-- The letters at the end of a function type. -/
def functionTypeSuffix (k : Kind) : Text :=
  match encode? functionTypes k with
  | some c => ['X', c]
  | none => ['c']

end Code

namespace Writing

section

variable (cfg : Config) (sub : Node → Writing Unit)

/-! ### Nominal types -/

/-- Writes a nominal type without generic arguments. -/
def plainNominal (suffix : Text) (n : Node) : Writing Unit :=
  referenceOr cfg n false do
    each sub n.children
    emit suffix

/-- Does a declaration of this kind begin a new list of generic arguments? -/
def separatesArguments (k : Kind) : Bool :=
  k ∈ ([.structType, .enumType, .classType, .typeAlias] : List Kind)

/-- Writes the generic arguments of a declaration and of the contexts above it, in lists that have
`separator` or the mark `_` in front, and answers with the separator for the next list. Entities
that are contexts have a list only if `full` is set. -/
def genericArguments : Nat → Node → CodePoint → Bool → Writing CodePoint
  | 0, _, separator, _ => return separator
  | fuel + 1, n, separator, full => do
    let k := n.kind
    if separatesArguments k then
      let full := full || k = .typeAlias
      let separator ← genericArguments fuel (← child n 0) separator full
      emit [separator]
      return '_'
    else if k ∈ Kind.declaredFirst then
      if !full then return separator
      let separator ← genericArguments fuel (← child n 0) separator full
      if k.consumesGenericArgs then
        emit [separator]
        return '_'
      else return separator
    else if k ∈ Kind.boundNominals then
      let full := full || k = .boundGenericTypeAlias
      let unbound ← child (← child n 0) 0
      let separator ← genericArguments fuel (← child unbound 0) separator full
      emit [separator]
      each sub (← child n 1).children
      return '_'
    else if k = .boundGenericFunction then
      let unbound ← child n 0
      let separator ← genericArguments fuel (← child unbound 0) separator true
      emit [separator]
      each sub (← child n 1).children
      return '_'
    else if k = .extensionDecl then genericArguments fuel (← child n 1) separator full
    else return separator

/-- Writes the generic arguments of a declaration after the declaration itself. -/
def applied (n : Node) : Writing Unit := do
  discard (genericArguments sub n.size n 'y' false)
  emit ['G']

/-- Writes a nominal type by its suffix. -/
def unappliedNominal (n : Node) : Writing Unit :=
  match Code.nominalSuffix? n.kind with
  | some suffix => plainNominal cfg sub suffix n
  | none => refuse n .notNominal

/-- Writes a nominal type, with the generic arguments of its contexts and its own. -/
def nominal (n : Node) : Writing Unit :=
  if n.isSpecialized then
    referenceOr cfg n false do
      unappliedNominal cfg sub (← lift n.unspecialized)
      applied sub n
  else unappliedNominal cfg sub n

/-- Writes an enum with generic arguments. An optional has a form of its own. -/
def boundGenericEnum (n : Node) : Writing Unit := do
  let isOptional := Standard.code? (← child n 0) = some 'q'
  match (← child n 1).children with
  | [argument] =>
    if isOptional then
      referenceOr cfg n false do
        sub argument
        emit ['S', 'g']
    else nominal cfg sub n
  | _ => nominal cfg sub n

/-- Writes a function with generic arguments. -/
def boundGenericFunction (n : Node) : Writing Unit :=
  referenceOr cfg n false do
    sub (← lift n.unspecialized)
    applied sub n

/-! ### Functions, tuples and lists -/

/-- Writes a function type, the result before the arguments. -/
def functionType (n : Node) : Writing Unit := do
  each sub n.children.reverse
  emit (Code.functionTypeSuffix n.kind)

/-- Writes the arguments or the result of a function. The empty tuple is an empty list. -/
def functionParameters (n : Node) : Writing Unit := do
  let parameters := (← child n 0).unwrapped
  if parameters.kind = .tuple ∧ parameters.children.isEmpty then emit ['y']
  else sub parameters

/-- Writes a list, in which the first element is marked. -/
def markedList (write : Node → Writing Unit) : List Node → Writing Unit
  | [] => emit ['y']
  | n :: ns => do
    write n
    emit ['_']
    each write ns

/-- Writes labels. If there are none, that is said once. -/
def labelList (n : Node) : Writing Unit :=
  if n.children.isEmpty then emit ['y'] else each sub n.children

/-! ### Protocols and metatypes -/

/-- Writes a protocol without the letter that says it is one. -/
def pureProtocol (n : Node) : Writing Unit := do
  if ← tryStandard cfg n.unwrapped then return
  each sub n.unwrapped.children

/-- Writes the protocols of a composition. -/
def protocols (n : Node) : Writing Unit := do
  markedList (pureProtocol cfg sub) (← child n 0).children

/-- Writes a metatype. The letters differ with its representation, and without one. -/
def metatype (represented bare : Text) (n : Node) : Writing Unit := do
  let first ← child n 0
  if first.kind = .metatypeRepresentation then
    sub (← child n 1)
    let name ← lift (Fault.inTree first.text)
    match Code.encode? Code.metatypeRepresentations name with
    | some letter => emit (represented ++ [letter])
    | none => throw (.tree (.unknownText name))
  else
    sub first
    emit bare

end

/-! ### Builtin types -/

/-- The size at the end of a builtin name with a given beginning. -/
def builtinSize? (beginning name : Text) : Option Text :=
  match Text.dropPrefix? beginning name with
  | some size => if Text.isNumeral size then some size else none
  | none => none

/-- The letter of a builtin type and its size. -/
def sized (letter : CodePoint) (size : Text) : Text := letter :: size ++ (['_'] : Text)

/-- The letters for the element of a vector. -/
def vectorElement? (element : Text) : Option Text :=
  if element = "RawPointer".text then some ['p']
  else
    match builtinSize? "FPIEEE".text element, builtinSize? "Int".text element with
    | some size, _ => some (sized 'f' size)
    | none, some size => some (sized 'i' size)
    | none, none => none

/-- The letters for a builtin type. -/
def builtinLetters (name : Text) : Except Refusal Text :=
  match Code.encode? Code.builtinTypes name with
  | some letter => .ok [letter]
  | none =>
    match Text.dropPrefix? "Builtin.Vec".text name with
    | some vector =>
      let (count, element) := Text.cut 'x' vector
      if !Text.isNumeral count || element.isEmpty then .error (.badVector name)
      else
        match vectorElement? element with
        | some letters => .ok (letters ++ sized 'B' ('v' :: count))
        | none => .error (.badVectorElement element)
    | none =>
      match builtinSize? "Builtin.Int".text name, builtinSize? "Builtin.FPIEEE".text name with
      | some size, _ => .ok (sized 'i' size)
      | none, some size => .ok (sized 'f' size)
      | none, none => .error (.unknownBuiltin name)

/-- Writes a builtin type. -/
def builtinType (n : Node) : Writing Unit := do
  match builtinLetters (← lift (Fault.inTree n.text)) with
  | .ok letters => emit ('B' :: letters)
  | .error r => refuse n r

/-- Writes a generic parameter. The first two of the outermost depth have letters of their own. -/
def genericParameter (n : Node) : Writing Unit := do
  let depth ← lift (Fault.inTree (← child n 0).index)
  let index ← lift (Fault.inTree (← child n 1).index)
  if depth = 0 ∧ index = 0 then emit ['x']
  else if depth ≠ 0 then emit ("qd" ++ Code.index (depth - 1) ++ Code.index index)
  else emit ('q' :: Code.index (index - 1))

end Writing

end SwiftABI
