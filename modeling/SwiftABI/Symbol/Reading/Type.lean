/-
  Reading types.

  The operators for nominal types, generic arguments, functions, tuples, protocols, metatypes and
  builtin types pop the types and names that they are made of. Nominal types and types with generic
  arguments are registered.
-/
import SwiftABI.Node.Specialization
import SwiftABI.Symbol.Code
import SwiftABI.Symbol.Machine

namespace SwiftABI.Reading

/-! ### Functions -/

/-- Pops the arguments of a function type, and counts them. An empty list has no labels, which the
count zero tells from one argument that is the empty tuple. -/
def popArguments : Reading Node := do
  if ← popped .emptyList then
    build .argumentTuple (.index 0) [← type .tuple []]
  else
    let t ← popType
    let count := if t.unwrapped.kind = .tuple then t.unwrapped.children.length else 1
    build .argumentTuple (.index count) [t]

/-- Pops the result of a function type. -/
def popResult : Reading Node := do
  if ← popped .emptyList then node .returnType [← type .tuple []]
  else node .returnType [← popType]

/-- Pops the parts of a function type. -/
def popFunctionType (k : Kind) : Reading Node := do
  let throws := (← pop? .throwsMarker).toList
  let arguments ← popArguments
  let result ← popResult
  type k (throws ++ [arguments, result])

/-- The arguments of a function type. -/
def argumentsOf? (function : Node) : Option Node :=
  match function.children with
  | .mk .throwsMarker _ _ :: arguments :: _ => some arguments
  | arguments :: _ => some arguments
  | [] => none

/-- Pops the labels of some parameters, which lie on the stack in order. -/
def popLabels : Nat → Reading (List Node)
  | 0 => return []
  | count + 1 => do
    let label ← require (← popAny?) .missingLabel
    check (label.kind = .identifier || label.kind = .firstElementMarker) .badLabel
    return (← popLabels count) ++ [label]

/-- Pops the labels that go with a type, if it is a function type that has some. A list of labels of
which none has a name is empty. -/
def popLabelList? (t : Node) : Reading (Option Node) := do
  if ← popped .emptyList then return some (← node .labelList [])
  let function := t.unwrapped
  if function.kind ≠ .functionType ∧ function.kind ≠ .noEscapeFunctionType then return none
  match argumentsOf? function with
  | some (.mk .argumentTuple (.index count) [parameters]) =>
    if count = 0 then return none
    if parameters.unwrapped.kind ≠ .tuple then return some (← node .labelList [])
    let labels ← popLabels count.toNat
    if labels.all fun label => label.kind = .firstElementMarker then
      return some (← node .labelList [])
    return some (← node .labelList labels)
  | _ => fail .expectedArguments

/-! ### Lists of types -/

/-- Pops the last element of a tuple. -/
def popTupleElement : Reading Node := do
  let variadic := (← pop? .variadicMarker).toList
  let name ← match ← pop? .identifier with
    | some label => do pure [← build .tupleElementName label.payload []]
    | none => pure []
  node .tupleElement (variadic ++ name ++ [← popType])

def popTuple : Reading Node := do type .tuple (← popList popTupleElement)

/-- Pops a protocol, which can also be given by its name and context. -/
def popProtocol : Reading Node := do
  match ← pop? .type with
  | some t => do
    check (t.unwrapped.kind = .protocolType) .expectedProtocol
    return t
  | none =>
    let name ← popDeclName
    let context ← popContext
    type .protocolType [context, name]

def popProtocolList : Reading Node := do
  node .protocolList [← node .typeList (← popList popProtocol)]

/-! ### Nominal types and generic arguments -/

/-- Pops the parts of a nominal type, and registers it. -/
def nominalType (k : Kind) : Reading Node := do
  let name ← popDeclName
  let context ← popContext
  let t ← type k [context, name]
  register t
  return t

/-- Takes lists of types off a stack, down to the mark of an empty list. The lists have a mark each
between them, and `types` have been taken for the present one. -/
def takeTypeLists : List Node → List Node → Option (List (List Node) × List Node)
  | [], _ => none
  | n :: stack, types =>
    if n.kind = .type then takeTypeLists stack (n :: types)
    else if n.kind = .emptyList then some ([types], stack)
    else if n.kind = .firstElementMarker then
      (takeTypeLists stack []).map fun (lists, stack) => (types :: lists, stack)
    else none

/-- The node, or the complaint that it is misshapen. -/
def shaped (n : Except ShapeMismatch Node) : Except Complaint Node :=
  n.mapError Complaint.malformedNode

/-- Applies lists of generic arguments to a declaration, the first list to the declaration itself
and the others to the contexts above it. Declarations that take no arguments pass their list on, and
an empty list changes nothing. -/
def applyArguments : Node → List Node → Except Complaint Node
  | _, [] => .error .tooFewArgumentLists
  | .mk k _ [], _ :: _ => .error (.takesNoArguments k)
  | .mk k p (context :: cs), arguments :: lists => do
    let above := if k.consumesGenericArgs then lists else arguments :: lists
    let declaration ←
      if above.isEmpty then .ok (.mk k p (context :: cs))
      else
        let context ←
          match context with
          | .mk .extensionDecl _ (m :: extended :: _) =>
            shaped (Node.make .extensionDecl .none [m, ← applyArguments extended above])
          | context => applyArguments context above
        shaped (Node.make k p (context :: cs))
    if !k.consumesGenericArgs || arguments.children.isEmpty then return declaration
    match k.bound? with
    | some bound => do
      let t ← shaped (Node.make .type .none [declaration])
      shaped (Node.make bound .none [t, arguments])
    | none =>
      if k = .functionDecl ∨ k = .constructorDecl then
        shaped (Node.make .boundGenericFunction .none [declaration, arguments])
      else .error (.cannotSpecialize k)

/-- Pops lists of generic arguments and the nominal type that they are applied to, and registers the
result. -/
def boundGenericType : Reading Node := do
  match takeTypeLists (← get).stack [] with
  | none => fail .expectedSeparator
  | some (lists, stack) =>
    modify fun m => { m with stack }
    let lists ← lists.mapM (node .typeList)
    let nominal ← popNominal
    match applyArguments nominal lists with
    | .error c => fail c
    | .ok bound =>
      let t ← node .type [bound]
      register t
      return t

/-- A generic parameter, by its depth and its index there. -/
def genericParameter (depth index : Nat) : Reading Node := do
  type .dependentGenericParamType [← indexNode .index depth, ← indexNode .index index]

/-- Reads the number of a generic parameter. The first one of the outermost depth has a letter of
its own. -/
def numberedParameter : Reading Node := do
  if ← nextIf 'd' then
    let depth ← index
    genericParameter (depth + 1) (← index)
  else if ← nextIf 'z' then genericParameter 0 0
  else genericParameter 0 ((← index) + 1)

/-! ### Other types -/

/-- What the names of builtin types begin with. -/
def builtinPrefix : Text := "Builtin.".text

/-- Reads the size of a builtin type, which is one less than the index. -/
def builtinSize (cfg : Config) : Reading Nat := do
  let i ← index
  check (1 < i && decide ((i : Int) - 1 < cfg.maxBuiltinSize)) .builtinSize
  return i - 1

/-- Reads the name of a builtin type. A vector takes its element from the stack. -/
def builtinName (cfg : Config) : Reading Text := do
  let c ← next
  match Code.decode? Code.builtinTypes c with
  | some name => return name
  | none =>
    if c = 'f' then return "Builtin.FPIEEE".text ++ Text.digits (← builtinSize cfg)
    else if c = 'i' then return "Builtin.Int".text ++ Text.digits (← builtinSize cfg)
    else if c = 'v' then
      let size ← builtinSize cfg
      let element ← popTypeInside
      let name ← require (vectorElement? element) .vectorElement
      return "Builtin.Vec".text ++ Text.digits size ++ ('x' : CodePoint) :: name
    else fail (.unknownBuiltin c)
where
  /-- The name of a builtin type, without what they all begin with. -/
  vectorElement? : Node → Option Text
    | .mk .builtinTypeName (.text name) _ => Text.dropPrefix? builtinPrefix name
    | _ => none

def builtinType (cfg : Config) : Reading Node := do
  node .type [← build .builtinTypeName (.text (← builtinName cfg)) []]

/-- Reads how a metatype is represented. -/
def metatypeRepresentation : Reading Node := do
  let name ← require (Code.decode? Code.metatypeRepresentations (← next)) .metatypeRepresentation
  build .metatypeRepresentation (.text name) []

/-- Reads which sugar a type is written with. -/
def sugaredType : Reading Node := do
  let c ← next
  match Code.decode? Code.sugar c with
  | some k => type k [← popType]
  | none =>
    if c = 'D' then
      let value ← popType
      let key ← popType
      type .sugaredDictionary [key, value]
    else fail (.unsupportedSugar c)

/-- Reads the letter of a type that is none of the common ones. -/
def specialType : Reading Node := do
  let c ← next
  match Code.decode? Code.functionTypes c, Code.decode? Code.referenceStorage c with
  | some k, _ => popFunctionType k
  | none, some k => type k [← popType]
  | none, none =>
    match c with
    | 'M' => do
      let representation ← metatypeRepresentation
      type .metatype [representation, ← popType]
    | 'm' => do
      let representation ← metatypeRepresentation
      type .existentialMetatype [representation, ← popType]
    | 'p' => type .existentialMetatype [← popType]
    | 'l' => type .protocolListWithAnyObject [← popProtocolList]
    | 'Y' => nominalType .otherNominalType
    | 'e' => type .errorType []
    | 'S' => sugaredType
    | _ => fail (.unsupportedSpecialType c)

end SwiftABI.Reading
