/-
  Descriptions: what a person reads for a demangled name.

  `describe` turns a tree into text. A declaration is described with its context before it, or,
  where its name has several words, with the context after it. A description that leaves the context
  to be written later hands it on in `Piece.deferred`. Where a number cannot be shown, or the
  letters of a generic parameter have no end, there is no description, whatever else is wrong
  further on (`Stop`).

  The functions below describe one node each. They take the function `sub` for the trees below it,
  and `describeAt` ties the knot, with the size of the tree as a bound.
-/
import SwiftABI.Description.Options
import SwiftABI.Description.Phrase
import SwiftABI.Log
import SwiftABI.Node.Refusal
import SwiftABI.Symbol.Code
import SwiftABI.Symbol.Standard

namespace SwiftABI

namespace Description

/-- Why there is no description. -/
inductive Stop (ε : Type) where
  /-- Something is wrong with the tree. -/
  | fault (e : ε)
  /-- A number has more digits than can be shown. -/
  | unshowable
  /-- The name of a generic parameter never ends. -/
  | endless

/-- What is wrong in other words. -/
def Stop.map {ε ε' : Type} (f : ε → ε') : Stop ε → Stop ε'
  | fault e => fault (f e)
  | unshowable => unshowable
  | endless => endless

/-- Work on a description. -/
abbrev Describing := Except (Stop Fault)

/-- What trees do not have is wrong with them. -/
instance : MonadLift (Except Fault) Describing := ⟨Except.mapError .fault⟩

/-- The description of a node. -/
structure Piece where
  text : Text
  /-- A context that is still to be written after what follows. -/
  deferred : Option Node := none

/-- How a declaration shows its type. -/
inductive TypeStyle where
  | hidden
  | colon
  | function
  deriving DecidableEq

/-- How a declaration is described. -/
structure EntityForm where
  style : TypeStyle
  /-- The second child is the name. -/
  hasName : Bool
  /-- What is said besides the name. -/
  extra : Text := []
  extraIndex : Option Int := none
  /-- What is said instead of the name. -/
  overwrite : Text := []

/-- Describes a tree. The flag is set where the tree is a context before a name. -/
abbrev Describer := Node → Bool → Describing Piece

def refuse {α : Type} (n : Node) (r : Refusal) :
    Describing α := .error (.fault (.refused ⟨n.kind, r⟩))

/-- An integer in decimal. -/
def numeral (n : Int) : Describing Text :=
  match Text.decimal? n with
  | some t => .ok t
  | none => .error .unshowable

/-- The name of a generic parameter. Parameters of the outermost depth are named by letters
alone. -/
def parameterName (depth index : Int) : Describing Text := do
  let letters ←
    match Text.letters? index with
    | some letters => pure letters
    | none => .error .endless
  if depth = 0 then return letters
  return letters ++ (← numeral depth)

section

variable (o : DisplayOptions) (sub : Describer)

/-- The text of a tree, without a context that it leaves to be written. -/
def plain (n : Node) : Describing Text := return (← sub n false).text

/-- The texts of several trees. -/
def joined (separator : Text) : List Node → Describing Text
  | [] => return []
  | [n] => plain sub n
  | n :: ns => do
    let first ← plain sub n
    return first ++ separator ++ (← joined separator ns)

/-- The text of a type that a mark follows, in parentheses where it needs them. -/
def parenthesized (n : Node) : Describing Text := do
  let needed ←
    match n.kind with
    | .protocolList => do pure (decide (1 < (← n.child 0).children.length))
    | .protocolListWithAnyObject => do
      pure (decide (0 < (← (← n.child 0).child 0).children.length))
    | k => pure !k.isSimpleType
  let text ← plain sub n
  return if needed then "(" ++ text ++ ")" else text

/-! ### Generic arguments -/

/-- The short ways to write a type of the standard library. -/
inductive Sugar where
  | optional
  | implicitlyUnwrapped
  | array
  | dictionary
  deriving DecidableEq

def isNamed (n : Node) (name : String) : Bool := n.kind = .identifier && n.text? = some name.text

/-- The short way to write a type with generic arguments, if there is one. -/
def sugar? (n : Node) : Describing (Option Sugar) := do
  if n.kind ≠ .boundGenericEnum ∧ n.kind ≠ .boundGenericStructure then return none
  let unbound ← (← n.child 0).child 0
  let count := (← n.child 1).children.length
  let m ← unbound.child 0
  if m.kind ≠ .moduleName ∨ m.text? ≠ some Standard.moduleText then return none
  let name ← unbound.child 1
  if n.kind = .boundGenericEnum then
    if isNamed name "Optional" && count = 1 then return some .optional
    if isNamed name "ImplicitlyUnwrappedOptional" && count = 1 then
      return some .implicitlyUnwrapped
    return none
  if isNamed name "Array" && count = 1 then return some .array
  if isNamed name "Dictionary" && count = 2 then return some .dictionary
  return none

/-- A type with its generic arguments in angle brackets. -/
def unsugared (n : Node) : Describing Text := do
  let type ← plain sub (← n.child 0)
  let arguments ← joined sub ", ".text (← n.child 1).children
  return type ++ "<" ++ arguments ++ ">"

def bracketed (n : Node) : Describing Text := return "[" ++ (← plain sub n) ++ "]"

def bracketedPair (key value : Node) : Describing Text := do
  let key ← plain sub key
  let value ← plain sub value
  return "[" ++ key ++ " : " ++ value ++ "]"

/-- A type with generic arguments. -/
def boundGeneric (n : Node) : Describing Text := do
  if !o.synthesizeSugar || n.kind = .boundGenericClass then return ← unsugared sub n
  if n.kind = .boundGenericProtocol then
    let arguments ← joined sub [] (← n.child 1).children
    return arguments ++ " as " ++ (← plain sub (← n.child 0))
  match ← sugar? n with
  | none => unsugared sub n
  | some sugar =>
    let arguments ← n.child 1
    match sugar with
    | .optional => return (← parenthesized sub (← arguments.child 0)) ++ "?"
    | .implicitlyUnwrapped => return (← parenthesized sub (← arguments.child 0)) ++ "!"
    | .array => bracketed sub (← arguments.child 0)
    | .dictionary => bracketedPair sub (← arguments.child 0) (← arguments.child 1)

/-! ### Functions -/

/-- A label as it stands before a parameter. -/
def labelText (label : Node) : Describing Text :=
  if label.kind = .identifier then Fault.inTree label.text else return ['_']

/-- One parameter of a function, with its label if there are labels. -/
def parameter (showTypes : Bool) (label : Option Node) (n : Node) : Describing Text := do
  if n.kind ≠ .tupleElement then refuse n .expectedTupleElement
  let name ←
    match label with
    | some label => do
      pure ((← labelText label) ++ (if showTypes then ": " else ":"))
    | none =>
      if showTypes then pure []
      else
        match n.childOfKind .tupleElementName with
        | some name => do pure ((← Fault.inTree name.text) ++ ":")
        | none => pure "_:".text
  if showTypes then return name ++ (← plain sub n) else return name

/-- The parameters of a function, from the position `i` on. -/
def parameterList (showTypes : Bool) (labels : List Node) : Nat → List Node → Describing Text
  | _, [] => return []
  | i, n :: ns => do
    let separator := if 0 < i && showTypes then ", ".text else []
    let label ←
      if labels.isEmpty then pure none
      else
        match labels[i]? with
        | some label => pure (some label)
        | none => .error (.fault (.tree .missingChild))
    let first ← parameter sub showTypes label n
    return separator ++ first ++ (← parameterList showTypes labels (i + 1) ns)

/-- The parameters of a function in parentheses. -/
def parameters (labelList : Option Node) (arguments : Node) (showTypes : Bool) :
    Describing Text := do
  if arguments.kind ≠ .argumentTuple then refuse arguments .expectedArgumentTuple
  let inside ← do
    let n ← arguments.child 0
    if n.kind = .type then n.child 0 else pure n
  if inside.kind ≠ .tuple then
    if showTypes then return "(" ++ (← plain sub inside) ++ ")" else return "(_:)".text
  let labels := (labelList.map Node.children).getD []
  if let some list := labelList then
    if !labels.isEmpty && labels.length ≠ inside.children.length then refuse list .labelCount
  return "(" ++ (← parameterList sub showTypes labels 0 inside.children) ++ ")"

/-- The parameters and the result of a function type. -/
def functionType (labelList : Option Node) (n : Node) : Describing Text := do
  if n.children.length ≠ 2 ∧ n.children.length ≠ 3 then refuse n .badFunctionType
  let throws := (← n.child 0).kind = .throwsMarker
  let start := if throws then 1 else 0
  let shown ← parameters sub labelList (← n.child start) o.functionArgumentTypes
  if !o.functionArgumentTypes then return shown
  let throwing := if throws then " throws".text else []
  return shown ++ throwing ++ (← plain sub (← n.child (start + 1)))

/-! ### Entities -/

/-- The type of a declaration, with its labels and generic arguments. -/
def entityType (entity type : Node) (arguments : Option Node) : Describing Text := do
  let labels := entity.childOfKind .labelList
  if labels.isNone && arguments.isNone then return ← plain sub type
  let generic ←
    match arguments with
    | some list => do pure ("<" ++ (← joined sub ", ".text list.children) ++ ">")
    | none => pure []
  return generic ++ (← functionType o sub labels type)

/-- The name of a declaration. A private one has its discriminator with it. -/
def entityName (entity : Node) (overwrite : Text) : Describing Text := do
  if !overwrite.isEmpty then return overwrite
  let name ← entity.child 1
  let shown ← if name.kind = .privateDeclName then pure [] else plain sub name
  match entity.childOfKind .privateDeclName with
  | some privateName => return shown ++ (← plain sub privateName)
  | none => return shown

/-- The type of a declaration in the style of its form. -/
def styledType (style : TypeStyle) (multiWord : Bool) (entity : Node) (arguments : Option Node) :
    Describing Text := do
  if style = .hidden then return []
  match entity.childOfKind .type with
  | none => refuse entity .untypedEntity
  | some t =>
    let type ← t.child 0
    if style = .function ∧ type.kind.isFunctionStyle then
      let needsSpace :=
        type.unwrapped.kind ≠ .functionType ∧ type.unwrapped.kind ≠ .noEscapeFunctionType
      let space : Text := if multiWord || needsSpace then [' '] else []
      return space ++ (← entityType o sub entity type arguments)
    else if o.entityTypes then
      return " : " ++ (← entityType o sub entity type arguments)
    else return []

/-- A declaration, without the generic arguments that it may be applied to, and these. -/
def declaration (n : Node) : Describing (Node × Option Node) := do
  if n.kind = .boundGenericFunction then return (← n.child 0, some (← n.child 1))
  return (n, none)

/-- Is the declaration known by a local name? -/
def isLocal (form : EntityForm) (decl : Node) : Describing Bool := do
  if form.hasName then return decide ((← decl.child 1).kind = .localDeclName)
  return false

/-- What stands before a declaration. A context that cannot stand there is left to be written. -/
def before (context : Node) (multiWord : Bool) : Describing Piece := do
  if !o.qualifyEntities then return { text := [] }
  if multiWord then return { text := [], deferred := some context }
  let piece ← sub context true
  let dot : Text := if piece.text.isEmpty then [] else ['.']
  return { piece with text := piece.text ++ dot }

/-- The name of a declaration, with what is said before it, and what is still to be said after
it. -/
def named (form : EntityForm) (multiWord : Bool) (decl : Node) : Describing (Text × Text) := do
  if !form.hasName && form.overwrite.isEmpty then return ([], form.extra)
  let leads := !form.extra.isEmpty && multiWord
  let lead := if leads then form.extra ++ " of " else []
  let extra := if leads then [] else form.extra
  let name ← entityName sub decl form.overwrite
  let dot : Text := if name.isEmpty || extra.isEmpty then [] else ['.']
  return (lead ++ name ++ dot, extra)

/-- The number of a declaration, which follows what is said of it. -/
def extraNumber (form : EntityForm) (extra : Text) : Describing Text :=
  match form.extraIndex with
  | some i => if extra.isEmpty then return [] else numeral i
  | none => return []

/-- A declaration. Its context is written before it where that is possible. As a context itself, a
declaration with a type or a name of several words is left to be written later. -/
def entity (n : Node) (asContext : Bool) (form : EntityForm) : Describing Piece := do
  let (decl, arguments) ← declaration n
  let multiWord := (' ' : CodePoint) ∈ form.extra || (← isLocal form decl)
  if asContext && (form.style ≠ .hidden || multiWord) then return { text := [], deferred := decl }
  let before ← before o sub (← decl.child 0) multiWord
  let (name, extra) ← named sub form multiWord decl
  let number ← extraNumber form extra
  let type ← styledType o sub form.style multiWord decl arguments
  let text := before.text ++ name ++ extra ++ number ++ type
  match before.deferred with
  | some later =>
    if asContext then return { text, deferred := some later }
    let joint :=
      if decl.kind = .defaultArgumentInitializer ∨ decl.kind = .initializer then " of " else " in "
    return { text := text ++ joint ++ (← plain sub later) }
  | none => return { text }

/-- How a declaration of a kind is described, if it is one. -/
def entityForm? (n : Node) : Describing (Option EntityForm) := do
  match n.kind with
  | .classType | .structType | .enumType | .protocolType | .typeAlias | .otherNominalType
  | .genericTypeParamDecl => return some { style := .hidden, hasName := true }
  | .variableDecl => return some { style := .colon, hasName := true }
  | .functionDecl | .boundGenericFunction => return some { style := .function, hasName := true }
  | .subscriptDecl =>
    return some { style := .function, hasName := false, overwrite := "subscript".text }
  | .explicitClosure => closure "closure #"
  | .implicitClosure => closure "implicit closure #"
  | .initializer => nameless "variable initialization expression"
  | .defaultArgumentInitializer =>
    let i ← Fault.inTree (← n.child 1).index
    return some
      { style := .hidden, hasName := false, extra := "default argument ".text, extraIndex := i }
  | .allocator =>
    let name := if (← n.child 0).kind = .classType then "__allocating_init" else "init"
    return some { style := .function, hasName := false, extra := name.text }
  | .constructorDecl =>
    return some
      { style := .function, hasName := 2 < n.children.length, extra := "init".text }
  | .destructor => nameless "deinit"
  | .deallocator =>
    nameless (if (← n.child 0).kind = .classType then "__deallocating_deinit" else "deinit")
  | .ivarInitializer => nameless "__ivar_initializer"
  | .ivarDestroyer => nameless "__ivar_destroyer"
  | _ => return none
where
  /-- A declaration that only has what is said of its kind. -/
  nameless (extra : String) : Describing (Option EntityForm) :=
    return some { style := .hidden, hasName := false, extra := extra.text }
  /-- A closure, which is numbered from one on. -/
  closure (extra : String) : Describing (Option EntityForm) := do
    let i ← Fault.inTree (← n.child 1).index
    let style : TypeStyle := if o.functionArgumentTypes then .function else .hidden
    return some { style, hasName := false, extra := extra.text, extraIndex := some (i + 1) }

/-- An accessor of a variable or a subscript. -/
def storage (n : Node) (asContext : Bool) (accessor : Text) : Describing Piece :=
  match n.kind with
  | .variableDecl =>
    entity o sub n asContext { style := .colon, hasName := true, extra := accessor }
  | .subscriptDecl =>
    entity o sub n asContext
      { style := .colon, hasName := false, extra := accessor, overwrite := "subscript".text }
  | _ => refuse n .notStorage

/-! ### Types -/

/-- A metatype, with the representation before it if there is one. -/
def metatype (n : Node) : Describing Text := do
  if n.children.length = 2 then
    let representation ← plain sub (← n.child 0)
    return representation ++ " " ++ (← instanceType (← n.child 1))
  else instanceType (← n.child 0)
where
  /-- The type that the metatype is of. -/
  instanceType (t : Node) : Describing Text := do
    if n.kind = .existentialMetatype then return (← plain sub t) ++ ".Type"
    let type ← t.child 0
    let shown ← parenthesized sub type
    return shown ++ (if type.kind.isExistential then ".Protocol" else ".Type").text

/-- A composition of protocols that also asks for a class. -/
def classComposition (n : Node) : Describing Text := do
  let protocols := (← (← n.child 0).child 0).children
  let listed ←
    if protocols.isEmpty then pure []
    else do pure ((← joined sub " & ".text protocols) ++ " & ".text)
  let origin := if o.qualifyEntities then "Swift." else ""
  return listed ++ origin ++ "AnyObject"

/-- A tuple element: its label, its type, and dots if it stands for several arguments. -/
def tupleElement (n : Node) : Describing Text := do
  let label ←
    match n.childOfKind .tupleElementName with
    | some name => do pure ((← Fault.inTree name.text) ++ ": ")
    | none => pure []
  match n.childOfKind .type with
  | none => refuse n .untypedElement
  | some t =>
    let dots := if (n.childOfKind .variadicMarker).isSome then "...".text else []
    return label ++ (← plain sub t) ++ dots

/-! ### Names -/

/-- A private name, with its discriminator if it is to be shown. -/
def privateName (n : Node) : Describing Text := do
  let discriminator : Describing Text := do Fault.inTree (← n.child 0).text
  if 1 < n.children.length then
    let name ← plain sub (← n.child 1)
    if !o.privateDiscriminators then return name
    return "(" ++ name ++ " in " ++ (← discriminator) ++ ")"
  else if o.privateDiscriminators then
    return "(in " ++ (← discriminator) ++ ")"
  else return []

/-- The text of a node, followed by a remark. -/
def remarked (n : Node) (remark : String) : Describing Text :=
  return (← Fault.inTree n.text) ++ remark

/-- A node that is neither a declaration nor described by a fixed phrase. -/
def other (n : Node) : Describing Text := do
  match n.kind with
  | .global | .typeList => joined sub [] n.children
  | .type => plain sub (← n.child 0)
  | .suffix =>
    if o.unmangledSuffix then
      return " with unmangled suffix " ++ Text.quotedSuffix (← Fault.inTree n.text)
    else return []
  | .boundGenericClass | .boundGenericStructure | .boundGenericEnum | .boundGenericProtocol
  | .boundGenericOtherNominalType | .boundGenericTypeAlias => boundGeneric o sub n
  | .extensionDecl =>
    let lead ←
      if o.qualifyEntities && o.extensionContexts then do
        pure ("(extension in " ++ (← sub (← n.child 0) true).text ++ "):")
      else pure []
    return lead ++ (← plain sub (← n.child 1))
  | .typeMangling =>
    let first ← n.child 0
    if first.kind = .labelList then functionType o sub (some first) (← (← n.child 1).child 0)
    else plain sub first
  | .moduleName => if o.moduleNames then Fault.inTree n.text else return []
  | .identifier | .builtinTypeName | .metatypeRepresentation => Fault.inTree n.text
  | .index | .number => numeral (← Fault.inTree n.index)
  | .localDeclName =>
    let name ← plain sub (← n.child 1)
    let number ← Fault.inTree (← n.child 0).index
    return name ++ " #" ++ (← numeral (number + 1))
  | .privateDeclName => privateName o sub n
  | .relatedEntityDeclName =>
    let tag ← Fault.inTree n.text
    return "related decl '" ++ tag ++ "' for " ++ (← plain sub (← n.child 0))
  | .infixOperator => remarked n " infix"
  | .prefixOperator => remarked n " prefix"
  | .postfixOperator => remarked n " postfix"
  | .argumentTuple => parameters sub none n o.functionArgumentTypes
  | .returnType => return " -> " ++ (← joined sub [] n.children)
  | .tuple => return "(" ++ (← joined sub ", ".text n.children) ++ ")"
  | .tupleElement => tupleElement sub n
  | .tupleElementName => remarked n ": "
  | .labelList => return []
  | .dependentGenericParamType =>
    let depth ← Fault.inTree (← n.child 0).index
    let index ← Fault.inTree (← n.child 1).index
    parameterName depth index
  | .metatype | .existentialMetatype => metatype sub n
  | .protocolList =>
    let protocols := (← n.child 0).children
    if protocols.isEmpty then return "Any".text else joined sub " & ".text protocols
  | .protocolListWithAnyObject => classComposition o sub n
  | .sugaredOptional => return (← parenthesized sub (← n.child 0)) ++ "?"
  | .sugaredArray => bracketed sub (← n.child 0)
  | .sugaredDictionary => bracketedPair sub (← n.child 0) (← n.child 1)
  | .sugaredParen => return "(" ++ (← plain sub (← n.child 0)) ++ ")"
  | .valueWitness =>
    match Code.valueWitness? (← Fault.inTree n.index) with
    | none => .error (.fault (.tree .unknownWitness))
    | some (_, name) =>
      return name ++ " value witness for " ++ (← plain sub (← n.child 0))
  | .fieldOffset =>
    let directness ← plain sub (← n.child 0)
    return directness ++ "field offset for " ++ (← plain sub (← n.child 1))
  | .directness =>
    let i ← Fault.inTree n.index
    return (if i = 0 then "direct " else "indirect ").text
  | _ => refuse n .unprintableKind

/-- A node, given how the trees below it are described. -/
def ofNode (n : Node) (asContext : Bool) : Describing Piece := do
  match n.kind.leadPhrase? with
  | some phrase => return { text := phrase ++ (← plain sub (← n.child 0)) }
  | none =>
  match n.kind.markPhrase? with
  | some phrase => return { text := phrase }
  | none =>
  match n.kind.accessorName? with
  | some name => storage o sub (← n.child 0) asContext name
  | none =>
  match n.kind.conventionPhrase? with
  | some phrase => return { text := phrase ++ (← functionType o sub none n) }
  | none =>
  match ← entityForm? o n with
  | some form => entity o sub n asContext form
  | none => return { text := ← other o sub n }

end

/-- Describes trees of at most `fuel` nodes. -/
def describeAt (o : DisplayOptions) : Nat → Describer
  | 0 => fun n _ => refuse n .unprintableKind
  | fuel + 1 => ofNode o (describeAt o fuel)

end Description

/-- The description of a tree. -/
def describe (o : DisplayOptions) (n : Node) : Except (Description.Stop Unmangleable) Text :=
  match Description.describeAt o n.size n false with
  | .ok piece => .ok piece.text
  | .error stop => .error (stop.map (Fault.settle n.kind))

/-- The log of describing a tree. -/
def describeLog (o : DisplayOptions) (n : Node) : List Log.Entry :=
  match describe o n with
  | .ok _ => []
  | .error (.fault ⟨k, .malformedTree f⟩) =>
    [⟨.detail, "Malformed tree while printing " ++ k.name ++ ": " ++ f.message⟩]
  | .error (.fault e) => [⟨.detail, "Cannot print " ++ e.kind.name ++ ": " ++ e.reason.message⟩]
  | .error .unshowable | .error .endless => []

end SwiftABI
