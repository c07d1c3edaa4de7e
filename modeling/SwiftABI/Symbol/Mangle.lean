/-
  Mangling: from a tree to the symbol that names it.

  `mangle` writes a tree. Each kind has its own way to be written, and `Writing.ofNode` knows them
  all. `mangleLog` tells what happens on the way, as entries of the log.
-/
import SwiftABI.Symbol.Demangle
import SwiftABI.Symbol.Writing.Entity

namespace SwiftABI

namespace Writing

variable (cfg : Config) (sub : Node → Writing Unit)

/-- Writes a node that is not written as its children and a suffix. -/
def ofKind (n : Node) : Writing Unit := do
  match n.kind with
  | .global => do
    emit cfg.emittedPrefix
    each sub n.children
  | .type => sub (← child n 0)
  | .suffix => emit (← lift (Fault.inTree n.text))
  | .moduleName => moduleName cfg n
  | .identifier | .tupleElementName => identifier cfg n
  | .infixOperator => operatorName cfg 'i' n
  | .prefixOperator => operatorName cfg 'p' n
  | .postfixOperator => operatorName cfg 'P' n
  | .localDeclName => localDeclName sub n
  | .privateDeclName => privateDeclName sub n
  | .relatedEntityDeclName => relatedEntityDeclName sub n
  | .number => emit (Code.index (← lift (Fault.inTree n.index)))
  | .structType | .classType | .enumType | .typeAlias | .otherNominalType
  | .boundGenericStructure | .boundGenericClass | .boundGenericProtocol | .boundGenericTypeAlias
  | .boundGenericOtherNominalType => nominal cfg sub n
  | .protocolType => plainNominal cfg sub ['P'] n
  | .extensionDecl => do
    sub (← child n 1)
    sub (← child n 0)
    emit ['E']
  | .boundGenericEnum => boundGenericEnum cfg sub n
  | .boundGenericFunction => boundGenericFunction cfg sub n
  | .functionDecl => function sub n
  | .explicitClosure => closure sub "fU" n
  | .implicitClosure => closure sub "fu" n
  | .defaultArgumentInitializer => defaultArgument sub n
  | .functionType | .noEscapeFunctionType | .escapingAutoClosureType | .autoClosureType
  | .thinFunctionType | .objcBlock | .cFunctionPointer => functionType sub n
  | .argumentTuple | .returnType => functionParameters sub n
  | .typeList => markedList sub n.children
  | .tuple => do
    markedList sub n.children
    emit ['t']
  | .tupleElement => each sub n.children.reverse
  | .labelList => labelList sub n
  | .metatype => metatype sub ['X', 'M'] ['m'] n
  | .existentialMetatype => metatype sub ['X', 'm'] ['X', 'p'] n
  | .protocolList => do
    protocols cfg sub n
    emit ['p']
  | .protocolListWithAnyObject => do
    protocols cfg sub (← child n 0)
    emit ['X', 'l']
  | .builtinTypeName => builtinType n
  | .dependentGenericParamType => genericParameter n
  | .protocolDescriptor => do
    pureProtocol cfg sub (← child n 0)
    emit ['M', 'p']
  | .valueWitness => valueWitness sub n
  | .fieldOffset => fieldOffset sub n
  | _ => refuse n .unsupportedKind

/-- Writes a node, given how the trees below it are written. -/
def ofNode (n : Node) : Writing Unit := do
  match Code.suffix? n.kind, Code.accessorSuffix? n.kind with
  | some letters, _ => do
    each sub n.children
    emit letters.text
  | none, some letters => accessor sub letters n
  | none, none => ofKind cfg sub n

end Writing

/-- Writes trees of at most `fuel` nodes. -/
def Writing.mangleAt (cfg : Config) : Nat → Node → Writing Unit
  | 0, n => Writing.refuse n .unsupportedKind
  | fuel + 1, n => Writing.ofNode cfg (mangleAt cfg fuel) n

/-- The symbol as far as a tree can be written, and how the work ended. -/
def writeTree (cfg : Config) (n : Node) : Except Fault Unit × SymbolBuilder :=
  (Writing.mangleAt cfg n.size n).run.run {}

/-- The symbol of a tree. A `global` node has the prefix of a symbol, and any other one is written
as the bare name of a type is. -/
def mangle (cfg : Config) (n : Node) : Except Unmangleable Text :=
  match writeTree cfg n with
  | (.ok (), d) => .ok d.symbol
  | (.error f, _) => .error (f.settle n.kind)

/-! ### The log -/

namespace Unmangleable

/-- The entries of the log for a tree that has no symbol. Identifiers without encoded form have
none. -/
def entries (e : Unmangleable) : List Log.Entry :=
  match e.reason with
  | .emptyIdentifier | .unencodable _ | .startsWithDigit _ | .notUnspecializable => []
  | .malformedTree f =>
    [⟨.detail, "Malformed tree while remangling " ++ e.kind.name ++ ": " ++ f.message⟩]
  | r => [⟨.detail, "Cannot remangle " ++ e.kind.name ++ ": " ++ r.message⟩]

end Unmangleable

/-- The log of mangling a tree. -/
def mangleLog (cfg : Config) (n : Node) : List Log.Entry :=
  let (result, d) := writeTree cfg n
  let outcome :=
    match result with
    | .ok () => [⟨.detail, "Remangled " ++ n.kind.name ++ " -> " ++ d.symbol⟩]
    | .error f => (f.settle n.kind).entries
  d.table.newEntries 0 ++ outcome

end SwiftABI
