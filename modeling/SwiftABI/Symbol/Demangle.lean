/-
  Demangling: from a symbol to the tree that it names.

  `demangle` reads a whole symbol with its prefix, and `demangleType` the bare name of a type. Both
  run one operator after the other until the text is used up. If something is wrong with the text
  (`readSymbol`, `readType`), it is raised. `demangleLog` tells what happens on the way, as entries
  of the log.
-/
import SwiftABI.Node.Rendering
import SwiftABI.Symbol.Reading.Entity
import SwiftABI.Symbol.Reading.Name
import SwiftABI.Symbol.Reading.Reference

namespace SwiftABI

namespace Reading

/-- What the operator `c` does. Its letter has been read. -/
def operator (cfg : Config) (c : CodePoint) : Reading Node :=
  match c with
  | 'A' => tableReference cfg
  | 'B' => builtinType cfg
  | 'C' => nominalType .classType
  | 'D' => typeMangling
  | 'E' => extension
  | 'F' => function
  | 'G' => boundGenericType
  | 'K' => node .throwsMarker []
  | 'L' => localName
  | 'M' => metadata
  | 'N' => do node .typeMetadata [← popType]
  | 'O' => nominalType .enumType
  | 'P' => nominalType .protocolType
  | 'S' => standardReference cfg
  | 'V' => nominalType .structType
  | 'W' => witness
  | 'X' => specialType
  | 'Z' => do node .staticDecl [← popEntity]
  | 'a' => nominalType .typeAlias
  | 'c' => popFunctionType .functionType
  | 'd' => node .variadicMarker []
  | 'f' => functionEntity
  | 'h' => do type .shared [← popTypeInside]
  | 'i' => subscriptEntity
  | 'm' => do type .metatype [← popType]
  | 'n' => do type .owned [← popTypeInside]
  | 'o' => operatorName
  | 'p' => do node .type [← popProtocolList]
  | 'q' => numberedParameter
  | 's' => build .moduleName (.text Standard.moduleText) []
  | 't' => popTuple
  | 'v' => variableEntity
  | 'w' => valueWitness
  | 'x' => genericParameter 0 0
  | 'y' => node .emptyList []
  | 'z' => do type .inOut [← popTypeInside]
  | '_' => node .firstElementMarker []
  | '.' => suffix
  | c => fail (.unsupportedOperator c)

/-- Runs the operator that comes next, and pushes its node. An identifier is its own operator. -/
def step (cfg : Config) : Reading Unit := do
  let n ←
    match ← peek? with
    | some c =>
      if Text.isDigit c then identifier cfg
      else do
        advance 1
        operator cfg c
    | none => fail .endOfInput
  push n

end Reading

namespace Machine

/-- The machine before the first operator of a body that follows a prefix of `offset` characters. -/
def load (offset : Nat) (body : Text) : Machine := { offset, rest := body }

/-- Runs at most `fuel` operators, until the text is used up. -/
def steps (cfg : Config) : Nat → Machine → Except Malformed Machine
  | 0, m => .ok m
  | fuel + 1, m =>
    if m.rest.isEmpty then .ok m
    else do
      let (_, m) ← Reading.step cfg m
      steps cfg fuel m

/-- Runs operators until the text is used up. Each of them reads at least one character. -/
def run (cfg : Config) (m : Machine) : Except Malformed Machine := steps cfg m.rest.length m

/-- The states that a run goes through, the first one included. -/
def states (cfg : Config) : Nat → Machine → List Machine
  | 0, m => [m]
  | fuel + 1, m =>
    if m.rest.isEmpty then [m]
    else
      match Reading.step cfg m with
      | .ok (_, m') => m :: states cfg fuel m'
      | .error _ => [m]

end Machine

/-! ### Symbols -/

/-- The first prefix that a text begins with, by its length, and what follows it. -/
def splitPrefix (prefixes : List Text) (text : Text) : Option (Nat × Text) :=
  prefixes.findSome? fun p => (Text.dropPrefix? p text).map fun body => (p.length, body)

/-- Does a text look like a symbol? Only its prefix is looked at. -/
def isSymbol (cfg : Config) (text : Text) : Bool :=
  cfg.prefixes.any fun p => Text.startsWith p text

/-- The machine before the first operator of a symbol. -/
def loadSymbol (cfg : Config) (text : Text) : Except Malformed Machine :=
  match splitPrefix cfg.prefixes text with
  | some (offset, body) =>
    if body.isEmpty then .error ⟨.nothingAfterPrefix, offset⟩ else .ok (.load offset body)
  | none =>
    if Text.startsWith "_Tt".text text then .error ⟨.oldClassName, 0⟩
    else if Text.startsWith "_T".text text then .error ⟨.oldFunctionType, 0⟩
    else .error ⟨.noPrefix, 0⟩

/-- The tree of a symbol whose operators have been run: everything on the stack, types without the
node that makes them types. -/
def Machine.symbol (m : Machine) : Except Malformed Node :=
  let children := m.stack.reverse.map Node.unwrapped
  if children.isEmpty then .error ⟨.nothingToDemangle, m.offset⟩
  else
    match Node.make .global .none children with
    | .ok n => .ok n
    | .error e => .error ⟨.malformedNode e, m.offset⟩

/-- The tree of a symbol, or what is wrong with the text. -/
def readSymbol (cfg : Config) (text : Text) : Except Malformed Node := do
  let m ← loadSymbol cfg text
  let m ← m.run cfg
  m.symbol

theorem mapError_raise_eq_ok_iff {read : Except Malformed Node} {t : Node} :
    read.mapError Malformed.raise = .ok t ↔ read = .ok t := by
  cases read with
  | error m => constructor <;> (intro h; cases h)
  | ok n => constructor <;> (intro h; cases h; rfl)

/-- The tree of a symbol. -/
def demangle (cfg : Config) (text : Text) : Except Raised Node :=
  (readSymbol cfg text).mapError Malformed.raise

theorem demangle_eq_ok_iff_readSymbol {cfg : Config} {text : Text} {t : Node} :
    demangle cfg text = .ok t ↔ readSymbol cfg text = .ok t :=
  mapError_raise_eq_ok_iff

/-- The machine before the first operator of the bare name of a type. -/
def loadType (text : Text) : Except Malformed Machine :=
  if text.isEmpty then .error ⟨.nothingToDemangle, 0⟩ else .ok (.load 0 text)

/-- The only node that has been left on the stack. -/
def Machine.single (m : Machine) : Except Malformed Node :=
  match m.stack with
  | [n] => .ok n
  | stack => .error ⟨.leftover stack.length, m.offset⟩

/-- The tree of the bare name of a type, or what is wrong with the text. -/
def readType (cfg : Config) (text : Text) : Except Malformed Node := do
  let m ← loadType text
  let m ← m.run cfg
  m.single

/-- The tree of the bare name of a type. -/
def demangleType (cfg : Config) (text : Text) : Except Raised Node :=
  (readType cfg text).mapError Malformed.raise

theorem demangleType_eq_ok_iff_readType {cfg : Config} {text : Text} {t : Node} :
    demangleType cfg text = .ok t ↔ readType cfg text = .ok t :=
  mapError_raise_eq_ok_iff

/-! ### The log -/

namespace SubstitutionTable

/-- The entries of the log for the registrations that `t` has beyond the first `known`. -/
def newEntries (known : Nat) (t : SubstitutionTable) : List Log.Entry :=
  (t.nodes.zipIdx.drop known).map fun (n, i) =>
    ⟨.trace, s!"Registered substitution {i}: " ++ n.summary⟩

end SubstitutionTable

namespace Machine

/-- The entries of the log for the step from one state to the next. -/
def stepEntries (before after : Machine) : List Log.Entry :=
  after.table.newEntries before.table.length ++
    match after.stack with
    | n :: _ => [⟨.trace, "Pushed " ++ n.summary⟩]
    | [] => []

/-- The entries of the log for a run. -/
def runEntries (cfg : Config) (m : Machine) : List Log.Entry :=
  let passed := m.states cfg m.rest.length
  (passed.zip (passed.drop 1)).flatMap fun (before, after) => stepEntries before after

end Machine

/-- The log of reading `text` from the state that it is loaded into to the result. -/
def readingLog (cfg : Config) (text : Text) (loaded : Except Malformed Machine)
    (result : Except Malformed Node) : List Log.Entry :=
  let passed := match loaded with
    | .ok m => m.runEntries cfg
    | .error _ => []
  let failure := match result with
    | .ok _ => []
    | .error e => e.entries text
  passed ++ failure

/-- The log of demangling a symbol. -/
def demangleLog (cfg : Config) (text : Text) : List Log.Entry :=
  readingLog cfg text (loadSymbol cfg text) (readSymbol cfg text)

/-- The log of demangling the bare name of a type. -/
def demangleTypeLog (cfg : Config) (text : Text) : List Log.Entry :=
  readingLog cfg text (loadType text) (readType cfg text)

end SwiftABI
