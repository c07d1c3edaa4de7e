/-
  The stack machine that reads a symbol.

  Every operator of a symbol takes nodes from a stack and leaves one there. `Machine` is the state
  between two of them: what is left of the text, the stack, the substitution table and the words.
  This module has the steps that all operators are made of. A step either succeeds or ends the
  reading with a complaint at the present offset.
-/
import SwiftABI.Config
import SwiftABI.Symbol.Malformed

namespace SwiftABI

/-- The state of a symbol that is being read. -/
structure Machine where
  /-- How many characters have been read. -/
  offset : Nat
  /-- What is left of the text. -/
  rest : Text
  /-- The nodes on the stack, the topmost first. -/
  stack : List Node := []
  table : SubstitutionTable := {}
  words : List Text := []

/-- A step of the machine. -/
abbrev Reading (α : Type) := StateT Machine (Except Malformed) α

namespace Reading

/-- Ends the reading with a complaint. -/
def fail {α : Type} (c : Complaint) : Reading α := fun m => .error ⟨c, m.offset⟩

/-- The value, or else a complaint. -/
def require {α : Type} (a? : Option α) (c : Complaint) : Reading α :=
  match a? with
  | some a => pure a
  | none => fail c

/-- Goes on only if the condition holds. -/
def check (p : Bool) (c : Complaint) : Reading Unit := if p then pure () else fail c

/-! ### The text -/

/-- The next character, which is left in the text. -/
def peek? : Reading (Option CodePoint) := fun m => .ok (m.rest.head?, m)

/-- Reads `n` characters, or as many as there are. -/
def advance (n : Nat) : Reading Unit := fun m =>
  .ok ((), { m with offset := m.offset + min n m.rest.length, rest := m.rest.drop n })

/-- Reads a character. -/
def next : Reading CodePoint := do
  match ← peek? with
  | some c => do advance 1; return c
  | none => fail .endOfInput

/-- Reads the character `c`, if it comes next. -/
def nextIf (c : CodePoint) : Reading Bool := do
  if (← peek?) = some c then do advance 1; return true
  else return false

/-- Reads the digits that come next. -/
def digits : Reading Text := fun m =>
  let ds := (Text.spanDigits m.rest).1
  .ok (ds, { m with offset := m.offset + ds.length, rest := (Text.spanDigits m.rest).2 })

/-- Reads a numeral, if one comes next. -/
def natural? : Reading (Option Nat) := do
  let ds ← digits
  return if ds.isEmpty then none else some (Text.number ds)

/-- Reads an index: its mark alone is zero, and with a numeral before it one more than that. -/
def index : Reading Nat := do
  if ← nextIf '_' then return 0
  match ← natural? with
  | some n => if ← nextIf '_' then return n + 1 else fail .badIndex
  | none => fail .badIndex

/-! ### Nodes -/

/-- Builds a node. A misshapen one makes the text malformed. -/
def build (k : Kind) (p : Payload) (cs : List Node) : Reading Node :=
  match Node.make k p cs with
  | .ok n => pure n
  | .error e => fail (.malformedNode e)

/-- Builds a node without payload. -/
def node (k : Kind) (cs : List Node) : Reading Node := build k .none cs

/-- Builds a type. -/
def type (k : Kind) (cs : List Node) : Reading Node := do node .type [← node k cs]

/-- Builds a node that has an index and no children. -/
def indexNode (k : Kind) (n : Nat) : Reading Node := build k (.index n) []

/-! ### The stack -/

def push (n : Node) : Reading Unit := modify fun m => { m with stack := n :: m.stack }

/-- Pushes a node several times. -/
def pushCopies (count : Nat) (n : Node) : Reading Unit :=
  modify fun m => { m with stack := List.replicate count n ++ m.stack }

/-- Pops the topmost node, if there is one and the condition holds of its kind. -/
def popIf (p : Kind → Bool) : Reading (Option Node) := fun m =>
  match m.stack with
  | n :: stack => if p n.kind then .ok (some n, { m with stack }) else .ok (none, m)
  | [] => .ok (none, m)

/-- Pops the topmost node, if it is of the kind. -/
def pop? (k : Kind) : Reading (Option Node) := popIf fun found => found = k

/-- Pops the topmost node. -/
def popAny? : Reading (Option Node) := popIf fun _ => true

/-- Pops the topmost node if it is of the kind, and tells whether it was. -/
def popped (k : Kind) : Reading Bool := return (← pop? k).isSome

/-- Pops a type. -/
def popType : Reading Node := do require (← pop? .type) .expectedType

/-- Pops a type, and answers with what it wraps. -/
def popTypeInside : Reading Node := return (← popType).unwrapped

/-- Pops a nominal type, and answers with what it wraps. -/
def popNominal : Reading Node := do
  let n ← popTypeInside
  check n.kind.isAnyGeneric (.notNominal n.kind)
  return n

/-- Pops a module. An identifier can name one. -/
def popModule? : Reading (Option Node) := do
  match ← pop? .identifier with
  | some name => return some (← build .moduleName name.payload name.children)
  | none => pop? .moduleName

/-- Pops a context: a module, a type that is one, or a declaration. -/
def popContext : Reading Node := do
  match ← popModule? with
  | some m => return m
  | none =>
    match ← pop? .type with
    | some t => do
      check t.unwrapped.kind.isContext (.notContext t.unwrapped.kind)
      return t.unwrapped
    | none => require (← popIf Kind.isContext) .expectedContext

/-- Pops the name of a declaration. -/
def popDeclName : Reading Node := do require (← popIf Kind.isDeclName) .expectedDeclName

/-- Pops an entity. -/
def popEntity : Reading Node := do require (← popIf Kind.isEntity) .expectedEntity

/-- Pops a list whose first element has a mark above it, elements being popped from last to first.
`fuel` bounds their number. -/
def popMarkedList (element : Reading Node) : Nat → Reading (List Node)
  | 0 => fail .expectedType
  | fuel + 1 => do
    let isFirst ← popped .firstElementMarker
    let n ← element
    if isFirst then return [n]
    else return (← popMarkedList element fuel) ++ [n]

/-- Pops a list: either the mark of an empty one, or elements. -/
def popList (element : Reading Node) : Reading (List Node) := do
  if ← popped .emptyList then return []
  else popMarkedList element ((← get).stack.length + 1)

/-! ### The table -/

/-- Registers a node, which later operators can refer to. -/
def register (n : Node) : Reading Unit := fun m =>
  match m.table.register n false with
  | .ok table => .ok ((), { m with table })
  | .error e => fail (.malformedNode e) m

/-- The registered node with a number. -/
def resolve (index : Int) : Reading Node := do
  match (← get).table.node? index with
  | .ok n => return n
  | .error u => fail (.unknownSubstitution u)

end Reading

end SwiftABI
