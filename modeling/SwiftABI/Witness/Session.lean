/-
  Working on values: the state of a session, what can go wrong in it, and its elementary steps.

  A session has the memory that values live in and the handles of functions. It also keeps a record
  of what happens: the hooks that run when values are copied and destroyed, and the entries of the
  log. A step that fails keeps what it has changed before.
-/
import SwiftABI.Log
import SwiftABI.Witness.Handle

namespace SwiftABI

/-! ### Faults -/

/-- How a witness is used against its contract. -/
inductive Breach where
  | notInitialized (what : String) (address : Int)
  | alreadyInitialized (what : String) (address : Int)
  | sameAddress
  | caseRange (given count : Int)
  | tagRange (given count : Int)
  | noEnumWitnesses (table : Text)
  | emptyBuffer (address : Int)
  deriving DecidableEq

def Breach.message : Breach → Text
  | .notInitialized what a => what ++ " at " ++ Text.hex a ++ " is not initialized"
  | .alreadyInitialized what a =>
    what ++ " at " ++ Text.hex a ++ " is already initialized"
  | .sameAddress => "dest and src must be distinct"
  | .caseRange given count => s!"case {given} out of range for {count} empty cases"
  | .tagRange given count => s!"tag {given} out of range for {count} cases"
  | .noEnumWitnesses table => table ++ " has no enum witnesses"
  | .emptyBuffer a => "buffer at " ++ Text.hex a ++ " holds no value"

/-- A breach of the contract of an operation. -/
structure Violation where
  operation : String
  breach : Breach
  deriving DecidableEq

def Violation.message (v : Violation) : Text := v.operation ++ ": " ++ v.breach.message

/-- What can go wrong in a session. -/
inductive SessionFault where
  | access (f : AccessFault)
  | request (f : MemoryRequestFault)
  | integer (f : IntegerFault)
  | violation (v : Violation)
  | slotKey (f : SlotKeyFault)
  /-- A slot is used as a function, but holds data. -/
  | dataSlot (slot : WitnessSlot)
  /-- A function is called with arguments that it cannot take. -/
  | arguments
  /-- A number has more digits than can be shown. -/
  | unshowable
  /-- A fault of another kind, which only a hook can raise. -/
  | foreign (message : Text)

/-! ### State -/

/-- A hook that has run, and which of its addresses held an initialized value at that moment. -/
inductive HookEvent where
  | copy (dest src : Int) (destInitialized srcInitialized : Bool)
  | destroy (address : Int) (initialized : Bool)
  deriving DecidableEq

structure Session where
  memory : Memory
  functions : FunctionTable
  /-- The hooks that have run, in their order. -/
  events : List HookEvent := []
  /-- The entries of the log, in their order. -/
  notes : List Log.Entry := []

/-- A session with memory in which nothing has happened. -/
def Session.ofMemory (m : Memory) : Session :=
  { memory := m, functions := { stride := m.pointerSize } }

/-- Some steps of a session. -/
abbrev Run (α : Type) := ExceptT SessionFault (StateM Session) α

namespace Run

/-- Writes an entry into the log. -/
def note (level : Log.Level) (message : Text) : Run Unit :=
  modify fun s => { s with notes := s.notes ++ [⟨level, message⟩] }

def memory : Run Memory := return (← get).memory

def setMemory (m : Memory) : Run Unit := modify fun s => { s with memory := m }

/-- Refuses an operation, which the log is told. -/
def violate {α : Type} (operation : String) (breach : Breach) : Run α := do
  let v : Violation := ⟨operation, breach⟩
  note .debug v.message
  throw (.violation v)

/-- A result of an access. The log is told of a fault. -/
def accessed {α : Type} : Except AccessFault α → Run α
  | .ok a => pure a
  | .error f => do
    note .debug f.remark
    throw (.access f)

def requested {α : Type} : Except MemoryRequestFault α → Run α
  | .ok a => pure a
  | .error f => throw (.request f)

def converted {α : Type} : Except IntegerFault α → Run α
  | .ok a => pure a
  | .error f => throw (.integer f)

/-! ### Storage -/

/-- Takes storage. -/
def allocate (size alignment : Int) : Run Int := do
  let (address, m) ← requested ((← memory).allocate size alignment)
  setMemory m
  note .trace (s!"Allocated {size} bytes at " ++ Text.hex address)
  return address

/-- Gives storage back. -/
def deallocate (address : Int) : Run Unit := do
  setMemory (← accessed ((← memory).deallocate address))
  note .trace ("Freed " ++ Text.hex address)

/-! ### Bytes -/

/-- Reads bytes. A negative size is none. -/
def read (address size : Int) : Run Bytes := do accessed ((← memory).read address size.toNat)

/-- Writes bytes. A fault leaves the pages before it written. -/
def write (address : Int) (bytes : Bytes) : Run Unit := do
  let (result, m) := (← memory).write address bytes
  setMemory m
  accessed result

/-- Reads an integer. -/
def readInt (address size : Int) (signed : Bool) : Run Int := do
  let bytes ← read address size
  return if signed then bytes.toSigned else bytes.toNat

/-- The bytes of an integer. Without a sign, the high bytes that do not fit are dropped. -/
def integerBytes (value size : Int) (signed : Bool) : Except IntegerFault Bytes :=
  if signed then Bytes.encodeSigned size value
  else if size < 0 then .error .negativeShift
  else .ok (Bytes.ofNat size.toNat (value % (256 ^ size.toNat : Nat)).toNat)

/-- Writes an integer. -/
def writeInt (address value size : Int) (signed : Bool) : Run Unit := do
  write address (← converted (integerBytes value size signed))

def readPointer (address : Int) : Run Int := do readInt address (← memory).pointerSize false

def writePointer (address value : Int) : Run Unit := do
  writeInt address value (← memory).pointerSize false

/-- Copies bytes, which are read before any is written. -/
def copy (dest src size : Int) : Run Unit := do write dest (← read src size)

/-- Writes the same byte several times. -/
def fill (address size byte : Int) : Run Unit := do
  if byte < 0 ∨ 255 < byte then throw (.integer .byteRange)
  write address (List.replicate size.toNat (UInt8.ofNat byte.toNat))

/-! ### Marks -/

def isInitialized (address : Int) : Run Bool := return (← memory).isInitialized address

def markInitialized (address : Int) : Run Unit := do
  setMemory ((← memory).markInitialized address)

def markUninitialized (address : Int) : Run Unit := do
  setMemory ((← memory).markUninitialized address)

/-- Goes on only if there is an initialized value at the address. -/
def requireInitialized (operation what : String) (address : Int) : Run Unit := do
  if !(← isInitialized address) then violate operation (.notInitialized what address)

/-- Goes on only if there is no initialized value at the address. -/
def requireUninitialized (operation what : String) (address : Int) : Run Unit := do
  if ← isInitialized address then violate operation (.alreadyInitialized what address)

/-! ### Functions and hooks -/

/-- Gives a function a handle. The log is told if it is a new one. -/
def register (f : FunctionRef) : Run Int := do
  let before := (← get).functions
  let (handle, functions) := before.register f
  modify fun s => { s with functions }
  if (before.handle? f).isNone then
    note .trace ("Registered function " ++ f.name ++ " at " ++ Text.hex handle)
  return handle

/-- The function with a handle. -/
def resolve (handle : Int) : Run FunctionRef := do
  accessed ((← get).functions.resolve handle)

/-- Records a hook. -/
def record (e : HookEvent) : Run Unit := modify fun s => { s with events := s.events ++ [e] }

/-- Records that the hook for a copied value runs. -/
def copied (dest src : Int) : Run Unit := do
  record (.copy dest src (← isInitialized dest) (← isInitialized src))

/-- Records that the hook for a destroyed value runs. -/
def destroyed (address : Int) : Run Unit := do
  record (.destroy address (← isInitialized address))

end Run

end SwiftABI
