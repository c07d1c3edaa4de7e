/-
  The slots of a value witness table.

  A table holds functions, which operate on values of a type, and data about the type. Some slots
  are in the tables of enums only. `RequiredValueWitnesses` and `AllValueWitnesses` are the records
  that the two sorts of table make, and a `ValueBuffer` is the room that is set aside for a value.
-/
import SwiftABI.Record.Basic

namespace SwiftABI

/-- The slots, in the order of a table. -/
inductive WitnessSlot where
  | initializeBufferWithCopyOfBuffer
  | destroy
  | initializeWithCopy
  | assignWithCopy
  | initializeWithTake
  | assignWithTake
  | getEnumTagSinglePayload
  | storeEnumTagSinglePayload
  | size
  | stride
  | flags
  | extraInhabitantCount
  | getEnumTag
  | destructiveProjectEnumData
  | destructiveInjectEnumTag
  deriving DecidableEq

/-- What an argument or a result of a witness is. -/
inductive WitnessRole where
  | mutableValue
  | immutableValue
  | mutableBuffer
  | immutableBuffer
  | type
  | size
  | flags
  | count
  | int
  | uint
  | void

/-- The slot that is meant, by its name or by its position. -/
inductive SlotKey where
  | name (s : String)
  | position (i : Int)

/-- A key that no slot has. -/
inductive SlotKeyFault where
  | noName (s : String)
  | noPosition

namespace WitnessSlot

def all : List WitnessSlot :=
  [.initializeBufferWithCopyOfBuffer, .destroy, .initializeWithCopy, .assignWithCopy,
   .initializeWithTake, .assignWithTake, .getEnumTagSinglePayload, .storeEnumTagSinglePayload,
   .size, .stride, .flags, .extraInhabitantCount, .getEnumTag, .destructiveProjectEnumData,
   .destructiveInjectEnumTag]

def name : WitnessSlot → String
  | .initializeBufferWithCopyOfBuffer => "initializeBufferWithCopyOfBuffer"
  | .destroy => "destroy"
  | .initializeWithCopy => "initializeWithCopy"
  | .assignWithCopy => "assignWithCopy"
  | .initializeWithTake => "initializeWithTake"
  | .assignWithTake => "assignWithTake"
  | .getEnumTagSinglePayload => "getEnumTagSinglePayload"
  | .storeEnumTagSinglePayload => "storeEnumTagSinglePayload"
  | .size => "size"
  | .stride => "stride"
  | .flags => "flags"
  | .extraInhabitantCount => "extraInhabitantCount"
  | .getEnumTag => "getEnumTag"
  | .destructiveProjectEnumData => "destructiveProjectEnumData"
  | .destructiveInjectEnumTag => "destructiveInjectEnumTag"

/-- The name of the function in a slot, with underscores between its words. -/
def functionName (s : WitnessSlot) : String :=
  String.ofList (s.name.toList.flatMap fun c => if c.isUpper then ['_', c.toLower] else [c])

/-- Does the slot hold data, and not a function? -/
def isData : WitnessSlot → Bool
  | .size | .stride | .flags | .extraInhabitantCount => true
  | _ => false

/-- Is the slot in every table? The others are in the tables of enums. -/
def isRequired : WitnessSlot → Bool
  | .getEnumTag | .destructiveProjectEnumData | .destructiveInjectEnumTag => false
  | _ => true

/-- What a witness answers with, or what a datum is. -/
def result : WitnessSlot → WitnessRole
  | .initializeBufferWithCopyOfBuffer | .initializeWithCopy | .assignWithCopy
  | .initializeWithTake | .assignWithTake => .mutableValue
  | .destroy | .storeEnumTagSinglePayload | .destructiveProjectEnumData
  | .destructiveInjectEnumTag => .void
  | .getEnumTagSinglePayload => .uint
  | .size | .stride => .size
  | .flags => .flags
  | .extraInhabitantCount => .count
  | .getEnumTag => .int

/-- What a witness is called with. The last argument is the type. -/
def parameters : WitnessSlot → List WitnessRole
  | .initializeBufferWithCopyOfBuffer => [.mutableBuffer, .mutableBuffer, .type]
  | .destroy | .destructiveProjectEnumData => [.mutableValue, .type]
  | .initializeWithCopy | .assignWithCopy | .initializeWithTake | .assignWithTake =>
    [.mutableValue, .mutableValue, .type]
  | .getEnumTagSinglePayload => [.immutableValue, .uint, .type]
  | .storeEnumTagSinglePayload => [.mutableValue, .uint, .uint, .type]
  | .size | .stride | .flags | .extraInhabitantCount => []
  | .getEnumTag => [.immutableValue, .type]
  | .destructiveInjectEnumTag => [.mutableValue, .uint, .type]

/-- The slot with a key. -/
def find : SlotKey → Except SlotKeyFault WitnessSlot
  | .name s =>
    match all.find? fun slot => slot.name = s with
    | some slot => .ok slot
    | none => .error (.noName s)
  | .position i =>
    match Position.pick all i with
    | some slot => .ok slot
    | none => .error .noPosition

/-- The field of a slot in a record. -/
def field (s : WitnessSlot) : Field :=
  { name := s.name
    type :=
      match s with
      | .flags | .extraInhabitantCount => .bytes 4
      | _ => .pointer }

/-- The slots that are in every table. -/
def required : List WitnessSlot := all.filter isRequired

end WitnessSlot

namespace Schema

/-- A table with the slots that all tables have. -/
def requiredValueWitnesses : Schema :=
  ofFields "RequiredValueWitnesses" (WitnessSlot.required.map WitnessSlot.field)

/-- A table with all slots. -/
def allValueWitnesses : Schema :=
  ofFields "AllValueWitnesses" (WitnessSlot.all.map WitnessSlot.field)

/-- Room for a value, or for the address of one. -/
def valueBuffer : Schema :=
  ofFields "ValueBuffer" (["word0", "word1", "word2"].map fun name => ⟨name, .pointer⟩)

end Schema

end SwiftABI
