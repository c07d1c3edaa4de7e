/-
  Value witness tables.

  A table belongs to a type and is known by the name of that. Its data come from the layout of the
  type, and its functions are the value witnesses of `WitnessTable.call`.
-/
import SwiftABI.Description.Basic
import SwiftABI.Witness.Layout
import SwiftABI.Witness.Session

namespace SwiftABI

structure WitnessTable where
  layout : TypeLayout
  name : Text
  /-- The words of a buffer that a value may live in. -/
  bufferWords : Int

/-- Why a table cannot be built. -/
inductive TableFault where
  | pointerSizes (layout memory : Int)
  | unnamed (stop : Description.Stop Unmangleable)

/-- The message of a table whose layout does not go with its memory. -/
def pointerSizeMessage (layout memory : Int) : Text :=
  s!"Layout uses {layout} byte pointers, memory uses {memory}"

namespace WitnessTable

/-- The name of a type that is not given. -/
def opaqueName : Text := "<opaque type>".text

/-- The name of a type. -/
def nameOf : Option Node → Except (Description.Stop Unmangleable) Text
  | none => .ok opaqueName
  | some n => describe .standard n

/-- Builds the table of a type with a layout, for values in a memory. -/
def build (cfg : Config) (l : TypeLayout) (m : Memory) (type : Option Node) :
    Except TableFault WitnessTable :=
  if l.pointerSize ≠ m.pointerSize then .error (.pointerSizes l.pointerSize m.pointerSize)
  else
    match nameOf type with
    | .error stop => .error (.unnamed stop)
    | .ok name => .ok { layout := l, name, bufferWords := cfg.bufferWords }

variable (t : WitnessTable)

/-- The layout of the type, as a message shows it. -/
def layoutShown : Text := t.layout.shown t.bufferWords

/-- The table as a message shows it. -/
def shown : Text := "<ValueWitnessTable " ++ t.name ++ " " ++ t.layoutShown ++ ">"

/-- The log of building a table of a type. -/
def buildLog (type : Option Node) : Except TableFault WitnessTable → List Log.Entry
  | .ok t =>
    [⟨.debug, "Built value witness table for " ++ t.name ++ ": " ++ t.layoutShown⟩]
  | .error (.pointerSizes _ _) => []
  | .error (.unnamed _) =>
    match type with
    | some n => describeLog .standard n
    | none => []

/-! ### Slots -/

def flags : Nat := t.layout.flags t.bufferWords

/-- The datum in a slot, if the slot holds data. -/
def datum? : WitnessSlot → Option Int
  | .size => some t.layout.size
  | .stride => some t.layout.stride
  | .flags => some t.flags
  | .extraInhabitantCount => some t.layout.extraInhabitants
  | _ => none

/-- Does the table have the slot? -/
def has (slot : WitnessSlot) : Bool := slot.isRequired || t.layout.isEnum

/-- Does a value live in its buffer? -/
def isInline : Bool := t.layout.isInline t.bufferWords

/-- Do the flags say that there are slots for enums? -/
def hasEnumWitnesses : Bool := bit t.flags TypeLayout.enumBit

/-! ### Handles -/

/-- Goes on only if the table has the slot. -/
def requireSlot (slot : WitnessSlot) : Run Unit := do
  if !t.has slot then Run.violate slot.name (.noEnumWitnesses t.name)

/-- The handle of the function in a slot. -/
def handle (slot : WitnessSlot) : Run Int := do
  if slot.isData then throw (.dataSlot slot)
  t.requireSlot slot
  Run.register (.witness slot)

/-- The value of a slot in a record of the table. Slots that the table lacks are zero. -/
def slotValue (slot : WitnessSlot) : Run Int := do
  match t.datum? slot with
  | some datum => return datum
  | none => if t.has slot then t.handle slot else return 0

/-- The values of some slots, from first to last. -/
def slotValues : List WitnessSlot → Run (List Int)
  | [] => return []
  | slot :: slots => do
    let value ← t.slotValue slot
    return value :: (← slotValues slots)

/-- The table as a record of the given slots. -/
def record (schema : Schema) (slots : List WitnessSlot) : Run Record := do
  let values ← t.slotValues slots
  return { schema, values, packing := { pointerSize := some (← Run.memory).pointerSize } }

/-- The table as a record of the slots that all tables have. -/
def required : Run Record := t.record .requiredValueWitnesses WitnessSlot.required

/-- The table as a record of all slots. -/
def all : Run Record := t.record .allValueWitnesses WitnessSlot.all

end WitnessTable

end SwiftABI
