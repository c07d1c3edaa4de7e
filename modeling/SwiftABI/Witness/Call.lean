/-
  The value witnesses: copying, moving, destroying and tagging values of a type.

  A witness first checks that its contract is kept: which of its addresses have to hold an
  initialized value, and which must not. Then it moves the bytes, runs the hooks of the type, and
  marks what holds a value now.

  Values that are small enough live in a buffer directly. Others are put into a box, and the buffer
  holds its address.
-/
import SwiftABI.Witness.EnumTag
import SwiftABI.Witness.Table

namespace SwiftABI

namespace WitnessTable

variable (t : WitnessTable)

/-! ### Values -/

/-- Runs the hook for a copied value, if there is one. -/
def runCopyHook (dest src : Int) : Run Unit :=
  match t.layout.onCopy with
  | none => return
  | some hook => do
    Run.copied dest src
    hook dest src

/-- Copies the bytes of a value, and runs the hook for it. -/
def copyValue (dest src : Int) : Run Unit := do
  Run.copy dest src t.layout.size
  t.runCopyHook dest src

/-- Runs the hook for a destroyed value, if there is one. -/
def destroyValue (address : Int) : Run Unit :=
  match t.layout.onDestroy with
  | none => return
  | some hook => do
    Run.destroyed address
    hook address

/-- Moves a value, as its bytes if the type allows that. -/
def moveValue (dest src : Int) : Run Unit := do
  if t.layout.isBitwiseTakable then Run.copy dest src t.layout.size
  else
    t.copyValue dest src
    t.destroyValue src

/-- Takes storage for a value and some more bytes. -/
def newValue (extraBytes : Int) : Run Int :=
  Run.allocate (t.layout.size + extraBytes) t.layout.alignment

/-! ### Buffers -/

/-- The bytes of a buffer. -/
def bufferSize : Run Int := do
  return 3 * (← Run.memory).pointerSize

/-- Takes storage for a buffer, which holds no value. -/
def newBuffer : Run Int := do
  let size ← bufferSize
  let address ← Run.allocate size (← Run.memory).pointerSize
  Run.fill address size 0
  return address

/-- Makes room for a value in a buffer, and answers with its address. -/
def allocateBuffer (buffer : Int) : Run Int := do
  if t.isInline then return buffer
  let box ← Run.allocate t.layout.size t.layout.alignment
  Run.writePointer buffer box
  return box

/-- The address of the value in a buffer. -/
def projectBuffer (buffer : Int) : Run Int := do
  if t.isInline then return buffer
  let box ← Run.readPointer buffer
  if box = 0 then Run.violate "projectBuffer" (.emptyBuffer buffer)
  return box

/-- Gives back the room of a value in a buffer. The value must have been destroyed. -/
def deallocateBuffer (buffer : Int) : Run Unit := do
  let value ← t.projectBuffer buffer
  Run.requireUninitialized "deallocateBuffer" "buffer value" value
  if !t.isInline then
    Run.deallocate value
    Run.writePointer buffer 0
  Run.markUninitialized buffer

/-! ### Required witnesses -/

/-- Copies a value from one buffer into another, for which room is made. -/
def initializeBufferWithCopyOfBuffer (dest src : Int) : Run Int := do
  let slot := "initializeBufferWithCopyOfBuffer"
  Run.requireUninitialized slot "dest buffer" dest
  let srcValue ← t.projectBuffer src
  Run.requireInitialized slot "src value" srcValue
  let destValue ← t.allocateBuffer dest
  t.copyValue destValue srcValue
  Run.markInitialized dest
  Run.markInitialized destValue
  return destValue

def destroy (value : Int) : Run Unit := do
  Run.requireInitialized "destroy" "value" value
  t.destroyValue value
  Run.markUninitialized value

def initializeWithCopy (dest src : Int) : Run Int := do
  let slot := "initializeWithCopy"
  Run.requireUninitialized slot "dest" dest
  Run.requireInitialized slot "src" src
  t.copyValue dest src
  Run.markInitialized dest
  return dest

/-- Destroys a value and copies another one over it. A value stays as it is under itself. -/
def assignWithCopy (dest src : Int) : Run Int := do
  let slot := "assignWithCopy"
  Run.requireInitialized slot "dest" dest
  Run.requireInitialized slot "src" src
  if dest = src then return dest
  t.destroyValue dest
  t.copyValue dest src
  return dest

def initializeWithTake (dest src : Int) : Run Int := do
  let slot := "initializeWithTake"
  Run.requireUninitialized slot "dest" dest
  Run.requireInitialized slot "src" src
  t.moveValue dest src
  Run.markUninitialized src
  Run.markInitialized dest
  return dest

def assignWithTake (dest src : Int) : Run Int := do
  let slot := "assignWithTake"
  if dest = src then Run.violate slot .sameAddress
  Run.requireInitialized slot "dest" dest
  Run.requireInitialized slot "src" src
  t.destroyValue dest
  t.moveValue dest src
  Run.markUninitialized src
  return dest

/-! ### Enums with a single payload

The first empty cases are the extra inhabitants of the payload. The others have a tag behind the
payload, which then says together with the tag which of them it is. -/

/-- The bytes of the tag behind the payload. -/
def tagBytes (emptyCases : Int) : Nat :=
  let inhabitants := t.layout.extraInhabitants
  if emptyCases ≤ inhabitants then 0
  else EnumTag.bytes (EnumTag.count t.layout.size (emptyCases - inhabitants) 1)

/-- The bytes of an enum with this type as its payload. -/
def singlePayloadEnumSize (emptyCases : Int) : Int := t.layout.size + t.tagBytes emptyCases

/-- The lowest extra inhabitant. -/
def firstInhabitant : Int := (Bytes.patterns t.layout.size : Int) - t.layout.extraInhabitants

/-- The bytes of a payload that tell empty cases apart. -/
def caseBytes : Nat := min t.layout.size 4

/-- The case that the payload says an enum is, where zero is the payload itself. -/
def loadInhabitant (value : Int) : Run Int := do
  if t.layout.extraInhabitants = 0 then return 0
  let payload ← Run.readInt value t.layout.size false
  return if t.firstInhabitant ≤ payload then payload - t.firstInhabitant + 1 else 0

/-- Which case an enum is. Zero is the payload. -/
def getEnumTagSinglePayload (value emptyCases : Int) : Run Int := do
  Run.requireInitialized "getEnumTagSinglePayload" "value" value
  let size := t.layout.size
  let inhabitants := t.layout.extraInhabitants
  if emptyCases ≤ inhabitants then return ← t.loadInhabitant value
  let tag ← Run.readInt (value + size) (t.tagBytes emptyCases) false
  if tag ≤ 0 then return ← t.loadInhabitant value
  let fromTag := if 4 ≤ size then 0 else (tag - 1) * Bytes.patterns size
  let fromValue ← Run.readInt value t.caseBytes false
  return fromTag + fromValue + inhabitants + 1

/-- Writes a case that has a tag, by its number among those. -/
def storeTagged (value index : Int) (tagBytes : Nat) : Run Unit := do
  let size := t.layout.size
  let tag := if 4 ≤ size then 1 else 1 + index / Bytes.patterns size
  let payload := if 4 ≤ size then index else index % Bytes.patterns size
  if size ≠ 0 then
    Run.fill value size 0
    Run.writeInt value payload t.caseBytes false
  Run.writeInt (value + size) tag tagBytes false

/-- Makes an enum one of its cases. For the payload it must hold a value already. -/
def storeEnumTagSinglePayload (value whichCase emptyCases : Int) : Run Unit := do
  let slot := "storeEnumTagSinglePayload"
  if emptyCases < whichCase then Run.violate slot (.caseRange whichCase emptyCases)
  if whichCase = 0 then Run.requireInitialized slot "payload" value
  let size := t.layout.size
  let inhabitants := t.layout.extraInhabitants
  let tagBytes := t.tagBytes emptyCases
  if whichCase ≤ inhabitants then
    if tagBytes ≠ 0 then Run.writeInt (value + size) 0 tagBytes false
    if whichCase ≠ 0 then Run.writeInt value (t.firstInhabitant + whichCase - 1) size false
  else t.storeTagged value (whichCase - 1 - inhabitants) tagBytes
  if whichCase ≠ 0 then Run.markInitialized value

/-! ### Enums whose cases carry nothing -/

/-- The tag of an enum, which is its whole value. -/
def getEnumTag (value : Int) : Run Int := do
  Run.requireInitialized "getEnumTag" "value" value
  Run.readInt value t.layout.size false

/-- Makes an enum ready for taking its payload out, which it does not have. -/
def destructiveProjectEnumData (value : Int) : Run Unit :=
  Run.requireInitialized "destructiveProjectEnumData" "value" value

/-- Makes an enum the case with a tag. A type without cases has no tag. -/
def destructiveInjectEnumTag (value tag : Int) : Run Unit := do
  match t.layout.caseCount with
  | none => throw .arguments
  | some count =>
    if count ≤ tag then Run.violate "destructiveInjectEnumTag" (.tagRange tag count)
    Run.writeInt value tag t.layout.size false
    Run.markInitialized value

/-! ### Calls -/

/-- A step without an answer. -/
def silent (r : Run Unit) : Run (Option Int) := do
  r
  return none

/-- A step with an answer. -/
def answered (r : Run Int) : Run (Option Int) := return some (← r)

/-- Calls the witness of a slot. The type itself is not among the arguments. -/
def call (slot : WitnessSlot) (args : List Int) : Run (Option Int) :=
  match slot, args with
  | .initializeBufferWithCopyOfBuffer, [dest, src] =>
    answered (t.initializeBufferWithCopyOfBuffer dest src)
  | .destroy, [value] => silent (t.destroy value)
  | .initializeWithCopy, [dest, src] => answered (t.initializeWithCopy dest src)
  | .assignWithCopy, [dest, src] => answered (t.assignWithCopy dest src)
  | .initializeWithTake, [dest, src] => answered (t.initializeWithTake dest src)
  | .assignWithTake, [dest, src] => answered (t.assignWithTake dest src)
  | .getEnumTagSinglePayload, [value, emptyCases] =>
    answered (t.getEnumTagSinglePayload value emptyCases)
  | .storeEnumTagSinglePayload, [value, whichCase, emptyCases] =>
    silent (t.storeEnumTagSinglePayload value whichCase emptyCases)
  | .getEnumTag, [value] => answered (t.getEnumTag value)
  | .destructiveProjectEnumData, [value] => silent (destructiveProjectEnumData value)
  | .destructiveInjectEnumTag, [value, tag] => silent (t.destructiveInjectEnumTag value tag)
  | _, _ => throw .arguments

/-- The arguments of a call, as the log shows them. -/
def argumentsShown : List Int → Text
  | [] => "()".text
  | [n] => "(" ++ Text.decimal n ++ ",)"
  | n :: ns => "(" ++ Text.decimal n ++ ns.flatMap (", ".text ++ Text.decimal ·) ++ ")"

/-- Calls the witness of a slot through its handle, the way that code calls through the pointers of
a table. The log shows the arguments before the call, so that numbers of too many digits are
refused. -/
def invoke (slot : WitnessSlot) (args : List Int) : Run (Option Int) := do
  let f ← Run.resolve (← t.handle slot)
  if !args.all Text.isShowable then throw .unshowable
  Run.note .detail (t.name ++ "." ++ slot.name ++ argumentsShown args)
  match f with
  | .witness slot => t.call slot args
  | .named _ => throw .arguments

end WitnessTable

end SwiftABI
