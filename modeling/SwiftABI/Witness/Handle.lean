/-
  Handles: the integers that stand for functions in the fields of a table.

  A function gets a handle when it is registered, and keeps it. Handles begin at `firstHandle` and
  are as far apart as the stride says.
-/
import SwiftABI.Memory.Basic
import SwiftABI.Witness.Slot

namespace SwiftABI

/-- A function that can have a handle. -/
inductive FunctionRef where
  | witness (slot : WitnessSlot)
  | named (name : String)
  deriving DecidableEq

namespace FunctionRef

/-- The name that the log gives to a function. -/
def name : FunctionRef → String
  | .witness slot => slot.functionName
  | .named name => name

end FunctionRef

/-- The functions that have handles, the latest first. -/
structure FunctionTable where
  stride : Int
  handles : List (FunctionRef × Int) := []

namespace FunctionTable

def firstHandle : Int := 0x1000

/-- The number of handles in use. -/
def length (t : FunctionTable) : Nat := (t.handles.map Prod.snd).eraseDups.length

/-- The handle of a function that has one. -/
def handle? (t : FunctionTable) (f : FunctionRef) : Option Int :=
  (t.handles.find? fun entry => entry.1 = f).map Prod.snd

/-- The function with a handle. If several have the same, it is the latest. -/
def function? (t : FunctionTable) (handle : Int) : Option FunctionRef :=
  (t.handles.find? fun entry => entry.2 = handle).map Prod.fst

/-- The handle that a new function is going to get. -/
def nextHandle (t : FunctionTable) : Int := firstHandle + t.length * t.stride

/-- Gives a function a handle, unless it has one. -/
def register (t : FunctionTable) (f : FunctionRef) : Int × FunctionTable :=
  match t.handle? f with
  | some handle => (handle, t)
  | none => (t.nextHandle, { t with handles := (f, t.nextHandle) :: t.handles })

/-- The function with a handle, which has to be there. -/
def resolve (t : FunctionTable) (handle : Int) : Except AccessFault FunctionRef :=
  match t.function? handle with
  | some f => .ok f
  | none => .error (.noFunction handle)

end FunctionTable

end SwiftABI
