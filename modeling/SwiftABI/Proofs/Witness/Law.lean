/-
  What elementary steps have in common, calls have in common.

  All that is done to values and their buffers is made of a few elementary steps. Some only look at
  the session, some change it, and some refuse to go on. A witness first makes its checks, which
  change nothing, and then its changes, which breach no contract. So the witnesses are gone through
  once (`Run.CheckedLaw.call`), with one property of the checks, one of the changes, and one of what
  begins with checks and ends with changes.

  A property that all elementary steps have is a `Run.Law`, where the three are the same
  (`Run.Law.checked`). If giving functions handles has it as well (`Run.TableLaw`), so has every
  call on a table (`Run.TableLaw.perform`). A property is only asked about the elementary steps, and
  about the hooks of a table, which can be anything.
-/
import SwiftABI.Proofs.Memory.Calls
import SwiftABI.Proofs.Witness.Hooks

namespace SwiftABI

/-- Is the call one about functions, and not about memory itself? -/
def MemoryCall.concernsFunctions : MemoryCall → Bool
  | .register _ | .resolve _ => true
  | _ => false

/-- Is the fault the breach of a contract? -/
def SessionFault.isViolation : SessionFault → Bool
  | .violation _ => true
  | _ => false

/-- A call that is made on a table: of a witness, or of an operation on the buffers of values. -/
inductive WitnessCall where
  | invoke (slot : WitnessSlot) (arguments : List Int)
  | projectBuffer (buffer : Int)
  | allocateBuffer (buffer : Int)
  | deallocateBuffer (buffer : Int)

/-- Makes the call. -/
def WitnessCall.perform (t : WitnessTable) : WitnessCall → Run (Option Int)
  | .invoke slot arguments => t.invoke slot arguments
  | .projectBuffer buffer => WitnessTable.answered (t.projectBuffer buffer)
  | .allocateBuffer buffer => WitnessTable.answered (t.allocateBuffer buffer)
  | .deallocateBuffer buffer => WitnessTable.silent (t.deallocateBuffer buffer)

namespace Run

/-- A property that steps have which look at the session and go on, or end with a fault that is no
breach of a contract. Sequences of steps keep it. -/
structure LookLaw (P : ∀ {α : Type}, Run α → Prop) : Prop where
  pure {α : Type} (a : α) : P (Pure.pure a : Run α)
  bind {α β : Type} {x : Run α} {f : α → Run β} (hx : P x) (hf : ∀ a, P (f a)) : P (x >>= f)
  throw {α : Type} (e : SessionFault) (he : e.isViolation = false) :
    P (MonadExcept.throw e : Run α)
  note (level : Log.Level) (message : Text) : P (Run.note level message)
  memory : P Run.memory

/-- A property that also the steps have which change memory or record a hook. -/
structure StepLaw (P : ∀ {α : Type}, Run α → Prop) : Prop extends LookLaw P where
  write (address : Int) (bytes : Bytes) : P (Run.write address bytes)
  allocate (size alignment : Int) : P (Run.allocate size alignment)
  deallocate (address : Int) : P (Run.deallocate address)
  markInitialized (address : Int) : P (Run.markInitialized address)
  markUninitialized (address : Int) : P (Run.markUninitialized address)
  record (e : HookEvent) : P (Run.record e)

/-- A property that also refusals have. -/
structure CheckLaw (P : ∀ {α : Type}, Run α → Prop) : Prop extends LookLaw P where
  violate {α : Type} (operation : String) (breach : Breach) :
    P (Run.violate operation breach : Run α)

/-- A property that checks have, and giving functions handles and finding them again. -/
structure HandleLaw (P : ∀ {α : Type}, Run α → Prop) : Prop extends CheckLaw P where
  register (f : FunctionRef) : P (Run.register f)
  resolve (handle : Int) : P (Run.resolve handle)

/-- Three properties: of checks, of changes, and of what begins with checks and ends with
changes. -/
structure CheckedLaw (C P Q : ∀ {α : Type}, Run α → Prop) : Prop where
  checks : CheckLaw C
  changes : StepLaw P
  of_checks {α : Type} {x : Run α} (hx : C x) : Q x
  of_changes {α : Type} {x : Run α} (hx : P x) : Q x
  after {α β : Type} {x : Run α} {f : α → Run β} (hx : C x) (hf : ∀ a, Q (f a)) : Q (x >>= f)
  bind {α β : Type} {x : Run α} {f : α → Run β} (hx : Q x) (hf : ∀ a, P (f a)) : Q (x >>= f)

/-- A property that all steps on memory and all refusals have. -/
structure Law (P : ∀ {α : Type}, Run α → Prop) : Prop extends StepLaw P, CheckLaw P

/-- A law that also holds of giving functions handles, and of finding them again. -/
structure TableLaw (P : ∀ {α : Type}, Run α → Prop) : Prop extends Law P, HandleLaw P

/-- With one property for all steps there is nothing to tell apart. -/
theorem Law.checked {P : ∀ {α : Type}, Run α → Prop} (h : Law P) : CheckedLaw P P P where
  checks := h.toCheckLaw
  changes := h.toStepLaw
  of_checks hx := hx
  of_changes hx := hx
  after hx hf := h.bind hx hf
  bind hx hf := h.bind hx hf

theorem ite {P : Run α → Prop} {c : Prop} [Decidable c] {x y : Run α} (hx : P x) (hy : P y) :
    P (if c then x else y) :=
  iteInduction (fun _ => hx) fun _ => hy

/-! ### Looking -/

namespace LookLaw

variable {P : ∀ {α : Type}, Run α → Prop} {α β : Type} {x : Run α} (h : LookLaw P)

include h

/-- A step that is taken in some cases only. -/
theorem guarded {c : Prop} [Decidable c] {z : Run β} (hz : P z) (hx : P x) :
    P (if c then z >>= fun _ => x else x) :=
  Run.ite (h.bind hz fun _ => hx) hx

theorem accessed (r : Except AccessFault α) : P (Run.accessed r) := by
  cases r with
  | ok a => exact h.pure a
  | error f => exact h.bind (h.note _ _) fun _ => h.throw _ rfl

theorem converted (r : Except IntegerFault α) : P (Run.converted r) := by
  cases r with
  | ok a => exact h.pure a
  | error f => exact h.throw _ rfl

theorem read (address size : Int) : P (Run.read address size) :=
  h.bind h.memory fun _ => h.accessed _

theorem readInt (address size : Int) (signed : Bool) : P (Run.readInt address size signed) :=
  h.bind (h.read address size) fun _ => h.pure _

theorem readPointer (address : Int) : P (Run.readPointer address) :=
  h.bind h.memory fun _ => h.readInt _ _ _

theorem isInitialized (address : Int) : P (Run.isInitialized address) :=
  h.bind h.memory fun _ => h.pure _

theorem loadInhabitant (t : WitnessTable) (value : Int) : P (t.loadInhabitant value) :=
  Run.ite (h.pure _) (h.bind (h.readInt _ _ _) fun _ => h.pure _)

theorem silent {x : Run Unit} (hx : P x) : P (WitnessTable.silent x) :=
  h.bind hx fun _ => h.pure none

theorem answered {x : Run Int} (hx : P x) : P (WitnessTable.answered x) :=
  h.bind hx fun _ => h.pure _

end LookLaw

/-! ### Checks -/

namespace CheckLaw

variable {P : ∀ {α : Type}, Run α → Prop} (h : CheckLaw P)

include h

theorem requireInitialized (operation what : String) (address : Int) :
    P (Run.requireInitialized operation what address) := by
  refine h.bind (h.isInitialized address) fun _ => ?_
  exact Run.ite (h.violate _ _) (h.pure ())

theorem requireUninitialized (operation what : String) (address : Int) :
    P (Run.requireUninitialized operation what address) := by
  refine h.bind (h.isInitialized address) fun _ => ?_
  exact Run.ite (h.violate _ _) (h.pure ())

theorem projectBuffer (t : WitnessTable) (buffer : Int) : P (t.projectBuffer buffer) := by
  refine Run.ite (h.pure buffer) ?_
  refine h.bind (h.readPointer buffer) fun _ => ?_
  exact h.guarded (h.violate _ _) (h.pure _)

end CheckLaw

theorem HandleLaw.handle {P : ∀ {α : Type}, Run α → Prop} (h : HandleLaw P) (t : WitnessTable)
    (slot : WitnessSlot) : P (t.handle slot) := by
  refine h.guarded (h.throw _ rfl) ?_
  exact h.bind (Run.ite (h.violate _ _) (h.pure ())) fun _ => h.register _

/-! ### Changes -/

namespace StepLaw

variable {P : ∀ {α : Type}, Run α → Prop} (h : StepLaw P)

include h

theorem writeInt (address value size : Int) (signed : Bool) :
    P (Run.writeInt address value size signed) :=
  h.bind (h.converted _) fun _ => h.write address _

theorem writePointer (address value : Int) : P (Run.writePointer address value) :=
  h.bind h.memory fun _ => h.writeInt _ _ _ _

theorem copy (dest src size : Int) : P (Run.copy dest src size) :=
  h.bind (h.read src size) fun _ => h.write dest _

theorem fill (address size byte : Int) : P (Run.fill address size byte) :=
  h.guarded (h.throw _ rfl) (h.write _ _)

theorem copied (dest src : Int) : P (Run.copied dest src) := by
  refine h.bind (h.isInitialized dest) fun _ => ?_
  exact h.bind (h.isInitialized src) fun _ => h.record _

theorem destroyed (address : Int) : P (Run.destroyed address) :=
  h.bind (h.isInitialized address) fun _ => h.record _

theorem memoryCall {c : MemoryCall} (hc : c.concernsFunctions = false) : P c.perform := by
  cases c with
  | register | resolve => cases hc
  | allocate size alignment => exact h.bind (h.allocate _ _) fun _ => h.pure _
  | deallocate address => exact h.bind (h.deallocate _) fun _ => h.pure _
  | read address size => exact h.bind (h.read _ _) fun _ => h.pure _
  | readInt address size signed => exact h.bind (h.readInt _ _ _) fun _ => h.pure _
  | readPointer address => exact h.bind (h.readPointer _) fun _ => h.pure _
  | write address bytes => exact h.bind (h.write _ _) fun _ => h.pure _
  | writeInt address value size signed => exact h.bind (h.writeInt _ _ _ _) fun _ => h.pure _
  | writePointer address value => exact h.bind (h.writePointer _ _) fun _ => h.pure _
  | copy dest src size => exact h.bind (h.copy _ _ _) fun _ => h.pure _
  | fill address size byte => exact h.bind (h.fill _ _ _) fun _ => h.pure _
  | markInitialized address => exact h.bind (h.markInitialized _) fun _ => h.pure _
  | markUninitialized address => exact h.bind (h.markUninitialized _) fun _ => h.pure _
  | isInitialized address => exact h.bind (h.isInitialized _) fun _ => h.pure _
  | isMapped address => exact h.bind h.memory fun _ => h.pure _

theorem newBuffer : P WitnessTable.newBuffer := by
  refine h.bind (h.bind h.memory fun _ => h.pure _) fun _ => ?_
  refine h.bind h.memory fun _ => ?_
  refine h.bind (h.allocate _ _) fun _ => ?_
  exact h.bind (h.fill _ _ _) fun _ => h.pure _

variable (t : WitnessTable) (dest src value : Int)

theorem newValue (extraBytes : Int) : P (t.newValue extraBytes) := h.allocate _ _

theorem allocateBuffer (buffer : Int) : P (t.allocateBuffer buffer) := by
  refine Run.ite (h.pure buffer) ?_
  refine h.bind (h.allocate _ _) fun _ => ?_
  exact h.bind (h.writePointer _ _) fun _ => h.pure _

theorem storeTagged (index : Int) (tagBytes : Nat) : P (t.storeTagged value index tagBytes) := by
  refine Run.ite ?_ (h.writeInt _ _ _ _)
  refine h.bind (h.fill _ _ _) fun _ => ?_
  exact h.bind (h.writeInt _ _ _ _) fun _ => h.writeInt _ _ _ _

/-- What is left of storing a case of an enum with a payload once the contract is kept. -/
theorem storeCase (whichCase : Int) (tagBytes : Nat) : P (do
    if whichCase ≤ t.layout.extraInhabitants then
      if tagBytes ≠ 0 then Run.writeInt (value + t.layout.size) 0 tagBytes false
      if whichCase ≠ 0 then
        Run.writeInt value (t.firstInhabitant + whichCase - 1) t.layout.size false
    else t.storeTagged value (whichCase - 1 - t.layout.extraInhabitants) tagBytes
    if whichCase ≠ 0 then Run.markInitialized value) := by
  have hmark : P (if whichCase ≠ 0 then Run.markInitialized value else Pure.pure ()) :=
    Run.ite (h.markInitialized value) (h.pure ())
  refine Run.ite ?inhabitant ?tagged
  case inhabitant => exact h.guarded (h.writeInt _ _ _ _) (h.guarded (h.writeInt _ _ _ _) hmark)
  case tagged => exact h.bind (h.storeTagged t _ _ _) fun _ => hmark

/-- What is left of making an enum one of its cases once the contract is kept. -/
theorem injectTag (tag : Int) : P (do
    Run.writeInt value tag t.layout.size false
    Run.markInitialized value) :=
  h.bind (h.writeInt _ _ _ _) fun _ => h.markInitialized value

variable {t} (hooks : t.layout.HooksSatisfy P)

include hooks

theorem runCopyHook : P (t.runCopyHook dest src) := by
  unfold WitnessTable.runCopyHook
  split
  case h_1 => exact h.pure ()
  case h_2 hook hhook =>
    exact h.bind (h.copied dest src) fun _ => hooks.onCopy hook hhook dest src

theorem copyValue : P (t.copyValue dest src) :=
  h.bind (h.copy _ _ _) fun _ => h.runCopyHook dest src hooks

theorem destroyValue : P (t.destroyValue value) := by
  unfold WitnessTable.destroyValue
  split
  case h_1 => exact h.pure ()
  case h_2 hook hhook =>
    exact h.bind (h.destroyed value) fun _ => hooks.onDestroy hook hhook value

theorem moveValue : P (t.moveValue dest src) := by
  refine Run.ite (h.copy _ _ _) ?_
  exact h.bind (h.copyValue dest src hooks) fun _ => h.destroyValue src hooks

/-- What is left of a copy into a buffer once the contract is kept. -/
theorem bufferCopy : P (do
    let destValue ← t.allocateBuffer dest
    t.copyValue destValue value
    Run.markInitialized dest
    Run.markInitialized destValue
    return destValue) := by
  refine h.bind (h.allocateBuffer t dest) fun destValue => ?_
  refine h.bind (h.copyValue destValue value hooks) fun _ => ?_
  refine h.bind (h.markInitialized dest) fun _ => ?_
  exact h.bind (h.markInitialized destValue) fun _ => h.pure destValue

end StepLaw

/-! ### Witnesses -/

namespace CheckedLaw

variable {C P Q : ∀ {α : Type}, Run α → Prop} {α β : Type} (h : CheckedLaw C P Q)

include h

/-- A check that is made in some cases only. -/
theorem guarded {c : Prop} [Decidable c] {y : Run β} {x : Run α} (hy : C y) (hx : Q x) :
    Q (if c then y >>= fun _ => x else x) :=
  Run.ite (h.after hy fun _ => hx) hx

theorem silent {x : Run Unit} (hx : Q x) : Q (WitnessTable.silent x) :=
  h.bind hx fun _ => h.changes.pure none

theorem answered {x : Run Int} (hx : Q x) : Q (WitnessTable.answered x) :=
  h.bind hx fun _ => h.changes.pure _

variable (t : WitnessTable) (dest src value buffer : Int)

theorem deallocateBuffer : Q (t.deallocateBuffer buffer) := by
  have hchanges := h.changes
  refine h.after (h.checks.projectBuffer t buffer) fun box => ?_
  refine h.after (h.checks.requireUninitialized _ _ _) fun _ => h.of_changes ?_
  -- The box is given back where there is one.
  refine Run.ite ?_ (hchanges.markUninitialized buffer)
  refine hchanges.bind (hchanges.deallocate box) fun _ => ?_
  exact hchanges.bind (hchanges.writePointer _ _) fun _ => hchanges.markUninitialized buffer

theorem getEnumTagSinglePayload (emptyCases : Int) :
    Q (t.getEnumTagSinglePayload value emptyCases) := by
  have hchecks := h.checks
  have hload := hchecks.loadInhabitant t value
  refine h.of_checks (hchecks.bind (hchecks.requireInitialized _ _ _) fun _ => ?_)
  refine Run.ite hload ?_
  refine hchecks.bind (hchecks.readInt _ _ _) fun _ => ?_
  refine Run.ite hload ?_
  exact hchecks.bind (hchecks.readInt _ _ _) fun _ => hchecks.pure _

theorem storeEnumTagSinglePayload (whichCase emptyCases : Int) :
    Q (t.storeEnumTagSinglePayload value whichCase emptyCases) := by
  refine h.guarded (h.checks.violate _ _) ?_
  refine h.guarded (h.checks.requireInitialized _ _ _) (h.of_changes ?_)
  exact h.changes.storeCase t value whichCase (t.tagBytes emptyCases)

theorem getEnumTag : Q (t.getEnumTag value) := by
  have hchecks := h.checks
  refine h.of_checks (hchecks.bind (hchecks.requireInitialized _ _ _) fun _ => ?_)
  exact hchecks.readInt _ _ _

theorem destructiveInjectEnumTag (tag : Int) : Q (t.destructiveInjectEnumTag value tag) := by
  unfold WitnessTable.destructiveInjectEnumTag
  rcases t.layout.caseCount with _ | count
  · exact h.of_checks (h.checks.throw _ rfl)
  · refine h.guarded (h.checks.violate _ _) (h.of_changes ?_)
    exact h.changes.injectTag t value tag

variable {t} (hooks : t.layout.HooksSatisfy P)

include hooks

theorem initializeBufferWithCopyOfBuffer : Q (t.initializeBufferWithCopyOfBuffer dest src) := by
  refine h.after (h.checks.requireUninitialized _ _ _) fun _ => ?_
  refine h.after (h.checks.projectBuffer t src) fun srcValue => ?_
  refine h.after (h.checks.requireInitialized _ _ _) fun _ => h.of_changes ?_
  exact h.changes.bufferCopy dest srcValue hooks

theorem destroy : Q (t.destroy value) := by
  have hchanges := h.changes
  refine h.after (h.checks.requireInitialized _ _ _) fun _ => h.of_changes ?_
  exact hchanges.bind (hchanges.destroyValue value hooks) fun _ => hchanges.markUninitialized value

theorem initializeWithCopy : Q (t.initializeWithCopy dest src) := by
  have hchanges := h.changes
  refine h.after (h.checks.requireUninitialized _ _ _) fun _ => ?_
  refine h.after (h.checks.requireInitialized _ _ _) fun _ => h.of_changes ?_
  refine hchanges.bind (hchanges.copyValue dest src hooks) fun _ => ?_
  exact hchanges.bind (hchanges.markInitialized dest) fun _ => hchanges.pure dest

theorem assignWithCopy : Q (t.assignWithCopy dest src) := by
  have hchanges := h.changes
  refine h.after (h.checks.requireInitialized _ _ _) fun _ => ?_
  refine h.after (h.checks.requireInitialized _ _ _) fun _ => h.of_changes ?_
  refine Run.ite (hchanges.pure dest) ?_
  refine hchanges.bind (hchanges.destroyValue dest hooks) fun _ => ?_
  exact hchanges.bind (hchanges.copyValue dest src hooks) fun _ => hchanges.pure dest

theorem initializeWithTake : Q (t.initializeWithTake dest src) := by
  have hchanges := h.changes
  refine h.after (h.checks.requireUninitialized _ _ _) fun _ => ?_
  refine h.after (h.checks.requireInitialized _ _ _) fun _ => h.of_changes ?_
  refine hchanges.bind (hchanges.moveValue dest src hooks) fun _ => ?_
  refine hchanges.bind (hchanges.markUninitialized src) fun _ => ?_
  exact hchanges.bind (hchanges.markInitialized dest) fun _ => hchanges.pure dest

theorem assignWithTake : Q (t.assignWithTake dest src) := by
  have hchanges := h.changes
  refine h.guarded (h.checks.violate _ _) ?_
  refine h.after (h.checks.requireInitialized _ _ _) fun _ => ?_
  refine h.after (h.checks.requireInitialized _ _ _) fun _ => h.of_changes ?_
  refine hchanges.bind (hchanges.destroyValue dest hooks) fun _ => ?_
  refine hchanges.bind (hchanges.moveValue dest src hooks) fun _ => ?_
  exact hchanges.bind (hchanges.markUninitialized src) fun _ => hchanges.pure dest

theorem call (slot : WitnessSlot) (args : List Int) : Q (t.call slot args) := by
  unfold WitnessTable.call
  -- There is one case for each witness, and the last one is for arguments that no witness takes.
  split
  · exact h.answered (h.initializeBufferWithCopyOfBuffer _ _ hooks)
  · exact h.silent (h.destroy _ hooks)
  · exact h.answered (h.initializeWithCopy _ _ hooks)
  · exact h.answered (h.assignWithCopy _ _ hooks)
  · exact h.answered (h.initializeWithTake _ _ hooks)
  · exact h.answered (h.assignWithTake _ _ hooks)
  · exact h.answered (h.getEnumTagSinglePayload t _ _)
  · exact h.silent (h.storeEnumTagSinglePayload t _ _ _)
  · exact h.answered (h.getEnumTag t _)
  · exact h.silent (h.of_checks (h.checks.requireInitialized _ _ _))
  · exact h.silent (h.destructiveInjectEnumTag t _ _)
  · exact h.of_checks (h.checks.throw _ rfl)

/-! ### Calls -/

theorem invoke (hhandles : HandleLaw C) (slot : WitnessSlot) (args : List Int) :
    Q (t.invoke slot args) := by
  refine h.after (hhandles.handle t slot) fun handle => ?_
  refine h.after (hhandles.resolve handle) fun f => ?_
  refine h.guarded (hhandles.throw _ rfl) ?_
  refine h.after (hhandles.note _ _) fun _ => ?_
  -- That the handle of a slot is the handle of its witness is not known here.
  cases f with
  | witness slot => exact h.call hooks slot args
  | named _ => exact h.of_checks (hhandles.throw _ rfl)

theorem perform (hhandles : HandleLaw C) (c : WitnessCall) : Q (c.perform t) := by
  cases c with
  | invoke slot arguments => exact h.invoke hooks hhandles slot arguments
  | projectBuffer buffer => exact h.answered (h.of_checks (h.checks.projectBuffer t buffer))
  | allocateBuffer buffer => exact h.answered (h.of_changes (h.changes.allocateBuffer t buffer))
  | deallocateBuffer buffer => exact h.silent (h.deallocateBuffer t buffer)

end CheckedLaw

/-! ### Tables -/

namespace TableLaw

variable {P : ∀ {α : Type}, Run α → Prop} (h : TableLaw P) (t : WitnessTable)

include h

theorem slotValue (slot : WitnessSlot) : P (t.slotValue slot) := by
  unfold WitnessTable.slotValue
  split
  · exact h.pure _
  · exact Run.ite (h.handle t slot) (h.pure 0)

theorem slotValues (slots : List WitnessSlot) : P (t.slotValues slots) := by
  induction slots with
  | nil => exact h.pure []
  | cons slot slots ih =>
    refine h.bind (h.slotValue t slot) fun _ => ?_
    exact h.bind ih fun _ => h.pure _

theorem tableRecord (schema : Schema) (slots : List WitnessSlot) : P (t.record schema slots) := by
  refine h.bind (h.slotValues t slots) fun _ => ?_
  exact h.bind h.memory fun _ => h.pure _

omit t in
theorem memoryCall (c : MemoryCall) : P c.perform := by
  cases c with
  | register f => exact h.bind (h.register _) fun _ => h.pure _
  | resolve handle => exact h.bind (h.resolve _) fun _ => h.pure _
  | _ => exact h.toStepLaw.memoryCall rfl

theorem perform {t : WitnessTable} (hooks : t.layout.HooksSatisfy P) (c : WitnessCall) :
    P (c.perform t) :=
  h.toLaw.checked.perform hooks h.toHandleLaw c

end TableLaw

end Run

end SwiftABI
