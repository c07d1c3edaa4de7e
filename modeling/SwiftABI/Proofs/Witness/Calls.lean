/-
  Runs of calls on memory and on tables.

  `SessionCall` is a call of anything that a session offers: the operations of memory, storage for
  values and buffers, and the tables, of which any number share one memory. `performAll` makes any
  number of calls, one after the other, whatever becomes of each. What is stable in memory is so
  after all calls (`SessionCall.stable_performAll`).
-/
import SwiftABI.Proofs.Witness.Order

namespace SwiftABI

/-- A call that is made in a session. -/
inductive SessionCall where
  | memory (c : MemoryCall)
  | newBuffer
  | newValue (t : WitnessTable) (extraBytes : Int)
  /-- A call of a witness or of an operation on buffers. -/
  | table (t : WitnessTable) (c : WitnessCall)
  | handle (t : WitnessTable) (slot : WitnessSlot)
  | required (t : WitnessTable)
  | all (t : WitnessTable)

/-- What a call gives. -/
inductive SessionAnswer where
  | memory (a : MemoryAnswer)
  | value (n : Option Int)
  | record (r : Record)

/-- Calls that have been made, and what each gave. -/
abbrev SessionHistory := List (SessionCall × Except SessionFault SessionAnswer)

namespace SessionCall

/-- Makes the call. -/
def perform : SessionCall → Run SessionAnswer
  | .memory c => return .memory (← c.perform)
  | .newBuffer => return .value (some (← WitnessTable.newBuffer))
  | .newValue t extraBytes => return .value (some (← t.newValue extraBytes))
  | .table t c => return .value (← c.perform t)
  | .handle t slot => return .value (some (← t.handle slot))
  | .required t => return .record (← t.required)
  | .all t => return .record (← t.all)

/-- Makes some calls, one after the other, also after one that fails. -/
def performAll : List SessionCall → Session → SessionHistory × Session
  | [], s => ([], s)
  | c :: cs, s =>
    let (result, s') := c.perform.outcome s
    let (history, s'') := performAll cs s'
    ((c, result) :: history, s'')

/-- What holds of a session along with the calls that have been made, and is kept by every call,
holds after all calls. -/
theorem performAll_induction {motive : SessionHistory → Session → Prop} {calls : List SessionCall}
    (step : ∀ c ∈ calls, ∀ history s, motive history s →
      motive (history ++ [(c, (c.perform.outcome s).1)]) (c.perform.outcome s).2)
    (history : SessionHistory) {s : Session} (h : motive history s) :
    motive (history ++ (performAll calls s).1) (performAll calls s).2 := by
  -- The calls that have been made already stand in the history, so the induction is on those that
  -- are left.
  induction calls generalizing history s with
  | nil => rwa [performAll, List.append_nil]
  | cons c cs ih =>
    have hfirst := step c List.mem_cons_self history s h
    have hrest := ih (fun c hc => step c (List.mem_cons_of_mem _ hc)) _ hfirst
    rwa [List.append_assoc, List.singleton_append] at hrest

end SessionCall

/-- The table that the call is made on, if it is made on one. -/
def SessionCall.table? : SessionCall → Option WitnessTable
  | .memory _ | .newBuffer => none
  | .newValue t _ | .table t _ | .handle t _ | .required t | .all t => some t

/-- The hooks of the table that the call is made on have a property. -/
def SessionCall.HooksSatisfy (P : Run Unit → Prop) (c : SessionCall) : Prop :=
  ∀ t, c.table? = some t → t.layout.HooksSatisfy P

/-- What elementary steps have in common, the calls of a session have in common. -/
theorem Run.TableLaw.sessionCall {P : ∀ {α : Type}, Run α → Prop} (h : TableLaw P)
    {c : SessionCall} (hooks : c.HooksSatisfy P) : P c.perform := by
  cases c with
  | memory c => exact h.bind (h.memoryCall c) fun _ => h.pure _
  | newBuffer => exact h.bind h.newBuffer fun _ => h.pure _
  | newValue t extraBytes => exact h.bind (h.newValue t extraBytes) fun _ => h.pure _
  | table t c => exact h.bind (h.perform (hooks t rfl) c) fun _ => h.pure _
  | handle t slot => exact h.bind (h.handle t slot) fun _ => h.pure _
  | required t => exact h.bind (h.tableRecord t _ _) fun _ => h.pure _
  | all t => exact h.bind (h.tableRecord t _ _) fun _ => h.pure _

/-- What is stable in memory is so after all calls, if hooks keep it. -/
theorem SessionCall.stable_performAll {inv : Memory → Prop} (h : Memory.Stable inv)
    {calls : List SessionCall} (hooks : ∀ c ∈ calls, c.HooksSatisfy Run.KeepsStable) {s : Session}
    (hs : inv s.memory) : inv (performAll calls s).2.memory := by
  refine performAll_induction (motive := fun _ s => inv s.memory) (fun c hc _ s hs => ?_) [] hs
  have hcall : c.HooksSatisfy (Run.Keeps inv) := fun t ht => (hooks c hc t ht).imp fun _ hx =>
    hx inv h
  exact h.tableLaw.sessionCall hcall s hs

end SwiftABI
