/-
  Hooks, and what may be taken for granted of them.

  The hooks of a layout belong to whoever has made it, and they may do anything in a session. What a
  result needs of them is a property of steps that they have (`TypeLayout.HooksSatisfy`). Hooks that
  only record leave nothing behind but the record of having run
  (`WitnessTable.outcome_runCopyHook`, `WitnessTable.outcome_destroyValue`).
-/
import SwiftABI.Proofs.Witness.Run
import SwiftABI.Witness.Call

namespace SwiftABI

/-! ### Hooks with a property -/

namespace TypeLayout

/-- The hooks of the layout have a property, as far as there are any. -/
structure HooksSatisfy (P : Run Unit → Prop) (l : TypeLayout) : Prop where
  onCopy (hook : Int → Int → Run Unit) (h : l.onCopy = some hook) (dest src : Int) :
    P (hook dest src)
  onDestroy (hook : Int → Run Unit) (h : l.onDestroy = some hook) (address : Int) :
    P (hook address)

variable {P Q : Run Unit → Prop} {l : TypeLayout}

theorem HooksSatisfy.imp (h : l.HooksSatisfy P) (hPQ : ∀ x, P x → Q x) : l.HooksSatisfy Q where
  onCopy hook hhook dest src := hPQ _ (h.onCopy hook hhook dest src)
  onDestroy hook hhook address := hPQ _ (h.onDestroy hook hhook address)

/-- Without hooks there is nothing to ask of them. -/
theorem hooksSatisfy_of_none (hcopy : l.onCopy = none) (hdestroy : l.onDestroy = none) :
    l.HooksSatisfy P where
  onCopy hook hhook := by
    rw [hcopy] at hhook
    cases hhook
  onDestroy hook hhook := by
    rw [hdestroy] at hhook
    cases hhook

/-- The hooks do nothing but being recorded. -/
def OnlyRecords (l : TypeLayout) : Prop := l.HooksSatisfy (· = pure ())

/-- There is a hook for copied values and one for destroyed values, and both only record. -/
structure RecordsLives (l : TypeLayout) : Prop where
  onCopy : l.onCopy = some fun _ _ => pure ()
  onDestroy : l.onDestroy = some fun _ => pure ()

theorem RecordsLives.onlyRecords (h : l.RecordsLives) : l.OnlyRecords where
  onCopy hook hhook dest src := by
    rw [h.onCopy] at hhook
    cases hhook
    rfl
  onDestroy hook hhook address := by
    rw [h.onDestroy] at hhook
    cases hhook
    rfl

/-- Hooks that only record have every property of doing nothing. -/
theorem OnlyRecords.satisfy (h : l.OnlyRecords) (hP : P (pure ())) : l.HooksSatisfy P :=
  h.imp fun _ hx => hx ▸ hP

end TypeLayout

/-! ### Hooks that only record -/

namespace WitnessTable

variable {t : WitnessTable}

/-- What is recorded when a value is copied. -/
def copyHooks (t : WitnessTable) (dest src : Int) (destInitialized srcInitialized : Bool) :
    List HookEvent :=
  if t.layout.onCopy.isSome then [.copy dest src destInitialized srcInitialized] else []

/-- What is recorded when a value is destroyed. -/
def destroyHooks (t : WitnessTable) (address : Int) (initialized : Bool) : List HookEvent :=
  if t.layout.onDestroy.isSome then [.destroy address initialized] else []

theorem outcome_runCopyHook (h : t.layout.OnlyRecords) (dest src : Int) (s : Session) :
    (t.runCopyHook dest src).outcome s =
      (.ok (), { s with
        events := s.events ++ t.copyHooks dest src (s.memory.isInitialized dest)
          (s.memory.isInitialized src) }) := by
  unfold runCopyHook copyHooks
  rcases hhook : t.layout.onCopy with _ | hook
  · simp
  · dsimp only
    rw [Run.outcome_bind_ok _ (Run.outcome_copied dest src s), h.onCopy hook hhook dest src]
    rfl

theorem outcome_destroyValue (h : t.layout.OnlyRecords) (address : Int) (s : Session) :
    (t.destroyValue address).outcome s =
      (.ok (), { s with
        events := s.events ++ t.destroyHooks address (s.memory.isInitialized address) }) := by
  unfold destroyValue destroyHooks
  rcases hhook : t.layout.onDestroy with _ | hook
  · simp
  · dsimp only
    rw [Run.outcome_bind_ok _ (Run.outcome_destroyed address s), h.onDestroy hook hhook address]
    rfl

end WitnessTable

end SwiftABI
