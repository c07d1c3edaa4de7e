/-
  Copying into a buffer that holds a value.

  `initializeBufferWithCopyOfBuffer` asks whether the address of the destination is marked, but a
  value that does not fit its buffer is marked at the address of its box. So a buffer whose value
  was put there by hand is not noticed. `refuses_live_buffer_iff` says exactly when the copy into a
  buffer with a value is refused: if values live in their buffers, if the buffer is marked itself,
  or if there is nothing to copy from. What comes after the checks breaches no contract
  (`Run.BreachesOnly.law`), unless it is a hook that does.
-/
import SwiftABI.Proofs.Witness.Law

namespace SwiftABI

/-! ### Steps that breach no contract -/

/-- The steps are refused as the breach of a contract, and nothing has happened but for the log. -/
def Refuses {α : Type} (x : Run α) (s : Session) : Prop :=
  (∃ v, (x.outcome s).1 = .error (.violation v)) ∧ (x.outcome s).2.memory = s.memory ∧
    (x.outcome s).2.events = s.events

namespace Refuses

variable {α β : Type} {x : Run α} {s : Session} {operation what : String} {address : Int}

theorem violate (operation : String) (breach : Breach) (s : Session) :
    Refuses (Run.violate operation breach : Run α) s :=
  ⟨⟨_, rfl⟩, rfl, rfl⟩

/-- After a first step that goes well and changes nothing, it is up to the others. -/
theorem bind_iff {a : α} {f : α → Run β} (h : x.outcome s = (.ok a, s)) :
    Refuses (x >>= f) s ↔ Refuses (f a) s := by
  unfold Refuses
  rw [Run.outcome_bind_ok f h]

/-- A first step that is refused makes the steps refused. -/
theorem bind {f : α → Run β} (h : Refuses x s) : Refuses (x >>= f) s := by
  obtain ⟨⟨v, hv⟩, hmemory, hevents⟩ := h
  unfold Refuses
  rw [Run.outcome_bind]
  rcases hout : x.outcome s with ⟨result, s'⟩
  rw [hout] at hv hmemory hevents
  cases hv
  exact ⟨⟨v, rfl⟩, hmemory, hevents⟩

theorem requireUninitialized_iff :
    Refuses (do Run.requireUninitialized operation what address; x) s ↔
      s.memory.isInitialized address = true ∨ Refuses x s := by
  by_cases hlive : s.memory.isInitialized address = true
  · have h : Refuses (Run.requireUninitialized operation what address) s := by
      unfold Refuses
      rw [Run.outcome_requireUninitialized, if_pos hlive]
      exact violate _ _ s
    exact ⟨fun _ => .inl hlive, fun _ => h.bind⟩
  · rw [bind_iff (by rw [Run.outcome_requireUninitialized, if_neg hlive])]
    exact ⟨.inr, fun h => h.resolve_left hlive⟩

theorem requireInitialized_iff :
    Refuses (do Run.requireInitialized operation what address; x) s ↔
      s.memory.isInitialized address = false ∨ Refuses x s := by
  by_cases hlive : s.memory.isInitialized address = true
  · rw [bind_iff (by rw [Run.outcome_requireInitialized, if_pos hlive])]
    exact ⟨.inr, fun h => h.resolve_left (by rw [hlive]; decide)⟩
  · have h : Refuses (Run.requireInitialized operation what address) s := by
      unfold Refuses
      rw [Run.outcome_requireInitialized, if_neg hlive]
      exact violate _ _ s
    exact ⟨fun _ => .inl (Bool.eq_false_iff.mpr hlive), fun _ => h.bind⟩

end Refuses

namespace Run

variable {α β : Type} {among : Violation → Session → Prop}

/-- Where the steps end with a violation, this and the session that they leave are among those that
are given. -/
def BreachesOnly (among : Violation → Session → Prop) {α : Type} (x : Run α) : Prop :=
  ∀ s v s', x.outcome s = (.error (.violation v), s') → among v s'

namespace BreachesOnly

theorem bind {x : Run α} {f : α → Run β} (hx : BreachesOnly among x)
    (hf : ∀ a, BreachesOnly among (f a)) : BreachesOnly among (x >>= f) := by
  intro s v s'
  rw [outcome_bind]
  rcases hout : x.outcome s with ⟨e | a, s₁⟩
  · intro h
    cases h
    exact hx s v s' hout
  · exact hf a s₁ v s'

theorem throw {e : SessionFault} (he : e.isViolation = false) :
    BreachesOnly among (MonadExcept.throw e : Run α) := by
  intro s v s' h
  cases h
  cases he

theorem write (address : Int) (bytes : Bytes) : BreachesOnly among (Run.write address bytes) := by
  intro s v s' h
  rw [outcome_write] at h
  rcases hresult : (s.memory.write address bytes).1 with f | ⟨⟩ <;> rw [hresult] at h <;> cases h

theorem allocate (size alignment : Int) : BreachesOnly among (Run.allocate size alignment) := by
  intro s v s' h
  rw [outcome_allocate] at h
  split at h <;> cases h

theorem deallocate (address : Int) : BreachesOnly among (Run.deallocate address) := by
  intro s v s' h
  rw [outcome_deallocate] at h
  split at h <;> cases h

/-- Violations are raised by the checks of contracts, and by no other step. -/
theorem law (among : Violation → Session → Prop) : StepLaw (BreachesOnly among) where
  pure _ := fun _ _ _ => nofun
  bind hx hf := hx.bind hf
  throw _ he := throw he
  note _ _ := fun _ _ _ => nofun
  memory := fun _ _ _ => nofun
  write := write
  allocate := allocate
  deallocate := deallocate
  markInitialized _ := fun _ _ _ => nofun
  markUninitialized _ := fun _ _ _ => nofun
  record _ := fun _ _ _ => nofun

/-- Steps without violations are not refused. -/
theorem not_refuses {x : Run α} (h : BreachesOnly (fun _ _ => False) x) (s : Session) :
    ¬Refuses x s := by
  rintro ⟨⟨v, hv⟩, -⟩
  exact h s v _ (Prod.ext hv rfl)

end BreachesOnly

end Run

/-- The hooks of the layout do not end with the breach of a contract. -/
def TypeLayout.RaisesNoViolation (l : TypeLayout) : Prop :=
  l.HooksSatisfy (Run.BreachesOnly fun _ _ => False)

/-! ### The value in a buffer -/

namespace WitnessTable

variable {t : WitnessTable} {s : Session} {dest src value : Int}

/-- A value that fits its buffer is in the buffer. -/
theorem outcome_projectBuffer_of_isInline (h : t.isInline = true) (buffer : Int) (s : Session) :
    (t.projectBuffer buffer).outcome s = (.ok buffer, s) := by
  unfold projectBuffer
  rw [if_pos h]
  rfl

/-- The value in a buffer is found, or the buffer is refused as empty, or memory refuses the access.
Nothing but the log changes. -/
theorem projectBuffer_cases (t : WitnessTable) (buffer : Int) (s : Session) :
    (∃ value, (t.projectBuffer buffer).outcome s = (.ok value, s)) ∨
      Refuses (t.projectBuffer buffer) s ∨
      ∃ f s', (t.projectBuffer buffer).outcome s = (.error (.access f), s') := by
  by_cases hinline : t.isInline = true
  · exact .inl ⟨buffer, outcome_projectBuffer_of_isInline hinline buffer s⟩
  · unfold projectBuffer
    rw [if_neg hinline]
    rcases Run.readPointer_cases buffer s with ⟨box, h⟩ | ⟨f, h⟩
    · unfold Refuses
      rw [Run.outcome_bind_ok _ h]
      by_cases hbox : box = 0
      · rw [if_pos hbox]
        exact .inr (.inl (Refuses.violate _ _ s))
      · rw [if_neg hbox]
        exact .inl ⟨box, rfl⟩
    · exact .inr (.inr ⟨f, _, Run.outcome_bind_error _ h⟩)

/-- A buffer to copy from holds no value: it is empty, or what it holds is not initialized. -/
def HoldsNoValue (t : WitnessTable) (src : Int) (s : Session) : Prop :=
  Refuses (t.projectBuffer src) s ∨
    ∃ value, ((t.projectBuffer src).outcome s).1 = .ok value ∧
      s.memory.isInitialized value = false

/-- The copy from one buffer into another is refused if the destination is marked or there is
nothing to copy, and in no other case. -/
theorem refuses_initializeBufferWithCopyOfBuffer_iff (hooks : t.layout.RaisesNoViolation) :
    Refuses (t.initializeBufferWithCopyOfBuffer dest src) s ↔
      s.memory.isInitialized dest = true ∨ t.HoldsNoValue src s := by
  unfold initializeBufferWithCopyOfBuffer
  rw [Refuses.requireUninitialized_iff]
  refine or_congr_right ?_
  rcases projectBuffer_cases t src s with ⟨value, hvalue⟩ | hempty | ⟨f, s', hfault⟩
  · -- There is a source, and it is asked whether it holds a value.
    rw [Refuses.bind_iff hvalue, Refuses.requireInitialized_iff]
    unfold HoldsNoValue Refuses
    rw [hvalue]
    constructor
    · rintro (hnot | h)
      · exact .inr ⟨value, rfl, hnot⟩
      · have hcopy := (Run.BreachesOnly.law _).bufferCopy dest value hooks
        exact absurd h (hcopy.not_refuses s)
    · rintro (⟨⟨v, hv⟩, -⟩ | ⟨other, hother, hnot⟩)
      · cases hv
      · cases hother
        exact .inl hnot
  · -- The source is empty, and its refusal is the answer.
    exact ⟨fun _ => .inl hempty, fun _ => hempty.bind⟩
  · unfold HoldsNoValue Refuses
    rw [Run.outcome_bind_error _ hfault, hfault]
    constructor
    · rintro ⟨⟨v, hv⟩, -⟩
      cases hv
    · rintro (⟨⟨v, hv⟩, -⟩ | ⟨other, hother, -⟩)
      · cases hv
      · cases hother

/-- The copy into a buffer that holds a value is refused if values live in their buffers, if the
buffer itself is marked, or if there is nothing to copy, and in no other case. -/
theorem refuses_live_buffer_iff (hooks : t.layout.RaisesNoViolation)
    (hvalue : ((t.projectBuffer dest).outcome s).1 = .ok value)
    (hlive : s.memory.isInitialized value = true) :
    Refuses (t.initializeBufferWithCopyOfBuffer dest src) s ↔
      t.isInline = true ∨ s.memory.isInitialized dest = true ∨ t.HoldsNoValue src s := by
  rw [refuses_initializeBufferWithCopyOfBuffer_iff hooks]
  constructor
  · exact .inr
  · rintro (hinline | h)
    · rw [outcome_projectBuffer_of_isInline hinline] at hvalue
      rw [Except.ok.inj hvalue]
      exact .inl hlive
    · exact h

/-- A table of values that are too large for a buffer. -/
def largeTable : WitnessTable :=
  { layout :=
      { size := 32, alignment := 8, extraInhabitants := 0, isPod := false, isBitwiseTakable := true,
        caseCount := none, hasSpareBits := false, onCopy := some fun _ _ => pure (),
        onDestroy := some fun _ => pure (), pointerSize := 8 }
    name := opaqueName
    bufferWords := 3 }

theorem onlyRecords_largeTable : largeTable.layout.OnlyRecords :=
  TypeLayout.RecordsLives.onlyRecords ⟨rfl, rfl⟩

/-- Two buffers whose boxes hold a value each, the second of which is a copy of the first. The first
buffer is at 88 and its box at 144, the second at 64 and its box at 112. -/
def largeSession : Session :=
  (Run.outcome (do
    let second ← newBuffer
    let first ← newBuffer
    let secondBox ← largeTable.allocateBuffer second
    let firstBox ← largeTable.allocateBuffer first
    Run.markInitialized firstBox
    largeTable.initializeWithCopy secondBox firstBox) (.ofMemory (.empty 6 8))).2

/-- The buffer at 64 holds a value. Since it is not marked itself, and there is a value to copy, the
copy into it is not refused. -/
theorem refuses_live_buffer_largeTable :
    largeTable.layout.RaisesNoViolation ∧
      ((largeTable.projectBuffer 64).outcome largeSession).1 = .ok 112 ∧
      largeSession.memory.isInitialized 112 = true ∧
      (Refuses (largeTable.initializeBufferWithCopyOfBuffer 64 88) largeSession ↔
        largeTable.isInline = true ∨ largeSession.memory.isInitialized 64 = true ∨
          largeTable.HoldsNoValue 88 largeSession) := by
  have hooks : largeTable.layout.RaisesNoViolation :=
    onlyRecords_largeTable.satisfy ((Run.BreachesOnly.law _).pure ())
  have hvalue : ((largeTable.projectBuffer 64).outcome largeSession).1 = .ok 112 := by
    decide +kernel
  have hlive : largeSession.memory.isInitialized 112 = true := by decide +kernel
  exact ⟨hooks, hvalue, hlive, refuses_live_buffer_iff hooks hvalue hlive⟩

/-- The copy puts its value in a new box, and the value that the buffer held is lost: its box is
still allocated and marked, but the buffer leads to the new one. -/
theorem overwrites_live_buffer :
    let after := ((largeTable.initializeBufferWithCopyOfBuffer 64 88).outcome largeSession).2
    ((largeTable.initializeBufferWithCopyOfBuffer 64 88).outcome largeSession).1 = .ok 176 ∧
      ((largeTable.projectBuffer 64).outcome after).1 = .ok 176 ∧
      after.memory.isInitialized 112 = true ∧ after.memory.allocations.contains 112 = true := by
  decide +kernel

end WitnessTable

end SwiftABI
