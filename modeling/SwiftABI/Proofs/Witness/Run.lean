/-
  How the elementary steps of a session change it.

  A `Run` is a function from a session to a result and a session. `Run.outcome_bind` opens a
  sequence of steps, and there is one lemma for each elementary step: what its result is, and what
  it leaves alone. `Quiet` names the steps that touch neither the recorded hooks nor the marks,
  which is all of them but the hooks and the marks themselves.
-/
import SwiftABI.Witness.Session

namespace SwiftABI

/-! ### Memory -/

namespace Memory

/-- Writing bytes leaves the marks as they are, also where it fails half way. -/
@[simp]
theorem write_marks (m : Memory) (address : Int) (bytes : Bytes) :
    (m.write address bytes).2.marks = m.marks := by
  fun_induction Memory.write m address bytes with
  | case1 => rfl
  | case2 => rfl
  | case3 m address bytes _ page _ offset count page' ih => rw [ih]

/-- Taking away a mark that is there makes one mark less. -/
theorem size_erase_mark {marks : Std.TreeSet Int} {address : Int}
    (h : marks.contains address = true) : ((marks.erase address).size : Int) = marks.size - 1 := by
  have hpos : marks.size ≠ 0 := by
    intro h0
    have hempty : marks.isEmpty = true := by
      rw [Std.TreeSet.isEmpty_eq_size_eq_zero, h0]
      rfl
    rw [Std.TreeSet.contains_of_isEmpty hempty] at h
    exact absurd h (by decide)
  rw [Std.TreeSet.size_erase, if_pos h]
  omega

/-- A new mark makes one mark more. -/
theorem size_insert_mark {marks : Std.TreeSet Int} {address : Int}
    (h : marks.contains address = false) :
    ((marks.insert address).size : Int) = marks.size + 1 := by
  rw [Std.TreeSet.size_insert, if_neg (by rw [h]; decide)]
  omega

/-- Taking one mark away leaves the others. -/
theorem contains_erase_mark_of_ne {marks : Std.TreeSet Int} {address other : Int}
    (h : address ≠ other) : (marks.erase address).contains other = marks.contains other := by
  rw [Std.TreeSet.contains_erase]
  have hcmp : (compare address other != Ordering.eq) = true := by
    simpa [bne_iff_ne] using h
  rw [hcmp, Bool.true_and]

end Memory

/-- Is the fault that memory has refused an access? -/
def SessionFault.isAccess : SessionFault → Bool
  | .access _ => true
  | _ => false

/-! ### Sequences of steps -/

namespace Run

variable {α β : Type} {s s' : Session}

/-- The result of some steps that begin at a session, and the session after them. -/
def outcome (x : Run α) (s : Session) : Except SessionFault α × Session := x.run s

@[simp]
theorem outcome_pure (a : α) (s : Session) : (pure a : Run α).outcome s = (.ok a, s) := rfl

@[simp]
theorem outcome_throw (e : SessionFault) (s : Session) :
    (throw e : Run α).outcome s = (.error e, s) := rfl

/-- A sequence goes on with the result of its first step, or ends with its fault. -/
theorem outcome_bind (x : Run α) (f : α → Run β) (s : Session) :
    (x >>= f).outcome s =
      match x.outcome s with
      | (.ok a, s') => (f a).outcome s'
      | (.error e, s') => (.error e, s') := by
  show (ExceptT.bindCont f (x.outcome s).1 : StateM Session _) (x.outcome s).2 = _
  rcases x.outcome s with ⟨_ | _, s'⟩ <;> rfl

/-- What follows a step that is known to go well. -/
theorem outcome_bind_ok {x : Run α} {a : α} (f : α → Run β) (h : x.outcome s = (.ok a, s')) :
    (x >>= f).outcome s = (f a).outcome s' := by
  rw [outcome_bind, h]

/-- What follows a step that is known to fail is left out. -/
theorem outcome_bind_error {x : Run α} {e : SessionFault} (f : α → Run β)
    (h : x.outcome s = (.error e, s')) : (x >>= f).outcome s = (.error e, s') := by
  rw [outcome_bind, h]

instance decidableEqOk [DecidableEq α] (a : α) :
    (r : Except SessionFault α) → Decidable (r = .ok a)
  | .ok b => decidable_of_iff (b = a) ⟨congrArg _, Except.ok.inj⟩
  | .error _ => isFalse fun h => nomatch h

/-- Has memory refused an access? -/
def refused : Except SessionFault α → Bool
  | .error e => e.isAccess
  | .ok _ => false

/-! ### Elementary steps -/

@[simp]
theorem outcome_memory (s : Session) : memory.outcome s = (.ok s.memory, s) := rfl

@[simp]
theorem outcome_setMemory (m : Memory) (s : Session) :
    (setMemory m).outcome s = (.ok (), { s with memory := m }) := rfl

@[simp]
theorem outcome_note (level : Log.Level) (message : Text) (s : Session) :
    (note level message).outcome s = (.ok (), { s with notes := s.notes ++ [⟨level, message⟩] }) :=
  rfl

@[simp]
theorem outcome_isInitialized (address : Int) (s : Session) :
    (isInitialized address).outcome s = (.ok (s.memory.isInitialized address), s) := rfl

@[simp]
theorem outcome_markInitialized (address : Int) (s : Session) :
    (markInitialized address).outcome s =
      (.ok (), { s with memory := s.memory.markInitialized address }) := rfl

@[simp]
theorem outcome_markUninitialized (address : Int) (s : Session) :
    (markUninitialized address).outcome s =
      (.ok (), { s with memory := s.memory.markUninitialized address }) := rfl

@[simp]
theorem outcome_copied (dest src : Int) (s : Session) :
    (copied dest src).outcome s =
      (.ok (), { s with
        events := s.events ++ [.copy dest src (s.memory.isInitialized dest)
          (s.memory.isInitialized src)] }) := rfl

@[simp]
theorem outcome_destroyed (address : Int) (s : Session) :
    (destroyed address).outcome s =
      (.ok (), { s with
        events := s.events ++ [.destroy address (s.memory.isInitialized address)] }) := rfl

/-- A refusal changes nothing but the log. -/
@[simp]
theorem outcome_violate (operation : String) (breach : Breach) (s : Session) :
    (violate operation breach : Run α).outcome s =
      (.error (.violation ⟨operation, breach⟩),
        { s with notes := s.notes ++ [⟨.debug, Violation.message ⟨operation, breach⟩⟩] }) := rfl

/-- An access that fails changes nothing but the log. -/
@[simp]
theorem outcome_accessed_error (f : AccessFault) (s : Session) :
    (accessed (.error f) : Run α).outcome s =
      (.error (.access f), { s with notes := s.notes ++ [⟨.debug, f.remark⟩] }) := rfl

@[simp]
theorem outcome_accessed_ok (a : α) (s : Session) : (accessed (.ok a)).outcome s = (.ok a, s) := rfl

/-- A contract that wants an initialized value goes on exactly where there is one. -/
theorem outcome_requireInitialized (operation what : String) (address : Int) (s : Session) :
    (requireInitialized operation what address).outcome s =
      if s.memory.isInitialized address then (.ok (), s)
      else (violate operation (.notInitialized what address)).outcome s := by
  unfold requireInitialized
  rw [outcome_bind_ok _ (outcome_isInitialized address s)]
  cases s.memory.isInitialized address <;> rfl

/-- A contract that wants no initialized value goes on exactly where there is none. -/
theorem outcome_requireUninitialized (operation what : String) (address : Int) (s : Session) :
    (requireUninitialized operation what address).outcome s =
      if s.memory.isInitialized address then
        (violate operation (.alreadyInitialized what address)).outcome s
      else (.ok (), s) := by
  unfold requireUninitialized
  rw [outcome_bind_ok _ (outcome_isInitialized address s)]
  cases s.memory.isInitialized address <;> rfl

/-! ### Steps that no hook and no mark sees -/

/-- Nothing has happened that the hooks and the marks tell of. -/
structure Quiet (s s' : Session) : Prop where
  events : s'.events = s.events
  marks : s'.memory.marks = s.memory.marks

theorem Quiet.refl (s : Session) : Quiet s s := ⟨rfl, rfl⟩

theorem quiet_note (entry : Log.Entry) (s : Session) :
    Quiet s { s with notes := s.notes ++ [entry] } := ⟨rfl, rfl⟩

/-- A refusal is quiet. -/
theorem quiet_violate (operation : String) (breach : Breach) (s : Session) :
    Quiet s ((violate operation breach : Run α).outcome s).2 := by
  rw [outcome_violate]
  exact quiet_note _ s

/-- Reading bytes changes nothing but the log, and fails only as an access. -/
theorem read_cases (address size : Int) (s : Session) :
    (∃ bytes, (read address size).outcome s = (.ok bytes, s)) ∨
      ∃ f, (read address size).outcome s =
        (.error (.access f), { s with notes := s.notes ++ [⟨.debug, f.remark⟩] }) := by
  unfold read
  rw [outcome_bind_ok _ (outcome_memory s)]
  rcases s.memory.read address size.toNat with f | bytes
  · exact .inr ⟨f, rfl⟩
  · exact .inl ⟨bytes, rfl⟩

/-- Reading a pointer changes nothing but the log, and fails only as an access. -/
theorem readPointer_cases (address : Int) (s : Session) :
    (∃ pointer, (readPointer address).outcome s = (.ok pointer, s)) ∨
      ∃ f, (readPointer address).outcome s =
        (.error (.access f), { s with notes := s.notes ++ [⟨.debug, f.remark⟩] }) := by
  unfold readPointer readInt
  rw [outcome_bind_ok _ (outcome_memory s)]
  rcases read_cases address s.memory.pointerSize s with ⟨bytes, h⟩ | ⟨f, h⟩
  · exact .inl ⟨_, outcome_bind_ok _ h⟩
  · exact .inr ⟨f, outcome_bind_error _ h⟩

/-- Writing bytes is quiet, and fails only as an access. -/
theorem write_cases (address : Int) (bytes : Bytes) (s : Session) :
    Quiet s ((write address bytes).outcome s).2 ∧
      (((write address bytes).outcome s).1 = .ok () ∨
        refused ((write address bytes).outcome s).1 = true) := by
  unfold write
  rw [outcome_bind_ok _ (outcome_memory s)]
  have hmarks := s.memory.write_marks address bytes
  rcases hw : s.memory.write address bytes with ⟨f | ⟨⟩, m⟩ <;> rw [hw] at hmarks
  · exact ⟨⟨rfl, hmarks⟩, .inr rfl⟩
  · exact ⟨⟨rfl, hmarks⟩, .inl rfl⟩

/-- Copying bytes is quiet, and fails only as an access. -/
theorem copy_cases (dest src size : Int) (s : Session) :
    Quiet s ((copy dest src size).outcome s).2 ∧
      (((copy dest src size).outcome s).1 = .ok () ∨
        refused ((copy dest src size).outcome s).1 = true) := by
  unfold copy
  rcases read_cases src size s with ⟨bytes, h⟩ | ⟨f, h⟩
  · rw [outcome_bind_ok _ h]
    exact write_cases dest bytes s
  · rw [outcome_bind_error _ h]
    exact ⟨quiet_note _ s, .inr rfl⟩

end Run

end SwiftABI
