/-
  Calls that memory interrupts.

  Nothing is undone when memory refuses an access in the middle of a call. A `WritingCall` is a call
  that writes, and `WritingCall.plan` says which patches that is, one after the other, where the
  source of a copy is read before. If such a call is refused, the patches are in memory up to the
  address that is refused, while marks and storage are as before (`WritingCall.interrupted`). No
  hook has run but the one for a value that is assigned over: that value is destroyed before the
  first byte is written, and stays marked.
-/
import SwiftABI.Proofs.Memory.Interrupted
import SwiftABI.Proofs.Witness.Buffer
import SwiftABI.Proofs.Witness.SinglePayload

namespace SwiftABI

/-- Has memory refused this access? -/
instance Run.decidableEqAccess {α : Type} (f : AccessFault) :
    (r : Except SessionFault α) → Decidable (r = .error (.access f))
  | .error (.access g) =>
    decidable_of_iff
      (g = f) ⟨fun h => by rw [h], fun h => SessionFault.access.inj (Except.error.inj h)⟩
  | .ok _ | .error (.violation _) | .error (.request _) | .error (.integer _) | .error (.slotKey _)
  | .error (.dataSlot _) | .error .arguments | .error .unshowable | .error (.foreign _) =>
    isFalse fun h => nomatch h

/-! ### Steps with a plan -/

/-- What some steps read before they write: the patches that they are going to write, or the fault
of reading. -/
abbrev Plan := Except AccessFault (List Patch)

/-- Memory has refused an access in the middle of some steps that run some hooks before they write
what is planned. -/
structure Session.Interrupted (s : Session) (plan : Plan) (hooks : List HookEvent) (f : AccessFault)
    (s' : Session) :
    Prop where
  storage : s.memory.SameStorage s'.memory
  marks : s'.memory.marks = s.memory.marks
  events : s'.events = s.events ++ hooks
  /-- What cannot be read is not written. -/
  unread (g : AccessFault) (hplan : plan = .error g) : f = g ∧ s'.memory = s.memory
  /-- Of what is written, all is there that comes before the address that is refused. -/
  stopped (patches : List Patch) (hplan : plan = .ok patches) :
    ∃ x, f = .unmapped x ∧ s.memory.StoppedAt patches x s'.memory

/-- The steps end with what is planned in memory, or memory refuses an access in the middle. -/
structure Session.CarriesOut {α : Type} (s : Session) (plan : Plan) (hooks : List HookEvent)
    (result : Except SessionFault α) (s' : Session) : Prop where
  done (a : α) (h : result = .ok a) :
    ∃ patches, plan = .ok patches ∧ s.memory.Takes patches ∧
    s'.memory.byte? = Memory.patched s.memory.byte? patches
  interrupted (f : AccessFault) (h : result = .error (.access f)) : s.Interrupted plan hooks f s'

namespace Run

variable {α β : Type} {s : Session} {plan : Plan} {hooks : List HookEvent}

/-- The steps carry out a plan after some hooks. -/
def CarriesOut (x : Run α) (s : Session) (plan : Plan) (hooks : List HookEvent) : Prop :=
  s.CarriesOut plan hooks (x.outcome s).1 (x.outcome s).2

/-- Memory cannot interrupt the steps, and they change no byte. -/
def Smooth (x : Run α) : Prop :=
  ∀ s, (∀ f, (x.outcome s).1 ≠ .error (.access f)) ∧ (x.outcome s).2.memory.byte? = s.memory.byte?

theorem Smooth.bind {x : Run α} {f : α → Run β} (hx : Smooth x) (hf : ∀ a, Smooth (f a)) :
    Smooth (x >>= f) := by
  intro s
  obtain ⟨hresult, hbytes⟩ := hx s
  rw [outcome_bind]
  rcases hout : x.outcome s with ⟨e | a, s'⟩ <;> rw [hout] at hresult hbytes
  · exact ⟨fun f he => hresult f (by rw [← Except.error.inj he]), hbytes⟩
  · obtain ⟨hresult', hbytes'⟩ := hf a s'
    exact ⟨hresult', hbytes'.trans hbytes⟩

theorem Smooth.pure (a : α) : Smooth (Pure.pure a : Run α) := fun _ => ⟨fun _ => nofun, rfl⟩

theorem smooth_markInitialized (a : Int) :
    Smooth (markInitialized a) := fun _ => ⟨fun _ => nofun, rfl⟩

theorem smooth_markUninitialized (a : Int) :
    Smooth (markUninitialized a) := fun _ => ⟨fun _ => nofun, rfl⟩

theorem smooth_runCopyHook {t : WitnessTable} (h : t.layout.OnlyRecords) (dest src : Int) :
    Smooth (t.runCopyHook dest src) := by
  intro s
  rw [WitnessTable.outcome_runCopyHook h]
  exact ⟨fun _ => nofun, rfl⟩

theorem smooth_destroyValue {t : WitnessTable} (h : t.layout.OnlyRecords) (a : Int) :
    Smooth (t.destroyValue a) := by
  intro s
  rw [WitnessTable.outcome_destroyValue h]
  exact ⟨fun _ => nofun, rfl⟩

namespace CarriesOut

variable {x : Run α}

/-- Smooth steps carry out the plan to write nothing. -/
theorem of_smooth (h : Smooth x) : CarriesOut x s (.ok []) [] := by
  obtain ⟨hresult, hbytes⟩ := h s
  exact ⟨fun _ _ => ⟨[], rfl, fun _ => nofun, hbytes⟩, fun f hf => absurd hf (hresult f)⟩

/-- What comes after the plan has been carried out is smooth. -/
theorem finish {f : α → Run β} (hx : CarriesOut x s plan hooks) (hf : ∀ a, Smooth (f a)) :
    CarriesOut (x >>= f) s plan hooks := by
  unfold CarriesOut at hx ⊢
  rw [outcome_bind]
  rcases hout : x.outcome s with ⟨e | a, s'⟩ <;> rw [hout] at hx
  · refine ⟨fun _ => nofun, fun f hf => ?_⟩
    cases hf
    exact hx.interrupted f rfl
  · obtain ⟨hresult, hbytes⟩ := hf a s'
    obtain ⟨patches, hplan, htakes, hview⟩ := hx.done a rfl
    exact ⟨fun _ _ => ⟨patches, hplan, htakes, hbytes.trans hview⟩,
      fun f hf => absurd hf (hresult f)⟩

/-- Hooks that run first. -/
theorem after_events {y : Run Unit} {before : List HookEvent}
    (hy : y.outcome s = (.ok (), { s with events := s.events ++ before }))
    (hx : CarriesOut x { s with events := s.events ++ before } plan hooks) :
    CarriesOut (y >>= fun _ => x) s plan (before ++ hooks) := by
  unfold CarriesOut at hx ⊢
  rw [outcome_bind_ok _ hy]
  refine ⟨hx.done, fun f hf => ?_⟩
  have h := hx.interrupted f hf
  have hevents : _ = s.events ++ before ++ hooks := h.events
  exact ⟨h.storage, h.marks, by rw [hevents, List.append_assoc], h.unread, h.stopped⟩

/-- A patch that is put into memory before. -/
theorem after_put {y : Run Unit} {f : Unit → Run α} {p : Patch} {patches : List Patch}
    (hy : Puts y s p) (hf : ∀ s', s'.memory.Paged → CarriesOut (f ()) s' (.ok patches) []) :
    CarriesOut (y >>= f) s (.ok (p :: patches)) [] := by
  unfold Puts at hy
  unfold CarriesOut at hf ⊢
  rw [outcome_bind]
  obtain ⟨hpaged, hstorage, hquiet, ⟨hok, hmapped, hbytes⟩ | ⟨i, herror, hfirst, hbytes⟩⟩ := hy
  -- The patch is in memory, and what follows may be interrupted.
  · rcases hout : y.outcome s with ⟨_, s'⟩
    rw [hout] at hpaged hstorage hquiet hok hbytes
    subst hok
    have h := hf s' hpaged
    constructor
    case done =>
      intro a ha
      obtain ⟨_, ⟨⟩, htakes, hview⟩ := h.done a ha
      refine ⟨_, rfl, (htakes.of_patched hmapped hbytes).cons hmapped, ?_⟩
      rw [hview, hbytes]
      rfl
    case interrupted =>
      intro fault hfault
      have h' := h.interrupted fault hfault
      refine ⟨hstorage.trans h'.storage,
        h'.marks.trans hquiet.marks, by rw [h'.events, hquiet.events], fun _ => nofun, ?_⟩
      rintro _ ⟨⟩
      obtain ⟨x, hx, hstopped⟩ := h'.stopped patches rfl
      exact ⟨x, hx, hstopped.cons hmapped hbytes⟩
  -- It is the patch itself that is interrupted, and nothing follows.
  · rcases hout : y.outcome s with ⟨_, s'⟩
    rw [hout] at hstorage hquiet herror hbytes
    subst herror
    refine ⟨fun _ => nofun, fun fault hfault => ?_⟩
    cases hfault
    refine ⟨hstorage, hquiet.marks, by rw [hquiet.events, List.append_nil], fun _ => nofun, ?_⟩
    rintro _ ⟨⟩
    exact ⟨_, rfl, .first hfirst hbytes patches⟩

/-- Steps that put a patch into memory, with nothing to follow. -/
theorem of_puts {y : Run Unit} {p : Patch} (h : Puts y s p) : CarriesOut y s (.ok [p]) [] := by
  rw [← bind_pure y]
  exact after_put h fun s' _ => of_smooth (.pure ())

/-- A patch that is put into memory in some cases only. -/
theorem guarded_put {c : Prop} [Decidable c] {y : Run Unit} {p : Patch} {patches : List Patch}
    (hm : s.memory.Paged)
    (hy : Puts y s p) (hx : ∀ s', s'.memory.Paged → CarriesOut x s' (.ok patches) []) :
    CarriesOut (if c then y >>= fun _ => x else x) s (.ok ((if c then [p] else []) ++ patches))
      [] := by
  split
  · exact after_put hy hx
  · exact hx s hm

/-! ### Checks -/

/-- A check that is made in some cases only, and refuses something else than an access. -/
theorem bound {c : Prop} [Decidable c] {operation : String} {breach : Breach}
    (hx : CarriesOut x s plan hooks) :
    CarriesOut (if c then (violate operation breach : Run Unit) >>= fun _ => x else x) s plan
      hooks := by
  split
  · exact ⟨fun _ => nofun, fun _ => nofun⟩
  · exact hx

theorem requireInitialized {operation what : String} {address : Int}
    (hx : s.memory.isInitialized address = true → CarriesOut x s plan hooks) :
    CarriesOut (do Run.requireInitialized operation what address; x) s plan hooks := by
  unfold CarriesOut
  rw [outcome_bind, outcome_requireInitialized]
  by_cases hlive : s.memory.isInitialized address = true
  · rw [if_pos hlive]
    exact hx hlive
  · rw [if_neg hlive]
    exact ⟨fun _ => nofun, fun _ => nofun⟩

/-- A check for a value that is made in some cases only. -/
theorem guarded {c : Prop} [Decidable c] {operation what : String} {address : Int}
    (hx : CarriesOut x s plan hooks) :
    CarriesOut (if c then Run.requireInitialized operation what address >>= fun _ => x else x) s
      plan hooks := by
  split
  · exact requireInitialized fun _ => hx
  · exact hx

theorem requireUninitialized {operation what : String} {address : Int}
    (hx : CarriesOut x s plan hooks) :
    CarriesOut (do Run.requireUninitialized operation what address; x) s plan hooks := by
  unfold CarriesOut
  rw [outcome_bind, outcome_requireUninitialized]
  by_cases hlive : s.memory.isInitialized address = true
  · rw [if_pos hlive]
    exact ⟨fun _ => nofun, fun _ => nofun⟩
  · rw [if_neg hlive]
    exact hx

end CarriesOut

end Run

/-! ### Copies -/

/-- The plan of copying bytes, which are read first. -/
def Memory.copyPlan (m : Memory) (dest src : Int) (size : Nat) : Plan :=
  (m.read src size).map fun bytes => [⟨dest, bytes⟩]

namespace Run.CarriesOut

variable {s : Session}

theorem copy (hm : s.memory.Paged) (dest src size : Int) :
    CarriesOut (Run.copy dest src size) s (s.memory.copyPlan dest src size.toNat) [] := by
  unfold Run.copy Memory.copyPlan
  rcases hread : s.memory.read src size.toNat with f | bytes
  · unfold CarriesOut
    rw [outcome_bind, outcome_read, hread]
    refine ⟨fun _ => nofun, fun g hg => ?_⟩
    cases hg
    refine ⟨.refl _, rfl, (List.append_nil _).symm, ?_, fun _ => nofun⟩
    rintro _ ⟨⟩
    exact ⟨rfl, rfl⟩
  · have hout : (Run.read src size).outcome s = (.ok bytes, s) := by
      rw [outcome_read, hread]
      rfl
    have hwrite := of_puts (puts_write hm dest bytes)
    unfold CarriesOut at hwrite ⊢
    rw [outcome_bind_ok _ hout]
    exact hwrite

variable {t : WitnessTable} (hooks : t.layout.OnlyRecords)

include hooks

theorem copyValue (hm : s.memory.Paged) (dest src : Int) :
    CarriesOut (t.copyValue dest src) s (s.memory.copyPlan dest src t.layout.size) [] :=
  (copy hm dest src t.layout.size).finish fun _ => smooth_runCopyHook hooks dest src

theorem moveValue (hm : s.memory.Paged) (dest src : Int) :
    CarriesOut (t.moveValue dest src) s (s.memory.copyPlan dest src t.layout.size) [] := by
  unfold WitnessTable.moveValue
  split
  · exact copy hm dest src t.layout.size
  · exact (copyValue hooks hm dest src).finish fun _ => smooth_destroyValue hooks src

/-- A value that is destroyed before anything is written. -/
theorem after_destroyValue {α : Type} {x : Run α} {plan : Plan} {value : Int}
    (hlive : s.memory.isInitialized value = true)
    (hx : ∀ s', s'.memory = s.memory → CarriesOut x s' plan []) :
    CarriesOut (do t.destroyValue value; x) s plan (t.destroyHooks value true) := by
  have hdestroyed := WitnessTable.outcome_destroyValue hooks value s
  rw [hlive] at hdestroyed
  have h := after_events hdestroyed (hx _ rfl)
  rwa [List.append_nil] at h

end Run.CarriesOut

/-! ### Tags -/

namespace WitnessTable

variable {s : Session}

/-- The patches of making an enum one of its cases. -/
def tagPatches (t : WitnessTable) (value whichCase emptyCases : Int) : List Patch :=
  let size := t.layout.size
  let tagBytes := t.tagBytes emptyCases
  if whichCase ≤ t.layout.extraInhabitants then
    (if tagBytes ≠ 0 then [.integer (value + size) 0 tagBytes] else []) ++
      if whichCase ≠ 0 then [.integer value (t.firstInhabitant + whichCase - 1) size] else []
  else
    let index := whichCase - 1 - t.layout.extraInhabitants
    (if size ≠ 0 then [⟨value, List.replicate size 0⟩,
      .integer value (t.indexPayload index) t.caseBytes] else []) ++
      [.integer (value + size) (t.indexTag index) tagBytes]

theorem carriesOut_storeTagged (t : WitnessTable) (hm : s.memory.Paged) (value index : Int)
    (tagBytes : Nat) :
    Run.CarriesOut (t.storeTagged value index tagBytes) s
      (.ok ((if t.layout.size ≠ 0 then
        [⟨value, List.replicate t.layout.size 0⟩, .integer value (t.indexPayload index) t.caseBytes]
        else []) ++
      [.integer (value + t.layout.size) (t.indexTag index) tagBytes])) [] := by
  have htag (s' : Session) (hm' : s'.memory.Paged) :=
    Run.CarriesOut.of_puts
      (Run.puts_writeInt hm' (value + t.layout.size) (t.indexTag index) tagBytes)
  unfold storeTagged
  dsimp only
  split
  · exact .after_put (Run.puts_fill hm value t.layout.size) fun s₁ hm₁ =>
      .after_put (Run.puts_writeInt hm₁ value (t.indexPayload index) t.caseBytes) htag
  · exact htag s hm

theorem carriesOut_storeEnumTag (t : WitnessTable) (hm : s.memory.Paged)
    (value whichCase emptyCases : Int) :
    Run.CarriesOut (t.storeEnumTagSinglePayload value whichCase emptyCases) s
      (.ok (t.tagPatches value whichCase emptyCases)) [] := by
  have hmark : Run.Smooth (if whichCase ≠ 0 then Run.markInitialized value else pure ()) :=
    Run.ite (Run.smooth_markInitialized value) (.pure ())
  unfold storeEnumTagSinglePayload tagPatches
  dsimp only
  refine .bound (.guarded ?_)
  by_cases hle : whichCase ≤ t.layout.extraInhabitants
  -- An extra inhabitant: the tag bytes are written before the payload.
  · rw [if_pos hle, if_pos hle]
    refine .guarded_put hm (Run.puts_writeInt hm _ _ _) fun s₁ hm₁ => ?_
    rw [← List.append_nil (if whichCase ≠ 0 then _ else _)]
    exact .guarded_put hm₁ (Run.puts_writeInt hm₁ _ _ _) fun s₂ _ => .of_smooth hmark
  · rw [if_neg hle, if_neg hle]
    exact (t.carriesOut_storeTagged hm value _ _).finish fun _ => hmark

end WitnessTable

/-! ### Calls -/

/-- A call that writes: on memory, or of a witness that copies, takes or tags a value. -/
inductive WritingCall where
  | write (address : Int) (bytes : Bytes)
  | writeInt (address value size : Int) (signed : Bool)
  | writePointer (address value : Int)
  | fill (address size byte : Int)
  | copy (dest src size : Int)
  | initializeWithCopy (t : WitnessTable) (dest src : Int)
  | assignWithCopy (t : WitnessTable) (dest src : Int)
  | initializeWithTake (t : WitnessTable) (dest src : Int)
  | assignWithTake (t : WitnessTable) (dest src : Int)
  | storeEnumTagSinglePayload (t : WitnessTable) (value whichCase emptyCases : Int)

namespace WritingCall

variable {s : Session}

/-- Makes the call. -/
def perform : WritingCall → Run Unit
  | .write address bytes => Run.write address bytes
  | .writeInt address value size signed => Run.writeInt address value size signed
  | .writePointer address value => Run.writePointer address value
  | .fill address size byte => Run.fill address size byte
  | .copy dest src size => Run.copy dest src size
  | .initializeWithCopy t dest src => do let _ ← t.initializeWithCopy dest src
  | .assignWithCopy t dest src => do let _ ← t.assignWithCopy dest src
  | .initializeWithTake t dest src => do let _ ← t.initializeWithTake dest src
  | .assignWithTake t dest src => do let _ ← t.assignWithTake dest src
  | .storeEnumTagSinglePayload t value whichCase emptyCases =>
  t.storeEnumTagSinglePayload value whichCase emptyCases

/-- The patches of writing an integer. One that does not fit is not written at all. -/
def integerPlan (address value size : Int) (signed : Bool) : Plan :=
  match Run.integerBytes value size signed with
  | .ok bytes => .ok [⟨address, bytes⟩]
  | .error _ => .ok []

/-- What the call is going to write. A value that is assigned to itself stays as it is. -/
def plan (m : Memory) : WritingCall → Plan
  | .write address bytes => .ok [⟨address, bytes⟩]
  | .writeInt address value size signed => integerPlan address value size signed
  | .writePointer address value => integerPlan address value m.pointerSize false
  | .fill address size byte => .ok [⟨address, List.replicate size.toNat (UInt8.ofNat byte.toNat)⟩]
  | .copy dest src size => m.copyPlan dest src size.toNat
  | .assignWithCopy t dest src => if dest = src then .ok [] else m.copyPlan dest src t.layout.size
  | .initializeWithCopy t dest src | .initializeWithTake t dest src | .assignWithTake t dest src =>
    m.copyPlan dest src t.layout.size
  | .storeEnumTagSinglePayload t value whichCase emptyCases =>
  .ok (t.tagPatches value whichCase emptyCases)

/-- The table that the call is made on, if it is made on one. -/
def table? : WritingCall → Option WitnessTable
  | .write .. | .writeInt .. | .writePointer .. | .fill .. | .copy .. => none
  | .initializeWithCopy t _ _ | .assignWithCopy t _ _ | .initializeWithTake t _ _
  | .assignWithTake t _ _ | .storeEnumTagSinglePayload t _ _ _ => some t

/-- The hooks that run before anything is written. The old value is destroyed where one is
assigned. -/
def hooksBefore : WritingCall → List HookEvent
  | .assignWithCopy t dest src => if dest = src then [] else t.destroyHooks dest true
  | .assignWithTake t dest _ => t.destroyHooks dest true
  | _ => []

theorem carriesOut_writeInt (hm : s.memory.Paged) (address value size : Int) (signed : Bool) :
    Run.CarriesOut (Run.writeInt address value size signed) s
      (integerPlan address value size signed) [] := by
  unfold Run.writeInt integerPlan
  rcases Run.integerBytes value size signed with e | bytes
  · exact ⟨fun _ => nofun, fun _ => nofun⟩
  · exact .of_puts (Run.puts_write hm address bytes)

/-- Every call whose hooks only record carries out its plan, or is interrupted by memory in the
middle. If memory refuses an access, then storage and marks are as before the call, and of the hooks
only that for a value that is assigned over has run. If it is the source that cannot be read, no
byte has changed. Else the bytes that the call writes are in memory up to the address that is
refused, and all others are as before. -/
theorem interrupted (hm : s.memory.Paged) (c : WritingCall)
    (hooks : ∀ t, c.table? = some t → t.layout.OnlyRecords) :
    s.CarriesOut (c.plan s.memory) c.hooksBefore (c.perform.outcome s).1
      (c.perform.outcome s).2 := by
  show Run.CarriesOut c.perform s (c.plan s.memory) c.hooksBefore
  cases c with
  | write address bytes => exact .of_puts (Run.puts_write hm address bytes)
  | writeInt address value size signed => exact carriesOut_writeInt hm address value size signed
  | writePointer address value =>
    exact carriesOut_writeInt hm address value s.memory.pointerSize false
  | fill address size byte =>
    show Run.CarriesOut (Run.fill address size byte) s _ _
    unfold Run.CarriesOut
    rw [Run.outcome_fill]
    split
    · exact ⟨fun _ => nofun, fun _ => nofun⟩
    · exact Run.CarriesOut.of_puts (Run.puts_write hm address _)
  | copy dest src size => exact .copy hm dest src size
  | initializeWithCopy t dest src =>
    refine Run.CarriesOut.finish (.requireUninitialized (.requireInitialized fun _ => ?_)) fun _ =>
      .pure ()
    exact (Run.CarriesOut.copyValue (hooks t rfl) hm dest src).finish fun _ =>
      (Run.smooth_markInitialized dest).bind fun _ => .pure dest
  | assignWithCopy t dest src =>
    refine Run.CarriesOut.finish
      (.requireInitialized fun hlive => .requireInitialized fun _ => ?_) fun _ => .pure ()
    unfold plan hooksBefore
    dsimp only
    split
    · exact .of_smooth (.pure dest)
    -- The hook has run by the time the source is read, and it has left memory alone.
    · refine .after_destroyValue (hooks t rfl) hlive fun s' hs' => ?_
      rw [← hs']
      exact (Run.CarriesOut.copyValue (hooks t rfl) (hs' ▸ hm) dest src).finish fun _ => .pure dest
  | initializeWithTake t dest src =>
    refine Run.CarriesOut.finish (.requireUninitialized (.requireInitialized fun _ => ?_)) fun _ =>
      .pure ()
    exact (Run.CarriesOut.moveValue (hooks t rfl) hm dest src).finish fun _ =>
      (Run.smooth_markUninitialized src).bind fun _ =>
      (Run.smooth_markInitialized dest).bind fun _ => .pure dest
  | assignWithTake t dest src =>
    refine Run.CarriesOut.finish
      (.bound (.requireInitialized fun hlive => .requireInitialized fun _ => ?_)) fun _ => .pure ()
    refine .after_destroyValue (hooks t rfl) hlive fun s' hs' => ?_
    show Run.CarriesOut _ s' (s.memory.copyPlan dest src t.layout.size) []
    rw [← hs']
    exact (Run.CarriesOut.moveValue (hooks t rfl) (hs' ▸ hm) dest src).finish fun _ =>
      (Run.smooth_markUninitialized src).bind fun _ => .pure dest
  | storeEnumTagSinglePayload t value whichCase emptyCases =>
    exact t.carriesOut_storeEnumTag hm value whichCase emptyCases

/-- The tag of a value lies on a page that is not mapped. Its payload has been written by then. -/
theorem interrupted_shortTable :
    let call := storeEnumTagSinglePayload WitnessTable.shortTable 10 4 5
    WitnessTable.shortSession.memory.Paged ∧ WitnessTable.shortTable.layout.OnlyRecords ∧
      (call.perform.outcome WitnessTable.shortSession).1 = .error (.access (.unmapped 12)) ∧
      WitnessTable.shortSession.memory.StoppedAt (WitnessTable.shortTable.tagPatches 10 4 5) 12
        (call.perform.outcome WitnessTable.shortSession).2.memory ∧
      (call.perform.outcome WitnessTable.shortSession).2.memory.marks =
        WitnessTable.shortSession.memory.marks := by
  have hm : WitnessTable.shortSession.memory.Paged :=
    (Memory.paged_of_create (rfl : Memory.create 4 8 = .ok (.empty 2 8))).mapRange 4 8
  have hooks : WitnessTable.shortTable.layout.OnlyRecords := TypeLayout.hooksSatisfy_of_none rfl rfl
  have hresult : ((storeEnumTagSinglePayload WitnessTable.shortTable 10 4 5).perform.outcome
      WitnessTable.shortSession).1 = .error (.access (.unmapped 12)) := by decide +kernel
  have hcall := interrupted hm (storeEnumTagSinglePayload WitnessTable.shortTable 10 4 5) (by
    rintro t ⟨⟩
    exact hooks)
  have hend := hcall.interrupted _ hresult
  obtain ⟨x, hx, hstopped⟩ := hend.stopped _ rfl
  cases hx
  exact ⟨hm, hooks, hresult, hstopped, hend.marks⟩

/-- One page of 16 bytes, with an initialized value at its beginning. Another value is said to be
where no page is. -/
def onePageSession : Session :=
  .ofMemory ((((Memory.empty 4 8).mapRange 16 16).markInitialized 16).markInitialized 64)

/-- Writing over the end of the page changes the bytes before it. Assigning a value that cannot be
read destroys the old one, which stays marked. -/
theorem not_undone :
    ((write 24 (List.replicate 16 1)).perform.outcome onePageSession).1 =
      .error (.access (.unmapped 32)) ∧
      onePageSession.memory.byte? 24 = some 0 ∧
      ((write 24 (List.replicate 16 1)).perform.outcome onePageSession).2.memory.byte? 24 = some 1 ∧
      ((assignWithCopy WitnessTable.largeTable 16 64).perform.outcome onePageSession).1 =
        .error (.access (.unmapped 64)) ∧
      ((assignWithCopy WitnessTable.largeTable 16 64).perform.outcome onePageSession).2.events =
      [.destroy 16 true] ∧
      ((assignWithCopy WitnessTable.largeTable 16 64).perform.outcome
        onePageSession).2.memory.isInitialized 16 = true := by
  decide +kernel

end WritingCall

end SwiftABI
