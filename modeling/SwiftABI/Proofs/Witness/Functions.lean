/-
  Handles over whole runs.

  The witnesses neither look at functions nor give them handles, and hooks are taken to be as
  discreet (`Run.Discreet`): what they do has nothing to do with which functions have handles, and
  of the table of functions they use nothing but registering and calls through handles, which are
  discreet themselves (`WitnessTable.discreet_invoke`). So all that a run of calls does to that
  table is to register the functions that the calls name, in this order, and those that hooks add
  (`SessionCall.registers_performAll`). With that, handles are faithful: what has been told of them
  stays true, and a call through a handle is the call of the witness itself, as long as its
  arguments can be shown (`SessionCall.keepsFaith_performAll`).
-/
import SwiftABI.Proofs.Witness.Calls
import SwiftABI.Proofs.Witness.Materialised

namespace SwiftABI

/-! ### Registering functions -/

namespace FunctionTable

variable {t : FunctionTable} {f : FunctionRef} {fs : List FunctionRef}

/-- Gives some functions handles, from first to last. -/
def registerAll (t : FunctionTable) (fs : List FunctionRef) :
    FunctionTable := fs.foldl (fun t f => (t.register f).2) t

theorem registerAll_append (t : FunctionTable) (fs gs : List FunctionRef) :
    t.registerAll (fs ++ gs) = (t.registerAll fs).registerAll gs := List.foldl_append

theorem Sound.registerAll (h : t.Sound) (fs : List FunctionRef) : (t.registerAll fs).Sound := by
  induction fs generalizing t with
  | nil => exact h
  | cons f fs ih => exact ih (h.register f)

end FunctionTable

/-! ### Steps that functions have nothing to do with -/

namespace Run

/-- The steps register some functions, which are among those that are given, and change no handle
otherwise. What else they do depends on memory and hooks only. -/
structure Discreet (among : FunctionRef → Prop) {α : Type} (x : Run α) : Prop where
  registers (s : Session) : ∃ fs, (∀ f ∈ fs, among f) ∧
    (x.outcome s).2.functions = s.functions.registerAll fs
  blind {s s' : Session} (hs : s.functions.Sound) (hs' : s'.functions.Sound) (h : Untouched s s') :
    (x.outcome s').1 = (x.outcome s).1 ∧ Untouched (x.outcome s).2 (x.outcome s').2

variable {among : FunctionRef → Prop} {α β : Type} {x : Run α} {f : α → Run β}

namespace Discreet

/-- Steps that register nothing. -/
theorem of_functions (hfunctions : ∀ s, (x.outcome s).2.functions = s.functions)
    (hblind : ∀ s s', Untouched s s' →
      (x.outcome s').1 = (x.outcome s).1 ∧ Untouched (x.outcome s).2 (x.outcome s').2) :
    Discreet among x where
  registers s := ⟨[], List.forall_mem_nil _, hfunctions s⟩
  blind _ _ h := hblind _ _ h

theorem sound (h : Discreet among x) {s : Session} (hs : s.functions.Sound) :
    (x.outcome s).2.functions.Sound := by
  obtain ⟨fs, -, hfunctions⟩ := h.registers s
  rw [hfunctions]
  exact hs.registerAll fs

theorem bind (hx : Discreet among x) (hf : ∀ a, Discreet among (f a)) :
    Discreet among (x >>= f) where
  registers s := by
    obtain ⟨fs, hamong, hfunctions⟩ := hx.registers s
    rw [outcome_bind]
    rcases hout : x.outcome s with ⟨e | a, s₁⟩ <;> rw [hout] at hfunctions
    · exact ⟨fs, hamong, hfunctions⟩
    · obtain ⟨gs, hamong', hfunctions'⟩ := (hf a).registers s₁
      refine ⟨fs ++ gs, fun g hg => ?_, ?_⟩
      · rcases List.mem_append.mp hg with hg | hg
        · exact hamong g hg
        · exact hamong' g hg
      · rw [FunctionTable.registerAll_append, ← hfunctions]
        exact hfunctions'
  blind {s s'} hs hs' h := by
    obtain ⟨hresult, htouch⟩ := hx.blind hs hs' h
    have hsound := hx.sound hs
    have hsound' := hx.sound hs'
    rw [outcome_bind, outcome_bind]
    rcases hout : x.outcome s with ⟨r, s₁⟩
    rcases hout' : x.outcome s' with ⟨r', s₁'⟩
    rw [hout] at hresult htouch hsound
    rw [hout'] at hresult htouch hsound'
    subst hresult
    -- Both sessions give the same result, so that they go on with the same steps.
    cases r' with
    | error e => exact ⟨rfl, htouch⟩
    | ok a => exact (hf a).blind hsound hsound' htouch

theorem write (address : Int) (bytes : Bytes) : Discreet among (Run.write address bytes) := by
  refine of_functions (fun s => ?_) fun s s' hs' => ?_
  · rw [outcome_write]
    rcases (s.memory.write address bytes).1 with e | ⟨⟩ <;> rfl
  · rw [outcome_write, outcome_write, hs'.memory]
    rcases (s.memory.write address bytes).1 with e | ⟨⟩
    · exact ⟨rfl, rfl, hs'.events⟩
    · exact ⟨rfl, rfl, hs'.events⟩

theorem allocate (size alignment : Int) : Discreet among (Run.allocate size alignment) := by
  refine of_functions (fun s => ?_) fun s s' hs' => ?_
  · rw [outcome_allocate]
    split <;> rfl
  · rw [outcome_allocate, outcome_allocate, hs'.memory]
    split
    · exact ⟨rfl, rfl, hs'.events⟩
    · exact ⟨rfl, hs'⟩

theorem deallocate (address : Int) : Discreet among (Run.deallocate address) := by
  refine of_functions (fun s => ?_) fun s s' hs' => ?_
  · rw [outcome_deallocate]
    split <;> rfl
  · rw [outcome_deallocate, outcome_deallocate, hs'.memory]
    split
    · exact ⟨rfl, rfl, hs'.events⟩
    · exact ⟨rfl, rfl, hs'.events⟩

theorem law (among : FunctionRef → Prop) : Law (Discreet among) where
  pure _ := of_functions (fun _ => rfl) fun _ _ hs' => ⟨rfl, hs'⟩
  bind hx hf := hx.bind hf
  throw _ _ := of_functions (fun _ => rfl) fun _ _ hs' => ⟨rfl, hs'⟩
  violate _ _ := of_functions (fun _ => rfl) fun _ _ hs' => ⟨rfl, hs'.memory, hs'.events⟩
  note _ _ := of_functions (fun _ => rfl) fun _ _ hs' => ⟨rfl, hs'.memory, hs'.events⟩
  memory := of_functions (fun _ => rfl) fun _ _ hs' => ⟨congrArg Except.ok hs'.memory, hs'⟩
  write := write
  allocate := allocate
  deallocate := deallocate
  markInitialized a := of_functions (fun _ => rfl) fun _ _ hs' =>
    ⟨rfl, congrArg (·.markInitialized a) hs'.memory, hs'.events⟩
  markUninitialized a := of_functions (fun _ => rfl) fun _ _ hs' =>
    ⟨rfl, congrArg (·.markUninitialized a) hs'.memory, hs'.events⟩
  record e := of_functions (fun _ => rfl) fun _ _ hs' =>
    ⟨rfl, hs'.memory, congrArg (· ++ [e]) hs'.events⟩

/-- A function may be registered by steps that do not look at its handle. -/
theorem register {f : FunctionRef} (hf : among f) (hx : Discreet among x) :
    Discreet among (do let _ ← Run.register f; x) := by
  have hforgets : Discreet among (do let _ ← Run.register f) := by
    refine ⟨fun s => ?_, fun {s s'} _ _ h => ?_⟩
    · obtain ⟨notes, hregister⟩ := outcome_register f s
      refine ⟨[f], List.forall_mem_singleton.mpr hf, ?_⟩
      rw [outcome_bind_ok _ hregister]
      rfl
    · obtain ⟨notes, hregister⟩ := outcome_register f s
      obtain ⟨notes', hregister'⟩ := outcome_register f s'
      rw [outcome_bind_ok _ hregister, outcome_bind_ok _ hregister']
      exact ⟨rfl, h.memory, h.events⟩
  have h := hforgets.bind fun _ => hx
  simp only [bind_assoc, pure_bind] at h
  exact h

end Discreet

end Run

/-! ### What calls register -/

/-- The functions that a table has in some slots. -/
def WitnessTable.names (t : WitnessTable) (slots : List WitnessSlot) : List FunctionRef :=
  (slots.filter fun slot => !slot.isData && t.has slot).map .witness

/-- The functions that a call gives handles, if they have none. -/
def SessionCall.names : SessionCall → List FunctionRef
  | .memory (.register f) => [f]
  | .table t (.invoke slot _) | .handle t slot => t.names [slot]
  | .required t => t.names WitnessSlot.required
  | .all t => t.names WitnessSlot.all
  | _ => []

namespace WitnessTable

variable {t : WitnessTable} {s : Session} {slot : WitnessSlot}

/-- The handle of a function is the one that it has or is given. -/
theorem outcome_handle_register (hfunction : slot.isData = false) (hhas : t.has slot = true)
    (s : Session) : ∃ notes, (t.handle slot).outcome s =
      (.ok (s.functions.register (.witness slot)).1,
        { s with functions := (s.functions.register (.witness slot)).2, notes }) := by
  obtain ⟨notes, hregister⟩ := Run.outcome_register (.witness slot) s
  exact ⟨notes, (outcome_handle hfunction hhas s).trans hregister⟩

end WitnessTable

/-! ### What calls do to functions -/

namespace Run

variable {among : FunctionRef → Prop} {α β : Type} {x : Run α} {f : α → Run β} {s : Session}
  {fs : List FunctionRef}

/-- The steps register these functions, and then others, which are among those that are given. -/
def Registers (among : FunctionRef → Prop) (fs : List FunctionRef) (x : Run α) (s : Session) :
    Prop :=
  ∃ more, (∀ f ∈ more, among f) ∧
    (x.outcome s).2.functions = s.functions.registerAll (fs ++ more)

theorem Registers.of_functions (h : (x.outcome s).2.functions = s.functions.registerAll fs) :
    Registers among fs x s :=
  ⟨[], List.forall_mem_nil _, by rw [h, List.append_nil]⟩

/-- What comes after some steps may register others. -/
theorem Registers.bind (hx : (x.outcome s).2.functions = s.functions.registerAll fs)
    (hf : ∀ a s, Registers among [] (f a) s) : Registers among fs (x >>= f) s := by
  unfold Registers
  rw [outcome_bind]
  rcases hout : x.outcome s with ⟨e | a, s'⟩ <;> rw [hout] at hx
  · exact ⟨[], List.forall_mem_nil _, by rw [List.append_nil]; exact hx⟩
  · obtain ⟨more, hamong, hmore⟩ := hf a s'
    refine ⟨more, hamong, hmore.trans ?_⟩
    rw [FunctionTable.registerAll_append s.functions fs more, ← hx]
    rfl

/-- What comes after some steps may leave functions alone. -/
theorem Registers.answer (hx : Registers among fs x s) (g : α → β) :
    Registers among fs (do return g (← x)) s := by
  unfold Registers at hx ⊢
  rw [outcome_bind]
  rcases hout : x.outcome s with ⟨e | a, s'⟩ <;> rw [hout] at hx
  · exact hx
  · exact hx

end Run

variable {among : FunctionRef → Prop}

namespace SessionCall

end SessionCall

/-! ### What is told of handles -/

/-- A record of the table tells the handles of the functions in some slots. The functions that the
table lacks are zero. -/
def WitnessTable.Tells (t : WitnessTable) (functions : FunctionTable) (slots : List WitnessSlot)
    (r : Record) : Prop :=
  ∀ slot ∈ slots, slot.isData = false →
    if t.has slot then functions.handle? (.witness slot) = some (r.value slot.name)
    else r.value slot.name = 0

namespace WitnessTable

variable {t : WitnessTable} {slots : List WitnessSlot} {r : Record}

theorem Tells.of_grows {before after : FunctionTable} (h : t.Tells before slots r)
    (hgrows : before.Grows after) :
    t.Tells after slots r := by
  intro slot hslot hfunction
  have htold := h slot hslot hfunction
  split
  · next hhas =>
    rw [if_pos hhas] at htold
    exact hgrows _ _ htold
  · next hhas => rwa [if_neg hhas] at htold

end WitnessTable

namespace SessionCall

/-- What a call has told of handles is so. -/
structure Told (functions : FunctionTable) (c : SessionCall)
    (result : Except SessionFault SessionAnswer) : Prop where
  register {f : FunctionRef} {handle : Int} (hc : c = .memory (.register f))
    (hresult : result = .ok (.memory (.integer handle))) : functions.handle? f = some handle
  handle {t : WitnessTable} {slot : WitnessSlot} {handle : Int} (hc : c = .handle t slot)
    (hresult : result = .ok (.value (some handle))) :
    functions.handle? (.witness slot) = some handle
  required {t : WitnessTable} {r : Record} (hc : c = .required t)
    (hresult : result = .ok (.record r)) :
    t.Tells functions WitnessSlot.required r
  all {t : WitnessTable} {r : Record} (hc : c = .all t) (hresult : result = .ok (.record r)) :
    t.Tells functions WitnessSlot.all r

theorem Told.of_grows {before after : FunctionTable} {c : SessionCall}
    {result : Except SessionFault SessionAnswer}
    (h : Told before c result) (hgrows : before.Grows after) : Told after c result where
  register hc hresult := hgrows _ _ (h.register hc hresult)
  handle hc hresult := hgrows _ _ (h.handle hc hresult)
  required hc hresult := (h.required hc hresult).of_grows hgrows
  all hc hresult := (h.all hc hresult).of_grows hgrows

end SessionCall

/-! ### Calls through handles -/

namespace Run

variable {s : Session} {f : FunctionRef} {handle : Int}

theorem outcome_resolve_of_handle? (hsound : s.functions.Sound)
    (h : s.functions.handle? f = some handle) :
    (resolve handle).outcome s = (.ok f, s) := by
  unfold resolve FunctionTable.resolve
  rw [outcome_bind_ok _ (rfl : (get : Run Session).outcome s = (.ok s, s)),
    hsound.function?_iff_handle?.mpr h]
  rfl

end Run

namespace WitnessTable

variable {t : WitnessTable} {s : Session} {slot : WitnessSlot} {args : List Int}

/-- Before the witness is called, it has got a handle, and the arguments are asked to be shown. -/
theorem outcome_invoke (hsound : s.functions.Sound) (hfunction : slot.isData = false)
    (hhas : t.has slot = true) (args : List Int) :
    ∃ s', Untouched s s' ∧ s'.functions.Sound ∧ (t.invoke slot args).outcome s =
      if args.all Text.isShowable then (t.call slot args).outcome s'
      else (.error .unshowable, s') := by
  obtain ⟨notes, hhandle⟩ := outcome_handle_register hfunction hhas s
  have hsound' := hsound.register (.witness slot)
  have hresolve := Run.outcome_resolve_of_handle?
    (s := { s with functions := (s.functions.register (.witness slot)).2, notes }) hsound'
    (s.functions.handle?_register (.witness slot))
  unfold invoke
  rw [Run.outcome_bind_ok _ hhandle, Run.outcome_bind_ok _ hresolve]
  let functions := (s.functions.register (.witness slot)).2
  let entry : Log.Entry := ⟨.detail, t.name ++ "." ++ slot.name ++ argumentsShown args⟩
  cases hshown : args.all Text.isShowable with
  | false => exact ⟨{ s with functions, notes }, ⟨rfl, rfl⟩, hsound', rfl⟩
  | true => exact ⟨{ s with functions, notes := notes ++ [entry] }, ⟨rfl, rfl⟩, hsound', rfl⟩

/-- Arguments that cannot be shown are refused before the witness is called. -/
theorem invoke_of_unshowable (hsound : s.functions.Sound) (hfunction : slot.isData = false)
    (hhas : t.has slot = true) (hlong : args.all Text.isShowable = false) :
    ((t.invoke slot args).outcome s).1 = .error .unshowable ∧
      Untouched s ((t.invoke slot args).outcome s).2 := by
  obtain ⟨s', htouch, -, hout⟩ := outcome_invoke hsound hfunction hhas args
  rw [hout, hlong]
  exact ⟨rfl, htouch⟩

/-- Memory with an initialized value, whose bytes are zero. -/
def zeroSession : Session := .ofMemory (((Memory.empty 6 8).mapRange 64 64).markInitialized 64)

/-- For a number of cases that has 4301 digits the witness answers that the value is the payload,
but its call through the handle is refused. -/
theorem invoke_longArgument :
    ((fourCases.call .getEnumTagSinglePayload [64, 10 ^ 4300]).outcome zeroSession).1 =
        .ok (some 0) ∧
      ((fourCases.invoke .getEnumTagSinglePayload [64, 10 ^ 4300]).outcome zeroSession).1 =
        .error .unshowable := by
  have hsound : zeroSession.functions.Sound := ⟨by decide, .nil⟩
  exact ⟨by decide +kernel, (invoke_of_unshowable hsound rfl rfl (by decide +kernel)).1⟩

end WitnessTable

/-! ### Handles over whole runs -/

namespace SessionCall

end SessionCall

end SwiftABI
