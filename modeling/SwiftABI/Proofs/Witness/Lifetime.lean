/-
  Lifetimes balance over whole runs.

  Five witnesses begin and end the lives of values: `destroy`, the two that copy and the two that
  take. `LifetimeCall` is a call of one of them, and `performAll` makes any number of such calls,
  one after the other, whatever becomes of each. Two sessions are `Balanced` if the hooks that have
  run between them all ran on initialized values, and copied as many more values than they destroyed
  as there are more marks. Each call leaves the session balanced with the one before it, and so does
  every run (`balanced_performAll`), unless memory refuses an access.
-/
import SwiftABI.Proofs.Witness.Hooks

namespace SwiftABI

/-! ### Hooks -/

namespace HookEvent

/-- Did the hook run on an initialized value? -/
def onLiveValue : HookEvent → Bool
  | .copy _ _ _ srcInitialized => srcInitialized
  | .destroy _ initialized => initialized

def isCopy : HookEvent → Bool
  | .copy .. => true
  | .destroy .. => false

def isDestroy : HookEvent → Bool
  | .copy .. => false
  | .destroy .. => true

/-- The number of values that some hooks have copied, less the number that they have destroyed. -/
def balance (events : List HookEvent) : Int := events.countP isCopy - events.countP isDestroy

@[simp]
theorem balance_nil : balance [] = 0 := rfl

theorem balance_append (xs ys : List HookEvent) : balance (xs ++ ys) = balance xs + balance ys := by
  unfold balance
  rw [List.countP_append, List.countP_append]
  omega

end HookEvent

/-! ### Calls -/

/-- A call of a witness that begins or ends the life of a value. -/
inductive LifetimeCall where
  | destroy (value : Int)
  | initializeWithCopy (dest src : Int)
  | assignWithCopy (dest src : Int)
  | initializeWithTake (dest src : Int)
  | assignWithTake (dest src : Int)

namespace LifetimeCall

def slot : LifetimeCall → WitnessSlot
  | .destroy _ => .destroy
  | .initializeWithCopy _ _ => .initializeWithCopy
  | .assignWithCopy _ _ => .assignWithCopy
  | .initializeWithTake _ _ => .initializeWithTake
  | .assignWithTake _ _ => .assignWithTake

def arguments : LifetimeCall → List Int
  | .destroy value => [value]
  | .initializeWithCopy dest src | .assignWithCopy dest src
  | .initializeWithTake dest src | .assignWithTake dest src => [dest, src]

/-- Makes the call. -/
def perform (t : WitnessTable) (c : LifetimeCall) : Run (Option Int) := t.call c.slot c.arguments

/-- Makes some calls, one after the other, also after one that fails. -/
def performAll (t : WitnessTable) :
    List LifetimeCall → Session → List (Except SessionFault (Option Int)) × Session
  | [], s => ([], s)
  | c :: cs, s =>
    let (result, s') := (c.perform t).outcome s
    let (results, s'') := performAll t cs s'
    (result :: results, s'')

end LifetimeCall

/-! ### Sessions that are balanced -/

/-- The hooks that have run between two sessions ran on initialized values, and they copied as many
more values than they destroyed as there are more marks. -/
def Balanced (s s' : Session) : Prop :=
  ∃ new, s'.events = s.events ++ new ∧ (∀ e ∈ new, e.onLiveValue = true) ∧
    HookEvent.balance new = (s'.memory.marks.size : Int) - s.memory.marks.size

theorem Balanced.refl (s : Session) : Balanced s s :=
  ⟨[], (List.append_nil _).symm, by simp, by simp⟩

theorem Balanced.trans {s s' s'' : Session} (h : Balanced s s') (h' : Balanced s' s'') :
    Balanced s s'' := by
  obtain ⟨new, hevents, hlive, hbalance⟩ := h
  obtain ⟨new', hevents', hlive', hbalance'⟩ := h'
  refine ⟨new ++ new', by rw [hevents', hevents, List.append_assoc], ?_, ?_⟩
  · intro e he
    rcases List.mem_append.mp he with he | he
    · exact hlive e he
    · exact hlive' e he
  · rw [HookEvent.balance_append, hbalance, hbalance']
    omega

theorem Run.Quiet.balanced {s s' : Session} (h : Run.Quiet s s') : Balanced s s' :=
  ⟨[], by rw [h.events, List.append_nil], by simp, by rw [h.marks]; simp⟩

/-! ### What the parts of a call record -/

/-- The steps end well, after these hooks and with these marks, unless memory refuses an access. -/
def Records {α : Type} (x : Run α) (s : Session) (new : List HookEvent)
    (marks : Std.TreeSet Int) : Prop :=
  Run.refused (x.outcome s).1 = true ∨
    ((∃ a, (x.outcome s).1 = .ok a) ∧ (x.outcome s).2.events = s.events ++ new ∧
      (x.outcome s).2.memory.marks = marks)

namespace Records

variable {α β : Type} {s : Session} {new new' : List HookEvent} {marks marks' : Std.TreeSet Int}

theorem pure (a : α) (hmarks : s.memory.marks = marks) : Records (Pure.pure a) s [] marks :=
  .inr ⟨⟨a, rfl⟩, (List.append_nil _).symm, hmarks⟩

/-- A sequence records what its steps record. -/
theorem bind {x : Run α} {f : α → Run β} (hx : Records x s new marks)
    (hf : ∀ a s', s'.memory.marks = marks → Records (f a) s' new' marks') :
    Records (x >>= f) s (new ++ new') marks' := by
  unfold Records at hx ⊢
  rw [Run.outcome_bind]
  rcases hout : x.outcome s with ⟨e | a, s'⟩ <;> rw [hout] at hx
  · rcases hx with h | ⟨⟨a, ha⟩, -⟩
    · exact .inl h
    · cases ha
  · rcases hx with h | ⟨-, hevents, hmarks⟩
    · cases h
    · rcases hf a s' hmarks with h | ⟨h, hevents', hmarks'⟩
      · exact .inl h
      · exact .inr ⟨h, by rw [hevents', hevents, List.append_assoc], hmarks'⟩

end Records

/-! ### Steps that keep the balance -/

/-- Unless memory refuses an access, the session after the steps is balanced with the one before. -/
def KeepsBalance {α : Type} (x : Run α) (s : Session) : Prop :=
  Run.refused (x.outcome s).1 = false → Balanced s (x.outcome s).2

/-- Steps keep the balance if the hooks that they record run on initialized values and go with the
marks. -/
theorem Records.keepsBalance {α : Type} {x : Run α} {s : Session} {new : List HookEvent}
    {marks : Std.TreeSet Int} (hx : Records x s new marks)
    (hlive : ∀ e ∈ new, e.onLiveValue = true)
    (hbalance : HookEvent.balance new = (marks.size : Int) - s.memory.marks.size) :
    KeepsBalance x s := by
  intro haccess
  rcases hx with h | ⟨-, hevents, hmarks⟩
  · rw [haccess] at h
    cases h
  · exact ⟨new, hevents, hlive, by rw [hmarks, hbalance]⟩

namespace KeepsBalance

variable {α : Type} {x : Run α} {s : Session} {operation what : String} {address : Int}

theorem violate (operation : String) (breach : Breach) (s : Session) :
    KeepsBalance (Run.violate operation breach : Run α) s :=
  fun _ => (Run.quiet_violate operation breach s).balanced

/-- After a check for an initialized value there is one. -/
theorem requireInitialized (hx : s.memory.marks.contains address = true → KeepsBalance x s) :
    KeepsBalance (do Run.requireInitialized operation what address; x) s := by
  unfold KeepsBalance
  rw [Run.outcome_bind, Run.outcome_requireInitialized]
  by_cases hlive : s.memory.isInitialized address = true
  · rw [if_pos hlive]
    exact hx hlive
  · rw [if_neg hlive]
    exact violate _ _ s

/-- After a check for no initialized value there is none. -/
theorem requireUninitialized (hx : s.memory.marks.contains address = false → KeepsBalance x s) :
    KeepsBalance (do Run.requireUninitialized operation what address; x) s := by
  unfold KeepsBalance
  rw [Run.outcome_bind, Run.outcome_requireUninitialized]
  by_cases hlive : s.memory.isInitialized address = true
  · rw [if_pos hlive]
    exact violate _ _ s
  · rw [if_neg hlive]
    exact hx (Bool.eq_false_iff.mpr hlive)

/-- The answer of a call may be made into another one. -/
theorem map {β : Type} (g : α → β) (hx : KeepsBalance x s) :
    KeepsBalance (do return g (← x)) s := by
  unfold KeepsBalance at hx ⊢
  rw [Run.outcome_bind]
  rcases hout : x.outcome s with ⟨_ | a, s'⟩ <;> rw [hout] at hx
  · exact hx
  · exact fun _ => hx rfl

end KeepsBalance

/-! ### What a call does to the hooks and the marks -/

namespace WitnessTable

variable {t : WitnessTable} {s : Session} {marks : Std.TreeSet Int}

theorem records_copy (dest src size : Int) (hmarks : s.memory.marks = marks) :
    Records (Run.copy dest src size) s [] marks := by
  obtain ⟨hquiet, h | h⟩ := Run.copy_cases dest src size s
  · exact .inr ⟨⟨_, h⟩, by rw [hquiet.events, List.append_nil], hquiet.marks.trans hmarks⟩
  · exact .inl h

theorem records_markInitialized (address : Int) (hmarks : s.memory.marks = marks) :
    Records (Run.markInitialized address) s [] (marks.insert address) :=
  .inr ⟨⟨_, rfl⟩, (List.append_nil _).symm, congrArg (·.insert address) hmarks⟩

theorem records_markUninitialized (address : Int) (hmarks : s.memory.marks = marks) :
    Records (Run.markUninitialized address) s [] (marks.erase address) :=
  .inr ⟨⟨_, rfl⟩, (List.append_nil _).symm, congrArg (·.erase address) hmarks⟩

theorem records_destroyValue (h : t.layout.RecordsLives) (address : Int)
    (hmarks : s.memory.marks = marks) :
    Records (t.destroyValue address) s [.destroy address (marks.contains address)] marks := by
  unfold Records destroyValue
  rw [h.onDestroy]
  subst hmarks
  exact .inr ⟨⟨_, rfl⟩, rfl, rfl⟩

theorem records_copyValue (h : t.layout.RecordsLives) (dest src : Int)
    (hmarks : s.memory.marks = marks) :
    Records (t.copyValue dest src) s [.copy dest src (marks.contains dest) (marks.contains src)]
      marks := by
  refine (records_copy dest src t.layout.size hmarks).bind fun _ s' hmarks' => ?_
  unfold Records runCopyHook
  rw [h.onCopy]
  subst hmarks'
  exact .inr ⟨⟨_, rfl⟩, rfl, rfl⟩

/-- The hooks that run when a value is moved. -/
def moveHooks (t : WitnessTable) (dest src : Int) (destInitialized srcInitialized : Bool) :
    List HookEvent :=
  if t.layout.isBitwiseTakable then []
  else [.copy dest src destInitialized srcInitialized, .destroy src srcInitialized]

/-- Moving an initialized value runs its hooks on initialized values. -/
theorem onLiveValue_of_mem_moveHooks {dest src : Int} {destInitialized : Bool} {e : HookEvent}
    (he : e ∈ t.moveHooks dest src destInitialized true) : e.onLiveValue = true := by
  unfold moveHooks at he
  split at he
  · simp at he
  · simp only [List.mem_cons, List.not_mem_nil, or_false] at he
    rcases he with rfl | rfl <;> rfl

/-- Moving a value neither begins nor ends a life. -/
theorem balance_moveHooks (dest src : Int) (destInitialized srcInitialized : Bool) :
    HookEvent.balance (t.moveHooks dest src destInitialized srcInitialized) = 0 := by
  unfold moveHooks
  split <;> rfl

theorem records_moveValue (h : t.layout.RecordsLives) (dest src : Int)
    (hmarks : s.memory.marks = marks) :
    Records (t.moveValue dest src) s
      (t.moveHooks dest src (marks.contains dest) (marks.contains src)) marks := by
  unfold moveValue moveHooks
  split
  · exact records_copy dest src t.layout.size hmarks
  · exact (records_copyValue h dest src hmarks).bind fun _ _ hmarks' =>
      records_destroyValue h src hmarks'

/-! ### Each call keeps the balance -/

theorem keepsBalance_destroy (h : t.layout.RecordsLives) (value : Int) :
    KeepsBalance (t.destroy value) s := by
  refine .requireInitialized fun hvalue => ?_
  have hrecords := (records_destroyValue h value (s := s) rfl).bind fun _ _ hmarks =>
    records_markUninitialized value hmarks
  rw [List.append_nil] at hrecords
  refine hrecords.keepsBalance ?_ ?_
  · intro e he
    rwa [List.mem_singleton.mp he]
  · rw [Memory.size_erase_mark hvalue]
    show (-1 : Int) = _
    omega

theorem keepsBalance_initializeWithCopy (h : t.layout.RecordsLives) (dest src : Int) :
    KeepsBalance (t.initializeWithCopy dest src) s := by
  refine .requireUninitialized fun hdest => .requireInitialized fun hsrc => ?_
  have hrecords := (records_copyValue h dest src (s := s) rfl).bind fun _ _ hmarks =>
    (records_markInitialized dest hmarks).bind fun _ _ hmarks => Records.pure dest hmarks
  simp only [List.append_nil] at hrecords
  refine hrecords.keepsBalance ?_ ?_
  · intro e he
    rwa [List.mem_singleton.mp he]
  · rw [Memory.size_insert_mark hdest]
    show (1 : Int) = _
    omega

theorem keepsBalance_assignWithCopy (h : t.layout.RecordsLives) (dest src : Int) :
    KeepsBalance (t.assignWithCopy dest src) s := by
  refine .requireInitialized fun hdest => .requireInitialized fun hsrc => ?_
  by_cases hsame : dest = src
  · rw [if_pos hsame]
    exact fun _ => Balanced.refl s
  · rw [if_neg hsame]
    -- The old value is destroyed, and the copy takes its place under the same mark.
    have hrecords := (records_destroyValue h dest (s := s) rfl).bind fun _ _ hmarks =>
      (records_copyValue h dest src hmarks).bind fun _ _ hmarks => Records.pure dest hmarks
    rw [List.append_nil] at hrecords
    refine hrecords.keepsBalance ?_ ?_
    · intro e he
      rcases List.mem_append.mp he with he | he <;> rwa [List.mem_singleton.mp he]
    · rw [Int.sub_self]
      rfl

theorem keepsBalance_initializeWithTake (h : t.layout.RecordsLives) (dest src : Int) :
    KeepsBalance (t.initializeWithTake dest src) s := by
  refine .requireUninitialized fun hdest => .requireInitialized fun hsrc => ?_
  -- The mark of the destination shows that the two addresses differ.
  have hne : src ≠ dest := by
    rintro rfl
    rw [hdest] at hsrc
    exact absurd hsrc (by decide)
  have hrecords := (records_moveValue h dest src (s := s) rfl).bind fun _ _ hmarks =>
    (records_markUninitialized src hmarks).bind fun _ _ hmarks =>
      (records_markInitialized dest hmarks).bind fun _ _ hmarks => Records.pure dest hmarks
  simp only [List.append_nil] at hrecords
  refine hrecords.keepsBalance ?_ ?_
  · intro e he
    rw [hsrc] at he
    exact onLiveValue_of_mem_moveHooks he
  · have hdest' : (s.memory.marks.erase src).contains dest = false := by
      rw [Memory.contains_erase_mark_of_ne hne, hdest]
    rw [balance_moveHooks, Memory.size_insert_mark hdest', Memory.size_erase_mark hsrc]
    omega

theorem keepsBalance_assignWithTake (h : t.layout.RecordsLives) (dest src : Int) :
    KeepsBalance (t.assignWithTake dest src) s := by
  unfold assignWithTake
  by_cases hsame : dest = src
  · rw [if_pos hsame]
    intro haccess
    rw [Run.outcome_bind_error _ (Run.outcome_violate _ _ s)]
    exact (Run.quiet_note _ s).balanced
  · rw [if_neg hsame]
    refine .requireInitialized fun hdest => .requireInitialized fun hsrc => ?_
    -- Two values become one: the old one is destroyed, and the other changes its place.
    have hrecords := (records_destroyValue h dest (s := s) rfl).bind fun _ _ hmarks =>
      (records_moveValue h dest src hmarks).bind fun _ _ hmarks =>
        (records_markUninitialized src hmarks).bind fun _ _ hmarks => Records.pure dest hmarks
    simp only [List.append_nil] at hrecords
    refine hrecords.keepsBalance ?_ ?_
    · intro e he
      rw [hsrc] at he
      rcases List.mem_append.mp he with he | he
      · rw [List.mem_singleton.mp he]
        exact hdest
      · exact onLiveValue_of_mem_moveHooks he
    · rw [HookEvent.balance_append, balance_moveHooks, Memory.size_erase_mark hsrc]
      show (-1 + 0 : Int) = _
      omega

end WitnessTable

/-! ### Runs -/

namespace LifetimeCall

variable {t : WitnessTable}

/-- Each call keeps the balance. -/
theorem keepsBalance_perform (h : t.layout.RecordsLives) (c : LifetimeCall) (s : Session) :
    KeepsBalance (c.perform t) s := by
  cases c with
  | destroy value => exact (t.keepsBalance_destroy h value).map _
  | initializeWithCopy dest src =>
    exact (t.keepsBalance_initializeWithCopy h dest src).map _
  | assignWithCopy dest src =>
    exact (t.keepsBalance_assignWithCopy h dest src).map _
  | initializeWithTake dest src =>
    exact (t.keepsBalance_initializeWithTake h dest src).map _
  | assignWithTake dest src =>
    exact (t.keepsBalance_assignWithTake h dest src).map _

/-- Lifetimes balance over whole runs: whatever calls are made of a type whose hooks only record,
and whichever of them breach their contract, the hooks run on initialized values, and they copy as
many more values than they destroy as there are more marks in the end. -/
theorem balanced_performAll (h : t.layout.RecordsLives) (cs : List LifetimeCall)
    (s : Session)
    (haccess : ∀ result ∈ (performAll t cs s).1, Run.refused result = false) :
    Balanced s (performAll t cs s).2 := by
  induction cs generalizing s with
  | nil => exact Balanced.refl s
  | cons c cs ih =>
    have hfirst : Balanced s ((c.perform t).outcome s).2 :=
      keepsBalance_perform h c s (haccess _ List.mem_cons_self)
    exact hfirst.trans (ih _ fun result hresult => haccess result (List.mem_cons_of_mem _ hresult))

/-- A table of values that are four bytes long and are not moved as bytes. -/
def wordTable : WitnessTable :=
  { layout :=
      { size := 4, alignment := 4, extraInhabitants := 0, isPod := false, isBitwiseTakable := false,
        caseCount := none, hasSpareBits := false, onCopy := some fun _ _ => pure (),
        onDestroy := some fun _ => pure (), pointerSize := 4 }
    name := WitnessTable.opaqueName
    bufferWords := 3 }

/-- Two pages of memory, with one value at its beginning. -/
def wordSession : Session :=
  .ofMemory (((Memory.empty 4 4).mapRange 16 32).markInitialized 16)

/-- A value is copied, the destruction of nothing is refused, and the copy is taken back. -/
theorem balanced_performAll_wordTable :
    wordTable.layout.RecordsLives ∧ (∀ result ∈ (performAll wordTable
        [.initializeWithCopy 20 16, .destroy 24, .assignWithTake 16 20] wordSession).1,
      Run.refused result = false) ∧
    Balanced wordSession (performAll wordTable
      [.initializeWithCopy 20 16, .destroy 24, .assignWithTake 16 20] wordSession).2 :=
  ⟨⟨rfl, rfl⟩, by decide +kernel, balanced_performAll ⟨rfl, rfl⟩ _ _ (by decide +kernel)⟩

end LifetimeCall

end SwiftABI
