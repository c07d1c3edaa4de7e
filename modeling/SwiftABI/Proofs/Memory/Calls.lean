/-
  Runs of calls on memory.

  `MemoryCall` is a call of any operation of memory, and `performAll` makes any number of them, one
  after the other, whatever becomes of each. Only two of them have to do with storage. All others
  leave what is mapped and what is taken as it is (`keepsStorage_perform`), and those two do what
  `outcome_perform_allocate` and `outcome_perform_deallocate` say.
-/
import SwiftABI.Proofs.Memory.Storage
import SwiftABI.Proofs.Witness.Run

namespace SwiftABI

/-! ### Calls -/

/-- A call of an operation of memory. -/
inductive MemoryCall where
  | allocate (size alignment : Int)
  | deallocate (address : Int)
  | read (address size : Int)
  | readInt (address size : Int) (signed : Bool)
  | readPointer (address : Int)
  | write (address : Int) (bytes : Bytes)
  | writeInt (address value size : Int) (signed : Bool)
  | writePointer (address value : Int)
  | copy (dest src size : Int)
  | fill (address size byte : Int)
  | markInitialized (address : Int)
  | markUninitialized (address : Int)
  | isInitialized (address : Int)
  | isMapped (address : Int)
  | register (f : FunctionRef)
  | resolve (handle : Int)

/-- What a call gives. -/
inductive MemoryAnswer where
  | done
  | truth (b : Bool)
  | integer (n : Int)
  | bytes (bs : Bytes)
  | function (f : FunctionRef)

/-- Calls that have been made, and what each gave. -/
abbrev MemoryHistory := List (MemoryCall × Except SessionFault MemoryAnswer)

namespace MemoryCall

/-- Makes the call. -/
def perform : MemoryCall → Run MemoryAnswer
  | .allocate size alignment => return .integer (← Run.allocate size alignment)
  | .deallocate address => do
    Run.deallocate address
    return .done
  | .read address size => return .bytes (← Run.read address size)
  | .readInt address size signed => return .integer (← Run.readInt address size signed)
  | .readPointer address => return .integer (← Run.readPointer address)
  | .write address bytes => do
    Run.write address bytes
    return .done
  | .writeInt address value size signed => do
    Run.writeInt address value size signed
    return .done
  | .writePointer address value => do
    Run.writePointer address value
    return .done
  | .copy dest src size => do
    Run.copy dest src size
    return .done
  | .fill address size byte => do
    Run.fill address size byte
    return .done
  | .markInitialized address => do
    Run.markInitialized address
    return .done
  | .markUninitialized address => do
    Run.markUninitialized address
    return .done
  | .isInitialized address => return .truth (← Run.isInitialized address)
  | .isMapped address => return .truth ((← Run.memory).isMapped address)
  | .register f => return .integer (← Run.register f)
  | .resolve handle => return .function (← Run.resolve handle)

/-- Makes some calls, one after the other, also after one that fails. -/
def performAll : List MemoryCall → Session → MemoryHistory × Session
  | [], s => ([], s)
  | c :: cs, s =>
    let (result, s') := c.perform.outcome s
    let (history, s'') := performAll cs s'
    ((c, result) :: history, s'')

end MemoryCall

/-! ### Calls that have nothing to do with storage -/

namespace Run

variable {α β : Type} {s : Session}

/-- The steps leave what is mapped and what is taken as it is. -/
def KeepsStorage (x : Run α) : Prop :=
  ∀ s, s.memory.SameStorage (x.outcome s).2.memory ∧
    (s.memory.Paged → (x.outcome s).2.memory.Paged)

/-- Steps that do not touch memory, apart from its marks. -/
theorem keepsStorage_of_memory {x : Run α}
    (h : ∀ s, ∃ marks, (x.outcome s).2.memory = { s.memory with marks }) : KeepsStorage x := by
  intro s
  obtain ⟨marks, hmemory⟩ := h s
  rw [hmemory]
  exact ⟨⟨rfl, rfl, fun _ => rfl, rfl, rfl⟩, fun hm => hm⟩

theorem KeepsStorage.pure (a : α) : KeepsStorage (Pure.pure a : Run α) :=
  keepsStorage_of_memory fun s => ⟨s.memory.marks, rfl⟩

theorem KeepsStorage.bind {x : Run α} {f : α → Run β} (hx : KeepsStorage x)
    (hf : ∀ a, KeepsStorage (f a)) : KeepsStorage (x >>= f) := by
  intro s
  rw [outcome_bind]
  obtain ⟨hsame, hpaged⟩ := hx s
  rcases hout : x.outcome s with ⟨e | a, s'⟩ <;> rw [hout] at hsame hpaged
  · exact ⟨hsame, hpaged⟩
  · obtain ⟨hsame', hpaged'⟩ := hf a s'
    exact ⟨hsame.trans hsame', fun hm => hpaged' (hpaged hm)⟩

theorem keepsStorage_accessed (r : Except AccessFault α) : KeepsStorage (accessed r) :=
  keepsStorage_of_memory fun s => by cases r <;> exact ⟨s.memory.marks, rfl⟩

theorem keepsStorage_read (address size : Int) : KeepsStorage (read address size) :=
  (keepsStorage_of_memory fun s => ⟨s.memory.marks, rfl⟩ : KeepsStorage memory).bind
    fun _ => keepsStorage_accessed _

theorem keepsStorage_readInt (address size : Int) (signed : Bool) :
    KeepsStorage (readInt address size signed) :=
  (keepsStorage_read address size).bind fun _ => .pure _

theorem keepsStorage_readPointer (address : Int) : KeepsStorage (readPointer address) :=
  (keepsStorage_of_memory fun s => ⟨s.memory.marks, rfl⟩ : KeepsStorage memory).bind
    fun _ => keepsStorage_readInt _ _ _

/-- The result of reading. -/
theorem outcome_read (address size : Int) (s : Session) :
    (read address size).outcome s = (accessed (s.memory.read address size.toNat)).outcome s := by
  unfold read
  rw [outcome_bind_ok _ (outcome_memory s)]

/-- The result of writing, and the session after it. -/
theorem outcome_write (address : Int) (bytes : Bytes) (s : Session) :
    (write address bytes).outcome s =
      (accessed (s.memory.write address bytes).1).outcome
        { s with memory := (s.memory.write address bytes).2 } := by
  unfold write
  rw [outcome_bind_ok _ (outcome_memory s), outcome_bind_ok _ (outcome_setMemory _ s)]

theorem keepsStorage_write (address : Int) (bytes : Bytes) :
    KeepsStorage (write address bytes) := by
  intro s
  rw [outcome_write]
  obtain ⟨hsame, hpaged⟩ := keepsStorage_accessed (s.memory.write address bytes).1
    { s with memory := (s.memory.write address bytes).2 }
  exact ⟨(Memory.sameStorage_write address bytes).trans hsame,
    fun hm => hpaged (Memory.write_cases hm address bytes).1⟩

theorem keepsStorage_writeInt (address value size : Int) (signed : Bool) :
    KeepsStorage (writeInt address value size signed) := by
  refine KeepsStorage.bind (keepsStorage_of_memory fun s => ?_) fun _ => keepsStorage_write _ _
  cases integerBytes value size signed <;> exact ⟨s.memory.marks, rfl⟩

theorem keepsStorage_writePointer (address value : Int) :
    KeepsStorage (writePointer address value) :=
  (keepsStorage_of_memory fun s => ⟨s.memory.marks, rfl⟩ : KeepsStorage memory).bind
    fun _ => keepsStorage_writeInt _ _ _ _

theorem keepsStorage_copy (dest src size : Int) : KeepsStorage (copy dest src size) :=
  (keepsStorage_read src size).bind fun _ => keepsStorage_write _ _

/-- A number that is no byte is refused, and others are written. -/
theorem outcome_fill (address size byte : Int) (s : Session) :
    (fill address size byte).outcome s =
      if byte < 0 ∨ 255 < byte then (.error (.integer .byteRange), s)
      else (write address (List.replicate size.toNat (UInt8.ofNat byte.toNat))).outcome s := by
  unfold fill
  split
  · rfl
  · rfl

theorem keepsStorage_fill (address size byte : Int) : KeepsStorage (fill address size byte) := by
  intro s
  rw [outcome_fill]
  split
  · exact ⟨.refl _, fun hm => hm⟩
  · exact keepsStorage_write _ _ s

theorem keepsStorage_register (f : FunctionRef) : KeepsStorage (register f) := by
  refine keepsStorage_of_memory fun s => ⟨s.memory.marks, ?_⟩
  unfold register
  rw [outcome_bind_ok _ (rfl : (get : Run Session).outcome s = (.ok s, s))]
  simp only
  split <;> rfl

theorem keepsStorage_resolve (handle : Int) : KeepsStorage (resolve handle) :=
  (keepsStorage_of_memory fun s => ⟨s.memory.marks, rfl⟩ : KeepsStorage (get : Run Session)).bind
    fun _ => keepsStorage_accessed _

/-! ### Storage -/

theorem outcome_allocate (size alignment : Int) (s : Session) :
    (allocate size alignment).outcome s =
      if isPowerOfTwo alignment then
        (.ok (roundUp s.memory.cursor alignment.toNat : Int),
          { s with
            memory := s.memory.taken (roundUp s.memory.cursor alignment.toNat) size
            notes := s.notes ++ [⟨.trace, s!"Allocated {size} bytes at " ++
              Text.hex (roundUp s.memory.cursor alignment.toNat)⟩] })
      else (.error (.request (.alignment alignment)), s) := by
  unfold allocate
  rw [outcome_bind_ok _ (outcome_memory s), Memory.allocate_eq]
  by_cases h : isPowerOfTwo alignment = true
  · rw [if_pos h, if_pos h]
    rfl
  · rw [if_neg h, if_neg h]
    rfl

theorem outcome_deallocate (address : Int) (s : Session) :
    (deallocate address).outcome s =
      if s.memory.allocations.contains address then
        (.ok (),
          { s with
            memory :=
              { s.memory with
                allocations := s.memory.allocations.erase address
                marks := s.memory.marks.erase address }
            notes := s.notes ++ [⟨.trace, "Freed " ++ Text.hex address⟩] })
      else
        (.error (.access (.notAllocated address)),
          { s with notes := s.notes ++
            [⟨.debug, (AccessFault.notAllocated address).remark⟩] }) := by
  unfold deallocate Memory.deallocate
  rw [outcome_bind_ok _ (outcome_memory s)]
  by_cases h : s.memory.allocations.contains address = true
  · rw [if_pos h, if_pos h]
    rfl
  · rw [if_neg h, if_neg h]
    rfl

end Run

namespace MemoryCall

open Run

/-- Does the call take storage, or give it back? -/
def isStorage : MemoryCall → Bool
  | .allocate .. | .deallocate .. => true
  | _ => false

/-- A call that has nothing to do with storage leaves what is mapped and what is taken as it is. -/
theorem keepsStorage_perform {c : MemoryCall} (h : c.isStorage = false) :
    KeepsStorage c.perform := by
  cases c with
  | allocate | deallocate => cases h
  | read address size => exact (keepsStorage_read address size).bind fun _ => .pure _
  | readInt address size signed =>
    exact (keepsStorage_readInt address size signed).bind fun _ => .pure _
  | readPointer address => exact (keepsStorage_readPointer address).bind fun _ => .pure _
  | write address bytes => exact (keepsStorage_write address bytes).bind fun _ => .pure _
  | writeInt address value size signed =>
    exact (keepsStorage_writeInt address value size signed).bind fun _ => .pure _
  | writePointer address value =>
    exact (keepsStorage_writePointer address value).bind fun _ => .pure _
  | copy dest src size => exact (keepsStorage_copy dest src size).bind fun _ => .pure _
  | fill address size byte => exact (keepsStorage_fill address size byte).bind fun _ => .pure _
  | markInitialized address => exact keepsStorage_of_memory fun s => ⟨_, rfl⟩
  | markUninitialized address => exact keepsStorage_of_memory fun s => ⟨_, rfl⟩
  | isInitialized address => exact keepsStorage_of_memory fun s => ⟨s.memory.marks, rfl⟩
  | isMapped address => exact keepsStorage_of_memory fun s => ⟨s.memory.marks, rfl⟩
  | register f => exact (keepsStorage_register f).bind fun _ => .pure _
  | resolve handle => exact (keepsStorage_resolve handle).bind fun _ => .pure _

/-! ### Taking storage and giving it back -/

/-- Storage is taken behind the cursor, if there is an alignment. Else nothing happens. -/
theorem outcome_perform_allocate (size alignment : Int) (s : Session) :
    (perform (.allocate size alignment)).outcome s =
      if isPowerOfTwo alignment then
        (.ok (.integer (roundUp s.memory.cursor alignment.toNat)),
          { s with
            memory := s.memory.taken (roundUp s.memory.cursor alignment.toNat) size
            notes := s.notes ++ [⟨.trace, s!"Allocated {size} bytes at " ++
              Text.hex (roundUp s.memory.cursor alignment.toNat)⟩] })
      else (.error (.request (.alignment alignment)), s) := by
  unfold perform
  rw [outcome_bind, outcome_allocate]
  by_cases h : isPowerOfTwo alignment = true
  · rw [if_pos h, if_pos h]
    rfl
  · rw [if_neg h, if_neg h]

/-- Storage is given back if it is taken. Else nothing happens, but that the log is told. -/
theorem outcome_perform_deallocate (address : Int) (s : Session) :
    (perform (.deallocate address)).outcome s =
      if s.memory.allocations.contains address then
        (.ok .done,
          { s with
            memory :=
              { s.memory with
                allocations := s.memory.allocations.erase address
                marks := s.memory.marks.erase address }
            notes := s.notes ++ [⟨.trace, "Freed " ++ Text.hex address⟩] })
      else
        (.error (.access (.notAllocated address)),
          { s with notes := s.notes ++
            [⟨.debug, (AccessFault.notAllocated address).remark⟩] }) := by
  unfold perform
  rw [outcome_bind, outcome_deallocate]
  by_cases h : s.memory.allocations.contains address = true
  · rw [if_pos h, if_pos h]
    rfl
  · rw [if_neg h, if_neg h]

/-! ### Runs -/

/-- What holds of memory along with the calls that have been made, and is kept by every call, holds
after all calls. -/
theorem performAll_induction {motive : MemoryHistory → Session → Prop}
    (step : ∀ (c : MemoryCall) history s, motive history s →
      motive (history ++ [(c, (c.perform.outcome s).1)]) (c.perform.outcome s).2)
    (calls : List MemoryCall) (history : MemoryHistory) {s : Session} (h : motive history s) :
    motive (history ++ (performAll calls s).1) (performAll calls s).2 := by
  induction calls generalizing history s with
  | nil => rwa [performAll, List.append_nil]
  | cons c cs ih =>
    have hrest := ih _ (step c history s h)
    rwa [List.append_assoc, List.singleton_append] at hrest

/-- Every page has as many bytes as a page has to have, also after all calls. -/
theorem paged_performAll (calls : List MemoryCall) {s : Session} (hm : s.memory.Paged) :
    (performAll calls s).2.memory.Paged := by
  refine performAll_induction (motive := fun _ s => s.memory.Paged) (fun c _ s hm => ?_) calls [] hm
  by_cases hc : c.isStorage = true
  · cases c with
    | allocate size alignment =>
      rw [outcome_perform_allocate]
      split
      · exact hm.taken _ size
      · exact hm
    | deallocate address =>
      rw [outcome_perform_deallocate]
      split <;> exact hm
    | _ => cases hc
  · exact (keepsStorage_perform (Bool.not_eq_true _ ▸ hc) s).2 hm

end MemoryCall

/-- The memory that is created has no page at all. -/
theorem Memory.paged_of_create {pageSize pointerSize : Int} {m : Memory}
    (h : Memory.create pageSize pointerSize = .ok m) : m.Paged := by
  unfold Memory.create at h
  split at h
  · cases h
    intro p page hpage
    simp [Memory.empty] at hpage
  · cases h

theorem Memory.pointerSize_of_create {pageSize pointerSize : Int} {m : Memory}
    (h : Memory.create pageSize pointerSize = .ok m) : m.pointerSize = pointerSize := by
  unfold Memory.create at h
  split at h
  · cases h
    rfl
  · cases h

end SwiftABI
