/-
  Memory stays in order under the witnesses.

  What the witnesses do to memory is made of its operations, of which only taking storage and giving
  it back have to do with the cursor. So what these two keep of the plan of memory (`Memory.Stable`)
  is kept by every call (`Memory.Stable.tableLaw`). Above all, memory that is in order is in order
  after every call on values and their buffers, whatever becomes of the call
  (`WitnessCall.orderly_perform`).
-/
import SwiftABI.Proofs.Memory.Order
import SwiftABI.Proofs.Witness.Atomicity

namespace SwiftABI

/-- What is so of memory stays so whatever is done to it: when bytes are written, when storage is
taken behind the cursor, and when storage is given back. -/
structure Memory.Stable (inv : Memory → Prop) : Prop where
  paged (m : Memory) (h : inv m) : m.Paged
  same (m m' : Memory) (h : inv m) (hsame : m.SameStorage m') (hpaged : m'.Paged) : inv m'
  taken (m : Memory) (h : inv m) (address : Nat) (haddress : m.cursor ≤ address) (size : Int) :
    inv (m.taken address size)
  returned (m : Memory) (h : inv m) (address : Int) (marks : Std.TreeSet Int) :
    inv { m with allocations := m.allocations.erase address, marks }

/-- What is so of memory is so after the steps, however they end. -/
def Run.Keeps (inv : Memory → Prop) {α : Type} (x : Run α) : Prop :=
  ∀ s, inv s.memory → inv (x.outcome s).2.memory

namespace Memory.Stable

variable {inv : Memory → Prop} {α β : Type} {x : Run α} {f : α → Run β}

theorem keeps_of_keepsStorage (h : Stable inv) (hx : Run.KeepsStorage x) : Run.Keeps inv x :=
  fun s hs => h.same _ _ hs (hx s).1 ((hx s).2 (h.paged _ hs))

theorem keeps_of_idle (hx : Idle x) : Run.Keeps inv x := by
  intro s hs
  rw [(hx s).memory]
  exact hs

theorem keeps_bind (hx : Run.Keeps inv x) (hf : ∀ a, Run.Keeps inv (f a)) :
    Run.Keeps inv (x >>= f) := by
  intro s hs
  have hfirst := hx s hs
  rw [Run.outcome_bind]
  rcases hout : x.outcome s with ⟨e | a, s'⟩ <;> rw [hout] at hfirst
  · exact hfirst
  · exact hf a s' hfirst

theorem keeps_allocate (h : Stable inv) (size alignment : Int) :
    Run.Keeps inv (Run.allocate size alignment) := by
  intro s hs
  rw [Run.outcome_allocate]
  split
  case isTrue halignment =>
    have hpos := isPowerOfTwo.pos halignment
    exact h.taken _ hs _ (le_roundUp (by omega) _) size
  case isFalse => exact hs

theorem keeps_deallocate (h : Stable inv) (address : Int) :
    Run.Keeps inv (Run.deallocate address) := by
  intro s hs
  rw [Run.outcome_deallocate]
  split
  · exact h.returned _ hs address _
  · exact hs

/-- All calls keep what is stable. -/
theorem tableLaw (h : Stable inv) : Run.TableLaw (Run.Keeps inv) where
  pure a := keeps_of_idle (.pure a)
  bind hx hf := keeps_bind hx hf
  throw e _ := keeps_of_idle (.throw e)
  violate operation breach := keeps_of_idle (.violate operation breach)
  note level message := keeps_of_idle (.note level message)
  memory := fun _ hs => hs
  write address bytes := h.keeps_of_keepsStorage (Run.keepsStorage_write address bytes)
  allocate size alignment := h.keeps_allocate size alignment
  deallocate address := h.keeps_deallocate address
  markInitialized _ := h.keeps_of_keepsStorage (Run.keepsStorage_of_memory fun _ => ⟨_, rfl⟩)
  markUninitialized _ := h.keeps_of_keepsStorage (Run.keepsStorage_of_memory fun _ => ⟨_, rfl⟩)
  record _ := fun _ hs => hs
  register f := keeps_of_idle (.register f)
  resolve handle := keeps_of_idle (.resolve handle)

/-- No call changes how large pointers are. -/
theorem with_pointerSize (h : Stable inv) (pointerSize : Int) :
    Stable fun m => inv m ∧ m.pointerSize = pointerSize where
  paged m hm := h.paged m hm.1
  same m m' hm hsame hpaged := ⟨h.same m m' hm.1 hsame hpaged, hsame.pointerSize.trans hm.2⟩
  taken m hm address haddress size :=
    ⟨h.taken m hm.1 address haddress size, (samePlan_mapRange address size).pointerSize.trans hm.2⟩
  returned m hm address marks := ⟨h.returned m hm.1 address marks, hm.2⟩

end Memory.Stable

theorem Memory.Orderly.stable : Memory.Stable Memory.Orderly where
  paged _ h := h.paged
  same _ _ h hsame hpaged := h.same hsame hpaged
  taken _ h _ haddress size := h.taken haddress size
  returned _ h address marks := h.returned address marks

/-- Hooks that use memory through its operations keep what is stable. -/
def Run.KeepsStable (x : Run Unit) : Prop := ∀ inv, Memory.Stable inv → Run.Keeps inv x

/-- Memory is in order after every call on values and their buffers. -/
theorem WitnessCall.orderly_perform {t : WitnessTable} {s : Session}
    (hooks : t.layout.HooksSatisfy Run.KeepsStable) (h : s.memory.Orderly) (c : WitnessCall) :
    ((c.perform t).outcome s).2.memory.Orderly := by
  have hstable := Memory.Orderly.stable
  exact hstable.tableLaw.perform (hooks.imp fun _ hx => hx _ hstable) c s h

end SwiftABI
