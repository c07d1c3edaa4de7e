/-
  What writing changes in a session, and what it leaves alone.

  `Session.Confined` says that only the bytes of a range may have changed between two sessions, but
  neither storage nor marks nor hooks. Bytes elsewhere are still there (`Confined.keeps`).
  `Session.Wrote` says in addition which bytes the range has now. Writing, filling, copying and the
  integers all end in it if the range is mapped.
-/
import SwiftABI.Proofs.Memory.Refinement

namespace SwiftABI

/-- Two ranges have no address in common. -/
def Memory.Apart (a : Int) (n : Nat) (b : Int) (k : Nat) : Prop := a + n ≤ b ∨ b + k ≤ a

/-- Nothing has changed but bytes of the range. -/
structure Session.Confined (s : Session) (a : Int) (n : Nat) (s' : Session) : Prop where
  paged : s'.memory.Paged
  outside (x : Int) (h : ¬(a ≤ x ∧ x < a + n)) : s'.memory.byte? x = s.memory.byte? x
  storage : s.memory.SameStorage s'.memory
  quiet : Run.Quiet s s'

/-- Nothing has changed but that the range has these bytes. -/
structure Session.Wrote (s : Session) (a : Int) (bs : Bytes) (s' : Session) : Prop
    extends s.Confined a bs.length s' where
  holds : s'.memory.Holds a bs

namespace Session.Confined

variable {s s' s'' : Session} {a b : Int} {bs : Bytes} {n k : Nat}

theorem refl (hm : s.memory.Paged) (a : Int) (n : Nat) : s.Confined a n s :=
  ⟨hm, fun _ _ => rfl, .refl _, .refl s⟩

theorem trans (h : s.Confined a n s') (h' : s'.Confined a n s'') : s.Confined a n s'' where
  paged := h'.paged
  outside x hx := (h'.outside x hx).trans (h.outside x hx)
  storage := h.storage.trans h'.storage
  quiet := ⟨h'.quiet.events.trans h.quiet.events, h'.quiet.marks.trans h.quiet.marks⟩

/-- The range may be taken larger. -/
theorem mono (h : s.Confined b k s') (hfirst : a ≤ b) (hlast : b + k ≤ a + n) : s.Confined a n s' :=
  ⟨h.paged, fun x hx => h.outside x (by omega), h.storage, h.quiet⟩

/-- Bytes apart from the range are kept. -/
theorem keeps (h : s.Confined a n s') (hbs : s.memory.Holds b bs)
    (hapart : Memory.Apart a n b bs.length) :
    s'.memory.Holds b bs := by
  intro i hi
  rw [h.outside _ fun hx => ?_, hbs i hi]
  rcases hapart with hle | hle <;> omega

/-- The same addresses have bytes. -/
theorem mapped (h : s.Confined a n s') (hm : s.memory.Paged) (hb : s.memory.Mapped b k) :
    s'.memory.Mapped b k := by
  intro i hi
  rw [Memory.isSome_byte?_iff h.paged, h.storage.isMapped, ← Memory.isSome_byte?_iff hm]
  exact hb i hi

theorem isInitialized (h : s.Confined a n s') (x : Int) :
    s'.memory.isInitialized x = s.memory.isInitialized x := by
  unfold Memory.isInitialized
  rw [h.quiet.marks]

end Session.Confined

/-- Writing changes as many addresses as there are bytes. -/
theorem Session.Wrote.confined {s s' : Session} {a : Int} {bs : Bytes} {n : Nat}
    (h : s.Wrote a bs s') (hlength : bs.length = n) : s.Confined a n s' := hlength ▸ h.toConfined

/-- A part of a range with bytes. -/
theorem Memory.Mapped.part {m : Memory} {a b : Int} {n k : Nat} (h : m.Mapped a n) (hfirst : a ≤ b)
    (hlast : b + k ≤ a + n) : m.Mapped b k := by
  intro i hi
  have hbyte := h (b + i - a).toNat (by omega)
  rwa [show a + ((b + i - a).toNat : Int) = b + i by omega] at hbyte

namespace Run

variable {s : Session} {a : Int} {bs : Bytes} {size : Nat}

theorem write_wrote (hm : s.memory.Paged) (h : s.memory.Mapped a bs.length) :
    ∃ s', (write a bs).outcome s = (.ok (), s') ∧ s.Wrote a bs s' := by
  obtain ⟨s', hwrite, hpaged, hview⟩ := write_byteMap hm h
  have hstorage := (keepsStorage_write a bs s).1
  have hquiet := (write_cases a bs s).1
  rw [hwrite] at hstorage hquiet
  refine ⟨s', hwrite, ⟨hpaged, fun x hx => ?_, hstorage, hquiet⟩, Memory.holds_of_overwritten hview⟩
  rw [hview]
  exact if_neg hx

/-- An integer is written as its lowest bytes. -/
theorem writeInt_wrote (hm : s.memory.Paged) (h : s.memory.Mapped a size) (value : Int) :
    ∃ s', (writeInt a value size false).outcome s = (.ok (), s') ∧
      s.Wrote a (Bytes.ofNat size (value % (256 ^ size : Nat)).toNat) s' := by
  unfold writeInt
  rw [integerBytes_unsigned]
  exact write_wrote hm (by rwa [Bytes.length_ofNat])

theorem fill_wrote (hm : s.memory.Paged) (h : s.memory.Mapped a size) (byte : UInt8) :
    ∃ s', (fill a size byte.toNat).outcome s = (.ok (), s') ∧
      s.Wrote a (List.replicate size byte) s' := by
  have hbyte := UInt8.toNat_lt byte
  rw [outcome_fill, if_neg (by omega), Int.toNat_natCast, Int.toNat_natCast, UInt8.ofNat_toNat]
  exact write_wrote hm (by rwa [List.length_replicate])

theorem copy_wrote {src : Int} (hm : s.memory.Paged) (hsrc : s.memory.Holds src bs)
    (h : s.memory.Mapped a bs.length) :
    ∃ s', (copy a src bs.length).outcome s = (.ok (), s') ∧ s.Wrote a bs s' := by
  unfold copy
  rw [outcome_bind_ok _ (read_of_holds hm hsrc)]
  exact write_wrote hm h

theorem readInt_of_holds (hm : s.memory.Paged) (h : s.memory.Holds a bs)
    (hlength : bs.length = size) :
    (readInt a size false).outcome s = (.ok (bs.toNat : Int), s) := by
  subst hlength
  unfold readInt
  rw [outcome_bind_ok _ (read_of_holds hm h)]
  rfl

/-! ### Pointers -/

theorem readPointer_of_holds (hm : s.memory.Paged) (h : s.memory.Holds a bs)
    (hlength : s.memory.pointerSize = bs.length) :
    (readPointer a).outcome s = (.ok (bs.toNat : Int), s) := by
  unfold readPointer
  rw [outcome_bind_ok _ (outcome_memory s), hlength]
  exact readInt_of_holds hm h rfl

theorem writePointer_wrote (hm : s.memory.Paged) (hsize : s.memory.pointerSize = size)
    (h : s.memory.Mapped a size)
    (value : Int) : ∃ s', (writePointer a value).outcome s = (.ok (), s') ∧
      s.Wrote a (Bytes.ofNat size (value % (256 ^ size : Nat)).toNat) s' := by
  unfold writePointer
  rw [outcome_bind_ok _ (outcome_memory s), hsize]
  exact writeInt_wrote hm h value

end Run

end SwiftABI
