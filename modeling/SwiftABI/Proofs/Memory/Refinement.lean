/-
  Paged memory refines a map from addresses to bytes.

  `Session.IsByteMap` says what reading, writing, filling, copying and the integers do to the map,
  where no page is mentioned any more. It holds after every run of calls (`isByteMap_performAll`),
  for every size of the pages.
-/
import SwiftABI.Proofs.Bytes
import SwiftABI.Proofs.Memory.Calls

namespace SwiftABI

variable {s : Session} {address : Int} {size : Nat} {bs : Bytes}

/-! ### Bytes -/

/-- Reading gives the bytes of the range, or fails at its first address that has none. -/
theorem Run.read_byteMap (hm : s.memory.Paged) (address : Int) (size : Nat) :
    (∃ bs, (Run.read address size).outcome s = (.ok bs, s) ∧ bs.length = size ∧
        s.memory.Holds address bs) ∨
      ∃ i, s.memory.FirstUnmapped address size i ∧
        ((Run.read address size).outcome s).1 = .error (.access (.unmapped (address + i))) := by
  unfold Run.read
  rw [outcome_bind_ok _ (outcome_memory s), Int.toNat_natCast]
  rcases Memory.read_cases hm address size with ⟨bs, hread, hlength, hbytes⟩ | ⟨i, hi, hread⟩
  · rw [hread]
    exact .inl ⟨bs, rfl, hlength, hbytes⟩
  · rw [hread]
    exact .inr ⟨i, hi, rfl⟩

/-- Reading a range whose bytes are known. -/
theorem Run.read_of_holds (hm : s.memory.Paged) (h : s.memory.Holds address bs) :
    (Run.read address bs.length).outcome s = (.ok bs, s) := by
  unfold Run.read
  rw [outcome_bind_ok _ (outcome_memory s), Int.toNat_natCast, Memory.read_of_holds hm h]
  rfl

/-- Writing to a range with bytes replaces them. -/
theorem Run.write_byteMap (hm : s.memory.Paged) (h : s.memory.Mapped address bs.length) :
    ∃ s', (Run.write address bs).outcome s = (.ok (), s') ∧ s'.memory.Paged ∧
      s'.memory.byte? = Memory.overwritten s.memory.byte? address bs := by
  obtain ⟨hpaged, ⟨-, hok, hbytes⟩ | ⟨i, hi, -⟩⟩ := Memory.write_cases hm address bs
  · refine ⟨{ s with memory := (s.memory.write address bs).2 }, ?_, hpaged, hbytes⟩
    rw [outcome_write, hok]
    rfl
  · exact absurd h (Memory.not_mapped_iff.mpr ⟨i, hi⟩)

/-- What has been written is there. -/
theorem Memory.holds_of_overwritten {m m' : Memory}
    (h : m'.byte? = Memory.overwritten m.byte? address bs) : m'.Holds address bs := by
  intro i hi
  rw [h, Memory.overwritten, if_pos (by omega)]
  congr 1
  omega

/-! ### Integers -/

/-- What is written as an integer is read as what the bytes stand for. -/
theorem Run.readInt_writeInt (hm : s.memory.Paged) {value : Int} {signed : Bool}
    (hbytes : integerBytes value size signed = .ok bs) (hlength : bs.length = size)
    (h : s.memory.Mapped address size) :
    ((do writeInt address value size signed; readInt address size signed).outcome s).1 =
      .ok (if signed then bs.toSigned else bs.toNat) := by
  subst hlength
  obtain ⟨s', hwrite, hpaged, hview⟩ := write_byteMap hm h
  have hwriteInt : (writeInt address value bs.length signed).outcome s = (.ok (), s') := by
    unfold writeInt
    rw [hbytes]
    exact hwrite
  rw [outcome_bind_ok _ hwriteInt]
  unfold readInt
  rw [outcome_bind_ok _ (read_of_holds hpaged (Memory.holds_of_overwritten hview))]
  rfl

theorem Run.integerBytes_unsigned (value : Int) (size : Nat) :
    integerBytes value size false = .ok (Bytes.ofNat size (value % (256 ^ size : Nat)).toNat) := by
  unfold integerBytes
  rw [if_neg (by decide), if_neg (by omega), Int.toNat_natCast]

theorem Run.integerBytes_signed {value : Int} (h : Bytes.fitsSigned size value = true) :
    integerBytes value size true = .ok (Bytes.ofNat size (value % (256 ^ size : Nat)).toNat) := by
  unfold integerBytes Bytes.encodeSigned
  rw [if_pos rfl, if_neg (by omega), Int.toNat_natCast, if_pos h]

/-! ### The map -/

/-- What the operations of a session do to its memory, seen as a map from addresses to bytes. -/
structure Session.IsByteMap (s : Session) : Prop where
  /-- The bytes of a range are read in order. Else its first address without a byte is the fault. -/
  read (address : Int) (size : Nat) :
    (∃ bs, (Run.read address size).outcome s = (.ok bs, s) ∧ bs.length = size ∧
        s.memory.Holds address bs) ∨
      ∃ i, s.memory.FirstUnmapped address size i ∧
        ((Run.read address size).outcome s).1 = .error (.access (.unmapped (address + i)))
  /-- Writing replaces the bytes of the range, and no others. -/
  write (address : Int) (bs : Bytes) (h : s.memory.Mapped address bs.length) :
    ∃ s', (Run.write address bs).outcome s = (.ok (), s') ∧
      s'.memory.byte? = Memory.overwritten s.memory.byte? address bs
  /-- Filling replaces them by one byte. -/
  fill (address : Int) (size : Nat) (byte : UInt8) (h : s.memory.Mapped address size) :
    ∃ s', (Run.fill address size byte.toNat).outcome s = (.ok (), s') ∧
      s'.memory.byte? = Memory.overwritten s.memory.byte? address (List.replicate size byte)
  /-- Copying replaces them by what the source has before, also if the ranges overlap. -/
  copy (dest src : Int) (bs : Bytes) (hsrc : s.memory.Holds src bs)
    (hdest : s.memory.Mapped dest bs.length) :
    ∃ s', (Run.copy dest src bs.length).outcome s = (.ok (), s') ∧
      s'.memory.byte? = Memory.overwritten s.memory.byte? dest bs
  /-- An integer without a sign comes back without its high bits. -/
  unsigned (address value : Int) (size : Nat) (h : s.memory.Mapped address size) :
    ((do Run.writeInt address value size false; Run.readInt address size false).outcome s).1 =
      .ok (value % 2 ^ (8 * size))
  /-- An integer with a sign comes back if it fits. -/
  signed (address value : Int) (size : Nat) (hsize : 0 < size)
    (hfits : -(2 ^ (8 * size - 1)) ≤ value ∧ value < 2 ^ (8 * size - 1))
    (h : s.memory.Mapped address size) :
    ((do Run.writeInt address value size true; Run.readInt address size true).outcome s).1 =
      .ok value

theorem Memory.Paged.isByteMap (hm : s.memory.Paged) : s.IsByteMap where
  read address size := Run.read_byteMap hm address size
  write address bs h := by
    obtain ⟨s', hwrite, -, hview⟩ := Run.write_byteMap hm h
    exact ⟨s', hwrite, hview⟩
  fill address size byte h := by
    have hbyte := UInt8.toNat_lt byte
    have h : s.memory.Mapped address (List.replicate size byte).length := by
      rwa [List.length_replicate]
    obtain ⟨s', hwrite, -, hview⟩ := Run.write_byteMap hm h
    refine ⟨s', ?_, hview⟩
    rw [Run.outcome_fill, if_neg (by omega), Int.toNat_natCast, Int.toNat_natCast,
      UInt8.ofNat_toNat]
    exact hwrite
  copy dest src bs hsrc hdest := by
    obtain ⟨s', hwrite, -, hview⟩ := Run.write_byteMap hm hdest
    refine ⟨s', ?_, hview⟩
    unfold Run.copy
    rw [Run.outcome_bind_ok _ (Run.read_of_holds hm hsrc)]
    exact hwrite
  unsigned address value size h := by
    rw [Run.readInt_writeInt hm (Run.integerBytes_unsigned value size) (Bytes.length_ofNat _ _) h,
      if_neg (by decide), Bytes.toNat_ofNat_emod, ← Bytes.patterns, Bytes.patterns_eq]
    push_cast
    rfl
  signed address value size hsize hfits h := by
    have hfits := (Bytes.fitsSigned_iff (by omega)).mpr hfits
    rw [Run.readInt_writeInt hm (Run.integerBytes_signed hfits) (Bytes.length_ofNat _ _) h,
      if_pos rfl, Bytes.toSigned_ofNat (by omega) hfits]

/-- After every run of calls on new memory, its operations are those of a map from addresses to
bytes. -/
theorem MemoryCall.isByteMap_performAll {pageSize pointerSize : Int} {m : Memory}
    (h : Memory.create pageSize pointerSize = .ok m) (calls : List MemoryCall) :
    (performAll calls (.ofMemory m)).2.IsByteMap :=
  (paged_performAll calls (Memory.paged_of_create h)).isByteMap

/-- With pages of a single byte, storage of three bytes reaches over three pages. -/
theorem MemoryCall.isByteMap_performAll_bytePages :
    Memory.create 1 8 = .ok (.empty 0 8) ∧
      (performAll [.allocate 3 1] (.ofMemory (.empty 0 8))).2.IsByteMap :=
  ⟨rfl, isByteMap_performAll (rfl : Memory.create 1 8 = .ok (.empty 0 8)) [.allocate 3 1]⟩

end SwiftABI
