/-
  Layouts and their flags.

  The flags of a layout hold its alignment and a bit for each property, which are all told from the
  one number (`TypeLayout.flags_emod`, `TypeLayout.bit_flags`). So a record with the data of a
  layout gives the layout back (`TypeLayout.ofRecord_eq`), except that it does not say how many
  cases an enum has.
-/
import SwiftABI.Proofs.Alignment
import SwiftABI.Proofs.Bytes
import SwiftABI.Witness.Layout

namespace SwiftABI

/-! ### Bits -/

theorem bitIf_eq (p : Bool) (i : Nat) : bitIf p i = p.toNat * 2 ^ i := by
  cases p with
  | false => rw [Bool.toNat_false, Nat.zero_mul]; rfl
  | true => rw [Bool.toNat_true, Nat.one_mul]; rfl

theorem bit_eq_of_emod {n : Int} {i : Nat} {p : Bool} (h : n / 2 ^ i % 2 = p.toNat) :
    bit n i = p := by
  unfold bit
  rw [h]
  cases p <;> rfl

namespace TypeLayout

variable {l : TypeLayout} {words : Int}

theorem flags_eq (words : Int) (l : TypeLayout) : l.flags words =
    (l.alignment - 1) % 256 + (!l.isPod).toNat * 65536 + (!l.isInline words).toNat * 131072
      + l.hasSpareBits.toNat * 524288 + (!l.isBitwiseTakable).toNat * 1048576 + l.isEnum.toNat *
      2097152 := by
  unfold flags
  rw [bitIf_eq, bitIf_eq, bitIf_eq, bitIf_eq, bitIf_eq]
  rfl

/-- The properties that the flags tell of, each by the bit that it has. -/
theorem bit_flags (words : Int) (l : TypeLayout) :
    bit (l.flags words) nonPodBit = !l.isPod ∧
      bit (l.flags words) nonInlineBit = !l.isInline words ∧
      bit (l.flags words) spareBitsBit = l.hasSpareBits ∧
      bit (l.flags words) nonTakableBit = !l.isBitwiseTakable ∧
        bit (l.flags words) enumBit = l.isEnum := by
  have hpod := Bool.toNat_le (!l.isPod)
  have hinline := Bool.toNat_le (!l.isInline words)
  have hspare := Bool.toNat_le l.hasSpareBits
  have htakable := Bool.toNat_le (!l.isBitwiseTakable)
  have henum := Bool.toNat_le l.isEnum
  rw [flags_eq]
  refine ⟨bit_eq_of_emod ?_, bit_eq_of_emod ?_, bit_eq_of_emod ?_, bit_eq_of_emod ?_,
    bit_eq_of_emod ?_⟩
  · show _ / 65536 % 2 = _
    omega
  · show _ / 131072 % 2 = _
    omega
  · show _ / 524288 % 2 = _
    omega
  · show _ / 1048576 % 2 = _
    omega
  · show _ / 2097152 % 2 = _
    omega

/-- The alignment is in the lowest byte of the flags. -/
theorem flags_emod (words : Int) (l : TypeLayout) :
    l.flags words % 256 = (l.alignment - 1) % 256 := by
  rw [flags_eq]
  omega

end TypeLayout

/-! ### Numbers that fit a type -/

namespace LayoutDraft

/-- A check that names no fault goes on to the next one. -/
private theorem check_eq_none_iff {c : Prop} [Decidable c] {f : LayoutFault}
    {rest : Option LayoutFault} :
    (if c then some f else rest) = none ↔ ¬c ∧ rest = none := by
  by_cases hc : c
  · simp [hc]
  · simp [hc]

theorem fault?_eq_none_iff {d : LayoutDraft} :
    d.fault? = none ↔ 0 ≤ d.size ∧ isPowerOfTwo d.alignment = true ∧
    d.alignment - 1 ≤ (alignmentMask : Int) ∧
      (0 ≤ d.extraInhabitants ∧ d.extraInhabitants ≤ (maxExtraInhabitants : Int)) ∧
        (d.size = 0 → d.extraInhabitants = 0) ∧
          (d.size ≠ 0 → Bytes.fits d.size.toNat d.extraInhabitants.toNat = true) ∧
          d.caseFault? = none := by
  unfold fault?
  simp only [check_eq_none_iff, not_or, not_and, Int.not_lt, Bool.not_eq_true',
    Bool.not_eq_false, ne_eq, Classical.not_not]

/-- Numbers that fit a type make a layout. -/
theorem exists_build {d : LayoutDraft} (h : d.fault? = none) :
    ∃ l, d.build = .ok l ∧ l.size = d.size.toNat ∧
      l.extraInhabitants = d.extraInhabitants.toNat := by
  unfold build
  rw [h]
  exact ⟨_, rfl, rfl, rfl⟩

/-- A layout has the numbers that it was made from. -/
theorem draft_of_build {d : LayoutDraft} {l : TypeLayout} (h : d.build = .ok l) : l.draft = d := by
  unfold build at h
  split at h
  · cases h
  · rename_i hfault
    obtain ⟨hsize, hpower, -, hrange, -, -, hcases⟩ := fault?_eq_none_iff.mp hfault
    have hcount : (d.caseCount.map Int.toNat).map Int.ofNat = d.caseCount := by
      unfold caseFault? at hcases
      split at hcases
      · rename_i hnone
        rw [hnone]
        rfl
      · rename_i count hsome
        rw [hsome, Option.map_some, Option.map_some, Int.ofNat_eq_natCast, Int.toNat_of_nonneg]
        exact Int.not_lt.mp (check_eq_none_iff.mp hcases).1
    cases h
    simp only [TypeLayout.draft, Int.toNat_of_nonneg hsize,
      Int.toNat_of_nonneg (Int.le_of_lt (isPowerOfTwo.pos hpower)),
      Int.toNat_of_nonneg hrange.1, hcount]

end LayoutDraft

namespace TypeLayout

variable {l : TypeLayout}

/-- Layouts are made from numbers that fit a type only. -/
theorem valid_of_build {d : LayoutDraft} (h : d.build = .ok l) : l.Valid := by
  unfold Valid
  rw [LayoutDraft.draft_of_build h]
  unfold LayoutDraft.build at h
  split at h
  · cases h
  · assumption

/-- A valid layout is made from its own numbers. -/
theorem build_draft (h : l.Valid) : l.draft.build = .ok l := by
  have hcases : (l.caseCount.map Int.ofNat).map Int.toNat = l.caseCount := by
    cases l.caseCount <;> rfl
  unfold LayoutDraft.build
  rw [show l.draft.fault? = none from h]
  simp [draft, hcases]

/-- There are fewer extra inhabitants than bit patterns. -/
theorem Valid.extraInhabitants_lt (h : l.Valid) : l.extraInhabitants < Bytes.patterns l.size := by
  obtain ⟨-, -, -, -, hnothing, hfits, -⟩ := LayoutDraft.fault?_eq_none_iff.mp h
  by_cases hsize : l.size = 0
  · have hzero : (l.extraInhabitants : Int) = 0 := hnothing (congrArg Int.ofNat hsize)
    rw [Int.natCast_eq_zero.mp hzero]
    exact Nat.pow_pos (by decide)
  · exact Bytes.fits_iff.mp (hfits fun hzero => hsize (Int.natCast_eq_zero.mp hzero))

/-- Every case of an enum has a bit pattern. -/
theorem Valid.caseCount_le {count : Nat} (h : l.Valid) (hcount : l.caseCount = some count) :
    count ≤ Bytes.patterns l.size := by
  obtain ⟨-, -, -, -, -, -, hcases⟩ := LayoutDraft.fault?_eq_none_iff.mp h
  unfold LayoutDraft.caseFault? draft at hcases
  rw [hcount] at hcases
  have hfits := (LayoutDraft.check_eq_none_iff.mp (LayoutDraft.check_eq_none_iff.mp hcases).2).1
  rw [Bool.not_eq_true', Bool.not_eq_false] at hfits
  have hlast : count - 1 < Bytes.patterns l.size := Bytes.fits_iff.mp hfits
  have hpos : 0 < Bytes.patterns l.size := Nat.pow_pos (by decide)
  omega

/-- The layout as a table tells of it: a table says that a type is an enum, but not which cases that
has, and knows no hooks. -/
def tabulated (l : TypeLayout) : TypeLayout :=
  { l with caseCount := none, onCopy := none, onDestroy := none }

theorem Valid.tabulated (h : l.Valid) : l.tabulated.Valid := by
  obtain ⟨hsize, hpower, hmask, hrange, hnothing, hfits, -⟩ := LayoutDraft.fault?_eq_none_iff.mp h
  exact LayoutDraft.fault?_eq_none_iff.mpr ⟨hsize, hpower, hmask, hrange, hnothing, hfits, rfl⟩

/-- All but the cases of an enum is in the flags of a table. -/
theorem flags_tabulated (words : Int) (l : TypeLayout) :
    l.tabulated.flags words + bitIf l.isEnum enumBit = l.flags words := by
  unfold flags
  rw [show l.tabulated.isEnum = false from rfl, show bitIf false enumBit = 0 from rfl, Nat.add_zero]
  rfl

/-- A layout that is recovered from a table: all that the table says of it is the same. -/
structure Recovers (l original : TypeLayout) : Prop where
  size : l.size = original.size
  alignment : l.alignment = original.alignment
  stride : l.stride = original.stride
  extraInhabitants : l.extraInhabitants = original.extraInhabitants
  isPod : l.isPod = original.isPod
  isBitwiseTakable : l.isBitwiseTakable = original.isBitwiseTakable
  hasSpareBits : l.hasSpareBits = original.hasSpareBits
  pointerSize : l.pointerSize = original.pointerSize
  isInline (words : Int) : l.isInline words = original.isInline words
  flags (words : Int) : l.flags words + bitIf original.isEnum enumBit = original.flags words

theorem recovers_tabulated (l : TypeLayout) : l.tabulated.Recovers l :=
  ⟨rfl, rfl, rfl, rfl, rfl, rfl, rfl, rfl, fun _ => rfl, fun words => flags_tabulated words l⟩

/-- A record with the data of a layout tells the layout. -/
theorem ofRecord_eq {r : Record} {words : Int} (cfg : Config) (hvalid : l.Valid)
    (hsize : r.value WitnessSlot.size.name = l.size)
    (hflags : r.value WitnessSlot.flags.name = l.flags words)
    (hinhabitants : r.value WitnessSlot.extraInhabitantCount.name = l.extraInhabitants)
    (hpointer : r.packing.pointerSize = some l.pointerSize) :
    ofRecord cfg none r = .ok l.tabulated := by
  obtain ⟨hpod, -, hspare, htakable, -⟩ := bit_flags words l
  have halignment : ((l.flags words : Int) % (alignmentMask + 1 : Nat)) + 1 = l.alignment := by
    obtain ⟨-, hpower, hmask, -⟩ := LayoutDraft.fault?_eq_none_iff.mp hvalid
    have hpos := isPowerOfTwo.pos hpower
    have hlow := flags_emod words l
    simp only [draft, alignmentMask] at hpos hmask ⊢
    omega
  unfold ofRecord
  dsimp only
  rw [hsize, hflags, hinhabitants, hpod, hspare, htakable, hpointer, halignment, Bool.not_not,
    Bool.not_not]
  exact build_draft hvalid.tabulated

end TypeLayout

end SwiftABI
