/-
  Where the fields of a struct lie.

  A field has the least offset that its alignment allows behind the field before it, and the last
  one ends with the struct (`TypeLayout.Placed`, `TypeLayout.placed_offsets`). So fields are aligned
  and follow each other (`Placed.mem`, `Placed.pairwise`). A struct of fields that have valid
  layouts has one (`TypeLayout.ofStruct_spec`), whose alignment is a multiple of all of theirs. Its
  stride is one of that alignment, so the fields of all elements of an array are aligned as well
  (`TypeLayout.structPlacement`).
-/
import SwiftABI.Proofs.Witness.Layout

namespace SwiftABI.TypeLayout

variable {fields : List TypeLayout} {f : TypeLayout} {offsets : List Nat} {start stop offset : Nat}

theorem Valid.isPowerOfTwo_alignment (h : f.Valid) : isPowerOfTwo f.alignment = true :=
  (LayoutDraft.fault?_eq_none_iff.mp h).2.1

theorem Valid.alignment_pos (h : f.Valid) : 0 < f.alignment :=
  Int.natCast_pos.mp (isPowerOfTwo.pos h.isPowerOfTwo_alignment)

/-! ### Offsets -/

/-- Fields with their offsets, of which the first can be `start`. Each field has the least offset
that its alignment allows behind the one before it, and the last one ends at `stop`. -/
inductive Placed : Nat → List TypeLayout → List Nat → Nat → Prop where
  | nil {start : Nat} : Placed start [] [] start
  | cons {start stop offset : Nat} {f : TypeLayout} {fields : List TypeLayout} {offsets : List Nat}
    (hoffset : IsLeast {n | f.alignment ∣ n ∧ start ≤ n} offset)
    (hrest : Placed (offset + f.size) fields offsets stop) :
      Placed start (f :: fields) (offset :: offsets) stop

theorem placed_offsets (hvalid : ∀ f ∈ fields, f.Valid) (start : Nat) :
    Placed start fields (TypeLayout.offsets start fields) (endOfFields start fields) := by
  induction fields generalizing start with
  | nil => exact .nil
  | cons f fields ih =>
    obtain ⟨hf, hfields⟩ := List.forall_mem_cons.mp hvalid
    exact .cons (isLeast_roundUp hf.alignment_pos start) (ih hfields _)

namespace Placed

theorem start_le (h : Placed start fields offsets stop) : start ≤ stop := by
  induction h with
  | nil => exact Nat.le_refl _
  | cons hoffset hrest ih =>
    have hstart := hoffset.1.2
    omega

/-- A field is aligned, and lies between the start and the end. -/
theorem mem (h : Placed start fields offsets stop) (hf : (f, offset) ∈ fields.zip offsets) :
    f.alignment ∣ offset ∧ start ≤ offset ∧ offset + f.size ≤ stop := by
  induction h with
  | nil => cases hf
  | cons hoffset hrest ih =>
    rcases List.mem_cons.mp hf with hfirst | hlater
    · cases hfirst
      exact ⟨hoffset.1.1, hoffset.1.2, hrest.start_le⟩
    · obtain ⟨haligned, hafter, hinside⟩ := ih hlater
      have hstart := hoffset.1.2
      exact ⟨haligned, by omega, hinside⟩

/-- A field ends before the later ones begin. -/
theorem pairwise (h : Placed start fields offsets stop) :
    (fields.zip offsets).Pairwise fun a b => a.2 + a.1.size ≤ b.2 := by
  induction h with
  | nil => exact .nil
  | cons hoffset hrest ih => exact .cons (fun _ hb => (hrest.mem hb).2.1) ih

/-- The last field ends at the end. -/
theorem last (h : Placed start fields offsets stop)
    (hf : (fields.zip offsets).getLast? = some (f, offset)) :
    offset + f.size = stop := by
  induction h with
  | nil => cases hf
  | cons hoffset hrest ih =>
    cases hrest with
    | nil =>
      cases hf
      rfl
    | cons hoffset' hrest' =>
      rw [List.zip_cons_cons, List.zip_cons_cons, List.getLast?_cons_cons] at hf
      exact ih hf

end Placed

/-- Every field has an offset. -/
theorem exists_offset (start : Nat) (h : f ∈ fields) :
    ∃ offset, (f, offset) ∈ fields.zip (TypeLayout.offsets start fields) := by
  induction fields generalizing start with
  | nil => cases h
  | cons g fields ih =>
    rcases List.mem_cons.mp h with rfl | hlater
    · exact ⟨_, List.mem_cons_self⟩
    · obtain ⟨offset, hoffset⟩ := ih (roundUp start g.alignment + g.size) hlater
      exact ⟨offset, List.mem_cons_of_mem _ hoffset⟩

/-! ### What a struct takes over from its fields -/

theorem greatest_spec (least : Nat) (ns : List Nat) :
    greatest least ns ∈ least :: ns ∧ ∀ n ∈ least :: ns, n ≤ greatest least ns :=
  List.max?_eq_some_iff.mp List.max?_cons'

/-- The number that the struct takes over is that of a field, unless it is the least one. -/
theorem greatest_map_cases (least : Nat) (number : TypeLayout → Nat) (fields : List TypeLayout) :
    greatest least (fields.map number) = least ∨
      ∃ f ∈ fields, number f = greatest least (fields.map number) := by
  rcases List.mem_cons.mp (greatest_spec least (fields.map number)).1 with hleast | hfield
  · exact .inl hleast
  · exact .inr (List.mem_map.mp hfield)

/-- The extra inhabitants that a struct takes over are none, or those of a field inside of it. -/
theorem inherited_cases (hvalid : ∀ f ∈ fields, f.Valid) :
    greatest 0 (fields.map extraInhabitants) = 0 ∨
      ∃ f offset, (f, offset) ∈ fields.zip (TypeLayout.offsets 0 fields) ∧ f.Valid ∧
        f.extraInhabitants = greatest 0 (fields.map extraInhabitants) ∧
        offset + f.size ≤ endOfFields 0 fields := by
  rcases greatest_map_cases 0 extraInhabitants fields with hnone | ⟨f, hf, hmost⟩
  · exact .inl hnone
  · obtain ⟨offset, hoffset⟩ := exists_offset 0 hf
    exact .inr ⟨f, offset, hoffset, hvalid f hf, hmost, ((placed_offsets hvalid 0).mem hoffset).2.2⟩

/-- The alignment that a struct takes over is a power of two, and no greater than those of the
fields may be. -/
theorem inherited_alignment (hvalid : ∀ f ∈ fields, f.Valid) :
    isPowerOfTwo (greatest 1 (fields.map alignment)) = true ∧
      (greatest 1 (fields.map alignment) : Int) - 1 ≤ (alignmentMask : Int) := by
  rcases greatest_map_cases 1 alignment fields with hone | ⟨f, hf, hmost⟩
  · rw [hone]
    decide
  · obtain ⟨-, hpower, hmask, -⟩ := LayoutDraft.fault?_eq_none_iff.mp (hvalid f hf)
    rw [← hmost]
    exact ⟨hpower, hmask⟩

theorem dvd_inherited_alignment (hvalid : ∀ f ∈ fields, f.Valid) (hf : f ∈ fields) :
    f.alignment ∣ greatest 1 (fields.map alignment) :=
  isPowerOfTwo.dvd (hvalid f hf).isPowerOfTwo_alignment (inherited_alignment hvalid).1
    ((greatest_spec 1 (fields.map alignment)).2 _ (List.mem_cons_of_mem 1 (List.mem_map_of_mem hf)))

/-! ### Structs -/

/-- Fields with valid layouts have a struct. -/
theorem ofStruct_spec (hvalid : ∀ f ∈ fields, f.Valid) (pointerSize : Int) :
    ∃ l, ofStruct pointerSize fields = .ok l ∧ l.size = endOfFields 0 fields ∧
      l.extraInhabitants = greatest 0 (fields.map extraInhabitants) := by
  obtain ⟨hpower, hmask⟩ := inherited_alignment hvalid
  have hinhabitants : greatest 0 (fields.map extraInhabitants) ≤ maxExtraInhabitants ∧
      greatest 0 (fields.map extraInhabitants) < Bytes.patterns (endOfFields 0 fields) := by
    rcases inherited_cases hvalid with hnone | ⟨f, offset, -, hf, hmost, hinside⟩
    · rw [hnone]
      exact ⟨Nat.zero_le _, Nat.pow_pos (by decide)⟩
    · obtain ⟨-, -, -, hrange, -⟩ := LayoutDraft.fault?_eq_none_iff.mp hf
      rw [← hmost]
      exact ⟨Int.ofNat_le.mp hrange.2,
        Nat.lt_of_lt_of_le hf.extraInhabitants_lt (Bytes.patterns_mono (by omega))⟩
  -- A struct without bytes has one pattern, which is that of its value.
  have hnothing (hsize : endOfFields 0 fields = 0) :
      greatest 0 (fields.map extraInhabitants) = 0 := by
    have hlt := hinhabitants.2
    rw [hsize] at hlt
    exact Nat.lt_one_iff.mp hlt
  exact LayoutDraft.exists_build
    (LayoutDraft.fault?_eq_none_iff.mpr ⟨Int.natCast_nonneg _, hpower, hmask,
    ⟨Int.natCast_nonneg _, Int.ofNat_le.mpr hinhabitants.1⟩,
    fun hsize => congrArg Int.ofNat (hnothing (Int.natCast_eq_zero.mp hsize)),
    fun _ => Bytes.fits_iff.mpr hinhabitants.2, rfl⟩)

theorem alignment_of_ofStruct {l : TypeLayout} {pointerSize : Int}
    (h : ofStruct pointerSize fields = .ok l) :
    l.alignment = greatest 1 (fields.map alignment) :=
  Int.ofNat_inj.mp (congrArg LayoutDraft.alignment (LayoutDraft.draft_of_build h))

/-- The stride of what has a size is its size, rounded up. -/
theorem stride_of_size_pos (hsize : 0 < f.size) (halignment : 0 < f.alignment) :
    f.stride = roundUp f.size f.alignment := by
  have hle := le_roundUp halignment f.size
  unfold stride
  omega

/-- Where the fields of a struct lie, in it and in the elements of an array of it. -/
structure LaysOut (l : TypeLayout) (fields : List TypeLayout) (offsets : List Nat) : Prop where
  placed : Placed 0 fields offsets l.size
  aligned {f : TypeLayout} {offset : Nat} (hf : (f, offset) ∈ fields.zip offsets) :
    f.alignment ∣ offset
  disjoint : (fields.zip offsets).Pairwise fun a b => a.2 + a.1.size ≤ b.2
  last {f : TypeLayout} {offset : Nat} (hf : (fields.zip offsets).getLast? = some (f, offset)) :
    offset + f.size = l.size
  alignment_dvd {f : TypeLayout} (hf : f ∈ fields) : f.alignment ∣ l.alignment
  stride (hsize : 0 < l.size) : IsLeast {n | l.alignment ∣ n ∧ l.size ≤ n} l.stride
  /-- A field of the element with the number `i` of an array. -/
  alignedElement (hsize : 0 < l.size) {f : TypeLayout} {offset : Nat}
    (hf : (f, offset) ∈ fields.zip offsets)
    {base : Int} (hbase : (l.alignment : Int) ∣ base) (i : Nat) :
    (f.alignment : Int) ∣ base + i * l.stride + offset
  /-- An element ends before the later ones begin. -/
  disjointElements (hsize : 0 < l.size) (base : Int) {i j : Nat} (hij : i < j) :
    base + i * l.stride + l.size ≤ base + j * l.stride

/-- Fields with valid layouts have a struct, which lays them out one after the other. -/
theorem structPlacement (hvalid : ∀ f ∈ fields, f.Valid) (pointerSize : Int) :
    ∃ l, ofStruct pointerSize fields = .ok l ∧ l.Valid ∧
      l.LaysOut fields (TypeLayout.offsets 0 fields) := by
  obtain ⟨l, hstruct, hsize, -⟩ := ofStruct_spec hvalid pointerSize
  have hl : l.Valid := valid_of_build hstruct
  have hplaced : Placed 0 fields (TypeLayout.offsets 0 fields) l.size :=
    hsize ▸ placed_offsets hvalid 0
  have hdvd {f : TypeLayout} (hf : f ∈ fields) : f.alignment ∣ l.alignment :=
    alignment_of_ofStruct hstruct ▸ dvd_inherited_alignment hvalid hf
  have hstride (hpos : 0 < l.size) : IsLeast {n | l.alignment ∣ n ∧ l.size ≤ n} l.stride := by
    rw [stride_of_size_pos hpos hl.alignment_pos]
    exact isLeast_roundUp hl.alignment_pos l.size
  refine ⟨l, hstruct, hl, hplaced, fun hf => (hplaced.mem hf).1, hplaced.pairwise, hplaced.last,
    hdvd, hstride, ?_, ?_⟩
  · intro hpos f offset hf base hbase i
    -- The base and the stride are multiples of the alignment of the struct, and so of that of the
    -- field.
    have hwhole : (f.alignment : Int) ∣ l.alignment :=
      Int.natCast_dvd_natCast.mpr (hdvd (List.of_mem_zip hf).1)
    have hstep : (l.alignment : Int) ∣ l.stride := Int.natCast_dvd_natCast.mpr (hstride hpos).1.1
    have hoffset : (f.alignment : Int) ∣ offset := Int.natCast_dvd_natCast.mpr (hplaced.mem hf).1
    exact Int.dvd_add (Int.dvd_add (Int.dvd_trans hwhole hbase)
      (Int.dvd_trans (Int.dvd_trans hwhole hstep) (Int.dvd_mul_left _ _))) hoffset
  · intro hpos base i j hij
    have hinside : l.size ≤ l.stride := (hstride hpos).1.2
    have hnext : (i + 1 : Int) * l.stride ≤ j * l.stride :=
      Int.mul_le_mul_of_nonneg_right (by omega) (by omega)
    rw [Int.add_mul, Int.one_mul] at hnext
    omega

/-- A byte, a word with a gap before it, a field without a size that is aligned to twice as much,
and half a word. -/
def unevenFields : List TypeLayout :=
  [field 1 1, field 4 4, field 0 8, field 2 2]
where
  field (size alignment : Nat) : TypeLayout :=
    { size, alignment, extraInhabitants := 0, isPod := true, isBitwiseTakable :=
      true, caseCount := none, hasSpareBits := false, pointerSize := 8 }

theorem structPlacement_unevenFields :
    ∃ l, ofStruct 8 unevenFields = .ok l ∧ l.size = 10 ∧ l.alignment = 8 ∧ l.stride = 16 ∧
      l.LaysOut unevenFields [0, 4, 8, 8] := by
  have hvalid : ∀ f ∈ unevenFields, f.Valid := by decide
  obtain ⟨l, hstruct, -, hplacement⟩ := structPlacement hvalid 8
  refine ⟨l, hstruct, ?_, ?_, ?_, hplacement⟩ <;> cases hstruct <;> rfl

end SwiftABI.TypeLayout
