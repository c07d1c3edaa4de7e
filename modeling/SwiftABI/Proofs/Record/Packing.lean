/-
  A record is read back from its bytes.

  The bytes of a record are those of its fields, one after the other. So it is enough that a number
  is read back from the bytes that it was written to (`Bytes.decode_of_encode`), wherever these lie:
  what stands before a field or after it does not matter (`Record.unpackFields_packFields`). The
  bytes may therefore go on after the record, and a record of the first fields can be read from them
  as well (`Record.unpack_append`).
-/
import Mathlib.Data.List.Nodup
import SwiftABI.Proofs.Bytes
import SwiftABI.Record.Basic

namespace SwiftABI

/-- A piece lies between what stands before it and what stands after it. -/
theorem Position.slice_append {α : Type} (front piece back : List α) :
    slice (front ++ piece ++ back) front.length (front.length + piece.length) = piece := by
  have hstart : before (front ++ piece ++ back) front.length = front.length := by
    unfold before
    rw [if_pos (Int.natCast_nonneg _), Int.toNat_natCast, List.length_append, List.length_append]
    omega
  have hstop : before (front ++ piece ++ back) (front.length + piece.length) =
      (front ++ piece).length := by
    unfold before
    rw [if_pos (by omega), List.length_append, List.length_append]
    omega
  unfold slice
  rw [hstart, hstop, List.take_left, List.drop_left]

/-! ### Numbers -/

namespace Bytes

@[simp]
theorem length_inOrder (order : ByteOrder) (bytes : Bytes) :
    (inOrder order bytes).length = bytes.length := by
  cases order with
  | little => rfl
  | big => exact List.length_reverse

@[simp]
theorem inOrder_inOrder (order : ByteOrder) (bytes : Bytes) :
    inOrder order (inOrder order bytes) = bytes := by
  cases order with
  | little => rfl
  | big => exact List.reverse_reverse bytes

/-- The bytes that a number is written to, and when there are any. -/
theorem encode_eq_ok_iff {request : OrderRequest} {size value : Int} {bytes : Bytes} :
    encode request size value = .ok bytes ↔ 0 ≤ size ∧ size ≤ maxLength ∧ 0 ≤ value ∧
      value.toNat < patterns size.toNat ∧ ∃ order, orderOf request = .ok order ∧
        bytes = inOrder order (ofNat size.toNat value.toNat) := by
  have hcounted (hsize : 0 ≤ size) (hlong : size ≤ maxLength) : isLength size = true := by
    unfold isLength
    unfold maxLength at hlong
    rw [Bool.and_eq_true, decide_eq_true_iff, decide_eq_true_iff]
    omega
  unfold encode
  by_cases hlength : isLength size = true
  · rcases orderOf request with f | order
    · simp [hlength]
    · by_cases hsize : size < 0
      · simp [hlength, hsize, Int.not_le.mpr hsize]
      · by_cases hlong : (maxLength : Int) < size
        · simp [hlength, hsize, hlong, Int.not_le.mpr hlong]
        · by_cases hvalue : value < 0
          · simp [hlength, hsize, hlong, hvalue, Int.not_le.mpr hvalue]
          · by_cases hfits : fits size.toNat value.toNat = true
            · have hlt := fits_iff.mp hfits
              simp [hlength, hsize, hlong, hvalue, hfits, hlt, Int.not_lt.mp hsize,
                Int.not_lt.mp hlong, Int.not_lt.mp hvalue, eq_comm]
            · have hle : ¬ value.toNat < patterns size.toNat := fun h => hfits (fits_iff.mpr h)
              simp [hlength, hsize, hlong, hvalue, hfits, hle]
  · rw [if_pos (by simp [hlength])]
    exact ⟨nofun, fun ⟨hsize, hlong, _⟩ => absurd (hcounted hsize hlong) hlength⟩

/-- A number that is not written is too large for its bytes, or there are less than none of them. -/
theorem encode_known_cases (order : ByteOrder) (size value : Int) :
    (∃ bytes, encode (.known order) size value = .ok bytes) ∨
      encode (.known order) size value = .error .overflow ∨
      (size < 0 ∧ encode (.known order) size value = .error .negativeLength) := by
  unfold encode orderOf
  split
  · exact .inr (.inl rfl)
  · dsimp only
    split
    · next hsize => exact .inr (.inr ⟨hsize, rfl⟩)
    · split
      · exact .inr (.inl rfl)
      · split
        · exact .inr (.inl rfl)
        · exact .inl ⟨_, rfl⟩

theorem length_of_encode {request : OrderRequest} {size value : Int} {bytes : Bytes}
    (h : encode request size value = .ok bytes) : (bytes.length : Int) = size := by
  obtain ⟨hsize, -, -, -, order, -, rfl⟩ := encode_eq_ok_iff.mp h
  rw [length_inOrder, length_ofNat, Int.toNat_of_nonneg hsize]

/-- A number is read from the bytes that it was written to. -/
theorem decode_of_encode {request : OrderRequest} {size value : Int} {bytes : Bytes}
    (h : encode request size value = .ok bytes) :
    ∃ n : Nat, decode request bytes = .ok n ∧ (n : Int) = value := by
  obtain ⟨-, -, hvalue, hlt, order, horder, rfl⟩ := encode_eq_ok_iff.mp h
  refine ⟨value.toNat, ?_, Int.toNat_of_nonneg hvalue⟩
  unfold decode
  rw [horder, Except.map, inOrder_inOrder, toNat_ofNat,
    Nat.mod_eq_of_lt (show value.toNat < 256 ^ size.toNat from hlt)]

end Bytes

/-! ### Fields -/

/-- The field has a name that nothing else of a record has. -/
structure Field.IsPlain (f : Field) : Prop where
  derived : f.isDerived = false
  property (p : RecordProperty) : f.name ≠ p.name

namespace Record

variable {p : Packing} {entries : List (Field × Int)} {raw : Bytes}

theorem packFields_cons_eq_ok_iff {f : Field} {value : Int} :
    packFields p ((f, value) :: entries) = .ok raw ↔
      ∃ size bytes rest, f.type.size p.pointerSize = .ok size ∧
      Bytes.encode p.order size value = .ok bytes ∧ packFields p entries = .ok rest ∧
      raw = bytes ++ rest := by
  rw [packFields]
  rcases f.type.size p.pointerSize with e | size
  · simp [bind, Except.bind]
  · rcases hbytes : Bytes.encode p.order size value with e | bytes
    · simp [bind, Except.bind, Except.mapError, hbytes]
    · rcases packFields p entries with e | rest
      · simp [bind, Except.bind, Except.mapError, hbytes]
      · simp [bind, Except.bind, Except.mapError, hbytes, pure, Except.pure, eq_comm]

/-- The bytes of some fields begin with those of the first ones. -/
theorem exists_packFields_of_append {others : List (Field × Int)}
    (h : packFields p (entries ++ others) = .ok raw) :
    ∃ front back, packFields p entries = .ok front ∧ raw = front ++ back := by
  induction entries generalizing raw with
  | nil => exact ⟨[], raw, rfl, rfl⟩
  | cons e entries ih =>
    obtain ⟨size, bytes, rest, hsize, hbytes, hrest, rfl⟩ := packFields_cons_eq_ok_iff.mp h
    obtain ⟨front, back, hfront, rfl⟩ := ih hrest
    exact ⟨bytes ++ front, back,
      packFields_cons_eq_ok_iff.mpr ⟨size, bytes, front, hsize, hbytes, hfront, rfl⟩,
      (List.append_assoc bytes front back).symm⟩

/-- Fields whose numbers fit can be written, unless a field takes less than no bytes. -/
theorem packFields_cases {order : ByteOrder} (horder : p.order = .known order)
    (htypes : ∀ e ∈ entries, ∃ size, e.1.type.size p.pointerSize = .ok size) :
    (∃ raw, packFields p entries = .ok raw) ∨ packFields p entries = .error (.integer .overflow) ∨
      ∃ e ∈ entries, ∃ size < 0, e.1.type.size p.pointerSize = .ok size := by
  induction entries with
  | nil => exact .inl ⟨[], rfl⟩
  | cons e entries ih =>
    obtain ⟨size, hsize⟩ := htypes e List.mem_cons_self
    rw [packFields, hsize, horder]
    rcases Bytes.encode_known_cases order size e.2 with ⟨bytes, hbytes⟩ | hbytes | ⟨hneg, -⟩
    · have hrest := ih fun e he => htypes e (List.mem_cons_of_mem _ he)
      rcases hrest with ⟨rest, hrest⟩ | hrest | ⟨e', he', hneg⟩
      · refine .inl ⟨bytes ++ rest, ?_⟩
        simp [bind, Except.bind, Except.mapError, hbytes, hrest, pure, Except.pure]
      · exact .inr (.inl (by simp [bind, Except.bind, Except.mapError, hbytes, hrest]))
      · exact .inr (.inr ⟨e', List.mem_cons_of_mem _ he', hneg⟩)
    · exact .inr (.inl (by simp [bind, Except.bind, Except.mapError, hbytes]))
    · exact .inr (.inr ⟨e, List.mem_cons_self, size, hneg, hsize⟩)

theorem sizeAll_of_packFields (h : packFields p entries = .ok raw) :
    Field.sizeAll p.pointerSize (entries.map Prod.fst) = .ok raw.length := by
  induction entries generalizing raw with
  | nil =>
    cases h
    rfl
  | cons e entries ih =>
    obtain ⟨size, bytes, rest, hsize, hbytes, hrest, rfl⟩ := packFields_cons_eq_ok_iff.mp h
    rw [List.map_cons, Field.sizeAll, hsize, ih hrest, List.length_append, Int.natCast_add,
      Bytes.length_of_encode hbytes]
    rfl

/-- The values of some fields are read from their bytes, whatever stands before these and after
them. -/
theorem unpackFields_packFields (hplain : ∀ e ∈ entries, e.1.IsPlain)
    (h : packFields p entries = .ok raw) (front back : Bytes) :
    unpackFields p (front ++ raw ++ back) front.length
      (entries.map Prod.fst) = .ok (entries.map Prod.snd) := by
  induction entries generalizing front raw with
  | nil => rfl
  | cons e entries ih =>
    obtain ⟨size, bytes, rest, hsize, hbytes, hrest, rfl⟩ := packFields_cons_eq_ok_iff.mp h
    obtain ⟨n, hdecode, hn⟩ := Bytes.decode_of_encode hbytes
    have hhead := hplain e List.mem_cons_self
    have hlength := Bytes.length_of_encode hbytes
    -- The other fields are read behind this one.
    have htail := ih (fun e he => hplain e (List.mem_cons_of_mem _ he)) hrest (front ++ bytes)
    have hslice := Position.slice_append front bytes (rest ++ back)
    rw [List.length_append, Int.natCast_add, hlength] at htail
    rw [hlength] at hslice
    simp only [List.append_assoc] at htail hslice ⊢
    rw [List.map_cons, unpackFields, hsize]
    simp [bind, Except.bind, pure, Except.pure, Except.mapError, hslice, hdecode, hhead.derived,
      hhead.property, htail, hn]

/-! ### Records -/

/-- A record is read from its bytes, after which there may be more. -/
theorem unpack_append {s : Schema} (hfields : s.fields? = some (entries.map Prod.fst))
    (hplain : ∀ e ∈ entries, e.1.IsPlain) (h : packFields p entries = .ok raw) (back : Bytes) :
    unpack s p (raw ++ back) = .ok ⟨s, entries.map Prod.snd, p⟩ := by
  have hsize : s.size p.pointerSize = .ok raw.length := by
    unfold Schema.size Schema.fieldList
    rw [hfields]
    exact sizeAll_of_packFields h
  have hvalues : unpackFields p (raw ++ back) 0 (entries.map Prod.fst) =
      .ok (entries.map Prod.snd) :=
    unpackFields_packFields hplain h [] back
  have hlist : s.fields = entries.map Prod.fst := by
    unfold Schema.fields
    rw [hfields]
    rfl
  unfold unpack
  rw [hfields, hsize, hlist]
  simp [bind, Except.bind, pure, Except.pure, hvalues,
    Int.not_lt.mpr (Int.le_add_of_nonneg_right _)]

variable {r : Record}

theorem hides_eq_false {s : Schema} (h : ∀ f ∈ s.fields, f.IsPlain) (property : RecordProperty) :
    s.hides property = false := by
  unfold Schema.hides
  simpa using fun f hf => (h f hf).property property

theorem visibleEntries_of_plain (h : ∀ f ∈ r.schema.fields, f.IsPlain) :
    r.visibleEntries = .ok r.entries := by
  unfold visibleEntries
  rw [hides_eq_false h]
  rfl

/-- A record without misleading names is packed for its own machine. -/
theorem pack_of_plain (h : ∀ f ∈ r.schema.fields, f.IsPlain) :
    r.pack = packFields r.packing r.entries := by
  have hvalue : r.value? RecordProperty.pointerSize.name = none := by
    unfold value?
    rw [Option.map_eq_none_iff, List.find?_eq_none]
    intro e he
    have hname := (h e.1 (List.of_mem_zip he).1).property .pointerSize
    simpa using hname
  have hmachine : r.machine = r.packing := by
    unfold machine number?
    rw [hvalue, hides_eq_false h]
    rfl
  unfold pack
  rw [visibleEntries_of_plain h, hides_eq_false h, hmachine]
  rfl

/-- If names are not used again, the value that an entry gives is the one that its name has. -/
theorem value?_of_mem (hnodup : (r.entries.map fun e => e.1.name).Nodup) {e : Field × Int}
    (he : e ∈ r.entries) :
    r.value? e.1.name = some e.2 := by
  unfold value?
  rcases hfound : r.entries.find? fun e' => e'.1.name = e.1.name with _ | e'
  · exact absurd (List.find?_eq_none.mp hfound e he) (by simp)
  · have hname : e'.1.name = e.1.name := by simpa using List.find?_some hfound
    have hmem := List.mem_of_find?_eq_some hfound
    rw [hfound, List.inj_on_of_nodup_map hnodup hmem he hname]
    rfl

/-- A record agrees with every one that has its entries among others. -/
theorem agrees_of_subset {s : Record} (h : ∀ f ∈ r.schema.fields, f.IsPlain)
    (hnodup : (s.entries.map fun e => e.1.name).Nodup) (hsubset : r.entries ⊆ s.entries) :
    r.agrees s = .ok true := by
  unfold agrees
  rw [visibleEntries_of_plain h, Except.map, Except.ok.injEq, List.all_eq_true]
  intro e he
  unfold number?
  rw [value?_of_mem hnodup (hsubset he)]
  exact decide_eq_true rfl

end Record

end SwiftABI
