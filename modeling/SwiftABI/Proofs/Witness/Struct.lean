/-
  Structs and the extra inhabitants that they take over from their fields.

  The extra inhabitants of a struct are its highest bit patterns, as many as those of the field that
  has most (`TypeLayout.inherited_cases`). That field need not come last, but a field that is below
  its own highest patterns keeps the whole struct below as many (`Bytes.toNat_add_lt_of_slice`). So
  a struct whose fields have values is the payload of an enum and none of its empty cases
  (`WitnessTable.structIsNoEmptyCase`).
-/
import SwiftABI.Proofs.Witness.Placement
import SwiftABI.Proofs.Witness.SinglePayload

namespace SwiftABI

namespace WitnessTable

/-- Each field with extra inhabitants is read as none of them. -/
def FieldsInhabited (s : Session) (value : Int) (fields : List TypeLayout) : Prop :=
  ∀ f offset, (f, offset) ∈ fields.zip (TypeLayout.offsets 0 fields) → f.extraInhabitants ≠ 0 →
    ∃ n : Int, (Run.readInt (value + offset) f.size false).outcome s = (.ok n, s) ∧
      n < 2 ^ (8 * f.size) - f.extraInhabitants

/-- The bytes of a struct are below its extra inhabitants if the fields are below theirs. -/
theorem FieldsInhabited.toNat_lt {s : Session} {value : Int} {fields : List TypeLayout}
    {bytes : Bytes}
    (h : FieldsInhabited s value fields) (hm : s.memory.Paged) (hvalid : ∀ f ∈ fields, f.Valid)
    (hbytes : s.memory.Holds value bytes)
    (hlength : bytes.length = TypeLayout.endOfFields 0 fields) :
    bytes.toNat + TypeLayout.greatest 0
      (fields.map TypeLayout.extraInhabitants) < Bytes.patterns bytes.length := by
  rcases TypeLayout.inherited_cases hvalid with hnone | ⟨f, offset, hoffset, hf, hmost, hinside⟩
  · rw [hnone]
    exact bytes.toNat_lt
  · by_cases hzero : f.extraInhabitants = 0
    · rw [← hmost, hzero]
      exact bytes.toNat_lt
    · obtain ⟨n, hread, hlt⟩ := h f offset hoffset hzero
      have hfits : offset + f.size ≤ bytes.length := by omega
      have hslice : ((bytes.drop offset).take f.size).length = f.size := by
        rw [List.length_take, List.length_drop]
        omega
      rw [Run.readInt_of_holds hm (hbytes.slice hfits) hslice] at hread
      cases hread
      rw [← hmost]
      rw [← Bytes.natCast_patterns] at hlt
      exact Bytes.toNat_add_lt_of_slice hfits (by omega)

/-- A struct of fields with valid layouts exists, and a value of it whose fields are no extra
inhabitants is the payload of an enum, whatever the bytes between the fields are. -/
theorem structIsNoEmptyCase {fields : List TypeLayout} (hvalid : ∀ f ∈ fields, f.Valid)
    (pointerSize : Int) :
    ∃ l, TypeLayout.ofStruct pointerSize fields = .ok l ∧
      ∀ (t : WitnessTable) (s : Session) (value emptyCases : Int), t.layout = l → s.memory.Paged →
        s.memory.isInitialized value = true → s.memory.Mapped value l.size →
        FieldsInhabited s value fields →
        s.memory.Holds (value + l.size) (Bytes.ofNat (t.tagBytes emptyCases) 0) →
          (t.getEnumTagSinglePayload value emptyCases).outcome s = (.ok 0, s) := by
  obtain ⟨l, hstruct, hsize, hmost⟩ := TypeLayout.ofStruct_spec hvalid pointerSize
  refine ⟨l, hstruct, fun t s value emptyCases hlayout hm hlive hmapped hfields htag => ?_⟩
  subst hlayout
  obtain ⟨bytes, hlength, hbytes⟩ := hmapped.exists_holds hm
  have hlt := hfields.toNat_lt hm hvalid hbytes (hlength.trans hsize)
  rw [hlength, ← hmost] at hlt
  rw [outcome_getEnumTagSinglePayload_of_untagged hm hlive hlength hbytes htag, if_neg]
  unfold firstInhabitant
  omega

/-- The layout of a number, of which the highest values are extra inhabitants. -/
def numberLayout (size extraInhabitants : Nat) : TypeLayout :=
  { size, alignment := size, extraInhabitants, isPod := true, isBitwiseTakable :=
    true, caseCount := none, hasSpareBits := false, pointerSize := 8 }

/-- Two fields that have as many extra inhabitants, with a gap between them, and a field that has
none. -/
def recordFields : List TypeLayout := [numberLayout 1 3, numberLayout 4 3, numberLayout 2 0]

/-- The greatest values of the fields, with ones in the gap. The byte behind them is zero. -/
def recordSession : Session :=
  .ofMemory ((((Memory.empty 2 8).mapRange 4 12).write 5
    [0xFC, 0xFF, 0xFF, 0xFF, 0xFC, 0xFF, 0xFF, 0xFF, 0xFF, 0xFF]).2.markInitialized 5)

theorem structIsNoEmptyCase_recordFields :
    ∃ l, TypeLayout.ofStruct 8 recordFields = .ok l ∧
      (WitnessTable.getEnumTagSinglePayload ⟨l, opaqueName, 3⟩ 5 1000).outcome recordSession =
        (.ok 0, recordSession) := by
  have hvalid : ∀ f ∈ recordFields, f.Valid := by decide
  have hm : recordSession.memory.Paged :=
    (Memory.write_cases
      ((Memory.paged_of_create (rfl : Memory.create 4 8 = .ok (.empty 2 8))).mapRange 4 12) 5 _).1
  obtain ⟨l, hstruct, hpayload⟩ := structIsNoEmptyCase hvalid 8
  refine ⟨l, hstruct, hpayload ⟨l, opaqueName, 3⟩ recordSession 5 1000 rfl hm
    (by decide +kernel) ?_ ?_ ?_⟩
  · cases hstruct
    unfold Memory.Mapped
    decide +kernel
  · have hfirst : recordSession.memory.Holds 5 [0xFC] := by
      unfold Memory.Holds
      decide +kernel
    have hsecond : recordSession.memory.Holds 9 [0xFC, 0xFF, 0xFF, 0xFF] := by
      unfold Memory.Holds
      decide +kernel
    rintro f offset (_ | ⟨_, _ | ⟨_, _ | ⟨_, ⟨⟩⟩⟩⟩) hsome
    · exact ⟨252, Run.readInt_of_holds hm hfirst rfl, by decide⟩
    · exact ⟨4294967292, Run.readInt_of_holds hm hsecond rfl, by decide⟩
    · exact absurd rfl hsome
  · cases hstruct
    unfold Memory.Holds
    decide +kernel

end WitnessTable

end SwiftABI
