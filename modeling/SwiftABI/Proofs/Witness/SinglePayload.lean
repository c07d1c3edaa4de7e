/-
  Enums with a single payload are coded in its bytes and in a tag behind them.

  `WitnessTable.Encodes` says which bytes stand for a case: the payload itself, one of its extra
  inhabitants, or a tag together with the low bytes of the payload. What is stored is a code of the
  case (`store_payload`, `store_inhabitant`, `store_tagged`), and what is loaded is the case that
  the bytes are a code of (`outcome_getEnumTagSinglePayload`), so that the two are inverse
  (`singlePayloadCodec`).
-/
import SwiftABI.Proofs.Memory.Written
import SwiftABI.Proofs.Witness.Layout
import SwiftABI.Witness.Call

namespace SwiftABI

/-! ### Tags -/

/-- The bytes of some tags hold each of them. -/
theorem EnumTag.lt_patterns_bytes {tag count : Int} (hpos : 1 ≤ tag) (hlt : tag < count)
    (hfits : tag < 2 ^ 32) :
    tag < (Bytes.patterns (bytes count) : Int) := by
  unfold bytes
  split
  · omega
  · split
    · show tag < 256
      omega
    · split
      · show tag < 65536
        omega
      · show tag < 4294967296
        omega

namespace WitnessTable

variable {t : WitnessTable} {s : Session} {value emptyCases whichCase index : Int}

/-- The tag of a case, by its number among those that have one. -/
def indexTag (t : WitnessTable) (index : Int) : Int :=
  if 4 ≤ t.layout.size then 1 else 1 + index / Bytes.patterns t.layout.size

/-- What the low bytes of the payload say of a case that has a tag. -/
def indexPayload (t : WitnessTable) (index : Int) : Int :=
  if 4 ≤ t.layout.size then index else index % Bytes.patterns t.layout.size

/-- The number of a case is told from its tag and from the payload. -/
theorem index_eq (t : WitnessTable) (index : Int) :
    (if 4 ≤ t.layout.size then 0 else (t.indexTag index - 1) * Bytes.patterns t.layout.size) +
      t.indexPayload index =
      index := by
  unfold indexTag indexPayload
  split
  · exact Int.zero_add index
  · rw [Int.add_comm 1, Int.add_sub_cancel, Int.mul_comm]
    exact Int.mul_ediv_add_emod index _

theorem indexTag_spec (hnonneg : 0 ≤ index) (hlt : index < emptyCases - t.layout.extraInhabitants)
    (hfits : emptyCases < 2 ^ 32) :
    1 ≤ t.indexTag index ∧ t.indexTag index < (Bytes.patterns (t.tagBytes emptyCases) : Int) := by
  have hmore : ¬emptyCases ≤ t.layout.extraInhabitants := by omega
  have hrest : ¬emptyCases - t.layout.extraInhabitants ≤ 0 := by omega
  unfold tagBytes indexTag EnumTag.count
  rw [if_neg hmore, if_neg hrest]
  by_cases hsize : 4 ≤ t.layout.size
  · rw [if_pos hsize, if_pos hsize]
    exact ⟨Int.le_refl 1, EnumTag.lt_patterns_bytes (Int.le_refl 1) (by decide) (by decide)⟩
  · rw [if_neg hsize, if_neg hsize]
    -- The last case has the last tag, since there are as many cases to a tag as values of the
    -- payload.
    have hpatterns : (256 : Int) ^ t.layout.size = Bytes.patterns t.layout.size :=
      (Int.natCast_pow 256 _).symm
    rw [hpatterns]
    have hpos : (0 : Int) < Bytes.patterns t.layout.size :=
      Int.natCast_pos.mpr (Nat.pow_pos (by decide))
    generalize (Bytes.patterns t.layout.size : Int) = p at hpos
    have hquotient : 0 ≤ index / p := Int.ediv_nonneg hnonneg (Int.le_of_lt hpos)
    have hsmall : index / p ≤ index := Int.ediv_le_self p hnonneg
    have hlast : index / p ≤ (emptyCases - t.layout.extraInhabitants - 1) / p :=
      Int.ediv_le_ediv hpos (by omega)
    have hround : (emptyCases - t.layout.extraInhabitants + p - 1) / p =
        (emptyCases - t.layout.extraInhabitants - 1) / p + 1 := by
      rw [← Int.add_mul_ediv_right _ 1 (Int.ne_of_gt hpos)]
      congr 1
      omega
    exact ⟨by omega, EnumTag.lt_patterns_bytes (by omega) (by omega) (by omega)⟩

theorem indexPayload_spec (hnonneg : 0 ≤ index) (hfits : index < 2 ^ 32) :
    0 ≤ t.indexPayload index ∧ t.indexPayload index < (Bytes.patterns t.caseBytes : Int) := by
  unfold indexPayload caseBytes
  have hpos : (0 : Int) < Bytes.patterns t.layout.size :=
    Int.natCast_pos.mpr (Nat.pow_pos (by decide))
  split
  · rename_i hsize
    rw [Nat.min_eq_right hsize]
    exact ⟨hnonneg, hfits⟩
  · rename_i hsize
    rw [Nat.min_eq_left (by omega)]
    exact ⟨Int.emod_nonneg _ (Int.ne_of_gt hpos), Int.emod_lt_of_pos _ hpos⟩

/-! ### Codes -/

/-- The bytes from an address on are a code of the case of an enum with some empty cases. -/
inductive Encodes (t : WitnessTable) (m : Memory) (value emptyCases : Int) : Int → Prop where
  /-- A payload that is no extra inhabitant. -/
  | payload {bytes : Bytes} (hlength : bytes.length = t.layout.size)
    (hpayload : m.Holds value bytes) (hvalid : (bytes.toNat : Int) < t.firstInhabitant)
    (htag : m.Holds (value + t.layout.size) (Bytes.ofNat (t.tagBytes emptyCases) 0)) :
    Encodes t m value emptyCases 0
  | inhabitant {whichCase : Int} (hpos : 0 < whichCase)
    (hle : whichCase ≤ t.layout.extraInhabitants)
    (hpayload : m.Holds value (Bytes.ofNat t.layout.size (t.firstInhabitant + whichCase - 1).toNat))
    (htag : m.Holds (value + t.layout.size) (Bytes.ofNat (t.tagBytes emptyCases) 0)) :
    Encodes t m value emptyCases whichCase
  | tagged {index : Int} (hnonneg : 0 ≤ index)
    (hlt : index < emptyCases - t.layout.extraInhabitants)
    (hpayload : m.Holds value (Bytes.ofNat t.caseBytes (t.indexPayload index).toNat))
    (htag : m.Holds (value + t.layout.size)
      (Bytes.ofNat (t.tagBytes emptyCases) (t.indexTag index).toNat)) :
    Encodes t m value emptyCases (index + t.layout.extraInhabitants + 1)

/-! ### Loading -/

theorem firstInhabitant_pos (hvalid : t.layout.Valid) : 0 < t.firstInhabitant := by
  have hlt := hvalid.extraInhabitants_lt
  unfold firstInhabitant
  omega

/-- What a payload says if no tag is looked at. -/
theorem outcome_loadInhabitant (hm : s.memory.Paged) {bytes : Bytes}
    (hlength : bytes.length = t.layout.size) (hbytes : s.memory.Holds value bytes) :
    (t.loadInhabitant value).outcome s =
      (.ok (if t.firstInhabitant ≤ bytes.toNat then bytes.toNat - t.firstInhabitant + 1 else 0),
        s) := by
  unfold loadInhabitant
  split
  · rename_i hnone
    have hlt := bytes.toNat_lt
    rw [hlength] at hlt
    rw [if_neg (by unfold firstInhabitant; omega)]
    rfl
  · rw [Run.outcome_bind_ok _ (Run.readInt_of_holds hm hbytes hlength)]
    rfl

/-- Where there is no tag, the payload tells the case. -/
theorem outcome_getEnumTagSinglePayload_of_untagged (hm : s.memory.Paged)
    (hlive : s.memory.isInitialized value = true) {bytes : Bytes}
    (hlength : bytes.length = t.layout.size) (hbytes : s.memory.Holds value bytes)
    (htag : s.memory.Holds (value + t.layout.size) (Bytes.ofNat (t.tagBytes emptyCases) 0)) :
    (t.getEnumTagSinglePayload value emptyCases).outcome s =
      (.ok (if t.firstInhabitant ≤ bytes.toNat then bytes.toNat - t.firstInhabitant + 1 else 0),
        s) := by
  have hload := outcome_loadInhabitant hm hlength hbytes
  unfold getEnumTagSinglePayload
  rw [Run.outcome_bind_ok (a := ()) _ (by rw [Run.outcome_requireInitialized, if_pos hlive])]
  dsimp only
  split
  · exact hload
  · rw [Run.outcome_bind_ok _ (Run.readInt_of_holds hm htag (Bytes.length_ofNat _ _)),
      Bytes.toNat_ofNat, Nat.zero_mod, if_pos (Int.le_of_eq Int.natCast_zero)]
    exact hload

/-- What is loaded is the case that the bytes are a code of. -/
theorem outcome_getEnumTagSinglePayload (hvalid : t.layout.Valid) (hm : s.memory.Paged)
    (hlive : s.memory.isInitialized value = true) (hfits : emptyCases < 2 ^ 32)
    (h : t.Encodes s.memory value emptyCases whichCase) :
    (t.getEnumTagSinglePayload value emptyCases).outcome s = (.ok whichCase, s) := by
  -- The bytes are a payload, one of its extra inhabitants, or the low part of a number with a tag
  -- behind it.
  cases h with
  | payload hlength hpayload hbelow htag =>
    rw [outcome_getEnumTagSinglePayload_of_untagged hm hlive hlength hpayload htag,
      if_neg (Int.not_le.mpr hbelow)]
  | inhabitant hpos hle hpayload htag =>
    have hlt := hvalid.extraInhabitants_lt
    have hnumber : ((t.firstInhabitant + whichCase - 1).toNat : Int) =
        t.firstInhabitant + whichCase - 1 := by
      have hfirst := firstInhabitant_pos hvalid
      omega
    have hinside : (t.firstInhabitant + whichCase - 1).toNat < 256 ^ t.layout.size := by
      show _ < Bytes.patterns t.layout.size
      unfold firstInhabitant at hnumber ⊢
      omega
    rw [outcome_getEnumTagSinglePayload_of_untagged hm hlive (Bytes.length_ofNat _ _) hpayload htag,
      Bytes.toNat_ofNat, Nat.mod_eq_of_lt hinside, hnumber, if_pos (by omega)]
    congr 2
    omega
  | @tagged index hnonneg hlt hpayload htag =>
    obtain ⟨htagPos, htagLt⟩ := t.indexTag_spec hnonneg hlt hfits
    obtain ⟨hpayloadPos, hpayloadLt⟩ := t.indexPayload_spec hnonneg (by omega)
    have htagRead := Run.readInt_of_holds hm htag (Bytes.length_ofNat _ _)
    have hpayloadRead := Run.readInt_of_holds hm hpayload (Bytes.length_ofNat _ _)
    rw [Bytes.toNat_ofNat, Nat.mod_eq_of_lt (by unfold Bytes.patterns at htagLt; omega),
      Int.toNat_of_nonneg (by omega)] at htagRead
    rw [Bytes.toNat_ofNat, Nat.mod_eq_of_lt (by unfold Bytes.patterns at hpayloadLt; omega),
      Int.toNat_of_nonneg hpayloadPos] at hpayloadRead
    unfold getEnumTagSinglePayload
    rw [Run.outcome_bind_ok (a := ()) _ (by rw [Run.outcome_requireInitialized, if_pos hlive])]
    dsimp only
    rw [if_neg (by omega), Run.outcome_bind_ok _ htagRead, if_neg (by omega),
      Run.outcome_bind_ok _ hpayloadRead, index_eq]
    rfl

/-! ### Storing -/

theorem Encodes.of_byte?_eq {m m' : Memory} (hview : m'.byte? = m.byte?)
    (h : t.Encodes m value emptyCases whichCase) : t.Encodes m' value emptyCases whichCase := by
  have hholds {a : Int} {bs : Bytes} (hbs : m.Holds a bs) : m'.Holds a bs := fun i hi => by
    rw [hview, hbs i hi]
  cases h with
  | payload hlength hpayload hbelow htag =>
    exact .payload hlength (hholds hpayload) hbelow (hholds htag)
  | inhabitant hpos hle hpayload htag => exact .inhabitant hpos hle (hholds hpayload) (hholds htag)
  | tagged hnonneg hlt hpayload htag => exact .tagged hnonneg hlt (hholds hpayload) (hholds htag)

/-- A tag that says nothing is written, if there is a tag at all. -/
theorem outcome_clearTag (hm : s.memory.Paged) {a : Int} {n : Nat} (hmapped : s.memory.Mapped a n)
    (f : Unit → Run Unit) :
    ∃ s', s.Wrote a (Bytes.ofNat n 0) s' ∧
      (if n ≠ 0 then Run.writeInt a 0 n false >>= f else f ()).outcome s = (f ()).outcome s' := by
  by_cases hn : n = 0
  · subst hn
    exact ⟨s, ⟨.refl hm a 0, Memory.holds_nil⟩, rfl⟩
  · obtain ⟨s', hwrite, hwrote⟩ := Run.writeInt_wrote hm hmapped 0
    rw [Int.zero_emod] at hwrote
    exact ⟨s', hwrote, by rw [if_pos hn, Run.outcome_bind_ok _ hwrite]⟩

/-- Storing the payload case clears the tag, whatever the payload is. -/
theorem outcome_storePayload (hm : s.memory.Paged)
    (hmapped : s.memory.Mapped (value + t.layout.size) (t.tagBytes emptyCases))
    (hcases : 0 ≤ emptyCases) (hlive : s.memory.isInitialized value = true) :
    ∃ s', (t.storeEnumTagSinglePayload value 0 emptyCases).outcome s = (.ok (), s') ∧
      s.Wrote (value + t.layout.size) (Bytes.ofNat (t.tagBytes emptyCases) 0) s' := by
  obtain ⟨s', hwrote, hout⟩ := outcome_clearTag hm hmapped fun _ => pure ()
  refine ⟨s', ?_, hwrote⟩
  unfold storeEnumTagSinglePayload
  dsimp only
  rw [if_neg (Int.not_lt.mpr hcases), if_pos rfl,
    Run.outcome_bind_ok (a := ()) _ (by rw [Run.outcome_requireInitialized, if_pos hlive]),
    if_pos (Int.natCast_nonneg _)]
  exact hout

/-- Storing the payload case leaves the payload as it is. -/
theorem store_payload (hm : s.memory.Paged)
    (hmapped : s.memory.Mapped (value + t.layout.size) (t.tagBytes emptyCases))
    (hcases : 0 ≤ emptyCases)
    (hlive : s.memory.isInitialized value = true) {bytes : Bytes}
    (hlength : bytes.length = t.layout.size)
    (hpayload : s.memory.Holds value bytes) (hbelow : (bytes.toNat : Int) < t.firstInhabitant) :
    ∃ s', (t.storeEnumTagSinglePayload value 0 emptyCases).outcome s = (.ok (), s') ∧
      s.Confined (value + t.layout.size) (t.tagBytes emptyCases) s' ∧
      t.Encodes s'.memory value emptyCases 0 := by
  obtain ⟨s', hout, hwrote⟩ := outcome_storePayload hm hmapped hcases hlive
  have hconfined := hwrote.confined (Bytes.length_ofNat _ _)
  have hkept := hconfined.keeps hpayload (.inr (Int.le_of_eq (by rw [hlength])))
  exact ⟨s', hout, hconfined, .payload hlength hkept hbelow hwrote.holds⟩

/-- A case that takes no tag clears the tag and is written as its payload, whatever number that
is. -/
theorem outcome_storeInhabitant (hm : s.memory.Paged)
    (hmapped : s.memory.Mapped value (t.layout.size + t.tagBytes emptyCases)) (hne : whichCase ≠ 0)
    (hcase : whichCase ≤ emptyCases) (hle : whichCase ≤ t.layout.extraInhabitants) :
    ∃ s', (t.storeEnumTagSinglePayload value whichCase emptyCases).outcome s =
        (.ok (), { s' with memory := s'.memory.markInitialized value }) ∧
      s.Confined value (t.layout.size + t.tagBytes emptyCases) s' ∧
      s'.memory.Holds value
        (Bytes.ofNat t.layout.size
          ((t.firstInhabitant + whichCase - 1) % (256 ^ t.layout.size : Nat)).toNat) ∧
      s'.memory.Holds (value + t.layout.size) (Bytes.ofNat (t.tagBytes emptyCases) 0) := by
  obtain ⟨s₁, htag, hout⟩ :=
    outcome_clearTag (a := value + t.layout.size) (n := t.tagBytes emptyCases) hm
      (hmapped.part (by omega) (by omega)) fun _ => do
    Run.writeInt value (t.firstInhabitant + whichCase - 1) t.layout.size false
    Run.markInitialized value
  have htagConfined := htag.confined (Bytes.length_ofNat _ _)
  obtain ⟨s', hwrite, hpayload⟩ := Run.writeInt_wrote htag.paged
    (htag.mapped hm (hmapped.part (k := t.layout.size) (Int.le_refl value) (by omega)))
    (t.firstInhabitant + whichCase - 1)
  have hpayloadConfined := hpayload.confined (Bytes.length_ofNat _ _)
  refine ⟨s', ?_, (htagConfined.mono (by omega) (by omega)).trans
    (hpayloadConfined.mono (by omega) (by omega)),
    hpayload.holds, hpayloadConfined.keeps htag.holds (.inl (Int.le_refl _))⟩
  rw [Run.outcome_bind_ok _ hwrite] at hout
  unfold storeEnumTagSinglePayload
  dsimp only
  rw [if_neg (Int.not_lt.mpr hcase), if_neg hne, if_pos hle, if_pos hne, if_pos hne]
  exact hout

/-- Storing one of the first cases writes an extra inhabitant. -/
theorem store_inhabitant (hm : s.memory.Paged)
    (hmapped : s.memory.Mapped value (t.layout.size + t.tagBytes emptyCases))
    (hvalid : t.layout.Valid)
    (hcase : 0 < whichCase ∧ whichCase ≤ emptyCases) (hle : whichCase ≤ t.layout.extraInhabitants) :
    ∃ s', (t.storeEnumTagSinglePayload value whichCase emptyCases).outcome s =
        (.ok (), { s' with memory := s'.memory.markInitialized value }) ∧
      s.Confined value (t.layout.size + t.tagBytes emptyCases) s' ∧
        t.Encodes s'.memory value emptyCases whichCase := by
  have hnumber : (t.firstInhabitant + whichCase - 1) % (256 ^ t.layout.size : Nat) =
      t.firstInhabitant + whichCase - 1 := by
    have hfirst := firstInhabitant_pos hvalid
    refine Int.emod_eq_of_lt (by omega) ?_
    show _ < (Bytes.patterns t.layout.size : Int)
    unfold firstInhabitant
    omega
  obtain ⟨s', hout, hconfined, hpayload, htag⟩ :=
    outcome_storeInhabitant hm hmapped (Int.ne_of_gt hcase.1) hcase.2 hle
  rw [hnumber] at hpayload
  exact ⟨s', hout, hconfined, .inhabitant hcase.1 hle hpayload htag⟩

/-- A case with a tag is written into the low bytes of the payload and into the tag. -/
theorem outcome_storeTagged (hm : s.memory.Paged) {n : Nat}
    (hmapped : s.memory.Mapped value (t.layout.size + n)) (index : Int) :
    ∃ s', (t.storeTagged value index n).outcome s = (.ok (), s') ∧
      s.Confined value (t.layout.size + n) s' ∧
      s'.memory.Holds value
      (Bytes.ofNat t.caseBytes (t.indexPayload index % (256 ^ t.caseBytes : Nat)).toNat) ∧
      s'.memory.Holds (value + t.layout.size)
      (Bytes.ofNat n (t.indexTag index % (256 ^ n : Nat)).toNat) := by
  have hpayload : s.memory.Mapped value t.layout.size := hmapped.part (Int.le_refl value) (by omega)
  have htag : s.memory.Mapped (value + t.layout.size) n := hmapped.part (by omega) (by omega)
  have hlow : t.caseBytes ≤ t.layout.size := Nat.min_le_left _ _
  unfold storeTagged
  dsimp only
  -- A payload without bytes is not touched.
  by_cases hsize : t.layout.size = 0
  · obtain ⟨s', hwrite, hwrote⟩ := Run.writeInt_wrote hm htag (t.indexTag index)
    have hconfined := hwrote.confined (Bytes.length_ofNat _ _)
    have hnothing : t.caseBytes = 0 := by omega
    rw [if_neg (not_not_intro hsize), hnothing]
    exact ⟨s', hwrite, hconfined.mono (by omega) (by omega), Memory.holds_nil, hwrote.holds⟩
  · obtain ⟨s₁, hfill, hfilled⟩ := Run.fill_wrote hm hpayload 0
    change (Run.fill value t.layout.size 0).outcome s = (.ok (), s₁) at hfill
    obtain ⟨s₂, hlowWrite, hlowWrote⟩ := Run.writeInt_wrote hfilled.paged
      ((hfilled.mapped hm hpayload).part (Int.le_refl value) (k := t.caseBytes) (by omega))
      (t.indexPayload index)
    obtain ⟨s', hwrite, hwrote⟩ := Run.writeInt_wrote hlowWrote.paged
      (hlowWrote.mapped hfilled.paged (hfilled.mapped hm htag)) (t.indexTag index)
    have hfilled := hfilled.confined List.length_replicate
    have hlowConfined := hlowWrote.confined (Bytes.length_ofNat _ _)
    have hconfined := hwrote.confined (Bytes.length_ofNat _ _)
    rw [if_pos hsize, Run.outcome_bind_ok _ hfill]
    refine ⟨s', (Run.outcome_bind_ok _ hlowWrite).trans hwrite, ?_,
      hconfined.keeps hlowWrote.holds (.inr (by rw [Bytes.length_ofNat]; omega)), hwrote.holds⟩
    exact ((hfilled.mono (Int.le_refl value) (by omega)).trans
      (hlowConfined.mono (Int.le_refl value) (by omega))).trans
      (hconfined.mono (by omega) (by omega))

/-- Storing one of the later cases writes its tag. -/
theorem store_tagged (hm : s.memory.Paged)
    (hmapped : s.memory.Mapped value (t.layout.size + t.tagBytes emptyCases))
    (hfits : emptyCases < 2 ^ 32)
    (hmore : t.layout.extraInhabitants < whichCase) (hle : whichCase ≤ emptyCases) :
    ∃ s', (t.storeEnumTagSinglePayload value whichCase emptyCases).outcome s =
        (.ok (), { s' with memory := s'.memory.markInitialized value }) ∧
      s.Confined value (t.layout.size + t.tagBytes emptyCases) s' ∧
        t.Encodes s'.memory value emptyCases whichCase := by
  have hne : whichCase ≠ 0 := by omega
  have hnonneg : 0 ≤ whichCase - 1 - t.layout.extraInhabitants := by omega
  have hlt : whichCase - 1 - t.layout.extraInhabitants <
    emptyCases - t.layout.extraInhabitants := by omega
  obtain ⟨htagPos, htagLt⟩ := t.indexTag_spec hnonneg hlt hfits
  obtain ⟨hpayloadPos, hpayloadLt⟩ := t.indexPayload_spec hnonneg (by omega)
  obtain ⟨s', hout, hconfined, hpayload, htag⟩ :=
    outcome_storeTagged hm hmapped (whichCase - 1 - t.layout.extraInhabitants)
  have hpayloadFits : t.indexPayload (whichCase - 1 - t.layout.extraInhabitants) %
      (256 ^ t.caseBytes : Nat) = _ :=
    Int.emod_eq_of_lt hpayloadPos hpayloadLt
  have htagFits : t.indexTag (whichCase - 1 - t.layout.extraInhabitants) %
      (256 ^ t.tagBytes emptyCases : Nat) = _ :=
    Int.emod_eq_of_lt (by omega) htagLt
  -- Both parts of the number fit, so that nothing is cut off when they are stored.
  rw [hpayloadFits] at hpayload
  rw [htagFits] at htag
  refine ⟨s', ?_, hconfined, ?_⟩
  · unfold storeEnumTagSinglePayload
    dsimp only
    rw [if_neg (Int.not_lt.mpr hle), if_neg hne, if_neg (Int.not_le.mpr hmore),
      Run.outcome_bind_ok _ hout, if_pos hne]
    rfl
  · have hcode := Encodes.tagged hnonneg hlt hpayload htag
    rwa [show whichCase - 1 - t.layout.extraInhabitants + t.layout.extraInhabitants + 1 =
      whichCase by omega] at hcode

/-! ### Both -/

/-- A case that is stored is loaded again, with its bytes mapped and, for the payload, with a value
there that is no extra inhabitant. Storing changes no byte outside of the enum, and storing the
payload case none of the payload. -/
theorem singlePayloadCodec (hvalid : t.layout.Valid) (hm : s.memory.Paged)
    (hcase : 0 ≤ whichCase ∧ whichCase ≤ emptyCases) (hfits : emptyCases < 2 ^ 32)
    (hmapped : s.memory.Mapped value (t.singlePayloadEnumSize emptyCases).toNat)
    (hpayload : whichCase = 0 → s.memory.isInitialized value = true ∧ ∃ bytes : Bytes,
      bytes.length = t.layout.size ∧ s.memory.Holds value bytes ∧
        (bytes.toNat : Int) < 2 ^ (8 * t.layout.size) - t.layout.extraInhabitants) :
    ∃ s', (t.storeEnumTagSinglePayload value whichCase emptyCases).outcome s = (.ok (), s') ∧
      (t.getEnumTagSinglePayload value emptyCases).outcome s' = (.ok whichCase, s') ∧
      (∀ x, ¬(value ≤ x ∧ x < value + t.singlePayloadEnumSize emptyCases) →
        s'.memory.byte? x = s.memory.byte? x) ∧
      (whichCase = 0 → ∀ x, value ≤ x → x < value + t.layout.size →
        s'.memory.byte? x = s.memory.byte? x) := by
  have hsize : (t.singlePayloadEnumSize emptyCases).toNat =
      t.layout.size + t.tagBytes emptyCases := by
    unfold singlePayloadEnumSize
    omega
  have hsize' : t.singlePayloadEnumSize emptyCases =
      (t.layout.size + t.tagBytes emptyCases : Nat) :=
    (Int.natCast_add _ _).symm
  rw [hsize] at hmapped
  rw [hsize']
  rcases Int.le_iff_lt_or_eq.mp hcase.1 with hpos | rfl
  · -- The case is not the payload, and its mark is set behind its bytes.
    obtain ⟨s', hout, hconfined, hcode⟩ :
      ∃ s', (t.storeEnumTagSinglePayload value whichCase emptyCases).outcome s =
          (.ok (), { s' with memory := s'.memory.markInitialized value }) ∧
        s.Confined value (t.layout.size + t.tagBytes emptyCases) s' ∧
          t.Encodes s'.memory value emptyCases whichCase := by
      by_cases hle : whichCase ≤ t.layout.extraInhabitants
      · exact store_inhabitant hm hmapped hvalid ⟨hpos, hcase.2⟩ hle
      · exact store_tagged hm hmapped hfits (Int.not_le.mp hle) hcase.2
    have hlive : (s'.memory.markInitialized value).isInitialized value = true :=
      Std.TreeSet.contains_insert_self
    refine ⟨_, hout, ?_, hconfined.outside, fun hzero => absurd hzero (Int.ne_of_gt hpos)⟩
    exact outcome_getEnumTagSinglePayload hvalid hconfined.paged hlive hfits
      (Encodes.of_byte?_eq (show (s'.memory.markInitialized value).byte? = s'.memory.byte? from rfl)
        hcode)
  · obtain ⟨hlive, bytes, hlength, hbytes, hbelow⟩ := hpayload rfl
    rw [← Bytes.natCast_patterns] at hbelow
    obtain ⟨s', hout, hconfined, hcode⟩ :=
      store_payload hm (hmapped.part (by omega) (by omega)) hcase.2 hlive hlength hbytes hbelow
    refine ⟨s', hout, ?_, fun x hx => hconfined.outside x (by omega),
      fun _ x _ hx => hconfined.outside x (by omega)⟩
    exact outcome_getEnumTagSinglePayload hvalid hconfined.paged
      ((hconfined.isInitialized value).trans hlive) hfits hcode

/-- A table of values of two bytes, three of whose patterns are extra inhabitants. -/
def shortTable : WitnessTable :=
  { layout :=
      { size := 2, alignment := 1, extraInhabitants := 3, isPod := true, isBitwiseTakable := true,
        caseCount := none, hasSpareBits := false, pointerSize := 8 }
    name := opaqueName
    bufferWords := 3 }

/-- Pages of four bytes, and a value that begins on one of them and ends, with its tag, on the
next. -/
def shortSession : Session := .ofMemory (((Memory.empty 2 8).mapRange 4 8).markInitialized 5)

/-- The payload, and the last of so many empty cases that they take tags of two bytes. -/
theorem singlePayloadCodec_shortTable :
    (∃ s', (shortTable.storeEnumTagSinglePayload 5 0 20000000).outcome shortSession = (.ok (), s') ∧
      (shortTable.getEnumTagSinglePayload 5 20000000).outcome s' = (.ok 0, s')) ∧
    ∃ s', (shortTable.storeEnumTagSinglePayload 5 20000000 20000000).outcome shortSession =
      (.ok (), s') ∧
      (shortTable.getEnumTagSinglePayload 5 20000000).outcome s' = (.ok 20000000, s') := by
  have hvalid : shortTable.layout.Valid := by decide
  have hm : shortSession.memory.Paged :=
    (Memory.paged_of_create (rfl : Memory.create 4 8 = .ok (.empty 2 8))).mapRange 4 8
  have hmapped : shortSession.memory.Mapped 5
      (shortTable.singlePayloadEnumSize 20000000).toNat := by
    unfold Memory.Mapped
    decide +kernel
  have hpayload : shortSession.memory.isInitialized 5 = true ∧ ∃ bytes : Bytes,
      bytes.length = shortTable.layout.size ∧ shortSession.memory.Holds 5 bytes ∧
        (bytes.toNat : Int) < 2 ^ (8 * shortTable.layout.size) -
        shortTable.layout.extraInhabitants :=
    ⟨by decide +kernel, [0, 0], rfl, by unfold Memory.Holds; decide +kernel, by decide⟩
  obtain ⟨s₀, hstore₀, hload₀, -⟩ :=
    singlePayloadCodec hvalid hm (show (0 : Int) ≤ 0 ∧ (0 : Int) ≤ 20000000 by decide)
      (by decide) hmapped fun _ => hpayload
  obtain ⟨s₁, hstore₁, hload₁, -⟩ :=
    singlePayloadCodec hvalid hm (show (0 : Int) ≤ 20000000 ∧ (20000000 : Int) ≤ 20000000 by decide)
      (by decide) hmapped fun h => absurd h (by decide)
  exact ⟨⟨s₀, hstore₀, hload₀⟩, ⟨s₁, hstore₁, hload₁⟩⟩

end WitnessTable

end SwiftABI
