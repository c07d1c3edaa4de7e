/-
  The tags of an enum and its extra inhabitants.

  The value of an enum whose cases carry nothing is its tag. Tags are counted from zero on, and
  extra inhabitants are the highest bit patterns. A layout is valid if the cases fit its size and
  the extra inhabitants do: that there is room for both at once is not asked for. So a tag that is
  stored and read again is the same tag, but as a payload it is read as one of the extra inhabitants
  if they begin below it (`WitnessTable.tagIsPayload_iff`). In the layouts that are made from the
  number of the cases they do not (`TypeLayout.count_add_le_of_noPayloadEnum`).
-/
import SwiftABI.Proofs.Witness.SinglePayload

namespace SwiftABI

namespace TypeLayout

variable {l : TypeLayout} {count : Nat}

/-- An enum that is laid out for its cases has no more extra inhabitants than it has bit patterns
left. -/
theorem count_add_le_of_noPayloadEnum {pointerSize : Int}
    (h : noPayloadEnum pointerSize count = .ok l) :
    count + l.extraInhabitants ≤ Bytes.patterns l.size := by
  have hdraft := LayoutDraft.draft_of_build h
  have hsize : l.size = tagSize count := Int.ofNat_inj.mp (congrArg LayoutDraft.size hdraft)
  have hinhabitants : (l.extraInhabitants : Int) =
      if tagSize count = 0 then 0
      else min ((Bytes.patterns (tagSize count) : Int) - count) maxExtraInhabitants :=
    congrArg LayoutDraft.extraInhabitants hdraft
  rw [hsize]
  split at hinhabitants
  · rename_i hnothing
    -- There is one case at most, and a value of no bytes has one bit pattern.
    have hfew : count ≤ 1 := by
      unfold tagSize at hnothing
      split at hnothing
      · omega
      · split at hnothing
        · cases hnothing
        · split at hnothing <;> cases hnothing
    rw [hnothing]
    show _ ≤ 1
    omega
  · omega

end TypeLayout

namespace WitnessTable

variable {t : WitnessTable} {s : Session} {value emptyCases tag : Int} {count : Nat}

/-- A tag that is in range is written over the value. -/
theorem outcome_destructiveInjectEnumTag (hm : s.memory.Paged)
    (hcount : t.layout.caseCount = some count)
    (htag : tag < count) (hmapped : s.memory.Mapped value t.layout.size) :
    ∃ s', (t.destructiveInjectEnumTag value tag).outcome s =
        (.ok (), { s' with memory := s'.memory.markInitialized value }) ∧
      s.Wrote value (Bytes.ofNat t.layout.size (tag % (256 ^ t.layout.size : Nat)).toNat) s' := by
  obtain ⟨s', hwrite, hwrote⟩ := Run.writeInt_wrote hm hmapped tag
  refine ⟨s', ?_, hwrote⟩
  unfold destructiveInjectEnumTag
  rw [hcount]
  dsimp only
  rw [if_neg (Int.not_le.mpr htag), Run.outcome_bind_ok _ hwrite]
  rfl

theorem outcome_getEnumTag (hm : s.memory.Paged) (hlive : s.memory.isInitialized value = true)
    {bytes : Bytes} (hlength : bytes.length = t.layout.size) (hbytes : s.memory.Holds value bytes) :
    (t.getEnumTag value).outcome s = (.ok bytes.toNat, s) := by
  unfold getEnumTag
  rw [Run.outcome_bind_ok (a := ()) _ (by rw [Run.outcome_requireInitialized, if_pos hlive])]
  exact Run.readInt_of_holds hm hbytes hlength

/-- A value that was made one of the cases, and then the payload, has the bytes of its tag. -/
theorem outcome_injectStorePayload (hm : s.memory.Paged) (hcount : t.layout.caseCount = some count)
    (htag : tag < count) (hcases : 0 ≤ emptyCases)
    (hmapped : s.memory.Mapped value (t.layout.size + t.tagBytes emptyCases)) :
    ∃ s₁ s₂, (t.destructiveInjectEnumTag value tag).outcome s = (.ok (), s₁) ∧
      (t.storeEnumTagSinglePayload value 0 emptyCases).outcome s₁ = (.ok (), s₂) ∧
      s₂.memory.Paged ∧ s₂.memory.isInitialized value = true ∧
      s₂.memory.Holds value (Bytes.ofNat t.layout.size (tag % (256 ^ t.layout.size : Nat)).toNat) ∧
      s₂.memory.Holds (value + t.layout.size) (Bytes.ofNat (t.tagBytes emptyCases) 0) := by
  obtain ⟨s₁, hinject, hwrote⟩ := outcome_destructiveInjectEnumTag hm hcount htag
    (hmapped.part (Int.le_refl value) (k := t.layout.size) (by omega))
  have hwritten := hwrote.confined (Bytes.length_ofNat _ _)
  -- The value is alive, and so it can become the payload.
  have hlive : (s₁.memory.markInitialized value).isInitialized value = true :=
    Std.TreeSet.contains_insert_self
  have htagMapped : s.memory.Mapped (value + t.layout.size) (t.tagBytes emptyCases) :=
    hmapped.part (by omega) (by omega)
  obtain ⟨s₂, hstore, hcleared⟩ :=
    outcome_storePayload (s := { s₁ with memory := s₁.memory.markInitialized value })
    hwritten.paged (hwritten.mapped hm htagMapped) hcases hlive
  have hconfined := hcleared.confined (Bytes.length_ofNat _ _)
  have hkept := hconfined.keeps hwrote.holds (.inr (Int.le_of_eq (by rw [Bytes.length_ofNat])))
  exact ⟨_, s₂, hinject, hstore, hconfined.paged, (hconfined.isInitialized value).trans hlive,
    hkept, hcleared.holds⟩

/-- The bytes of a tag that fits the value are those of its number. -/
theorem toNat_tag {size : Nat} (hnonneg : 0 ≤ tag) (hlt : tag < Bytes.patterns size) :
    ((Bytes.ofNat size (tag % (256 ^ size : Nat)).toNat).toNat : Int) = tag := by
  unfold Bytes.patterns at hlt
  rw [Int.emod_eq_of_lt hnonneg hlt, Bytes.toNat_ofNat,
    Nat.mod_eq_of_lt ((Int.toNat_lt hnonneg).mpr hlt), Int.toNat_of_nonneg hnonneg]

/-- An enum is made one of its cases, and then the payload of an enum with some empty cases. Its tag
is read again. As a payload, it is read as the payload case exactly if the tag is below the extra
inhabitants, which it is in every layout that is made from the number of cases. -/
theorem tagIsPayload_iff (hvalid : t.layout.Valid) (hm : s.memory.Paged)
    (hcount : t.layout.caseCount = some count)
    (htag : 0 ≤ tag ∧ tag < count) (hcases : 0 ≤ emptyCases)
    (hmapped : s.memory.Mapped value (t.singlePayloadEnumSize emptyCases).toNat) :
    ∃ s₁ s₂ whichCase, (t.destructiveInjectEnumTag value tag).outcome s = (.ok (), s₁) ∧
      (t.storeEnumTagSinglePayload value 0 emptyCases).outcome s₁ = (.ok (), s₂) ∧
      (t.getEnumTag value).outcome s₂ = (.ok tag, s₂) ∧
      (t.getEnumTagSinglePayload value emptyCases).outcome s₂ = (.ok whichCase, s₂) ∧
      whichCase = max 0 (tag + t.layout.extraInhabitants + 1 - 2 ^ (8 * t.layout.size)) ∧
      (whichCase = 0 ↔ tag + t.layout.extraInhabitants < 2 ^ (8 * t.layout.size)) ∧
      (∀ pointerSize, TypeLayout.noPayloadEnum pointerSize count = .ok t.layout →
        whichCase = 0) := by
  have hbytes : (t.singlePayloadEnumSize emptyCases).toNat =
      t.layout.size + t.tagBytes emptyCases := by
    unfold singlePayloadEnumSize
    omega
  have hfits : tag < Bytes.patterns t.layout.size := by
    have hle := hvalid.caseCount_le hcount
    omega
  rw [hbytes] at hmapped
  obtain ⟨s₁, s₂, hinject, hstore, hpaged, hlive, hvalue, hcleared⟩ :=
    outcome_injectStorePayload hm hcount htag.2 hcases hmapped
  have hget := outcome_getEnumTag hpaged hlive (Bytes.length_ofNat _ _) hvalue
  have hload := outcome_getEnumTagSinglePayload_of_untagged hpaged hlive
    (Bytes.length_ofNat _ _) hvalue hcleared
  rw [toNat_tag htag.1 hfits] at hget hload
  have hcase : (if t.firstInhabitant ≤ tag then tag - t.firstInhabitant + 1 else 0) =
      max 0 (tag + t.layout.extraInhabitants + 1 - 2 ^ (8 * t.layout.size)) := by
    unfold firstInhabitant
    rw [Bytes.natCast_patterns]
    split <;> omega
  refine ⟨s₁, s₂, _, hinject, hstore, hget, hload, hcase, ?_, fun pointerSize henum => ?_⟩
  · rw [hcase]
    omega
  · -- The cases leave room for the extra inhabitants.
    have hroom := TypeLayout.count_add_le_of_noPayloadEnum henum
    have hroom' : (count : Int) + t.layout.extraInhabitants ≤ 2 ^ (8 * t.layout.size) := by
      rw [← Bytes.natCast_patterns]
      omega
    rw [hcase]
    omega

/-- An enum that has a case for every byte, and claims one of the bytes as an extra inhabitant. -/
def fullByteTable : WitnessTable :=
  { layout :=
      { size := 1, alignment := 1, extraInhabitants := 1, isPod := true, isBitwiseTakable := true,
        caseCount := some 256, hasSpareBits := false, pointerSize := 8 }
    name := opaqueName
    bufferWords := 3 }

/-- The last case is read as an extra inhabitant, and the one before it as the payload. -/
theorem tagIsPayload_iff_fullByteTable :
    (∃ s₁ s₂, (fullByteTable.destructiveInjectEnumTag 5 255).outcome shortSession = (.ok (), s₁) ∧
      (fullByteTable.storeEnumTagSinglePayload 5 0 1).outcome s₁ = (.ok (), s₂) ∧
      (fullByteTable.getEnumTag 5).outcome s₂ = (.ok 255, s₂) ∧
      (fullByteTable.getEnumTagSinglePayload 5 1).outcome s₂ = (.ok 1, s₂)) ∧
    ∃ s₁ s₂, (fullByteTable.destructiveInjectEnumTag 5 254).outcome shortSession = (.ok (), s₁) ∧
      (fullByteTable.storeEnumTagSinglePayload 5 0 1).outcome s₁ = (.ok (), s₂) ∧
      (fullByteTable.getEnumTag 5).outcome s₂ = (.ok 254, s₂) ∧
      (fullByteTable.getEnumTagSinglePayload 5 1).outcome s₂ = (.ok 0, s₂) := by
  have hvalid : fullByteTable.layout.Valid := by decide
  have hm : shortSession.memory.Paged :=
    (Memory.paged_of_create (rfl : Memory.create 4 8 = .ok (.empty 2 8))).mapRange 4 8
  have hmapped : shortSession.memory.Mapped 5 (fullByteTable.singlePayloadEnumSize 1).toNat := by
    unfold Memory.Mapped
    decide +kernel
  obtain ⟨s₁, s₂, k, hinject, hstore, hget, hload, hcase, -, -⟩ :=
    tagIsPayload_iff hvalid hm rfl (show (0 : Int) ≤ 255 ∧ (255 : Int) < (256 : Nat) by decide)
      (by decide) hmapped
  obtain ⟨s₁', s₂', k', hinject', hstore', hget', hload', hcase', -, -⟩ :=
    tagIsPayload_iff hvalid hm rfl (show (0 : Int) ≤ 254 ∧ (254 : Int) < (256 : Nat) by decide)
      (by decide) hmapped
  rw [show k = 1 from hcase.trans (by decide)] at hload
  rw [show k' = 0 from hcase'.trans (by decide)] at hload'
  exact ⟨⟨s₁, s₂, hinject, hstore, hget, hload⟩, ⟨s₁', s₂', hinject', hstore', hget', hload'⟩⟩

end WitnessTable

end SwiftABI
