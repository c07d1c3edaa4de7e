/-
  Which tags are refused.

  The witnesses that make an enum one of its cases look at one end of the range of tags only: a tag
  that is too large is refused, with nothing changed, and no other one is
  (`WitnessTable.refuses_destructiveInjectEnumTag_iff`,
  `WitnessTable.refuses_storeEnumTagSinglePayload_iff`). So a negative tag is stored, without its
  high bits, and is read back as some other case (`WitnessTable.boundsTags`).
-/
import SwiftABI.Proofs.Witness.Atomicity
import SwiftABI.Proofs.Witness.EnumTags

namespace SwiftABI

namespace Refuses

variable {α : Type} {x : Run α} {s : Session} {c : Prop} [Decidable c] {operation what : String}
  {address : Int}

/-- A bound that is looked at first. -/
theorem bound_iff {breach : Breach} :
    Refuses (if c then (Run.violate operation breach : Run Unit) >>= fun _ => x else x) s ↔ c ∨
      Refuses x s := by
  by_cases hc : c
  · rw [if_pos hc]
    exact ⟨fun _ => .inl hc, fun _ => (violate operation breach s).bind⟩
  · rw [if_neg hc]
    exact ⟨.inr, fun h => h.resolve_left hc⟩

/-- A check that is made in some cases only. -/
theorem guarded_iff :
    Refuses (if c then Run.requireInitialized operation what address >>= fun _ => x else x) s ↔
      c ∧ s.memory.isInitialized address = false ∨ Refuses x s := by
  by_cases hc : c
  · rw [if_pos hc, requireInitialized_iff, and_iff_right hc]
  · rw [if_neg hc]
    exact ⟨.inr, fun h => h.resolve_left fun hboth => hc hboth.1⟩

end Refuses

namespace WitnessTable

variable {t : WitnessTable} {s : Session} {value emptyCases whichCase tag : Int} {count : Nat}

/-! ### What is refused -/

theorem refuses_destructiveInjectEnumTag_iff (hcount : t.layout.caseCount = some count) :
    Refuses (t.destructiveInjectEnumTag value tag) s ↔ count ≤ tag := by
  have hlawful := (Run.BreachesOnly.law fun _ _ => False).injectTag t value tag
  unfold destructiveInjectEnumTag
  rw [hcount]
  dsimp only
  rw [Refuses.bound_iff]
  exact ⟨fun h => h.resolve_right (hlawful.not_refuses s), .inl⟩

theorem refuses_storeEnumTagSinglePayload_iff :
    Refuses (t.storeEnumTagSinglePayload value whichCase emptyCases) s ↔
      emptyCases < whichCase ∨ whichCase = 0 ∧ s.memory.isInitialized value = false := by
  unfold storeEnumTagSinglePayload
  dsimp only
  rw [Refuses.bound_iff, Refuses.guarded_iff]
  -- What is left breaches no contract.
  have hlawful := (Run.BreachesOnly.law fun _ _ => False).storeCase t value whichCase
    (t.tagBytes emptyCases)
  exact or_congr_right ⟨fun h => h.resolve_right (hlawful.not_refuses s), .inl⟩

/-! ### What is stored instead -/

/-- What a tag is read back as, if it is stored without being looked at. -/
theorem getEnumTag_of_inject (hm : s.memory.Paged) (hcount : t.layout.caseCount = some count)
    (htag : tag < count) (hmapped : s.memory.Mapped value t.layout.size) :
    ∃ s', (t.destructiveInjectEnumTag value tag).outcome s = (.ok (), s') ∧
      s'.memory.isInitialized value = true ∧
      (t.getEnumTag value).outcome s' = (.ok (tag % 2 ^ (8 * t.layout.size)), s') := by
  obtain ⟨s', hinject, hwrote⟩ := outcome_destructiveInjectEnumTag hm hcount htag hmapped
  have hlive : (s'.memory.markInitialized value).isInitialized value = true :=
    Std.TreeSet.contains_insert_self
  have hget := outcome_getEnumTag (t := t)
    (s := { s' with memory := s'.memory.markInitialized value })
    hwrote.paged hlive (Bytes.length_ofNat _ _) hwrote.holds
  rw [Bytes.toNat_ofNat_emod, ← Bytes.patterns, Bytes.natCast_patterns] at hget
  exact ⟨_, hinject, hlive, hget⟩

/-- The number that the payload of an extra inhabitant is, without its high bits. -/
def inhabitantPayload (t : WitnessTable) (whichCase : Int) : Int :=
  (2 ^ (8 * t.layout.size) - t.layout.extraInhabitants + whichCase - 1) % 2 ^ (8 * t.layout.size)

/-- A case below zero is stored as if it were an extra inhabitant, and what is read back is no
negative case. -/
theorem getEnumTagSinglePayload_of_negative (hm : s.memory.Paged) (hneg : whichCase < 0)
    (hle : whichCase ≤ emptyCases)
    (hmapped : s.memory.Mapped value (t.layout.size + t.tagBytes emptyCases)) :
    ∃ s', (t.storeEnumTagSinglePayload value whichCase emptyCases).outcome s = (.ok (), s') ∧
      s'.memory.isInitialized value = true ∧
      (t.getEnumTagSinglePayload value emptyCases).outcome s' =
        (.ok (max 0
          (t.inhabitantPayload whichCase + t.layout.extraInhabitants + 1 - 2 ^
            (8 * t.layout.size))), s') := by
  obtain ⟨s', hout, hconfined, hpayload, htag⟩ :=
    outcome_storeInhabitant hm hmapped (Int.ne_of_lt hneg) hle (by omega)
  have hlive : (s'.memory.markInitialized value).isInitialized value = true :=
    Std.TreeSet.contains_insert_self
  refine ⟨{ s' with memory := s'.memory.markInitialized value }, hout, hlive, Eq.trans
    (outcome_getEnumTagSinglePayload_of_untagged (t := t)
      (s := { s' with memory := s'.memory.markInitialized value })
      hconfined.paged hlive (Bytes.length_ofNat _ _) hpayload htag) ?_⟩
  have hpatterns := Bytes.natCast_patterns t.layout.size
  rw [Bytes.toNat_ofNat_emod, ← Bytes.patterns, hpatterns]
  unfold firstInhabitant inhabitantPayload
  rw [hpatterns]
  congr 2
  split <;> omega

/-! ### Both ends -/

/-- What a table does about tags that its enum does not have. -/
structure BoundsTags (t : WitnessTable) (s : Session) (value : Int) : Prop where
  injectRefused (count : Nat) (tag : Int) (hcount : t.layout.caseCount = some count) :
    Refuses (t.destructiveInjectEnumTag value tag) s ↔ count ≤ tag
  /-- Every other tag is stored, and a negative one becomes another one by that. -/
  injected (count : Nat) (tag : Int) (hcount : t.layout.caseCount = some count) (htag : tag < count)
    (hmapped : s.memory.Mapped value t.layout.size) :
    ∃ s', (t.destructiveInjectEnumTag value tag).outcome s = (.ok (), s') ∧
      s'.memory.isInitialized value = true ∧
      (t.getEnumTag value).outcome s' = (.ok (tag % 2 ^ (8 * t.layout.size)), s') ∧
      (tag % 2 ^ (8 * t.layout.size) = tag ↔ 0 ≤ tag)
  storeRefused (whichCase emptyCases : Int) :
    Refuses (t.storeEnumTagSinglePayload value whichCase emptyCases) s ↔
      emptyCases < whichCase ∨ whichCase = 0 ∧ s.memory.isInitialized value = false
  /-- Every negative case that is not too large is stored, and it becomes the payload or an extra
  inhabitant. -/
  storedNegative (whichCase emptyCases : Int) (hneg : whichCase < 0) (hle : whichCase ≤ emptyCases)
    (hmapped : s.memory.Mapped value (t.singlePayloadEnumSize emptyCases).toNat) :
    ∃ s', (t.storeEnumTagSinglePayload value whichCase emptyCases).outcome s = (.ok (), s') ∧
      s'.memory.isInitialized value = true ∧
      (t.getEnumTagSinglePayload value emptyCases).outcome s' =
        (.ok (max 0
          (t.inhabitantPayload whichCase + t.layout.extraInhabitants + 1 - 2 ^
            (8 * t.layout.size))), s')

/-- Tags are bounded from above and from above only. -/
theorem boundsTags (hvalid : t.layout.Valid) (hm : s.memory.Paged) (value : Int) :
    t.BoundsTags s value := by
  constructor
  case injectRefused =>
    intro count tag hcount
    exact refuses_destructiveInjectEnumTag_iff hcount
  case injected =>
    intro count tag hcount htag hmapped
    obtain ⟨s', hinject, hlive, hget⟩ := getEnumTag_of_inject hm hcount htag hmapped
    have hle := hvalid.caseCount_le hcount
    have hpatterns := Bytes.natCast_patterns t.layout.size
    have hpos : (0 : Int) < Bytes.patterns t.layout.size :=
      Int.natCast_pos.mpr (Nat.pow_pos (by decide))
    rw [hpatterns] at hpos
    refine ⟨s', hinject, hlive, hget, fun hsame => hsame ▸ Int.emod_nonneg tag (Int.ne_of_gt hpos),
      fun hnonneg => ?_⟩
    exact Int.emod_eq_of_lt hnonneg (by omega)
  case storeRefused =>
    intro whichCase emptyCases
    exact refuses_storeEnumTagSinglePayload_iff
  case storedNegative =>
    intro whichCase emptyCases hneg hle hmapped
    have hsize : (t.singlePayloadEnumSize emptyCases).toNat =
        t.layout.size + t.tagBytes emptyCases := by
      unfold singlePayloadEnumSize
      omega
    rw [hsize] at hmapped
    exact getEnumTagSinglePayload_of_negative hm hneg hle hmapped

/-- The tag below the first one is stored as the last one, and the case below the payload as the
payload. -/
theorem boundsTags_fullByteTable :
    fullByteTable.layout.Valid ∧ shortSession.memory.Paged ∧
      ¬Refuses (fullByteTable.destructiveInjectEnumTag 5 (-1)) shortSession ∧
      (∃ s', (fullByteTable.destructiveInjectEnumTag 5 (-1)).outcome shortSession = (.ok (), s') ∧
        (fullByteTable.getEnumTag 5).outcome s' = (.ok 255, s')) ∧
      ¬Refuses (fullByteTable.storeEnumTagSinglePayload 5 (-1) 1) shortSession ∧
      ∃ s', (fullByteTable.storeEnumTagSinglePayload 5 (-1) 1).outcome shortSession = (.ok (), s') ∧
        (fullByteTable.getEnumTagSinglePayload 5 1).outcome s' = (.ok 0, s') := by
  have hvalid : fullByteTable.layout.Valid := by decide
  have hm : shortSession.memory.Paged :=
    (Memory.paged_of_create (rfl : Memory.create 4 8 = .ok (.empty 2 8))).mapRange 4 8
  have hmapped : shortSession.memory.Mapped 5 (fullByteTable.singlePayloadEnumSize 1).toNat := by
    unfold Memory.Mapped
    decide +kernel
  have hbounds := boundsTags hvalid hm 5
  obtain ⟨s₁, hinject, -, hget, -⟩ := hbounds.injected 256 (-1) rfl (by decide) hmapped
  obtain ⟨s₂, hstore, -, hload⟩ := hbounds.storedNegative (-1) 1 (by decide) (by decide) hmapped
  refine ⟨hvalid, hm, ?_, ⟨s₁, hinject, hget⟩, ?_, s₂, hstore, hload⟩
  · rw [hbounds.injectRefused 256 (-1) rfl]
    decide
  · rw [hbounds.storeRefused]
    decide

end WitnessTable

end SwiftABI
