/-
  Which scalars the decoder of identifiers yields, and which of these can be encoded again.

  A decoded scalar is at most `0x10FFFF`, and it is none of the first surrogates, since those mean
  ASCII characters and are restored. Every list of such scalars is decoded from its encoded form
  (`exists_decode_iff`). The encoder refuses the other surrogates, which the decoder lets pass; so
  what was decoded can be encoded again just if all of it are scalars of characters, and then it is
  found again (`encode_of_decode`).
-/
import SwiftABI.Proofs.Text.Punycode

namespace SwiftABI.Punycode

/-- Is this a scalar that the decoder yields? -/
def IsDecoded (c : Nat) : Prop := c ≤ 0x10FFFF ∧ (c < displacement ∨ displacement + 0x80 ≤ c)

variable {t : Text} {c : Nat} {scalars : List Nat}

/-! ### What the decoder yields -/

/-- No scalar is restored to one of the first surrogates. -/
theorem restore_lt_or_le (c : Nat) :
    restore c < displacement ∨ displacement + 0x80 ≤ restore c := by
  unfold restore displacement
  split <;> rename_i hc <;>
    rw [Bool.and_eq_true, decide_eq_true_eq, decide_eq_true_eq] at hc <;> omega

theorem IsDecoded.restore_eq (h : IsDecoded c) : restore c = c := by
  obtain ⟨-, hc⟩ := h
  unfold restore
  exact if_neg (by rw [Bool.and_eq_true, decide_eq_true_eq, decide_eq_true_eq]; omega)

/-- The decoder restores every scalar, and ends with a check of their size. -/
theorem isDecoded_of_decode (h : decode t = some scalars) : ∀ c ∈ scalars, IsDecoded c := by
  unfold decode at h
  simp only [] at h
  split at h
  · cases h
  · obtain ⟨d, -, h⟩ := Option.bind_eq_some_iff.mp h
    split at h
    · cases h
    · split at h
      · -- The scalars have passed the check, and each of them has been restored before.
        rename_i hrange
        cases h
        intro c hc
        have hle : c ≤ 0x10FFFF := of_decide_eq_true (List.all_eq_true.mp hrange c hc)
        obtain ⟨n, -, rfl⟩ := List.mem_map.mp hc
        exact ⟨hle, restore_lt_or_le n⟩
      · cases h

/-- Nothing else limits what is decoded. -/
theorem exists_decode_iff : (∃ t, decode t = some scalars) ↔ ∀ c ∈ scalars, IsDecoded c := by
  refine ⟨fun ⟨_, h⟩ => isDecoded_of_decode h, fun h => ⟨encodeScalars scalars, ?_⟩⟩
  have hrestore : scalars.map restore = scalars :=
    (List.map_congr_left fun c hc => (h c hc).restore_eq).trans (List.map_id _)
  rw [decode_encodeScalars scalars fun c hc => (h c hc).restore_eq.symm ▸ (h c hc).1, hrestore]

/-! ### What can be encoded again -/

/-- Of the scalars that are decoded, the surrogates are the ones that are refused. -/
theorem IsDecoded.isEncodable_displace_iff (h : IsDecoded c) :
    isEncodable (displace c) = true ↔ c.isValidChar := by
  obtain ⟨hle, hc⟩ := h
  refine ⟨fun hencodable => ?_, isEncodable_displace⟩
  rw [isEncodable_iff] at hencodable
  unfold displace displacement at *
  unfold Nat.isValidChar
  -- A displaced character is ASCII, and everything else is encoded as it is.
  split at hencodable
  · rename_i hascii
    rw [Bool.and_eq_true, decide_eq_true_eq] at hascii
    omega
  · omega

/-- What was decoded holds no first surrogate. It can be encoded just if it holds no other surrogate
either, and its encoded form is decoded to it, whatever text it was decoded from. -/
theorem encode_of_decode (h : decode t = some scalars) :
    (∀ c ∈ scalars, IsDecoded c) ∧
      ((∃ e, encode scalars = some e) ↔ ∀ c ∈ scalars, c.isValidChar) ∧
      ∀ e, encode scalars = some e → decode e = some scalars := by
  have hdecoded : ∀ c ∈ scalars, IsDecoded c := isDecoded_of_decode h
  have hvalid : ∀ {e}, encode scalars = some e → ∀ c ∈ scalars, c.isValidChar := fun he c hc =>
    (hdecoded c hc).isEncodable_displace_iff.mp ((encode_eq_some_iff.mp he).1 c hc)
  exact ⟨hdecoded, ⟨fun ⟨_, he⟩ => hvalid he, exists_encode⟩,
    fun e he => decode_encode (hvalid he) he⟩

/-- The surrogate `0xD900` between two letters is decoded, and cannot be encoded again. -/
theorem encode_of_decode_surrogate :
    decode "ab_xzJk".text = some [0x61, 0xD900, 0x62] ∧ encode [0x61, 0xD900, 0x62] = none ∧
      ¬∀ c ∈ [0x61, 0xD900, 0x62], c.isValidChar := by
  have hdecode : decode "ab_xzJk".text = some [0x61, 0xD900, 0x62] := by decide +kernel
  have hencode : encode [0x61, 0xD900, 0x62] = none := by decide +kernel
  refine ⟨hdecode, hencode, fun hvalid => ?_⟩
  obtain ⟨e, he⟩ := (encode_of_decode hdecode).2.1.mpr hvalid
  exact absurd (he.symm.trans hencode) (by simp)

end SwiftABI.Punycode
