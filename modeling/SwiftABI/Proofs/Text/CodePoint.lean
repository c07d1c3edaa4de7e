/-
  Code points and their numbers.

  The numbers of code points are those below `0x110000`, each the number of one (`toNat_ofNat`,
  `ofNat_toNat`), so code points are told apart by their numbers.
-/
import SwiftABI.Text.CodePoint

namespace SwiftABI

namespace CodePoint

theorem toNat_lt (c : CodePoint) : c.toNat < 0x110000 := by
  rcases c with c | i
  · have hvalid : c.toNat.isValidChar := c.valid
    unfold Nat.isValidChar at hvalid
    rw [toNat_char]
    omega
  · rw [toNat_surrogate, firstSurrogate]
    omega

/-- No character has the number of a surrogate. -/
theorem not_surrogate_of_char (c : Char) : ¬(0xD800 ≤ c.toNat ∧ c.toNat < 0xE000) := by
  have hvalid : c.toNat.isValidChar := c.valid
  unfold Nat.isValidChar at hvalid
  omega

theorem ofNat_toNat (c : CodePoint) : ofNat c.toNat = c := by
  unfold ofNat
  rcases c with c | i
  · have hchar := not_surrogate_of_char c
    rw [toNat_char, dif_neg (by unfold firstSurrogate; omega), Char.ofNat_toNat]
  · rw [dif_pos (by rw [toNat_surrogate]; omega)]
    simp

theorem toNat_ofNat {n : Nat} (h : n < 0x110000) : (ofNat n).toNat = n := by
  unfold ofNat
  split
  · rw [toNat_surrogate]
    simp only
    omega
  · rename_i hchar
    have hvalid : n.isValidChar := by
      unfold Nat.isValidChar
      unfold firstSurrogate at hchar
      omega
    rw [toNat_char, Char.ofNat, dif_pos hvalid]
    exact UInt32.toNat_ofNatLT

/-- Whatever is no surrogate is a character. -/
theorem isValidChar_toNat {c : CodePoint} (h : c.isChar = true) : c.toNat.isValidChar := by
  rcases c with c | i
  · exact c.valid
  · cases h

end CodePoint

/-- The text is made of characters. -/
def Text.NoSurrogates (t : Text) : Prop := ∀ c ∈ t, c.isChar = true

instance (t : Text) : Decidable t.NoSurrogates :=
  inferInstanceAs (Decidable (∀ c ∈ t, c.isChar = true))

theorem Text.NoSurrogates.isValidChar {t : Text} (h : t.NoSurrogates) :
    ∀ n ∈ t.map CodePoint.toNat, n.isValidChar := by
  intro n hn
  obtain ⟨c, hc, rfl⟩ := List.mem_map.mp hn
  exact CodePoint.isValidChar_toNat (h c hc)

end SwiftABI

open SwiftABI in
/-- Strings are told apart by their texts. -/
theorem String.text_injective : Function.Injective String.text := by
  intro s t h
  have hchars : s.toList = t.toList := (List.map_inj_right fun _ _ => CodePoint.char.inj).mp h
  exact String.toList_inj.mp hchars
