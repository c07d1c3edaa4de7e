/-
  The classes of characters by their code points, and the letters of the alphabet.
-/
import SwiftABI.Text.Lowercase

namespace SwiftABI.Text

/-! ### Code points -/

theorem isDigit_iff {c : CodePoint} : isDigit c = true ↔ 48 ≤ c.toNat ∧ c.toNat ≤ 57 := by
  simp [isDigit, CodePoint.le_def]

theorem isLower_iff {c : CodePoint} : isLower c = true ↔ 97 ≤ c.toNat ∧ c.toNat ≤ 122 := by
  simp [isLower, CodePoint.le_def]

theorem isUpper_iff {c : CodePoint} : isUpper c = true ↔ 65 ≤ c.toNat ∧ c.toNat ≤ 90 := by
  simp [isUpper, CodePoint.le_def]

theorem isDigit_eq_false_iff {c : CodePoint} :
    isDigit c = false ↔ ¬(48 ≤ c.toNat ∧ c.toNat ≤ 57) := by
  rw [← isDigit_iff, Bool.not_eq_true]

theorem isLower_eq_false_iff {c : CodePoint} :
    isLower c = false ↔ ¬(97 ≤ c.toNat ∧ c.toNat ≤ 122) := by
  rw [← isLower_iff, Bool.not_eq_true]

theorem isUpper_eq_false_iff {c : CodePoint} :
    isUpper c = false ↔ ¬(65 ≤ c.toNat ∧ c.toNat ≤ 90) := by
  rw [← isUpper_iff, Bool.not_eq_true]

/-- A digit is no letter. -/
theorem not_letter_of_isDigit {c : CodePoint} (h : isDigit c = true) :
    isLower c = false ∧ isUpper c = false := by
  rw [isDigit_iff] at h
  rw [isLower_eq_false_iff, isUpper_eq_false_iff]
  omega

theorem ne_mark_of_isDigit {c : CodePoint} (h : isDigit c = true) : c ≠ '_' := by
  rintro rfl
  exact absurd h (by decide)

/-! ### Letters of the alphabet -/

/-- The upper-case letters are told apart, and found again. -/
theorem upperLetter_spec {i : Nat} (h : i < 26) :
    isLower (upperLetter i) = false ∧ isUpper (upperLetter i) = true ∧
      isDigit (upperLetter i) = false ∧ upperIndex (upperLetter i) = i ∧
      lower (upperLetter i) = [lowerLetter i] := by
  revert i
  decide

/-- The lower-case letters are told apart, and found again. -/
theorem lowerLetter_spec {i : Nat} (h : i < 26) :
    isLower (lowerLetter i) = true ∧ isDigit (lowerLetter i) = false ∧
      lowerIndex (lowerLetter i) = i := by
  revert i
  decide

theorem upperLetter_injective {i j : Nat} (hi : i < 26) (hj : j < 26)
    (h : upperLetter i = upperLetter j) : i = j := by
  rw [← (upperLetter_spec hi).2.2.2.1, h, (upperLetter_spec hj).2.2.2.1]

end SwiftABI.Text
