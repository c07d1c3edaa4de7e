/-
  Texts that a symbol can hold.

  A symbol is made of ASCII letters, digits and two more characters, which every linker takes.
  Numerals and letters in lower case are such texts (`symbolic_digits`, `symbolic_lower`).
-/
import SwiftABI.Proofs.Text.CodePoint
import SwiftABI.Proofs.Text.Letter
import SwiftABI.Proofs.Text.Numeral
import SwiftABI.Symbol.Code

namespace SwiftABI

namespace Text

/-- All characters of the text may stand in a symbol. -/
def Symbolic (t : Text) : Prop := ∀ c ∈ t, isSymbolChar c = true

instance (t : Text) : Decidable t.Symbolic :=
  decidable_of_iff (t.all isSymbolChar = true) List.all_eq_true

@[simp]
theorem symbolic_nil : Symbolic [] := by simp [Symbolic]

@[simp]
theorem symbolic_cons {c : CodePoint} {t : Text} :
    Symbolic (c :: t) ↔ isSymbolChar c = true ∧ Symbolic t := by
  simp [Symbolic]

@[simp]
theorem symbolic_append {s t : Text} : Symbolic (s ++ t) ↔ Symbolic s ∧ Symbolic t := by
  simp [Symbolic, or_imp, forall_and]

theorem Symbolic.of_subset {s t : Text} (h : Symbolic t) (hst : s ⊆ t) :
    Symbolic s := fun c hc => h c (hst hc)

theorem isSymbolChar_of_isDigit {c : CodePoint} (h : isDigit c = true) :
    isSymbolChar c = true := by simp [isSymbolChar, h]

theorem isSymbolChar_of_isLower {c : CodePoint} (h : isLower c = true) :
    isSymbolChar c = true := by simp [isSymbolChar, h]

theorem isSymbolChar_of_isUpper {c : CodePoint} (h : isUpper c = true) :
    isSymbolChar c = true := by simp [isSymbolChar, h]

/-- A symbol character is ASCII. -/
theorem toNat_lt_of_isSymbolChar {c : CodePoint} (h : isSymbolChar c = true) : c.toNat < 0x80 := by
  simp only [isSymbolChar, Bool.or_eq_true, decide_eq_true_eq] at h
  rcases h with (((hlower | hupper) | hdigit) | rfl) | rfl
  · have hrange := isLower_iff.mp hlower
    omega
  · have hrange := isUpper_iff.mp hupper
    omega
  · have hrange := isDigit_iff.mp hdigit
    omega
  · decide
  · decide

theorem symbolic_digits (n : Nat) : Symbolic (digits n) :=
  fun _ hc => isSymbolChar_of_isDigit (isDigit_of_mem_digits hc)

/-- A symbol character in lower case is one. -/
theorem symbolic_lower {c : CodePoint} (h : isSymbolChar c = true) : Symbolic (lower c) := by
  have hascii : ∀ n < 0x80, isSymbolChar (CodePoint.ofNat n) = true →
      isSymbolChar (lowerAscii (CodePoint.ofNat n)) = true := by decide
  have hlt := toNat_lt_of_isSymbolChar h
  have hlower := hascii c.toNat hlt
  rw [CodePoint.ofNat_toNat] at hlower
  simp [lower_of_ascii hlt, hlower h]

end Text

/-- A natural number as a symbol spells it. -/
theorem Code.symbolic_index (n : Nat) : (Code.index n).Symbolic := by
  unfold Code.index
  split
  · decide
  · have hdecimal : Text.decimal ((n : Int) - 1) = Text.digits (n - 1) := by
      obtain ⟨m, rfl⟩ : ∃ m, n = m + 1 := ⟨n - 1, by omega⟩
      simp [Text.decimal]
    simp [hdecimal, Text.symbolic_digits, Text.isSymbolChar]

theorem Code.symbolic_index_pred {n : Nat} (h : (n : Int) ≠ 0) :
    (Code.index ((n : Int) - 1)).Symbolic := by
  obtain ⟨m, rfl⟩ : ∃ m, n = m + 1 := ⟨n - 1, by omega⟩
  simpa using symbolic_index m

end SwiftABI
