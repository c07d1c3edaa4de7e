/-
  Reading back the numerals that are written in symbols.
-/
import SwiftABI.Text.Basic

namespace SwiftABI.Text

theorem isDigit_of_mem_digits {n : Nat} {c : CodePoint} (h : c ∈ digits n) : isDigit c = true := by
  obtain ⟨d, hd, rfl⟩ := List.mem_map.mp h
  have hdigit : d.isDigit = true := Nat.isDigit_of_mem_toDigits (by decide) (by decide) hd
  simpa [Char.isDigit, isDigit, CodePoint.le_def, CodePoint.toNat, UInt32.le_iff_toNat_le]
    using hdigit

theorem digits_ne_nil (n : Nat) : digits n ≠ [] :=
  fun h => Nat.toDigits_ne_nil (List.map_eq_nil_iff.mp h)

/-- Only zero begins with a zero. -/
theorem head?_digits_ne_zero {n : Nat} (h : 0 < n) : (digits n).head? ≠ some ('0' : CodePoint) := by
  induction n using Nat.strongRecOn with
  | ind n ih =>
    by_cases hn : n < 10
    · have hdigit : ∀ n < 10, 0 < n → (digits n).head? ≠ some ('0' : CodePoint) := by decide
      exact hdigit n hn h
    · have hhead := ih (n / 10) (by omega) (by omega)
      have hsplit : digits n = digits (n / 10) ++ [.char (Nat.digitChar (n % 10))] := by
        rw [digits, Nat.toDigits_of_base_le (by decide) (Nat.le_of_not_lt hn), List.map_append]
        rfl
      rcases hdigits : digits (n / 10) with _ | ⟨d, ds⟩
      · exact absurd hdigits (digits_ne_nil _)
      · rw [hdigits] at hsplit hhead
        rwa [hsplit]

/-- The digits of a number spell it. -/
@[simp]
theorem number_digits (n : Nat) : number (digits n) = n := by
  unfold number digits
  rw [List.foldl_map]
  exact Nat.ofDigitChars_ten_toDigits

theorem digits_injective : Function.Injective digits := by
  intro n m h
  rw [← number_digits n, h, number_digits]

/-- A decimal is made of digits, and of a sign. -/
theorem digit_or_sign_of_mem_decimal {n : Int} {c : CodePoint} (h : c ∈ decimal n) :
    isDigit c = true ∨ c = '-' := by
  cases n with
  | ofNat n => exact .inl (isDigit_of_mem_digits h)
  | negSucc n =>
    rcases List.mem_cons.mp h with rfl | h
    · exact .inr rfl
    · exact .inl (isDigit_of_mem_digits h)

theorem decimal_injective : Function.Injective decimal := by
  -- The sign is no digit.
  have hsign (n m : Nat) : digits n ≠ ('-' : CodePoint) :: digits m := by
    intro h
    have hdigit : isDigit '-' = true := isDigit_of_mem_digits (n := n) (by simp [h])
    exact absurd hdigit (by decide)
  intro n m h
  rcases n with n | n <;> rcases m with m | m
  · exact congrArg Int.ofNat (digits_injective h)
  · exact absurd h (hsign n (m + 1))
  · exact absurd h.symm (hsign m (n + 1))
  · have hdigits := digits_injective (List.cons.inj h).2
    exact congrArg Int.negSucc (Nat.succ.inj hdigits)

/-- The digits in front end at the first character that is none. -/
theorem spanDigits_append {ds rest : Text} (hds : ∀ c ∈ ds, isDigit c = true)
    (hrest : ∀ c, rest.head? = some c → isDigit c = false) :
    spanDigits (ds ++ rest) = (ds, rest) := by
  induction ds with
  | nil =>
    cases rest with
    | nil => rfl
    | cons c rest =>
      have hc : isDigit c = false := hrest c rfl
      simp [spanDigits, hc]
  | cons d ds ih =>
    have hd : isDigit d = true := hds d List.mem_cons_self
    have htail := ih fun c hc => hds c (List.mem_cons_of_mem _ hc)
    simp [spanDigits, hd, htail]

end SwiftABI.Text
