/-
  The names of generic parameters.

  The letters of a name spell the index of the parameter in base 26, with the lowest digit first and
  `A` for zero. They are found one by one, which comes to an end for every index but the negative
  ones (`Text.exists_lettersWithin_iff`). The digits behind them spell the depth, which is zero if
  there are none. Letters are no digits, so both can be read off again
  (`Text.parameter_parameterText`), and two parameters are described alike only if they are the same
  (`describe_parameter_inj`).
-/
import SwiftABI.Description.Basic
import SwiftABI.Proofs.Text.Letter
import SwiftABI.Proofs.Text.Numeral
import SwiftABI.Proofs.Text.Pieces

namespace SwiftABI

namespace Text

/-! ### Letters as digits -/

/-- The number that letters spell, the lowest digit first. -/
def lettersValue : Text → Nat
  | [] => 0
  | c :: cs => upperIndex c + 26 * lettersValue cs

/-- Letters begin with the lowest digit, and stop before nothing but zeros. -/
theorem letters_eq (i : Nat) :
    letters i = upperLetter (i % 26) :: (if i / 26 = 0 then [] else letters (i / 26)) := by
  rw [letters]
  split <;> rfl

theorem lettersValue_letters (i : Nat) : lettersValue (letters i) = i := by
  induction i using Nat.strongRecOn with
  | ind i ih =>
    have hlast : upperIndex (upperLetter (i % 26)) = i % 26 :=
      (upperLetter_spec (Nat.mod_lt i (by decide))).2.2.2.1
    rw [letters_eq, lettersValue, hlast]
    by_cases hi : i / 26 = 0
    · -- There are no higher digits.
      simp only [hi, if_true, lettersValue]
      omega
    · simp only [hi, if_false]
      rw [ih (i / 26) (by omega)]
      omega

theorem isUpper_of_mem_letters {i : Nat} {c : CodePoint} (hc : c ∈ letters i) :
    isUpper c = true := by
  induction i using Nat.strongRecOn with
  | ind i ih =>
    rw [letters_eq, List.mem_cons] at hc
    rcases hc with rfl | hc
    · exact (upperLetter_spec (Nat.mod_lt i (by decide))).2.1
    · by_cases hi : i / 26 = 0
      · simp [hi] at hc
      · simp only [hi, if_false] at hc
        exact ih (i / 26) (by omega) hc

/-! ### Finding the letters -/

/-- A negative index stays negative, so that no number of rounds is enough. -/
theorem lettersWithin_of_neg (rounds : Nat) {i : Int} (h : i < 0) :
    lettersWithin rounds i = none := by
  induction rounds generalizing i with
  | zero => rfl
  | succ rounds ih =>
    have hquotient : i / 26 < 0 := Int.ediv_neg_of_neg_of_pos h (by decide)
    rw [lettersWithin, if_neg (by omega), ih hquotient]
    rfl

/-- One round finds the lowest digit, and leaves the others. -/
theorem lettersWithin_succ (rounds i : Nat) :
    lettersWithin (rounds + 1) i = if i / 26 = 0 then some (letters i)
      else (lettersWithin rounds (i / 26 : Nat)).map (upperLetter (i % 26) :: ·) := by
  have hquotient : (i : Int) / 26 = (i / 26 : Nat) := rfl
  have hletter : ((i : Int) % 26).toNat = i % 26 := by omega
  rw [lettersWithin, hquotient, hletter, letters_eq]
  by_cases hi : i / 26 = 0
  · simp [hi]
  · have hne : ((i / 26 : Nat) : Int) ≠ 0 := by omega
    rw [if_neg hne, if_neg hi]

/-- As many rounds as the index are enough. -/
theorem lettersWithin_of_lt {rounds i : Nat} (h : i < rounds) :
    lettersWithin rounds i = some (letters i) := by
  induction rounds generalizing i with
  | zero => omega
  | succ rounds ih =>
    rw [lettersWithin_succ]
    split
    · rfl
    · rename_i hi
      rw [ih (by omega), letters_eq i, if_neg hi]
      rfl

/-- With fewer rounds the same letters are found, or none. -/
theorem eq_letters_of_lettersWithin {rounds i : Nat} {t : Text}
    (h : lettersWithin rounds i = some t) :
    t = letters i := by
  induction rounds generalizing i t with
  | zero => cases h
  | succ rounds ih =>
    rw [lettersWithin_succ] at h
    split at h
    · exact (Option.some.inj h).symm
    · rename_i hi
      obtain ⟨rest, hrest, rfl⟩ := Option.map_eq_some_iff.mp h
      rw [ih hrest, letters_eq i, if_neg hi]

/-- What is found in the end are the letters of the index, and without them the search does not
end. -/
theorem exists_lettersWithin_iff {i : Int} {t : Text} :
    (∃ rounds, lettersWithin rounds i = some t) ↔ letters? i = some t := by
  unfold letters?
  split
  · rename_i hi
    obtain ⟨n, rfl⟩ := Int.eq_ofNat_of_zero_le hi
    constructor
    · rintro ⟨rounds, hfound⟩
      exact congrArg some (eq_letters_of_lettersWithin hfound).symm
    · intro h
      exact ⟨n + 1, (lettersWithin_of_lt (Nat.lt_succ_self n)).trans h⟩
  · rename_i hi
    constructor
    · rintro ⟨rounds, hfound⟩
      rw [lettersWithin_of_neg rounds (by omega)] at hfound
      cases hfound
    · exact nofun

/-! ### Names -/

/-- The depth and the index of the parameter that a name stands for. -/
def parameter (name : Text) : Nat × Nat :=
  (number (name.dropWhile isUpper), lettersValue (name.takeWhile isUpper))

/-- The letters of an index, and the digits of a depth that is not zero. -/
def parameterText (depth index : Nat) : Text :=
  letters index ++ (if depth = 0 then [] else digits depth)

/-- A name tells which parameter it stands for. -/
theorem parameter_parameterText (depth index : Nat) :
    parameter (parameterText depth index) = (depth, index) := by
  have hletters : ∀ c ∈ letters index, isUpper c = true := fun _ => isUpper_of_mem_letters
  have hdigits : ∀ c, (if depth = 0 then [] else digits depth).head? = some c →
      isUpper c = false := by
    intro c hc
    split at hc
    · simp at hc
    · have hdigit : isDigit c = true := isDigit_of_mem_digits (List.mem_of_head? hc)
      exact (not_letter_of_isDigit hdigit).2
  -- That there are no digits means zero, too.
  have hnumber : number (if depth = 0 then [] else digits depth) = depth := by
    split
    · simp [number, ‹depth = 0›]
    · exact number_digits depth
  obtain ⟨htake, hdrop⟩ := split_append hletters hdigits
  rw [parameterText, parameter, htake, hdrop, hnumber, lettersValue_letters]

end Text

/-! ### Descriptions -/

/-- A generic parameter, by its depth and its index there. -/
def Node.parameter (depth index : Nat) : Node :=
  .mk .dependentGenericParamType .none [.mk .index (.index depth) [], .mk .index (.index index) []]

namespace Description

/-- A parameter has a name if its depth can be shown. -/
theorem parameterName_eq_ok_iff {depth index : Nat} {t : Text} :
    parameterName depth index = .ok t ↔
      Text.isShowable depth = true ∧ Text.parameterText depth index = t := by
  have hletters : Text.letters? index = some (Text.letters index) :=
    if_pos (Int.natCast_nonneg index)
  unfold parameterName Text.parameterText numeral Text.decimal?
  rw [hletters]
  by_cases hdepth : depth = 0
  · subst hdepth
    have hzero : Text.isShowable (0 : Nat) = true := by decide +kernel
    rw [hzero]
    simp [pure, Except.pure, bind, Except.bind]
  · cases hshowable : Text.isShowable depth with
    | false => simp [hdepth, pure, Except.pure, bind, Except.bind]
    | true => simp [hdepth, Text.decimal, pure, Except.pure, bind, Except.bind]

end Description

/-- A parameter is described by its name, whatever the options are. -/
theorem describe_parameter_eq_ok_iff {o : DisplayOptions} {depth index : Nat} {t : Text} :
    describe o (.parameter depth index) = .ok t ↔
      Description.parameterName depth index = .ok t := by
  have hpiece : Description.describeAt o (Node.parameter depth index).size
    (.parameter depth index) false =
      (do return { text := ← Description.parameterName depth index }) := rfl
  unfold describe
  rw [hpiece]
  cases Description.parameterName depth index <;> simp [bind, Except.bind, pure, Except.pure]

/-- Two parameters of depths that can be shown have one name only if they are of one depth and have
one index there, and only then they are described alike. -/
theorem describe_parameter_inj (d i d' i' : Nat) :
    ((∃ t, Description.parameterName d i = .ok t ∧ Description.parameterName d' i' = .ok t) ↔
        Text.isShowable d = true ∧ d = d' ∧ i = i') ∧
      ∀ o, (∃ t, describe o (.parameter d i) = .ok t ∧ describe o (.parameter d' i') = .ok t) ↔
        Text.isShowable d = true ∧ d = d' ∧ i = i' := by
  have hnames :
    (∃ t, Description.parameterName d i = .ok t ∧ Description.parameterName d' i' = .ok t) ↔
      Text.isShowable d = true ∧ d = d' ∧ i = i' := by
    simp only [Description.parameterName_eq_ok_iff]
    constructor
    · rintro ⟨t, ⟨hd, rfl⟩, -, h⟩
      have hread := congrArg Text.parameter h
      rw [Text.parameter_parameterText, Text.parameter_parameterText, Prod.mk.injEq] at hread
      exact ⟨hd, hread.1.symm, hread.2.symm⟩
    · rintro ⟨hd, rfl, rfl⟩
      exact ⟨_, ⟨hd, rfl⟩, hd, rfl⟩
  refine ⟨hnames, fun o => ?_⟩
  simp only [describe_parameter_eq_ok_iff]
  exact hnames

/-- Behind the single letters come those with the lowest digit first. -/
example : [Text.parameterText 0 25, Text.parameterText 0 26, Text.parameterText 2 27]
    = ["Z".text, "AB".text, "BB2".text] := by decide +kernel

end SwiftABI
