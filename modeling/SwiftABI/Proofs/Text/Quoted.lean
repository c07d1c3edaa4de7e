/-
  A quoted text tells which text it is.

  Escaping is a prefix code: whatever follows, the first character can be read off from what it has
  been escaped as (`unescapeFirst_escape`). A quotation begins with its delimiter, which is all that
  escaping depends on, so no two texts are quoted alike (`quoted_injective`). All characters of a
  quotation are printable (`isPrintable_of_mem_quoted`), so that it takes a single line.
-/
import SwiftABI.Proofs.Text.CodePoint
import SwiftABI.Proofs.Text.Letter
import SwiftABI.Text.Quoted

namespace SwiftABI.Text

/-! ### Hexadecimal numbers -/

/-- The value of a hexadecimal digit. -/
def hexDigitValue (c : CodePoint) : Nat :=
  if isDigit c then c.toNat - '0'.toNat else lowerIndex c + 10

/-- The number that hexadecimal digits spell. -/
def hexValue (t : Text) : Nat := t.foldl (fun n c => 16 * n + hexDigitValue c) 0

theorem hexDigitValue_digitChar : ∀ d < 16, hexDigitValue (Nat.digitChar d) = d := by decide

@[simp]
theorem length_hexPadded (width n : Nat) : (hexPadded width n).length = width := by
  induction width generalizing n with
  | zero => rfl
  | succ width ih => simp [hexPadded, ih]

/-- The digits spell the number, if there are enough of them. -/
theorem hexValue_hexPadded {width n : Nat} (h : n < 16 ^ width) :
    hexValue (hexPadded width n) = n := by
  induction width generalizing n with
  | zero =>
    simp only [Nat.pow_zero] at h
    simp [hexPadded, hexValue]
    omega
  | succ width ih =>
    have hhigh : hexValue (hexPadded width (n / 16)) = n / 16 := by
      apply ih
      rw [Nat.pow_succ] at h
      omega
    have hlow := hexDigitValue_digitChar (n % 16) (Nat.mod_lt n (by decide))
    unfold hexValue at hhigh ⊢
    rw [hexPadded, List.foldl_append, hhigh, List.foldl_cons, List.foldl_nil, hlow]
    omega

theorem exists_digit_of_mem_hexPadded {width n : Nat} {c : CodePoint} (hc : c ∈ hexPadded width n) :
    ∃ d < 16, c = Nat.digitChar d := by
  induction width generalizing n with
  | zero => simp [hexPadded] at hc
  | succ width ih =>
    rw [hexPadded, List.mem_append, List.mem_singleton] at hc
    rcases hc with hc | hc
    · exact ih hc
    · exact ⟨n % 16, Nat.mod_lt n (by decide), hc⟩

/-! ### Escaped characters -/

/-- The letters that announce a number, and how many digits follow them. -/
def escapeWidths : List (CodePoint × Nat) := [('x', 2), ('u', 4), ('U', 8)]

/-- How many digits follow a letter, if it announces a number. -/
def escapeWidth? (mark : CodePoint) : Option Nat := escapeWidths.lookup mark

/-- The character that a letter behind a backslash stands for. -/
def unescapeLetter (letter : CodePoint) : CodePoint :=
  if letter = 'n' then '\n' else if letter = 'r' then '\r' else if letter = 't' then '\t'
    else letter

/-- The first character of a text that has been escaped, and what follows it. -/
def unescapeFirst : Text → Option (CodePoint × Text)
  | [] => none
  | [c] => some (c, [])
  | c :: letter :: rest =>
    if c ≠ backslash then some (c, letter :: rest)
    else
      match escapeWidth? letter with
      | some width => some (CodePoint.ofNat (hexValue (rest.take width)), rest.drop width)
      | none => some (unescapeLetter letter, rest)

/-- A character that stands for itself is the first one. -/
theorem unescapeFirst_self {c : CodePoint} (h : c ≠ backslash) (rest : Text) :
    unescapeFirst (c :: rest) = some (c, rest) := by
  cases rest with
  | nil => rfl
  | cons d rest => simp [unescapeFirst, h]

/-- A letter that announces no number is all that follows a backslash. -/
theorem unescapeFirst_letter {letter : CodePoint} (h : escapeWidth? letter = none) (rest : Text) :
    unescapeFirst (backslash :: letter :: rest) = some (unescapeLetter letter, rest) := by
  simp [unescapeFirst, h]

/-- The digits of a number are read off, whatever follows them. -/
theorem unescapeFirst_number {c mark : CodePoint} {width : Nat}
    (hmark : escapeWidth? mark = some width) (hwidth : c.toNat < 16 ^ width) (rest : Text) :
    unescapeFirst (backslash :: mark :: hexPadded width c.toNat ++ rest) = some (c, rest) := by
  have htake : (hexPadded width c.toNat ++ rest).take width = hexPadded width c.toNat :=
    List.take_left' (length_hexPadded width _)
  have hdrop : (hexPadded width c.toNat ++ rest).drop width = rest :=
    List.drop_left' (length_hexPadded width _)
  simp [unescapeFirst, hmark, htake, hdrop, hexValue_hexPadded hwidth, CodePoint.ofNat_toNat]

/-- A number has as many digits as its mark announces, and they are enough. -/
theorem exists_escapeNumber (c : CodePoint) :
    ∃ mark width, escapeWidth? mark = some width ∧ c.toNat < 16 ^ width ∧
      escapeNumber c = backslash :: mark :: hexPadded width c.toNat := by
  have hlt := c.toNat_lt
  unfold escapeNumber
  split
  · exact ⟨'x', 2, rfl, by omega, rfl⟩
  split
  · exact ⟨'u', 4, rfl, by omega, rfl⟩
  · exact ⟨'U', 8, rfl, by omega, rfl⟩

theorem unescapeFirst_escapeNumber (c : CodePoint) (rest : Text) :
    unescapeFirst (escapeNumber c ++ rest) = some (c, rest) := by
  obtain ⟨mark, width, hmark, hwidth, hescape⟩ := exists_escapeNumber c
  rw [hescape]
  exact unescapeFirst_number hmark hwidth rest

/-- The two delimiters of quotations. -/
def IsQuote (c : CodePoint) : Prop := c = apostrophe ∨ c = doubleQuote

theorem isQuote_delimiter (t : Text) : IsQuote (delimiter t) := by
  unfold delimiter IsQuote
  split
  · exact .inr rfl
  · exact .inl rfl

/-- Whatever follows a character that has been escaped, the character can be read off. -/
theorem unescapeFirst_escape {quote : CodePoint} (hquote : IsQuote quote) (c : CodePoint)
    (rest : Text) :
    unescapeFirst (escape quote c ++ rest) = some (c, rest) := by
  unfold escape
  split
  · -- A delimiter or a backslash stands for itself behind a backslash.
    rename_i hc
    unfold IsQuote at hquote
    rcases hc with rfl | rfl
    · rcases hquote with rfl | rfl <;> rfl
    · rfl
  rename_i hplain
  split
  · rw [‹c = '\n'›]
    exact unescapeFirst_letter (by decide) rest
  split
  · rw [‹c = '\r'›]
    exact unescapeFirst_letter (by decide) rest
  split
  · rw [‹c = '\t'›]
    exact unescapeFirst_letter (by decide) rest
  split
  · exact unescapeFirst_self (fun h => hplain (.inr h)) rest
  · exact unescapeFirst_escapeNumber c rest

/-! ### Quotations -/

/-- The characters of a text can be read off one after the other. -/
theorem flatMap_escape_injective {quote : CodePoint} (hquote : IsQuote quote) {s t : Text}
    (h : s.flatMap (escape quote) = t.flatMap (escape quote)) : s = t := by
  have hread (c : CodePoint) (u : Text) : unescapeFirst ((c :: u).flatMap (escape quote))
      = some (c, u.flatMap (escape quote)) := by
    rw [List.flatMap_cons]
    exact unescapeFirst_escape hquote c _
  induction s generalizing t with
  | nil =>
    cases t with
    | nil => rfl
    | cons d t =>
      -- The first character of nothing cannot be read.
      have hfirst := hread d t
      rw [← h] at hfirst
      simp [unescapeFirst] at hfirst
  | cons c s ih =>
    have hfirst := hread c s
    cases t with
    | nil =>
      rw [h] at hfirst
      simp [unescapeFirst] at hfirst
    | cons d t =>
      rw [h, hread d t] at hfirst
      simp only [Option.some.injEq, Prod.mk.injEq] at hfirst
      obtain ⟨rfl, hrest⟩ := hfirst
      rw [ih hrest.symm]

theorem quoted_injective : Function.Injective quoted := by
  intro s t h
  unfold quoted at h
  simp only [List.cons_append, List.cons.injEq] at h
  obtain ⟨hdelimiter, hbody⟩ := h
  -- Both texts have been escaped for the same delimiter.
  rw [hdelimiter] at hbody
  exact flatMap_escape_injective (isQuote_delimiter t) (List.append_cancel_right hbody)

/-! ### Printable characters -/

theorem isPrintable_of_ascii {c : CodePoint} (h : 0x20 ≤ c.toNat ∧ c.toNat < 0x7F) :
    isPrintable c = true := by
  unfold isPrintable
  rw [if_pos (by omega), Bool.and_eq_true, decide_eq_true_eq, decide_eq_true_eq]
  exact h

theorem isPrintable_of_isQuote {c : CodePoint} (h : IsQuote c) : isPrintable c = true := by
  rcases h with rfl | rfl <;> decide

theorem isPrintable_of_mem_hexPadded {width n : Nat} {c : CodePoint} (hc : c ∈ hexPadded width n) :
    isPrintable c = true := by
  have hdigits : ∀ d < 16, isPrintable (Nat.digitChar d) = true := by decide
  obtain ⟨d, hd, rfl⟩ := exists_digit_of_mem_hexPadded hc
  exact hdigits d hd

theorem isPrintable_of_mem_escapeNumber {c d : CodePoint} (hd : d ∈ escapeNumber c) :
    isPrintable d = true := by
  obtain ⟨mark, width, hmark, -, hescape⟩ := exists_escapeNumber c
  rw [hescape] at hd
  simp only [List.mem_cons] at hd
  rcases hd with rfl | rfl | hd
  · decide
  · -- Only three letters announce a number.
    have hmarks : ∀ e ∈ escapeWidths, isPrintable e.1 = true := by decide
    obtain ⟨before, after, htable, -⟩ := List.lookup_eq_some_iff.mp hmark
    apply hmarks (d, width)
    simp [htable]
  · exact isPrintable_of_mem_hexPadded hd

/-- Escaping leaves nothing that is not printable. -/
theorem isPrintable_of_mem_escape {quote c d : CodePoint} (hquote : IsQuote quote)
    (hd : d ∈ escape quote c) :
    isPrintable d = true := by
  unfold escape at hd
  split at hd
  · rename_i hc
    simp only [List.mem_cons, List.not_mem_nil, or_false] at hd
    rcases hd with rfl | rfl
    · decide
    · rcases hc with rfl | rfl
      · exact isPrintable_of_isQuote hquote
      · decide
  split at hd
  · exact List.all_eq_true.mp (by decide) d hd
  split at hd
  · exact List.all_eq_true.mp (by decide) d hd
  split at hd
  · exact List.all_eq_true.mp (by decide) d hd
  split at hd
  · simp only [List.mem_singleton] at hd
    rw [hd]
    exact ‹isPrintable c = true›
  · exact isPrintable_of_mem_escapeNumber hd

theorem isPrintable_of_mem_quoted {t : Text} {c : CodePoint} (hc : c ∈ quoted t) :
    isPrintable c = true := by
  have hquote := isQuote_delimiter t
  simp only [quoted, List.mem_append, List.mem_cons, List.mem_flatMap, List.not_mem_nil,
    or_false] at hc
  rcases hc with (rfl | ⟨d, -, hd⟩) | rfl
  · exact isPrintable_of_isQuote hquote
  · exact isPrintable_of_mem_escape hquote hd
  · exact isPrintable_of_isQuote hquote

end SwiftABI.Text
