/-
  Identifiers are read as they are spelled.

  The writer looks up the words of a whole identifier, while the reader remembers the words of the
  pieces that are written out. At each point of the identifier where a word begins or ends, the
  words of the writer are those of the reader and the words of what the reader has not yet read
  (`Reads.pieces_spell`), so that a letter means the same word to both.
-/
import SwiftABI.Proofs.Symbol.Reads
import SwiftABI.Proofs.Symbol.Word
import SwiftABI.Proofs.Text.Letter
import SwiftABI.Proofs.Text.Punycode

namespace SwiftABI

namespace Text

theorem isDigit_of_isAnyDigit {c : CodePoint} (h : isAnyDigit c = false) : isDigit c = false := by
  by_cases hc : c.toNat < 0x80
  · rwa [isAnyDigit_of_ascii hc] at h
  · rw [isDigit_eq_false_iff]
    omega

/-- A positive number begins with a digit other than zero. -/
theorem digits_eq_cons {n : Nat} (h : 0 < n) :
    ∃ d ds, digits n = d :: ds ∧ isDigit d = true ∧ d ≠ '0' := by
  obtain ⟨d, ds, hds⟩ := List.exists_cons_of_ne_nil (digits_ne_nil n)
  refine ⟨d, ds, hds, isDigit_of_mem_digits (n := n) (by rw [hds]; exact List.mem_cons_self), ?_⟩
  rintro rfl
  exact head?_digits_ne_zero h (by rw [hds]; rfl)

end Text

/-- Only a piece that does not begin with a digit can be written out. -/
theorem Identifier.spellPiece_cons {name cs w : Text} {ch : CodePoint}
    (h : spellPiece name (ch :: cs) = .ok w) :
    Text.isAnyDigit ch = false ∧ w = Text.digits (ch :: cs).length ++ (ch :: cs) := by
  rw [spellPiece] at h
  rcases hch : Text.isAnyDigit ch with _ | _
  · rw [hch] at h
    exact ⟨rfl, (Except.ok.inj h).symm⟩
  · rw [hch] at h
    cases h

namespace Reads

variable {cfg : Config} {α : Type} {f : Option CodePoint → Reading α} {a : α} {s : List Node}
  {table : SubstitutionTable} {known : List Text} {c c' : Store} {ch : CodePoint} {w : Text}

/-! ### Pieces -/

theorem take (w : Text) (c : Store) : Reads (Reading.take w.length) w c w c := by
  refine get fun offset rest => ?_
  have hlength : decide (w.length ≤ (w ++ rest).length) = true :=
    decide_eq_true (by rw [List.length_append]; omega)
  have htake : (w ++ rest).take w.length = w := List.take_left
  show Reads (do
    Reading.check (decide (w.length ≤ (w ++ rest).length)) .identifierPastEnd
    Reading.advance w.length
    return (w ++ rest).take w.length) _ _ _ _
  rw [htake]
  exact (check hlength _).step ((advance w c).last (pure w c))

theorem letter?_some (h : Text.isLower ch = true ∨ Text.isUpper ch = true)
    (hf : Reads (f (some ch)) w c a c') : Reads (Reading.letter? >>= f) (ch :: w) c a c' := by
  have hletter : Reads Reading.letter? [ch] c (some ch) c := by
    refine peek ?_
    show Reads (if Text.isLower ch || Text.isUpper ch then _ else _) _ _ _ _
    rw [if_pos (by rw [Bool.or_eq_true]; exact h)]
    exact (advance [ch] c).last (pure (some ch) c)
  exact hletter.bind hf

/-- What is no letter is left for the steps that follow. -/
theorem letter?_other (hlower : Text.isLower ch = false) (hupper : Text.isUpper ch = false)
    (hf : Reads (f none) (ch :: w) c a c') : Reads (Reading.letter? >>= f) (ch :: w) c a c' := by
  intro offset rest
  have hletter : Reading.letter? (c.machine offset (ch :: w ++ rest))
      = .ok (none, c.machine offset (ch :: w ++ rest)) := by
    show (if Text.isLower ch || Text.isUpper ch then _ else _ : Reading (Option CodePoint)) _ = _
    rw [hlower, hupper]
    rfl
  show (Reading.letter? _ >>= fun p => f p.1 p.2 : Except Malformed _) = _
  rw [hletter]
  exact hf offset rest

theorem letter?_none (h : Text.isDigit ch = true) (hf : Reads (f none) (ch :: w) c a c') :
    Reads (Reading.letter? >>= f) (ch :: w) c a c' :=
  letter?_other (Text.not_letter_of_isDigit h).1 (Text.not_letter_of_isDigit h).2 hf

theorem word {i : Nat} {text : Text} (hi : (i : Int) < cfg.maxWords) (h : known[i]? = some text) :
    Reads (Reading.word cfg i) [] ⟨s, table, known⟩ text ⟨s, table, known⟩ := by
  refine (check (decide_eq_true hi) _).step (get fun _ _ => ?_)
  show Reads (Reading.require known[i]? .unknownWord) _ _ _ _
  rw [h]
  exact require_some text _

/-- A piece that is written out is read, and its words are remembered. -/
theorem piece {cs : Text} (hch : Text.isAnyDigit ch = false) :
    Reads (Reading.piece cfg false) (Text.digits (ch :: cs).length ++ (ch :: cs)) ⟨s, table, known⟩
      (ch :: cs) ⟨s, table, Word.rememberAll cfg.maxWords known (ch :: cs)⟩ := by
  refine natural _ (Text.isDigit_of_isAnyDigit hch) ?_
  have hmodify : Reads (modify fun m => { m with
      words := Word.rememberAll cfg.maxWords m.words (ch :: cs) }) [] ⟨s, table, known⟩ ()
      ⟨s, table, Word.rememberAll cfg.maxWords known (ch :: cs)⟩ := fun _ _ => rfl
  refine (check (decide_eq_true (Nat.succ_pos _)) _).step ?_
  exact (take (ch :: cs) _).last (hmodify.step (pure _ _))

/-! ### Sequences of pieces -/

variable {fuel i : Nat} {before name text : Text}

private theorem pieces_lower (hi : i < 26) (hlimit : (i : Int) < cfg.maxWords)
    (h : known[i]? = some text)
    (hrest :
      Reads (Reading.pieces cfg false fuel true (before ++ text)) w ⟨s, table, known⟩ name c') :
    Reads (Reading.pieces cfg false (fuel + 1) true before)
      (Text.lowerLetter i :: w) ⟨s, table, known⟩
      name c' := by
  obtain ⟨hlower, -, hindex⟩ := Text.lowerLetter_spec hi
  refine letter?_some (.inl hlower) ?_
  show Reads (if Text.isLower (Text.lowerLetter i) then _ else _) _ _ _ _
  rw [if_pos hlower, hindex]
  exact (word hlimit h).step hrest

private theorem pieces_upper (hi : i < 26) (hlimit : (i : Int) < cfg.maxWords)
    (h : known[i]? = some text)
    (hrest :
      Reads (Reading.pieces cfg false fuel false (before ++ text)) w ⟨s, table, known⟩ name c') :
    Reads (Reading.pieces cfg false (fuel + 1) true before)
      (Text.upperLetter i :: w) ⟨s, table, known⟩
      name c' := by
  obtain ⟨hlower, hupper, -, hindex, -⟩ := Text.upperLetter_spec hi
  refine letter?_some (.inr hupper) ?_
  show Reads (if Text.isLower (Text.upperLetter i) then _ else _) _ _ _ _
  rw [if_neg (by rw [hlower]; decide), hindex]
  exact (word hlimit h).step hrest

private theorem pieces_end :
    Reads (Reading.pieces cfg false (fuel + 1) false before) ['0'] c before c := by
  refine (pure none c).step ?_
  exact (nextIf '0' c).last (pure before c)

private theorem pieces_last {cs : Text} (hch : Text.isAnyDigit ch = false) :
    Reads (Reading.pieces cfg false (fuel + 1) false before)
      (Text.digits (ch :: cs).length ++ (ch :: cs)) ⟨s, table, known⟩ (before ++ ch :: cs)
      ⟨s, table, Word.rememberAll cfg.maxWords known (ch :: cs)⟩ := by
  obtain ⟨d, ds, hds, hdigit, hzero⟩ :=
    Text.digits_eq_cons (n := (ch :: cs).length) (Nat.succ_pos _)
  have hpiece : Reads (do return before ++ (← Reading.piece cfg false))
      (Text.digits (ch :: cs).length ++ (ch :: cs)) ⟨s, table, known⟩ (before ++ ch :: cs)
      ⟨s, table, Word.rememberAll cfg.maxWords known (ch :: cs)⟩ := (piece hch).map (before ++ ·)
  rw [hds] at hpiece ⊢
  exact (pure none _).step (nextIf_ne hzero hpiece)

private theorem pieces_more {cs : Text} (hch : Text.isAnyDigit ch = false)
    (hrest : Reads (Reading.pieces cfg false fuel true (before ++ ch :: cs)) w
      ⟨s, table, Word.rememberAll cfg.maxWords known (ch :: cs)⟩ name c') :
    Reads (Reading.pieces cfg false (fuel + 1) true before)
      (Text.digits (ch :: cs).length ++ (ch :: cs) ++ w) ⟨s, table, known⟩ name c' := by
  obtain ⟨d, ds, hds, hdigit, hzero⟩ :=
    Text.digits_eq_cons (n := (ch :: cs).length) (Nat.succ_pos _)
  have hpiece : Reads (do
      let text ← Reading.piece cfg false
      Reading.pieces cfg false fuel true (before ++ text))
      (Text.digits (ch :: cs).length ++ (ch :: cs) ++ w) ⟨s, table, known⟩ name c' :=
        (piece hch).bind hrest
  rw [hds] at hpiece ⊢
  exact letter?_none hdigit (nextIf_ne hzero hpiece)

/-- A piece in front of a letter may be empty. -/
private theorem pieces_piece {spelled full : Text}
    (hspelled : Identifier.spellPiece full text = .ok spelled)
    (hfuel : spelled.length + w.length < fuel)
    (hrest : ∀ fuel, w.length < fuel → Reads (Reading.pieces cfg false fuel true (before ++ text)) w
      ⟨s, table, Word.rememberAll cfg.maxWords known text⟩ name c') :
    Reads (Reading.pieces cfg false fuel true before) (spelled ++ w) ⟨s, table, known⟩ name c' := by
  rcases text with _ | ⟨ch, cs⟩
  · cases hspelled
    have hrest := hrest fuel (by rw [List.length_nil] at hfuel; omega)
    rwa [List.append_nil] at hrest
  · obtain ⟨fuel, rfl⟩ : ∃ m, fuel = m + 1 := ⟨fuel - 1, by omega⟩
    obtain ⟨hch, rfl⟩ := Identifier.spellPiece_cons hspelled
    have hne : 0 < (Text.digits (ch :: cs).length).length :=
      List.length_pos_iff.mpr (Text.digits_ne_nil _)
    rw [List.length_append] at hfuel
    exact pieces_more hch (hrest fuel (by omega))

end Reads

namespace Identifier

theorem spell_cons {full rest w : Text} {pos : Nat} {use : WordUse} {uses : List WordUse}
    (h : spell full pos rest (use :: uses) = .ok w) :
    ∃ spelled tail, spellPiece full (rest.take (use.start - pos)) = .ok spelled ∧
      spell full (use.start + use.length)
      (rest.drop (use.start - pos + use.length)) uses = .ok tail ∧
      w = spelled ++ ((if !uses.isEmpty then [Text.lowerLetter use.word]
        else if (rest.drop (use.start - pos + use.length)).isEmpty then
        [Text.upperLetter use.word, '0']
        else [Text.upperLetter use.word]) ++ tail) := by
  rw [spell] at h
  rcases hspelled : spellPiece full (rest.take (use.start - pos)) with _ | spelled
  · rw [hspelled] at h
    cases h
  · rw [hspelled] at h
    rcases htail : spell full (use.start + use.length)
      (rest.drop (use.start - pos + use.length)) uses with _ | tail
    · have h : (spell full (use.start + use.length) (rest.drop (use.start - pos + use.length)) uses
        >>= fun tail => Except.ok _) = .ok w := h
      rw [htail] at h
      cases h
    · have h : (spell full (use.start + use.length) (rest.drop (use.start - pos + use.length)) uses
        >>= fun tail => Except.ok (_ ++ _ ++ tail)) = .ok w := h
      rw [htail] at h
      exact ⟨spelled, tail, rfl, rfl, by rw [← Except.ok.inj h, List.append_assoc]⟩

/-- The encoded form of an identifier is in punycode, or made of pieces and words. -/
theorem encode_ok {cfg : Config} {name w : Text} {words words' : List Text}
    (h : encode cfg name words = (.ok w, words')) :
    name ≠ [] ∧ (spellPunycode name = .ok w ∧ words' = words ∨
      ∃ t, spell name 0 name (useWords cfg.maxWords (Word.split name) words).1 = .ok t ∧
        w = announcement (useWords cfg.maxWords (Word.split name) words).1 ++ t ∧
        words' = (useWords cfg.maxWords (Word.split name) words).2) := by
  unfold encode at h
  split at h
  · cases h
  rename_i hne
  refine ⟨fun hnil => hne (List.isEmpty_iff.mpr hnil), ?_⟩
  split at h
  · injection h with hspelled hwords
    exact .inl ⟨hspelled, hwords.symm⟩
  · rcases huses : useWords cfg.maxWords (Word.split name) words with ⟨uses, words''⟩
    rw [huses] at h
    injection h with hspelled hwords
    rcases hspell : spell name 0 name uses with _ | t
    · rw [hspell] at hspelled
      cases hspelled
    · rw [hspell] at hspelled
      exact .inr ⟨t, rfl, (Except.ok.inj hspelled).symm, hwords.symm⟩

theorem spellPunycode_ok {name w : Text} (h : spellPunycode name = .ok w) :
    ∃ encoded, Punycode.encode (name.map CodePoint.toNat) = some encoded ∧
      w = ('0' : CodePoint) :: ('0' : CodePoint) ::
      (Text.digits encoded.length ++ (separator encoded ++ encoded)) := by
  unfold spellPunycode at h
  rcases hencode : Punycode.encode (name.map CodePoint.toNat) with _ | encoded
  · rw [hencode] at h
    cases h
  · rw [hencode] at h
    refine ⟨encoded, rfl, ?_⟩
    rw [← Except.ok.inj h, List.append_assoc, List.append_assoc]
    rfl

/-- What stands behind the mark of a word does not begin with a zero. -/
theorem exists_cons_of_spell {full rest w : Text} {pos : Nat} {uses : List WordUse}
    (hne : uses ≠ []) (huses : ∀ use ∈ uses, use.word < 26) (h : spell full pos rest uses = .ok w) :
    ∃ ch cs, w = ch :: cs ∧ ch ≠ '0' := by
  obtain ⟨use, uses, rfl⟩ := List.exists_cons_of_ne_nil hne
  obtain ⟨spelled, tail, hspelled, -, rfl⟩ := spell_cons h
  -- The word follows at once, or a piece of the name comes before it.
  rcases hpiece : rest.take (use.start - pos) with _ | ⟨ch, cs⟩
  · rw [hpiece] at hspelled
    cases hspelled
    have hword := huses use List.mem_cons_self
    have hlower : Text.lowerLetter use.word ≠ '0' := by
      intro hzero
      have hdigit := (Text.lowerLetter_spec hword).2.1
      rw [hzero] at hdigit
      cases hdigit
    have hupper : Text.upperLetter use.word ≠ '0' := by
      intro hzero
      have hdigit := (Text.upperLetter_spec hword).2.2.1
      rw [hzero] at hdigit
      cases hdigit
    split
    · exact ⟨_, _, rfl, hlower⟩
    · split
      · exact ⟨_, _, rfl, hupper⟩
      · exact ⟨_, _, rfl, hupper⟩
  · rw [hpiece] at hspelled
    obtain ⟨-, rfl⟩ := spellPiece_cons hspelled
    -- A piece begins with its length, which is not zero.
    obtain ⟨d, ds, hds, -, hzero⟩ := Text.digits_eq_cons (n := (ch :: cs).length) (Nat.succ_pos _)
    rw [hds]
    exact ⟨d, _, rfl, hzero⟩

/-- Every word that is used has a number within the limit. -/
theorem word_lt_of_mem_useWords {limit : Int} {ws : List (Nat × Text)} {words : List Text}
    (h : (words.length : Int) ≤ limit) :
    ∀ use ∈ (useWords limit ws words).1, (use.word : Int) < limit := by
  induction ws generalizing words with
  | nil => nofun
  | cons entry ws ih =>
    obtain ⟨start, word⟩ := entry
    rw [useWords]
    split
    · rename_i i hi
      obtain ⟨hi, -⟩ := List.idxOf?_eq_some_iff.mp hi
      intro use huse
      rcases List.mem_cons.mp huse with rfl | huse
      · show (i : Int) < limit
        omega
      · exact ih h use huse
    · exact ih (Word.length_remember word h)

theorem length_useWords {limit : Int} {ws : List (Nat × Text)} {words : List Text}
    (h : (words.length : Int) ≤ limit) : ((useWords limit ws words).2.length : Int) ≤ limit := by
  induction ws generalizing words with
  | nil => exact h
  | cons entry ws ih =>
    obtain ⟨start, word⟩ := entry
    rw [useWords]
    split
    · exact ih h
    · exact ih (Word.length_remember word h)

end Identifier

namespace Reads

variable {cfg : Config} {s : List Node} {table : SubstitutionTable}

/-- A letter for a word is read, and then what follows it. -/
private theorem pieces_letter {full word rest tail before : Text} {i pos fuel : Nat}
    {words words' : List Text} {uses : List Identifier.WordUse} (hi : i < 26)
    (hbound : (i : Int) < cfg.maxWords) (hget : words[i]? = some word)
    (htail : Identifier.spell full pos rest uses = .ok tail)
    (hlast : uses = [] → words' = Word.rememberAll cfg.maxWords words rest)
    (hmore : uses ≠ [] → ∀ fuel before, tail.length < fuel →
      Reads (Reading.pieces cfg false fuel true before) tail ⟨s, table, words⟩ (before ++ rest)
        ⟨s, table, words'⟩) {letter : Text}
    (hletter : letter = if !uses.isEmpty then [Text.lowerLetter i]
      else if rest.isEmpty then [Text.upperLetter i, '0'] else [Text.upperLetter i])
    (hfuel : (letter ++ tail).length < fuel) :
    Reads (Reading.pieces cfg false fuel true before) (letter ++ tail) ⟨s, table, words⟩
      (before ++ word ++ rest) ⟨s, table, words'⟩ := by
  rw [List.length_append] at hfuel
  obtain ⟨fuel, rfl⟩ : ∃ m, fuel = m + 1 := ⟨fuel - 1, by omega⟩
  -- The last word has a capital letter. Behind it comes the rest of the name, or a zero if nothing
  -- is left.
  rcases uses with _ | ⟨use, uses⟩
  · rw [hlast rfl]
    rcases rest with _ | ⟨ch, cs⟩
    · cases htail
      subst hletter
      obtain ⟨fuel, rfl⟩ : ∃ m, fuel = m + 1 := ⟨fuel - 1, by simp at hfuel; omega⟩
      have hend : Reads (Reading.pieces cfg false (fuel + 1) false (before ++ word)) ['0']
          ⟨s, table, words⟩ (before ++ word ++ []) ⟨s, table, words⟩ := by
        rw [List.append_nil]
        exact pieces_end
      exact pieces_upper hi hbound hget hend
    · obtain ⟨hch, rfl⟩ := Identifier.spellPiece_cons htail
      subst hletter
      obtain ⟨fuel, rfl⟩ : ∃ m, fuel = m + 1 := ⟨fuel - 1, by simp at hfuel; omega⟩
      exact pieces_upper hi hbound hget (pieces_last hch)
  · subst hletter
    refine pieces_lower hi hbound hget (hmore (List.cons_ne_nil _ _) fuel _ ?_)
    simp at hfuel
    omega

/-- From a point on where a word may begin, an identifier is read as it is spelled. `pending` is
what comes before that point and has not yet been read. -/
private theorem pieces_spell (table : SubstitutionTable) (full : Text) (hmax : cfg.maxWords ≤ 26)
    {ws : List (Nat × Text)} :
    ∀ {pos : Nat} {pending rest : Text} {words known words' : List Text}
      {uses : List Identifier.WordUse},
      Word.splitFrom pos [] rest = ws → pending.length ≤ pos →
      Word.EndsBefore (Word.openAfter [] pending) rest →
      Word.rememberAll cfg.maxWords known pending = words → (words.length : Int) ≤ cfg.maxWords →
      Identifier.useWords cfg.maxWords ws words = (uses, words') →
      (uses = [] → words' = Word.rememberAll cfg.maxWords known (pending ++ rest)) ∧
      (uses ≠ [] → ∀ w, Identifier.spell full (pos - pending.length)
        (pending ++ rest) uses = .ok w →
        ∀ fuel before, w.length < fuel → Reads (Reading.pieces cfg false fuel true before) w
          ⟨s, table, known⟩ (before ++ (pending ++ rest)) ⟨s, table, words'⟩) := by
  induction ws with
  | nil =>
    intro pos pending rest words known words' uses hws hpos hends hwords hlength huses
    cases huses
    refine ⟨fun _ => ?_, fun h => absurd rfl h⟩
    rcases Word.splitFrom_cases rest with hnone | ⟨gap, word, rest', hfirst⟩
    · rw [Word.rememberAll_of_splitFrom_nil hnone hends, hwords]
    · rw [hfirst.splitFrom_eq] at hws
      cases hws
  | cons entry ws ih =>
    intro pos pending rest words known words' uses hws hpos hends hwords hlength huses
    rcases Word.splitFrom_cases rest with hnone | ⟨gap, word, rest', hfirst⟩
    · rw [hnone] at hws
      cases hws
    rw [hfirst.splitFrom_eq] at hws
    injection hws with hentry hws
    subst hentry
    rw [Identifier.useWords] at huses
    split at huses
    · -- The word occurred before.
      rename_i i hi
      cases huses
      obtain ⟨hi, hword, -⟩ := List.idxOf?_eq_some_iff.mp hi
      have hbound : (i : Int) < cfg.maxWords := by omega
      have hget : words[i]? = some word := by rw [List.getElem?_eq_getElem hi, hword]
      obtain ⟨hlast, hmore⟩ := ih hws (show ([] : Text).length ≤ _ from Nat.zero_le _)
        (Word.endsBefore_nil rest')
        (rfl : Word.rememberAll cfg.maxWords words [] = words) hlength rfl
      refine ⟨fun h => absurd h (List.cons_ne_nil _ _), fun _ w hspell fuel before hfuel => ?_⟩
      obtain ⟨spelled, tail, hspelled, htail, rfl⟩ := Identifier.spell_cons hspell
      have hrest : pending ++ rest = pending ++ gap ++ (word ++ rest') := by
        rw [hfirst.eq, List.append_assoc]
      have htake : (pending ++ rest).take (pos + gap.length - (pos - pending.length)) =
          pending ++ gap := by
        rw [hrest, List.take_left' (by rw [List.length_append]; omega)]
      have hdrop : (pending ++ rest).drop (pos + gap.length - (pos - pending.length) + word.length)
          = rest' := by
        rw [hrest, ← List.append_assoc, List.drop_left' (by simp only [List.length_append]; omega)]
      simp only [htake] at hspelled
      simp only [hdrop] at htail hfuel ⊢
      rw [hrest]
      refine pieces_piece hspelled
        (by simp only [List.length_append] at hfuel ⊢; omega) fun fuel hfuel => ?_
      have hname : before ++ (pending ++ gap ++ (word ++ rest'))
          = before ++ (pending ++ gap) ++ word ++ rest' := by simp
      rw [hfirst.rememberAll_gap hends, hwords, hname]
      exact pieces_letter (by omega) hbound hget htail hlast
        (fun hne fuel before hfuel => hmore hne _ htail fuel before hfuel) rfl (by omega)
    · -- The word is new, and is going to be read with what comes before it.
      have hpending : (pending ++ (gap ++ word)).length ≤ pos + gap.length + word.length := by
        simp only [List.length_append]
        omega
      have hremembered : Word.rememberAll cfg.maxWords known (pending ++ (gap ++ word))
          = Word.remember cfg.maxWords words word := by rw [hfirst.rememberAll_word hends, hwords]
      have hih := ih hws hpending (hfirst.endsBefore_rest hends) hremembered
        (Word.length_remember word hlength) huses
      have htext : pending ++ (gap ++ word) ++ rest' = pending ++ rest := by
        rw [hfirst.eq]
        simp
      have hstart : pos + gap.length + word.length - (pending ++ (gap ++ word)).length
          = pos - pending.length := by
        simp only [List.length_append]
        omega
      rwa [htext, hstart] at hih

/-! ### Whole identifiers -/

variable {name w : Text} {words words' : List Text}

/-- An identifier without letters for words is a single piece. -/
private theorem identifierText_piece (h : Identifier.spellPiece name name = .ok w)
    (hne : name ≠ []) :
    Reads (Reading.identifierText cfg) w ⟨s, table, words⟩ name
      ⟨s, table, Word.rememberAll cfg.maxWords words name⟩ := by
  obtain ⟨ch, cs, rfl⟩ := List.exists_cons_of_ne_nil hne
  obtain ⟨hch, rfl⟩ := Identifier.spellPiece_cons h
  refine get fun offset rest => ?_
  have hpieces : ∀ fuel, Reads (Reading.pieces cfg false (fuel + 1) false [])
      (Text.digits (ch :: cs).length ++ (ch :: cs)) ⟨s, table, words⟩ (ch :: cs)
      ⟨s, table, Word.rememberAll cfg.maxWords words (ch :: cs)⟩ := fun _ => pieces_last hch
  obtain ⟨d, ds, hds, hdigit, hzero⟩ :=
    Text.digits_eq_cons (n := (ch :: cs).length) (Nat.succ_pos _)
  rw [hds] at hpieces ⊢
  refine peek ?_
  split
  · rename_i heq
    exact absurd (Option.some.inj heq) hzero
  · rename_i heq
    cases heq
    exact (check hdigit _).step (hpieces _)
  · rename_i heq
    cases heq

private theorem identifierText_words (hmax : cfg.maxWords ≤ 26)
    (hlength : (words.length : Int) ≤ cfg.maxWords)
    (hne : (Identifier.useWords cfg.maxWords (Word.split name) words).1 ≠ [])
    (h : Identifier.spell name 0 name
      (Identifier.useWords cfg.maxWords (Word.split name) words).1 = .ok w) :
    Reads (Reading.identifierText cfg) ('0' :: w) ⟨s, table, words⟩ name
      ⟨s, table, (Identifier.useWords cfg.maxWords (Word.split name) words).2⟩ := by
  have hpieces : ∀ fuel, w.length < fuel → Reads (Reading.pieces cfg false fuel true []) w
      ⟨s, table, words⟩ name
      ⟨s, table, (Identifier.useWords cfg.maxWords (Word.split name) words).2⟩ :=
    fun fuel hfuel =>
      (pieces_spell table name hmax rfl (show ([] : Text).length ≤ 0 from Nat.le_refl 0)
      (Word.endsBefore_nil name) rfl hlength rfl).2 hne w h fuel [] hfuel
  refine get fun offset rest => peek ?_
  refine (advance ['0'] _).bind ?_
  have hfuel : w.length < (('0' : CodePoint) :: w ++ rest).length + 1 := by
    simp only [List.cons_append, List.length_cons, List.length_append]
    omega
  -- Behind the mark stands a letter, or the length of a piece, which is no zero.
  obtain ⟨ch, cs, rfl, hch⟩ := Identifier.exists_cons_of_spell hne (fun use huse => by
    have hword := Identifier.word_lt_of_mem_useWords hlength use huse
    omega) h
  exact nextIf_ne hch (hpieces _ hfuel)

/-- What punycode encodes is decoded, unless it holds a surrogate that means another character
there. -/
theorem decodePunycode?_encode {encoded : Text} (hkeeps : Punycode.Keeps name)
    (h : Punycode.encode (name.map CodePoint.toNat) = some encoded) :
    Reading.decodePunycode? encoded = some name := by
  have hdecode : Punycode.decode encoded = some (name.map CodePoint.toNat) := by
    refine Punycode.decode_encode_of_restore (fun n hn => ?_) (fun n hn => ?_) h
    · obtain ⟨c, -, rfl⟩ := List.mem_map.mp hn
      exact Nat.le_of_lt_succ c.toNat_lt
    · obtain ⟨c, hc, rfl⟩ := List.mem_map.mp hn
      exact hkeeps c hc
  have hname : (name.map CodePoint.toNat).map CodePoint.ofNat = name := by
    rw [List.map_map]
    exact (List.map_congr_left fun c _ => CodePoint.ofNat_toNat c).trans (List.map_id name)
  unfold Reading.decodePunycode?
  rw [hdecode, Option.map_some, hname]

/-- A piece in punycode is read, behind a mark if it could be taken for a part of its length. -/
private theorem piece_punycode {ch : CodePoint} {cs : Text} {c : Store}
    (hdecode : Reading.decodePunycode? (ch :: cs) = some name) :
    Reads (Reading.piece cfg true)
      (Text.digits (ch :: cs).length ++ (Identifier.separator (ch :: cs) ++ (ch :: cs))) c
      name c := by
  have hrest : Reads (do
      let text ← Reading.take (ch :: cs).length
      Reading.require (Reading.decodePunycode? text) .badPunycode) (ch :: cs) c name c := by
    refine (take (ch :: cs) c).last ?_
    rw [hdecode]
    exact require_some name _
  rw [Identifier.separator_cons]
  -- Only in front of a digit or a mark does the writer put a mark of its own.
  split
  · refine natural _ (by decide) ((check (decide_eq_true (Nat.succ_pos _)) _).step ?_)
    rw [if_pos rfl]
    exact ((nextIf '_' c).map fun _ => ()).bind hrest
  · rename_i hch
    rw [Bool.or_eq_true, not_or] at hch
    have hdigit : Text.isDigit ch = false :=
      Text.isDigit_of_isAnyDigit (Bool.eq_false_iff.mpr hch.1)
    refine natural _ hdigit ((check (decide_eq_true (Nat.succ_pos _)) _).step ?_)
    rw [if_pos rfl]
    show Reads ((fun _ => ()) <$> Reading.nextIf '_' >>= fun _ => _) _ _ _ _
    rw [bind_map_left]
    exact nextIf_ne (fun heq => hch.2 (decide_eq_true heq)) hrest

/-- Two zeros announce punycode. -/
private theorem identifierText_announced {c : Store}
    (h : ∀ fuel, Reads (Reading.pieces cfg true (fuel + 1) false []) w c name c) :
    Reads (Reading.identifierText cfg) (('0' : CodePoint) :: ('0' : CodePoint) :: w) c name c := by
  refine get fun offset rest => peek ?_
  refine (advance ['0'] c).bind ((nextIf '0' c).bind ?_)
  rw [if_pos rfl]
  exact h _

private theorem pieces_punycode {ch : CodePoint} {cs : Text} {c : Store}
    (hdecode : Reading.decodePunycode? (ch :: cs) = some name) (fuel : Nat) :
    Reads (Reading.pieces cfg true (fuel + 1) false [])
      (Text.digits (ch :: cs).length ++ (Identifier.separator (ch :: cs) ++ (ch :: cs))) c
      name c := by
  have hpiece : Reads (do return [] ++ (← Reading.piece cfg true)) _ _ _ _ :=
    (piece_punycode (c := c) hdecode).map ([] ++ ·)
  obtain ⟨d, ds, hds, -, hzero⟩ := Text.digits_eq_cons (n := (ch :: cs).length) (Nat.succ_pos _)
  rw [hds] at hpiece ⊢
  exact (pure none _).step (nextIf_ne hzero hpiece)

private theorem identifierText_punycode {c : Store} (hkeeps : Punycode.Keeps name)
    (h : Identifier.spellPunycode name = .ok w) (hne : name ≠ []) :
    Reads (Reading.identifierText cfg) w c name c ∧ ∃ cs, w = ('0' : CodePoint) :: cs := by
  obtain ⟨encoded, hencode, rfl⟩ := Identifier.spellPunycode_ok h
  have hdecode := decodePunycode?_encode hkeeps hencode
  have hencoded : encoded ≠ [] := by
    rintro rfl
    cases hdecode
    exact hne rfl
  obtain ⟨ch, cs, rfl⟩ := List.exists_cons_of_ne_nil hencoded
  exact ⟨identifierText_announced (pieces_punycode hdecode), _, rfl⟩

/-- The text of an identifier is read as it is spelled, and leaves the words that the writer has. -/
theorem identifierText (hmax : cfg.maxWords ≤ 26) (hkeeps : Punycode.Keeps name)
    (hlength : (words.length : Int) ≤ cfg.maxWords)
    (h : Identifier.encode cfg name words = (.ok w, words')) :
    Reads (Reading.identifierText cfg) w ⟨s, table, words⟩ name ⟨s, table, words'⟩ ∧
      (words'.length : Int) ≤ cfg.maxWords ∧ name ≠ [] ∧
      ∃ ch cs, w = ch :: cs ∧ Text.isDigit ch = true := by
  -- The name is spelled in punycode or with words. Without a word to use, it is a single piece.
  obtain ⟨hne, ⟨hspelled, rfl⟩ | ⟨t, hspelled, rfl, rfl⟩⟩ := Identifier.encode_ok h
  · obtain ⟨hread, cs, hw⟩ := identifierText_punycode (c := ⟨s, table, words'⟩) hkeeps hspelled hne
    exact ⟨hread, hlength, hne, '0', cs, hw, rfl⟩
  · have hlength' : ((Identifier.useWords cfg.maxWords (Word.split name) words).2.length : Int)
        ≤ cfg.maxWords := Identifier.length_useWords hlength
    rcases huses : (Identifier.useWords cfg.maxWords (Word.split name) words).1 with _ | ⟨use, uses⟩
    · have hremembered : (Identifier.useWords cfg.maxWords (Word.split name) words).2
          = Word.rememberAll cfg.maxWords words name :=
        (pieces_spell (s := s) table name hmax rfl (show ([] : Text).length ≤ 0 from Nat.le_refl 0)
          (Word.endsBefore_nil name) rfl hlength rfl).1 huses
      rw [huses] at hspelled
      refine ⟨?_, hlength', hne, ?_⟩
      · rw [hremembered]
        exact identifierText_piece hspelled hne
      · obtain ⟨ch, cs, rfl⟩ := List.exists_cons_of_ne_nil hne
        obtain ⟨-, rfl⟩ := Identifier.spellPiece_cons hspelled
        obtain ⟨d, ds, hds, hdigit, -⟩ :=
          Text.digits_eq_cons (n := (ch :: cs).length) (Nat.succ_pos _)
        rw [hds]
        exact ⟨d, _, rfl, hdigit⟩
    · have huses' : (Identifier.useWords cfg.maxWords (Word.split name) words).1 ≠ [] := by
        rw [huses]
        exact List.cons_ne_nil _ _
      exact ⟨identifierText_words hmax hlength huses' hspelled, hlength', hne, '0', t, rfl, rfl⟩

/-- An identifier is read as it is spelled, and registered. -/
theorem registeredIdentifier (hmax : cfg.maxWords ≤ 26) (hkeeps : Punycode.Keeps name)
    (hlength : (words.length : Int) ≤ cfg.maxWords)
    (h : Identifier.encode cfg name words = (.ok w, words')) :
    Reads (Reading.identifier cfg) w ⟨s, table, words⟩ (.identifier name)
      ⟨s, table.insert (.identifier name) (.tree (.identifier name)), words'⟩ := by
  obtain ⟨hread, -, hne, -⟩ :
      Reads (Reading.identifierText cfg) w ⟨s, table, words⟩ name ⟨s, table, words'⟩ ∧ _ :=
    identifierText hmax hkeeps hlength h
  have hfits : (Node.mk .identifier (.text name) []).Fits := ⟨rfl, rfl, rfl⟩
  have hempty : (!name.isEmpty) = true := by
    rw [List.isEmpty_eq_false_iff.mpr hne]
    rfl
  refine hread.last ((check hempty _).step ((build hfits _).step ?_))
  exact (register rfl).step (pure _ _)

/-- An identifier is an operator of its own. -/
theorem identifier (hmax : cfg.maxWords ≤ 26) (hkeeps : Punycode.Keeps name)
    (hlength : (words.length : Int) ≤ cfg.maxWords)
    (h : Identifier.encode cfg name words = (.ok w, words')) :
    Parses cfg w ⟨s, table, words⟩ ⟨.identifier name :: s,
        table.insert (.identifier name) (.tree (.identifier name)), words'⟩ ∧
      (words'.length : Int) ≤ cfg.maxWords ∧ w ≠ [] := by
  obtain ⟨-, hlength', -, ch, cs, rfl, hdigit⟩ :
      Reads (Reading.identifierText cfg) w ⟨s, table, words⟩ name ⟨s, table, words'⟩ ∧ _ :=
    identifierText hmax hkeeps hlength h
  exact ⟨.of_identifier hdigit (registeredIdentifier hmax hkeeps hlength h), hlength',
    List.cons_ne_nil _ _⟩

end Reads

end SwiftABI
