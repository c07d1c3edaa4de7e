/-
  Names that can be spelled, and builtin types that have letters.

  A name has an encoded form unless a piece that is written out begins with a digit. The first piece
  begins where the name does, and any other one behind a word that is referred to, where no digit
  can stand. So a name of symbol characters can be spelled if it does not begin with a digit. Any
  other name is written in punycode, which every name has. Those that look like a number are the
  only ones without an encoded form, and all others are read back from it (`Identifier.codec`).
-/
import SwiftABI.Proofs.Symbol.Identifier
import SwiftABI.Proofs.Symbol.Operators.Builtin
import SwiftABI.Proofs.Text.Symbolic

namespace SwiftABI

/-- A name can be spelled, whatever words there are to refer to. -/
def Spellable (cfg : Config) (name : Text) : Prop :=
  ∀ words, ∃ w, (Identifier.encode cfg name words).1 = .ok w

/-- The text does not begin with a digit. -/
def Text.NoDigitFirst (t : Text) : Prop := ∀ c, t.head? = some c → isAnyDigit c = false

-- By cases of the text: an instance that is found for all characters tries each of them.
instance Text.decidableNoDigitFirst (t : Text) : Decidable t.NoDigitFirst :=
  match t with
  | [] => .isTrue fun _ h => by cases h
  | c :: _ =>
    decidable_of_iff (isAnyDigit c = false) ⟨fun h _ hd => by cases hd; exact h, fun h => h c rfl⟩

/-- What holds of the text of a payload can be found out. -/
instance Payload.decidableForallText (p : Payload) (q : Text → Prop) [DecidablePred q] :
    Decidable (∀ t, p = .text t → q t) :=
  match p with
  | .text t => decidable_of_iff (q t) ⟨fun h _ ht => by cases ht; exact h, fun h => h t rfl⟩
  | .none => .isTrue fun _ h => by cases h
  | .index _ => .isTrue fun _ h => by cases h

/-- Punycode is for the names that hold other characters than a symbol may. -/
theorem Punycode.needed_eq_false_iff {t : Text} :
    needed (t.map CodePoint.toNat) = false ↔ ∀ c ∈ t, Text.isSymbolChar c = true := by
  have hscalar : ∀ c : CodePoint, isSymbolScalar c.toNat = true ↔ Text.isSymbolChar c = true := by
    intro c
    unfold isSymbolScalar
    rw [CodePoint.ofNat_toNat, Bool.and_eq_true, decide_eq_true_eq]
    exact ⟨And.right, fun h => ⟨Text.toNat_lt_of_isSymbolChar h, h⟩⟩
  unfold needed
  rw [List.any_eq_false]
  simp [hscalar]

/-- A character that a word ends before is no digit. -/
theorem Word.isAnyDigit_of_isEnd {c prev : CodePoint} (h : isEnd c prev = true) :
    Text.isAnyDigit c = false := by
  unfold isEnd at h
  rw [Bool.or_eq_true, Bool.or_eq_true, Bool.and_eq_true, decide_eq_true_eq, decide_eq_true_eq] at h
  rcases h with (rfl | rfl) | ⟨-, hupper⟩
  · rfl
  · rfl
  · have hrange := Text.isUpper_iff.mp hupper
    rw [Text.isAnyDigit_of_ascii (by omega), Text.isDigit_eq_false_iff]
    omega

/-- What is left behind a word does not begin with a digit. -/
theorem Word.FirstWord.noDigitFirst {t gap word rest : Text} (h : FirstWord t gap word rest) :
    rest.NoDigitFirst := by
  intro c hc
  obtain ⟨prev, hprev⟩ : ∃ prev, word.getLast? = some prev :=
    ⟨word.getLast h.ne_nil, List.getLast?_eq_some_getLast h.ne_nil⟩
  exact isAnyDigit_of_isEnd (h.endsBefore prev hprev c hc)

/-- Words are listed from where the text begins, or from where the open word does. -/
theorem Word.le_of_mem_splitFrom {t : Text} :
    ∀ {pos : Nat} {current : Text} {entry : Nat × Text}, entry ∈ splitFrom pos current t →
      pos - current.length ≤ entry.1 := by
  -- By induction on the text, for all open words.
  induction t with
  | nil =>
    intro pos current entry h
    rw [splitFrom] at h
    split at h
    · cases h
    · rw [List.mem_singleton.mp h]
  | cons c cs ih =>
    intro pos current entry h
    -- Behind the end of a word, the next one does not begin before this position.
    have hstarted : ∀ {entry : Nat × Text},
        entry ∈ splitFrom (pos + 1) (if isStart c then [c] else []) cs → pos ≤ entry.1 := by
      intro entry h
      have hle := ih h
      split at hle <;> simp at hle <;> omega
    rw [splitFrom] at h
    split at h
    · have hle := hstarted h
      omega
    · split at h
      · rcases List.mem_cons.mp h with rfl | h
        · exact Nat.le_refl _
        · have hle := hstarted h
          omega
      · have hle := ih h
        rw [List.length_append, List.length_singleton] at hle
        omega

/-- No word begins with a digit. -/
theorem Word.pos_of_mem_split {d : CodePoint} {ds : Text} {entry : Nat × Text}
    (hd : Text.isDigit d = true) (h : entry ∈ split (d :: ds)) : 0 < entry.1 := by
  have hstart : isStart d = false := by simp [isStart, hd]
  have hsplit : split (d :: ds) = splitFrom 1 [] ds := by
    rw [split, splitFrom, hstart]
    rfl
  rw [hsplit] at h
  exact le_of_mem_splitFrom h

namespace Identifier

/-- A piece that does not begin with a digit is written out. -/
theorem exists_spellPiece (name : Text) {piece : Text} (h : piece.NoDigitFirst) :
    ∃ w, spellPiece name piece = .ok w := by
  rcases piece with _ | ⟨c, cs⟩
  · exact ⟨[], rfl⟩
  · refine ⟨Text.digits (c :: cs).length ++ (c :: cs), ?_⟩
    rw [spellPiece, h c rfl]
    rfl

/-- Pieces that can be written out are put together. -/
private theorem exists_spell_cons {name rest spelled tail : Text} {pos : Nat} {use : WordUse}
    {uses : List WordUse} (hpiece : spellPiece name (rest.take (use.start - pos)) = .ok spelled)
    (htail : spell name (use.start + use.length)
      (rest.drop (use.start - pos + use.length)) uses = .ok tail) :
    ∃ w, spell name pos rest (use :: uses) = .ok w := by
  rw [spell, hpiece]
  show ∃ w, (do return _ ++ (← spell name _ _ uses)) = Except.ok w
  rw [htail]
  exact ⟨_, rfl⟩

/-- What is left of an identifier can be spelled, if no digit stands in front. -/
theorem exists_spell (name : Text) (limit : Int) {ws : List (Nat × Text)} :
    ∀ {pos : Nat} {pending rest : Text} {words : List Text},
      Word.splitFrom (pos + pending.length) [] rest = ws → (pending ++ rest).NoDigitFirst →
        ∃ w, spell name pos (pending ++ rest) (useWords limit ws words).1 = .ok w := by
  induction ws with
  | nil =>
    intro pos pending rest words _ hdigit
    exact exists_spellPiece name hdigit
  | cons entry ws ih =>
    intro pos pending rest words hsplit hdigit
    rcases Word.splitFrom_cases rest with hnil | ⟨gap, word, after, hfirst⟩
    · rw [hnil] at hsplit
      cases hsplit
    · rw [hfirst.splitFrom_eq] at hsplit
      obtain ⟨rfl, hws⟩ := List.cons_eq_cons.mp hsplit
      have hpieces : pending ++ rest = (pending ++ (gap ++ word)) ++ after := by
        rw [hfirst.eq]
        simp only [List.append_assoc]
      rw [useWords]
      split
      · -- The word is referred to, and what stands in front of it is a piece.
        rename_i i hfound
        have hstart : pos + pending.length + gap.length - pos = (pending ++ gap).length := by
          rw [List.length_append]
          omega
        have htake : (pending ++ rest).take (pos + pending.length + gap.length - pos) =
            pending ++ gap := by
          rw [hstart, hfirst.eq, ← List.append_assoc, List.take_left]
        have hdrop : (pending ++ rest).drop (pos + pending.length + gap.length - pos + word.length)
            = after := by
          rw [hstart, hpieces, ← List.length_append, List.append_assoc pending gap word,
            List.drop_left]
        have hpiece : (pending ++ gap).NoDigitFirst := by
          intro c hc
          refine hdigit c ?_
          rw [hfirst.eq, ← List.append_assoc, List.head?_append, hc]
          rfl
        obtain ⟨spelled, hspelled⟩ := exists_spellPiece name hpiece
        obtain ⟨tail, htail⟩ := @ih _ [] after words hws hfirst.noDigitFirst
        rw [← htake] at hspelled
        rw [List.nil_append, ← hdrop] at htail
        exact exists_spell_cons hspelled htail
      · -- The word is a part of the piece.
        rw [hpieces]
        refine ih ?_ (by rwa [hpieces] at hdigit)
        rw [← hws]
        congr 1
        simp only [List.length_append]
        omega

/-- Each word that is used stands where it was found. -/
theorem exists_mem_of_mem_useWords {limit : Int} {ws : List (Nat × Text)} {words : List Text}
    {use : WordUse}
    (h : use ∈ (useWords limit ws words).1) : ∃ entry ∈ ws, use.start = entry.1 := by
  induction ws generalizing words with
  | nil => cases h
  | cons entry ws ih =>
    obtain ⟨start, word⟩ := entry
    rw [useWords] at h
    split at h
    · rcases List.mem_cons.mp h with rfl | h
      · exact ⟨_, List.mem_cons_self, rfl⟩
      · obtain ⟨entry, hentry, hstart⟩ := ih h
        exact ⟨entry, List.mem_cons_of_mem _ hentry, hstart⟩
    · obtain ⟨entry, hentry, hstart⟩ := ih h
      exact ⟨entry, List.mem_cons_of_mem _ hentry, hstart⟩

/-- A digit in front is a part of the first piece, wherever the first word is used. -/
theorem spell_eq_error (name : Text) {d : CodePoint} {ds : Text} {pos : Nat} {uses : List WordUse}
    (hd : Text.isAnyDigit d = true) (huses : ∀ use ∈ uses, pos < use.start) :
    spell name pos (d :: ds) uses = .error (.startsWithDigit name) := by
  have hpiece : ∀ cs, spellPiece name (d :: cs) = .error (.startsWithDigit name) := by
    intro cs
    rw [spellPiece, hd]
    rfl
  rcases uses with _ | ⟨use, uses⟩
  · exact hpiece ds
  · obtain ⟨length, hlength⟩ : ∃ length, use.start - pos = length + 1 := by
      have hstart := huses use List.mem_cons_self
      exact ⟨use.start - pos - 1, by omega⟩
    rw [spell, hlength, List.take_succ_cons, hpiece]
    rfl

end Identifier

namespace Operator

/-- The letter is one of the table, unless the character stands for itself. -/
theorem letter_cases (c : CodePoint) : letter c = c ∨ ∃ entry ∈ letters, letter c = entry.1 := by
  unfold letter
  split
  · rename_i entry hfound
    exact .inr ⟨entry, List.mem_of_find?_eq_some hfound, rfl⟩
  · exact .inl rfl

variable {name : Text}

theorem noSurrogates_translate (h : name.NoSurrogates) : (translate name).NoSurrogates := by
  have hall : ∀ entry ∈ letters, entry.1.isChar = true := by decide
  intro c hc
  obtain ⟨o, ho, rfl⟩ := List.mem_map.mp hc
  rcases letter_cases o with heq | ⟨entry, hmem, heq⟩
  · rw [heq]
    exact h o ho
  · rw [heq]
    exact hall entry hmem

theorem keeps_translate (h : Punycode.Keeps name) : Punycode.Keeps (translate name) := by
  have hall : ∀ entry ∈ letters,
      Punycode.restore (Punycode.displace entry.1.toNat) = entry.1.toNat := by
    decide
  intro c hc
  obtain ⟨o, ho, rfl⟩ := List.mem_map.mp hc
  rcases letter_cases o with heq | ⟨entry, hmem, heq⟩
  · rw [heq]
    exact h o ho
  · rw [heq]
    exact hall entry hmem

end Operator

namespace Spellable

variable {cfg : Config} {name : Text}

/-- A name can be spelled if no digit stands in front of its symbol characters. -/
theorem of_noDigitFirst (hpunycode : cfg.usePunycode = true) (hne : name ≠ [])
    (hchars : name.NoSurrogates)
    (h : Punycode.needed (name.map CodePoint.toNat) = false → name.NoDigitFirst) :
    Spellable cfg name := by
  intro words
  unfold Identifier.encode
  rw [List.isEmpty_eq_false_iff.mpr hne, if_neg Bool.false_ne_true, hpunycode]
  rcases hneeded : Punycode.needed (name.map CodePoint.toNat) with _ | _
  · have hspell : ∃ w, Identifier.spell name 0 name
        (Identifier.useWords cfg.maxWords (Word.split name) words).1 = .ok w :=
      Identifier.exists_spell name cfg.maxWords
        (rfl : Word.splitFrom (0 + ([] : Text).length) [] name = Word.split name) (h hneeded)
    obtain ⟨w, hw⟩ := hspell
    show ∃ w, (Identifier.spell name 0 name _).map _ = Except.ok w
    rw [hw]
    exact ⟨_, rfl⟩
  · obtain ⟨encoded, hencode⟩ := Punycode.exists_encode hchars.isValidChar
    show ∃ w, Identifier.spellPunycode name = Except.ok w
    unfold Identifier.spellPunycode
    rw [hencode]
    exact ⟨_, rfl⟩

/-- Operators are spelled by letters. -/
theorem translate (hpunycode : cfg.usePunycode = true) (hne : name ≠ [])
    (hchars : name.NoSurrogates)
    (h : ∀ c ∈ name, Operator.IsOperatorChar c) : Spellable cfg (Operator.translate name) := by
  have hne' : Operator.translate name ≠ [] := fun hnil => hne (List.map_eq_nil_iff.mp hnil)
  refine of_noDigitFirst hpunycode hne' (Operator.noSurrogates_translate hchars) fun hneeded c hc =>
    ?_
  have hmem : c ∈ Operator.translate name := List.mem_of_mem_head? hc
  obtain ⟨o, ho, rfl⟩ := List.mem_map.mp hmem
  have hscalar : Punycode.isSymbolScalar (Operator.letter o).toNat = true := by
    have hall := List.any_eq_false.mp hneeded _ (List.mem_map_of_mem hmem)
    rwa [Bool.not_eq_true, Bool.not_eq_false'] at hall
  have hascii : (Operator.letter o).toNat < 0x80 := by
    unfold Punycode.isSymbolScalar at hscalar
    rw [Bool.and_eq_true, decide_eq_true_eq] at hscalar
    exact hscalar.1
  have hletter : Operator.char? (Operator.letter o) = some o := h o ho
  unfold Operator.char? at hletter
  rw [if_neg (by omega)] at hletter
  have hall : ∀ entry ∈ Operator.letters, Text.isAnyDigit entry.1 = false := by decide
  obtain ⟨before, after, hletters, -⟩ := List.lookup_eq_some_iff.mp hletter
  exact hall (Operator.letter o, o)
    (by rw [hletters]; exact List.mem_append_right _ List.mem_cons_self)

end Spellable

/-! ### Encoding and reading -/

namespace Identifier

variable {name : Text}

/-- A name of symbol characters with a digit in front is refused. -/
theorem encode_eq_startsWithDigit {cfg : Config} {d : CodePoint} {ds : Text} (words : List Text)
    (hchars : ∀ c ∈ d :: ds, Text.isSymbolChar c = true) (hd : Text.isDigit d = true) :
    (encode cfg (d :: ds) words).1 = .error (.startsWithDigit (d :: ds)) := by
  have hany : Text.isAnyDigit d = true := by
    rwa [Text.isAnyDigit_of_ascii (Text.toNat_lt_of_isSymbolChar (hchars d List.mem_cons_self))]
  have hspell : spell (d :: ds) 0 (d :: ds) (useWords cfg.maxWords (Word.split (d :: ds)) words).1
      = .error (.startsWithDigit (d :: ds)) := by
    refine spell_eq_error _ hany fun use huse => ?_
    obtain ⟨entry, hentry, hstart⟩ := exists_mem_of_mem_useWords huse
    rw [hstart]
    exact Word.pos_of_mem_split hd hentry
  unfold encode
  rw [Punycode.needed_eq_false_iff.mpr hchars, Bool.and_false]
  show (spell (d :: ds) 0 (d :: ds) _).map _ = _
  rw [hspell]
  rfl

/-- The names that have no encoded form are those of symbol characters with a digit in front. -/
theorem encode_eq_error_iff (hne : name ≠ []) (hchars : name.NoSurrogates) (words : List Text) :
    (∃ r, (encode {} name words).1 = .error r) ↔
      (∀ c ∈ name, Text.isSymbolChar c = true) ∧ ∃ d ds, name = d :: ds ∧
      Text.isDigit d = true := by
  constructor
  · rintro ⟨r, hr⟩
    by_contra hcode
    have hspellable : Spellable {} name := by
      refine .of_noDigitFirst rfl hne hchars fun hneeded d hd => ?_
      have hsymbol := Punycode.needed_eq_false_iff.mp hneeded
      obtain ⟨ds, rfl⟩ : ∃ ds, name = d :: ds := List.head?_eq_some_iff.mp hd
      rw [Text.isAnyDigit_of_ascii (Text.toNat_lt_of_isSymbolChar (hsymbol d List.mem_cons_self)),
        ← Bool.not_eq_true]
      exact fun hdigit => hcode ⟨hsymbol, d, ds, rfl, hdigit⟩
    obtain ⟨w, hw⟩ := hspellable words
    rw [hw] at hr
    cases hr
  · rintro ⟨hsymbol, d, ds, rfl, hd⟩
    exact ⟨_, encode_eq_startsWithDigit words hsymbol hd⟩

/-- A name of characters has an encoded form, unless it looks like a number, and is read from it in
front of any text. The reader is left with the words that the writer has. -/
theorem codec (name : Text) (words : List Text) (hne : name ≠ []) (hchars : name.NoSurrogates)
    (hwords : words.length ≤ 26) :
    ((∃ r, (encode {} name words).1 = .error r) ↔
      (∀ c ∈ name, Text.isSymbolChar c = true) ∧ ∃ d ds, name = d :: ds ∧ Text.isDigit d = true) ∧
    ∀ code words', encode {} name words = (.ok code, words') → ∀ stack table,
      Reads (Reading.identifier {}) code ⟨stack, table, words⟩ (.identifier name)
        ⟨stack, table.insert (.identifier name) (.tree (.identifier name)), words'⟩ := by
  refine ⟨encode_eq_error_iff hne hchars words, fun code words' hencode stack table => ?_⟩
  exact Reads.registeredIdentifier (Int.le_refl 26) (.of_noSurrogates hchars)
    (Int.ofNat_le.mpr hwords) hencode

/-- A word that was known, and one that is repeated. A name that looks like a number. -/
theorem codec_knownWords :
    (encode {} "fooBarFooBar".text ["Foo".text]
        = (.ok "06fooBaraC0".text, ["Foo".text, "foo".text, "Bar".text]) ∧
      ∀ stack table, Reads (Reading.identifier {}) "06fooBaraC0".text ⟨stack, table, ["Foo".text]⟩
        (.identifier "fooBarFooBar".text)
        ⟨stack, table.insert (.identifier "fooBarFooBar".text)
          (.tree (.identifier "fooBarFooBar".text)),
          ["Foo".text, "foo".text, "Bar".text]⟩) ∧
    ∃ r, (encode {} "2fast".text []).1 = .error r := by
  have hencode : encode {} "fooBarFooBar".text ["Foo".text]
      = (.ok "06fooBaraC0".text, ["Foo".text, "foo".text, "Bar".text]) := rfl
  constructor
  · exact ⟨hencode, (codec "fooBarFooBar".text ["Foo".text] (by decide) (by decide) (by decide)).2 _
      _ hencode⟩
  · have hsymbol : ∀ c ∈ "2fast".text, Text.isSymbolChar c = true := List.all_eq_true.mp (by decide)
    exact (codec "2fast".text [] (by decide) (by decide) (by decide)).1.mpr
      ⟨hsymbol, '2', _, rfl, rfl⟩

end Identifier

namespace Writing

/-- The builtin types that a vector can be written for. -/
def IsVectorElement (element : Text) : Prop :=
  element = "RawPointer".text ∨ ∃ size, element = "Int".text ++ Text.digits size ∨
    element = "FPIEEE".text ++ Text.digits size

theorem exists_vectorElement {element : Text} (h : IsVectorElement element) :
    ∃ letters, vectorElement? element = some letters := by
  rcases h with rfl | ⟨size, rfl | rfl⟩
  · exact ⟨['p'], rfl⟩
  · exact ⟨_, vectorElement?_integer (Text.isNumeral_digits size)⟩
  · exact ⟨_, vectorElement?_float (Text.isNumeral_digits size)⟩

/-- A builtin type has letters, unless it is a vector of elements that have none. -/
theorem exists_builtinLetters {cfg : Config} {name : Text} (h : BuiltinName cfg name)
    (hvector : ∀ size element,
      name = "Builtin.Vec".text ++ Text.digits size ++ ('x' : CodePoint) :: element →
      IsVectorElement element) : ∃ letters, builtinLetters name = .ok letters := by
  cases h with
  | named h =>
    unfold builtinLetters
    rw [Code.encode?_of_mem (by decide) h]
    exact ⟨_, rfl⟩
  | float => exact ⟨_, builtinLetters_float (Text.isNumeral_digits _)⟩
  | integer => exact ⟨_, builtinLetters_integer (Text.isNumeral_digits _)⟩
  | @vector size element _ _ h =>
    obtain ⟨letters, hletters⟩ := exists_vectorElement (hvector size element rfl)
    rw [builtinLetters_vector (Text.isNumeral_digits size) (ne_nil_of_builtinName h), hletters]
    exact ⟨_, rfl⟩

end Writing

/-! ### The texts of a tree -/

/-- Where the node holds a name, punycode keeps it. -/
def Node.Kept (n : Node) : Prop :=
  n.kind ∈ [Kind.identifier, .moduleName, .tupleElementName] ++ Kind.operators →
    ∀ t, n.payload = .text t → Punycode.Keeps t

instance (n : Node) : Decidable n.Kept :=
  inferInstanceAs (Decidable (n.kind ∈ _ → ∀ t, n.payload = .text t → Punycode.Keeps t))

/-- The text of the node is read back if it is written. In strict work it can be written: a name can
be spelled, and a builtin type has letters. -/
structure Node.Spelled (strict : Prop) (cfg : Config) (n : Node) : Prop where
  kept : n.Kept
  name : strict → n.kind ∈ [Kind.identifier, .moduleName, .tupleElementName] →
    ∀ t, n.payload = .text t → Spellable cfg t
  operator : strict → n.kind ∈ Kind.operators → ∀ t, n.payload = .text t →
    Spellable cfg (Operator.translate t)
  builtin : strict → n.kind = .builtinTypeName → ∀ t, n.payload = .text t →
    ∃ letters, Writing.builtinLetters t = .ok letters

namespace Node.Spelled

variable {strict : Prop} {cfg : Config}

/-- Whether a text can be written has nothing to do with the children. -/
theorem of_root {k : Kind} {p : Payload} {cs cs' : List Node}
    (h : (Node.mk k p cs).Spelled strict cfg) :
    (Node.mk k p cs').Spelled strict cfg := ⟨h.kept, h.name, h.operator, h.builtin⟩

/-- Unless the work is strict, names only have to be kept. -/
theorem of_kept {n : Node} (h : n.Kept) :
    n.Spelled False cfg := ⟨h, False.elim, False.elim, False.elim⟩

end Node.Spelled

/-- The text of the node is none of those that a symbol has no room for: it holds no surrogate and
does not look like a number, and a vector is made of pointers or numbers. -/
structure Node.HasRoom (n : Node) : Prop where
  characters : n.kind ∈ [Kind.identifier, .moduleName, .tupleElementName] ++ Kind.operators →
    ∀ t, n.payload = .text t → t.NoSurrogates
  name : n.kind ∈ [Kind.identifier, .moduleName, .tupleElementName] → ∀ t, n.payload = .text t →
    (∀ c ∈ t, Text.isSymbolChar c = true) → t.NoDigitFirst
  vector : n.kind = .builtinTypeName → ∀ size element,
    n.payload = .text ("Builtin.Vec".text ++ Text.digits size ++ ('x' : CodePoint) :: element) →
      Writing.IsVectorElement element

/-- Every text that obeys the grammar can be written, apart from those that there is no room for. -/
theorem Node.Rule.spelled {strict : Prop} {cfg : Config} {n : Node} (h : n.Rule cfg)
    (hpunycode : cfg.usePunycode = true) (hroom : n.HasRoom) : n.Spelled strict cfg := by
  have hchars := hroom.characters
  refine ⟨fun hk t ht => .of_noSurrogates (hchars hk t ht), fun _ hk t ht => ?_,
    fun _ hk t ht => ?_, fun _ hk t ht => ?_⟩
  · obtain ⟨name, hne, heq⟩ := h.eq_name hk
    have hsame : Payload.text t = .text name := by
      rw [← ht, heq]
      rfl
    cases hsame
    exact .of_noDigitFirst hpunycode hne (hchars (List.mem_append_left _ hk) t ht) fun hneeded =>
      hroom.name hk t ht (Punycode.needed_eq_false_iff.mp hneeded)
  · obtain ⟨name, hne, hoperator, heq⟩ := h.eq_operatorName hk
    have hsame : Payload.text t = .text name := by
      rw [← ht, heq]
      rfl
    cases hsame
    exact .translate hpunycode hne (hchars (List.mem_append_right _ hk) t ht) hoperator
  · obtain ⟨name, hname, rfl⟩ := h.eq_builtinType hk
    cases ht
    exact Writing.exists_builtinLetters hname fun size element heq =>
      hroom.vector rfl size element (by
      rw [heq]
      rfl)

end SwiftABI
