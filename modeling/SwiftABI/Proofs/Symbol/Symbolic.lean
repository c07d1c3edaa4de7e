/-
  Symbols are made of the characters that a linker takes.

  Names hold any characters, but their encoded form does not: a name with others than a symbol may
  hold is written in punycode (`Identifier.symbolic_encode`). Whatever else is written for a payload
  depends on what the payload is, and the grammar of trees that have been read leaves only numbers,
  letters and sizes there (`Node.Rule.symbolic_of_emits`). So each step of writing keeps a symbol
  clean (`Comparison.clean`), and with them all of it. The one exception is a suffix, which is the
  last thing of a symbol and written as it is (`mangle_symbolic`).
-/
import SwiftABI.Proofs.Symbol.RoundTrip
import SwiftABI.Proofs.Symbol.Suffix

namespace SwiftABI

/-! ### Names -/

namespace Identifier

variable {cfg : Config} {full name rest w : Text} {words : List Text}

theorem symbolic_spellPiece {piece : Text} (hpiece : piece.Symbolic)
    (h : spellPiece name piece = .ok w) :
    w.Symbolic := by
  cases piece with
  | nil =>
    cases h
    simp
  | cons c cs =>
    obtain ⟨-, rfl⟩ := spellPiece_cons h
    simpa [Text.symbolic_digits] using hpiece

theorem symbolic_spell {uses : List WordUse} {pos : Nat} (hrest : rest.Symbolic)
    (huses : ∀ use ∈ uses, use.word < 26) (h : spell full pos rest uses = .ok w) : w.Symbolic := by
  induction uses generalizing pos rest w with
  | nil => exact symbolic_spellPiece hrest h
  | cons use uses ih =>
    obtain ⟨hword, huses⟩ := List.forall_mem_cons.mp huses
    obtain ⟨spelled, tail, hspelled, htail, rfl⟩ := spell_cons h
    have hpiece := symbolic_spellPiece (hrest.of_subset (List.take_subset _ _)) hspelled
    have hafter := ih (hrest.of_subset (List.drop_subset _ _)) huses htail
    have hlower := Text.isSymbolChar_of_isLower (Text.lowerLetter_spec hword).1
    have hupper := Text.isSymbolChar_of_isUpper (Text.upperLetter_spec hword).2.1
    simp only [Text.symbolic_append]
    refine ⟨hpiece, ?_, hafter⟩
    split
    · simpa using hlower
    split
    · simpa [hupper] using (by decide : Text.isSymbolChar '0' = true)
    · simpa using hupper

theorem symbolic_spellPunycode (h : spellPunycode name = .ok w) : w.Symbolic := by
  obtain ⟨encoded, hencode, rfl⟩ := spellPunycode_ok h
  have hencoded : Text.Symbolic encoded := Punycode.isSymbolChar_of_mem_encode hencode
  have hzero : Text.isSymbolChar '0' = true := by decide
  simp only [Text.symbolic_cons, Text.symbolic_append]
  refine ⟨hzero, hzero, Text.symbolic_digits _, ?_, hencoded⟩
  -- At most one underscore keeps the length apart.
  unfold separator
  split
  · split <;> decide
  · decide

/-- The encoded form of a name is made of symbol characters, whatever the name is. -/
theorem symbolic_encode (hpunycode : cfg.usePunycode = true) (hmax : cfg.maxWords ≤ 26)
    (hwords : (words.length : Int) ≤ cfg.maxWords) (h : (encode cfg name words).1 = .ok w) :
    w.Symbolic := by
  obtain ⟨hne, hspelled⟩ := encode_ok (Prod.ext h rfl)
  by_cases hneeded : Punycode.needed (name.map CodePoint.toNat) = true
  · have hencode : (encode cfg name words).1 = spellPunycode name := by
      simp [encode, hne, hpunycode, hneeded]
    exact symbolic_spellPunycode (hencode.symm.trans h)
  -- Only a name of symbol characters is taken apart into words.
  have hname : name.Symbolic := Punycode.needed_eq_false_iff.mp (by simpa using hneeded)
  rcases hspelled with ⟨hspelled, -⟩ | ⟨t, ht, rfl, -⟩
  · exact symbolic_spellPunycode hspelled
  · have huses : ∀ use ∈ (useWords cfg.maxWords (Word.split name) words).1,
        (use.word : Int) < cfg.maxWords :=
      word_lt_of_mem_useWords hwords
    have hletters := symbolic_spell hname (fun use huse => by have hlt := huses use huse; omega) ht
    rw [Text.symbolic_append]
    exact ⟨by unfold announcement; split <;> decide, hletters⟩

theorem length_encode (name : Text) (hwords : (words.length : Int) ≤ cfg.maxWords) :
    ((encode cfg name words).2.length : Int) ≤ cfg.maxWords := by
  unfold encode
  split
  · exact hwords
  split
  · exact hwords
  · exact length_useWords hwords

end Identifier

/-! ### Substitutions -/

/-- A substitution is merged into a clean symbol cleanly. -/
theorem Merging.symbolic_write (cfg : Config) (m : Merging) {symbol letter : Text}
    (sign : SubstitutionSign)
    (hsymbol : symbol.Symbolic) (hletter : letter.Symbolic) :
    (m.write cfg symbol letter sign).1.Symbolic := by
  have hsign : Text.isSymbolChar sign.char = true := by cases sign <;> decide
  have hplain : Text.Symbolic (symbol ++ sign.char :: letter) := by simp [hsymbol, hsign, hletter]
  unfold write merge
  split
  -- The digits of a count go in front of the last letter, or that letter becomes a small one.
  next merged m' hmerged =>
    split at hmerged
    · split at hmerged
      · cases hmerged
      next last hlast =>
        split at hmerged
        · cases hmerged
          have htake := hsymbol.of_subset (List.take_subset m.position symbol)
          simp [htake, Text.symbolic_digits, hletter]
        split at hmerged
        · cases hmerged
        · cases hmerged
          have hdrop := hsymbol.of_subset (List.dropLast_subset symbol)
          have hlower := Text.symbolic_lower (hsymbol last (List.mem_of_getLast? hlast))
          simp [hdrop, hlower, hletter]
    · cases hmerged
  · exact hplain

/-! ### Steps of writing -/

/-- The symbol so far is made of symbol characters, and there are not too many words to refer to. -/
structure SymbolBuilder.Clean (cfg : Config) (d : SymbolBuilder) : Prop where
  symbol : d.symbol.Symbolic
  words : (d.words.length : Int) ≤ cfg.maxWords

namespace Writing

variable {α β : Type} {cfg : Config} {n : Node}

/-- The steps leave a clean symbol clean, also where they fail. -/
def StaysClean (cfg : Config) (x : Writing α) : Prop :=
  ∀ d : SymbolBuilder, d.Clean cfg → (x.outcome d).2.Clean cfg

namespace StaysClean

theorem pure (a : α) : StaysClean cfg (Pure.pure a) := fun _ hd => hd

theorem throw (e : Fault) : StaysClean cfg (MonadExcept.throw e : Writing α) := fun _ hd => hd

theorem bind {x : Writing α} {f : α → Writing β} (hx : StaysClean cfg x)
    (hf : ∀ a, StaysClean cfg (f a)) :
    StaysClean cfg (x >>= f) := by
  intro d hd
  have hfirst := hx d hd
  rw [outcome_bind]
  rcases hout : x.outcome d with ⟨_ | a, d'⟩ <;> rw [hout] at hfirst
  · exact hfirst
  · exact hf a d' hfirst

theorem lift (x : Except Fault α) {f : α → Writing β} (hf : ∀ a, StaysClean cfg (f a)) :
    StaysClean cfg (Writing.lift x >>= f) := by
  cases x with
  | error e => exact throw e
  | ok a => exact hf a

theorem emit {t : Text} (ht : t.Symbolic) : StaysClean cfg (Writing.emit t) :=
  fun _ hd => ⟨Text.symbolic_append.mpr ⟨hd.symbol, ht⟩, hd.words⟩

theorem substitute {letter : CodePoint} (hletter : Text.isSymbolChar letter = true)
    (sign : SubstitutionSign) :
    StaysClean cfg (Writing.substitute cfg letter sign) :=
  fun d hd => ⟨d.merging.symbolic_write cfg sign hd.symbol (by simpa using hletter), hd.words⟩

theorem spellName (hpunycode : cfg.usePunycode = true) (hmax : cfg.maxWords ≤ 26) (n : Node)
    (name : Text) :
    StaysClean cfg (Writing.spellName cfg n name) := by
  intro d hd
  have hwords : ((Identifier.encode cfg name d.words).2.length : Int) ≤ cfg.maxWords :=
    Identifier.length_encode name hd.words
  rw [outcome_spellName]
  rcases hencode : (Identifier.encode cfg name d.words).1 with r | t
  · exact ⟨hd.symbol, hwords⟩
  · have ht := Identifier.symbolic_encode hpunycode hmax hd.words hencode
    exact ⟨Text.symbolic_append.mpr ⟨hd.symbol, ht⟩, hwords⟩

theorem tryReference (n : Node) (byName : Bool) :
    StaysClean cfg (Writing.tryReference cfg n byName) := by
  have hstandard : StaysClean cfg (Writing.tryStandard cfg n) := by
    unfold Writing.tryStandard
    split
    · exact bind (substitute (Standard.isSymbolChar_of_code? ‹_›) _) fun _ => pure _
    · exact pure _
  apply bind hstandard
  intro found
  split
  · exact pure _
  intro d hd
  refine lift (Fault.inTree (d.table.lookup n byName)) (fun place => ?_) d hd
  split
  · exact pure _
  next _ i =>
    by_cases hi : i < 26
    · simp only [if_pos hi]
      exact bind (substitute (Text.isSymbolChar_of_isUpper (Text.upperLetter_spec hi).2.1) _)
        fun _ => pure _
    · simp only [if_neg hi]
      have hmark : Text.isSymbolChar 'A' = true := by decide
      exact bind (emit (by simp [hmark, Code.symbolic_index])) fun _ => pure _

theorem register (n : Node) (byName : Bool) : StaysClean cfg (Writing.register n byName) := by
  intro d hd
  have hmodify (table : SubstitutionTable) :
      StaysClean cfg (modify fun d => { d with table } : Writing Unit) :=
    fun _ hd => ⟨hd.symbol, hd.words⟩
  exact lift (Fault.inTree (d.table.register n byName)) hmodify d hd

theorem referenceOr {write : Writing Unit} (n : Node) (byName : Bool) (h : StaysClean cfg write) :
    StaysClean cfg (Writing.referenceOr cfg n byName write) := by
  apply bind (tryReference n byName)
  intro found
  split
  · exact pure _
  · exact bind h fun _ => register n byName

end StaysClean

end Writing

/-- Writing that leaves symbols clean, of the trees whose payloads are written as symbol
characters. -/
def Comparison.clean {cfg : Config} (hpunycode : cfg.usePunycode = true)
    (hmax : cfg.maxWords ≤ 26) :
    Comparison cfg where
  Plain := Text.Symbolic
  symbolic ht := ht
  Holds _ _ x _ := Writing.StaysClean cfg x
  mono _ h := h
  pure := .pure
  throw := .throw
  bind h hrest := h.bind hrest
  emit := .emit
  substitute := .substitute
  named n text spelling := .referenceOr n true
    (.lift text fun t => .spellName hpunycode hmax n (spelling t))
  registered _ h := .referenceOr _ false h

/-! ### Trees that have been read -/

/-- The letters of a builtin type that a symbol can spell. -/
theorem Writing.symbolic_builtinLetters {cfg : Config} {name letters : Text}
    (h : BuiltinName cfg name)
    (hletters : builtinLetters name = .ok letters) : letters.Symbolic := by
  have hmark : Text.isSymbolChar '_' = true ∧ Text.isSymbolChar 'f' = true ∧
      Text.isSymbolChar 'i' = true := by
    decide
  -- By induction on the name: the letters of a vector begin with those of its elements.
  induction h generalizing letters with
  | @named c name h =>
    have hcodes : ∀ e ∈ Code.builtinTypes, Text.isSymbolChar e.1 = true := by decide
    unfold builtinLetters at hletters
    rw [Code.encode?_of_mem (by decide) h] at hletters
    cases hletters
    simpa using hcodes _ h
  | @float size =>
    rw [builtinLetters_float (Text.isNumeral_digits size)] at hletters
    cases hletters
    simp [sized, hmark, Text.symbolic_digits]
  | @integer size =>
    rw [builtinLetters_integer (Text.isNumeral_digits size)] at hletters
    cases hletters
    simp [sized, hmark, Text.symbolic_digits]
  | @vector size element _ _ h ih =>
    rw [builtinLetters_vector (Text.isNumeral_digits size) (ne_nil_of_builtinName h)] at hletters
    rcases helement : vectorElement? element with _ | letters' <;> rw [helement] at hletters <;>
      cases hletters
    have helement := ih (builtinLetters_of_vectorElement? h helement)
    have hvector : Text.isSymbolChar 'B' = true ∧ Text.isSymbolChar 'v' = true := by decide
    simp [sized, hmark, hvector, helement, Text.symbolic_digits]

namespace Node

variable {cfg : Config} {n : Node} {t : Text}

/-- The letter of a relation and a name. -/
theorem Rule.eq_relatedEntityDeclName (h : n.Rule cfg) (hk : n.kind = .relatedEntityDeclName) :
    ∃ (c : CodePoint) (name : Node), IsRelationLetter c ∧
      n = .mk .relatedEntityDeclName (.text [c]) [name] := by
  cases h with
  | relatedEntityDeclName hc hname => exact ⟨_, _, hc, rfl⟩
  | _ => cases hk <;> exact absurd ‹_ ∈ _› (by decide)

theorem isSymbolChar_of_isRelationLetter {c : CodePoint} (hc : IsRelationLetter c) :
    Text.isSymbolChar c = true := by
  simp only [IsRelationLetter, Bool.or_eq_true, Bool.and_eq_true, decide_eq_true_eq] at hc
  simp [Text.isSymbolChar, Text.isLower, Text.isUpper, CodePoint.le_def] at hc ⊢
  omega

/-- What is written for a payload that the grammar allows is made of symbol characters, but for a
suffix. -/
theorem Rule.symbolic_of_emits (h : n.Rule cfg) (hsuffix : n.kind ≠ .suffix) (ht : n.Emits cfg t) :
    t.Symbolic := by
  have hq : Text.isSymbolChar 'q' = true := by decide
  cases ht with
  | symbolPrefix hk => exact absurd hk h.kind_ne_global
  | suffix hk => exact absurd hk hsuffix
  | relation hk ht =>
    obtain ⟨c, name, hc, rfl⟩ := h.eq_relatedEntityDeclName hk
    cases ht
    have hmark : Text.isSymbolChar 'L' = true := by decide
    simp [hmark, isSymbolChar_of_isRelationLetter hc]
  | number hk hi =>
    obtain ⟨i, hn⟩ := h.eq_number (.inl hk)
    rw [hn] at hi
    cases hi
    exact Code.symbolic_index i
  | builtinType hk ht hletters =>
    obtain ⟨name, hname, rfl⟩ := h.eq_builtinType hk
    cases ht
    have hmark : Text.isSymbolChar 'B' = true := by decide
    simp [hmark, Writing.symbolic_builtinLetters hname hletters]
  | outerParameter hk hc hd hdepth hindex hzero hne =>
    obtain ⟨depth, index, rfl⟩ := h.eq_genericParameter hk
    cases hd
    cases hindex
    simp [hq, Code.symbolic_index_pred hne]
  | innerParameter hk hc hd hdepth hindex hne =>
    obtain ⟨depth, index, rfl⟩ := h.eq_genericParameter hk
    cases hc
    cases hd
    cases hdepth
    cases hindex
    have hmark : Text.Symbolic "qd".text := by decide
    rw [Text.symbolic_append, Text.symbolic_append]
    exact ⟨⟨hmark, Code.symbolic_index_pred hne⟩, Code.symbolic_index index⟩

/-- No suffix is below another node. -/
theorem Rule.kind_ne_suffix (h : n.Rule cfg) : ∀ c ∈ n.children, c.kind ≠ .suffix := by
  intro c hc hk
  have hall : ∀ k ∈ Kind.all, k ≠ .global →
    ∀ s ∈ k.slots.getD [], s.accepts .suffix = false := by decide
  obtain ⟨s, hs, haccepts⟩ := h.fits.exists_slot hc
  rw [hk, hall n.kind (Kind.mem_all _) h.kind_ne_global s hs] at haccepts
  contradiction

/-- A tree that obeys the grammar and is no suffix is written cleanly. -/
theorem admits_of_grammatical {hpunycode : cfg.usePunycode = true} {hmax : cfg.maxWords ≤ 26}
    (h : n.Grammatical cfg)
    (hsuffix : n.kind ≠ .suffix) : (Comparison.clean hpunycode hmax).Admits n := by
  induction h with
  | mk root below ih =>
    apply All.of_children
    · intro t ht
      exact root.symbolic_of_emits hsuffix ht
    · intro c hc
      exact ih c hc (root.kind_ne_suffix c hc)

/-- The text of the suffix, if the tree of a symbol has one as its last child. -/
def suffixText (t : Node) : Text :=
  match t.children.getLast? with
  | some (.mk .suffix (.text s) _) => s
  | _ => []

theorem suffixText_of_ne {cs : List Node} (h : ∀ c ∈ cs, c.kind ≠ .suffix) :
    (mk .global .none cs).suffixText = [] := by
  unfold suffixText
  split
  next hlast => exact absurd rfl (h _ (List.mem_of_getLast? hlast))
  · rfl

theorem suffixText_withSuffix (t : Node) (x : Text) :
    (t.withSuffix x).suffixText = ('.' : CodePoint) :: x := by
  cases t
  simp [suffixText, withSuffix, children, Machine.suffixNode]

end Node

/-- A node on the stack of a machine is no suffix, before that is read. -/
theorem SoundStack.kind_unwrapped_ne_suffix {cfg : Config} {s : List Node} (h : SoundStack cfg s) :
    ∀ n ∈ s, n.unwrapped.kind ≠ .suffix := by
  have hstackable : ∀ k ∈ Kind.stackable ++ [.typeMangling], k ≠ .suffix := by decide
  have hunwrapped {n : Node} (hrule : n.Rule cfg)
    (hk : n.kind ∈ Kind.stackable ++ [.typeMangling]) :
      n.unwrapped.kind ≠ .suffix := by
    by_cases htype : n.kind = .type
    · obtain ⟨t, -, rfl⟩ := hrule.eq_type htype
      exact hrule.kind_ne_suffix t List.mem_cons_self
    · rw [Node.unwrapped_of_ne htype]
      exact hstackable _ hk
  induction h with
  | nil => simp
  | node hn hs ih =>
    rw [List.forall_mem_cons]
    exact ⟨hunwrapped hn.grammatical.root (List.mem_append_left _ hn.onStack.kind), ih⟩
  | typeMangling ht hlabels hbelow hapart hs ih =>
    rw [List.forall_mem_cons]
    exact ⟨hunwrapped (.typeMangling ht hlabels) (List.mem_append_right _ List.mem_cons_self), ih⟩

section

variable {cfg : Config} {text u : Text} {t : Node}

/-- The tree of a symbol has trees that obey the grammar, and then a suffix if there is one. -/
theorem exists_children_of_demangle (h : demangle cfg text = .ok t) :
    ∃ cs : List Node, (∀ c ∈ cs, c.Grammatical cfg ∧ c.kind ≠ .suffix) ∧
      (t = .mk .global .none cs ∨ ∃ x, t = (Node.mk .global .none cs).withSuffix x) := by
  obtain ⟨m, hm, hsymbol⟩ := reached_of_demangle h
  obtain ⟨-, rfl⟩ := Machine.symbol_eq_ok_iff.mp hsymbol
  have hbelow {s : List Node} (hs : SoundStack cfg s) :
      ∀ c ∈ s.reverse.map Node.unwrapped, c.Grammatical cfg ∧ c.kind ≠ .suffix := by
    intro c hc
    obtain ⟨n, hn, rfl⟩ := List.mem_map.mp hc
    have hn := List.mem_reverse.mp hn
    exact ⟨(hs.made n hn).grammatical_unwrapped, hs.kind_unwrapped_ne_suffix n hn⟩
  cases hm with
  | sound hsound => exact ⟨_, hbelow hsound.stack, .inl rfl⟩
  | @suffixed m x hsound hrest =>
    refine ⟨_, hbelow hsound.stack, .inr ⟨x, ?_⟩⟩
    rw [List.reverse_cons, List.map_append]
    rfl

/-- A tree is written cleanly with any fuel. -/
theorem Writing.staysClean_mangleAt (hpunycode : cfg.usePunycode = true) (hmax : cfg.maxWords ≤ 26)
    (fuel : Nat) :
    ∀ n : Node, (Comparison.clean hpunycode hmax).Admits n →
      StaysClean cfg (mangleAt cfg fuel n) := by
  induction fuel with
  | zero =>
    intro n hn
    exact .throw _
  | succ fuel ih =>
    intro n hn
    have hbelow : (Comparison.clean hpunycode hmax).Below n (mangleAt cfg fuel)
        (mangleAt cfg fuel) :=
      ⟨hn, fun c _ hc => ih c hc⟩
    exact Comparison.ofNode hbelow

/-- What is written for trees that obey the grammar is made of symbol characters. -/
theorem symbolic_of_mangle_global (hpunycode : cfg.usePunycode = true)
    (hwords : 0 ≤ cfg.maxWords ∧ cfg.maxWords ≤ 26) (hemitted : cfg.emittedPrefix.Symbolic)
    {cs : List Node}
    (hcs : ∀ c ∈ cs, c.Grammatical cfg ∧ c.kind ≠ .suffix)
    (hu : mangle cfg (.mk .global .none cs) = .ok u) :
    u.Symbolic := by
  have hroot : (Comparison.clean hpunycode hwords.2).Admits (.mk .global .none cs) := by
    apply Node.All.of_children
    · intro t ht
      cases ht with
      | symbolPrefix => exact hemitted
      | _ => contradiction
    · intro c hc
      exact Node.admits_of_grammatical (hcs c hc).1 (hcs c hc).2
  have hbegin : SymbolBuilder.Clean cfg {} := ⟨Text.symbolic_nil, hwords.1⟩
  have hend := Writing.staysClean_mangleAt hpunycode hwords.2
    (Node.mk .global .none cs).size _ hroot {} hbegin
  have hwritten : writeTree cfg (.mk .global .none cs)
      = (Writing.mangleAt cfg (Node.mk .global .none cs).size (.mk .global .none cs)).outcome {} :=
      rfl
  rw [← hwritten] at hend
  unfold mangle at hu
  rcases hresult : writeTree cfg (.mk .global .none cs) with ⟨e | ⟨⟩, d⟩ <;>
    rw [hresult] at hu hend <;> cases hu
  exact hend.symbol

/-- **Symbols are made of symbol characters.** Whatever characters the names in a symbol hold, what
is written for its tree is made of ASCII letters, digits, `_` and `$`. Only the text of a suffix is
written as it is, behind everything else. -/
theorem mangle_symbolic (text u : Text) (t : Node) (h : demangle {} text = .ok t)
    (hu : mangle {} t = .ok u) :
    ∃ body, u = body ++ t.suffixText ∧ ∀ c ∈ body, Text.isSymbolChar c = true := by
  obtain ⟨cs, hcs, rfl | ⟨x, rfl⟩⟩ := exists_children_of_demangle h
  · refine ⟨u, ?_, symbolic_of_mangle_global rfl (by decide) (by decide) hcs hu⟩
    rw [Node.suffixText_of_ne fun c hc => (hcs c hc).2, List.append_nil]
  · rw [mangle_withSuffix] at hu
    rcases hbody : mangle {} (.mk .global .none cs) with e | body <;> rw [hbody] at hu <;> cases hu
    refine ⟨body, ?_, symbolic_of_mangle_global rfl (by decide) (by decide) hcs hbody⟩
    rw [Node.suffixText_withSuffix]

end

private def noValue : Node := (Node.mk .tuple .none []).typeOf

private def procedure : Node :=
  .mk .functionType .none [.mk .argumentTuple (.index 0) [noValue], .mk .returnType .none [noValue]]

/-- An operator of a structure in a module, with characters in their names and in the suffix that no
symbol may hold. -/
def accented : Node :=
  .mk .global .none
    [.mk .functionDecl .none
      [.mk .structType .none [.moduleName "café".text, .identifier "λ x".text],
        .ofText .infixOperator "•+".text, procedure.typeOf],
      Machine.suffixNode "é 1".text]

/-- The names are in punycode, and the suffix is as it was. -/
theorem mangle_symbolic_accented :
    demangle {} "$s007caf_dma0010x_jmbDDCEnV005p_AhnoiyyF.é 1".text = .ok accented ∧
      mangle {} accented = .ok "$s007caf_dma0010x_jmbDDCEnV005p_AhnoiyyF.é 1".text ∧
      ∃ body, "$s007caf_dma0010x_jmbDDCEnV005p_AhnoiyyF.é 1".text = body ++ ".é 1".text ∧
        ∀ c ∈ body, Text.isSymbolChar c = true := by
  have hread : demangle {} "$s007caf_dma0010x_jmbDDCEnV005p_AhnoiyyF.é 1".text = .ok accented := by
    decide +kernel
  have hwritten : mangle {} accented = .ok "$s007caf_dma0010x_jmbDDCEnV005p_AhnoiyyF.é 1".text := by
    decide +kernel
  have hsuffix : accented.suffixText = ".é 1".text := by decide
  have hbody := mangle_symbolic _ _ _ hread hwritten
  rw [hsuffix] at hbody
  exact ⟨hread, hwritten, hbody⟩

end SwiftABI
