/-
  Which builtin types are written, and which of them are read again.

  A builtin type is a name, and the writer takes the name apart: it has a letter of its own, or it
  is a size behind what tells numbers from floats, or a vector of such a number or float or of
  pointers (`Writing.Lettered`). The size may be any numeral, also one that no reader accepts. So
  what is written for a name is read as that name just if the size is spelled as the reader spells
  it and within its limit, which is the grammar of names (`BuiltinName`). The reader in turn makes
  vectors of all builtin types, and those of other elements are refused by the writer.
-/
import SwiftABI.Proofs.Symbol.RoundTrip

namespace SwiftABI

/-- A text with something behind a character is put together again. -/
theorem Text.eq_append_of_cut {c : CodePoint} {t a b : Text} (h : cut c t = (a, b)) (hb : b ≠ []) :
    t = a ++ c :: b := by
  induction t generalizing a with
  | nil =>
    cases h
    exact absurd rfl hb
  | cons x t ih =>
    rw [cut] at h
    split at h
    · rename_i heq
      cases h
      rw [heq, List.nil_append]
    · cases h
      rw [List.cons_append, ← ih rfl]

namespace Writing

/-! ### Names with letters -/

/-- The elements of vectors that have letters. -/
inductive LetteredElement : Text → Prop where
  | pointer : LetteredElement "RawPointer".text
  | float {size : Text} (h : Text.isNumeral size = true) : LetteredElement ("FPIEEE".text ++ size)
  | integer {size : Text} (h : Text.isNumeral size = true) : LetteredElement ("Int".text ++ size)

/-- The names of builtin types that have letters. -/
inductive Lettered : Text → Prop where
  | named {c : CodePoint} {name : Text} (h : (c, name) ∈ Code.builtinTypes) : Lettered name
  | float {size : Text} (h : Text.isNumeral size = true) : Lettered ("Builtin.FPIEEE".text ++ size)
  | integer {size : Text} (h : Text.isNumeral size = true) : Lettered ("Builtin.Int".text ++ size)
  | vector {size element : Text} (h : Text.isNumeral size = true)
    (helement : LetteredElement element) :
    Lettered ("Builtin.Vec".text ++ size ++ ('x' : CodePoint) :: element)

theorem LetteredElement.ne_nil {element : Text} (h : LetteredElement element) : element ≠ [] := by
  cases h <;> exact List.cons_ne_nil _ _

theorem exists_vectorElement_iff {element : Text} :
    (∃ letters, vectorElement? element = some letters) ↔ LetteredElement element := by
  constructor
  · rintro ⟨letters, h⟩
    unfold vectorElement? at h
    split at h
    · rename_i hpointer
      rw [hpointer]
      exact .pointer
    · split at h
      · rename_i size _ hsize
        obtain ⟨rfl, hnumeral⟩ := builtinSize?_eq_some_iff.mp hsize
        exact .float hnumeral
      · rename_i size _ hsize
        obtain ⟨rfl, hnumeral⟩ := builtinSize?_eq_some_iff.mp hsize
        exact .integer hnumeral
      · cases h
  · rintro (_ | hnumeral | hnumeral)
    · exact ⟨_, rfl⟩
    · exact ⟨_, vectorElement?_float hnumeral⟩
    · exact ⟨_, vectorElement?_integer hnumeral⟩

/-- The letters of a name are found by taking it apart. -/
theorem lettered_of_builtinLetters {name letters : Text} (h : builtinLetters name = .ok letters) :
    Lettered name := by
  -- A name is tried as one with a letter, as a vector, and then as a number or a float.
  unfold builtinLetters at h
  split at h
  · rename_i letter hletter
    exact .named (Code.mem_of_encode? hletter)
  · split at h
    · rename_i vector hvector
      rcases hcut : Text.cut 'x' vector with ⟨size, element⟩
      simp only [hcut] at h
      split at h
      · cases h
      · rename_i hnumeral
        rw [Bool.or_eq_true, Bool.not_eq_true', not_or, Bool.not_eq_false, Bool.not_eq_true,
          List.isEmpty_eq_false_iff] at hnumeral
        split at h
        · rename_i letters' hletters
          rw [Text.eq_append_of_dropPrefix? hvector,
            Text.eq_append_of_cut hcut hnumeral.2, ← List.append_assoc]
          exact .vector hnumeral.1 (exists_vectorElement_iff.mp ⟨letters', hletters⟩)
        · cases h
    · split at h
      · rename_i size _ hsize
        obtain ⟨rfl, hnumeral⟩ := builtinSize?_eq_some_iff.mp hsize
        exact .integer hnumeral
      · rename_i size _ hsize
        obtain ⟨rfl, hnumeral⟩ := builtinSize?_eq_some_iff.mp hsize
        exact .float hnumeral
      · cases h

theorem exists_builtinLetters_iff {name : Text} :
    (∃ letters, builtinLetters name = .ok letters) ↔ Lettered name := by
  refine ⟨fun ⟨_, h⟩ => lettered_of_builtinLetters h, ?_⟩
  rintro (hname | hnumeral | hnumeral | ⟨hnumeral, helement⟩)
  · unfold builtinLetters
    rw [Code.encode?_of_mem (by decide) hname]
    exact ⟨_, rfl⟩
  · exact ⟨_, builtinLetters_float hnumeral⟩
  · exact ⟨_, builtinLetters_integer hnumeral⟩
  · obtain ⟨letters, hletters⟩ := exists_vectorElement_iff.mpr helement
    rw [builtinLetters_vector hnumeral helement.ne_nil, hletters]
    exact ⟨_, rfl⟩

end Writing

/-! ### Writing and reading builtin types -/

/-- The builtin type with a name. -/
def Node.builtin (name : Text) : Node := .mk .builtinTypeName (.text name) []

section

variable {cfg : Config} {name text u : Text} {t : Node}

theorem mangle_builtin (cfg : Config) (name : Text) :
    mangle cfg (.builtin name) = match Writing.builtinLetters name with
      | .ok letters => .ok ('B' :: letters)
      | .error r => .error ⟨.builtinTypeName, r⟩ := by
  have hwrite : Writing.mangleAt cfg (Node.builtin name).size (.builtin name)
      = match Writing.builtinLetters name with
        | .ok letters => Writing.emit ('B' :: letters)
        | .error r => Writing.refuse (.builtin name) r := rfl
  unfold mangle writeTree
  rw [hwrite]
  cases Writing.builtinLetters name <;> rfl

theorem mangle_builtin_eq_ok_iff :
    mangle cfg (.builtin name) = .ok u ↔
      ∃ letters, Writing.builtinLetters name = .ok letters ∧ u = ('B' : CodePoint) :: letters := by
  rw [mangle_builtin]
  cases Writing.builtinLetters name <;> simp [eq_comm]

/-- The letters of a name that obeys the grammar are read as the name. -/
theorem demangleType_of_builtinName (hname : BuiltinName cfg name)
    (hu : mangle cfg (.builtin name) = .ok u) :
    demangleType cfg u = .ok (Node.builtin name).typeOf := by
  obtain ⟨letters, hletters, rfl⟩ := mangle_builtin_eq_ok_iff.mp hu
  obtain ⟨table, hparses, -⟩ := Operates.builtinType hname hletters (s := []) {} []
  exact hparses.leaves.demangleType

/-- Whatever is read obeys the grammar below its root. -/
theorem Node.rule_of_mem_walk (h : demangle cfg text = .ok t ∨ demangleType cfg text = .ok t) :
    ∀ n ∈ t.walk, n.kind = .global ∨ n.Rule cfg := by
  refine Node.All.iff_walk.mp ?_
  rcases h with h | h
  · have hsymbol := isSymbol_of_demangle h
    refine .of_children (.inl (by rw [hsymbol.root]; rfl)) fun c hc => ?_
    obtain ⟨m, hm, rfl⟩ := hsymbol.children c hc
    exact hm.grammatical_unwrapped.mono fun _ => .inr
  · have hmade := made_of_demangleType h
    exact hmade.grammatical.mono fun _ => .inr

theorem exists_builtinName_of_mem_walk
    (h : demangle cfg text = .ok t ∨ demangleType cfg text = .ok t) {n : Node}
    (hn : n ∈ t.walk) (hk : n.kind = .builtinTypeName) :
    ∃ name, BuiltinName cfg name ∧ n = .builtin name := by
  rcases Node.rule_of_mem_walk h n hn with hroot | hrule
  · rw [hk] at hroot
    cases hroot
  · exact hrule.eq_builtinType hk

theorem Node.builtin_mem_walk (name : Text) :
    Node.builtin name ∈ (Node.builtin name).typeOf.walk := by
  simp [Node.typeOf, Node.walk, Node.visit, Node.builtin]

/-- What is written for a builtin type is read as the type just if its name obeys the grammar. -/
theorem demangleType_builtin_iff (hu : mangle cfg (.builtin name) = .ok u) :
    demangleType cfg u = .ok (Node.builtin name).typeOf ↔ BuiltinName cfg name := by
  refine ⟨fun h => ?_, fun hname => demangleType_of_builtinName hname hu⟩
  obtain ⟨name', hname', heq⟩ :=
    exists_builtinName_of_mem_walk (.inr h) (Node.builtin_mem_walk name) rfl
  cases heq
  exact hname'

/-- A name that obeys the grammar has letters, or it is one of a vector of elements without
letters. -/
theorem lettered_or_vector (h : BuiltinName cfg name) :
    Writing.Lettered name ∨ ∃ size element,
      name = "Builtin.Vec".text ++ Text.digits size ++ ('x' : CodePoint) :: element ∧
      ¬Writing.LetteredElement element ∧
        Writing.builtinLetters name = .error (.badVectorElement element) := by
  cases h with
  | named h => exact .inl (.named h)
  | float => exact .inl (.float (Text.isNumeral_digits _))
  | integer => exact .inl (.integer (Text.isNumeral_digits _))
  | @vector size element _ _ h =>
    by_cases helement : Writing.LetteredElement element
    · exact .inl (.vector (Text.isNumeral_digits _) helement)
    · refine .inr ⟨size, element, rfl, helement, ?_⟩
      have hnone : Writing.vectorElement? element = none := by
        rw [Option.eq_none_iff_forall_ne_some]
        exact fun letters hletters =>
          helement (Writing.exists_vectorElement_iff.mp ⟨letters, hletters⟩)
      rw [Writing.builtinLetters_vector (Text.isNumeral_digits _) (Writing.ne_nil_of_builtinName h),
        hnone]

/-- A builtin type is written just if its name has letters, and it is read again just if its name
obeys the grammar. The names in a tree that has been read all do, and of these the vectors whose
elements have no letters are refused, while all others are written and read again. -/
theorem mangle_builtin_inverse (cfg : Config) :
    (∀ name, ((∃ u, mangle cfg (.builtin name) = .ok u) ↔ Writing.Lettered name) ∧
      ∀ u, mangle cfg (.builtin name) = .ok u →
        (demangleType cfg u = .ok (Node.builtin name).typeOf ↔ BuiltinName cfg name)) ∧
      ∀ text t, demangle cfg text = .ok t ∨ demangleType cfg text = .ok t →
        ∀ n ∈ t.walk, n.kind = .builtinTypeName → ∃ name, n = .builtin name ∧ BuiltinName cfg name ∧
          ((∃ u, mangle cfg n = .ok u ∧ demangleType cfg u = .ok n.typeOf) ∨
            ∃ size element, name = "Builtin.Vec".text ++ Text.digits size ++ ('x' : CodePoint) ::
            element ∧
              ¬Writing.LetteredElement element ∧
                mangle cfg n = .error ⟨.builtinTypeName, .badVectorElement element⟩) := by
  -- The prefix `B` is all that is added to the letters.
  have hlettered : ∀ name, (∃ u, mangle cfg (.builtin name) = .ok u) ↔ Writing.Lettered name := by
    intro name
    rw [← Writing.exists_builtinLetters_iff]
    simp only [mangle_builtin_eq_ok_iff]
    exact ⟨fun ⟨_, letters, h, _⟩ => ⟨letters, h⟩, fun ⟨letters, h⟩ => ⟨_, letters, h, rfl⟩⟩
  refine ⟨fun name => ⟨hlettered name, fun u hu => demangleType_builtin_iff hu⟩,
    fun text t h n hn hk => ?_⟩
  obtain ⟨name, hname, rfl⟩ := exists_builtinName_of_mem_walk h hn hk
  refine ⟨name, rfl, hname, ?_⟩
  rcases lettered_or_vector hname with hletters | ⟨size, element, rfl, helement, hletters⟩
  · obtain ⟨u, hu⟩ := (hlettered name).mpr hletters
    exact .inl ⟨u, hu, demangleType_of_builtinName hname hu⟩
  · exact .inr ⟨size, element, rfl, helement, by rw [mangle_builtin, hletters]⟩

/-- A vector of bridge objects is read and cannot be written, and an integer that is too large is
written and cannot be read. -/
theorem mangle_builtin_inverse_vector :
    (demangleType {} "BbBv4_".text = .ok (Node.builtin "Builtin.Vec4xBridgeObject".text).typeOf ∧
      mangle {} (.builtin "Builtin.Vec4xBridgeObject".text)
          = .error ⟨.builtinTypeName, .badVectorElement "BridgeObject".text⟩ ∧
        BuiltinName {} "Builtin.Vec4xBridgeObject".text ∧
          ¬Writing.LetteredElement "BridgeObject".text) ∧
    mangle {} (.builtin "Builtin.Int5000".text) = .ok "Bi5000_".text ∧
      demangleType {} "Bi5000_".text ≠ .ok (Node.builtin "Builtin.Int5000".text).typeOf ∧
        ¬BuiltinName {} "Builtin.Int5000".text := by
  constructor
  · have hread : demangleType {} "BbBv4_".text
        = .ok (Node.builtin "Builtin.Vec4xBridgeObject".text).typeOf := by decide +kernel
    have hrefused : mangle {} (.builtin "Builtin.Vec4xBridgeObject".text)
        = .error ⟨.builtinTypeName, .badVectorElement "BridgeObject".text⟩ := rfl
    -- The vector has been read, so that its name obeys the grammar. What is refused are its
    -- letters.
    obtain ⟨name, heq, hname, hwritten⟩ :=
      (mangle_builtin_inverse {}).2 _ _ (.inr hread) _ (Node.builtin_mem_walk _) rfl
    cases heq
    rw [hrefused] at hwritten
    rcases hwritten with ⟨u, hu, -⟩ | ⟨size, element, -, helement, hsame⟩
    · cases hu
    · cases hsame
      exact ⟨hread, rfl, hname, helement⟩
  · have hwrite : mangle {} (.builtin "Builtin.Int5000".text) = .ok "Bi5000_".text := by
      decide +kernel
    have hread : demangleType {} "Bi5000_".text ≠
        .ok (Node.builtin "Builtin.Int5000".text).typeOf := by
      decide +kernel
    exact ⟨hwrite, hread, fun hname =>
      hread (((mangle_builtin_inverse {}).1 _).2 _ hwrite |>.mpr hname)⟩

end

end SwiftABI
