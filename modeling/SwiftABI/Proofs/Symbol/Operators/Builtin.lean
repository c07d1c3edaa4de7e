/-
  The names of builtin types are read as they are written.

  A symbol spells a builtin type by a letter, by a letter and its size, or, for a vector, by its
  element and its size. The letters of each sort of name are found here (`builtinLetters_float` and
  so on), and whatever letters a name has are read as the name (`Operates.builtinType`).
-/
import SwiftABI.Proofs.Symbol.Stacked
import SwiftABI.Proofs.Symbol.Turns
import SwiftABI.Proofs.Text.Pieces
import SwiftABI.Symbol.Writing.Type

namespace SwiftABI

/-! ### Texts -/

namespace Text

theorem isNumeral_digits (n : Nat) : isNumeral (digits n) = true := by
  unfold isNumeral
  rw [Bool.and_eq_true, List.all_eq_true]
  refine ⟨by simp [digits_ne_nil n], fun c hc => ?_⟩
  have hdigit := isDigit_of_mem_digits hc
  have hascii : c.toNat < 0x80 := by
    rw [isDigit_iff] at hdigit
    omega
  rw [isAnyDigit_of_ascii hascii, hdigit]

/-- A text without the character is what stands before it. -/
theorem cut_append {c : CodePoint} {a b : Text} (ha : c ∉ a) : cut c (a ++ c :: b) = (a, b) := by
  induction a with
  | nil => simp [cut]
  | cons x a ih =>
    simp only [List.mem_cons, not_or] at ha
    have hx : ¬x = c := fun h => ha.1 h.symm
    simp [cut, hx, ih ha.2]

end Text

/-! ### The letters of a name -/

namespace Writing

private theorem encode?_builtin_eq_none {p t : Text}
    (h : ∀ entry ∈ Code.builtinTypes, Text.dropPrefix? p entry.2 ≠ some t) :
    Code.encode? Code.builtinTypes (p ++ t) = none := by
  unfold Code.encode?
  rw [Option.map_eq_none_iff, List.find?_eq_none]
  intro entry hentry heq
  have hname : entry.2 = p ++ t := of_decide_eq_true heq
  exact h entry hentry (by rw [hname, Text.dropPrefix?_append])

/-- No builtin type with a letter has a size in its name. -/
private theorem encode?_builtin_numeral {p size : Text} (hsize : Text.isNumeral size = true)
    (h : ∀ entry ∈ Code.builtinTypes,
      ((Text.dropPrefix? p entry.2).all fun t => !t.all Text.isAnyDigit) = true) :
    Code.encode? Code.builtinTypes (p ++ size) = none := by
  refine encode?_builtin_eq_none fun entry hentry hdrop => ?_
  have hall := h entry hentry
  have hdigits : size.all Text.isAnyDigit = true := ((Bool.and_eq_true _ _).mp hsize).2
  rw [hdrop, Option.all_some, hdigits] at hall
  cases hall

theorem builtinSize?_eq_some_iff {p t size : Text} :
    builtinSize? p t = some size ↔ t = p ++ size ∧ Text.isNumeral size = true := by
  constructor
  · intro h
    unfold builtinSize? at h
    split at h
    · rename_i rest hrest
      split at h
      · rename_i hnumeral
        cases h
        exact ⟨Text.eq_append_of_dropPrefix? hrest, hnumeral⟩
      · cases h
    · cases h
  · rintro ⟨rfl, hnumeral⟩
    unfold builtinSize?
    rw [Text.dropPrefix?_append]
    exact if_pos hnumeral

theorem builtinSize?_append (p : Text) {size : Text} (hsize : Text.isNumeral size = true) :
    builtinSize? p (p ++ size) = some size :=
  builtinSize?_eq_some_iff.mpr ⟨rfl, hsize⟩

section

variable {size : Text} (hsize : Text.isNumeral size = true)
include hsize

theorem builtinLetters_float :
    builtinLetters ("Builtin.FPIEEE".text ++ size) = .ok (sized 'f' size) := by
  have hvector : Text.dropPrefix? "Builtin.Vec".text ("Builtin.FPIEEE".text ++ size) = none := rfl
  have hint : builtinSize? "Builtin.Int".text ("Builtin.FPIEEE".text ++ size) = none := rfl
  unfold builtinLetters
  rw [encode?_builtin_numeral hsize (by decide), hvector, hint, builtinSize?_append _ hsize]

theorem builtinLetters_integer :
    builtinLetters ("Builtin.Int".text ++ size) = .ok (sized 'i' size) := by
  have hvector : Text.dropPrefix? "Builtin.Vec".text ("Builtin.Int".text ++ size) = none := rfl
  unfold builtinLetters
  rw [encode?_builtin_numeral hsize (by decide), hvector, builtinSize?_append _ hsize]

theorem vectorElement?_float : vectorElement? ("FPIEEE".text ++ size) = some (sized 'f' size) := by
  unfold vectorElement?
  rw [builtinSize?_append _ hsize]
  rfl

theorem vectorElement?_integer : vectorElement? ("Int".text ++ size) = some (sized 'i' size) := by
  have hfloat : builtinSize? "FPIEEE".text ("Int".text ++ size) = none := rfl
  unfold vectorElement?
  rw [builtinSize?_append _ hsize, hfloat]
  rfl

/-- The letters of the element of a vector come before the size. -/
theorem builtinLetters_vector {element : Text} (helement : element ≠ []) :
    builtinLetters ("Builtin.Vec".text ++ size ++ ('x' : CodePoint) :: element) =
      match vectorElement? element with
      | some letters => .ok (letters ++ sized 'B' ('v' :: size))
      | none => .error (.badVectorElement element) := by
  have hx : CodePoint.char 'x' ∉ size := fun h =>
    absurd (List.all_eq_true.mp ((Bool.and_eq_true _ _).mp hsize).2 _ h) (by decide)
  have hnumeral : (!Text.isNumeral size || element.isEmpty) = false := by
    rw [hsize, List.isEmpty_eq_false_iff.mpr helement]
    rfl
  have hencode : Code.encode? Code.builtinTypes
      ("Builtin.Vec".text ++ (size ++ ('x' : CodePoint) :: element)) = none := by
    refine encode?_builtin_eq_none fun entry hentry hdrop => ?_
    have hnone : ∀ entry ∈ Code.builtinTypes,
        Text.dropPrefix? "Builtin.Vec".text entry.2 = none := by
      decide
    rw [hnone entry hentry] at hdrop
    cases hdrop
  unfold builtinLetters
  rw [List.append_assoc, hencode, Text.dropPrefix?_append]
  simp only [Text.cut_append hx]
  exact if_neg (by rw [hnumeral]; decide)

end

/-- What can be the element of a vector, if it is a builtin type at all. -/
private theorem element_cases {cfg : Config} {element : Text}
    (h : BuiltinName cfg (Reading.builtinPrefix ++ element)) :
    (∃ entry ∈ Code.builtinTypes, element = entry.2.drop 8) ∨
      (∃ size, element = "FPIEEE".text ++ Text.digits size) ∨
      (∃ size, element = "Int".text ++ Text.digits size) ∨
      ∃ rest, element = "Vec".text ++ rest := by
  generalize hname : Reading.builtinPrefix ++ element = name at h
  have helement : element = name.drop 8 := by
    rw [← hname]
    rfl
  cases h with
  | named h => exact .inl ⟨_, h, helement⟩
  | @float size => exact .inr (.inl ⟨size, helement⟩)
  | @integer size => exact .inr (.inr (.inl ⟨size, helement⟩))
  | vector => exact .inr (.inr (.inr ⟨_, helement⟩))

theorem ne_nil_of_builtinName {cfg : Config} {element : Text}
    (h : BuiltinName cfg (Reading.builtinPrefix ++ element)) : element ≠ [] := by
  rcases element_cases h with ⟨entry, hentry, rfl⟩ | ⟨size, rfl⟩ | ⟨size, rfl⟩ | ⟨rest, rfl⟩
  · have hall : ∀ entry ∈ Code.builtinTypes, entry.2.drop 8 ≠ [] := by decide
    exact hall entry hentry
  · exact List.cons_ne_nil _ _
  · exact List.cons_ne_nil _ _
  · exact List.cons_ne_nil _ _

/-- The letters of an element are those that it has by itself. -/
theorem builtinLetters_of_vectorElement? {cfg : Config} {element letters : Text}
    (h : BuiltinName cfg (Reading.builtinPrefix ++ element))
    (hletters : vectorElement? element = some letters) :
    builtinLetters (Reading.builtinPrefix ++ element) = .ok letters := by
  rcases element_cases h with ⟨entry, hentry, rfl⟩ | ⟨size, rfl⟩ | ⟨size, rfl⟩ | ⟨rest, rfl⟩
  -- Of the types that have no size in their names, only pointers can be elements.
  · have hall : ∀ entry ∈ Code.builtinTypes, vectorElement? (entry.2.drop 8) = none ∨
        entry = (CodePoint.char 'p', "Builtin.RawPointer".text) := by decide
    rcases hall entry hentry with hnone | rfl
    · rw [hnone] at hletters
      cases hletters
    · cases hletters
      rfl
  · rw [vectorElement?_float (Text.isNumeral_digits size)] at hletters
    cases hletters
    exact builtinLetters_float (Text.isNumeral_digits size)
  · rw [vectorElement?_integer (Text.isNumeral_digits size)] at hletters
    cases hletters
    exact builtinLetters_integer (Text.isNumeral_digits size)
  · have hnone : vectorElement? ("Vec".text ++ rest) = none := rfl
    rw [hnone] at hletters
    cases hletters

end Writing

/-! ### Reading the letters -/

namespace Operates

variable {cfg : Config} {s : List Node}

/-- The size of a builtin type is read as it is written. -/
private theorem reads_builtinSize {size : Nat} (hpos : 0 < size)
    (hlimit : (size : Int) < cfg.maxBuiltinSize) (c : Store) :
    Reads (Reading.builtinSize cfg) (Text.digits size ++ (['_'] : Text)) c size c := by
  rw [← Code.index_succ]
  have hcheck : (1 < size + 1 && decide (((size + 1 : Nat) : Int) - 1 < cfg.maxBuiltinSize)) =
      true := by
    simp only [Bool.and_eq_true, decide_eq_true_eq]
    omega
  exact (Reads.index (size + 1) c).last ((Reads.check hcheck _).step (Reads.pure size c))

private theorem reads_builtin {table : SubstitutionTable} {words : List Text} {w name : Text}
    {s' : List Node}
    (h : Reads (Reading.builtinName cfg) w ⟨s, table, words⟩ name ⟨s', table, words⟩) :
    Reads (Reading.operator cfg 'B') w ⟨s, table, words⟩
      (.typeOf (.mk .builtinTypeName (.text name) [])) ⟨s', table, words⟩ := by
  have htype : Kind.builtinTypeName ∈ Kind.types := by decide
  exact h.last
    ((Reads.build ⟨rfl, rfl, rfl⟩ _).step (Reads.node (Node.fits_typeOf (n := .mk _ _ _) htype) _))

/-- A builtin type is read by the letters of its name. -/
theorem builtinType {name letters : Text} (h : BuiltinName cfg name)
    (hletters : Writing.builtinLetters name = .ok letters) :
    Operates cfg ('B' :: letters) s (.typeOf (.mk .builtinTypeName (.text name) []) :: s) := by
  -- By induction on the name, since that of a vector has the name of its elements inside.
  induction h generalizing letters s with
  | @named c name h =>
    have hencode := Code.encode?_of_mem (by decide) h
    unfold Writing.builtinLetters at hletters
    rw [hencode] at hletters
    cases hletters
    refine of_reads (by decide) fun table words => reads_builtin ((Reads.next c _).last ?_)
    rw [Code.decode?_of_mem (by decide) h]
    exact Reads.pure name _
  | @float size hpos hlimit =>
    rw [Writing.builtinLetters_float (Text.isNumeral_digits size)] at hletters
    cases hletters
    refine of_reads (by decide) fun table words => reads_builtin ?_
    exact (Reads.next 'f' _).bind ((reads_builtinSize hpos hlimit _).map fun size =>
      "Builtin.FPIEEE".text ++ Text.digits size)
  | @integer size hpos hlimit =>
    rw [Writing.builtinLetters_integer (Text.isNumeral_digits size)] at hletters
    cases hletters
    refine of_reads (by decide) fun table words => reads_builtin ?_
    exact (Reads.next 'i' _).bind ((reads_builtinSize hpos hlimit _).map fun size =>
      "Builtin.Int".text ++ Text.digits size)
  | @vector size element hpos hlimit h ih =>
    rw [Writing.builtinLetters_vector (Text.isNumeral_digits size)
      (Writing.ne_nil_of_builtinName h)] at hletters
    rcases helement : Writing.vectorElement? element with _ | letters'
    · rw [helement] at hletters
      cases hletters
    · rw [helement] at hletters
      cases hletters
      -- The elements are read on their own first. The vector then takes them off the stack.
      have hfirst := ih (s := s) (Writing.builtinLetters_of_vectorElement? h helement)
      have hvector : Operates cfg ('B' :: 'v' :: (Text.digits size ++ (['_'] : Text)))
          (.typeOf (.mk .builtinTypeName (.text (Reading.builtinPrefix ++ element)) []) :: s)
          (.typeOf (.mk .builtinTypeName
            (.text ("Builtin.Vec".text ++ Text.digits size ++ ('x' : CodePoint) :: element)) []) ::
            s) := by
        refine of_reads (by decide) fun table words => reads_builtin ((Reads.next 'v' _).bind ?_)
        refine (reads_builtinSize hpos hlimit _).last ?_
        refine (Reads.popTypeInside (n := .typeOf _) rfl).step ?_
        show Reads (Reading.require (Text.dropPrefix? Reading.builtinPrefix _) _ >>= _) _ _ _ _
        rw [Text.dropPrefix?_append]
        exact (Reads.require_some element _).step (Reads.pure _ _)
      have hboth := hfirst.trans hvector
      simpa only [Writing.sized, List.cons_append, List.append_assoc, List.nil_append] using hboth

end Operates

end SwiftABI
