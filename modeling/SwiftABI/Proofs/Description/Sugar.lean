/-
  The mark of an optional.

  A type that is made of others by an arrow, a modifier or an ampersand needs parentheses before a
  mark, or else the mark goes to its last part (`Node.isCompound`). A metatype has them
  (`describe_metatype`). An optional looks at the node around the type, which is simple whatever it
  contains, and has none. So an optional function is described like a function with an optional
  result (`describe_optional`).
-/
import SwiftABI.Proofs.Description.Fuel
import SwiftABI.Proofs.Symbol.Soundness.Run

namespace SwiftABI

/-! ### Types with marks -/

namespace Node

/-- A mark that follows the text of the type is read as a mark of a part of it. -/
def isCompound : Node → Bool
  | .mk .protocolList _ (list :: _) => 1 < list.children.length
  | .mk .protocolListWithAnyObject _ (.mk _ _ (types :: _) :: _) => 0 < types.children.length
  | .mk k _ _ => !k.isSimpleType

theorem isCompound_mk {k : Kind} {p : Payload} {cs : List Node} (hlist : k ≠ .protocolList)
    (hclass : k ≠ .protocolListWithAnyObject) : (mk k p cs).isCompound = !k.isSimpleType := by
  unfold isCompound
  split <;> rename_i heq <;> cases heq
  · exact absurd rfl hlist
  · exact absurd rfl hclass
  · rfl

/-- The text of a type as it should stand before a mark. -/
def shielded (n : Node) (text : Text) : Text := if n.isCompound then "(" ++ text ++ ")" else text

theorem eq_shielded_iff {n : Node} {text : Text} :
    text = n.shielded text ↔ n.isCompound = false := by
  unfold shielded
  split
  · rename_i hcompound
    rw [hcompound]
    refine iff_of_false (fun h => ?_) nofun
    have hlength := congrArg List.length h
    simp [String.text] at hlength
    omega
  · rename_i hsimple
    exact iff_of_true rfl (Bool.not_eq_true _ ▸ hsimple)

/-- A type of functions of one parameter. -/
def arrow (count : Int) (parameter result : Node) : Node :=
  .mk .functionType .none
    [.mk .argumentTuple (.index count) [parameter.typeOf], .mk .returnType .none [result.typeOf]]

end Node

/-- The ways to make an optional of a type. -/
inductive OptionalForm where
  | standard
  | implicitlyUnwrapped
  | sugared

namespace OptionalForm

def mark : OptionalForm → CodePoint
  | standard => '?'
  | implicitlyUnwrapped => '!'
  | sugared => '?'

/-- An enumeration of the standard library, applied to a type. -/
def standardEnum (name : String) (n : Node) : Node :=
  .mk .boundGenericEnum .none
    [.typeOf (.mk .enumType .none [.moduleName Standard.moduleText, .identifier name.toList]),
     .mk .typeList .none [n.typeOf]]

/-- The optional of a type. -/
def of : OptionalForm → Node → Node
  | standard, n => standardEnum "Optional" n
  | implicitlyUnwrapped, n => standardEnum "ImplicitlyUnwrappedOptional" n
  | sugared, n => .mk .sugaredOptional .none [n.typeOf]

/-- The optional is written with its mark. -/
def Marked (o : DisplayOptions) : OptionalForm → Prop
  | sugared => True
  | _ => o.synthesizeSugar = true

end OptionalForm

namespace Description

variable {o : DisplayOptions} {sub : Describer} {n : Node} {fuel : Nat}

/-! ### The text of a tree -/

/-- The text of a tree, or what is wrong with it. -/
def shown (o : DisplayOptions) (n : Node) : Describing Text := plain (describeAt o n.size) n

theorem describe_eq_ok_iff {t : Text} : describe o n = .ok t ↔ shown o n = .ok t := by
  unfold describe shown plain
  cases describeAt o n.size n false with
  | error f => exact ⟨nofun, nofun⟩
  | ok piece =>
    exact ⟨fun h => congrArg Except.ok (Except.ok.inj h),
      fun h => congrArg Except.ok (Except.ok.inj h)⟩

theorem plain_describeAt (h : n.size ≤ fuel) : plain (describeAt o fuel) n = shown o n := by
  unfold shown plain
  rw [describeAt_eq h (Nat.le_refl n.size)]

theorem plain_below {c : Node} (hc : c ∈ n.children) : plain (describeAt o n.size) c = shown o c :=
  plain_describeAt (Nat.le_of_lt (Node.size_lt_of_mem_children hc))

/-- A tree is described by way of what is below it. -/
theorem shown_eq {x : Describing Text} {f : Text → Text}
    (h : ofNode o (describeAt o n.size) n false = do return { text := f (← x) }) :
    shown o n = do return f (← x) := by
  rw [← plain_describeAt (Nat.le_succ n.size)]
  unfold plain
  rw [describeAt, h]
  cases x <;> rfl

/-- A tree that is no declaration and has no phrase is described by its kind. -/
theorem shown_eq_other (h : ∀ sub, ofNode o sub n false = do return { text := ← other o sub n }) :
    shown o n = other o (describeAt o n.size) n := (shown_eq (h _)).trans (bind_pure _)

theorem shown_typeOf : shown o n.typeOf = shown o n := by
  rw [shown_eq_other fun _ => rfl]
  exact plain_below (List.mem_singleton_self n)

/-! ### Parentheses -/

/-- The node around a type is simple, whatever it contains. -/
theorem parenthesized_typeOf : parenthesized sub n.typeOf = plain sub n.typeOf := by
  unfold parenthesized
  cases h : plain sub n.typeOf <;> rfl

/-- The type itself has parentheses where it needs them. -/
theorem parenthesized_of_shown {p : Text} (h : shown o n = .ok p) (hsub : plain sub n = .ok p) :
    parenthesized sub n = .ok (n.shielded p) := by
  rcases n with ⟨k, q, cs⟩
  unfold parenthesized
  rw [hsub]
  split
  · rename_i hk
    cases (show k = .protocolList from hk)
    rcases cs with _ | ⟨list, cs⟩
    · rw [shown_eq_other fun _ => rfl] at h
      cases h
    · rfl
  · rename_i hk
    cases (show k = .protocolListWithAnyObject from hk)
    rcases cs with _ | ⟨⟨k', q', _ | ⟨types, ts⟩⟩, cs⟩
    · rw [shown_eq_other fun _ => rfl] at h
      cases h
    · rw [shown_eq_other fun _ => rfl] at h
      cases h
    · rfl
  · rename_i hlist hclass
    unfold Node.shielded
    rw [Node.isCompound_mk (k := k) hlist hclass]
    rfl

/-! ### Optionals -/

/-- The type is put before the mark by way of the node around it. -/
theorem other_optional {form : OptionalForm} (h : form.Marked o) :
    other o sub (form.of n) = do return (← parenthesized sub n.typeOf) ++ [form.mark] := by
  cases form with
  | sugared => rfl
  | standard | implicitlyUnwrapped =>
    have hsugar : o.synthesizeSugar = true := h
    change boundGeneric o sub (OptionalForm.standardEnum _ n) = _
    rw [boundGeneric, hsugar]
    rfl

/-- An optional is described by the type, as it is alone, and the mark. -/
theorem shown_optional {form : OptionalForm} (h : form.Marked o) :
    shown o (form.of n) = do return (← shown o n) ++ [form.mark] := by
  have hother (sub : Describer) :
      ofNode o sub (form.of n) false = do return { text := ← other o sub (form.of n) } := by
    cases form <;> rfl
  have hlt : n.typeOf.size < (form.of n).size := by
    cases form <;>
      simp only [OptionalForm.of, OptionalForm.standardEnum, Node.size, Node.sizeAll] <;> omega
  rw [shown_eq_other hother, other_optional h, parenthesized_typeOf,
    plain_describeAt (Nat.le_of_lt hlt), shown_typeOf]

/-! ### Functions -/

theorem shown_arguments {p : Payload} {cs : List Node}
    (h : (Node.mk .argumentTuple p cs).size ≤ fuel) :
    shown o (.mk .argumentTuple p cs) =
      parameters (describeAt o fuel) none (.mk .argumentTuple p cs) o.functionArgumentTypes := by
  have hother (sub : Describer) : other o sub (.mk .argumentTuple p cs) =
      parameters sub none (.mk .argumentTuple p cs) o.functionArgumentTypes := rfl
  rw [shown_eq_other fun _ => rfl, hother]
  exact parameters_describeAt (Nat.le_refl _) h

theorem shown_result : shown o (.mk .returnType .none [n]) = do return " -> " ++ (← shown o n) := by
  rw [shown_eq_other fun _ => rfl]
  change (do return " -> " ++ (← plain _ n)) = _
  rw [plain_below (List.mem_singleton_self n)]

/-- A type of functions is described by its parameters, an arrow and the result. -/
theorem shown_arrow {count : Int} {parameter result : Node} (h : o.functionArgumentTypes = true) :
    shown o (.arrow count parameter result) = do
      let parameters ← shown o (.mk .argumentTuple (.index count) [parameter.typeOf])
      return parameters ++ " -> " ++ (← shown o result) := by
  have hfunction (sub : Describer) : functionType o sub none (.arrow count parameter result) = do
      let before ← parameters sub none
        (.mk .argumentTuple (.index count) [parameter.typeOf]) o.functionArgumentTypes
      return before ++ (← plain sub (.mk .returnType .none [result.typeOf])) := by
    unfold functionType
    rw [h]
    change (do
      let before ← parameters sub none _ true
      return before ++ [] ++ (← plain sub (.mk .returnType .none [result.typeOf]))) = _
    simp only [List.append_nil]
  have hempty (t : Text) : "".text ++ t = t := rfl
  have hphrase : shown o (.arrow count parameter result) = do
      return "" ++ (← functionType o (describeAt o _) none (.arrow count parameter result)) :=
    shown_eq rfl
  rw [hphrase, hfunction, plain_below (List.mem_cons_of_mem _ List.mem_cons_self), shown_result,
    shown_typeOf,
    ← shown_arguments (Nat.le_of_lt (Node.size_lt_of_mem_children List.mem_cons_self))]
  simp only [bind_assoc, pure_bind, List.append_assoc, hempty]

end Description

open Description

/-- A metatype looks at the type itself. -/
theorem describe_metatype {o : DisplayOptions} {n : Node} {p : Text}
    (h : describe o n.typeOf = .ok p) :
    describe o (.mk .metatype .none [n.typeOf]) =
      .ok (n.shielded p ++ (if n.kind.isExistential then ".Protocol" else ".Type")) := by
  rw [describe_eq_ok_iff] at h ⊢
  have hplain : plain (describeAt o (Node.mk .metatype .none [n.typeOf]).size) n = .ok p := by
    rw [plain_describeAt, ← shown_typeOf, h]
    simp only [Node.typeOf, Node.size, Node.sizeAll]
    omega
  rw [shown_typeOf] at h
  rw [shown_eq_other fun _ => rfl]
  change (do
    let text ← parenthesized (describeAt o (Node.mk .metatype .none [n.typeOf]).size) n
    return text ++ (if n.kind.isExistential then ".Protocol" else ".Type")) = _
  rw [parenthesized_of_shown h hplain]
  rfl

/-- An optional that is written with its mark is described by the type, as it is alone, and the
mark: there are no parentheses, which a compound type would need. Where functions are described with
the types of their parameters, an optional function is described like the function with an optional
result. -/
theorem describe_optional (o : DisplayOptions) (form : OptionalForm) (hmarked : form.Marked o) :
    (∀ n text, describe o (form.of n) = .ok text ↔ ∃ p, describe o n.typeOf = .ok p ∧
      text = p ++ [form.mark]) ∧ (∀ n p, describe o n.typeOf = .ok p →
      (describe o (form.of n) = .ok (n.shielded p ++ [form.mark]) ↔ n.isCompound = false)) ∧
    (o.functionArgumentTypes = true → ∀ count parameter result text,
      describe o (form.of (.arrow count parameter result)) = .ok text ↔
        describe o (.arrow count parameter (form.of result)) = .ok text) := by
  have hoptional (n : Node) :
      shown o (form.of n) = (do return (← shown o n.typeOf) ++ [form.mark]) := by
    rw [shown_optional hmarked, shown_typeOf]
  simp only [describe_eq_ok_iff]
  refine ⟨fun n text => ?_, fun n p hp => ?_, fun hshown count parameter result text => ?_⟩
  · rw [hoptional]
    cases shown o n.typeOf with
    | error f => exact ⟨nofun, nofun⟩
    | ok p =>
      constructor
      · rintro ⟨⟩
        exact ⟨p, rfl, rfl⟩
      · rintro ⟨_, ⟨⟩, rfl⟩
        rfl
  · rw [hoptional, hp, ← Node.eq_shielded_iff (n := n), ← List.append_left_inj [form.mark]]
    exact ⟨Except.ok.inj, congrArg Except.ok⟩
  · rw [shown_optional hmarked, shown_arrow hshown, shown_arrow hshown, shown_optional hmarked]
    simp only [bind_assoc, pure_bind, List.append_assoc]

/-- The type of functions from nothing to nothing. -/
def emptyArrow : Node := .arrow 0 (.mk .tuple .none []) (.mk .tuple .none [])

/-- An optional function from nothing to nothing, which is read as a function with an optional
result. -/
theorem describe_optional_emptyArrow :
    demangleType {} "yycSg".text = .ok (OptionalForm.standard.of emptyArrow).typeOf ∧
      emptyArrow.isCompound = true ∧
      describe (.ofBits 255) emptyArrow.typeOf = .ok "() -> ()".text ∧
      describe (.ofBits 255) (OptionalForm.standard.of emptyArrow) = .ok "() -> ()?".text ∧
      describe (.ofBits 255) (OptionalForm.standard.of emptyArrow) ≠ .ok "(() -> ())?".text ∧
      describe (.ofBits 255)
      (.arrow 0 (.mk .tuple .none []) (OptionalForm.standard.of (.mk .tuple .none []))) =
        .ok "() -> ()?".text := by
  obtain ⟨hmark, hshielded, harrow⟩ := describe_optional (.ofBits 255) .standard rfl
  have hcompound : emptyArrow.isCompound = true := rfl
  have htype : describe (.ofBits 255) emptyArrow.typeOf = .ok "() -> ()".text := rfl
  have hoptional := (hmark emptyArrow _).mpr ⟨_, htype, rfl⟩
  refine ⟨by decide +kernel, hcompound, htype, hoptional, fun h => ?_,
    (harrow rfl _ _ _ _).mp hoptional⟩
  rw [(hshielded emptyArrow _ htype).mp h] at hcompound
  cases hcompound

end SwiftABI
