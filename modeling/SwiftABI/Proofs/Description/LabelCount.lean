/-
  The shape of a tree that has been read, and what follows for its description.

  Labels are written before the parameters of a function type, one for each. In a tree that obeys
  the grammar the labels of a declaration go with its type, so that there are as many as are needed:
  a description never fails for their number.
-/
import SwiftABI.Proofs.Description.Printable

namespace SwiftABI

/-- A tree that has been read is never refused for the number of its labels. -/
theorem describe_ne_labelCount {cfg : Config} {n : Node} (hn : n.IsSymbol cfg ∨ n.Made cfg)
    (o : DisplayOptions) (k : Kind) : describe o n ≠ .error (.fault ⟨k, .labelCount⟩) := by
  intro h
  rcases describe_cases hn o with ⟨text, htext⟩ | ⟨-, e, he, hreason⟩ | ⟨-, hlong⟩
  · rw [h] at htext
    cases htext
  · rw [h] at he
    cases he
    cases hreason
  · rw [h] at hlong
    cases hlong

/-! ### Trees that have been read -/

/-- Every node of a tree that has been read obeys the laws of shape, labels are found below
declarations and whole types only, and no description of the tree fails for their number. -/
theorem shapeLaws_demangle (cfg : Config) (text : Text) (t : Node)
    (h : demangle cfg text = .ok t ∨ demangleType cfg text = .ok t) :
    (∀ n ∈ t.walk, n.ShapeLaws) ∧ t.kind ≠ .labelList ∧
      ∀ o k, describe o t ≠ .error (.fault ⟨k, .labelCount⟩) := by
  rcases h with h | h
  · have hsymbol := isSymbol_of_demangle h
    refine ⟨Node.All.iff_walk.mp ?_, ?_, describe_ne_labelCount (.inl hsymbol)⟩
    · refine .of_children hsymbol.shapeLaws fun c hc => ?_
      obtain ⟨m, hm, rfl⟩ := hsymbol.children c hc
      exact hm.grammatical_unwrapped.shapeLaws_all
    · rw [hsymbol.root]
      exact (by decide : Kind.global ≠ .labelList)
  · have hmade := made_of_demangleType h
    exact ⟨Node.All.iff_walk.mp hmade.grammatical.shapeLaws_all, hmade.kind_ne_labelList.1,
      describe_ne_labelCount (.inr hmade)⟩

/-- A type of the standard library. -/
private def standardStruct (name : String) : Node :=
  .typeOf (.mk .structType .none [.moduleName Standard.moduleText, .identifier name.text])

/-- The function `f(x: Int, y: Bool) -> Bool` of a module. -/
def labelledFunction : Node :=
  .mk .global .none [.mk .functionDecl .none
    [.moduleName ['a'], .identifier ['f'],
      .mk .labelList .none [.identifier ['x'], .identifier ['y']],
     .typeOf (.mk .functionType .none
      [.mk .argumentTuple (.index 2) [.typeOf (.mk .tuple .none
        [.mk .tupleElement .none [standardStruct "Int"],
          .mk .tupleElement .none [standardStruct "Bool"]])],
       .mk .returnType .none [standardStruct "Bool"]])]]

theorem shapeLaws_demangle_labelledFunction :
    demangle {} "$s1a1f1x1ySbSi_SbtF".text = .ok labelledFunction ∧
      (∀ n ∈ labelledFunction.walk, n.ShapeLaws) ∧
        describe .standard labelledFunction ≠ .error (.fault ⟨.labelList, .labelCount⟩) := by
  have h : demangle {} "$s1a1f1x1ySbSi_SbtF".text = .ok labelledFunction := by decide +kernel
  obtain ⟨hlaws, -, hdescribe⟩ := shapeLaws_demangle {} _ _ (.inl h)
  exact ⟨h, hlaws, hdescribe .standard .labelList⟩

/-- A structure in a structure that arguments have been applied to twice. -/
def boundTwice : Node :=
  .mk .boundGenericStructure .none
    [.typeOf (.mk .boundGenericStructure .none
      [.typeOf (.mk .structType .none [.moduleName ['a'], .identifier ['b']]),
       .mk .typeList .none [standardStruct "Bool"]]),
     .mk .typeList .none [standardStruct "Int"]]

/-- A composition of one protocol that arguments have been applied to. -/
def boundMember : Node :=
  .mk .protocolList .none [.mk .typeList .none [.typeOf (.mk .boundGenericProtocol .none
    [.typeOf (.mk .protocolType .none [.moduleName ['a'], .identifier ['b']]),
     .mk .typeList .none [standardStruct "Bool"]])]]

/-- Arguments can be applied to a type that has some already, and to the protocols of a composition:
lists of arguments go down from context to context, whatever these are. So generic arguments are not
always applied to a plain nominal type, and a composition is not always one of plain protocols. -/
theorem not_plain_bound_and_protocols :
    ¬ (∀ text t, demangle {} text = .ok t → ∀ n ∈ t.walk, ∀ nominal arguments,
      n = .mk .boundGenericStructure .none [.typeOf nominal, arguments] →
      nominal.kind = .structType) ∧ ¬ (∀ text t, demangle {} text = .ok t → ∀ n ∈ t.walk, ∀ ps,
      n = .mk .protocolList .none [.mk .typeList .none ps] →
      ∀ p ∈ ps, p.unwrapped.kind = .protocolType) := by
  constructor
  · intro h
    have hread : demangle {} "$s1a1bV1cVySi_GySb___G".text
        = .ok (.mk .global .none [.mk .structType .none [boundTwice, .identifier ['c']]]) := by
        decide +kernel
    have hall := Node.All.iff_walk.mpr (h _ _ hread)
    have hbound := ((hall.children _ List.mem_cons_self).children _ List.mem_cons_self).root
    exact absurd (hbound _ _ rfl) (by decide)
  · intro h
    have hread : demangle {} "$s1a1bP_pZ1cVySb______G".text
        = .ok (.mk .global .none [.mk .structType .none
          [.mk .staticDecl .none [.typeOf boundMember], .identifier ['c']]]) := by decide +kernel
    have hall := Node.All.iff_walk.mpr (h _ _ hread)
    have hcontext := (hall.children _ List.mem_cons_self).children _ List.mem_cons_self
    have hmember := ((hcontext.children _ List.mem_cons_self).children _ List.mem_cons_self).root
    exact absurd (hmember _ rfl _ List.mem_cons_self) (by decide)

end SwiftABI
