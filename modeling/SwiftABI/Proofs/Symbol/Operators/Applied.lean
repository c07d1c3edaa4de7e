/-
  The operators that apply generic arguments.

  The writer puts the lists of generic arguments behind the declaration, the outermost first and a
  mark in front of each, and the reader takes them from the stack again, its own list first.
  `listsOn` is what they leave on the stack.
-/
import SwiftABI.Proofs.Symbol.ArgumentChain
import SwiftABI.Proofs.Symbol.Turns

namespace SwiftABI

/-! ### Lists on the stack -/

/-- What lists of generic arguments leave on a stack. The first list lies at the top, and the last
one has the mark of an empty list below it. -/
def listsOn (s : List Node) : List (List Node) → List Node
  | [] => s
  | [l] => l.reverse ++ Node.emptyMark :: s
  | l :: l' :: lists => l.reverse ++ Node.firstMark :: listsOn s (l' :: lists)

namespace Reading

private theorem takeTypeLists_append {l : List Node} (h : ∀ a ∈ l, a.kind = .type)
    (s types : List Node) :
    takeTypeLists (l ++ s) types = takeTypeLists s (l.reverse ++ types) := by
  induction l generalizing types with
  | nil => rfl
  | cons a l ih =>
    rw [List.cons_append, takeTypeLists, if_pos (h a List.mem_cons_self),
      ih fun b hb => h b (List.mem_cons_of_mem _ hb)]
    simp

private theorem takeTypeLists_reverse {l : List Node} (h : ∀ a ∈ l, a.kind = .type)
    (s types : List Node) :
    takeTypeLists (l.reverse ++ s) types = takeTypeLists s (l ++ types) := by
  rw [takeTypeLists_append (fun a ha => h a (List.mem_reverse.mp ha)), List.reverse_reverse]

/-- The lists are taken from the stack as they were put there. -/
theorem takeTypeLists_listsOn {lists : List (List Node)} (h : ∀ l ∈ lists, ∀ a ∈ l, a.kind = .type)
    (hne : lists ≠ []) (s : List Node) : takeTypeLists (listsOn s lists) [] = some (lists, s) := by
  induction lists with
  | nil => exact absurd rfl hne
  | cons l lists ih =>
    have hl := h l List.mem_cons_self
    rcases lists with _ | ⟨l', lists⟩
    · rw [listsOn, takeTypeLists_reverse hl, List.append_nil]
      rfl
    · have hrest := ih (fun l hl => h l (List.mem_cons_of_mem _ hl)) (List.cons_ne_nil _ _)
      rw [listsOn, takeTypeLists_reverse hl, List.append_nil]
      show (takeTypeLists (listsOn s (l' :: lists)) []).map _ = _
      rw [hrest]
      rfl

end Reading

namespace Operates

variable {cfg : Config} {s : List Node} {full : Bool} {n m : Node} {lists : List (List Node)}

private theorem reads_typeLists {c : Store} (h : ∀ l ∈ lists, ∀ a ∈ l, a.kind = .type) :
    Reads (lists.mapM (Reading.node .typeList)) [] c (ArgumentChain.argumentLists lists) c := by
  induction lists with
  | nil => exact Reads.pure _ _
  | cons l lists ih =>
    have hrule : (Node.mk .typeList .none l).Rule {} := .typeList (h l List.mem_cons_self)
    have hrest := ih fun l hl => h l (List.mem_cons_of_mem _ hl)
    rw [List.mapM_cons]
    exact (Reads.node hrule.fits _).step (hrest.map fun lists => .mk .typeList .none l :: lists)

/-- Lists of generic arguments are applied to the declaration below them. -/
theorem boundGenericType (h : ArgumentChain full n m lists) (hn : n.Grammatical cfg)
    (hne : lists ≠ []) (hk : n.kind ∈ Kind.types) (hm : m.kind ∈ Kind.nominals) :
    Operates cfg ['G'] (listsOn (m.typeOf :: s) lists) (n.typeOf :: s) [n.typeOf] := by
  have htypes : ∀ l ∈ lists, ∀ a ∈ l, a.kind = .type := fun l hl a ha =>
    (h.of_mem hn hn l hl a ha).1
  have hext : m.kind ≠ .extensionDecl := by
    intro hk
    rw [hk] at hm
    exact absurd hm (by decide)
  have happlied : Reading.applyArguments m (ArgumentChain.argumentLists lists) = .ok n := by
    rw [← Reading.applyToContext_of_ne hext]
    exact h.applyToContext hn hne
  have hgeneric : ∀ k ∈ Kind.nominals, k.isAnyGeneric = true := by decide
  refine of_reads_register (by decide) fun table words => ?_
  refine Reads.get fun offset rest => ?_
  simp only [Store.machine, Reading.takeTypeLists_listsOn htypes hne]
  have hmodify : Reads (modify fun machine => { machine with stack := m.typeOf :: s }) []
      ⟨listsOn (m.typeOf :: s) lists, table, words⟩ () ⟨m.typeOf :: s, table, words⟩ :=
      fun _ _ => rfl
  refine hmodify.step ((reads_typeLists htypes).step ?_)
  refine (Reads.popNominal (n := m.typeOf) rfl (hgeneric _ hm)).step ?_
  rw [show m.typeOf.unwrapped = m from rfl, happlied]
  refine (Reads.node (Node.fits_typeOf hk) _).step ?_
  exact (Reads.register rfl).step (Reads.pure _ _)

/-- The optional of a type. -/
theorem optional {t : Node} (ht : t.kind = .type) :
    Operates cfg ['S', 'g'] (t :: s)
      (.typeOf (.mk .boundGenericEnum .none [Standard.optionalType, .mk .typeList .none [t]]) :: s)
      [.typeOf (.mk .boundGenericEnum .none [Standard.optionalType, .mk .typeList .none [t]])] := by
  have hlist : (Node.mk .typeList .none [t]).Rule cfg := .typeList fun a ha => by
    rwa [List.mem_singleton.mp ha]
  have hbound :
    (Node.mk .boundGenericEnum .none [Standard.optionalType, .mk .typeList .none [t]]).Rule
      cfg := .boundNominal (by decide) (.inl rfl) (List.cons_ne_nil _ _) fun a ha => by
    rwa [List.mem_singleton.mp ha]
  refine of_reads_register (by decide) fun table words => ?_
  refine Reads.peek ((Reads.advance ['g'] _).last ?_)
  refine (Reads.popType ht).step ((Reads.node hlist.fits _).step ?_)
  refine (Reads.type hbound.fits (by decide) _).step ?_
  exact (Reads.register rfl).step (Reads.pure _ _)

end Operates

end SwiftABI
