/-
  What writing a node makes the reader do.

  `Written sub n` says that the writer `sub`, whatever the reader has on its stack, leaves there
  what stands for `n`. If the writer of the trees below a node does so for its children, then the
  writer of the node does so for the node, kind by kind. For the kinds that are written as their
  children and some letters, an operator that reads these letters is all that is needed
  (`Written.of_suffix`).
-/
import Mathlib.Data.List.Basic
import SwiftABI.Proofs.Symbol.Operators.Type
import SwiftABI.Symbol.Mangle

namespace SwiftABI

/-- Writing the node, if it goes well, leaves on the stack of the reader what stands for the node.
In strict work it goes well. -/
def Written (strict : Prop) (cfg : Config) (pre : Text) (sub : Node → Writing Unit) (n : Node) :
    Prop :=
  ∀ s, Turns strict cfg pre (sub n) ⟨s, []⟩ fun _ => ⟨n.stacked ++ s, []⟩

namespace Turns

variable {strict : Prop} {cfg : Config} {pre : Text} {sub : Node → Writing Unit} {s : List Node}

/-- The nodes of a list are written one after the other. -/
theorem eachOn {write : Node → Writing Unit} {st : Node → List Node} {ns : List Node}
    (h : ∀ n ∈ ns, ∀ s, Turns strict cfg pre (write n) ⟨s, []⟩ fun _ => ⟨st n ++ s, []⟩) :
    Turns strict cfg pre (Writing.each write ns) ⟨s, []⟩ fun _ =>
      ⟨ns.foldl (fun s n => st n ++ s) s, []⟩ := by
  induction ns generalizing s with
  | nil => exact pure rfl
  | cons n ns ih =>
    exact (h n List.mem_cons_self s).bind fun _ => ih fun m hm => h m (List.mem_cons_of_mem _ hm)

theorem each {ns : List Node} (h : ∀ n ∈ ns, Written strict cfg pre sub n) :
    Turns strict cfg pre (Writing.each sub ns) ⟨s, []⟩ fun _ =>
      ⟨Node.stackedOn s ns, []⟩ := eachOn h

/-- The first element of a list that is not empty has a mark behind it. -/
theorem markedList {write : Node → Writing Unit} {st : Node → List Node} {ns : List Node}
    (h : ∀ n ∈ ns, ∀ s, Turns strict cfg pre (write n) ⟨s, []⟩ fun _ => ⟨st n ++ s, []⟩) :
    Turns strict cfg pre (Writing.markedList write ns) ⟨s, []⟩ fun _ =>
      ⟨Reads.markedOn st s ns, []⟩ := by
  rcases ns with _ | ⟨n, ns⟩
  · have hempty : Operates cfg "y".text s (Node.emptyMark :: s) :=
      Operates.marker (k := .emptyList) (by decide) rfl
    exact emit hempty (List.cons_ne_nil _ _)
  · have hfirst : Operates cfg "_".text (st n ++ s) (Node.firstMark :: (st n ++ s)) :=
      Operates.marker (k := .firstElementMarker) (by decide) rfl
    refine (h n List.mem_cons_self s).bind fun _ => ?_
    refine (emit hfirst (List.cons_ne_nil _ _)).bind fun _ => ?_
    exact eachOn fun m hm => h m (List.mem_cons_of_mem _ hm)

end Turns

/-! ### Several nodes on a stack -/

namespace Node

theorem stackedOn_eq_flatMap (s ns : List Node) :
    stackedOn s ns = ns.reverse.flatMap stacked ++ s :=
  Reads.foldl_stack stacked ns s

/-- Nodes that stand for themselves on the stack, written from last to first. -/
theorem stackedOn_reverse {ns : List Node} (h : ∀ n ∈ ns, n.stacked = [n.asElement])
    (s : List Node) :
    stackedOn s ns.reverse = ns.map asElement ++ s := by
  rw [stackedOn_eq_flatMap, List.reverse_reverse, List.flatMap_congr h, List.map_eq_flatMap]

/-- Nodes of most kinds lie on the stack as they are. -/
theorem stackedOn_plain {ns : List Node} (h : ∀ n ∈ ns, n.kind ∈ Kind.plain) (s : List Node) :
    stackedOn s ns = ns.reverse ++ s := by
  have hstacked : ∀ n ∈ ns.reverse, n.stacked = [n] := fun n hn =>
    stacked_of_plain (h n (List.mem_reverse.mp hn))
  rw [stackedOn_eq_flatMap, List.flatMap_congr hstacked, List.flatMap_singleton' ns.reverse]

end Node

/-! ### Ways to write a node -/

namespace Writing

variable {cfg : Config} {sub : Node → Writing Unit} {n : Node}

theorem suffix?_ne_nil {k : Kind} {letters : String} (h : Code.suffix? k = some letters) :
    letters.text ≠ [] := by
  have hall : ∀ k ∈ Kind.all, ∀ letters ∈ Code.suffix? k, letters.text ≠ [] := by decide +kernel
  exact hall k (Kind.mem_all k) letters h

theorem ofNode_suffix {letters : String} (h : Code.suffix? n.kind = some letters) :
    ofNode cfg sub n = (do
      each sub n.children
      emit letters.text) := by
  unfold ofNode
  rw [h]

theorem ofNode_accessor {letters : Text} (h : Code.suffix? n.kind = none)
    (ha : Code.accessorSuffix? n.kind = some letters) :
    ofNode cfg sub n = accessor sub letters n := by
  unfold ofNode
  rw [h, ha]

end Writing

namespace Written

variable {strict : Prop} {cfg : Config} {pre : Text} {sub : Node → Writing Unit} {n : Node}

/-- A node is written if its children are, and if an operator makes it of them. -/
theorem of_suffix {letters : String} (h : Code.suffix? n.kind = some letters)
    (hsub : ∀ c ∈ n.children, Written strict cfg pre sub c)
    (hoperates : ∀ s, Operates cfg letters.text (Node.stackedOn s n.children) (n.stacked ++ s)) :
    Written strict cfg pre (Writing.ofNode cfg sub) n := by
  intro s
  rw [Writing.ofNode_suffix h]
  exact (Turns.each hsub).bind fun _ => .emit (hoperates s) (Writing.suffix?_ne_nil h)

end Written

end SwiftABI
