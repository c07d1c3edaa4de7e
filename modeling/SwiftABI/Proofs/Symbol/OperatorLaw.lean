/-
  What holds of every operator because it holds of the steps that it is made of.

  An `OperatorLaw` is a property that steps on the store have, and sequences of steps if the steps
  have it. How operators look at the text is up to the law, for which looking ahead may be a matter
  of its own: the law says why it holds where characters, indices, local names, generic parameters
  and references are read. Then it holds of all operators (`OperatorLaw.operator`). Only the suffix
  has to be looked at again, which reads whatever is left.
-/
import SwiftABI.Proofs.Symbol.OnStore

namespace SwiftABI

/-- A property of steps that operators are put together by. -/
structure OperatorLaw (cfg : Config) where
  Holds {α : Type} (x : Reading α) : Prop
  onStore {α : Type} {x : Reading α} (h : OnStore x) : Holds x
  bind {α β : Type} {x : Reading α} {f : α → Reading β} (h : Holds x) (hrest : ∀ a, Holds (f a)) :
    Holds (x >>= f)
  next : Holds Reading.next
  index : Holds Reading.index
  localName : Holds Reading.localName
  numberedParameter : Holds Reading.numberedParameter
  tableReference : Holds (Reading.tableReference cfg)
  standardReference : Holds (Reading.standardReference cfg)

namespace OperatorLaw

variable {α β : Type} {cfg : Config} (L : OperatorLaw cfg) {x y : Reading α}

theorem fail (k : Complaint) : L.Holds (Reading.fail k : Reading α) := L.onStore (.fail k)

theorem ite {p : Prop} [Decidable p] (hx : L.Holds x) (hy : L.Holds y) :
    L.Holds (if p then x else y) := by
  split
  · exact hx
  · exact hy

/-- Steps on the store come first. -/
theorem after {f : α → Reading β} (hx : OnStore x) (hf : ∀ a, L.Holds (f a)) : L.Holds (x >>= f) :=
  L.bind (L.onStore hx) hf

/-- Steps on the store follow. -/
theorem before {f : α → Reading β} (hx : L.Holds x) (hf : ∀ a, OnStore (f a)) : L.Holds (x >>= f) :=
  L.bind hx fun a => L.onStore (hf a)

/-! ### Names and types -/

theorem operatorName : L.Holds Reading.operatorName :=
  L.after (.pop? _) fun _ => L.after (.require _ _) fun _ => L.after (.operatorText _) fun _ =>
    L.before L.next fun _ => .bind (.require _ _) fun _ => .build _ _ _

theorem builtinSize : L.Holds (Reading.builtinSize cfg) :=
  L.before L.index fun _ => .bind (.check _ _) fun _ => .pure _

theorem builtinName : L.Holds (Reading.builtinName cfg) := by
  refine L.bind L.next fun c => ?_
  split
  · exact L.onStore (.pure _)
  · refine L.ite ?_ (L.ite ?_ (L.ite ?_ (L.fail _)))
    · exact L.before L.builtinSize fun _ => .pure _
    · exact L.before L.builtinSize fun _ => .pure _
    · exact L.before L.builtinSize fun _ => .bind .popTypeInside fun _ => .map (.require _ _) _

theorem builtinType : L.Holds (Reading.builtinType cfg) :=
  L.before L.builtinName fun _ => .bind (.build _ _ _) fun _ => .node _ _

theorem metatypeRepresentation : L.Holds Reading.metatypeRepresentation :=
  L.before L.next fun _ => .bind (.require _ _) fun _ => .build _ _ _

theorem sugaredType : L.Holds Reading.sugaredType := by
  refine L.before L.next fun c => ?_
  split
  · exact .bind .popType fun _ => .type _ _
  · exact .ite (.bind .popType fun _ => .bind .popType fun _ => .type _ _) (.fail _)

theorem specialType : L.Holds Reading.specialType := by
  have hrepresented (k : Kind) : L.Holds (do
      let representation ← Reading.metatypeRepresentation
      Reading.type k [representation, ← Reading.popType]) :=
    L.before L.metatypeRepresentation fun _ => .bind .popType fun _ => .type _ _
  refine L.bind L.next fun c => ?_
  split
  · exact L.onStore (.popFunctionType _)
  · exact L.onStore (.bind .popType fun _ => .type _ _)
  · split
    · exact hrepresented _
    · exact hrepresented _
    · exact L.onStore (.bind .popType fun _ => .type _ _)
    · exact L.onStore (.bind .popProtocolList fun _ => .type _ _)
    · exact L.onStore (.nominalType _)
    · exact L.onStore (.type _ _)
    · exact L.sugaredType
    · exact L.fail _

/-! ### Entities and global symbols -/

theorem unnamedChildren (k : Kind) : L.Holds (Reading.unnamedChildren k) := by
  have hinit : OnStore (do
      let privateName := (← Reading.pop? .privateDeclName).toList
      let t ← Reading.popType
      let labels ← Reading.popLabelList? t
      return labels.toList ++ [t] ++ privateName) :=
    .bind (.pop? _) fun _ => .bind .popType fun t => .map (.popLabelList? t) _
  have hclosure : L.Holds (do
      let number ← Reading.indexNode .number (← Reading.index)
      return [number, ← Reading.popType]) :=
    L.before L.index fun _ => .bind (.indexNode _ _) fun _ => .map .popType _
  unfold Reading.unnamedChildren
  split
  · exact L.onStore hinit
  · exact L.onStore hinit
  · exact hclosure
  · exact hclosure
  · exact L.before L.index fun _ => .map (.indexNode _ _) _
  · exact L.onStore (.pure [])

theorem functionEntity : L.Holds Reading.functionEntity := by
  refine L.bind L.next fun c => L.ite (L.onStore (.entity _)) (L.after (.require _ _) fun k => ?_)
  exact L.before (L.unnamedChildren k) fun _ => .bind .popContext fun _ => .node _ _

theorem accessor (storage : Node) : L.Holds (Reading.accessor storage) := by
  refine L.bind L.next fun c => L.ite (L.onStore (.pure storage)) ?_
  split
  · exact L.onStore (.node _ _)
  · refine L.ite ?_ (L.ite ?_ (L.fail _))
    · exact L.before L.next fun _ => .bind (.require _ _) fun _ => .node _ _
    · exact L.before L.next fun _ => .bind (.require _ _) fun _ => .node _ _

theorem variableEntity : L.Holds Reading.variableEntity := L.after (.entity _) fun n => L.accessor n

theorem subscriptEntity : L.Holds Reading.subscriptEntity :=
  L.after (.pop? _) fun _ => L.after .popType fun t => L.after (.popLabelList? t) fun _ =>
    L.after (.require _ _) fun _ => L.after .popContext fun _ => L.after (.node _ _) fun n =>
      L.accessor n

theorem metadata : L.Holds Reading.metadata := by
  refine L.before L.next fun c => ?_
  split
  · exact .bind .popType fun _ => .node _ _
  · exact .ite (.bind .popProtocol fun _ => .node _ _) (.fail _)

theorem witness : L.Holds Reading.witness := by
  refine L.bind L.next fun c => ?_
  split
  · exact L.onStore (.bind .popEntity fun _ => .node _ _)
  · exact L.onStore (.bind .popType fun _ => .node _ _)
  · exact L.before L.next fun _ => .bind (.check _ _) fun _ => .bind (.indexNode _ _) fun _ =>
      .bind .popEntity fun _ => .node _ _
  · exact L.fail _

theorem valueWitness : L.Holds Reading.valueWitness :=
  L.bind L.next fun _ => L.before L.next fun _ => .bind (.require _ _) fun _ =>
    .bind .popType fun _ => .build _ _ _

/-! ### Operators -/

theorem operator (c : CodePoint) (hsuffix : c = '.' → L.Holds Reading.suffix) :
    L.Holds (Reading.operator cfg c) := by
  have haround (k : Kind) : L.Holds (do Reading.node k [← Reading.popType]) :=
    L.onStore (.bind .popType fun _ => .node _ _)
  have hpassing (k : Kind) : L.Holds (do Reading.type k [← Reading.popTypeInside]) :=
    L.onStore (.bind .popTypeInside fun _ => .type _ _)
  unfold Reading.operator
  -- One case for each letter, in the order of the definition.
  split
  · exact L.tableReference
  · exact L.builtinType
  · exact L.onStore (.nominalType _)
  · exact L.onStore .typeMangling
  · exact L.onStore .extension
  · exact L.onStore .function
  · exact L.onStore .boundGenericType
  · exact L.onStore (.node _ _)
  · exact L.localName
  · exact L.metadata
  · exact haround _
  · exact L.onStore (.nominalType _)
  · exact L.onStore (.nominalType _)
  · exact L.standardReference
  · exact L.onStore (.nominalType _)
  · exact L.witness
  · exact L.specialType
  · exact L.onStore (.bind .popEntity fun _ => .node _ _)
  · exact L.onStore (.nominalType _)
  · exact L.onStore (.popFunctionType _)
  · exact L.onStore (.node _ _)
  · exact L.functionEntity
  · exact hpassing _
  · exact L.subscriptEntity
  · exact L.onStore (.bind .popType fun _ => .type _ _)
  · exact hpassing _
  · exact L.operatorName
  · exact L.onStore (.bind .popProtocolList fun _ => .node _ _)
  · exact L.numberedParameter
  · exact L.onStore (.build _ _ _)
  · exact L.onStore .popTuple
  · exact L.variableEntity
  · exact L.valueWitness
  · exact L.onStore (.genericParameter _ _)
  · exact L.onStore (.node _ _)
  · exact hpassing _
  · exact L.onStore (.node _ _)
  · exact hsuffix rfl
  · exact L.fail _

end OperatorLaw

end SwiftABI
