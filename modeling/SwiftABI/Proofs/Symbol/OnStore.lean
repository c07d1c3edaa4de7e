/-
  Steps on the stack and the table take no notice of the text.

  Most of what an operator does is to pop nodes, to build another node of them and to register it.
  Such steps are `OnStore`: the store alone decides how they end, and the text is left as it is.
  What is to be shown of how a symbol is read holds of them for that reason, and only the few steps
  that read characters are left.
-/
import SwiftABI.Proofs.Symbol.Reads

namespace SwiftABI

/-- The steps read nothing, and end alike in front of all texts. -/
def OnStore {α : Type} (x : Reading α) : Prop :=
  ∀ c : Store, (∃ a c', Reads x [] c a c') ∨
    ∃ k, ∀ offset t, x (c.machine offset t) = .error ⟨k, offset⟩

namespace OnStore

variable {α β : Type} {cfg : Config} {x : Reading α} {f : α → Reading β}

/-! ### Sequences of steps -/

theorem pure (a : α) : OnStore (Pure.pure a : Reading α) := fun c => .inl ⟨a, c, Reads.pure a c⟩

theorem fail (k : Complaint) :
    OnStore (Reading.fail k : Reading α) := fun _ => .inr ⟨k, fun _ _ => rfl⟩

theorem bind (hx : OnStore x) (hf : ∀ a, OnStore (f a)) : OnStore (x >>= f) := by
  intro c
  rcases hx c with ⟨a, c', hfirst⟩ | ⟨k, hfirst⟩
  · rcases hf a c' with ⟨b, c'', hrest⟩ | ⟨k, hrest⟩
    · exact .inl ⟨b, c'', hfirst.step hrest⟩
    · refine .inr ⟨k, fun offset t => ?_⟩
      have hok : x (c.machine offset t) = .ok (a, c'.machine offset t) := hfirst offset t
      show (x (c.machine offset t) >>= fun p => f p.1 p.2 : Except Malformed (β × Machine)) = _
      rw [hok]
      exact hrest offset t
  · refine .inr ⟨k, fun offset t => ?_⟩
    show (x (c.machine offset t) >>= fun p => f p.1 p.2 : Except Malformed (β × Machine)) = _
    rw [hfirst]
    rfl

theorem map (hx : OnStore x) (g : α → β) :
    OnStore (do return g (← x)) := hx.bind fun a => pure (g a)

theorem ite {p : Prop} [Decidable p] {y : Reading α} (hx : OnStore x) (hy : OnStore y) :
    OnStore (if p then x else y) := by
  split
  · exact hx
  · exact hy

theorem require (a? : Option α) (k : Complaint) : OnStore (Reading.require a? k) := by
  cases a? with
  | none => exact fail k
  | some a => exact pure a

theorem check (b : Bool) (k : Complaint) : OnStore (Reading.check b k) := ite (pure ()) (fail k)

/-- The steps may look at the machine, but not at the text. -/
theorem get {f : Machine → Reading β}
    (hlook : ∀ (c : Store) offset t, f (c.machine offset t) = f (c.machine 0 []))
    (hf : ∀ m, OnStore (f m)) :
    OnStore (MonadState.get >>= f) := by
  intro c
  have hget (offset : Nat) (t : Text) :
      (MonadState.get >>= f) (c.machine offset t) = f (c.machine 0 []) (c.machine offset t) := by
    rw [← hlook c offset t]
    rfl
  rcases hf (c.machine 0 []) c with ⟨b, c', h⟩ | ⟨k, h⟩
  · exact .inl ⟨b, c', fun offset t => (hget offset _).trans (h offset t)⟩
  · exact .inr ⟨k, fun offset t => (hget offset t).trans (h offset t)⟩

theorem modify {g : Machine → Machine}
    (h : ∀ c : Store, ∃ c' : Store, ∀ offset t, g (c.machine offset t) = c'.machine offset t) :
    OnStore (modify g : Reading Unit) := by
  intro c
  obtain ⟨c', hc⟩ := h c
  exact .inl ⟨(), c', fun offset t => congrArg (fun m => Except.ok ((), m)) (hc offset t)⟩

theorem mapM {γ : Type} {g : γ → Reading α} (h : ∀ c, OnStore (g c)) (l : List γ) :
    OnStore (l.mapM g) := by
  induction l with
  | nil => exact pure []
  | cons c l ih =>
    rw [List.mapM_cons]
    exact (h c).bind fun a => ih.bind fun as => pure (a :: as)

/-! ### Nodes, the stack and the table -/

theorem build (k : Kind) (p : Payload) (cs : List Node) : OnStore (Reading.build k p cs) := by
  unfold Reading.build
  rcases Node.make k p cs with e | n
  · exact fail _
  · exact pure n

theorem node (k : Kind) (cs : List Node) : OnStore (Reading.node k cs) := build k .none cs

theorem type (k : Kind) (cs : List Node) :
    OnStore (Reading.type k cs) := (node k cs).bind fun n => node .type [n]

theorem indexNode (k : Kind) (n : Nat) : OnStore (Reading.indexNode k n) := build k (.index n) []

theorem push (n : Node) : OnStore (Reading.push n) := fun c => .inl ⟨(), c.push n, Reads.push n c⟩

theorem pushCopies (count : Nat) (n : Node) : OnStore (Reading.pushCopies count n) :=
  modify fun c => ⟨{ c with stack := List.replicate count n ++ c.stack }, fun _ _ => rfl⟩

theorem popIf (b : Kind → Bool) : OnStore (Reading.popIf b) := by
  intro ⟨stack, table, words⟩
  rcases stack with _ | ⟨n, stack⟩
  · exact .inl ⟨none, _, Reads.popIf_none nofun⟩
  · rcases hn : b n.kind with _ | _
    · exact .inl ⟨none, _, Reads.popIf_none fun m hm => by cases hm; exact hn⟩
    · exact .inl ⟨some n, _, Reads.popIf hn⟩

theorem pop? (k : Kind) : OnStore (Reading.pop? k) := popIf _

theorem popped (k : Kind) : OnStore (Reading.popped k) := (pop? k).map _

theorem popType : OnStore Reading.popType := (pop? .type).bind fun _ => require _ _

theorem popTypeInside : OnStore Reading.popTypeInside := popType.map _

theorem popNominal : OnStore Reading.popNominal := popTypeInside.bind fun n =>
      (check _ _).bind fun _ => pure n

theorem popModule? : OnStore Reading.popModule? := by
  refine (pop? .identifier).bind fun name? => ?_
  cases name? with
  | none => exact pop? .moduleName
  | some name => exact (build _ _ _).map _

theorem popContext : OnStore Reading.popContext := by
  refine popModule?.bind fun m? => ?_
  cases m? with
  | some m => exact pure m
  | none =>
    refine (pop? .type).bind fun t? => ?_
    cases t? with
    | some t => exact (check _ _).bind fun _ => pure _
    | none => exact (popIf _).bind fun _ => require _ _

theorem popDeclName : OnStore Reading.popDeclName := (popIf _).bind fun _ => require _ _

theorem popEntity : OnStore Reading.popEntity := (popIf _).bind fun _ => require _ _

theorem popMarkedList {element : Reading Node} (h : OnStore element) (fuel : Nat) :
    OnStore (Reading.popMarkedList element fuel) := by
  induction fuel with
  | zero => exact fail _
  | succ fuel ih => exact (popped _).bind fun _ => h.bind fun n => ite (pure [n]) (ih.map _)

theorem popList {element : Reading Node} (h : OnStore element) :
    OnStore (Reading.popList element) :=
  (popped _).bind fun _ => ite (pure []) (get (fun _ _ _ => rfl) fun _ => popMarkedList h _)

theorem register (n : Node) : OnStore (Reading.register n) := by
  intro ⟨stack, table, words⟩
  rcases h : table.register n false with e | table'
  · refine .inr ⟨.malformedNode e, fun offset t => ?_⟩
    simp only [Reading.register, Store.machine, h]
    rfl
  · exact .inl ⟨(), _, Reads.register h⟩

theorem resolve (i : Int) : OnStore (Reading.resolve i) := by
  refine get (fun _ _ _ => rfl) fun m => ?_
  rcases m.table.node? i with u | n
  · exact fail _
  · exact pure n

/-! ### Names and references -/

theorem word (i : Nat) : OnStore (Reading.word cfg i) :=
  (check _ _).bind fun _ => get (fun _ _ _ => rfl) fun _ => require _ _

theorem operatorText (letters : Text) : OnStore (Reading.operatorText letters) := by
  induction letters with
  | nil => exact pure []
  | cons letter letters ih => exact (require _ _).bind fun _ => ih.map _

theorem repeated (count : Option Nat) (i : Nat) : OnStore (Reading.repeated cfg count i) :=
  (resolve _).bind fun n => (check _ _).bind fun _ => (pushCopies _ n).bind fun _ => pure n

/-- A type is registered, and is the result. -/
theorem registered {t : Reading Node} (ht : OnStore t) : OnStore (do
    let t ← t
    Reading.register t
    return t) := ht.bind fun t => (register t).bind fun _ => pure t

theorem optional : OnStore Reading.optional := popType.bind fun _ => (node _ _).bind fun _ =>
      (type _ _).registered

/-! ### Types -/

theorem popArguments : OnStore Reading.popArguments :=
  (popped _).bind fun _ =>
    ite ((type _ _).bind fun _ => build _ _ _) (popType.bind fun _ => build _ _ _)

theorem popResult : OnStore Reading.popResult :=
  (popped _).bind fun _ => ite ((type _ _).bind fun _ => node _ _) (popType.bind fun _ => node _ _)

theorem popFunctionType (k : Kind) : OnStore (Reading.popFunctionType k) :=
  (pop? _).bind fun _ => popArguments.bind fun _ => popResult.bind fun _ => type _ _

theorem popLabels (count : Nat) : OnStore (Reading.popLabels count) := by
  induction count with
  | zero => exact pure []
  | succ count ih =>
    exact (popIf _).bind fun _ => (require _ _).bind fun _ => (check _ _).bind fun _ => ih.map _

theorem popLabelList? (t : Node) : OnStore (Reading.popLabelList? t) := by
  refine (popped _).bind fun _ => ite ((node _ _).map _) (ite (pure none) ?_)
  split
  · refine ite (pure none) (ite ((node _ _).map _) ((popLabels _).bind fun labels => ?_))
    exact ite ((node _ _).map _) ((node _ _).map _)
  · exact fail _

theorem popTupleElement : OnStore Reading.popTupleElement := by
  refine (pop? _).bind fun variadic => (pop? _).bind fun label? => ?_
  cases label? with
  | some label =>
    exact (build _ _ _).bind fun _ => (pure _).bind fun _ => popType.bind fun _ => node _ _
  | none => exact (pure []).bind fun _ => popType.bind fun _ => node _ _

theorem popTuple : OnStore Reading.popTuple := (popList popTupleElement).bind fun _ => type _ _

theorem popProtocol : OnStore Reading.popProtocol := by
  refine (pop? _).bind fun t? => ?_
  cases t? with
  | some t => exact (check _ _).bind fun _ => pure t
  | none => exact popDeclName.bind fun _ => popContext.bind fun _ => type _ _

theorem popProtocolList : OnStore Reading.popProtocolList :=
  (popList popProtocol).bind fun _ => (node _ _).bind fun _ => node _ _

theorem nominalType (k : Kind) : OnStore (Reading.nominalType k) :=
  popDeclName.bind fun _ => popContext.bind fun _ => (type _ _).registered

theorem boundGenericType : OnStore Reading.boundGenericType := by
  refine get (fun _ _ _ => rfl) fun m => ?_
  rcases Reading.takeTypeLists m.stack [] with _ | ⟨lists, stack⟩
  · exact fail _
  · refine (modify fun c => ⟨{ c with stack }, fun _ _ => rfl⟩).bind fun _ =>
      (mapM (node _) lists).bind fun lists => ?_
    refine popNominal.bind fun nominal => ?_
    rcases Reading.applyArguments nominal lists with c | bound
    · exact fail c
    · exact (node _ _).registered

theorem genericParameter (depth i : Nat) : OnStore (Reading.genericParameter depth i) :=
  (indexNode _ _).bind fun _ => (indexNode _ _).bind fun _ => type _ _

/-! ### Entities -/

/-- A declaration with the parts that are popped for it. -/
private theorem declaration (k : Kind) (t : Node) : OnStore (do
    let labels ← Reading.popLabelList? t
    let name ← Reading.popDeclName
    let context ← Reading.popContext
    Reading.node k ([context, name] ++ labels.toList ++ [t])) :=
  (popLabelList? t).bind fun _ => popDeclName.bind fun _ => popContext.bind fun _ => node _ _

theorem entity (k : Kind) : OnStore (Reading.entity k) := popType.bind fun t => declaration k t

theorem function : OnStore Reading.function := (popFunctionType _).bind fun t => declaration _ t

theorem extension : OnStore Reading.extension :=
  popModule?.bind fun _ => (require _ _).bind fun _ => popNominal.bind fun _ => node _ _

theorem typeMangling : OnStore Reading.typeMangling :=
  popType.bind fun t => (popLabelList? t).bind fun _ => node _ _

end OnStore

end SwiftABI
