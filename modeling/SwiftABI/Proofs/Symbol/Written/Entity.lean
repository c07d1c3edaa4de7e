/-
  Writing entities and the global symbols about them.

  An entity is written as its context, its name, its labels and its type, as far as it has them. A
  function has the parts of its type in the place of the type, and an accessor those of what it
  gives access to.
-/
import SwiftABI.Proofs.Symbol.Operators.Entity
import SwiftABI.Proofs.Symbol.Written.Type

namespace SwiftABI

namespace Node

variable {cfg : Config} {context name t : Node} {labels privateName : Option Node}

/-- What labels leave on a stack. -/
theorem stackedOn_labels (labels : Option Node) (s : List Node) :
    stackedOn s labels.toList = Reads.labelsStacked labels ++ s := by
  cases labels <;> rfl

theorem stackedOn_append (s ns ms : List Node) :
    stackedOn s (ns ++ ms) = stackedOn (stackedOn s ns) ms :=
  List.foldl_append

/-- The parts of an entity with a name, on the stack. -/
theorem stackedOn_declaration (hname : name.kind.isDeclName = true) (ht : t.kind = .type)
    (s : List Node) :
    stackedOn s ([context, name] ++ labels.toList ++ [t])
      = t :: (Reads.labelsStacked labels ++ (name :: (context.stacked ++ s))) := by
  rw [stackedOn_append, stackedOn_append, stackedOn_labels, stackedOn_cons, stackedOn_cons,
    stackedOn_cons, stacked_of_plain (Kind.plain_of_isDeclName hname),
    stacked_of_plain (n := t) (by rw [ht]; decide)]
  rfl

/-- The parts of an entity without a name of its own, on the stack. -/
theorem stackedOn_unnamed (context : Node) (labels : Option Node) (ht : t.kind = .type)
    (hprivate : ∀ n ∈ privateName, n.kind = .privateDeclName) (s : List Node) :
    stackedOn s (context :: (labels.toList ++ [t] ++ privateName.toList))
      = privateName.toList ++ (t :: (Reads.labelsStacked labels ++ (context.stacked ++ s))) := by
  have hp : ∀ s, stackedOn s privateName.toList = privateName.toList ++ s := by
    intro s
    rcases privateName with _ | n
    · rfl
    · have hn : n.stacked = [n] := stacked_of_plain (by rw [hprivate n rfl]; decide)
      show n.stacked ++ s = _
      rw [hn]
      rfl
  rw [stackedOn_cons, stackedOn_append, stackedOn_append, hp, stackedOn_labels, stackedOn_cons,
    stacked_of_plain (n := t) (by rw [ht]; decide)]
  rfl

end Node

namespace Written

variable {strict : Prop} {cfg : Config} {pre : Text} {sub : Node → Writing Unit} {k : Kind}
  {n t context name : Node} {labels privateName : Option Node}

/-! ### Declarations -/

/-- The type that is extended is written before the module. -/
theorem extension {m : Text} (hn : n.kind ∈ Kind.nominals)
    (hsub : ∀ c ∈ [.moduleName m, n], Written strict cfg pre sub c) :
    Written strict cfg pre (Writing.ofNode cfg sub)
      (.mk .extensionDecl .none [.moduleName m, n]) := by
  intro s
  have hextended := hsub n (by simp) s
  rw [Node.stacked_of_types (Kind.nominals_subset_types _ hn)] at hextended
  show Turns strict cfg pre (do
    sub n
    sub (.moduleName m)
    Writing.emit ['E']) _ _
  exact hextended.bind fun _ => (hsub (.moduleName m) List.mem_cons_self _).bind fun _ =>
    .emit (.extension hn) (List.cons_ne_nil _ _)

/-- A property and a generic parameter are written part by part. -/
theorem declaration (hk : k = .variableDecl ∨ k = .genericTypeParamDecl)
    (hcontext : context.Rule cfg) (hc : context.kind.isContext = true)
    (hname : name.kind.isDeclName = true) (ht : t.kind = .type) (hlabels : LabelsFit labels t)
    (hparam : k = .genericTypeParamDecl → context.PlainContext)
    (hsub : ∀ c ∈ [context, name] ++ labels.toList ++ [t], Written strict cfg pre sub c) :
    Written strict cfg pre (Writing.ofNode cfg sub)
      (.mk k .none ([context, name] ++ labels.toList ++ [t])) := by
  rcases hk with rfl | rfl
  · refine of_suffix (n := .mk .variableDecl .none _) rfl hsub fun s => ?_
    show Operates cfg _ (Node.stackedOn s ([context, name] ++ labels.toList ++ [t])) _
    rw [Node.stackedOn_declaration hname ht]
    exact .property hcontext hc hname ht hlabels
  · refine of_suffix (n := .mk .genericTypeParamDecl .none _) rfl hsub fun s => ?_
    show Operates cfg _ (Node.stackedOn s ([context, name] ++ labels.toList ++ [t])) _
    rw [Node.stackedOn_declaration hname ht]
    exact .genericTypeParamDecl hcontext (hparam rfl) hname ht hlabels

/-- A function is written with the parts of its type. -/
theorem function {throws : Option Node} {p r : Node} (hcontext : context.Rule cfg)
    (hc : context.kind.isContext = true) (hname : name.kind.isDeclName = true)
    (hparts : FunctionParts cfg throws p r)
    (hlabels : LabelsFit labels (.typeOf (.mk .functionType .none (functionChildren throws p r))))
    (hsub : ∀ c ∈ [context, name] ++ labels.toList, Written strict cfg pre sub c)
    (hsub' : ∀ c ∈ functionChildren throws p r, Written strict cfg pre sub c) :
    Written strict cfg pre (Writing.ofNode cfg sub)
      (.mk .functionDecl .none ([context, name] ++ labels.toList
      ++ [.typeOf (.mk .functionType .none (functionChildren throws p r))])) := by
  intro s
  have hparts' : ∀ s', Turns strict cfg pre (Writing.each sub (functionChildren throws p r).reverse)
    ⟨s', []⟩ fun _ => ⟨throws.toList ++ (p.asParameters ++ (r.asParameters ++ s')), []⟩ := by
    intro s'
    have hreversed : ∀ c ∈ (functionChildren throws p r).reverse, Written strict cfg pre sub c :=
      fun c hc => hsub' c (List.mem_reverse.mp hc)
    have hwritten := Turns.each (s := s') hreversed
    rwa [hparts.stackedOn] at hwritten
  have hemit : Turns strict cfg pre (Writing.emit ['F'])
    ⟨throws.toList ++ (p.asParameters ++ (r.asParameters
      ++ (Reads.labelsStacked labels ++ (name :: (context.stacked ++ s))))), []⟩ fun _ =>
      ⟨.mk .functionDecl .none ([context, name] ++ labels.toList
        ++ [.typeOf (.mk .functionType .none (functionChildren throws p r))]) :: s, []⟩ :=
    .emit (.function hcontext hc hname hparts.throws_kind hparts.arguments hparts.arguments_kind
      hparts.result hparts.result_kind hlabels) (List.cons_ne_nil _ _)
  have hn : name.stacked = [name] := Node.stacked_of_plain (Kind.plain_of_isDeclName hname)
  refine (hsub context (by simp) s).bind fun _ => ((hsub name (by simp) _).bind fun _ => ?_)
  rw [hn]
  -- Labels come behind the name, if there are any, and the parts of the type last.
  rcases labels with _ | ls
  · exact (hparts' _).bind fun _ => hemit
  · have hls : ls.kind = .labelList := Node.Rule.kind_of_labelsFit hlabels ls rfl
    rcases ls with ⟨k, q, ls⟩
    change k = .labelList at hls
    subst hls
    have hwritten := hsub (.mk .labelList q ls) (by simp) (name :: (context.stacked ++ s))
    show Turns strict cfg pre (do
      sub (.mk .labelList q ls)
      Writing.each sub (functionChildren throws p r).reverse
      Writing.emit ['F']) _ _
    exact hwritten.bind fun _ => (hparts' _).bind fun _ => hemit

/-! ### Declarations without a name of their own -/

theorem initializer {letters : String} (hk : k = .allocator ∨ k = .constructorDecl)
    (h : Code.suffix? k = some letters) (hcontext : context.Rule cfg)
    (hc : context.kind.isContext = true) (ht : t.kind = .type) (hlabels : LabelsFit labels t)
    (hprivate : ∀ n ∈ privateName, n.kind = .privateDeclName)
    (hsub : ∀ c ∈ context :: (labels.toList ++ [t] ++ privateName.toList),
      Written strict cfg pre sub c) :
    Written strict cfg pre (Writing.ofNode cfg sub)
      (.mk k .none (context :: (labels.toList ++ [t] ++ privateName.toList))) := by
  have hplain : k ∈ Kind.plain := by rcases hk with rfl | rfl <;> decide
  refine of_suffix (n := .mk k .none _) h hsub fun s => ?_
  rw [Node.stacked_of_plain (n := .mk k .none _) hplain]
  show Operates cfg _ (Node.stackedOn s (context :: (labels.toList ++ [t] ++ privateName.toList))) _
  rw [Node.stackedOn_unnamed _ _ ht hprivate]
  exact .initializer hk h hprivate hcontext hc ht hlabels

/-- A subscript always has labels. -/
theorem subscript {ls : Node} (hcontext : context.Rule cfg) (hc : context.kind.isContext = true)
    (ht : t.kind = .type) (hlabels : LabelsFit (some ls) t)
    (hprivate : ∀ n ∈ privateName, n.kind = .privateDeclName)
    (hsub : ∀ c ∈ context :: ([ls] ++ [t] ++ privateName.toList), Written strict cfg pre sub c) :
    Written strict cfg pre (Writing.ofNode cfg sub)
      (.mk .subscriptDecl .none (context :: ([ls] ++ [t] ++ privateName.toList))) := by
  refine of_suffix (n := .mk .subscriptDecl .none _) rfl hsub fun s => ?_
  have hstacked := Node.stackedOn_unnamed context (some ls) ht hprivate s
  show Operates cfg _
    (Node.stackedOn s (context :: ((some ls).toList ++ [t] ++ privateName.toList))) _
  rw [hstacked]
  exact .subscript hprivate hcontext hc ht hlabels

theorem bareScope {letters : String} (hk : k ∈ Kind.bareScopes) (h : Code.suffix? k = some letters)
    (hcontext : context.Rule cfg) (hc : context.kind.isContext = true)
    (hsub : Written strict cfg pre sub context) :
    Written strict cfg pre (Writing.ofNode cfg sub) (.mk k .none [context]) := by
  have hplain : ∀ k ∈ Kind.bareScopes, k ∈ Kind.plain := by decide
  refine of_suffix (n := .mk k .none [context]) h (fun c hc => ?_) fun s => ?_
  · rwa [List.mem_singleton.mp hc]
  · rw [Node.stacked_of_plain (n := .mk k .none [context]) (hplain k hk)]
    exact .bareScope hk h hcontext hc

/-- A closure ends with its number. -/
theorem closure {i : Nat} (hk : k ∈ [Kind.explicitClosure, .implicitClosure])
    (hcontext : context.Rule cfg) (hc : context.kind.isContext = true) (ht : t.kind = .type)
    (hnumber : sub (.mk .number (.index i) []) = Writing.emit (Code.index i))
    (hsub : ∀ c ∈ [context, t], Written strict cfg pre sub c) :
    Written strict cfg pre (Writing.ofNode cfg sub)
      (.mk k .none [context, .mk .number (.index i) [], t]) := by
  intro s
  have htype := hsub t (by simp) (context.stacked ++ s)
  rw [Node.stacked_of_plain (n := t) (by rw [ht]; decide)] at htype
  have hwritten {letter : CodePoint}
      (hletter :
        (k, letter) ∈ [(Kind.explicitClosure, CodePoint.char 'U'), (.implicitClosure, .char 'u')]) :
      Turns strict cfg pre (do
        sub context
        sub t
        Writing.emit ['f', letter]
        sub (.mk .number (.index i) [])) ⟨s, []⟩
        fun _ => ⟨.mk k .none [context, .mk .number (.index i) [], t] :: s, []⟩ := by
    rw [hnumber]
    exact (hsub context List.mem_cons_self s).bind fun _ => htype.bind fun _ =>
      .emit_emit (.closure hletter i hcontext hc ht) (List.cons_ne_nil _ _)
  simp only [List.mem_cons, List.not_mem_nil, or_false] at hk
  rcases hk with rfl | rfl
  · exact hwritten (by decide)
  · exact hwritten (by decide)

theorem defaultArgument {i : Nat} (hcontext : context.Rule cfg) (hc : context.kind.isContext = true)
    (hnumber : sub (.mk .number (.index i) []) = Writing.emit (Code.index i))
    (hsub : Written strict cfg pre sub context) :
    Written strict cfg pre (Writing.ofNode cfg sub)
      (.mk .defaultArgumentInitializer .none [context, .mk .number (.index i) []]) := by
  intro s
  show Turns strict cfg pre (do
    sub context
    Writing.emit ['f', 'A']
    sub (.mk .number (.index i) [])) _ _
  rw [hnumber]
  exact (hsub s).bind fun _ => .emit_emit (.defaultArgument i hcontext hc) (List.cons_ne_nil _ _)

/-! ### Accessors -/

private theorem ofNode_accessor (cfg : Config) (sub : Node → Writing Unit)
    (hk : k ∈ Kind.accessors) :
    ∃ suffix, Code.accessorSuffix? k = some suffix ∧
      ∀ n : Node, n.kind = k → Writing.ofNode cfg sub n = Writing.accessor sub suffix n := by
  have hall : ∀ k ∈ Kind.accessors, Code.suffix? k = none ∧
      (Code.accessorSuffix? k).isSome = true := by
    decide
  obtain ⟨hsuffix, haccessor⟩ := hall k hk
  obtain ⟨suffix, hs⟩ := Option.isSome_iff_exists.mp haccessor
  refine ⟨suffix, hs, fun n hn => ?_⟩
  subst hn
  exact Writing.ofNode_accessor hsuffix hs

/-- An accessor of a property is written with the parts of the property. -/
theorem propertyAccessor (hk : k ∈ Kind.accessors) (hcontext : context.Rule cfg)
    (hc : context.kind.isContext = true) (hname : name.kind.isDeclName = true) (ht : t.kind = .type)
    (hlabels : LabelsFit labels t)
    (hsub : ∀ c ∈ [context, name] ++ labels.toList ++ [t], Written strict cfg pre sub c) :
    Written strict cfg pre (Writing.ofNode cfg sub)
      (.mk k .none [.mk .variableDecl .none ([context, name] ++ labels.toList ++ [t])]) := by
  have hplain : ∀ k ∈ Kind.accessors, k ∈ Kind.plain := by decide
  obtain ⟨suffix, hsuffix, hofNode⟩ := ofNode_accessor cfg sub hk
  intro s
  rw [hofNode (.mk k .none _) rfl, Node.stacked_of_plain (n := .mk k .none _) (hplain k hk)]
  have hwritten := Turns.each (s := s) hsub
  rw [Node.stackedOn_declaration hname ht] at hwritten
  exact hwritten.bind fun _ =>
    .emit (.propertyAccessor hk hsuffix hcontext hc hname ht hlabels) (List.cons_ne_nil _ _)

theorem subscriptAccessor {ls : Node} (hk : k ∈ Kind.accessors) (hcontext : context.Rule cfg)
    (hc : context.kind.isContext = true) (ht : t.kind = .type) (hlabels : LabelsFit (some ls) t)
    (hprivate : ∀ n ∈ privateName, n.kind = .privateDeclName)
    (hsub : ∀ c ∈ context :: ([ls] ++ [t] ++ privateName.toList), Written strict cfg pre sub c) :
    Written strict cfg pre (Writing.ofNode cfg sub)
      (.mk k .none
        [.mk .subscriptDecl .none (context :: ([ls] ++ [t] ++ privateName.toList))]) := by
  have hplain : ∀ k ∈ Kind.accessors, k ∈ Kind.plain := by decide
  obtain ⟨suffix, hsuffix, hofNode⟩ := ofNode_accessor cfg sub hk
  intro s
  rw [hofNode (.mk k .none _) rfl, Node.stacked_of_plain (n := .mk k .none _) (hplain k hk)]
  have hstacked := Node.stackedOn_unnamed context (some ls) ht hprivate s
  have hwritten := Turns.each (s := s) hsub
  have hwritten : Turns strict cfg pre (Writing.each sub (context :: ((some ls).toList ++ [t]
      ++ privateName.toList))) ⟨s, []⟩ fun _ =>
      ⟨Node.stackedOn s (context :: ((some ls).toList ++ [t]
        ++ privateName.toList)), []⟩ := hwritten
  rw [hstacked] at hwritten
  exact hwritten.bind fun _ =>
    .emit (.subscriptAccessor hk hsuffix hprivate hcontext hc ht hlabels) (List.cons_ne_nil _ _)

/-! ### Around entities -/

/-- What is written behind an entity that lies on the stack as it is. -/
theorem aroundEntity (hk : k = .staticDecl ∨ k = .enumCase)
    (hentity : n.kind.isEntity = true) (hstacked : n.stacked = [n])
    (hsub : Written strict cfg pre sub n) :
    Written strict cfg pre (Writing.ofNode cfg sub) (.mk k .none [n]) := by
  rcases hk with rfl | rfl
  · refine of_suffix (n := .mk .staticDecl .none [n]) rfl (fun c hc => ?_) fun s => ?_
    · rwa [List.mem_singleton.mp hc]
    · show Operates cfg _ (n.stacked ++ s) _
      rw [hstacked]
      exact .staticDecl hentity
  · refine of_suffix (n := .mk .enumCase .none [n]) rfl (fun c hc => ?_) fun s => ?_
    · rwa [List.mem_singleton.mp hc]
    · show Operates cfg _ (n.stacked ++ s) _
      rw [hstacked]
      exact .enumCase hentity

/-- Whether an offset is direct is written behind the field. -/
theorem fieldOffset {i : Int} (hi : i = 0 ∨ i = 1) (hentity : n.kind.isEntity = true)
    (hstacked : n.stacked = [n]) (hsub : Written strict cfg pre sub n) :
    Written strict cfg pre (Writing.ofNode cfg sub)
      (.mk .fieldOffset .none [.mk .directness (.index i) [], n]) := by
  intro s
  have hwritten := hsub s
  rw [hstacked] at hwritten
  have hletters : ((if i = 0 then "Wvd" else "Wvi" : Text)) ≠ [] := by split <;> decide
  exact hwritten.bind fun _ => .emit (.fieldOffset hi hentity) hletters

private theorem ofNode_valueWitness {i : Nat} :
    Writing.ofNode cfg sub (.mk .valueWitness (.index i) [t]) = (do
    sub t
    match Code.valueWitness? i with
    | some (code, _) => Writing.emit ('w' :: code)
    | none => throw (.tree .unknownWitness)) := rfl

/-- The code of a value witness is written behind its type. -/
theorem valueWitness {i : Nat} (hi : i < Code.valueWitnesses.length) (ht : t.kind = .type)
    (hsub : Written strict cfg pre sub t) :
    Written strict cfg pre (Writing.ofNode cfg sub) (.mk .valueWitness (.index i) [t]) := by
  intro s
  have hwritten := hsub s
  rw [Node.stacked_of_plain (by rw [ht]; decide)] at hwritten
  rw [ofNode_valueWitness]
  refine hwritten.bind fun _ => ?_
  have hcode : Code.valueWitness? i =
      some (Code.valueWitnesses[i].1, Code.valueWitnesses[i].2) := by
    unfold Code.valueWitness? Position.pick
    rw [if_pos (by omega), Int.toNat_natCast]
    exact List.getElem?_eq_getElem hi
  rw [hcode]
  exact .emit (.valueWitness hcode ht) (List.cons_ne_nil _ _)

end Written

/-- A type with its labels, which must not lie above an empty list if it has none. -/
theorem Turns.typeMangling {strict : Prop} {cfg : Config} {pre : Text} {sub : Node → Writing Unit}
    {t : Node}
    {labels : Option Node} {s : List Node} (ht : t.kind = .type) (hlabels : LabelsFit labels t)
    (hs : labels = none → ∀ n, s.head? = some n → n.kind ≠ .emptyList)
    (hsub : ∀ c ∈ labels.toList ++ [t], Written strict cfg pre sub c) :
    Turns strict cfg pre
      (Writing.ofNode cfg sub (.mk .typeMangling .none (labels.toList ++ [t]))) ⟨s, []⟩
      fun _ => ⟨.mk .typeMangling .none (labels.toList ++ [t]) :: s, []⟩ := by
  have hstacked : Node.stackedOn s (labels.toList ++ [t]) =
      t :: (Reads.labelsStacked labels ++ s) := by
    rw [Node.stackedOn_append, Node.stackedOn_labels, Node.stackedOn_cons,
      Node.stacked_of_plain (n := t) (by rw [ht]; decide)]
    rfl
  have hwritten := Turns.each (s := s) hsub
  rw [hstacked] at hwritten
  exact hwritten.bind fun _ => .emit (.typeMangling ht hlabels hs) (List.cons_ne_nil _ _)

end SwiftABI
