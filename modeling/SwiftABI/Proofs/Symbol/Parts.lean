/-
  What the nodes of a tree have below them.

  The grammar says of each kind which children it has. Here it is asked for one of them: the type of
  a declaration, the parameters of a function type, the number of a closure, the storage of an
  accessor.
-/
import SwiftABI.Proofs.Symbol.Specialized

namespace SwiftABI

/-! ### Groups of kinds -/

namespace Kind

/-- The kinds of declarations, whose first child is the context that they are declared in. -/
def declared : List Kind :=
  nominals ++ [.functionDecl, .variableDecl, .genericTypeParamDecl, .allocator, .constructorDecl,
    .subscriptDecl, .explicitClosure, .implicitClosure, .defaultArgumentInitializer] ++ bareScopes

/-- The declarations and parts that have a type. -/
def typed : List Kind :=
  [.functionDecl, .variableDecl, .genericTypeParamDecl, .allocator, .constructorDecl,
    .subscriptDecl, .explicitClosure, .implicitClosure, .tupleElement]

/-- The declarations that are told apart by a number. -/
def numbered : List Kind := [.explicitClosure, .implicitClosure, .defaultArgumentInitializer]

end Kind

namespace Node.Rule

variable {cfg : Config} {n : Node}

/-- A node has as many children as its kind asks for. -/
theorem minChildren_le (h : n.Rule cfg) : n.kind.minChildren ≤ n.children.length := by
  have hcount := h.fits
  rcases n with ⟨k, p, cs⟩
  have hallowed := hcount.2.1
  unfold Kind.allowsCount at hallowed
  rw [Bool.and_eq_true, decide_eq_true_eq] at hallowed
  exact hallowed.1

/-! ### Declarations -/

/-- A declaration begins with its context, and nothing behind that could be one. -/
theorem eq_cons_context (h : n.Rule cfg) (hk : n.kind ∈ Kind.declared) :
    ∃ context rest, n = .mk n.kind n.payload (context :: rest) ∧
      (∀ d ∈ rest, d.kind ∉ Kind.contextChildren) ∧
      (n.kind = .genericTypeParamDecl → context.PlainContext) := by
  have hnames : ∀ k ∈ Kind.all.filter Kind.isDeclName, k ∉ Kind.contextChildren := by decide +kernel
  have hname {n : Node} (hn : n.kind.isDeclName = true) : n.kind ∉ Kind.contextChildren :=
    hnames _ (List.mem_filter.mpr ⟨Kind.mem_all _, hn⟩)
  have htype {t : Node} (ht : t.kind = .type) : t.kind ∉ Kind.contextChildren := by
    rw [ht]
    decide
  have hnumber (i : Nat) : (Node.mk .number (.index i) []).kind ∉ Kind.contextChildren := by
    show Kind.number ∉ _
    decide
  have hlabels {labels : Option Node} {t : Node} (h : LabelsFit labels t) :
      ∀ l ∈ labels.toList, l.kind ∉ Kind.contextChildren := by
    intro l hl
    rw [kind_of_labelsFit h l (Option.mem_toList.mp hl)]
    decide
  -- Kinds that are given by a list they are in.
  have hother {ks : List Kind} (hks : ∀ k ∈ ks, k ∉ Kind.declared) {k : Kind} (hk' : k ∈ ks) :
      k ∉ Kind.declared := hks k hk'
  have hparam {ks : List Kind} (hks : ∀ k ∈ ks, k ≠ .genericTypeParamDecl) {k : Kind} (hk' : k ∈ ks)
      {c : Node} (h : k = .genericTypeParamDecl) : c.PlainContext := absurd h (hks k hk')
  cases h with
  | @nominal k context name hk' hcontext hn =>
    exact ⟨context, [name], rfl, List.forall_mem_singleton.mpr (hname hn), hparam (by decide) hk'⟩
  | @declaration k context name t labels hk' hcontext hn ht hl hfunction hplain =>
    refine ⟨context, name :: (labels.toList ++ [t]), by simp [kind, payload], ?_, hplain⟩
    exact List.forall_mem_cons.mpr ⟨hname hn, List.forall_mem_append.mpr
      ⟨hlabels hl, List.forall_mem_singleton.mpr (htype ht)⟩⟩
  | @unnamed k context t labels privateName hk' hcontext ht hl hprivate hsubscript =>
    refine ⟨context, labels.toList ++ [t] ++ privateName.toList, rfl, ?_, hparam (by decide) hk'⟩
    refine List.forall_mem_append.mpr ⟨List.forall_mem_append.mpr
      ⟨hlabels hl, List.forall_mem_singleton.mpr (htype ht)⟩, fun d hd => ?_⟩
    rw [hprivate d (Option.mem_toList.mp hd)]
    decide
  | @bareScope k context hk' hcontext =>
    exact ⟨context, [], rfl, List.forall_mem_nil _, hparam (by decide) hk'⟩
  | @closure k context t hk' hcontext i ht =>
    refine ⟨context, _, rfl, ?_, hparam (by decide) hk'⟩
    exact List.forall_mem_cons.mpr ⟨hnumber i, List.forall_mem_singleton.mpr (htype ht)⟩
  | @defaultArgument context hcontext i =>
    refine ⟨context, _, rfl, List.forall_mem_singleton.mpr (hnumber i), fun h => ?_⟩
    cases h
  | name hk' | operatorName hk' | number hk' | boundNominal hk' | accessor hk' | functionType hk'
    | aroundType hk' | passing hk' | metatype hk' | marker hk' =>
      exact absurd hk (hother (by decide) hk')
  | _ => exact absurd hk (of_decide_eq_false rfl)

theorem exists_type (h : n.Rule cfg) (hk : n.kind ∈ Kind.typed) :
    ∃ t, n.childOfKind .type = some t := by
  have hmem : ∃ t ∈ n.children, t.kind = .type := by
    cases h with
    | declaration hk' hcontext hname ht =>
      exact ⟨_, List.mem_append_right _ (List.mem_singleton_self _), ht⟩
    | unnamed hk' hcontext ht => exact ⟨_, List.mem_cons_of_mem _ (by simp), ht⟩
    | closure hk' hcontext i ht =>
      exact ⟨_, List.mem_cons_of_mem _ (List.mem_cons_of_mem _ List.mem_cons_self), ht⟩
    | tupleElement hvariadic hname ht =>
      exact ⟨_, List.mem_append_right _ (List.mem_singleton_self _), ht⟩
    | _ =>
      simp only [kind, Kind.typed, List.mem_cons, List.not_mem_nil, or_false] at hk
      rcases hk with hk | hk | hk | hk | hk | hk | hk | hk | hk <;> cases hk <;>
        exact absurd ‹_ ∈ _› (by decide)
  obtain ⟨t, ht, hkind⟩ := hmem
  exact Option.isSome_iff_exists.mp (List.find?_isSome.mpr ⟨t, ht, decide_eq_true hkind⟩)

/-- The number comes after the context. -/
theorem number_second (h : n.Rule cfg) (hk : n.kind ∈ Kind.numbered) :
    ∃ i : Nat, n.children[1]? = some (.mk .number (.index i) []) := by
  cases h with
  | closure hk' hcontext i ht => exact ⟨i, rfl⟩
  | defaultArgument hcontext i => exact ⟨i, rfl⟩
  | _ =>
    simp only [kind, Kind.numbered, List.mem_cons, List.not_mem_nil, or_false] at hk
    rcases hk with hk | hk | hk <;> cases hk <;> exact absurd ‹_ ∈ _› (by decide)

/-- An accessor belongs to a property or a subscript. -/
theorem kind_storage {c : Node} (h : n.Rule cfg) (hk : n.kind ∈ Kind.accessors)
    (hc : c ∈ n.children) :
    c.kind = .variableDecl ∨ c.kind = .subscriptDecl := by
  have hall : ∀ k ∈ Kind.accessors, ∀ s ∈ k.slots.getD [], ∀ c ∈ Kind.all, s.accepts c = true →
      c = .variableDecl ∨ c = .subscriptDecl := by decide
  obtain ⟨s, hs, haccepts⟩ := h.fits.exists_slot hc
  exact hall n.kind hk s hs c.kind (Kind.mem_all _) haccepts

/-- A local name has a number. -/
theorem eq_localDeclName (h : n.Rule cfg) (hk : n.kind = .localDeclName) :
    ∃ (i : Nat) (name : Node), name.kind.isDeclName = true ∧
      n = .mk .localDeclName .none [.mk .number (.index i) [], name] := by
  cases h with
  | localDeclName i hname => exact ⟨i, _, hname, rfl⟩
  | _ => cases hk <;> exact absurd ‹_ ∈ _› (by decide)

/-- A private name has a discriminator. -/
theorem eq_privateDeclName (h : n.Rule cfg) (hk : n.kind = .privateDeclName) :
    ∃ (discriminator : Node) (name : Option Node), discriminator.kind = .identifier ∧
      n = .mk .privateDeclName .none (discriminator :: name.toList) := by
  cases h with
  | privateDeclName hdiscriminator hname => exact ⟨_, _, hdiscriminator, rfl⟩
  | _ => cases hk <;> exact absurd ‹_ ∈ _› (by decide)

/-! ### Types -/

/-- A function type has its arguments and its result, after the mark if it throws. -/
theorem eq_parameters {first : Node} (h : n.Rule cfg) (hk : n.kind ∈ Kind.functionTypes)
    (hfirst : n.children[0]? = some first) :
    ∃ arguments result, arguments.kind = .argumentTuple ∧
      n.children[if first.kind = .throwsMarker then 1 else 0]? = some arguments ∧
        n.children[(if first.kind = .throwsMarker then 1 else 0) + 1]? = some result := by
  obtain ⟨throws, arguments, result, hthrows, harguments, -, heq⟩ := h.eq_functionType hk
  rw [heq] at hfirst ⊢
  refine ⟨arguments, result, harguments, ?_⟩
  rcases throws with _ | m
  · cases hfirst
    rw [if_neg (by rw [harguments]; decide)]
    exact ⟨rfl, rfl⟩
  · cases hfirst
    rw [if_pos (hthrows _ rfl)]
    exact ⟨rfl, rfl⟩

/-- Arguments of functions are found below the types of functions only. -/
theorem mem_functionTypes {c : Node} (h : n.Rule cfg) (hc : c ∈ n.children)
    (hk : c.kind = .argumentTuple) :
    n.kind ∈ Kind.functionTypes := by
  have hall : ∀ k ∈ Kind.all, k ≠ .global → ∀ s ∈ k.slots.getD [], s.accepts .argumentTuple = true →
      k ∈ Kind.functionTypes := by decide
  obtain ⟨s, hs, haccepts⟩ := h.fits.exists_slot hc
  rw [hk] at haccepts
  exact hall n.kind (Kind.mem_all _) h.kind_ne_global s hs haccepts

/-- A tuple is made of elements. -/
theorem kind_element (h : n.Rule cfg) (hk : n.kind = .tuple) :
    ∀ c ∈ n.children, c.kind = .tupleElement := by
  cases h with
  | tuple h => exact h
  | _ => cases hk <;> exact absurd ‹_ ∈ _› (by decide)

/-- A metatype is one of a type, with a representation before it if there is one. -/
theorem eq_metatype (h : n.Rule cfg) (hk : n.kind = .metatype ∨ n.kind = .existentialMetatype) :
    ∃ (representation : Option Node) (t : Node), t.kind = .type ∧
      n.children = representation.toList ++ [t] := by
  cases h with
  | metatype hk' hrepresentation ht => exact ⟨_, _, ht, rfl⟩
  | _ => rcases hk with hk | hk <;> cases hk <;> exact absurd ‹_ ∈ _› (by decide)

/-- A composition that asks for a class has one composition below it. -/
theorem eq_classComposition (h : n.Rule cfg) (hk : n.kind = .protocolListWithAnyObject) :
    ∃ list, list.kind = .protocolList ∧ n = .mk .protocolListWithAnyObject .none [list] := by
  cases h with
  | protocolListWithAnyObject h => exact ⟨_, h, rfl⟩
  | _ => cases hk <;> exact absurd ‹_ ∈ _› (by decide)

/-- A generic parameter has its depth and its position. -/
theorem eq_genericParameter (h : n.Rule cfg) (hk : n.kind = .dependentGenericParamType) :
    ∃ depth index : Nat, n = .mk .dependentGenericParamType .none
      [.mk .index (.index depth) [], .mk .index (.index index) []] := by
  cases h with
  | genericParameter depth index => exact ⟨depth, index, rfl⟩
  | _ => cases hk <;> exact absurd ‹_ ∈ _› (by decide)

end Node.Rule

end SwiftABI
