/-
  Trees whose symbol is read back.

  A tree is `Readable` if generic arguments stand only where they are written: at nominal types
  whose contexts make an `ArgumentChain`. Everywhere else a declaration must lie in a context that
  nothing is applied to. If such a tree obeys the grammar and can be written, the reader of the
  symbol finds the nodes of the tree again (`Written.mangleAt`). The step from the trees below a
  node to the node itself is taken for one rule of the grammar after the other (`BareOver.written`).
-/
import SwiftABI.Proofs.Symbol.Parts
import SwiftABI.Proofs.Symbol.Written.Entity
import SwiftABI.Proofs.Symbol.Written.Name

namespace SwiftABI

/-- The kinds of nodes that are written only as parts of others, or only at the top of a tree. -/
def Kind.parts : List Kind :=
  [.global, .suffix, .typeMangling, .number, .index, .directness, .metatypeRepresentation,
    .typeList]

/-- No generic arguments are applied where the node would have to be written without them. -/
structure Node.Bare (n : Node) : Prop where
  kind : n.kind ∉ Kind.boundGenerics
  nominal : n.kind ∈ Kind.nominals → n.kind ≠ .protocolType → n.isSpecialized = false
  context : n.kind ∈ Kind.declared → ∀ c, n.children.head? = some c → c.kind ∉ Kind.boundGenerics
  extended : n.kind = .extensionDecl → ∀ c ∈ n.children, c.kind ∉ Kind.boundGenerics
  protocols : n.kind = .protocolList → ∀ l ∈ n.children, ∀ p ∈ l.children,
    p.unwrapped.kind = .protocolType

instance (n : Node) : Decidable n.Bare :=
  decidable_of_iff (n.kind ∉ Kind.boundGenerics ∧
    (n.kind ∈ Kind.nominals → n.kind ≠ .protocolType → n.isSpecialized = false) ∧
    (n.kind ∈ Kind.declared → ∀ c ∈ n.children.head?, c.kind ∉ Kind.boundGenerics) ∧
    (n.kind = .extensionDecl → ∀ c ∈ n.children, c.kind ∉ Kind.boundGenerics) ∧
    (n.kind = .protocolList → ∀ l ∈ n.children, ∀ p ∈ l.children, p.unwrapped.kind = .protocolType))
    ⟨fun h => ⟨h.1, h.2.1, h.2.2.1, h.2.2.2.1, h.2.2.2.2⟩,
      fun h => ⟨h.kind, h.nominal, h.context, h.extended, h.protocols⟩⟩

/-- The generic arguments in the tree stand where they are written. -/
inductive Readable : Node → Prop where
  | bare {k : Kind} {p : Payload} {cs : List Node} (h : (Node.mk k p cs).Bare)
    (below : ∀ c ∈ cs, Readable c) : Readable (.mk k p cs)
  | applied {n m : Node} {lists : List (List Node)}
    (hk : n.kind ∈ Kind.nominals ++ Kind.boundNominals)
    (hp : n.kind ≠ .protocolType) (hspecialized : n.isSpecialized = true)
    (h : ArgumentChain false n m lists) (declaration : ∀ c ∈ m.children, Readable c)
    (arguments : ∀ l ∈ lists, ∀ a ∈ l, Readable a) : Readable n

namespace Readable

variable {n : Node}

/-- A tree without generic arguments is readable. -/
theorem of_all_bare (h : n.All Node.Bare) : Readable n := by
  induction h with
  | mk h _ ih => exact .bare h ih

/-- Nothing is applied to nodes that are no nominal types. -/
theorem cases_of_kind (h : Readable n)
    (hk : n.kind ∉ Kind.nominals ++ Kind.boundNominals ∨ n.kind = .protocolType) :
    n.Bare ∧ ∀ c ∈ n.children, Readable c := by
  cases h with
  | bare h below => exact ⟨h, below⟩
  | applied hk' hp =>
    rcases hk with hk | hk
    · exact absurd hk' hk
    · exact absurd hk hp

end Readable

/-- The trees below a node are written by `sub`. -/
structure Below (strict : Prop) (cfg : Config) (pre : Text) (sub : Node → Writing Unit) (n : Node) :
    Prop where
  written : ∀ c, c.size < n.size → c.Grammatical cfg → Readable c →
    c.All (Node.Spelled strict cfg) → c.kind ∉ Kind.parts → Written strict cfg pre sub c
  number : ∀ i : Nat, 1 < n.size → sub (.mk .number (.index i) []) = Writing.emit (Code.index i)

/-! ### Kinds of children -/

namespace Kind

theorem not_parts_of_isContext {k : Kind} (h : k.isContext = true) : k ∉ parts := by
  have hall : ∀ k ∈ all.filter isContext, k ∉ parts := by decide
  exact hall k (List.mem_filter.mpr ⟨mem_all k, h⟩)

theorem not_parts_of_isDeclName {k : Kind} (h : k.isDeclName = true) : k ∉ parts := by
  have hall : ∀ k ∈ all.filter isDeclName, k ∉ parts := by decide
  exact hall k (List.mem_filter.mpr ⟨mem_all k, h⟩)

theorem not_parts_of_isEntity {k : Kind} (h : k.isEntity = true) : k ∉ parts := by
  have hall : ∀ k ∈ all.filter isEntity, k ∉ parts := by decide
  exact hall k (List.mem_filter.mpr ⟨mem_all k, h⟩)

theorem isEntity_cases {k : Kind} (h : k.isEntity = true) (hk : k ∉ nominals) :
    k = .moduleName ∨ k ∈ plain := by
  have hall : ∀ k ∈ all.filter isEntity, k ∉ nominals → k = .moduleName ∨ k ∈ plain := by decide
  exact hall k (List.mem_filter.mpr ⟨mem_all k, h⟩) hk

/-- A kind of a group that is written with letters of its own. -/
theorem exists_suffix {ks : List Kind} {k : Kind} (hk : k ∈ ks)
    (hks : ∀ k ∈ ks, (Code.suffix? k).isSome = true) : ∃ letters, Code.suffix? k = some letters :=
  Option.isSome_iff_exists.mp (hks k hk)

theorem aroundType_cases :
    ∀ k ∈ aroundType, k = .returnType ∨ (Code.suffix? k).isSome = true := by decide

theorem not_parts_of_mem_contextChildren : ∀ k ∈ contextChildren, k ∉ parts := by decide

theorem not_parts_of_mem_types : ∀ k ∈ types, k ∉ parts := by decide

end Kind

namespace Written

variable {strict : Prop} {cfg : Config} {pre : Text} {sub : Node → Writing Unit} {n : Node}

private theorem not_parts_of_labels {labels : Option Node} {t : Node} (h : LabelsFit labels t) :
    ∀ l ∈ labels.toList, l.kind ∉ Kind.parts := by
  intro l hl
  rw [Node.Rule.kind_of_labelsFit h l (Option.mem_toList.mp hl)]
  decide

private theorem not_parts_of_declaration {context name t : Node} {labels : Option Node}
    (hc : context.kind.isContext = true) (hname : name.kind.isDeclName = true) (ht : t.kind = .type)
    (hlabels : LabelsFit labels t) :
    ∀ c ∈ [context, name] ++ labels.toList ++ [t], c.kind ∉ Kind.parts := by
  intro c hmem
  rw [List.mem_append, List.mem_append, List.mem_cons, List.mem_singleton,
    List.mem_singleton] at hmem
  rcases hmem with ((rfl | rfl) | hmem) | rfl
  · exact Kind.not_parts_of_isContext hc
  · exact Kind.not_parts_of_isDeclName hname
  · exact not_parts_of_labels hlabels c hmem
  · rw [ht]
    decide

private theorem not_parts_of_unnamed {context t : Node} {labels privateName : Option Node}
    (hc : context.kind.isContext = true) (ht : t.kind = .type) (hlabels : LabelsFit labels t)
    (hprivate : ∀ n ∈ privateName, n.kind = .privateDeclName) :
    ∀ c ∈ context :: (labels.toList ++ [t] ++ privateName.toList), c.kind ∉ Kind.parts := by
  intro c hmem
  rw [List.mem_cons, List.mem_append, List.mem_append, List.mem_singleton] at hmem
  rcases hmem with rfl | (hmem | rfl) | hmem
  · exact Kind.not_parts_of_isContext hc
  · exact not_parts_of_labels hlabels c hmem
  · rw [ht]
    decide
  · rw [hprivate c (Option.mem_toList.mp hmem)]
    decide

end Written

/-! ### A node that nothing is applied to -/

/-- A node that nothing is applied to, above trees that are written by `sub`. -/
structure BareOver (strict : Prop) (cfg : Config) (pre : Text) (sub : Node → Writing Unit)
    (n : Node) : Prop where
  below : Below strict cfg pre sub n
  grammatical : n.Grammatical cfg
  bare : n.Bare
  readable : ∀ c ∈ n.children, Readable c
  spelled : n.All (Node.Spelled strict cfg)

namespace BareOver

variable {strict : Prop} {cfg : Config} {pre : Text} {sub : Node → Writing Unit} {n c : Node}

/-- Nothing is applied to a child that is no nominal type, either. -/
theorem child (h : BareOver strict cfg pre sub n) (hc : c ∈ n.children)
    (hk : c.kind ∉ Kind.nominals ++ Kind.boundNominals ∨ c.kind = .protocolType) :
    BareOver strict cfg pre sub c where
  below :=
    have hlt := Node.size_lt_of_mem_children hc
    ⟨fun d hd => h.below.written d (Nat.lt_trans hd hlt),
      fun i hi => h.below.number i (Nat.lt_trans hi hlt)⟩
  grammatical := h.grammatical.children c hc
  bare := ((h.readable c hc).cases_of_kind hk).1
  readable := ((h.readable c hc).cases_of_kind hk).2
  spelled := h.spelled.children c hc

theorem writes (h : BareOver strict cfg pre sub n) (hc : c ∈ n.children)
    (hk : c.kind ∉ Kind.parts) :
    Written strict cfg pre sub c :=
  h.below.written c (Node.size_lt_of_mem_children hc) (h.grammatical.children c hc)
    (h.readable c hc) (h.spelled.children c hc) hk

theorem number (h : BareOver strict cfg pre sub n) (hc : c ∈ n.children) (i : Nat) :
    sub (.mk .number (.index i) []) = Writing.emit (Code.index i) := by
  have hlt := Node.size_lt_of_mem_children hc
  have hpos := c.size_pos
  exact h.below.number i (by omega)

/-- The context of a declaration is one that is written as it is. -/
theorem context (h : BareOver strict cfg pre sub n) (hk : n.kind ∈ Kind.declared)
    (hc : n.children.head? = some c) (hkc : c.kind ∈ Kind.contextChildren) :
    c.Rule cfg ∧ c.kind.isContext = true ∧ Written strict cfg pre sub c := by
  have hmem : c ∈ n.children := List.mem_of_mem_head? hc
  have hisContext := Kind.isContext_of_mem_contextChildren hkc (h.bare.context hk c hc)
  exact ⟨(h.grammatical.children c hmem).root, hisContext,
    h.writes hmem (Kind.not_parts_of_isContext hisContext)⟩

/-- The type in a node that says how a value is passed or returned. -/
theorem insideType {t : Node} (h : BareOver strict cfg pre sub n) (ht : t ∈ n.children)
    (hk : t.kind = .type) :
    ∃ x, x.kind ∈ Kind.types ∧ t = .typeOf x ∧ Written strict cfg pre sub x := by
  obtain ⟨x, hx, rfl⟩ := (h.grammatical.children t ht).root.eq_type hk
  have hwrites := h.child ht (.inl (by rw [hk]; decide))
  exact ⟨x, hx, rfl, hwrites.writes (List.mem_singleton_self x) (Kind.not_parts_of_mem_types _ hx)⟩

/-! ### Names -/

theorem name {k : Kind} {t : Text} (hlimit : -1 ≤ cfg.maxRepeatCount) (hmax : cfg.maxWords ≤ 26)
    (h : BareOver strict cfg pre sub (.mk k (.text t) []))
    (hk : k ∈ [Kind.identifier, .moduleName, .tupleElementName]) :
    Written strict cfg pre (Writing.ofNode cfg sub) (.mk k (.text t) []) := by
  have hkeeps : Punycode.Keeps t := h.spelled.root.kept (List.mem_append_left _ hk) t rfl
  have hspellable : strict → Spellable cfg t := fun hstrict => h.spelled.root.name hstrict hk t rfl
  simp only [List.mem_cons, List.not_mem_nil, or_false] at hk
  rcases hk with rfl | rfl | rfl
  · exact .identifier hlimit hmax (.inl rfl) hkeeps hspellable
  · exact .moduleName hlimit hmax hkeeps hspellable
  · exact .identifier hlimit hmax (.inr rfl) hkeeps hspellable

theorem privateDeclName {discriminator : Node} {name : Option Node}
    (h : BareOver strict cfg pre sub (.mk .privateDeclName .none (discriminator :: name.toList)))
    (hdiscriminator : discriminator.kind = .identifier)
    (hname : ∀ n ∈ name, n.kind.isDeclName = true) :
    Written strict cfg pre (Writing.ofNode cfg sub)
      (.mk .privateDeclName .none (discriminator :: name.toList)) := by
  obtain ⟨t, -, heq⟩ := (h.grammatical.children discriminator List.mem_cons_self).root.eq_name
    (by rw [hdiscriminator]; decide)
  rw [hdiscriminator] at heq
  subst heq
  refine .privateDeclName hname fun c hc => h.writes hc ?_
  rcases List.mem_cons.mp hc with rfl | hc
  · show Kind.identifier ∉ Kind.parts
    decide
  · exact Kind.not_parts_of_isDeclName (hname c (Option.mem_toList.mp hc))

/-! ### Declarations -/

theorem nominal {k : Kind} {context name : Node} (hlimit : -1 ≤ cfg.maxRepeatCount)
    (h : BareOver strict cfg pre sub (.mk k .none [context, name])) (hk : k ∈ Kind.nominals)
    (hcontext : context.kind ∈ Kind.contextChildren) (hname : name.kind.isDeclName = true) :
    Written strict cfg pre (Writing.ofNode cfg sub) (.mk k .none [context, name]) := by
  obtain ⟨hrule, hc, hwritten⟩ :=
    h.context (List.mem_append_left _ (List.mem_append_left _ hk)) rfl hcontext
  refine .nominal hlimit hk hrule hc hname (fun hp => ?_) fun c hc => ?_
  · have hspecialized := h.bare.nominal hk hp
    rwa [Node.isSpecialized_context (.inl hk) (Kind.nominals_spec _ hk).2] at hspecialized
  · rcases List.mem_cons.mp hc with rfl | hc'
    · exact hwritten
    · rw [List.mem_singleton] at hc'
      subst hc'
      exact h.writes hc (Kind.not_parts_of_isDeclName hname)

theorem extensionDecl {m extended : Node}
    (h : BareOver strict cfg pre sub (.mk .extensionDecl .none [m, extended]))
    (hm : m.kind = .moduleName) (he : extended.kind ∈ Kind.nominals ++ Kind.boundNominals) :
    Written strict cfg pre (Writing.ofNode cfg sub) (.mk .extensionDecl .none [m, extended]) := by
  obtain ⟨t, -, rfl⟩ := (h.grammatical.children m List.mem_cons_self).root.eq_moduleName hm
  have hextended : extended.kind ∈ Kind.nominals := by
    have hbound := h.bare.extended rfl extended (by simp [Node.children])
    rcases List.mem_append.mp he with he | he
    · exact he
    · exact absurd (List.mem_append_left _ he) hbound
  refine .extension hextended fun c hc => h.writes hc ?_
  rcases List.mem_cons.mp hc with rfl | hc
  · show Kind.moduleName ∉ Kind.parts
    decide
  · rw [List.mem_singleton.mp hc]
    exact Kind.not_parts_of_isContext (Kind.nominals_spec _ hextended).1

/-- The parameters and the result of a function are written in the place of its type. -/
theorem functionDecl {context name t : Node} {labels : Option Node}
    (h : BareOver strict cfg pre sub
      (.mk .functionDecl .none ([context, name] ++ labels.toList ++ [t])))
    (hcontext : context.kind ∈ Kind.contextChildren) (hname : name.kind.isDeclName = true)
    (ht : t.kind = .type) (hlabels : LabelsFit labels t)
    (hfunction : t.unwrapped.kind = .functionType) :
    Written strict cfg pre (Writing.ofNode cfg sub)
      (.mk .functionDecl .none ([context, name] ++ labels.toList ++ [t])) := by
  obtain ⟨hrule, hc, -⟩ := h.context (by show Kind.functionDecl ∈ _; decide) rfl hcontext
  have htmem : t ∈ [context, name] ++ labels.toList ++ [t] :=
    List.mem_append_right _ (List.mem_singleton_self t)
  have hinside := h.child htmem (.inl (by rw [ht]; decide))
  have hparts := Written.not_parts_of_declaration hc hname ht hlabels
  obtain ⟨F, -, rfl⟩ := hinside.grammatical.root.eq_type ht
  change F.kind = .functionType at hfunction
  have hF := hinside.child (List.mem_singleton_self F) (.inl (by rw [hfunction]; decide))
  obtain ⟨throws, p, r, hfunctionParts, heq⟩ :=
    FunctionParts.of_kind hF.grammatical (by rw [hfunction]; decide)
  rw [hfunction] at heq
  subst heq
  refine .function hrule hc hname hfunctionParts hlabels (fun c hc' => ?_) fun c hc' => ?_
  · exact h.writes (List.mem_append_left _ hc') (hparts c (List.mem_append_left _ hc'))
  · have hall : ∀ k ∈ [Kind.throwsMarker, .argumentTuple, .returnType], k ∉ Kind.parts := by decide
    exact hF.writes hc' (hall _ (hfunctionParts.kind_of_mem c hc'))

theorem declaration {k : Kind} {context name t : Node} {labels : Option Node}
    (h : BareOver strict cfg pre sub (.mk k .none ([context, name] ++ labels.toList ++ [t])))
    (hk : k ∈ [Kind.functionDecl, .variableDecl, .genericTypeParamDecl])
    (hcontext : context.kind ∈ Kind.contextChildren) (hname : name.kind.isDeclName = true)
    (ht : t.kind = .type) (hlabels : LabelsFit labels t)
    (hfunction : k = .functionDecl → t.unwrapped.kind = .functionType)
    (hparam : k = .genericTypeParamDecl → context.PlainContext) :
    Written strict cfg pre (Writing.ofNode cfg sub)
      (.mk k .none ([context, name] ++ labels.toList ++ [t])) := by
  have hdeclared : ∀ k ∈ [Kind.functionDecl, .variableDecl, .genericTypeParamDecl],
      k ∈ Kind.declared := by
    decide
  obtain ⟨hrule, hc, -⟩ := h.context (hdeclared k hk) rfl hcontext
  have hwritten : ∀ c ∈ [context, name] ++ labels.toList ++ [t], Written strict cfg pre sub c :=
    fun c hc' => h.writes hc' (Written.not_parts_of_declaration hc hname ht hlabels c hc')
  simp only [List.mem_cons, List.not_mem_nil, or_false] at hk
  rcases hk with rfl | rfl | rfl
  · exact h.functionDecl hcontext hname ht hlabels (hfunction rfl)
  · exact .declaration (.inl rfl) hrule hc hname ht hlabels (absurd · (by decide)) hwritten
  · exact .declaration (.inr rfl) hrule hc hname ht hlabels hparam hwritten

theorem unnamed {k : Kind} {context t : Node} {labels privateName : Option Node}
    (h : BareOver strict cfg pre sub
      (.mk k .none (context :: (labels.toList ++ [t] ++ privateName.toList))))
    (hk : k ∈ [Kind.allocator, .constructorDecl, .subscriptDecl])
    (hcontext : context.kind ∈ Kind.contextChildren) (ht : t.kind = .type)
    (hlabels : LabelsFit labels t) (hprivate : ∀ n ∈ privateName, n.kind = .privateDeclName)
    (hsubscript : k = .subscriptDecl → labels.isSome = true) :
    Written strict cfg pre (Writing.ofNode cfg sub)
      (.mk k .none (context :: (labels.toList ++ [t] ++ privateName.toList))) := by
  have hdeclared : ∀ k ∈ [Kind.allocator, .constructorDecl, .subscriptDecl], k ∈ Kind.declared := by
    decide
  obtain ⟨hrule, hc, -⟩ := h.context (hdeclared k hk) rfl hcontext
  have hwritten : ∀ c ∈ context :: (labels.toList ++ [t] ++ privateName.toList),
      Written strict cfg pre sub c :=
    fun c hc' => h.writes hc' (Written.not_parts_of_unnamed hc ht hlabels hprivate c hc')
  simp only [List.mem_cons, List.not_mem_nil, or_false] at hk
  rcases hk with rfl | rfl | rfl
  · exact .initializer (.inl rfl) rfl hrule hc ht hlabels hprivate hwritten
  · exact .initializer (.inr rfl) rfl hrule hc ht hlabels hprivate hwritten
  · obtain ⟨ls, rfl⟩ := Option.isSome_iff_exists.mp (hsubscript rfl)
    exact .subscript hrule hc ht hlabels hprivate hwritten

theorem bareScope {k : Kind} {context : Node}
    (h : BareOver strict cfg pre sub (.mk k .none [context]))
    (hk : k ∈ Kind.bareScopes) (hcontext : context.kind ∈ Kind.contextChildren) :
    Written strict cfg pre (Writing.ofNode cfg sub) (.mk k .none [context]) := by
  obtain ⟨letters, hletters⟩ := Kind.exists_suffix hk (by decide)
  obtain ⟨hrule, hc, hwritten⟩ := h.context (List.mem_append_right _ hk) rfl hcontext
  exact .bareScope hk hletters hrule hc hwritten

theorem closure {k : Kind} {context t : Node} {i : Nat}
    (h : BareOver strict cfg pre sub (.mk k .none [context, .mk .number (.index i) [], t]))
    (hk : k ∈ [Kind.explicitClosure, .implicitClosure])
    (hcontext : context.kind ∈ Kind.contextChildren) (ht : t.kind = .type) :
    Written strict cfg pre (Writing.ofNode cfg sub)
      (.mk k .none [context, .mk .number (.index i) [], t]) := by
  have hdeclared : ∀ k ∈ [Kind.explicitClosure, .implicitClosure], k ∈ Kind.declared := by decide
  obtain ⟨hrule, hc, hwritten⟩ := h.context (hdeclared k hk) rfl hcontext
  refine .closure hk hrule hc ht (h.number List.mem_cons_self i) fun c hc => ?_
  rcases List.mem_cons.mp hc with rfl | hc
  · exact hwritten
  · rw [List.mem_singleton] at hc
    subst hc
    exact h.writes (by simp [Node.children]) (by rw [ht]; decide)

/-- Of the storage that an accessor belongs to, the parts are written, and not the node. -/
theorem accessor {k : Kind} {storage : Node}
    (h : BareOver strict cfg pre sub (.mk k .none [storage]))
    (hk : k ∈ Kind.accessors)
    (hstorage : storage.kind = .variableDecl ∨ storage.kind = .subscriptDecl) :
    Written strict cfg pre (Writing.ofNode cfg sub) (.mk k .none [storage]) := by
  have hinside : BareOver strict cfg pre sub storage :=
    h.child (List.mem_singleton_self storage) <| .inl <| by
    rcases hstorage with h | h <;> rw [h] <;> decide
  have hdeclared : storage.kind ∈ Kind.declared := by
    rcases hstorage with h | h <;> rw [h] <;> decide
  rcases hstorage with hs | hs
  · obtain ⟨context, name, t, labels, hcontext, hname, ht, hlabels, rfl⟩ :=
      hinside.grammatical.root.eq_variableDecl hs
    obtain ⟨hrule, hc, -⟩ := hinside.context hdeclared rfl hcontext
    exact .propertyAccessor hk hrule hc hname ht hlabels fun c hc' =>
      hinside.writes hc' (Written.not_parts_of_declaration hc hname ht hlabels c hc')
  · obtain ⟨context, t, ls, privateName, hcontext, ht, hlabels, hprivate, rfl⟩ :=
      hinside.grammatical.root.eq_subscriptDecl hs
    obtain ⟨hrule, hc, -⟩ := hinside.context hdeclared rfl hcontext
    exact .subscriptAccessor hk hrule hc ht hlabels hprivate fun c hc' =>
      hinside.writes hc' (Written.not_parts_of_unnamed hc ht hlabels hprivate c hc')

theorem staticDecl {entity : Node}
    (h : BareOver strict cfg pre sub (.mk .staticDecl .none [entity]))
    (hentity : entity.kind.isEntity = true) (hnominal : entity.kind ∉ Kind.nominals)
    (hmodule : ∀ t cs, entity = .mk .moduleName (.text t) cs → t ∈ lettered) :
    Written strict cfg pre (Writing.ofNode cfg sub) (.mk .staticDecl .none [entity]) := by
  have hmem := List.mem_singleton_self entity
  refine .aroundEntity (.inl rfl) hentity ?_ (h.writes hmem (Kind.not_parts_of_isEntity hentity))
  rcases Kind.isEntity_cases hentity hnominal with hm | hplain
  · obtain ⟨t, -, rfl⟩ := (h.grammatical.children entity hmem).root.eq_moduleName hm
    exact if_pos (hmodule t [] rfl)
  · exact Node.stacked_of_plain hplain

/-! ### Types -/

theorem functionType {k : Kind} {throws : Option Node} {arguments result : Node}
    (h : BareOver strict cfg pre sub (.mk k .none (throws.toList ++ [arguments, result])))
    (hk : k ∈ Kind.functionTypes) (hthrows : ∀ n ∈ throws, n.kind = .throwsMarker)
    (harguments : arguments.kind = .argumentTuple) (hresult : result.kind = .returnType) :
    Written strict cfg pre (Writing.ofNode cfg sub)
      (.mk k .none (throws.toList ++ [arguments, result])) := by
  have hwrites := fun c => h.writes (c := c)
  obtain ⟨t, r, hparts, heq⟩ :=
    FunctionParts.of_children hthrows harguments hresult h.grammatical.children
  rw [heq] at hwrites ⊢
  refine .functionType hk hparts fun c hc => hwrites c hc ?_
  have hall : ∀ k ∈ [Kind.throwsMarker, .argumentTuple, .returnType], k ∉ Kind.parts := by decide
  exact hall _ (hparts.kind_of_mem c hc)

/-- The type of a result is written without its node, as the parameters are. -/
theorem aroundType {k : Kind} {t : Node} (h : BareOver strict cfg pre sub (.mk k .none [t]))
    (hk : k ∈ Kind.aroundType) (ht : t.kind = .type) :
    Written strict cfg pre (Writing.ofNode cfg sub) (.mk k .none [t]) := by
  have hmem := List.mem_singleton_self t
  rcases Kind.aroundType_cases k hk with rfl | hsuffix
  · obtain ⟨x, hx, rfl, hwritten⟩ := h.insideType hmem ht
    exact .parameters (.inr rfl) hx hwritten
  · obtain ⟨letters, hletters⟩ := Option.isSome_iff_exists.mp hsuffix
    exact .aroundType hk hletters ht (h.writes hmem (by rw [ht]; decide))

theorem passing {k : Kind} {t : Node} (h : BareOver strict cfg pre sub (.mk k .none [t]))
    (hk : k ∈ [Kind.inOut, .shared, .owned]) (ht : t.kind ∈ Kind.types) :
    Written strict cfg pre (Writing.ofNode cfg sub) (.mk k .none [t]) := by
  obtain ⟨letters, hletters⟩ := Kind.exists_suffix hk (by decide)
  exact .passing hk hletters ht
    (h.writes (List.mem_singleton_self t) (Kind.not_parts_of_mem_types _ ht))

theorem tupleElement {variadic name : Option Node} {t : Node}
    (h : BareOver strict cfg pre sub
      (.mk .tupleElement .none (variadic.toList ++ name.toList ++ [t])))
    (hvariadic : ∀ n ∈ variadic, n.kind = .variadicMarker)
    (hname : ∀ n ∈ name, n.kind = .tupleElementName) (ht : t.kind = .type) :
    Written strict cfg pre (Writing.ofNode cfg sub)
      (.mk .tupleElement .none (variadic.toList ++ name.toList ++ [t])) := by
  refine .tupleElement hvariadic hname ht (fun c hc => (h.grammatical.children c hc).root)
    fun c hc => h.writes hc ?_
  rw [List.append_assoc, List.mem_append, List.mem_append, List.mem_singleton, Option.mem_toList,
    Option.mem_toList] at hc
  rcases hc with hc | hc | rfl
  · rw [hvariadic c hc]
    decide
  · rw [hname c hc]
    decide
  · rw [ht]
    decide

theorem sugaredDictionary {key value : Node}
    (h : BareOver strict cfg pre sub (.mk .sugaredDictionary .none [key, value]))
    (hkey : key.kind = .type) (hvalue : value.kind = .type) :
    Written strict cfg pre (Writing.ofNode cfg sub)
      (.mk .sugaredDictionary .none [key, value]) := by
  refine .sugaredDictionary hkey hvalue fun c hc => h.writes hc ?_
  rcases List.mem_cons.mp hc with rfl | hc
  · rw [hkey]
    decide
  · rw [List.mem_singleton.mp hc, hvalue]
    decide

/-! ### Protocols -/

/-- A protocol that lies in a context that nothing is applied to. -/
theorem plainProtocol (h : BareOver strict cfg pre sub n) (hk : n.kind = .type)
    (hk' : n.unwrapped.kind = .protocolType) :
    Reads.PlainProtocol cfg n ∧ ∀ c ∈ n.unwrapped.children, Written strict cfg pre sub c := by
  obtain ⟨x, -, rfl⟩ := h.grammatical.root.eq_type hk
  change x.kind = .protocolType at hk'
  have hx := h.child (List.mem_singleton_self x) (.inr hk')
  obtain ⟨context, name, hcontext, hname, heq⟩ :=
    hx.grammatical.root.eq_nominal (by rw [hk']; decide)
  rw [hk'] at heq
  subst heq
  obtain ⟨hrule, hc, hwritten⟩ := hx.context (by show Kind.protocolType ∈ _; decide) rfl hcontext
  refine ⟨⟨context, name, rfl, hrule, hc, hname⟩, fun c hmem => ?_⟩
  rcases List.mem_cons.mp hmem with rfl | hname'
  · exact hwritten
  · refine hx.writes hmem ?_
    rw [List.mem_singleton.mp hname']
    exact Kind.not_parts_of_isDeclName hname

/-- The protocols of a composition, and what has to be written for them. -/
theorem plainProtocols {ps : List Node}
    (h : BareOver strict cfg pre sub (.mk .protocolList .none [.mk .typeList .none ps])) :
    (∀ p ∈ ps, Reads.PlainProtocol cfg p) ∧
      ∀ p ∈ ps, ∀ c ∈ p.unwrapped.children, Written strict cfg pre sub c := by
  have hmem := List.mem_singleton_self (Node.mk .typeList .none ps)
  have hlist := h.child hmem (.inl (by show Kind.typeList ∉ _; decide))
  have hboth : ∀ p ∈ ps, Reads.PlainProtocol cfg p ∧
      ∀ c ∈ p.unwrapped.children, Written strict cfg pre sub c := by
    intro p hp
    obtain ⟨ps', hkinds, heq⟩ := h.grammatical.root.eq_protocolList rfl
    cases heq
    have hk := (hkinds p hp).1
    exact (hlist.child hp (.inl (by rw [hk]; decide))).plainProtocol hk
      (h.bare.protocols rfl _ hmem p hp)
  exact ⟨fun p hp => (hboth p hp).1, fun p hp => (hboth p hp).2⟩

theorem protocolListWithAnyObject {p : Node} (hlimit : -1 ≤ cfg.maxRepeatCount)
    (h : BareOver strict cfg pre sub (.mk .protocolListWithAnyObject .none [p]))
    (hk : p.kind = .protocolList) :
    Written strict cfg pre (Writing.ofNode cfg sub) (.mk .protocolListWithAnyObject .none [p]) := by
  have hinside := h.child (List.mem_singleton_self p) (.inl (by rw [hk]; decide))
  obtain ⟨ps, -, rfl⟩ := hinside.grammatical.root.eq_protocolList hk
  obtain ⟨hplain, hwritten⟩ := hinside.plainProtocols
  exact .protocolListWithAnyObject hlimit hplain hwritten

/-! ### All nodes -/

/-- A node that nothing is applied to is written if the trees below it are. -/
theorem written (hlimit : -1 ≤ cfg.maxRepeatCount) (hmax : cfg.maxWords ≤ 26)
    (h : BareOver strict cfg pre sub n) (hk : n.kind ∉ Kind.parts) :
    Written strict cfg pre (Writing.ofNode cfg sub) n := by
  have hroot := h.grammatical.root
  cases hroot with
  -- Parts are written along with what they are parts of.
  | suffix => exact absurd hk (by show ¬Kind.suffix ∉ Kind.parts; decide)
  | directness => exact absurd hk (by show ¬Kind.directness ∉ Kind.parts; decide)
  | metatypeRepresentation =>
    exact absurd hk (by show ¬Kind.metatypeRepresentation ∉ Kind.parts; decide)
  | typeList => exact absurd hk (by show ¬Kind.typeList ∉ Kind.parts; decide)
  | typeMangling => exact absurd hk (by show ¬Kind.typeMangling ∉ Kind.parts; decide)
  | number hk' i =>
    have hall : ∀ k ∈ [Kind.number, .index], k ∈ Kind.parts := by decide
    exact absurd (hall _ hk') hk
  | type ht =>
    exact .type ht (h.writes (List.mem_singleton_self _) (Kind.not_parts_of_mem_types _ ht))
  | name hk' ht => exact h.name hlimit hmax hk'
  | operatorName hk' ht hchars =>
    have hkeeps := h.spelled.root.kept (List.mem_append_right _ hk') _ rfl
    exact .operatorName hlimit hmax hk' hchars hkeeps fun hstrict =>
      h.spelled.root.operator hstrict hk' _ rfl
  | localDeclName i hname =>
    exact .localDeclName hname (h.number List.mem_cons_self i)
      (h.writes (by simp [Node.children]) (Kind.not_parts_of_isDeclName hname))
  | privateDeclName hdiscriminator hname => exact h.privateDeclName hdiscriminator hname
  | relatedEntityDeclName hc hname =>
    exact .relatedEntityDeclName hc hname
      (h.writes (List.mem_singleton_self _) (Kind.not_parts_of_isDeclName hname))
  | nominal hk' hcontext hname => exact h.nominal hlimit hk' hcontext hname
  | boundNominal hk' => exact absurd (List.mem_append_left _ hk') h.bare.kind
  | boundFunction => exact absurd h.bare.kind (by show ¬Kind.boundGenericFunction ∉ _; decide)
  | extension hm he => exact h.extensionDecl hm he
  | declaration hk' hcontext hname ht hlabels hfunction hparam =>
    exact h.declaration hk' hcontext hname ht hlabels hfunction hparam
  | unnamed hk' hcontext ht hlabels hprivate hsubscript =>
    exact h.unnamed hk' hcontext ht hlabels hprivate hsubscript
  | bareScope hk' hcontext => exact h.bareScope hk' hcontext
  | closure hk' hcontext i ht => exact h.closure hk' hcontext ht
  | defaultArgument hcontext i =>
    obtain ⟨hrule, hc, hwritten⟩ :=
      h.context (by show Kind.defaultArgumentInitializer ∈ _; decide) rfl hcontext
    exact .defaultArgument hrule hc (h.number List.mem_cons_self i) hwritten
  | accessor hk' hstorage => exact h.accessor hk' hstorage
  | staticDecl hentity hnominal hmodule => exact h.staticDecl hentity hnominal hmodule
  | @enumCase entity hentity hstack =>
    have hmem := List.mem_singleton_self entity
    exact .aroundEntity (.inr rfl) hentity
      (hstack.stacked (h.grammatical.children entity hmem).root)
      (h.writes hmem (Kind.not_parts_of_isEntity hentity))
  | @fieldOffset i entity hi hentity hstack =>
    have hmem : entity ∈ [Node.mk .directness (.index i) [], entity] := by simp
    exact .fieldOffset hi hentity (hstack.stacked (h.grammatical.children entity hmem).root)
      (h.writes hmem (Kind.not_parts_of_isEntity hentity))
  | functionType hk' hthrows harguments hresult =>
    exact h.functionType hk' hthrows harguments hresult
  | argumentTuple ht =>
    obtain ⟨x, hx, rfl, hwritten⟩ := h.insideType (List.mem_singleton_self _) ht
    exact .parameters (.inl rfl) hx hwritten
  | aroundType hk' ht => exact h.aroundType hk' ht
  | @protocolDescriptor p hp =>
    have hinside := h.child (List.mem_singleton_self p.typeOf)
      (.inl (by show Kind.type ∉ _; decide))
    obtain ⟨hplain, hwritten⟩ := hinside.plainProtocol rfl hp
    exact .protocolDescriptor hlimit hplain hwritten
  | @valueWitness i t hi ht =>
    exact .valueWitness hi ht (h.writes (List.mem_singleton_self t) (by rw [ht]; decide))
  | passing hk' ht => exact h.passing hk' ht
  | tuple helements =>
    exact .tuple h.grammatical.children helements fun e he =>
      h.writes he (by rw [helements e he]; decide)
  | tupleElement hvariadic hname ht => exact h.tupleElement hvariadic hname ht
  | labelList hlabels hname =>
    refine .labelList hlabels fun l hl => h.writes hl ?_
    rcases hlabels l hl with hl | hl <;> rw [hl] <;> decide
  | @metatype k representation t hk' hrepresentation ht =>
    refine .metatype hk' (fun r hr => ?_) ht
      (h.writes (by simp [Node.children]) (by rw [ht]; decide))
    exact (h.grammatical.children r (List.mem_append_left _ (Option.mem_toList.mpr hr))).root
      |>.eq_metatypeRepresentation (hrepresentation r hr)
  | protocolList =>
    obtain ⟨hplain, hwritten⟩ := h.plainProtocols
    exact .protocolList hlimit hplain hwritten
  | protocolListWithAnyObject hp => exact h.protocolListWithAnyObject hlimit hp
  | sugaredDictionary hkey hvalue => exact h.sugaredDictionary hkey hvalue
  | genericParameter depth index => exact .genericParameter depth index
  | builtinType hname =>
    exact .builtinType hname fun hstrict => h.spelled.root.builtin hstrict rfl _ rfl
  | marker hk' =>
    obtain ⟨letters, hletters⟩ := Kind.exists_suffix hk' (by decide)
    exact .marker hk' hletters

end BareOver

namespace Written

variable {strict : Prop} {cfg : Config} {pre : Text} {sub : Node → Writing Unit} {n : Node}

/-- A node is written if the trees below it are. -/
theorem of_below (hlimit : -1 ≤ cfg.maxRepeatCount) (hmax : cfg.maxWords ≤ 26)
    (hbelow : Below strict cfg pre sub n) (hn : n.Grammatical cfg) (hr : Readable n)
    (hspelled : n.All (Node.Spelled strict cfg)) (hk : n.kind ∉ Kind.parts) :
    Written strict cfg pre (Writing.ofNode cfg sub) n := by
  cases hr with
  | @applied _ m lists hk' hp hspecialized h hdeclaration harguments =>
    have hm := h.grammatical hn
    have hsize := h.size_le
    refine applied hlimit h hn hspecialized hk' hp (fun c hc => ?_) fun l hl a ha => ?_
    · have hlt := Node.size_lt_of_mem_children hc
      have hspelled' : c.All (Node.Spelled strict cfg) :=
        (h.all hspelled fun _ _ _ _ => Node.Spelled.of_root).children c hc
      refine hbelow.written c (by omega) (hm.children c hc) (hdeclaration c hc) hspelled' ?_
      obtain ⟨context, name, hcontext, hname, heq⟩ := hm.root.eq_nominal (h.kind_mem_nominals hk')
      rw [heq] at hc
      rcases List.mem_cons.mp hc with rfl | hc
      · exact Kind.not_parts_of_mem_contextChildren _ hcontext
      · rw [List.mem_singleton.mp hc]
        exact Kind.not_parts_of_isDeclName hname
    · obtain ⟨hkind, hgrammatical, hlt⟩ := h.of_mem hn hn l hl a ha
      have hspelled' : a.All (Node.Spelled strict cfg) := (h.of_mem hn hspelled l hl a ha).2.1
      exact hbelow.written a hlt hgrammatical (harguments l hl a ha) hspelled'
        (by rw [hkind]; decide)
  | bare hbare hreadable =>
    exact BareOver.written hlimit hmax ⟨hbelow, hn, hbare, hreadable, hspelled⟩ hk

/-- A tree that obeys the grammar and is readable is written for its reader. -/
theorem mangleAt (hlimit : -1 ≤ cfg.maxRepeatCount) (hmax : cfg.maxWords ≤ 26) (fuel : Nat) :
    ∀ n, n.size ≤ fuel → n.Grammatical cfg → Readable n → n.All (Node.Spelled strict cfg) →
      n.kind ∉ Kind.parts → Written strict cfg pre (Writing.mangleAt cfg fuel) n := by
  induction fuel with
  | zero =>
    intro n hsize
    exact absurd n.size_pos (Nat.not_lt.mpr hsize)
  | succ fuel ih =>
    intro n hsize hn hr hspelled hk
    refine of_below hlimit hmax
      ⟨fun c hc hgrammatical hreadable hspelled' hkind => ?_, fun i hi => ?_⟩ hn hr hspelled hk
    · exact ih c (by omega) hgrammatical hreadable hspelled' hkind
    · obtain ⟨fuel, rfl⟩ : ∃ m, fuel = m + 1 := ⟨fuel - 1, by omega⟩
      rfl

end Written

end SwiftABI
