/-
  Trees whose generic arguments are all spelled.

  A tree is regular if generic arguments are applied to plain nominal types only and if no
  declarations but some nominal types and extensions lie in a context that has arguments
  (`Node.Regular`). The contexts of a declaration then make an `ArgumentChain`
  (`exists_argumentChain`), and a regular tree that has been read is readable
  (`Node.Regular.readable`).
-/
import SwiftABI.Proofs.Symbol.Readable

namespace SwiftABI

/-- The declarations that a symbol spells the generic arguments of their contexts for. -/
def Kind.spelledInside : List Kind :=
  [.structType, .classType, .enumType, .typeAlias, .extensionDecl]

namespace Kind

theorem spelledInside_cases : ∀ k ∈ spelledInside,
    Writing.separatesArguments k = true ∨ k = .extensionDecl := by decide

/-- All declarations but generic parameters are entities. -/
theorem declared_spec : ∀ k ∈ declared, k ≠ .genericTypeParamDecl →
    k.isEntity = true ∧ k ≠ .extensionDecl ∧ k ≠ .type := by decide

theorem not_boundGenerics_of_isContext {k : Kind} (h : k.isContext = true) : k ∉ boundGenerics := by
  have hall : ∀ k ∈ all.filter isContext, k ∉ boundGenerics := by decide
  exact hall k (List.mem_filter.mpr ⟨mem_all k, h⟩)

end Kind

namespace Node

/-- The context that a nominal type or an entity lies in, and for an extension the type that it
extends. A type wraps something, but does not lie in it. -/
def enclosing? (n : Node) : Option Node :=
  if n.kind = .extensionDecl then n.children[1]?
  else if n.kind.isEntity ∧ n.kind ≠ .type then n.children.head?
  else none

/-- The generic arguments of the node and of its context are spelled by a symbol. -/
structure Regular (n : Node) : Prop where
  function : n.kind ≠ .boundGenericFunction
  enclosing : ∀ c, n.enclosing? = some c → c.isSpecialized = true → n.kind ∈ Kind.spelledInside
  nominal : n.kind ∈ Kind.boundNominals → ∀ t ∈ n.children, t.kind = .type →
    t.unwrapped.kind.bound? = some n.kind
  protocols : n.kind = .protocolList → ∀ l ∈ n.children, ∀ p ∈ l.children,
    p.unwrapped.kind = .protocolType

instance (n : Node) : Decidable n.Regular :=
  decidable_of_iff (n.kind ≠ .boundGenericFunction ∧
    (∀ c ∈ n.enclosing?, c.isSpecialized = true → n.kind ∈ Kind.spelledInside) ∧
    (n.kind ∈ Kind.boundNominals → ∀ t ∈ n.children, t.kind = .type →
      t.unwrapped.kind.bound? = some n.kind) ∧
    (n.kind = .protocolList → ∀ l ∈ n.children, ∀ p ∈ l.children, p.unwrapped.kind = .protocolType))
    ⟨fun h => ⟨h.1, h.2.1, h.2.2.1, h.2.2.2⟩,
      fun h => ⟨h.function, h.enclosing, h.nominal, h.protocols⟩⟩

variable {cfg : Config} {k : Kind} {p : Payload} {n c : Node} {cs : List Node}

/-! ### Contexts -/

theorem enclosing?_entity (hentity : k.isEntity = true) (hk : k ≠ .extensionDecl ∧ k ≠ .type) :
    (mk k p (c :: cs)).enclosing? = some c := by
  show (if k = .extensionDecl then _ else if k.isEntity ∧ k ≠ .type then some c else none) = _
  rw [if_neg hk.1, if_pos ⟨hentity, hk.2⟩]

theorem enclosing?_context (hk : k ∈ Kind.nominals ∨ k ∈ Kind.declaredFirst) :
    (mk k p (c :: cs)).enclosing? = some c := by
  have hall : ∀ k ∈ Kind.nominals ++ Kind.declaredFirst,
      k.isEntity = true ∧ k ≠ .extensionDecl ∧ k ≠ .type := by decide
  obtain ⟨hentity, hne⟩ := hall k (List.mem_append.mpr hk)
  exact enclosing?_entity hentity hne

/-- Only declarations are specialized. -/
theorem isSpecialized_of_not_mem (hbound : n.kind ∉ Kind.boundGenerics)
    (hdeclared : ¬(n.kind ∈ Kind.nominals ∨ n.kind ∈ Kind.declaredFirst))
    (hext : n.kind ≠ .extensionDecl) :
    n.isSpecialized = false := by
  rcases n with ⟨k, p, cs⟩
  change k ∉ Kind.boundGenerics at hbound
  change ¬(k ∈ Kind.nominals ∨ k ∈ Kind.declaredFirst) at hdeclared
  change k ≠ .extensionDecl at hext
  rcases cs with _ | ⟨c, _ | ⟨d, cs⟩⟩
  · exact decide_eq_false hbound
  · simp only [isSpecialized, if_neg hbound, if_neg hdeclared, if_neg hext]
  · simp only [isSpecialized, if_neg hbound, if_neg hdeclared, if_neg hext]

theorem Regular.not_mem_boundGenerics (h : n.Regular) (hk : n.kind ∉ Kind.boundNominals) :
    n.kind ∉ Kind.boundGenerics := by
  intro hmem
  rcases List.mem_append.mp hmem with hmem | hmem
  · exact hk hmem
  · exact h.function (List.mem_singleton.mp hmem)

/-- A declaration in a context without generic arguments is regular. -/
theorem Regular.of_context (hk : k ∈ Kind.nominals ∨ k ∈ Kind.declaredFirst)
    (hc : c.isSpecialized = false) :
    (Node.mk k p (c :: cs)).Regular := by
  have hall : ∀ k ∈ Kind.nominals ++ Kind.declaredFirst,
      k ≠ .boundGenericFunction ∧ k ∉ Kind.boundNominals ∧ k ≠ .protocolList := by decide
  obtain ⟨hfunction, hbound, hlist⟩ := hall k (List.mem_append.mpr hk)
  refine ⟨hfunction, fun d hd hspecialized => ?_, fun h => absurd h hbound, fun h => absurd h hlist⟩
  rw [enclosing?_context hk] at hd
  cases hd
  rw [hc] at hspecialized
  cases hspecialized

/-- Other declarations than those lie in no context with generic arguments. -/
theorem Regular.not_specialized (h : n.Regular) (hk : n.kind ∉ Kind.spelledInside)
    (hc : n.enclosing? = some c) :
    c.isSpecialized = false := by
  rcases hspecialized : c.isSpecialized with _ | _
  · rfl
  · exact absurd (h.enclosing c hc hspecialized) hk

end Node

/-! ### Chains of arguments -/

namespace ArgumentChain

variable {full : Bool} {n m : Node} {lists : List (List Node)} {cfg : Config}

/-- A regular declaration is regular without its arguments, too. -/
theorem regular (h : ArgumentChain full n m lists) (hn : n.All Node.Regular) :
    m.All Node.Regular := by
  -- Only the context changes, and it has no arguments any more.
  have hcontext : ∀ {k : Kind} {p : Payload} {c c' : Node} {cs : List Node},
      k ∈ Kind.nominals ∨ k ∈ Kind.declaredFirst → (Node.mk k p (c :: cs)).All Node.Regular →
        c'.isSpecialized = false → c'.All Node.Regular →
        (Node.mk k p (c' :: cs)).All Node.Regular := by
    intro k p c c' cs hk hall hc hc'
    refine .mk (.of_context hk hc) fun d hd => ?_
    rcases List.mem_cons.mp hd with rfl | hd
    · exact hc'
    · exact hall.children d (List.mem_cons_of_mem _ hd)
  induction h with
  | stop => exact hn
  | @nominal _ k context context' name _ hk h ih =>
    exact hcontext (.inl (Kind.separatesArguments_spec hk).1) hn h.isSpecialized_eq_false
      (ih (hn.children context List.mem_cons_self))
  | @entity k p context context' cs _ hk h ih =>
    exact hcontext (.inr hk) hn h.isSpecialized_eq_false
      (ih (hn.children context List.mem_cons_self))
  | @extension _ md extended extended' _ h ih =>
    have hmem : extended ∈ (Node.mk .extensionDecl .none [md, extended]).children := by
      simp [Node.children]
    have hspelled : Kind.extensionDecl ∈ Kind.spelledInside := by decide
    have hbound : Kind.extensionDecl ∉ Kind.boundNominals := by decide
    refine .mk ⟨fun h => ?_, fun _ _ _ => hspelled, fun h => absurd h hbound, fun h => ?_⟩
      fun c hc => ?_
    · cases h
    · cases h
    rcases List.mem_cons.mp hc with rfl | hc
    · exact hn.children c List.mem_cons_self
    · rw [List.mem_singleton.mp hc]
      exact ih (hn.children extended hmem)
  | @bound _ k bound context context' name arguments _ hk h ih =>
    have hdeclaration := (hn.children _ List.mem_cons_self).children (.mk k .none [context, name])
      (List.mem_singleton_self _)
    exact hcontext (.inl (Kind.bound?_spec hk).1) hdeclaration h.isSpecialized_eq_false
      (ih (hdeclaration.children context List.mem_cons_self))
  | @boundFunction => exact absurd rfl hn.root.function

end ArgumentChain

namespace Node

variable {cfg : Config}

/-- A declaration begins with its context. -/
theorem Rule.eq_declared {n : Node} (h : n.Rule cfg)
    (hk : n.kind ∈ Kind.nominals ∨ n.kind ∈ Kind.declaredFirst) :
    ∃ p c cs, n = .mk n.kind p (c :: cs) := by
  have hall : ∀ k ∈ Kind.nominals ++ Kind.declaredFirst, 1 ≤ k.minChildren := by decide
  have hcount := h.minChildren_le
  have hpos := hall n.kind (List.mem_append.mpr hk)
  rcases n with ⟨k, p, _ | ⟨c, cs⟩⟩
  · change k.minChildren ≤ 0 at hcount
    change 1 ≤ k.minChildren at hpos
    omega
  · exact ⟨p, c, cs, rfl⟩

/-- A regular nominal type with arguments has a chain if its context has one. -/
private theorem exists_argumentChain_bound {n : Node} (hn : n.Grammatical cfg)
    (hregular : n.All Regular) (hk : n.kind ∈ Kind.boundNominals) (full : Bool)
    (hbelow : ∀ c, c.size < n.size → c.Grammatical cfg → c.All Regular →
      ∀ full, ∃ m lists, ArgumentChain full c m lists) :
      ∃ m lists, ArgumentChain full n m lists := by
  obtain ⟨nominal, arguments, -, -, -, heq⟩ := hn.root.eq_boundNominal hk
  have hkind := hregular.root.nominal hk nominal.typeOf (by rw [heq]; exact List.mem_cons_self) rfl
  change nominal.kind.bound? = some n.kind at hkind
  generalize n.kind = bound at hkind heq
  subst heq
  have hnominal := (hn.children _ List.mem_cons_self).children nominal (List.mem_singleton_self _)
  obtain ⟨context, name, -, -, heq⟩ := hnominal.root.eq_nominal (Kind.bound?_spec hkind).1
  generalize nominal.kind = k at hkind heq
  subst heq
  have hmem : context ∈ (Node.mk k .none [context, name]).children := List.mem_cons_self
  have hlt : context.size < (Node.mk bound .none
      [typeOf (.mk k .none [context, name]), .mk .typeList .none arguments]).size := by
    simp only [Node.size, Node.sizeAll, typeOf]
    omega
  obtain ⟨context', lists, h⟩ := hbelow context hlt (hnominal.children context hmem)
    (((hregular.children _ List.mem_cons_self).children _ (List.mem_singleton_self _)).children
      context hmem) (full || bound = .boundGenericTypeAlias)
  exact ⟨_, _, .bound hkind h⟩

/-- A regular node whose arguments are not spelled inside has none, and the chain goes on only if
all arguments are wanted. -/
private theorem exists_argumentChain_plain {n : Node} (hn : n.Rule cfg) (hregular : n.Regular)
    (hbound : n.kind ∉ Kind.boundNominals) (hseparates : Writing.separatesArguments n.kind = false)
    (hext : n.kind ≠ .extensionDecl) (full : Bool)
    (hbelow : ∀ c ∈ n.children, ∃ m lists, ArgumentChain true c m lists) :
    ∃ m lists, ArgumentChain full n m lists := by
  have hplain : n.kind ∉ Kind.spelledInside := fun hmem => by
    rcases Kind.spelledInside_cases _ hmem with h | h
    · rw [hseparates] at h
      cases h
    · exact hext h
  have hbounds := hregular.not_mem_boundGenerics hbound
  by_cases hdeclared : n.kind ∈ Kind.nominals ∨ n.kind ∈ Kind.declaredFirst
  · obtain ⟨p, c, cs, heq⟩ := hn.eq_declared hdeclared
    have hspecialized : n.isSpecialized = false := by
      have henclosing : n.enclosing? = some c := by
        rw [heq]
        exact enclosing?_context hdeclared
      rw [heq, isSpecialized_context hdeclared hbounds]
      exact hregular.not_specialized hplain henclosing
    by_cases hentity : n.kind ∈ Kind.declaredFirst → full = false
    · exact ⟨n, [], .stop hspecialized hseparates hext hentity⟩
    -- The context of such a declaration has no arguments, but it is asked for them if all are
    -- wanted.
    · have hfirst : n.kind ∈ Kind.declaredFirst :=
        Decidable.of_not_not fun hk => hentity fun h => absurd h hk
      have hfull : full = true := by
        rw [← Bool.not_eq_false]
        exact fun hfalse => hentity fun _ => hfalse
      subst hfull
      obtain ⟨c', lists, h⟩ := hbelow c (by rw [heq]; exact List.mem_cons_self)
      rw [heq]
      exact ⟨_, _, .entity hfirst h⟩
  · exact ⟨n, [], .stop (isSpecialized_of_not_mem hbounds hdeclared hext) hseparates hext
      fun hk => absurd (.inr hk) hdeclared⟩

/-- The arguments along the contexts of a regular declaration make a chain. -/
theorem exists_argumentChain (limit : Nat) :
    ∀ (n : Node) (full : Bool), n.size ≤ limit → n.Grammatical cfg →
    n.All Regular → ∃ m lists, ArgumentChain full n m lists := by
  -- By induction on a bound of the size: behind arguments, the chain goes on further below than in
  -- a child.
  induction limit with
  | zero =>
    intro n _ hsize
    exact absurd n.size_pos (Nat.not_lt.mpr hsize)
  | succ limit ih =>
    intro n full hsize hn hregular
    have hsmaller : ∀ c, c.size < n.size → c.Grammatical cfg → c.All Regular →
        ∀ full, ∃ m lists, ArgumentChain full c m lists := fun c hlt hc hc' full =>
        ih c full (by omega) hc hc'
    have hbelow : ∀ c ∈ n.children, ∀ full, ∃ m lists, ArgumentChain full c m lists := fun c hc =>
      hsmaller c (size_lt_of_mem_children hc) (hn.children c hc) (hregular.children c hc)
    by_cases hbound : n.kind ∈ Kind.boundNominals
    · exact exists_argumentChain_bound hn hregular hbound full hsmaller
    by_cases hseparates : Writing.separatesArguments n.kind = true
    · obtain ⟨context, name, -, -, heq⟩ :=
        hn.root.eq_nominal (Kind.separatesArguments_spec hseparates).1
      obtain ⟨context', lists, h⟩ := hbelow context (by rw [heq]; exact List.mem_cons_self)
        (full || n.kind = .typeAlias)
      rw [heq]
      exact ⟨_, _, .nominal hseparates h⟩
    by_cases hext : n.kind = .extensionDecl
    · obtain ⟨m, extended, -, -, heq⟩ := hn.root.eq_extension hext
      obtain ⟨extended', lists, h⟩ := hbelow extended (by rw [heq]; simp [children]) full
      rw [heq]
      exact ⟨_, _, .extension h⟩
    · exact exists_argumentChain_plain hn.root hregular.root hbound
        (Bool.not_eq_true _ ▸ hseparates) hext full fun c hc => hbelow c hc true

/-! ### Readable trees -/

/-- The node is no extension of a type with generic arguments. -/
def ExtendsPlain (n : Node) : Prop :=
  n.kind = .extensionDecl → ∀ c ∈ n.children, c.kind ∉ Kind.boundGenerics

variable {n c : Node}

theorem ExtendsPlain.of_nominals (hn : n.Rule cfg)
    (h : ∀ p m e, n = .mk .extensionDecl p [m, e] → e.kind ∈ Kind.nominals) : n.ExtendsPlain := by
  intro hk
  obtain ⟨m, e, hm, -, heq⟩ := hn.eq_extension hk
  have he := (Kind.nominals_spec _ (h _ _ _ heq)).2
  rw [heq]
  refine List.forall_mem_cons.mpr ⟨?_, List.forall_mem_singleton.mpr he⟩
  rw [hm]
  decide

theorem ExtendsPlain.of_not_specialized (hn : n.Rule cfg) (h : n.isSpecialized = false) :
    n.ExtendsPlain := by
  intro hk
  obtain ⟨m, e, hm, -, heq⟩ := hn.eq_extension hk
  rw [heq, isSpecialized_extension] at h
  rw [heq]
  refine List.forall_mem_cons.mpr ⟨?_, List.forall_mem_singleton.mpr fun he => ?_⟩
  · rw [hm]
    decide
  · rw [isSpecialized_of_mem he] at h
    cases h

/-- An extension is below a declaration in it, or it is one that could lie on the stack. -/
theorem Rule.extension_below (h : n.Rule cfg) (hc : c ∈ n.children) (hk : c.kind = .extensionDecl) :
    n.enclosing? = some c ∨ ∀ p m e, c = .mk .extensionDecl p [m, e] → e.kind ∈ Kind.nominals := by
  by_cases hdeclared : n.kind ∈ Kind.declared
  · obtain ⟨context, rest, heq, hrest, hgeneric⟩ := h.eq_cons_context hdeclared
    have hfirst : c = context := by
      rw [heq] at hc
      rcases List.mem_cons.mp hc with hc | hc
      · exact hc
      · exact absurd (by rw [hk]; decide) (hrest c hc)
    subst hfirst
    by_cases hparam : n.kind = .genericTypeParamDecl
    · exact .inr (hgeneric hparam).extended
    · obtain ⟨hentity, hne⟩ := Kind.declared_spec _ hdeclared hparam
      rw [heq]
      exact .inl (enclosing?_entity hentity hne)
  -- Apart from declarations, only three kinds of nodes can hold an extension.
  · have hholder : n.kind ∈ [Kind.staticDecl, .enumCase, .fieldOffset] := by
      have hall : ∀ k ∈ Kind.all, k ≠ .global →
        ∀ s ∈ k.slots.getD [], s.accepts .extensionDecl = true →
          k ∈ Kind.declared ++ [.staticDecl, .enumCase, .fieldOffset] := by decide +kernel
      obtain ⟨s, hs, haccepts⟩ := h.fits.exists_slot hc
      rw [hk] at haccepts
      have hmem := hall n.kind (Kind.mem_all _) h.kind_ne_global s hs haccepts
      exact (List.mem_append.mp hmem).resolve_left hdeclared
    have hother {ks : List Kind} (hks : ∀ k ∈ ks, k ∉ [Kind.staticDecl, .enumCase, .fieldOffset])
      {k : Kind} (hk' : k ∈ ks) : k ∉ [Kind.staticDecl, .enumCase, .fieldOffset] := hks k hk'
    cases h with
    | staticDecl hentity hnominal hmodule =>
      rw [List.mem_singleton.mp hc]
      exact .inl (enclosing?_entity rfl (by decide))
    | enumCase hentity hstack =>
      rw [List.mem_singleton.mp hc]
      exact .inr hstack.extended
    | fieldOffset hi hentity hstack =>
      rcases List.mem_cons.mp hc with rfl | hc
      · cases hk
      · rw [List.mem_singleton.mp hc]
        exact .inr hstack.extended
    | name hk' | operatorName hk' | number hk' | nominal hk' | boundNominal hk'
    | declaration hk' | unnamed hk' | bareScope hk' | closure hk' | accessor hk'
    | functionType hk' | aroundType hk' | passing hk' | metatype hk' | marker hk' =>
      exact absurd hholder (hother (by decide) hk')
    | _ => exact absurd hholder (of_decide_eq_false rfl)

/-- Where nothing has to be spelled for a regular node, nothing is applied to its context. -/
theorem Regular.enclosing_of_bare (h : n.Regular) (hn : n.Rule cfg) (hk : n.kind ≠ .extensionDecl)
    (hbare : n.kind ∈ Kind.spelledInside → n.isSpecialized = false) (hc : n.enclosing? = some c) :
    c.isSpecialized = false := by
  by_cases hinside : n.kind ∈ Kind.spelledInside
  · have hspelled : ∀ k ∈ Kind.spelledInside, k ≠ .extensionDecl → k ∈ Kind.nominals := by decide
    have hnominal := hspelled _ hinside hk
    have hspecialized := hbare hinside
    obtain ⟨context, name, -, -, heq⟩ := hn.eq_nominal hnominal
    rw [heq] at hc hspecialized
    rw [enclosing?_context (.inl hnominal)] at hc
    rw [isSpecialized_context (.inl hnominal) (Kind.nominals_spec _ hnominal).2] at hspecialized
    cases hc
    exact hspecialized
  · exact h.not_specialized hinside hc

/-- The arguments of the node and of its contexts have to be spelled. -/
def SpellsArguments (n : Node) : Prop :=
  n.kind ∈ Kind.nominals ++ Kind.boundNominals ∧ n.kind ≠ .protocolType ∧ n.isSpecialized = true

/-- Where no arguments have to be spelled for a regular node, nothing is applied to it and its
context. -/
theorem Regular.bare (h : n.Regular) (hn : n.Rule cfg) (hextends : n.ExtendsPlain)
    (hspells : ¬n.SpellsArguments) :
    n.Bare ∧ ∀ c ∈ n.children, c.Rule cfg → c.ExtendsPlain := by
  have hbound : n.kind ∉ Kind.boundGenerics := by
    refine h.not_mem_boundGenerics fun hmem => hspells ⟨List.mem_append_right _ hmem, ?_, ?_⟩
    · intro hk
      rw [hk] at hmem
      exact absurd hmem (by decide)
    · exact isSpecialized_of_mem (List.mem_append_left _ hmem)
  have hnominal : n.kind ∈ Kind.nominals → n.kind ≠ .protocolType → n.isSpecialized = false := by
    intro hk hp
    rw [← Bool.not_eq_true]
    exact fun hspecialized => hspells ⟨List.mem_append_left _ hk, hp, hspecialized⟩
  have henclosing : ∀ c, n.enclosing? = some c → n.kind ≠ .extensionDecl →
      c.isSpecialized = false := by
    have hinside : ∀ k ∈ Kind.spelledInside, k ≠ .extensionDecl → k ∈ Kind.nominals ∧
        k ≠ .protocolType := by
      decide
    intro c hc hext
    refine h.enclosing_of_bare hn hext (fun hk => ?_) hc
    obtain ⟨hk, hp⟩ := hinside _ hk hext
    exact hnominal hk hp
  refine ⟨⟨hbound, hnominal, fun hk c hc => ?_, hextends, h.protocols⟩, fun c hc hrule hk => ?_⟩
  · obtain ⟨context, rest, heq, -, hgeneric⟩ := hn.eq_cons_context hk
    have hfirst : context = c := by
      rw [heq] at hc
      exact Option.some.inj hc
    subst hfirst
    by_cases hparam : n.kind = .genericTypeParamDecl
    · exact Kind.not_boundGenerics_of_isContext (hgeneric hparam).kind
    · obtain ⟨hentity, hne⟩ := Kind.declared_spec _ hk hparam
      have hcontext := henclosing context (by rw [heq]; exact enclosing?_entity hentity hne) hne.1
      intro hmem
      rw [isSpecialized_of_mem hmem] at hcontext
      cases hcontext
  · by_cases hext : n.kind = .extensionDecl
    · -- What an extension extends is none.
      obtain ⟨m, extended, hm, hextended, heq⟩ := hn.eq_extension hext
      have hkinds : ∀ k ∈ Kind.nominals ++ Kind.boundNominals, k ≠ .extensionDecl := by decide
      rw [heq] at hc
      rcases List.mem_cons.mp hc with rfl | hc
      · rw [hm] at hk
        cases hk
      · rw [List.mem_singleton.mp hc] at hk
        exact absurd hk (hkinds _ hextended)
    · rcases hn.extension_below hc hk with hcontext | hnominals
      · exact ExtendsPlain.of_not_specialized hrule (henclosing c hcontext hext) hk
      · exact ExtendsPlain.of_nominals hrule hnominals hk

/-- A declaration without its arguments is no extension of a type with some, and has none below
it. -/
theorem extendsPlain_of_mem_children (hn : n.Grammatical cfg) (hk : n.kind ∈ Kind.nominals)
    (hspecialized : n.isSpecialized = false) : ∀ c ∈ n.children, c.ExtendsPlain := by
  obtain ⟨context, name, -, hname, heq⟩ := hn.root.eq_nominal hk
  intro c hc
  have hrule := (hn.children c hc).root
  rw [heq] at hc hspecialized
  rw [isSpecialized_context (.inl hk) (Kind.nominals_spec _ hk).2] at hspecialized
  rcases List.mem_cons.mp hc with rfl | hc
  · exact .of_not_specialized hrule hspecialized
  · intro hext
    rw [List.mem_singleton.mp hc] at hext
    rw [hext] at hname
    cases hname

/-- A regular tree that obeys the grammar is readable, unless it is an extension of a type with
arguments. -/
theorem Regular.readable (limit : Nat) :
    ∀ n : Node, n.size ≤ limit → n.Grammatical cfg → n.All Regular →
    n.ExtendsPlain → Readable n := by
  -- By induction on a bound of the size, since arguments are not always children of what they are
  -- applied to.
  induction limit with
  | zero =>
    intro n hsize
    exact absurd n.size_pos (Nat.not_lt.mpr hsize)
  | succ limit ih =>
    intro n hsize hn hregular hextends
    by_cases hspells : n.SpellsArguments
    · obtain ⟨hk, hp, hspecialized⟩ := hspells
      obtain ⟨m, lists, h⟩ := exists_argumentChain n.size n false (Nat.le_refl _) hn hregular
      have hm := h.grammatical hn
      have hbelow := extendsPlain_of_mem_children hm
        (h.kind_mem_nominals hk) h.isSpecialized_eq_false
      refine .applied hk hp hspecialized h (fun c hc => ?_) fun l hl a ha => ?_
      · have hlt := size_lt_of_mem_children hc
        have hle := h.size_le
        exact ih c (by omega) (hm.children c hc) ((h.regular hregular).children c hc) (hbelow c hc)
      · obtain ⟨htype, ha', hlt⟩ := h.of_mem hn (hn.and hregular) l hl a ha
        refine ih a (by omega) (ha'.mono fun _ h => h.1) (ha'.mono fun _ h => h.2) fun hext => ?_
        rw [htype] at hext
        cases hext
    · obtain ⟨hbare, hbelow⟩ := hregular.root.bare hn.root hextends hspells
      have hchildren : ∀ c ∈ n.children, Readable c := by
        intro c hc
        have hlt := size_lt_of_mem_children hc
        have hgrammatical := hn.children c hc
        exact ih c (by omega) hgrammatical (hregular.children c hc) (hbelow c hc hgrammatical.root)
      rcases n with ⟨k, p, cs⟩
      exact .bare hbare hchildren

end Node

end SwiftABI
