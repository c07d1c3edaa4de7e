/-
  Writing generic arguments, and the nominal types that they are applied to.

  The writer goes along the contexts of a declaration as an `ArgumentChain` does. It answers with
  the separator for the next list, so what it answers with is told apart here from what it makes of
  the stack (`Yields`).
-/
import SwiftABI.Proofs.Symbol.Operators.Applied
import SwiftABI.Proofs.Symbol.Written.Basic

namespace SwiftABI

/-- The steps give a certain result and turn one view into another, unless they fail. If `strict`
holds, they do not fail. -/
def Yields {α : Type} (strict : Prop) (cfg : Config) (pre : Text) (x : Writing α) (v : View) (a : α)
    (v' : View) : Prop :=
  ∀ d, InStep cfg pre d v → (∃ d', x.outcome d = (.ok a, d') ∧ InStep cfg pre d' v') ∨
    ¬strict ∧ ∃ e d', x.outcome d = (.error e, d')

namespace Yields

variable {strict : Prop} {cfg : Config} {pre : Text} {α β : Type} {v v' v'' : View} {x : Writing α}
  {f : α → Writing β} {a : α} {b : β}

theorem pure (a : α) (v : View) : Yields strict cfg pre (Pure.pure a) v a v := fun d hd =>
  .inl ⟨d, Writing.outcome_pure a d, hd⟩

theorem bind (hx : Yields strict cfg pre x v a v') (hf : Yields strict cfg pre (f a) v' b v'') :
    Yields strict cfg pre (x >>= f) v b v'' := by
  intro d hd
  rw [Writing.outcome_bind]
  rcases hx d hd with ⟨d₁, hfirst, hd₁⟩ | ⟨hstrict, e, d₁, hfault⟩
  · rw [hfirst]
    exact hf d₁ hd₁
  · rw [hfault]
    exact .inr ⟨hstrict, e, d₁, rfl⟩

theorem andThen (hx : Turns strict cfg pre x v fun _ => v')
    (hf : ∀ a, Yields strict cfg pre (f a) v' b v'') : Yields strict cfg pre (x >>= f) v b v'' := by
  intro d hd
  rw [Writing.outcome_bind]
  rcases hx d hd with ⟨a', d₁, hfirst, hd₁⟩ | ⟨hstrict, e, d₁, hfault⟩
  · rw [hfirst]
    exact hf a' d₁ hd₁
  · rw [hfault]
    exact .inr ⟨hstrict, e, d₁, rfl⟩

end Yields

/-! ### Generic arguments -/

theorem listsOn_cons (s l : List Node) (lists : List (List Node)) :
    listsOn s (l :: lists)
      = l.reverse ++ (if lists.isEmpty then Node.emptyMark else Node.firstMark) ::
      listsOn s lists := by
  cases lists <;> rfl

/-- What stands in front of the next list, after some lists have been written. -/
def separatorAfter (lists : List (List Node)) : CodePoint := if lists.isEmpty then 'y' else '_'

section

variable {strict : Prop} {cfg : Config} {pre : Text} {sub : Node → Writing Unit} {s : List Node}
  {full : Bool} {n m : Node} {lists : List (List Node)}

/-- A mark stands between a list and those of the contexts. -/
private theorem turns_separator : Turns strict cfg pre (Writing.emit [separatorAfter lists])
    ⟨listsOn s lists, []⟩
      fun _ =>
      ⟨(if lists.isEmpty then Node.emptyMark else Node.firstMark) :: listsOn s lists, []⟩ := by
  have hempty : Operates cfg "y".text (listsOn s lists) (Node.emptyMark :: listsOn s lists) :=
    Operates.marker (k := .emptyList) (by decide) rfl
  have hfirst : Operates cfg "_".text (listsOn s lists) (Node.firstMark :: listsOn s lists) :=
    Operates.marker (k := .firstElementMarker) (by decide) rfl
  unfold separatorAfter
  rcases lists.isEmpty with _ | _
  · exact .emit hfirst (List.cons_ne_nil _ _)
  · exact .emit hempty (List.cons_ne_nil _ _)

private theorem yields_separator :
    Yields strict cfg pre (do
        Writing.emit [separatorAfter lists]
        return CodePoint.char '_') ⟨listsOn s lists, []⟩ '_' ⟨listsOn s ([] :: lists), []⟩ := by
  refine .andThen turns_separator fun _ => ?_
  rw [listsOn_cons]
  exact .pure _ _

/-- A list is written behind those of the contexts. -/
private theorem yields_list {l : List Node} (hl : ∀ a ∈ l, a.kind = .type)
    (hsub : ∀ a ∈ l, Written strict cfg pre sub a) :
    Yields strict cfg pre (do
        Writing.emit [separatorAfter lists]
        Writing.each sub l
        return CodePoint.char '_') ⟨listsOn s lists, []⟩ '_' ⟨listsOn s (l :: lists), []⟩ := by
  refine .andThen turns_separator fun _ => .andThen (.each hsub) fun _ => ?_
  rw [Node.stackedOn_plain fun t ht => by rw [hl t ht]; decide, ← listsOn_cons]
  exact .pure _ _

/-- Where nothing is applied and nothing separates the lists, nothing is written. -/
private theorem genericArguments_stop (hn : n.isSpecialized = false)
    (hseparates : Writing.separatesArguments n.kind = false) (hextension : n.kind ≠ .extensionDecl)
    (hentity : n.kind ∈ Kind.declaredFirst → full = false) (fuel : Nat) (separator : CodePoint) :
    Writing.genericArguments sub fuel n separator full = pure separator := by
  have hbound : n.kind ∉ Kind.boundGenerics := by
    intro hk
    rw [Node.isSpecialized_of_mem hk] at hn
    cases hn
  have hnominal : n.kind ∉ Kind.boundNominals := fun hk => hbound (List.mem_append_left _ hk)
  have hfunction : n.kind ≠ .boundGenericFunction := fun hk => hbound (by rw [hk]; decide)
  cases fuel with
  | zero => rfl
  | succ fuel =>
    unfold Writing.genericArguments
    rw [if_neg (by rw [hseparates]; decide), if_neg hnominal, if_neg hfunction, if_neg hextension]
    split
    · rename_i hk
      rw [hentity hk]
      rfl
    · rfl

/-- The lists of a declaration are written, the outermost first. -/
theorem Yields.genericArguments (h : ArgumentChain full n m lists) (hn : n.Grammatical cfg)
    (hsub : ∀ l ∈ lists, ∀ a ∈ l, Written strict cfg pre sub a) :
    ∀ fuel, n.size ≤ fuel → Yields strict cfg pre
      (Writing.genericArguments sub fuel n 'y' full) ⟨s, []⟩
      (separatorAfter lists) ⟨listsOn s lists, []⟩ := by
  have hbelow : ∀ {l : List Node} {lists : List (List Node)},
      (∀ l' ∈ l :: lists, ∀ a ∈ l', Written strict cfg pre sub a) →
        ∀ l' ∈ lists, ∀ a ∈ l', Written strict cfg pre sub a := fun h l' hl' =>
        h l' (List.mem_cons_of_mem _ hl')
  have hfuel : ∀ {n : Node} {fuel : Nat}, n.size ≤ fuel → ∃ m, fuel = m + 1 := fun {n _} h =>
    Nat.exists_eq_add_one.mpr (Nat.lt_of_lt_of_le n.size_pos h)
  -- By induction on the chain, since the lists of a context are written before those of what is in
  -- it.
  induction h with
  | stop hspecialized hseparates hextension hentity =>
    intro fuel _
    rw [genericArguments_stop hspecialized hseparates hextension hentity]
    exact .pure _ _
  | @nominal full k context context' name lists hk h ih =>
    intro fuel hsize
    obtain ⟨fuel, rfl⟩ := hfuel hsize
    simp only [Node.size, Node.sizeAll] at hsize
    have hcontext := ih (hn.children context List.mem_cons_self) (hbelow hsub) fuel (by omega)
    show Yields strict cfg pre (if Writing.separatesArguments k then _ else _) _ _ _
    rw [if_pos hk]
    refine (Yields.pure context _).bind (hcontext.bind ?_)
    exact yields_separator
  | @entity k p context context' cs lists hk h ih =>
    intro fuel hsize
    obtain ⟨fuel, rfl⟩ := hfuel hsize
    simp only [Node.size, Node.sizeAll] at hsize
    have hseparates : ∀ k ∈ Kind.declaredFirst, Writing.separatesArguments k = false := by decide
    show Yields strict cfg pre
        (if Writing.separatesArguments k then _ else if k ∈ Kind.declaredFirst then do
      let separator ← Writing.genericArguments sub fuel context 'y' true
      if k.consumesGenericArgs then
        Writing.emit [separator]
        return CodePoint.char '_'
      else return separator
      else _) _ _ _
    rw [if_neg (by rw [hseparates k hk]; decide), if_pos hk]
    split
    · rename_i hconsumes
      rw [if_pos hconsumes] at hsub
      have hcontext := ih (hn.children context List.mem_cons_self) (hbelow hsub) fuel (by omega)
      refine hcontext.bind ?_
      exact yields_separator
    -- Without arguments of its own, a declaration hands on the separator that its context has ended
    -- with.
    · rename_i hconsumes
      rw [if_neg hconsumes] at hsub
      have hcontext := ih (hn.children context List.mem_cons_self) hsub fuel (by omega)
      refine hcontext.bind ?_
      exact .pure _ _
  | @extension full md extended extended' lists h ih =>
    intro fuel hsize
    obtain ⟨fuel, rfl⟩ := hfuel hsize
    simp only [Node.size, Node.sizeAll] at hsize
    have hextended : extended ∈ (Node.mk .extensionDecl .none [md, extended]).children := by
      simp [Node.children]
    exact (Yields.pure extended _).bind (ih (hn.children extended hextended) hsub fuel (by omega))
  | @bound full k bound context context' name arguments lists hk h ih =>
    intro fuel hsize
    obtain ⟨fuel, rfl⟩ := hfuel hsize
    simp only [Node.typeOf, Node.size, Node.sizeAll] at hsize
    obtain ⟨-, hbound, -⟩ := Kind.bound?_spec hk
    obtain ⟨_, _, -, -, harguments, heq⟩ := hn.root.eq_boundNominal hbound
    cases heq
    have hdeclaration := (hn.children _ List.mem_cons_self).children (.mk k .none [context, name])
      (List.mem_singleton_self _)
    have hcontext := ih (hdeclaration.children context List.mem_cons_self) (hbelow hsub) fuel
      (by omega)
    have hother : ∀ k ∈ Kind.boundNominals,
        Writing.separatesArguments k = false ∧ k ∉ Kind.declaredFirst := by decide
    obtain ⟨hseparates, hdeclared⟩ := hother bound hbound
    show Yields strict cfg pre
      (if Writing.separatesArguments bound then _ else if bound ∈ Kind.declaredFirst then _
      else if bound ∈ Kind.boundNominals then _ else _) _ _ _
    rw [if_neg (by rw [hseparates]; decide), if_neg hdeclared, if_pos hbound]
    exact hcontext.bind (yields_list harguments (hsub arguments List.mem_cons_self))
  | @boundFunction full k p context context' cs arguments lists hk h ih =>
    intro fuel hsize
    obtain ⟨fuel, rfl⟩ := hfuel hsize
    simp only [Node.size, Node.sizeAll] at hsize
    obtain ⟨_, _, -, -, harguments, heq⟩ := hn.root.eq_boundFunction rfl
    cases heq
    have hfunction := hn.children (.mk k p (context :: cs)) List.mem_cons_self
    have hcontext := ih (hfunction.children context List.mem_cons_self) (hbelow hsub) fuel
      (by omega)
    exact hcontext.bind (yields_list harguments (hsub arguments List.mem_cons_self))

end

/-! ### Nominal types -/

theorem Kind.types_of_mem : ∀ k ∈ nominals ++ boundNominals, k ∈ types := by decide

theorem Kind.ne_type_of_mem_types : ∀ k ∈ types, k ≠ .type := by decide

/-- The letters of nominal types. -/
theorem Code.nominalSuffix?_isSome :
    ∀ k ∈ Kind.nominals, ∃ suffix, nominalSuffix? k = some suffix := by
  intro k hk
  refine Option.isSome_iff_exists.mp ?_
  revert k
  decide

namespace Turns

variable {strict : Prop} {cfg : Config} {pre : Text} {sub : Node → Writing Unit} {s : List Node}
  {n m : Node}

/-- Where only the effect of some steps matters, their answer is dropped. -/
theorem discard {α : Type} {x : Writing α} {v v' : View} {a : α}
    (h : Yields strict cfg pre x v a v') :
    Turns strict cfg pre (discard x) v fun _ => v' := by
  rw [Writing.discard_eq_bind]
  intro d hd
  rw [Writing.outcome_bind]
  rcases h d hd with ⟨d₁, hfirst, hd₁⟩ | ⟨hstrict, e, d₁, hfault⟩
  · rw [hfirst]
    exact .inl ⟨(), d₁, rfl, hd₁⟩
  · rw [hfault]
    exact .inr ⟨hstrict, e, d₁, rfl⟩

/-- A type is registered as a tree. -/
theorem treeOr {write : Writing Unit} (hlimit : -1 ≤ cfg.maxRepeatCount)
    (hk : n.kind ∈ Kind.nominals ++ Kind.boundNominals)
    (hwrite : Turns strict cfg pre write ⟨s, []⟩ fun _ => ⟨n.typeOf :: s, [n.typeOf]⟩) :
    Turns strict cfg pre (Writing.referenceOr cfg n false write) ⟨s, []⟩ fun _ =>
      ⟨n.typeOf :: s, []⟩ := by
  have hsubstitutable : ∀ k ∈ Kind.nominals ++ Kind.boundNominals, k.isSubstitutable = true := by
    decide
  have hkey : SubstitutionKey.ofNode n false = .ok (.tree n) := rfl
  refine referenceOr hlimit hkey (hsubstitutable _ hk) (fun _ _ => ?_) hwrite
  rw [Node.unwrapped_of_ne (Kind.ne_type_of_mem_types _ (Kind.types_of_mem _ hk))]
  rfl

/-- A nominal type without generic arguments is made of its context and its name, or referred to. -/
theorem plainNominal {k : Kind} {suffix : Text} {context name : Node}
    (hlimit : -1 ≤ cfg.maxRepeatCount)
    (hk : k ∈ Kind.nominals) (hsuffix : Code.nominalSuffix? k = some suffix)
    (hcontext : context.Rule cfg) (hc : context.kind.isContext = true)
    (hname : name.kind.isDeclName = true)
    (hsub : ∀ c ∈ [context, name], Written strict cfg pre sub c) :
    Turns strict cfg pre (Writing.plainNominal cfg sub suffix (.mk k .none [context, name])) ⟨s, []⟩
      fun _ => ⟨.typeOf (.mk k .none [context, name]) :: s, []⟩ := by
  have hne : suffix ≠ [] := by
    simp only [Kind.nominals, List.mem_cons, List.not_mem_nil, or_false] at hk
    rcases hk with rfl | rfl | rfl | rfl | rfl | rfl <;> cases hsuffix <;>
      exact List.cons_ne_nil _ _
  have hstacked : Node.stackedOn s [context, name] = name :: (context.stacked ++ s) := by
    rw [Node.stackedOn_cons, Node.stackedOn_cons,
      Node.stacked_of_plain (Kind.plain_of_isDeclName hname)]
    rfl
  have hoperates : Operates cfg suffix (Node.stackedOn s [context, name])
      (.typeOf (.mk k .none [context, name]) :: s) [.typeOf (.mk k .none [context, name])] := by
    rw [hstacked]
    exact .nominalType hk hsuffix hcontext hc hname
  refine treeOr hlimit (List.mem_append_left _ hk) ?_
  exact (each hsub).bind fun _ => .emit hoperates hne

/-- A declaration in its context, with generic arguments applied to it or to its context. -/
theorem appliedNominal {lists : List (List Node)} (hlimit : -1 ≤ cfg.maxRepeatCount)
    (h : ArgumentChain false n m lists) (hn : n.Grammatical cfg)
    (hspecialized : n.isSpecialized = true)
    (hk : n.kind ∈ Kind.nominals ++ Kind.boundNominals) (hm : m.kind ∈ Kind.nominals)
    (hchildren : ∀ c ∈ m.children, Written strict cfg pre sub c)
    (hlists : ∀ l ∈ lists, ∀ a ∈ l, Written strict cfg pre sub a) :
    Turns strict cfg pre (Writing.nominal cfg sub n) ⟨s, []⟩ fun _ => ⟨n.typeOf :: s, []⟩ := by
  have hne : lists ≠ [] := by
    rintro rfl
    have hfalse := h.isSpecialized_eq_false
    rw [h.eq_of_nil, hspecialized] at hfalse
    cases hfalse
  have hunspecialized : n.unspecialized = .ok m := by
    have hstripped := h.stripped hn
    unfold Node.stripped at hstripped
    rwa [hspecialized, if_pos rfl] at hstripped
  have hgrammatical := h.grammatical hn
  obtain ⟨context, name, hcontext, hname, heq⟩ := hgrammatical.root.eq_nominal hm
  obtain ⟨suffix, hsuffix⟩ := Code.nominalSuffix?_isSome m.kind hm
  have hc : context.kind.isContext = true := by
    refine Kind.isContext_of_mem_contextChildren hcontext fun hbound => ?_
    have hfalse := h.isSpecialized_eq_false
    rw [heq, Node.isSpecialized_context (.inl hm) (Kind.nominals_spec _ hm).2] at hfalse
    rw [Node.isSpecialized_of_mem hbound] at hfalse
    cases hfalse
  have hchildren' : ∀ c ∈ [context, name], Written strict cfg pre sub c := by
    rw [heq] at hchildren
    exact hchildren
  have hcontext' : context.Rule cfg := by
    rw [heq] at hgrammatical
    exact (hgrammatical.children context List.mem_cons_self).root
  -- What is left without arguments is written first, then the lists, and last what applies them.
  have hplain : Turns strict cfg pre (Writing.unappliedNominal cfg sub m) ⟨s, []⟩
      fun _ => ⟨m.typeOf :: s, []⟩ := by
    have hwritten := plainNominal (s := s) hlimit hm hsuffix hcontext' hc hname
      hchildren'
    unfold Writing.unappliedNominal
    rw [hsuffix, heq]
    exact hwritten
  have hlists' := (Yields.genericArguments (s := m.typeOf :: s) h hn hlists n.size (Nat.le_refl _))
  have hwrite : Turns strict cfg pre (do
      Writing.unappliedNominal cfg sub (← Writing.lift n.unspecialized)
      Writing.applied sub n) ⟨s, []⟩ fun _ => ⟨n.typeOf :: s, [n.typeOf]⟩ := by
    rw [hunspecialized]
    refine lift_bind rfl ?_
    refine hplain.bind fun _ => (discard hlists').bind fun _ => ?_
    exact .emit (.boundGenericType h hn hne (Kind.types_of_mem _ hk) hm) (List.cons_ne_nil _ _)
  unfold Writing.nominal
  rw [hspecialized, if_pos rfl]
  exact treeOr hlimit hk hwrite

end Turns

namespace Writing

variable {cfg : Config} {sub : Node → Writing Unit} {n : Node}

theorem ofNode_nominal (h : n.kind ∈ [Kind.structType, .classType, .enumType, .typeAlias,
      .otherNominalType, .boundGenericStructure, .boundGenericClass, .boundGenericProtocol,
      .boundGenericTypeAlias, .boundGenericOtherNominalType]) :
    ofNode cfg sub n = nominal cfg sub n := by
  rcases n with ⟨k, p, cs⟩
  change k ∈ [_, _, _, _, _, _, _, _, _, _] at h
  simp only [List.mem_cons, List.not_mem_nil, or_false] at h
  rcases h with rfl | rfl | rfl | rfl | rfl | rfl | rfl | rfl | rfl | rfl <;> rfl

end Writing

namespace Written

variable {strict : Prop} {cfg : Config} {pre : Text} {sub : Node → Writing Unit} {n m : Node}

/-- A nominal type in a context that nothing is applied to. -/
theorem nominal {k : Kind} {context name : Node} (hlimit : -1 ≤ cfg.maxRepeatCount)
    (hk : k ∈ Kind.nominals) (hcontext : context.Rule cfg) (hc : context.kind.isContext = true)
    (hname : name.kind.isDeclName = true)
    (hspecialized : k ≠ .protocolType → context.isSpecialized = false)
    (hsub : ∀ c ∈ [context, name], Written strict cfg pre sub c) :
    Written strict cfg pre (Writing.ofNode cfg sub) (.mk k .none [context, name]) := by
  intro s
  rw [Node.stacked_of_types (n := .mk k .none [context, name]) (Kind.nominals_subset_types k hk)]
  obtain ⟨suffix, hsuffix⟩ := Code.nominalSuffix?_isSome k hk
  have hplain := Turns.plainNominal (s := s) hlimit hk hsuffix hcontext hc hname hsub
  by_cases hp : k = .protocolType
  · subst hp
    cases hsuffix
    exact hplain
  · have hkinds : ∀ k ∈ Kind.nominals, k ≠ .protocolType →
      k ∈ [Kind.structType, .classType, .enumType,
        .typeAlias, .otherNominalType, .boundGenericStructure, .boundGenericClass,
        .boundGenericProtocol, .boundGenericTypeAlias, .boundGenericOtherNominalType] := by decide
    rw [Writing.ofNode_nominal (n := .mk k .none [context, name]) (hkinds k hk hp)]
    unfold Writing.nominal Writing.unappliedNominal
    rw [Node.isSpecialized_context (.inl hk) (Kind.nominals_spec _ hk).2, hspecialized hp]
    rw [if_neg Bool.false_ne_true,
      show Code.nominalSuffix? (Node.mk k .none [context, name]).kind = some suffix from hsuffix]
    exact hplain

/-- An optional is written after its argument. -/
private theorem optional {argument : Node} (hlimit : -1 ≤ cfg.maxRepeatCount)
    (ha : argument.kind = .type) (hsub : Written strict cfg pre sub argument) (s : List Node) :
    Turns strict cfg pre (Writing.referenceOr cfg
        (.mk .boundGenericEnum .none [Standard.optionalType, .mk .typeList .none [argument]])
        false do
          sub argument
          Writing.emit ['S', 'g']) ⟨s, []⟩
      fun _ => ⟨.typeOf (.mk .boundGenericEnum .none
        [Standard.optionalType, .mk .typeList .none [argument]]) :: s, []⟩ := by
  refine Turns.treeOr hlimit (by show Kind.boundGenericEnum ∈ _; decide) ?_
  have hstacked : argument.stacked = [argument] := Node.stacked_of_plain (by rw [ha]; decide)
  refine (hsub s).bind fun _ => ?_
  rw [hstacked]
  exact .emit (.optional ha) (List.cons_ne_nil _ _)

private theorem ofNode_boundGenericEnum {p q : Payload} {inner : Node} {arguments : List Node} :
    Writing.ofNode cfg sub (.mk .boundGenericEnum p [inner, .mk .typeList q arguments]) =
      match arguments with
      | [argument] =>
        if Standard.code? inner = some 'q' then
          Writing.referenceOr cfg (.mk .boundGenericEnum p [inner, .mk .typeList q arguments])
          false do
            sub argument
            Writing.emit ['S', 'g']
        else Writing.nominal cfg sub (.mk .boundGenericEnum p [inner, .mk .typeList q arguments])
      | _ =>
      Writing.nominal cfg sub (.mk .boundGenericEnum p [inner, .mk .typeList q arguments]) := rfl

/-- A nominal type with generic arguments, its own or those of its contexts. -/
theorem applied {lists : List (List Node)} (hlimit : -1 ≤ cfg.maxRepeatCount)
    (h : ArgumentChain false n m lists) (hn : n.Grammatical cfg)
    (hspecialized : n.isSpecialized = true)
    (hk : n.kind ∈ Kind.nominals ++ Kind.boundNominals) (hp : n.kind ≠ .protocolType)
    (hchildren : ∀ c ∈ m.children, Written strict cfg pre sub c)
    (hlists : ∀ l ∈ lists, ∀ a ∈ l, Written strict cfg pre sub a) :
    Written strict cfg pre (Writing.ofNode cfg sub) n := by
  have hm := h.kind_mem_nominals hk
  intro s
  rw [Node.stacked_of_types (Kind.types_of_mem _ hk)]
  have hwritten := Turns.appliedNominal (s := s) hlimit h hn hspecialized hk hm hchildren hlists
  -- Only an enum can be an optional, which has a sign of its own.
  by_cases henum : n.kind = .boundGenericEnum
  · obtain ⟨inner, arguments, -, -, harguments, heq⟩ :=
      hn.root.eq_boundNominal (by rw [henum]; decide)
    rw [henum] at heq
    subst heq
    rw [ofNode_boundGenericEnum]
    split
    · rename_i argument
      split
      · rename_i hcode
        have hinner : inner.typeOf = Standard.optionalType :=
          (Option.some.inj (Standard.type?_of_code? hcode)).symm
        rw [hinner]
        refine optional hlimit (harguments argument (List.mem_singleton_self _)) ?_ s
        cases h with
        | stop hstop =>
          rw [hspecialized] at hstop
          cases hstop
        | nominal hk => exact absurd hk (by decide)
        | bound hk h =>
          exact hlists _ List.mem_cons_self argument (List.mem_singleton_self _)
      · exact hwritten
    · exact hwritten
  · have hkinds : ∀ k ∈ Kind.nominals ++ Kind.boundNominals, k ≠ .protocolType →
      k ≠ .boundGenericEnum → k ∈ [Kind.structType, .classType, .enumType,
        .typeAlias, .otherNominalType, .boundGenericStructure, .boundGenericClass,
        .boundGenericProtocol, .boundGenericTypeAlias, .boundGenericOtherNominalType] := by decide
    rw [Writing.ofNode_nominal (hkinds _ hk hp henum)]
    exact hwritten

end Written

end SwiftABI
