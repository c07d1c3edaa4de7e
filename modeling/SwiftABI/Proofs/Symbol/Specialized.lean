/-
  What generic arguments make of a declaration.

  The reader applies lists of arguments to a declaration and the contexts above it.
  `Specializes n r` says that `r` is what may become of `n` in this way: generic arguments are
  applied to it, or to its first child, or to the type that it extends. Whatever the first children
  are that the reader goes along, the result obeys the grammar if the declaration does
  (`Specializes.grammatical`).
-/
import SwiftABI.Proofs.Symbol.ArgumentChain

namespace SwiftABI

/-- The second node is the first one with generic arguments applied to it or to nodes that it begins
with. -/
inductive Specializes (cfg : Config) : Node → Node → Prop where
  | same (n : Node) : Specializes cfg n n
  | context {k : Kind} {p : Payload} {c c' : Node} {cs : List Node} (h : Specializes cfg c c')
    (hfits : (Node.mk k p (c' :: cs)).Fits) :
      Specializes cfg (.mk k p (c :: cs)) (.mk k p (c' :: cs))
  | extended {p : Payload} {m extended extended' : Node} {cs : List Node}
    (h : Specializes cfg extended extended') :
    Specializes cfg (.mk .extensionDecl p (m :: extended :: cs))
      (.mk .extensionDecl .none [m, extended'])
  | bound {n r : Node} {bound : Kind} {arguments : List Node} (h : Specializes cfg n r)
    (hk : r.kind.bound? = some bound) (hne : arguments ≠ [])
    (harguments : ∀ a ∈ arguments, a.kind = .type ∧ a.Grammatical cfg) :
    Specializes cfg n (.mk bound .none [.typeOf r, .mk .typeList .none arguments])
  | boundFunction {n r : Node} {arguments : List Node} (h : Specializes cfg n r)
    (hk : r.kind = .functionDecl ∨ r.kind = .constructorDecl) (hne : arguments ≠ [])
    (harguments : ∀ a ∈ arguments, a.kind = .type ∧ a.Grammatical cfg) :
    Specializes cfg n (.mk .boundGenericFunction .none [r, .mk .typeList .none arguments])

/-- A list of generic arguments, as the reader has it. -/
structure Node.ArgumentList (cfg : Config) (l : Node) : Prop where
  eq : l = .mk .typeList .none l.children
  arguments : ∀ a ∈ l.children, a.kind = .type ∧ a.Grammatical cfg

/-! ### Applying arguments -/

namespace Reading

variable {cfg : Config}

private theorem shaped_ok {k : Kind} {p : Payload} {cs : List Node} {n : Node}
    (h : shaped (Node.make k p cs) = .ok n) : n = .mk k p cs ∧ (Node.mk k p cs).Fits := by
  rcases hmake : Node.make k p cs with e | n'
  · rw [hmake] at h
    cases h
  · rw [hmake] at h
    cases h
    exact Node.make_eq_ok_iff.mp hmake

/-- A declaration with its own arguments. -/
private theorem specializes_applyOwn {k : Kind} {n d arguments r : Node} (hk : d.kind = k)
    (hd : Specializes cfg n d) (ha : arguments.ArgumentList cfg)
    (h : applyOwn k d arguments = .ok r) :
    Specializes cfg n r := by
  unfold applyOwn at h
  -- An empty list changes nothing, and no list changes what takes none.
  split at h
  · cases h
    exact hd
  · rename_i hconsumes
    have hne : arguments.children ≠ [] := by
      intro hnil
      rw [hnil, List.isEmpty_nil, Bool.or_true] at hconsumes
      exact hconsumes rfl
    split at h
    · rename_i bound hbound
      rcases ht : shaped (Node.make .type .none [d]) with e | t
      · rw [ht] at h
        cases h
      · rw [ht] at h
        obtain ⟨rfl, -⟩ := shaped_ok ht
        obtain ⟨rfl, -⟩ := shaped_ok h
        rw [ha.eq]
        exact .bound hd (by rw [hk, hbound]) hne ha.arguments
    · split at h
      · rename_i hfunction
        obtain ⟨rfl, -⟩ := shaped_ok h
        rw [ha.eq]
        exact .boundFunction hd (by rwa [hk]) hne ha.arguments
      · cases h

/-- Whatever lists are applied to a node, the result is a specialization of it. -/
theorem specializes_applyArguments (size : Nat) : ∀ (n : Node) (lists : List Node) (r : Node),
    n.size ≤ size → (∀ l ∈ lists, l.ArgumentList cfg) → applyArguments n lists = .ok r →
      Specializes cfg n r := by
  induction size with
  | zero =>
    intro n _ _ hsize
    exact absurd n.size_pos (Nat.not_lt.mpr hsize)
  | succ size ih =>
    intro n lists r hsize hlists h
    -- The same for a context, where an extension passes the lists on to what it extends.
    have hcontext : ∀ (c : Node) (above : List Node) (c' : Node), c.size ≤ size →
        (∀ l ∈ above, l.ArgumentList cfg) → applyToContext c above = .ok c' →
        Specializes cfg c c' := by
      intro c above c' hc habove happly
      unfold applyToContext at happly
      split at happly
      · rename_i p m extended cs
        rcases hextended : applyArguments extended above with e | extended'
        · rw [hextended] at happly
          cases happly
        · rw [hextended] at happly
          obtain ⟨rfl, -⟩ := shaped_ok happly
          simp only [Node.size, Node.sizeAll] at hc
          exact .extended (ih extended above extended' (by omega) habove hextended)
      · exact ih c above c' hc habove happly
    rcases n with ⟨k, p, _ | ⟨context, cs⟩⟩
    · rcases lists with _ | ⟨arguments, lists⟩ <;> cases h
    · rcases lists with _ | ⟨arguments, lists⟩
      · cases h
      · simp only [Node.size, Node.sizeAll] at hsize
        rw [applyArguments_cons rfl] at h
        have ha := hlists arguments List.mem_cons_self
        have habove : ∀ l ∈ (if k.consumesGenericArgs then lists else arguments :: lists),
            l.ArgumentList cfg := by
          intro l hl
          split at hl
          · exact hlists l (List.mem_cons_of_mem _ hl)
          · exact hlists l hl
        generalize (if k.consumesGenericArgs then lists else arguments :: lists) = above at h habove
        split at h
        · exact specializes_applyOwn rfl (.same _) ha h
        · rcases hc : applyToContext context above with e | context'
          · rw [hc] at h
            cases h
          · rw [hc] at h
            have hspecializes := hcontext context above context' (by omega) habove hc
            rcases hmake : shaped (Node.make k p (context' :: cs)) with e | d
            · change (shaped (Node.make k p (context' :: cs)) >>= _) = _ at h
              rw [hmake] at h
              cases h
            · change (shaped (Node.make k p (context' :: cs)) >>= _) = _ at h
              rw [hmake] at h
              obtain ⟨rfl, hfits⟩ := shaped_ok hmake
              exact specializes_applyOwn rfl (.context hspecializes hfits) ha h

end Reading

/-! ### The kind of a specialization -/

namespace Specializes

variable {cfg : Config} {n r t : Node}

/-- A specialization is of the same kind, or of the kind that generic arguments lead to. -/
theorem kind (h : Specializes cfg n r) :
    r.kind = n.kind ∨ n.kind.bound? = some r.kind ∨
      r.kind = .boundGenericFunction ∧ (n.kind = .functionDecl ∨ n.kind = .constructorDecl) := by
  induction h with
  | same => exact .inl rfl
  | context => exact .inl rfl
  | extended => exact .inl rfl
  | @bound n r bound arguments h hk _ _ ih =>
    rcases ih with ih | ih | ⟨ih, -⟩
    · exact .inr (.inl (by rw [← ih]; exact hk))
    · have hall : ∀ k ∈ Kind.boundNominals, k.bound? = none := by decide
      rw [hall _ (Kind.bound?_spec ih).2.1] at hk
      cases hk
    · rw [ih] at hk
      cases hk
  | @boundFunction n r arguments h hk _ _ ih =>
    rcases ih with ih | ih | ⟨ih, -⟩
    · exact .inr (.inr ⟨rfl, by rwa [← ih]⟩)
    · have hall : ∀ k ∈ Kind.boundNominals, k ≠ .functionDecl ∧ k ≠ .constructorDecl := by decide
      obtain ⟨hfunction, hconstructor⟩ := hall _ (Kind.bound?_spec ih).2.1
      rcases hk with hk | hk
      · exact absurd hk hfunction
      · exact absurd hk hconstructor
    · rw [ih] at hk
      rcases hk with hk | hk <;> cases hk

/-- Only nominal types and functions change their kinds. -/
theorem kind_eq (h : Specializes cfg n r) (hk : n.kind.bound? = none)
    (hf : n.kind ≠ .functionDecl ∧ n.kind ≠ .constructorDecl) : r.kind = n.kind := by
  rcases h.kind with h | h | ⟨-, h | h⟩
  · exact h
  · rw [hk] at h
    cases h
  · exact absurd h hf.1
  · exact absurd h hf.2

/-- What holds of a kind with and without generic arguments is kept. -/
theorem kind_mem {ks : List Kind} (h : Specializes cfg n r) (hn : n.kind ∈ ks)
    (hbound : ∀ k ∈ ks, ∀ bound, k.bound? = some bound → bound ∈ ks)
    (hfunction : Kind.functionDecl ∈ ks ∨ Kind.constructorDecl ∈ ks →
      Kind.boundGenericFunction ∈ ks) :
    r.kind ∈ ks := by
  rcases h.kind with h | h | ⟨h, hk | hk⟩
  · rwa [h]
  · exact hbound _ hn _ h
  · rw [h]
    exact hfunction (.inl (by rwa [hk] at hn))
  · rw [h]
    exact hfunction (.inr (by rwa [hk] at hn))

/-- A node that takes no arguments of its own is kept, apart from its first child. -/
theorem cases_of_kind (h : Specializes cfg n r) (hk : n.kind.bound? = none)
    (hf : n.kind ≠ .functionDecl ∧ n.kind ≠ .constructorDecl) (hext : n.kind ≠ .extensionDecl) :
    r = n ∨ ∃ k p c c' cs, n = .mk k p (c :: cs) ∧ r = .mk k p (c' :: cs) ∧
      Specializes cfg c c' := by
  cases h with
  | same => exact .inl rfl
  | context h => exact .inr ⟨_, _, _, _, _, rfl, rfl, h⟩
  | extended => exact absurd rfl hext
  | bound h hk' =>
    rw [h.kind_eq hk hf, hk] at hk'
    cases hk'
  | boundFunction h hk' =>
    rw [h.kind_eq hk hf] at hk'
    rcases hk' with h | h
    · exact absurd h hf.1
    · exact absurd h hf.2

/-- The same for a kind that is given. -/
theorem kind_of_eq {k : Kind} (h : Specializes cfg n r) (hn : n.kind = k) (hk : k.bound? = none)
    (hf : k ≠ .functionDecl ∧ k ≠ .constructorDecl) : r.kind = k := by
  rw [h.kind_eq (by rwa [hn]) (by rwa [hn]), hn]

theorem type_of_type (h : Specializes cfg n r) (hn : n.kind = .type) : r.kind = .type :=
  h.kind_of_eq hn rfl (by decide)

/-- The same for a child that may be missing. -/
theorem kind_of_option {k : Kind} (h : Specializes cfg n r) (hn : ∀ c ∈ some n, c.kind = k)
    (hk : k.bound? = none) (hf : k ≠ .functionDecl ∧ k ≠ .constructorDecl) :
    ∀ c ∈ some r, c.kind = k := by
  rintro c hc
  rw [← Option.some.inj hc]
  exact h.kind_of_eq (hn n rfl) hk hf

/-- The same for the first of several children. -/
theorem kind_of_cons {k : Kind} {cs : List Node} (h : Specializes cfg n r)
    (hn : ∀ c ∈ n :: cs, c.kind = k)
    (hk : k.bound? = none) (hf : k ≠ .functionDecl ∧ k ≠ .constructorDecl) :
    ∀ c ∈ r :: cs, c.kind = k := by
  obtain ⟨hfirst, hrest⟩ := List.forall_mem_cons.mp hn
  exact List.forall_mem_cons.mpr ⟨h.kind_of_eq hfirst hk hf, hrest⟩

/-- Nothing can be applied to a part that has no children. -/
theorem eq_of_childless {k : Kind} {p : Payload} (h : Specializes cfg (.mk k p []) r)
    (hk : k.bound? = none)
    (hf : k ≠ .functionDecl ∧ k ≠ .constructorDecl) (hext : k ≠ .extensionDecl) :
    r = .mk k p [] := by
  rcases h.cases_of_kind hk hf hext with rfl | ⟨k, p, c, c', cs, heq, -, -⟩
  · rfl
  · cases heq

/-- A type is specialized inside. -/
theorem of_typeOf (h : Specializes cfg n.typeOf r) :
    ∃ n', r = n'.typeOf ∧ Specializes cfg n n' := by
  rcases h.cases_of_kind rfl ⟨nofun, nofun⟩ nofun with rfl | ⟨k, p, c, c', cs, heq, rfl, hc⟩
  · exact ⟨n, rfl, .same n⟩
  · cases heq
    exact ⟨c', rfl, hc⟩

end Specializes

/-! ### The grammar -/

/-- A type stands for as many arguments as before. -/
theorem argumentCount_of_specializes {cfg : Config} {x x' : Node} (h : Specializes cfg x x') :
    argumentCount x'.typeOf = argumentCount x.typeOf := by
  show (if x'.kind = .tuple then x'.children.length else 1) = if x.kind =
    .tuple then x.children.length else 1
  by_cases hk : x.kind = .tuple
  · have hk' : x'.kind = .tuple := by
      rw [h.kind_eq (by rw [hk]; rfl) (by rw [hk]; decide), hk]
    rw [if_pos hk, if_pos hk']
    rcases h.cases_of_kind (by rw [hk]; rfl) (by rw [hk]; decide) (by rw [hk]; decide) with
      rfl | ⟨k, p, c, c', cs, rfl, rfl, -⟩
    · rfl
    · rfl
  · have hk' : x'.kind ≠ .tuple := by
      rcases h.kind with h | h | ⟨h, -⟩
      · rwa [h]
      · have hall : ∀ k ∈ Kind.boundNominals, k ≠ .tuple := by decide
        exact hall _ (Kind.bound?_spec h).2.1
      · rw [h]
        decide
    rw [if_neg hk, if_neg hk']

namespace Kind

/-- The kinds of nodes that are never found below others. -/
def topmost : List Kind :=
  [.global, .genericTypeParamDecl, .enumCase, .typeMangling, .protocolDescriptor]

end Kind

/-- The root of a symbol is not below anything, so that the grammar does not speak of it. -/
theorem Node.Rule.kind_ne_global {cfg : Config} {n : Node} (h : n.Rule cfg) : n.kind ≠ .global := by
  intro hk
  cases h <;> cases hk <;> exact absurd ‹_ ∈ _› (by decide)

/-- No child is of a kind that is never found below others. -/
theorem Node.Rule.not_topmost {cfg : Config} {n : Node} (h : n.Rule cfg) :
    ∀ c ∈ n.children, c.kind ∉ Kind.topmost := by
  intro c hc hmem
  have hall : ∀ k ∈ Kind.all, k ≠ .global → ∀ s ∈ k.slots.getD [], ∀ b ∈ Kind.topmost,
      s.accepts b = false := by decide
  obtain ⟨s, hs, haccepts⟩ := h.fits.exists_slot hc
  rw [hall n.kind (Kind.mem_all _) h.kind_ne_global s hs c.kind hmem] at haccepts
  cases haccepts

/-! One rule of the grammar after the other, for the rules that ask more of the first child than a
kind. -/

namespace Specializes

variable {cfg : Config} {c c' : Node}

private theorem rule_boundNominal {k : Kind} {inner : Node} {arguments : List Node}
    (h : Specializes cfg (.mk .type .none [inner]) c') (hk : k ∈ Kind.boundNominals)
    (hnominal : inner.kind.bound? = some k ∨ inner.kind = k) (hne : arguments ≠ [])
    (harguments : ∀ a ∈ arguments, a.kind = .type) :
    (Node.mk k .none [c', .mk .typeList .none arguments]).Rule cfg := by
  obtain ⟨x', rfl, hx⟩ := h.of_typeOf
  refine .boundNominal hk ?_ hne harguments
  have hall : ∀ k ∈ Kind.boundNominals, k.bound? = none ∧ k ≠ .functionDecl ∧
      k ≠ .constructorDecl := by
    decide
  obtain ⟨hbound, hfunction⟩ := hall k hk
  rcases hnominal with hnominal | hnominal
  · rcases hx.kind with hx | hx | ⟨-, hx | hx⟩
    · rw [hx]
      exact .inl hnominal
    · rw [hnominal] at hx
      exact .inr (Option.some.inj hx).symm
    · rw [hx] at hnominal
      cases hnominal
    · rw [hx] at hnominal
      cases hnominal
  · exact .inr (hx.kind_of_eq hnominal hbound hfunction)

private theorem rule_boundFunction {arguments : List Node} (h : Specializes cfg c c')
    (hfits : (Node.mk .boundGenericFunction .none [c', .mk .typeList .none arguments]).Fits)
    (hfunction : c.kind = .functionDecl ∨ c.kind = .constructorDecl) (hne : arguments ≠ [])
    (harguments : ∀ a ∈ arguments, a.kind = .type) :
    (Node.mk .boundGenericFunction .none [c', .mk .typeList .none arguments]).Rule cfg := by
  refine .boundFunction ?_ hne harguments
  rcases h.kind with hkind | hkind | ⟨hkind, -⟩
  · rwa [hkind]
  · rcases hfunction with hf | hf <;> rw [hf] at hkind <;> cases hkind
  · have hslots : Kind.boundGenericFunction.misplaced? [c'.kind, .typeList] = none := hfits.2.2
    rw [hkind] at hslots
    cases hslots

private theorem rule_accessor {k : Kind} (h : Specializes cfg c c') (hk : k ∈ Kind.accessors)
    (hstorage : c.kind = .variableDecl ∨ c.kind = .subscriptDecl) :
    (Node.mk k .none [c']).Rule cfg :=
  .accessor hk (hstorage.imp (h.kind_of_eq · rfl (by decide)) (h.kind_of_eq · rfl (by decide)))

private theorem rule_relatedEntityDeclName {letter : CodePoint} (h : Specializes cfg c c')
    (hletter : IsRelationLetter letter) (hname : c.kind.isDeclName = true) :
    (Node.mk .relatedEntityDeclName (.text [letter]) [c']).Rule cfg := by
  have hnames : ∀ k ∈ Kind.all.filter Kind.isDeclName,
      k.bound? = none ∧ k ≠ .functionDecl ∧ k ≠ .constructorDecl := by decide
  obtain ⟨hbound, hfunction⟩ := hnames c.kind (List.mem_filter.mpr ⟨Kind.mem_all _, hname⟩)
  exact .relatedEntityDeclName hletter (by rwa [h.kind_eq hbound hfunction])

/-- A module stays as it is, and nothing static is a nominal type. -/
private theorem rule_staticDecl (h : Specializes cfg c c')
    (hfits : (Node.mk .staticDecl .none [c']).Fits)
    (hentity : c.kind.isEntity = true) (hnominal : c.kind ∉ Kind.nominals)
    (hmodule : ∀ t cs, c = .mk .moduleName (.text t) cs → t ∈ lettered) :
    (Node.mk .staticDecl .none [c']).Rule cfg := by
  rcases h.kind with hkind | hkind | ⟨hkind, -⟩
  · refine .staticDecl (by rwa [hkind]) (by rwa [hkind]) fun t cs heq => ?_
    subst heq
    rcases h.cases_of_kind (by rw [← hkind]; rfl) (by rw [← hkind]; exact ⟨nofun, nofun⟩)
      (by rw [← hkind]; nofun) with rfl | ⟨k, p, d, d', ds, rfl, heq, -⟩
    · exact hmodule t cs rfl
    · cases heq
      exact hmodule t _ rfl
  · exact absurd (Kind.bound?_spec hkind).1 hnominal
  · have hslots : Kind.staticDecl.misplaced? [c'.kind] = none := hfits.2.2
    rw [hkind] at hslots
    cases hslots

private theorem rule_argumentTuple (h : Specializes cfg c c') (hc : c.Grammatical cfg)
    (ht : c.kind = .type) :
    (Node.mk .argumentTuple (.index (argumentCount c)) [c']).Rule cfg := by
  obtain ⟨x, -, rfl⟩ := hc.root.eq_type ht
  obtain ⟨x', rfl, hx⟩ := h.of_typeOf
  rw [← argumentCount_of_specializes hx]
  exact .argumentTuple rfl

private theorem rule_labelList {ls : List Node} (h : Specializes cfg c c')
    (hlabels : ∀ l ∈ c :: ls, l.kind = .identifier ∨ l.kind = .firstElementMarker)
    (hname : ∃ l ∈ c :: ls, l.kind ≠ .firstElementMarker) :
    (Node.mk .labelList .none (c' :: ls)).Rule cfg := by
  obtain ⟨hfirst, hrest⟩ := List.forall_mem_cons.mp hlabels
  have hkind : c'.kind = c.kind := by
    rcases hfirst with hfirst | hfirst
    · rw [h.kind_of_eq hfirst rfl (by decide), hfirst]
    · rw [h.kind_of_eq hfirst rfl (by decide), hfirst]
  refine .labelList (List.forall_mem_cons.mpr ⟨by rwa [hkind], hrest⟩) (.inr ?_)
  obtain ⟨l, hl, hlabel⟩ := hname
  rcases List.mem_cons.mp hl with rfl | hl
  · exact ⟨c', List.mem_cons_self, by rwa [hkind]⟩
  · exact ⟨l, List.mem_cons_of_mem _ hl, hlabel⟩

/-- The list of a composition is kept, apart from its first protocol. -/
private theorem rule_protocolList {ps : List Node} (h : Specializes cfg (.mk .typeList .none ps) c')
    (hc : (Node.mk .typeList .none ps).Grammatical cfg)
    (hps : ∀ p ∈ ps, p.kind = .type ∧
      (p.unwrapped.kind = .protocolType ∨ p.unwrapped.kind = .boundGenericProtocol)) :
    (Node.mk .protocolList .none [c']).Rule cfg := by
  rcases h.cases_of_kind rfl ⟨nofun, nofun⟩ nofun with rfl | ⟨k, p, q, q', qs, heq, rfl, hq⟩
  · exact .protocolList hps
  · cases heq
    obtain ⟨⟨hkind, hprotocol⟩, hrest⟩ := List.forall_mem_cons.mp hps
    refine .protocolList (List.forall_mem_cons.mpr ⟨?_, hrest⟩)
    obtain ⟨x, -, rfl⟩ := (hc.children q List.mem_cons_self).root.eq_type hkind
    obtain ⟨x', rfl, hx⟩ := hq.of_typeOf
    change x.kind = .protocolType ∨ x.kind = .boundGenericProtocol at hprotocol
    have hmem : x'.kind ∈ [Kind.protocolType, .boundGenericProtocol] :=
      hx.kind_mem (by simpa using hprotocol) (by decide) (by decide)
    have hprotocol' : x'.kind = .protocolType ∨ x'.kind = .boundGenericProtocol := by
      simpa using hmem
    exact ⟨rfl, hprotocol'⟩

end Specializes

namespace Node.Rule

variable {cfg : Config} {k : Kind} {p : Payload} {c c' : Node} {cs : List Node}

private theorem specialize_namePart (h : (Node.mk k p (c :: cs)).Rule cfg)
    (hgroup : k ∈ Kind.nameParts) (hc : Specializes cfg c c') :
    (Node.mk k p (c' :: cs)).Rule cfg := by
  generalize hn : Node.mk k p (c :: cs) = n at h
  cases h with
  | localDeclName i hname =>
    cases hn
    rw [hc.eq_of_childless rfl ⟨nofun, nofun⟩ nofun]
    exact .localDeclName i hname
  | privateDeclName hdiscriminator hname =>
    cases hn
    exact .privateDeclName (hc.kind_of_eq hdiscriminator rfl (by decide)) hname
  | relatedEntityDeclName hletter hname =>
    cases hn
    exact hc.rule_relatedEntityDeclName hletter hname
  | suffix => cases hn
  | name => cases hn
  | operatorName => cases hn
  | number => cases hn
  | directness => cases hn
  | _ =>
    injection hn with hkind
    subst hkind
    refine absurd hgroup ?_
    clear hgroup
    first
    | decide
    | exact Kind.not_mem_of_group ‹_› (by decide)

private theorem specialize_declaration (h : (Node.mk k p (c :: cs)).Rule cfg)
    (hgroup : k ∈ Kind.declarations) (hk : k ∉ Kind.topmost) (hc : Specializes cfg c c')
    (hfits : (Node.mk k p (c' :: cs)).Fits) : (Node.mk k p (c' :: cs)).Rule cfg := by
  have hcontext : c.kind ∈ Kind.contextChildren → c'.kind ∈ Kind.contextChildren := fun h =>
    hc.kind_mem h (by decide) (by decide)
  generalize hn : Node.mk k p (c :: cs) = n at h
  cases h with
  | nominal hk' hcontext' hname =>
    cases hn
    exact .nominal hk' (hcontext hcontext') hname
  | boundNominal hk' hnominal hne harguments =>
    cases hn
    exact hc.rule_boundNominal hk' hnominal hne harguments
  | boundFunction hfunction hne harguments =>
    cases hn
    exact hc.rule_boundFunction hfits hfunction hne harguments
  | extension hmodule hextended =>
    cases hn
    exact .extension (hc.kind_of_eq hmodule rfl (by decide)) hextended
  | declaration hk' hcontext' hname ht hlabels hfunction hparam =>
    cases hn
    refine .declaration hk' (hcontext hcontext') hname ht hlabels hfunction fun h => ?_
    subst h
    exact absurd (by decide) hk
  | unnamed hk' hcontext' ht hlabels hprivate hsubscript =>
    cases hn
    exact .unnamed hk' (hcontext hcontext') ht hlabels hprivate hsubscript
  | bareScope hk' hcontext' =>
    cases hn
    exact .bareScope hk' (hcontext hcontext')
  | closure hk' hcontext' i ht =>
    cases hn
    exact .closure hk' (hcontext hcontext') i ht
  | defaultArgument hcontext' i =>
    cases hn
    exact .defaultArgument (hcontext hcontext') i
  | accessor hk' hstorage =>
    cases hn
    exact hc.rule_accessor hk' hstorage
  | staticDecl hentity hnominal hmodule =>
    cases hn
    exact hc.rule_staticDecl hfits hentity hnominal hmodule
  | enumCase =>
    cases hn
    exact absurd (by decide) hk
  | fieldOffset hi hentity hstack =>
    cases hn
    rw [hc.eq_of_childless rfl ⟨nofun, nofun⟩ nofun]
    exact .fieldOffset hi hentity hstack
  | _ =>
    injection hn with hkind
    subst hkind
    refine absurd hgroup ?_
    clear hgroup
    first
    | decide
    | exact Kind.not_mem_of_group ‹_› (by decide)

/-- Where a mark may be missing in front, another child is the first one then. -/
private theorem specialize_signaturePart (h : (Node.mk k p (c :: cs)).Rule cfg)
    (hgroup : k ∈ Kind.signatureParts) (hgrammatical : c.Grammatical cfg)
    (hc : Specializes cfg c c') : (Node.mk k p (c' :: cs)).Rule cfg := by
  generalize hn : Node.mk k p (c :: cs) = n at h
  cases h with
  | @functionType k throws arguments result hk' hthrows harguments hresult =>
    rcases throws with _ | marker
    · cases hn
      exact @functionType cfg k none c' result hk'
        nofun (hc.kind_of_eq harguments rfl (by decide)) hresult
    · cases hn
      exact @functionType cfg k (some c') arguments result hk'
        (hc.kind_of_option hthrows rfl (by decide)) harguments hresult
  | argumentTuple ht =>
    cases hn
    exact hc.rule_argumentTuple hgrammatical ht
  | typeList h =>
    cases hn
    exact .typeList (hc.kind_of_cons h rfl (by decide))
  | tuple h =>
    cases hn
    exact .tuple (hc.kind_of_cons h rfl (by decide))
  | @tupleElement variadic name t hvariadic hname ht =>
    rcases variadic with _ | marker
    · rcases name with _ | name
      · cases hn
        exact @tupleElement cfg none none c' nofun nofun (hc.type_of_type ht)
      · cases hn
        exact @tupleElement cfg none (some c') t nofun (hc.kind_of_option hname rfl (by decide)) ht
    · cases hn
      exact @tupleElement cfg (some c') name t
        (hc.kind_of_option hvariadic rfl (by decide)) hname ht
  | labelList h hname =>
    cases hn
    exact hc.rule_labelList h (hname.resolve_left (List.cons_ne_nil _ _))
  | _ =>
    injection hn with hkind
    subst hkind
    refine absurd hgroup ?_
    clear hgroup
    first
    | decide
    | exact Kind.not_mem_of_group ‹_› (by decide)

/-- The other nodes are types and what symbols say of a type. -/
private theorem specialize_other (h : (Node.mk k p (c :: cs)).Rule cfg)
    (hgroup : k ∉ Kind.nameParts ++ Kind.declarations ++ Kind.signatureParts)
    (hk : k ∉ Kind.topmost)
    (hgrammatical : c.Grammatical cfg) (hc : Specializes cfg c c') :
    (Node.mk k p (c' :: cs)).Rule cfg := by
  have htypes : c.kind ∈ Kind.types → c'.kind ∈ Kind.types := fun h =>
    hc.kind_mem h (by decide) (by decide)
  generalize hn : Node.mk k p (c :: cs) = n at h
  cases h with
  | type ht =>
    cases hn
    exact .type (htypes ht)
  | aroundType hk' ht =>
    cases hn
    exact .aroundType hk' (hc.type_of_type ht)
  | protocolDescriptor =>
    cases hn
    exact absurd (by decide) hk
  | valueWitness hi ht =>
    cases hn
    exact .valueWitness hi (hc.type_of_type ht)
  | passing hk' ht =>
    cases hn
    exact .passing hk' (htypes ht)
  | @metatype k representation t hk' hrepresentation ht =>
    rcases representation with _ | representation
    · cases hn
      exact @metatype cfg k none c' hk' nofun (hc.type_of_type ht)
    · cases hn
      exact @metatype cfg k (some c') t hk' (hc.kind_of_option hrepresentation rfl (by decide)) ht
  | protocolList h =>
    cases hn
    exact hc.rule_protocolList hgrammatical h
  | protocolListWithAnyObject h =>
    cases hn
    exact .protocolListWithAnyObject (hc.kind_of_eq h rfl (by decide))
  | sugaredDictionary hkey hvalue =>
    cases hn
    exact .sugaredDictionary (hc.type_of_type hkey) hvalue
  | genericParameter depth index =>
    cases hn
    rw [hc.eq_of_childless rfl ⟨nofun, nofun⟩ nofun]
    exact .genericParameter depth index
  | typeMangling =>
    injection hn with hkind
    subst hkind
    exact absurd (by decide) hk
  | metatypeRepresentation => cases hn
  | builtinType => cases hn
  | marker => cases hn
  | _ =>
    injection hn with hkind
    subst hkind
    refine absurd ?_ hgroup
    clear hgroup
    first
    | decide
    | exact Kind.mem_of_group ‹_› (by decide)

/-- The grammar does not mind arguments that are applied to the first child of a node. -/
theorem specialize (h : (Node.mk k p (c :: cs)).Rule cfg) (hk : k ∉ Kind.topmost)
    (hgrammatical : c.Grammatical cfg) (hc : Specializes cfg c c')
    (hfits : (Node.mk k p (c' :: cs)).Fits) : (Node.mk k p (c' :: cs)).Rule cfg := by
  by_cases hgroup : k ∈ Kind.nameParts ++ Kind.declarations ++ Kind.signatureParts
  · rw [List.mem_append, List.mem_append] at hgroup
    rcases hgroup with (hgroup | hgroup) | hgroup
    · exact specialize_namePart h hgroup hc
    · exact specialize_declaration h hgroup hk hc hfits
    · exact specialize_signaturePart h hgroup hgrammatical hc
  · exact specialize_other h hgroup hk hgrammatical hc

end Node.Rule

/-- A specialization of a tree obeys the grammar if the tree does. -/
theorem Specializes.grammatical {cfg : Config} {n r : Node} (h : Specializes cfg n r)
    (hn : n.Grammatical cfg) (hk : n.kind ∉ Kind.topmost) : r.Grammatical cfg := by
  -- By induction on the specialization: a node keeps to its rule when its context is specialized.
  induction h with
  | same => exact hn
  | @context k p c c' cs h hfits ih =>
    have hc := hn.children c List.mem_cons_self
    refine .mk (hn.root.specialize hk hc h hfits) fun d hd => ?_
    rcases List.mem_cons.mp hd with rfl | hd
    · exact ih hc (hn.root.not_topmost c List.mem_cons_self)
    · exact hn.children d (List.mem_cons_of_mem _ hd)
  | @extended p m extended extended' cs h ih =>
    obtain ⟨m', e, hm, hextended, heq⟩ := hn.root.eq_extension rfl
    cases heq
    have hmem : extended ∈ (Node.mk .extensionDecl .none [m, extended]).children := by
      simp [Node.children]
    have hkind : extended'.kind ∈ Kind.nominals ++ Kind.boundNominals :=
      h.kind_mem hextended (by decide) (by decide)
    refine .mk (.extension hm hkind) fun d hd => ?_
    rcases List.mem_cons.mp hd with rfl | hd
    · exact hn.children d List.mem_cons_self
    · rw [List.mem_singleton.mp hd]
      exact ih (hn.children extended hmem) (hn.root.not_topmost extended hmem)
  | @bound n r bound arguments h hbound hne harguments ih =>
    obtain ⟨hnominal, hbound', -⟩ := Kind.bound?_spec hbound
    refine .mk (.boundNominal hbound' (.inl hbound) hne fun a ha => (harguments a ha).1) fun d hd =>
      ?_
    rcases List.mem_cons.mp hd with rfl | hd
    · refine .mk (.type (Kind.nominals_subset_types _ hnominal)) fun d hd => ?_
      rw [List.mem_singleton.mp hd]
      exact ih hn hk
    · rw [List.mem_singleton.mp hd]
      exact .mk (.typeList fun a ha => (harguments a ha).1) fun a ha => (harguments a ha).2
  | @boundFunction n r arguments h hfunction hne harguments ih =>
    refine .mk (.boundFunction hfunction hne fun a ha => (harguments a ha).1) fun d hd => ?_
    rcases List.mem_cons.mp hd with rfl | hd
    · exact ih hn hk
    · rw [List.mem_singleton.mp hd]
      exact .mk (.typeList fun a ha => (harguments a ha).1) fun a ha => (harguments a ha).2

end SwiftABI
