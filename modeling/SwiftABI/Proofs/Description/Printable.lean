/-
  What can be described.

  A tree that has been read has everything that its description asks for: the children that are
  looked for are there, names have texts and numbers have values, no index is negative, and every
  kind has its phrase. So it is described with all options, unless a declaration has labels and a
  type that is not one of a function, or a number has more digits than can be shown
  (`describable_demangle`).

  The kinds without a fixed phrase are taken in groups: names, numbers, types, and the parts of
  functions (`prints_other`).
-/
import SwiftABI.Proofs.Description.Entities
import SwiftABI.Proofs.Description.ParameterNames

namespace SwiftABI

namespace Kind

/-- Kinds of nodes with a text that is shown. -/
def textual : List Kind :=
  [.moduleName, .identifier, .builtinTypeName, .metatypeRepresentation, .suffix, .infixOperator,
   .prefixOperator, .postfixOperator, .tupleElementName]

/-- Kinds of names that are made of others. -/
def compoundNames : List Kind := [.localDeclName, .privateDeclName, .relatedEntityDeclName]

/-- Kinds of nodes with a number, or with a phrase for it. -/
def numeric : List Kind := [.index, .number, .directness, .valueWitness, .fieldOffset]

/-- Kinds of types that are described by their parts. -/
def composite : List Kind :=
  boundNominals ++
    [.type, .dependentGenericParamType, .metatype, .existentialMetatype, .protocolList,
     .protocolListWithAnyObject, .sugaredOptional, .sugaredArray, .sugaredDictionary, .sugaredParen]

/-- Kinds of lists, and of parts of functions and symbols. -/
def grouped : List Kind :=
  [.typeList, .labelList, .argumentTuple, .returnType, .tuple, .tupleElement, .extensionDecl,
   .typeMangling]

end Kind

namespace Description

section

variable {cfg : Config} {o : DisplayOptions} {may : Flaw → Prop} {fuel : Nat} {n : Node}
  {sub : Describer} (hsub : PrintsBelow cfg o may fuel sub)

include hsub

/-! ### Nodes without a phrase -/

theorem prints_privateName (hn : Tame cfg o may (fuel + 1) n) (hk : n.kind = .privateDeclName) :
    Prints may (privateName o sub n) fun _ => True := by
  have hdiscriminator : Prints may (do Fault.inTree (← n.child 0).text) fun _ => True := by
    obtain ⟨discriminator, name, hkind, heq⟩ := hn.rule.eq_privateDeclName hk
    subst heq
    refine (prints_child (Nat.zero_lt_succ _)).bind fun first hfirst => ?_
    cases hfirst
    exact prints_text (hn.below List.mem_cons_self).rule (by rw [hkind]; rfl)
  unfold privateName
  dsimp only
  split
  · rename_i htwo
    refine (prints_child htwo).bind fun name hname => ?_
    refine (prints_plain hsub (hn.below (List.mem_of_getElem? hname))).bind fun _ _ => ?_
    split
    · exact .pure trivial
    · exact hdiscriminator.bind fun _ _ => .pure trivial
  · split
    · exact hdiscriminator.bind fun _ _ => .pure trivial
    · exact .pure trivial

omit hsub in
theorem prints_remarked {remark : String} (hn : n.Rule cfg) (hshape : n.kind.payloadShape = .text) :
    Prints may (remarked n remark) fun _ => True :=
  (prints_text hn hshape).bind fun _ _ => .pure trivial

theorem prints_typeMangling (hn : Tame cfg o may (fuel + 1) n) (hk : n.kind = .typeMangling) :
    Prints may (do
      let first ← n.child 0
      if first.kind = .labelList then functionType o sub (some first) (← (← n.child 1).child 0)
      else plain sub first) fun _ => True := by
  obtain ⟨labels, t, ht, hfit, rfl⟩ := hn.rule.eq_typeMangling hk
  rcases labels with _ | labels
  · refine (prints_child Nat.one_pos).bind fun first hfirst => ?_
    cases hfirst
    rw [if_neg (by rw [ht]; decide)]
    exact prints_plain hsub (hn.below List.mem_cons_self)
  · have htype := hn.below (List.mem_cons_of_mem _ List.mem_cons_self)
    have hlabels := hn.below List.mem_cons_self
    obtain ⟨type, -, rfl⟩ := htype.rule.eq_type ht
    refine (prints_child Nat.zero_lt_two).bind fun first hfirst => ?_
    cases hfirst
    split
    · rename_i hkind
      refine (prints_child Nat.one_lt_two).bind fun second hsecond => ?_
      cases hsecond
      refine (prints_child Nat.one_pos).bind fun inside hinside => ?_
      cases hinside
      have hinside := htype.child (List.mem_singleton_self type)
      refine prints_functionType hsub (hinside.mono (Nat.le_succ fuel)) ?_ ?_ ?_
      · exact fun hnot => hn.mislabelled (.typeMangling hkind hnot)
      · rintro _ ⟨⟩
        exact hlabels.grammatical
      · rintro _ ⟨⟩ hne
        exact ⟨type.typeOf, rfl, hfit.labelsMatch htype.grammatical hne⟩
    · exact prints_plain hsub hlabels

/-- Most nodes without a phrase write something around one of their children. -/
theorem prints_around {i : Nat} {f : Text → Describing Text} (hn : Tame cfg o may (fuel + 1) n)
    (hi : i < n.kind.minChildren) (hf : ∀ t, Prints may (f t) fun _ => True) :
    Prints may (do f (← plain sub (← n.child i))) fun _ => True :=
  (prints_childOf hn.rule hi).bind fun _ hc =>
    (prints_plain hsub (hn.below hc)).bind fun t _ => hf t

theorem prints_extensionDecl (hn : Tame cfg o may (fuel + 1) n) (hk : n.kind = .extensionDecl) :
    Prints may (do
      let lead ←
        if o.qualifyEntities && o.extensionContexts then do
          pure ("(extension in " ++ (← sub (← n.child 0) true).text ++ "):")
        else pure []
      return lead ++ (← plain sub (← n.child 1))) fun _ => True := by
  have hextended (lead : Text) : Prints may (do return lead ++ (← plain sub (← n.child 1))) fun _ =>
    True :=
    prints_around hsub hn (by rw [hk]; decide) fun _ => .pure trivial
  dsimp only
  split
  · refine (prints_childOf hn.rule (by rw [hk]; decide)).bind fun m hm => ?_
    exact (hsub m true (hn.below hm)).bind fun _ _ => hextended _
  · exact hextended _

theorem prints_localDeclName (hn : Tame cfg o may (fuel + 1) n) (hk : n.kind = .localDeclName) :
    Prints may (do
      let name ← plain sub (← n.child 1)
      let number ← Fault.inTree (← n.child 0).index
      return name ++ " #" ++ (← numeral (number + 1))) fun _ => True := by
  refine prints_around hsub hn (by rw [hk]; decide) fun _ => ?_
  obtain ⟨i, name, -, heq⟩ := hn.rule.eq_localDeclName hk
  have hmem : Node.mk .number (.index i) [] ∈ n.children := by
    rw [heq]
    exact List.mem_cons_self
  have hlong := (hn.below hmem).longNumber
  rw [heq]
  refine (prints_child Nat.zero_lt_two).bind fun c hc => ?_
  cases hc
  have hnumber : Prints may (numeral (i + 1)) fun _ => True :=
    .numeral fun h => hlong ⟨.inr rfl, i, rfl, .inr h⟩
  exact hnumber.bind fun _ _ => .pure trivial

omit hsub in
/-- A parameter with an index that is not negative has a name, if its depth can be shown. -/
theorem prints_parameterName {depth index : Nat}
    (h : Text.isShowable depth = false → may .longNumber) :
    Prints may (parameterName depth index) fun _ => True := by
  have hletters : Text.letters? index = some (Text.letters index) :=
    if_pos (Int.natCast_nonneg index)
  unfold parameterName
  rw [hletters]
  refine (Prints.pure (p := fun _ => True) trivial).bind fun letters _ => ?_
  split
  · exact .pure trivial
  · exact (Prints.numeral h).bind fun _ _ => .pure trivial

omit hsub in
theorem prints_genericParameter (hn : Tame cfg o may (fuel + 1) n)
    (hk : n.kind = .dependentGenericParamType) :
    Prints may (do
      let depth ← Fault.inTree (← n.child 0).index
      let index ← Fault.inTree (← n.child 1).index
      parameterName depth index) fun _ => True := by
  obtain ⟨depth, index, rfl⟩ := hn.rule.eq_genericParameter hk
  have hlong := (hn.below List.mem_cons_self).longNumber
  show Prints may (parameterName depth index) _
  exact prints_parameterName fun h => hlong ⟨.inl rfl, depth, rfl, .inl h⟩

theorem prints_composition (hn : Tame cfg o may (fuel + 1) n) (hk : n.kind = .protocolList) :
    Prints may (do
      let protocols := (← n.child 0).children
      if protocols.isEmpty then return "Any".text else joined sub " & ".text protocols)
      fun _ => True := by
  refine (prints_childOf hn.rule (by rw [hk]; decide)).bind fun list hlist => ?_
  dsimp only
  split
  · exact .pure trivial
  · exact prints_joined hsub _ fun _ => (hn.below hlist).child

/-- The index of a witness is one of a slot that has a name. -/
theorem prints_valueWitness (hn : Tame cfg o may (fuel + 1) n) (hk : n.kind = .valueWitness) :
    Prints may (do
      match Code.valueWitness? (← Fault.inTree n.index) with
      | none => .error (.fault (.tree .unknownWitness))
      | some (_, name) =>
        return name ++ " value witness for " ++ (← plain sub (← n.child 0))) fun _ => True := by
  obtain ⟨i, t, hi, rfl⟩ := hn.rule.eq_valueWitness hk
  have hname : Code.valueWitness? (i : Int) = some Code.valueWitnesses[i] :=
    List.getElem?_eq_getElem hi
  refine (Prints.ok (p := (· = (i : Int))) rfl).bind fun j hj => ?_
  subst hj
  split
  · rename_i hnone
    rw [hname] at hnone
    cases hnone
  · exact prints_around hsub hn (by rw [hk]; decide) fun _ => .pure trivial

omit hsub in
/-- A number is shown unless it is a long one. -/
theorem prints_number (hn : Tame cfg o may (fuel + 1) n) (hk : n.kind = .index ∨ n.kind = .number) :
    Prints may (do numeral (← Fault.inTree n.index)) fun _ => True := by
  have hshape : n.kind.payloadShape = .index := by rcases hk with hk | hk <;> rw [hk] <;> rfl
  refine (prints_index hn.rule hshape).bind fun i hi => ?_
  exact .numeral fun h => hn.longNumber ⟨hk, i, hi, .inl h⟩

/-! ### Groups of kinds -/

omit hsub in
theorem prints_other_textual (hn : Tame cfg o may (fuel + 1) n) (hk : n.kind ∈ Kind.textual) :
    Prints may (other o sub n) fun _ => True := by
  have hshape : ∀ k ∈ Kind.textual, k.payloadShape = .text := by decide
  have htext : Prints may (Fault.inTree n.text) fun _ => True := prints_text hn.rule (hshape _ hk)
  have hremarked (remark : String) : Prints may (remarked n remark) fun _ => True :=
    prints_remarked hn.rule (hshape _ hk)
  rcases n with ⟨k, p, cs⟩
  simp only [Kind.textual, Node.kind, List.mem_cons, List.not_mem_nil, or_false] at hk
  rcases hk with rfl | rfl | rfl | rfl | rfl | rfl | rfl | rfl | rfl
  · show Prints may (if o.moduleNames then _ else _) _
    split
    · exact htext
    · exact .pure trivial
  · exact htext
  · exact htext
  · exact htext
  · show Prints may (if o.unmangledSuffix then _ else _) _
    split
    · exact htext.bind fun _ _ => .pure trivial
    · exact .pure trivial
  · exact hremarked " infix"
  · exact hremarked " prefix"
  · exact hremarked " postfix"
  · exact hremarked ": "

theorem prints_other_compoundName (hn : Tame cfg o may (fuel + 1) n)
    (hk : n.kind ∈ Kind.compoundNames) :
    Prints may (other o sub n) fun _ => True := by
  rcases n with ⟨k, p, cs⟩
  simp only [Kind.compoundNames, Node.kind, List.mem_cons, List.not_mem_nil, or_false] at hk
  rcases hk with rfl | rfl | rfl
  · exact prints_localDeclName hsub hn rfl
  · exact prints_privateName hsub hn rfl
  · exact (prints_text hn.rule rfl).bind fun _ _ => prints_around hsub hn Nat.one_pos fun _ =>
      .pure trivial

theorem prints_other_numeric (hn : Tame cfg o may (fuel + 1) n) (hk : n.kind ∈ Kind.numeric) :
    Prints may (other o sub n) fun _ => True := by
  rcases n with ⟨k, p, cs⟩
  simp only [Kind.numeric, Node.kind, List.mem_cons, List.not_mem_nil, or_false] at hk
  rcases hk with rfl | rfl | rfl | rfl | rfl
  · exact prints_number hn (.inl rfl)
  · exact prints_number hn (.inr rfl)
  · exact (prints_index hn.rule rfl).bind fun _ _ => .pure trivial
  · exact prints_valueWitness hsub hn rfl
  · exact prints_around hsub hn Nat.two_pos fun _ => prints_around hsub hn Nat.one_lt_two fun _ =>
      .pure trivial

theorem prints_other_composite (hn : Tame cfg o may (fuel + 1) n) (hk : n.kind ∈ Kind.composite) :
    Prints may (other o sub n) fun _ => True := by
  have hchild {i : Nat} (hi : i < n.kind.minChildren) :
      Prints may (n.child i) fun c => Tame cfg o may fuel c :=
    (prints_childOf hn.rule hi).mono fun _ hc => hn.below hc
  rcases List.mem_append.mp hk with hbound | hk
  · have hgeneric := prints_boundGeneric hsub hn hbound
    rcases n with ⟨k, p, cs⟩
    simp only [Kind.boundNominals, Node.kind, List.mem_cons, List.not_mem_nil, or_false] at hbound
    rcases hbound with rfl | rfl | rfl | rfl | rfl | rfl <;> exact hgeneric
  rcases n with ⟨k, p, cs⟩
  simp only [Node.kind, List.mem_cons, List.not_mem_nil, or_false] at hk
  rcases hk with rfl | rfl | rfl | rfl | rfl | rfl | rfl | rfl | rfl | rfl
  · exact (hchild Nat.one_pos).bind fun c hc => prints_plain hsub hc
  · exact prints_genericParameter hn rfl
  · exact prints_metatype hsub hn (.inl rfl)
  · exact prints_metatype hsub hn (.inr rfl)
  · exact prints_composition hsub hn rfl
  · exact prints_classComposition hsub hn rfl
  · exact (hchild Nat.one_pos).bind fun c hc => (prints_parenthesized hsub hc).bind fun _ _ =>
      .pure trivial
  · exact (hchild Nat.one_pos).bind fun c hc => prints_bracketed hsub hc
  · exact (hchild Nat.two_pos).bind fun key hkey => (hchild Nat.one_lt_two).bind fun value hvalue =>
      prints_bracketedPair hsub hkey hvalue
  · exact prints_around hsub hn Nat.one_pos fun _ => .pure trivial

theorem prints_other_grouped (hn : Tame cfg o may (fuel + 1) n) (hk : n.kind ∈ Kind.grouped) :
    Prints may (other o sub n) fun _ => True := by
  have hjoined (separator : Text) : Prints may (joined sub separator n.children) fun _ => True :=
    prints_joined hsub separator fun _ => hn.below
  rcases n with ⟨k, p, cs⟩
  simp only [Kind.grouped, Node.kind, List.mem_cons, List.not_mem_nil, or_false] at hk
  rcases hk with rfl | rfl | rfl | rfl | rfl | rfl | rfl | rfl
  · exact hjoined _
  · exact .pure trivial
  · have hnone (l : Node) : l ∉ (none : Option Node) := Option.not_mem_none l
    exact (prints_parameters hsub hn (fun h => absurd rfl h) (fun l hl => absurd hl (hnone l))
      fun l hl => absurd hl (hnone l)).mono fun _ _ => trivial
  · exact (hjoined _).bind fun _ _ => .pure trivial
  · exact (hjoined _).bind fun _ _ => .pure trivial
  · exact prints_tupleElement hsub hn rfl
  · exact prints_extensionDecl hsub hn rfl
  · exact prints_typeMangling hsub hn rfl

theorem prints_other (hn : Tame cfg o may (fuel + 1) n)
    (hk :
      n.kind ∈ Kind.textual ++ Kind.compoundNames ++ Kind.numeric ++ Kind.composite ++
      Kind.grouped) :
    Prints may (other o sub n) fun _ => True := by
  rw [List.mem_append, List.mem_append, List.mem_append, List.mem_append] at hk
  rcases hk with (((hk | hk) | hk) | hk) | hk
  · exact prints_other_textual hn hk
  · exact prints_other_compoundName hsub hn hk
  · exact prints_other_numeric hsub hn hk
  · exact prints_other_composite hsub hn hk
  · exact prints_other_grouped hsub hn hk

/-! ### Trees -/

theorem prints_ofNode {asContext : Bool} (hn : Tame cfg o may (fuel + 1) n) :
    Prints may (ofNode o sub n asContext) fun piece =>
      ∀ d ∈ piece.deferred, Tame cfg o may (fuel + 1) d := by
  have hlead : ∀ k ∈ Kind.all, k.leadPhrase?.isSome = true → 0 < k.minChildren := by decide
  have haccessor : ∀ k ∈ Kind.all, k.accessorName?.isSome = true → k ∈ Kind.accessors ∧
    0 < k.minChildren := by decide
  have hconvention : ∀ k ∈ Kind.all, k.conventionPhrase?.isSome = true →
    k ∈ Kind.functionTypes := by decide
  have hother : ∀ k ∈ Kind.all, k.leadPhrase?.isNone = true → k.markPhrase?.isNone = true →
      k.accessorName?.isNone = true → k.conventionPhrase?.isNone = true →
        k ∉ Kind.declared ∧ k ≠ .boundGenericFunction → k ≠ .global →
          k ∈ Kind.textual ++ Kind.compoundNames ++ Kind.numeric ++ Kind.composite ++
          Kind.grouped := by
    decide +kernel
  have hkind := Kind.mem_all n.kind
  unfold ofNode
  split
  · rename_i phrase hk
    refine (prints_childOf hn.rule (hlead _ hkind (by rw [hk]; rfl))).bind fun c hc => ?_
    exact (prints_plain hsub (hn.below hc)).bind fun _ _ => .pure nofun
  · rename_i hnolead
    split
    · exact .pure nofun
    · rename_i hnomark
      split
      · rename_i hk
        obtain ⟨hk, hpos⟩ := haccessor _ hkind (by rw [hk]; rfl)
        refine (prints_childOf hn.rule hpos).bind fun c hc => ?_
        exact prints_storage hsub ((hn.below hc).mono (Nat.le_succ fuel))
          (hn.rule.kind_storage hk hc)
      · rename_i hnoaccessor
        split
        · rename_i hk
          have hfunction := hconvention _ hkind (by rw [hk]; rfl)
          exact (prints_functionType hsub hn (fun h => absurd hfunction h) (by nofun)
            (by nofun)).bind fun _ _ => .pure nofun
        · rename_i hnoconvention
          refine (prints_entityForm? hn).bind fun form? hform => ?_
          split
          · exact prints_entity hsub hn (hform.suits _ rfl) (hform.number _ rfl)
          · refine (prints_other hsub hn ?_).bind fun _ _ => .pure nofun
            exact hother _ hkind (by rw [hnolead]; rfl) (by rw [hnomark]; rfl)
              (by rw [hnoaccessor]; rfl)
              (by rw [hnoconvention]; rfl) (hform.declared rfl) hn.rule.kind_ne_global

end

theorem printsBelow_describeAt (cfg : Config) (o : DisplayOptions) (may : Flaw → Prop)
    (fuel : Nat) :
    PrintsBelow cfg o may fuel (describeAt o fuel) := by
  induction fuel with
  | zero =>
    intro n _ hn
    exact absurd n.size_pos (Nat.not_lt.mpr hn.size)
  | succ fuel ih => exact fun _ _ hn => prints_ofNode ih hn

/-- The root of a symbol is described by what is below it. -/
theorem prints_describeAt_symbol {cfg : Config} {o : DisplayOptions} {may : Flaw → Prop} {n : Node}
    (hn : n.IsSymbol cfg) (hmay : n.All fun m => ∀ flaw : Flaw, flaw.In o m → may flaw) :
    Prints may (describeAt o n.size n false) fun _ => True := by
  obtain ⟨fuel, hfuel⟩ : ∃ fuel, n.size = fuel + 1 := Nat.exists_eq_add_one.mpr n.size_pos
  have hbelow : ∀ c ∈ n.children, Tame cfg o may fuel c := by
    intro c hc
    obtain ⟨m, hm, rfl⟩ := hn.children c hc
    have hlt := Node.size_lt_of_mem_children hc
    exact ⟨hm.grammatical_unwrapped.and (hmay.children _ hc), by omega⟩
  have hjoined := prints_joined (printsBelow_describeAt cfg o may fuel) [] hbelow
  have hdescribed : Prints may
      (ofNode o (describeAt o fuel) (.mk .global .none n.children) false) fun _ => True :=
    hjoined.bind fun _ _ => .pure trivial
  rw [hfuel]
  rwa [← hn.root] at hdescribed

end Description

open Description in
/-- A tree that has been read is described, or it has a mislabelled node, and is refused for a type
that is not one of a function, or it has a number that cannot be shown. -/
theorem describe_cases {cfg : Config} {n : Node} (hn : n.IsSymbol cfg ∨ n.Made cfg)
    (o : DisplayOptions) :
    (∃ shown, describe o n = .ok shown) ∨
      ((∃ m ∈ n.walk, m.Mislabelled o) ∧
        ∃ e, describe o n = .error (.fault e) ∧ e.reason.isNoFunction = true) ∨
      (∃ m ∈ n.walk, m.HasLongNumber) ∧ describe o n = .error .unshowable := by
  -- The description may stop for the flaws that some node has.
  have hmay : n.All fun m => ∀ flaw : Flaw, flaw.In o m → ∃ m ∈ n.walk, flaw.In o m :=
    Node.All.iff_walk.mpr fun m hm flaw h => ⟨m, hm, h⟩
  have hprints : Prints (fun flaw => ∃ m ∈ n.walk, flaw.In o m)
      (describeAt o n.size n false) fun _ => True := by
    rcases hn with hn | hn
    · exact prints_describeAt_symbol hn hmay
    · exact (printsBelow_describeAt cfg o _ n.size n false
        ⟨hn.grammatical.and hmay, Nat.le_refl _⟩).mono fun _ _ => trivial
  unfold describe
  rcases hpiece : describeAt o n.size n false with stop | piece <;> rw [hpiece] at hprints
  · obtain ⟨flaw, hflaw, hstop⟩ := hprints
    cases hstop with
    | mislabelled hrefused =>
      obtain ⟨e, rfl, he⟩ := hrefused
      exact .inr (.inl ⟨hflaw, e, rfl, he⟩)
    | longNumber => exact .inr (.inr ⟨hflaw, rfl⟩)
  · exact .inl ⟨piece.text, rfl⟩

/-! ### Trees that have been read -/

/-- Every symbol and every type that has been read can be described with all options, unless a
declaration in it has labels and a type that is not one of a function, or a number in it is too long
to be shown. -/
theorem describable_demangle (cfg : Config) (text : Text) (t : Node)
    (h : demangle cfg text = .ok t ∨ demangleType cfg text = .ok t) (o : DisplayOptions) :
    (∃ shown, describe o t = .ok shown) ∨
      ((∃ n ∈ t.walk, n.Mislabelled o) ∧
        ∃ e, describe o t = .error (.fault e) ∧ e.reason.isNoFunction = true) ∨
      (∃ n ∈ t.walk, n.HasLongNumber) ∧ describe o t = .error .unshowable := by
  rcases h with h | h
  · exact describe_cases (.inl (isSymbol_of_demangle h)) o
  · exact describe_cases (.inr (made_of_demangleType h)) o

/-- The property `b: Int` of a module, with an empty list of labels. -/
def labelledProperty : Node :=
  .mk .global .none [.mk .variableDecl .none
    [.moduleName ['a'], .identifier ['b'], .mk .labelList .none [],
     .typeOf (.mk .structType .none [.moduleName Standard.moduleText, .identifier "Int".text])]]

theorem describable_demangle_labelledProperty :
    demangle {} "$s1a1bySivp".text = .ok labelledProperty ∧
      (∃ n ∈ labelledProperty.walk, n.Mislabelled .standard) ∧
        ∃ e, describe .standard labelledProperty = .error (.fault e) ∧
        e.reason.isNoFunction = true := by
  have h : demangle {} "$s1a1bySivp".text = .ok labelledProperty := by decide +kernel
  have hrefused : describe .standard labelledProperty
      = .error (.fault ⟨.moduleName, .expectedArgumentTuple⟩) := by
    rfl
  refine ⟨h, ?_⟩
  rcases describable_demangle {} _ _ (.inl h) .standard with ⟨shown, hshown⟩ | hbad | ⟨-, hlong⟩
  · rw [hrefused] at hshown
    cases hshown
  · exact hbad
  · rw [hrefused] at hlong
    cases hlong

end SwiftABI
