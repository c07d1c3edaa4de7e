/-
  Declarations that obey the grammar can be described.

  The form of a declaration asks for a context, for a name and for a type, and the declaration has
  them (`EntityForm.Suits`). Its type is refused only if labels or generic arguments are to be
  written before it and it is not one of a function.
-/
import SwiftABI.Proofs.Description.Types

namespace SwiftABI.Description

/-- The form asks for nothing that the declaration does not have. -/
structure EntityForm.Suits (form : EntityForm) (decl : Node) : Prop where
  context : 0 < decl.children.length
  name : form.hasName = true → 1 < decl.children.length
  type : form.style ≠ .hidden → ∃ t, decl.childOfKind .type = some t

/-- The form suits the node, which has one if it is a declaration. Its number is shown unless it is
a long one. -/
structure Formed (may : Flaw → Prop) (n : Node) (form? : Option EntityForm) : Prop where
  suits : ∀ form ∈ form?, n.kind ≠ .boundGenericFunction → form.Suits n
  number : ∀ form ∈ form?, ∀ i ∈ form.extraIndex, Text.isShowable i = false → may .longNumber
  declared : form? = none → n.kind ∉ Kind.declared ∧ n.kind ≠ .boundGenericFunction

section

variable {cfg : Config} {o : DisplayOptions} {may : Flaw → Prop} {fuel : Nat} {n : Node}
  {sub : Describer} (hsub : PrintsBelow cfg o may fuel sub)

include hsub

/-! ### Names and types -/

theorem prints_entityType {entity type : Node} {arguments : Option Node}
    (hn : Tame cfg o may fuel type) (harguments : ∀ l ∈ arguments, Tame cfg o may (fuel + 1) l)
    (hbad : entity.childOfKind .labelList ≠ none ∨ arguments ≠ none →
      type.kind ∉ Kind.functionTypes → may .mislabelled)
    (hlist : ∀ l ∈ entity.childOfKind .labelList, l.Grammatical cfg)
    (hlabels : ∀ l ∈ entity.childOfKind .labelList, l.children ≠ [] →
      ∃ t, t.unwrapped = type ∧ l.LabelsMatch t) :
    Prints may (entityType o sub entity type arguments) fun _ => True := by
  unfold entityType
  dsimp only
  split
  · exact prints_plain hsub hn
  · rename_i hneither
    -- There are labels or arguments, or else the plain type would have been written.
    have hbad : type.kind ∉ Kind.functionTypes → may .mislabelled := by
      apply hbad
      rcases hl : entity.childOfKind .labelList with _ | l <;> rcases arguments with _ | list
      · rw [hl] at hneither
        exact absurd rfl hneither
      · exact .inr nofun
      · exact .inl nofun
      · exact .inl nofun
    have hfunction : Prints may (functionType o sub (entity.childOfKind .labelList) type) fun _ =>
      True :=
      prints_functionType hsub (hn.mono (Nat.le_succ fuel)) hbad hlist hlabels
    split
    · rename_i list
      refine (prints_joined hsub _ fun _ => (harguments list rfl).below).bind fun _ _ => ?_
      exact hfunction.bind fun _ _ => .pure trivial
    · exact hfunction.bind fun _ _ => .pure trivial

theorem prints_entityName {entity : Node} {overwrite : Text} (hn : Tame cfg o may (fuel + 1) entity)
    (hname : overwrite.isEmpty = true → 1 < entity.children.length) :
    Prints may (entityName sub entity overwrite) fun _ => True := by
  unfold entityName
  split
  · exact .pure trivial
  · rename_i hempty
    refine (prints_child (hname (by simpa using hempty))).bind fun name hmem => ?_
    have hmem := List.mem_of_getElem? hmem
    refine Prints.branch (p := fun _ => True) (fun _ => .pure trivial) (fun _ => ?_) fun shown _ =>
      ?_
    · exact prints_plain hsub (hn.below hmem)
    · rcases hfind : entity.childOfKind .privateDeclName with _ | privateName
      · exact .pure trivial
      · exact (prints_plain hsub (hn.below (List.mem_of_find?_eq_some hfind))).bind fun _ _ =>
          .pure trivial

theorem prints_styledType {style : TypeStyle} {multiWord : Bool} {entity : Node}
    {arguments : Option Node}
    (hn : Tame cfg o may (fuel + 1) entity)
    (harguments : ∀ l ∈ arguments, Tame cfg o may (fuel + 1) l)
    (htyped : style ≠ .hidden → ∃ t, entity.childOfKind .type = some t)
    (hbad : arguments ≠ none → o.entityTypes = true → ∀ t, entity.childOfKind .type = some t →
      t.unwrapped.kind ∉ Kind.functionTypes → may .mislabelled) :
    Prints may (styledType o sub style multiWord entity arguments) fun _ => True := by
  unfold styledType
  split
  · exact .pure trivial
  · rename_i hstyle
    obtain ⟨t, ht⟩ := htyped hstyle
    have hmem : t ∈ entity.children := List.mem_of_find?_eq_some ht
    have hk : t.kind = .type := by simpa using List.find?_some ht
    obtain ⟨type, -, rfl⟩ := (hn.below hmem).rule.eq_type hk
    have htype := (hn.below hmem).child (List.mem_singleton_self type)
    have hlist : ∀ l ∈ entity.childOfKind .labelList, l.Grammatical cfg :=
      fun l hl => (hn.child? hl).grammatical
    have hlabels : ∀ l ∈ entity.childOfKind .labelList, l.children ≠ [] →
        ∃ t, t.unwrapped = type ∧ l.LabelsMatch t := by
      intro l hl hne
      obtain ⟨t', -, ht', hfit⟩ := hn.rule.exists_labelled (List.mem_of_find?_eq_some hl)
        (by simpa using List.find?_some hl)
      rw [ht] at ht'
      cases ht'
      exact ⟨type.typeOf, rfl, hfit.labelsMatch (hn.below hmem).grammatical hne⟩
    -- Labels and arguments go with the type of a function, unless the tree is a bad one.
    have hshown (hfunction : o.entityTypes = true ∨ type.kind ∈ Kind.functionTypes) :
        Prints may (entityType o sub entity type arguments) fun _ => True := by
      refine prints_entityType hsub htype harguments (fun hsome hnot => ?_) hlist hlabels
      have hentityTypes := hfunction.resolve_right hnot
      rcases hsome with hsome | hsome
      · obtain ⟨l, hl⟩ := Option.ne_none_iff_exists'.mp hsome
        exact hn.mislabelled (.declaration hentityTypes hl ht hnot)
      · exact hbad hsome hentityTypes _ ht hnot
    have hstyled : ∀ k ∈ Kind.all, k.isFunctionStyle = true → k ∈ Kind.functionTypes := by decide
    rw [ht]
    refine (prints_child Nat.one_pos).bind fun first hfirst => ?_
    cases hfirst
    split
    · rename_i hfunction
      exact (hshown (.inr (hstyled _ (Kind.mem_all _) hfunction.2))).bind fun _ _ => .pure trivial
    · split
      · rename_i hentityTypes
        exact (hshown (.inl hentityTypes)).bind fun _ _ => .pure trivial
      · exact .pure trivial

section

variable {form : EntityForm}

omit hsub in
/-- A function with generic arguments is described like the function, with the arguments beside
it. -/
private theorem prints_declaration (hn : Tame cfg o may (fuel + 1) n)
    (hform : n.kind ≠ .boundGenericFunction → form.Suits n) :
    Prints may (declaration n) fun ⟨decl, arguments⟩ =>
      Tame cfg o may (fuel + 1) decl ∧ form.Suits decl ∧
      (∀ l ∈ arguments, Tame cfg o may (fuel + 1) l) ∧
      (arguments ≠ none → o.entityTypes = true → ∀ t, decl.childOfKind .type = some t →
        t.unwrapped.kind ∉ Kind.functionTypes → may .mislabelled) := by
  unfold declaration
  split
  · rename_i hk
    obtain ⟨function, arguments, hfunction, -, -, rfl⟩ := hn.rule.eq_boundFunction hk
    have hdecl := hn.below List.mem_cons_self
    have harguments := hn.below (List.mem_cons_of_mem _ List.mem_cons_self)
    refine (prints_child Nat.zero_lt_two).bind fun first hfirst => ?_
    cases hfirst
    refine (prints_child Nat.one_lt_two).bind fun second hsecond => ?_
    cases hsecond
    have hlength : 1 < function.children.length := by
      refine Nat.lt_of_lt_of_le ?_ hdecl.rule.minChildren_le
      rcases hfunction with h | h <;> rw [h] <;> decide
    have htyped : function.kind ∈ Kind.typed := by
      rcases hfunction with h | h <;> rw [h] <;> decide
    refine .pure ⟨hdecl.mono (Nat.le_succ fuel), ⟨by omega, fun _ => hlength, fun _ => ?_⟩, ?_, ?_⟩
    · exact hdecl.rule.exists_type htyped
    · rintro _ ⟨⟩
      exact harguments.mono (Nat.le_succ fuel)
    · exact fun _ hshown t ht hnot => hn.mislabelled (.boundFunction hshown ht hnot)
  · rename_i hk
    exact .pure ⟨hn, hform hk, nofun, fun h => absurd rfl h⟩

omit hsub in
private theorem prints_isLocal {decl : Node} (hform : form.Suits decl) :
    Prints may (isLocal form decl) fun _ => True := by
  unfold isLocal
  split
  · rename_i hname
    exact (prints_child (hform.name hname)).bind fun _ _ => .pure trivial
  · exact .pure trivial

/-- What is written before a declaration leaves nothing else than its context. -/
private theorem prints_before {context : Node} {multiWord : Bool}
    (hcontext : Tame cfg o may fuel context) :
    Prints may (before o sub context multiWord) fun before =>
      ∀ d ∈ before.deferred, Tame cfg o may fuel d := by
  unfold before
  split
  · exact .pure nofun
  · split
    · refine .pure ?_
      rintro _ ⟨⟩
      exact hcontext
    · exact (hsub context true hcontext).bind fun piece hpiece => .pure hpiece

private theorem prints_named {decl : Node} {multiWord : Bool} (hn : Tame cfg o may (fuel + 1) decl)
    (hform : form.Suits decl) : Prints may (named sub form multiWord decl) fun _ => True := by
  unfold named
  split
  · exact .pure trivial
  · rename_i hnamed
    refine (prints_entityName hsub hn fun hempty => hform.name ?_).bind fun _ _ => .pure trivial
    simpa [hempty] using hnamed

omit hsub in
private theorem prints_extraNumber {extra : Text}
    (hnumber : ∀ i ∈ form.extraIndex, Text.isShowable i = false → may .longNumber) :
    Prints may (extraNumber form extra) fun _ => True := by
  unfold extraNumber
  split
  · rename_i i hi
    split
    · exact .pure trivial
    · exact .numeral (hnumber i hi)
  · exact .pure trivial

theorem prints_entity {asContext : Bool} (hn : Tame cfg o may (fuel + 1) n)
    (hform : n.kind ≠ .boundGenericFunction → form.Suits n)
    (hnumber : ∀ i ∈ form.extraIndex, Text.isShowable i = false → may .longNumber) :
    Prints may (entity o sub n asContext form) fun piece =>
      ∀ d ∈ piece.deferred, Tame cfg o may (fuel + 1) d := by
  unfold entity
  refine (prints_declaration hn hform).bind
    fun ⟨decl, arguments⟩ ⟨hdecl, hform, harguments, hmay⟩ => ?_
  refine (prints_isLocal hform).bind fun isLocal _ => ?_
  dsimp only
  split
  · refine .pure ?_
    rintro _ ⟨⟩
    exact hdecl
  · refine (prints_child hform.context).bind fun context hcontext => ?_
    refine (prints_before hsub (hdecl.below (List.mem_of_getElem? hcontext))).bind
      fun before hbefore => ?_
    refine (prints_named hsub hdecl hform).bind fun both _ => ?_
    refine (prints_extraNumber hnumber).bind fun number _ => ?_
    refine (prints_styledType hsub hdecl harguments hform.type hmay).bind fun type _ => ?_
    split
    · rename_i later hlater
      have hlater := hbefore later (by rw [hlater]; rfl)
      split
      · refine .pure ?_
        rintro _ ⟨⟩
        exact hlater.mono (Nat.le_succ fuel)
      · exact (prints_plain hsub hlater).bind fun _ _ => .pure nofun
    · exact .pure nofun

end

/-! ### Forms of declarations -/

section

omit hsub

variable {form : EntityForm} {extra : String}

/-- The grammar of the kind gives what the form asks for. -/
theorem prints_formed (hn : Tame cfg o may fuel n) (hcontext : 0 < n.kind.minChildren)
    (hname : form.hasName = true → n.kind ≠ .boundGenericFunction → 1 < n.children.length)
    (htype : form.style ≠ .hidden → n.kind ≠ .boundGenericFunction → n.kind ∈ Kind.typed)
    (hindex : ∀ i ∈ form.extraIndex, Text.isShowable i = false → may .longNumber) :
    Prints may (Pure.pure (some form) : Describing (Option EntityForm)) (Formed may n) := by
  refine .pure ⟨?_, ?_, nofun⟩
  · rintro _ ⟨⟩ hk
    exact ⟨Nat.lt_of_lt_of_le hcontext hn.rule.minChildren_le, fun h => hname h hk,
      fun h => hn.rule.exists_type (htype h hk)⟩
  · rintro _ ⟨⟩
    exact hindex

theorem prints_nominalForm (hn : Tame cfg o may fuel n) (hk : 1 < n.kind.minChildren) :
    Prints may
      (Pure.pure (some { style := .hidden, hasName := true }) : Describing (Option EntityForm))
      (Formed may n) :=
  prints_formed hn (Nat.lt_of_succ_lt hk)
    (fun _ _ => Nat.lt_of_lt_of_le hk hn.rule.minChildren_le) nofun nofun

theorem prints_nameless (hn : Tame cfg o may fuel n) (hk : 0 < n.kind.minChildren) :
    Prints may (entityForm?.nameless extra) (Formed may n) :=
  prints_formed hn hk nofun nofun nofun

/-- The number of a declaration is read before its form is given. -/
theorem prints_numberedForm (hn : Tame cfg o may fuel n) (hk : n.kind ∈ Kind.numbered)
    {g : Int → Describing (Option EntityForm)}
    (hg : ∀ i, (Text.isShowable i = false ∨ Text.isShowable (i + 1) = false → may .longNumber) →
      Prints may (g i) (Formed may n)) :
    Prints may (do g (← Fault.inTree (← n.child 1).index)) (Formed may n) := by
  obtain ⟨i, hi⟩ := hn.rule.number_second hk
  refine (prints_child (List.getElem?_eq_some_iff.mp hi).1).bind fun c hc => ?_
  rw [hi] at hc
  cases hc
  have hsecond := hn.child (List.mem_of_getElem? hi)
  exact hg i fun hlong => hsecond.longNumber ⟨.inr rfl, i, rfl, hlong⟩

theorem prints_closure (hn : Tame cfg o may fuel n)
    (hk : n.kind ∈ Kind.numbered ∧ n.kind ∈ Kind.typed ∧ 0 < n.kind.minChildren) :
    Prints may (entityForm?.closure o n extra) (Formed may n) := by
  refine prints_numberedForm hn hk.1 fun i hlong => ?_
  refine prints_formed hn hk.2.2 nofun (fun _ _ => hk.2.1) ?_
  rintro _ ⟨⟩ h
  exact hlong (.inr h)

/-- Every declaration has a form, which suits it. -/
theorem prints_entityForm? (hn : Tame cfg o may fuel n) :
    Prints may (entityForm? o n) (Formed may n) := by
  have hsecond (hk : 1 < n.kind.minChildren) : 1 < n.children.length :=
    Nat.lt_of_lt_of_le hk hn.rule.minChildren_le
  unfold entityForm?
  split
  -- One case for each kind, in the order of the definition.
  iterate 7
    · rename_i hk
      exact prints_nominalForm hn (by rw [hk]; decide)
  · rename_i hk
    exact prints_formed hn (by rw [hk]; decide) (fun _ _ => hsecond (by rw [hk]; decide))
      (fun _ _ => by rw [hk]; decide) nofun
  · rename_i hk
    exact prints_formed hn (by rw [hk]; decide) (fun _ _ => hsecond (by rw [hk]; decide))
      (fun _ _ => by rw [hk]; decide) nofun
  · rename_i hk
    exact prints_formed hn (by rw [hk]; decide) (fun _ hne => absurd hk hne)
      (fun _ hne => absurd hk hne) nofun
  · rename_i hk
    exact prints_formed hn (by rw [hk]; decide) nofun (fun _ _ => by rw [hk]; decide) nofun
  · rename_i hk
    exact prints_closure hn (by rw [hk]; decide)
  · rename_i hk
    exact prints_closure hn (by rw [hk]; decide)
  · rename_i hk
    exact prints_nameless hn (by rw [hk]; decide)
  · rename_i hk
    refine prints_numberedForm hn (by rw [hk]; decide) fun i hlong => ?_
    refine prints_formed hn (by rw [hk]; decide) nofun nofun ?_
    rintro _ ⟨⟩ h
    exact hlong (.inl h)
  · rename_i hk
    refine (prints_childOf hn.rule (by rw [hk]; decide)).bind fun _ _ => ?_
    exact prints_formed hn (by rw [hk]; decide) nofun (fun _ _ => by rw [hk]; decide) nofun
  · rename_i hk
    refine prints_formed hn (by rw [hk]; decide) (fun h _ => ?_) (fun _ _ => by rw [hk]; decide)
      nofun
    exact Nat.lt_of_succ_lt (of_decide_eq_true h)
  · rename_i hk
    exact prints_nameless hn (by rw [hk]; decide)
  · rename_i hk
    refine (prints_childOf hn.rule (by rw [hk]; decide)).bind fun _ _ => ?_
    exact prints_nameless hn (by rw [hk]; decide)
  · rename_i hk
    exact prints_nameless hn (by rw [hk]; decide)
  · rename_i hk
    exact prints_nameless hn (by rw [hk]; decide)
  · refine .pure ⟨nofun, nofun, fun _ => ⟨fun hk => ?_, ‹_›⟩⟩
    simp only [Kind.declared, Kind.nominals, Kind.bareScopes, List.cons_append, List.nil_append,
      List.mem_cons, List.not_mem_nil, or_false] at hk
    simp_all

end

theorem prints_storage {asContext : Bool} {accessor : Text} (hn : Tame cfg o may (fuel + 1) n)
    (hk : n.kind = .variableDecl ∨ n.kind = .subscriptDecl) :
    Prints may (storage o sub n asContext accessor) fun piece =>
      ∀ d ∈ piece.deferred, Tame cfg o may (fuel + 1) d := by
  have hkinds : 0 < n.kind.minChildren ∧ n.kind ∈ Kind.typed := by
    rcases hk with hk | hk <;> rw [hk] <;> decide
  have hcontext := Nat.lt_of_lt_of_le hkinds.1 hn.rule.minChildren_le
  have htype := hn.rule.exists_type hkinds.2
  unfold storage
  split
  · rename_i hk
    have hname : 1 < n.children.length :=
      Nat.lt_of_lt_of_le (by rw [hk]; decide) hn.rule.minChildren_le
    exact prints_entity hsub hn (fun _ => ⟨hcontext, fun _ => hname, fun _ => htype⟩) nofun
  · exact prints_entity hsub hn (fun _ => ⟨hcontext, nofun, fun _ => htype⟩) nofun
  · rename_i hvariable hsubscript
    rcases hk with hk | hk
    · exact absurd hk hvariable
    · exact absurd hk hsubscript

end

end SwiftABI.Description
