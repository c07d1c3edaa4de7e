/-
  Types that obey the grammar can be described.

  Generic arguments are applied to something with a context and a name, and the short ways to write
  them need one or two. The parameters of a function are counted, so that labels are found for all
  of them. What can be refused is a type that labels stand before although it is not one of a
  function.
-/
import SwiftABI.Proofs.Description.Prints
import SwiftABI.Proofs.Symbol.Shape

namespace SwiftABI.Description

section

variable {cfg : Config} {o : DisplayOptions} {may : Flaw → Prop} {fuel : Nat} {n : Node}
  {sub : Describer} (hsub : PrintsBelow cfg o may fuel sub)

include hsub

/-! ### Generic arguments -/

omit hsub in
/-- Generic arguments are applied to something that has a context and a name, and the short way to
write a dictionary needs two of them. -/
theorem prints_sugar? {k : Kind} {nominal : Node} {arguments : List Node}
    (htwo : 1 < nominal.children.length) :
    Prints may (sugar? (.mk k .none [.typeOf nominal, .mk .typeList .none arguments])) fun sugar =>
      sugar = some .dictionary → arguments.length = 2 := by
  unfold sugar?
  split
  · exact .pure nofun
  · refine (prints_child Nat.zero_lt_two).bind fun t ht => ?_
    cases ht
    refine (prints_child Nat.one_pos).bind fun unbound hunbound => ?_
    cases hunbound
    refine (prints_child Nat.one_lt_two).bind fun list hlist => ?_
    cases hlist
    refine (prints_child (Nat.lt_trans Nat.one_pos htwo)).bind fun m _ => ?_
    split
    · exact .pure nofun
    · refine (prints_child htwo).bind fun name _ => ?_
      split
      · repeat' split
        all_goals exact .pure nofun
      · split
        · exact .pure nofun
        · split
          · rename_i hdictionary
            simp only [Bool.and_eq_true, decide_eq_true_eq] at hdictionary
            exact .pure fun _ => hdictionary.2
          · exact .pure nofun

theorem prints_unsugared (hn : Tame cfg o may (fuel + 1) n) (hmin : 1 < n.kind.minChildren) :
    Prints may (unsugared sub n) fun _ => True := by
  refine (prints_childOf hn.rule (Nat.lt_of_succ_lt hmin)).bind fun t ht => ?_
  refine (prints_plain hsub (hn.below ht)).bind fun _ _ =>
    (prints_childOf hn.rule hmin).bind fun arguments ha => ?_
  exact (prints_joined hsub _ fun _ => (hn.below ha).child).bind fun _ _ => .pure trivial

theorem prints_bracketed (hn : Tame cfg o may fuel n) :
    Prints may (bracketed sub n) fun _ => True :=
  (prints_plain hsub hn).bind fun _ _ => .pure trivial

theorem prints_bracketedPair {key value : Node} (hkey : Tame cfg o may fuel key)
    (hvalue : Tame cfg o may fuel value) : Prints may (bracketedPair sub key value) fun _ => True :=
  (prints_plain hsub hkey).bind fun _ _ => (prints_plain hsub hvalue).bind fun _ _ => .pure trivial

theorem prints_boundGeneric (hn : Tame cfg o may (fuel + 1) n) (hk : n.kind ∈ Kind.boundNominals) :
    Prints may (boundGeneric o sub n) fun _ => True := by
  have hmin : ∀ k ∈ Kind.boundNominals ++ Kind.nominals, 1 < k.minChildren := by decide
  obtain ⟨nominal, arguments, hnominal, hne, -, heq⟩ := hn.rule.eq_boundNominal hk
  generalize n.kind = k at hk heq hnominal
  subst heq
  have hunsugared := prints_unsugared hsub hn (hmin k (List.mem_append_left _ hk))
  have ht := hn.below List.mem_cons_self
  have hlist := hn.below (List.mem_cons_of_mem _ List.mem_cons_self)
  have htwo : 1 < nominal.children.length := by
    refine Nat.lt_of_lt_of_le (hmin _ ?_)
      (ht.child (List.mem_singleton_self nominal)).rule.minChildren_le
    rcases hnominal with h | h
    · exact List.mem_append_right _ (Kind.bound?_spec h).1
    · exact List.mem_append_left _ (h ▸ hk)
  have hpos : 0 < arguments.length := List.length_pos_iff.mpr hne
  have hfirst : Prints may ((Node.mk .typeList .none arguments).child 0) fun a =>
    Tame cfg o may fuel a :=
    (prints_child hpos).mono fun a ha => hlist.child (List.mem_of_getElem? ha)
  -- The grammar says that there is an argument, and the sugar for a dictionary that there are two.
  unfold boundGeneric
  split
  · exact hunsugared
  · split
    · refine (prints_child Nat.one_lt_two).bind fun list hlist' => ?_
      cases hlist'
      refine (prints_joined hsub _ fun _ => hlist.child).bind fun _ _ => ?_
      refine (prints_child Nat.zero_lt_two).bind fun t ht' => ?_
      cases ht'
      exact (prints_plain hsub ht).bind fun _ _ => .pure trivial
    · refine (prints_sugar? htwo).bind fun sugar hsugar => ?_
      split
      · exact hunsugared
      · refine (prints_child Nat.one_lt_two).bind fun list hlist' => ?_
        cases hlist'
        split
        · exact hfirst.bind fun a ha => (prints_parenthesized hsub ha).bind fun _ _ => .pure trivial
        · exact hfirst.bind fun a ha => (prints_parenthesized hsub ha).bind fun _ _ => .pure trivial
        · exact hfirst.bind fun a ha => prints_bracketed hsub ha
        · have hsecond : 1 < arguments.length := by
            rw [hsugar rfl]
            exact Nat.one_lt_two
          refine hfirst.bind fun key hkey => (prints_child hsecond).bind fun value hvalue => ?_
          exact prints_bracketedPair hsub hkey (hlist.child (List.mem_of_getElem? hvalue))

/-! ### Functions -/

omit hsub in
theorem prints_labelText {label : Node} (hn : label.Rule cfg) :
    Prints may (labelText label) fun _ => True := by
  unfold labelText
  split
  · rename_i hk
    exact prints_text hn (by rw [hk]; rfl)
  · exact .ok trivial

theorem prints_parameter {showTypes : Bool} {label : Option Node} (hn : Tame cfg o may fuel n)
    (hk : n.kind = .tupleElement) (hlabel : ∀ l ∈ label, l.Rule cfg) :
    Prints may (parameter sub showTypes label n) fun _ => True := by
  have hplain := prints_plain hsub hn
  unfold parameter
  refine Prints.pass (not_not_intro hk) ?_
  rcases label with _ | label <;> cases showTypes
  · simp only [Bool.false_eq_true, if_false]
    split
    · rename_i name hname
      have hkind : name.kind = .tupleElementName := by simpa using List.find?_some hname
      exact (prints_text (hn.child? hname).rule (by rw [hkind]; rfl)).bind fun _ _ => .pure trivial
    · exact .pure trivial
  · exact hplain.bind fun _ _ => .pure trivial
  · exact (prints_labelText (hlabel label rfl)).bind fun _ _ => .pure trivial
  · exact (prints_labelText (hlabel label rfl)).bind fun _ _ => hplain.bind fun _ _ => .pure trivial

/-- Labels, if there are any, are there for all parameters that are left. -/
theorem prints_parameterList {showTypes : Bool} {labels ns : List Node}
    (hlabels : ∀ l ∈ labels, l.Rule cfg)
    (hns : ∀ n ∈ ns, Tame cfg o may fuel n ∧ n.kind = .tupleElement) :
    ∀ i, (labels ≠ [] → i + ns.length ≤ labels.length) →
      Prints may (parameterList sub showTypes labels i ns) fun _ => True := by
  -- By induction on the parameters. The number of those before them picks the label.
  induction ns with
  | nil => exact fun _ _ => .pure trivial
  | cons n ns ih =>
    intro i hcount
    obtain ⟨hn, hns⟩ := List.forall_mem_cons.mp hns
    have hrest (label : Option Node) (hlabel : ∀ l ∈ label, l.Rule cfg) : Prints may (do
        let first ← parameter sub showTypes label n
        return (if 0 < i && showTypes then ", ".text else []) ++ first ++
          (← parameterList sub showTypes labels (i + 1) ns)) fun _ => True := by
      refine (prints_parameter hsub hn.1 hn.2 hlabel).bind fun _ _ =>
        (ih hns _ fun hne => ?_).bind fun _ _ =>
        .pure trivial
      have hle := hcount hne
      rw [List.length_cons] at hle
      omega
    rw [parameterList]
    dsimp only
    split
    · exact hrest none nofun
    · rename_i hempty
      have hi : i < labels.length := by
        have hle := hcount (by simpa using hempty)
        rw [List.length_cons] at hle
        omega
      rw [List.getElem?_eq_getElem hi]
      refine hrest _ ?_
      rintro _ ⟨⟩
      exact hlabels _ (List.getElem_mem hi)

/-- What is inside the parameters is refused for its labels only if there are too few or too
many. -/
private theorem prints_inside {labelList : Option Node} {inside : Node} {showTypes : Bool}
    (hinside : Tame cfg o may fuel inside) (hlist : ∀ l ∈ labelList, l.Grammatical cfg)
    (hcount : ∀ l ∈ labelList, l.children ≠ [] → inside.children.length = l.children.length) :
    Prints may (if inside.kind ≠ .tuple then
        if showTypes then do return "(" ++ (← plain sub inside) ++ ")" else return "(_:)".text
      else do
        let labels := (labelList.map Node.children).getD []
        if let some list := labelList then
          if !labels.isEmpty && labels.length ≠ inside.children.length then refuse list .labelCount
        return "(" ++ (← parameterList sub showTypes labels 0 inside.children) ++ ")") fun _ =>
          True := by
  split
  · split
    · exact (prints_plain hsub hinside).bind fun _ _ => .pure trivial
    · exact .pure trivial
  · rename_i hk
    have hall : ∀ c ∈ inside.children, Tame cfg o may fuel c ∧ c.kind = .tupleElement :=
      fun c hc => ⟨hinside.child hc, hinside.rule.kind_element (Decidable.of_not_not hk) c hc⟩
    have hshown {labels : List Node} (hlabels : ∀ l ∈ labels, l.Rule cfg)
        (hlength : labels ≠ [] → inside.children.length = labels.length) : Prints may
        (do return "(" ++ (← parameterList sub showTypes labels 0 inside.children) ++ ")") fun _ =>
        True := by
      refine (prints_parameterList hsub hlabels hall 0 fun hne => ?_).bind fun _ _ => .pure trivial
      rw [hlength hne]
      omega
    rcases labelList with _ | list
    · exact hshown nofun fun hne => absurd rfl hne
    · refine Prints.pass ?_
        (hshown (fun l hl => ((hlist list rfl).children l hl).root) (hcount list rfl))
      intro h
      simp only [Option.map_some, Option.getD_some, Bool.and_eq_true, Bool.not_eq_true',
        decide_eq_true_eq] at h
      exact h.2 (hcount list rfl (by simpa using h.1)).symm

/-- Labels that are not empty are as many as the elements of the tuple, if it is one. What has been
written are the parameters of a function. -/
theorem prints_parameters {labelList : Option Node} {arguments : Node} {showTypes : Bool}
    (hn : Tame cfg o may (fuel + 1) arguments)
    (hbad : arguments.kind ≠ .argumentTuple → may .mislabelled)
    (hlist : ∀ l ∈ labelList, l.Grammatical cfg)
    (hlabels : ∀ l ∈ labelList, l.children ≠ [] → ∃ p t, arguments = .mk .argumentTuple p [t] ∧
      t.unwrapped.children.length = l.children.length) :
    Prints may (parameters sub labelList arguments showTypes) fun _ =>
    arguments.kind = .argumentTuple := by
  unfold parameters
  refine Prints.guard hbad rfl fun hk => ?_
  have hk := Decidable.of_not_not hk
  obtain ⟨t, ht, heq⟩ := hn.rule.eq_argumentTuple hk
  generalize argumentCount t = count at heq
  subst heq
  refine (prints_child Nat.one_pos).bind fun first hfirst => ?_
  cases hfirst
  obtain ⟨inside, -, rfl⟩ := (hn.below (List.mem_singleton_self t)).rule.eq_type ht
  rw [if_pos ht]
  refine (prints_child Nat.one_pos).bind fun first hfirst => ?_
  cases hfirst
  refine Prints.mono (prints_inside hsub ?_ hlist fun l hl hne => ?_) fun _ _ => rfl
  · exact (hn.below (List.mem_singleton_self _)).child (List.mem_singleton_self inside)
  · obtain ⟨p, t', heq, hlength⟩ := hlabels l hl hne
    cases heq
    exact hlength

omit hsub in
/-- Where the arguments of a function type are looked for. -/
theorem argumentsOf?_of_child {first arguments : Node} (hfirst : n.children[0]? = some first)
    (h : n.children[if first.kind = .throwsMarker then 1 else 0]? = some arguments) :
    Reading.argumentsOf? n = some arguments := by
  rcases n with ⟨k, p, _ | ⟨a, cs⟩⟩
  · cases hfirst
  · cases hfirst
    rcases first with ⟨k', p', cs'⟩
    unfold Reading.argumentsOf?
    split at h
    · rename_i hk
      change k' = .throwsMarker at hk
      rcases cs with _ | ⟨b, cs⟩
      · cases h
      · subst hk
        exact h
    · rename_i hk
      split
      · rename_i heq
        cases heq
        exact absurd rfl hk
      · rename_i heq
        cases heq
        exact h
      · rename_i heq
        cases heq

/-- Labels go with the type, and only the types of functions are written with parameters. -/
theorem prints_functionType {labelList : Option Node} (hn : Tame cfg o may (fuel + 1) n)
    (hbad : n.kind ∉ Kind.functionTypes → may .mislabelled)
    (hlist : ∀ l ∈ labelList, l.Grammatical cfg)
    (hlabels : ∀ l ∈ labelList, l.children ≠ [] → ∃ t, t.unwrapped = n ∧ l.LabelsMatch t) :
    Prints may (functionType o sub labelList n) fun _ => True := by
  unfold functionType
  -- Only what is no type of a function can have too few children.
  refine Prints.guard (fun hlength => hbad fun hk => ?_) rfl fun hlength => ?_
  · obtain ⟨throws, arguments, result, -, -, -, heq⟩ := hn.rule.eq_functionType hk
    rw [heq] at hlength
    rcases throws with _ | m
    · exact hlength.1 rfl
    · exact hlength.2 rfl
  refine (prints_child (by omega)).bind fun first hfirst => ?_
  dsimp only
  have hstart : (if first.kind = .throwsMarker then 1 else 0) < n.children.length := by
    split <;> omega
  refine (prints_child hstart).bind fun arguments harguments => ?_
  have hmem := List.mem_of_getElem? harguments
  refine (prints_parameters hsub ((hn.below hmem).mono (Nat.le_succ fuel))
    (fun hkind => hbad fun hk => ?_) hlist ?_).bind fun shown hkind => ?_
  · obtain ⟨arguments', -, hkind', heq, -⟩ := hn.rule.eq_parameters hk hfirst
    rw [heq] at harguments
    cases harguments
    exact hkind hkind'
  · intro l hl hne
    obtain ⟨t, rfl, hmatch⟩ := hlabels l hl hne
    obtain ⟨parameters, heq, -, hlength⟩ := hmatch.count
    rw [argumentsOf?_of_child hfirst harguments] at heq
    exact ⟨_, parameters, Option.some.inj heq, hlength⟩
  · split
    · exact .pure trivial
    · obtain ⟨-, result, -, -, hresult⟩ :=
        hn.rule.eq_parameters (hn.rule.mem_functionTypes hmem hkind) hfirst
      refine (prints_child (List.getElem?_eq_some_iff.mp hresult).1).bind fun result hresult => ?_
      exact (prints_plain hsub (hn.below (List.mem_of_getElem? hresult))).bind fun _ _ =>
        .pure trivial

/-! ### Metatypes, compositions and tuples -/

theorem prints_metatype (hn : Tame cfg o may (fuel + 1) n)
    (hk : n.kind = .metatype ∨ n.kind = .existentialMetatype) :
    Prints may (metatype sub n) fun _ => True := by
  obtain ⟨representation, t, ht, hchildren⟩ := hn.rule.eq_metatype hk
  have hmem : t ∈ n.children := by
    rw [hchildren]
    exact List.mem_append_right _ (List.mem_singleton_self t)
  have htype := hn.below hmem
  obtain ⟨type, -, heq⟩ := htype.rule.eq_type ht
  have hinstance : Prints may (metatype.instanceType sub n t) fun _ => True := by
    unfold metatype.instanceType
    split
    · exact (prints_plain hsub htype).bind fun _ _ => .pure trivial
    · refine (prints_childOf htype.rule (by rw [ht]; decide)).bind fun type htype' => ?_
      exact (prints_parenthesized hsub (htype.child htype')).bind fun _ _ => .pure trivial
  unfold metatype
  rcases representation with _ | r
  · have hfirst : n.child 0 = .ok t := by
      unfold Node.child
      rw [hchildren]
      rfl
    rw [if_neg (by simp [hchildren]), hfirst]
    exact hinstance
  · have hfirst : n.child 0 = .ok r := by
      unfold Node.child
      rw [hchildren]
      rfl
    have hsecond : n.child 1 = .ok t := by
      unfold Node.child
      rw [hchildren]
      rfl
    rw [if_pos (by rw [hchildren]; rfl), hfirst, hsecond]
    refine (prints_plain hsub (n := r) (hn.below ?_)).bind fun _ _ => hinstance.bind fun _ _ =>
      .pure trivial
    rw [hchildren]
    exact List.mem_cons_self

theorem prints_classComposition (hn : Tame cfg o may (fuel + 1) n)
    (hk : n.kind = .protocolListWithAnyObject) :
    Prints may (classComposition o sub n) fun _ => True := by
  obtain ⟨list, hlist, rfl⟩ := hn.rule.eq_classComposition hk
  refine (prints_child Nat.one_pos).bind fun first hfirst => ?_
  cases hfirst
  have hbelow := hn.below (List.mem_singleton_self list)
  refine (prints_childOf hbelow.rule (by rw [hlist]; decide)).bind fun types htypes => ?_
  dsimp only
  split
  · exact .pure trivial
  · exact (prints_joined hsub _ fun _ => (hbelow.child htypes).child).bind fun _ _ => .pure trivial

/-- What follows the label of an element. -/
private theorem prints_elementType (hn : Tame cfg o may (fuel + 1) n) (hk : n.kind = .tupleElement)
    (label : Text) :
    Prints may (match n.childOfKind .type with
      | none => refuse n .untypedElement
      | some t => do
        let dots := if (n.childOfKind .variadicMarker).isSome then "...".text else []
        return label ++ (← plain sub t) ++ dots) fun _ => True := by
  obtain ⟨t, ht⟩ := hn.rule.exists_type (by rw [hk]; decide)
  rw [ht]
  exact (prints_plain hsub (hn.below (List.mem_of_find?_eq_some ht))).bind fun _ _ => .pure trivial

theorem prints_tupleElement (hn : Tame cfg o may (fuel + 1) n) (hk : n.kind = .tupleElement) :
    Prints may (tupleElement sub n) fun _ => True := by
  unfold tupleElement
  dsimp only
  split
  · rename_i name hname
    have hkind : name.kind = .tupleElementName := by simpa using List.find?_some hname
    exact (prints_text (hn.child? hname).rule (by rw [hkind]; rfl)).bind fun _ _ =>
      prints_elementType hsub hn hk _
  · exact prints_elementType hsub hn hk _

end

end SwiftABI.Description
