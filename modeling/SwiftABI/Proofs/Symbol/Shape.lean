/-
  The shape of the trees that are read.

  The grammar implies a few laws that the check of each node alone does not: the arguments of a
  function are counted, labels go with the parameters of the type beside them, generic arguments are
  applied to the matching kind, and numbers are in their range (`Node.ShapeLaws`). They hold of
  every node of a tree that has been read (`shapeLaws_demangle`).
-/
import SwiftABI.Proofs.Symbol.Soundness.Run

namespace SwiftABI

namespace Node

/-- The labels name some of the parameters of the function type, of which there are as many. -/
structure LabelsMatch (labels t : Node) : Prop where
  named : ∃ l ∈ labels.children, l.kind ≠ .firstElementMarker
  function : t.unwrapped.kind = .functionType ∨ t.unwrapped.kind = .noEscapeFunctionType
  count : ∃ parameters, Reading.argumentsOf? t.unwrapped
      = some (.mk .argumentTuple (.index labels.children.length) [parameters]) ∧
    parameters.unwrapped.kind = .tuple ∧
      parameters.unwrapped.children.length = labels.children.length

/-- What holds of every node of a tree that has been read. -/
structure ShapeLaws (n : Node) : Prop where
  /-- An argument tuple counts the elements of its tuple, and counts one for any other type. -/
  arguments (hk : n.kind = .argumentTuple) : ∃ t, t.kind = .type ∧
    n = .mk .argumentTuple (.index (argumentCount t)) [t]
  /-- Labels sit right before the type that they match. -/
  labels (l : Node) (hl : l ∈ n.children) (hk : l.kind = .labelList) (hne : l.children ≠ []) :
    ∃ t, [l, t] <:+: n.children ∧ l.LabelsMatch t
  /-- Generic arguments are applied to the matching nominal type, which can have some already. -/
  bound (hk : n.kind ∈ Kind.boundNominals) : ∃ nominal arguments,
    n = .mk n.kind .none [.typeOf nominal, .mk .typeList .none arguments] ∧ arguments ≠ [] ∧
      (nominal.kind.bound? = some n.kind ∨ nominal.kind = n.kind)
  /-- A composition is one of protocols, with or without generic arguments. -/
  protocols (hk : n.kind = .protocolList) :
    ∃ ps, n = .mk .protocolList .none [.mk .typeList .none ps] ∧ ∀ p ∈ ps, p.kind = .type ∧
      (p.unwrapped.kind = .protocolType ∨ p.unwrapped.kind = .boundGenericProtocol)
  numbers (hk : n.kind = .number ∨ n.kind = .index) : ∃ i : Nat, n = .mk n.kind (.index i) []
  directness (hk : n.kind = .directness) :
    n = .mk .directness (.index 0) [] ∨ n = .mk .directness (.index 1) []
  valueWitness (hk : n.kind = .valueWitness) : ∃ (i : Nat) (t : Node), i < 24 ∧
    n = .mk .valueWitness (.index i) [t]

end Node

variable {cfg : Config} {n l t : Node}

/-! ### Labels -/

/-- Labels of a declaration match its type, if there are some. -/
theorem LabelsFit.labelsMatch (h : LabelsFit (some l) t) (ht : t.Grammatical cfg)
    (hne : l.children ≠ []) :
    l.LabelsMatch t := by
  generalize hlabels : some l = labels at h
  cases h with
  | absent => cases hlabels
  | noArguments => cases hlabels
  | unnamed =>
    cases hlabels
    exact absurd rfl hne
  | @named _ parameters labels hkind h htuple hlist hname =>
    cases hlabels
    refine ⟨hname, hkind, parameters, h, htuple, ?_⟩
    have hinside : t.unwrapped.Grammatical cfg := by
      by_cases hk : t.kind = .type
      · obtain ⟨t', -, rfl⟩ := ht.root.eq_type hk
        exact ht.children t' (List.mem_singleton_self t')
      · rwa [Node.unwrapped_of_ne hk]
    have hgrammatical := hinside.children _ (Preserves.mem_of_argumentsOf? h)
    obtain ⟨t', -, heq⟩ := hgrammatical.root.eq_argumentTuple rfl
    injection heq with _ hcount hchildren
    injection hcount with hcount
    cases hchildren
    unfold argumentCount at hcount
    rw [if_pos htuple] at hcount
    exact_mod_cast hcount.symm

/-- The kinds that have labels below them. -/
def Kind.labelled : List Kind :=
  [.functionDecl, .variableDecl, .genericTypeParamDecl, .allocator, .constructorDecl,
    .subscriptDecl, .typeMangling]

namespace Node.Rule

/-- Labels are found below declarations and whole types only. -/
theorem kind_mem_labelled (h : n.Rule cfg) (hl : l ∈ n.children) (hk : l.kind = .labelList) :
    n.kind ∈ Kind.labelled := by
  have hall : ∀ k ∈ Kind.all, k ≠ .global → ∀ s ∈ k.slots.getD [], s.accepts .labelList = true →
      k ∈ Kind.labelled := by decide
  obtain ⟨s, hs, haccepts⟩ := h.fits.exists_slot hl
  rw [hk] at haccepts
  exact hall n.kind (Kind.mem_all _) h.kind_ne_global s hs haccepts

/-- Such a node has at most one list of labels, and right after it the type that the labels fit. -/
theorem eq_labelled (h : n.Rule cfg) (hk : n.kind ∈ Kind.labelled) :
    ∃ (before : List Node) (labels : Option Node) (t : Node) (after : List Node),
      n.children = before ++ (labels.toList ++ t :: after) ∧ t.kind = .type ∧ LabelsFit labels t ∧
        ∀ c ∈ before ++ after, c.kind ≠ .type ∧ c.kind ≠ .labelList := by
  have hcontexts : ∀ k ∈ Kind.contextChildren, k ≠ .type ∧ k ≠ .labelList := by decide
  have hnames : ∀ k ∈ Kind.all, k.isDeclName = true → k ≠ .type ∧ k ≠ .labelList := by decide
  cases h with
  | @declaration k context name t labels hk' hcontext hname ht hlabels hfunction hparam =>
    refine ⟨[context, name], labels, t, [], by simp [children], ht, hlabels, ?_⟩
    exact List.forall_mem_cons.mpr ⟨hcontexts _ hcontext,
      List.forall_mem_singleton.mpr (hnames _ (Kind.mem_all _) hname)⟩
  | @unnamed k context t labels privateName hk' hcontext ht hlabels hprivate hsubscript =>
    refine ⟨[context], labels, t, privateName.toList, by simp [children], ht, hlabels, ?_⟩
    refine List.forall_mem_cons.mpr ⟨hcontexts _ hcontext, fun c hc => ?_⟩
    rw [hprivate c (Option.mem_toList.mp hc)]
    decide
  | @typeMangling labels t ht hlabels =>
    exact ⟨[], labels, t, [], by simp [children], ht, hlabels, by simp⟩
  | _ =>
    simp only [kind, Kind.labelled, List.mem_cons, List.not_mem_nil, or_false] at hk
    rcases hk with hk | hk | hk | hk | hk | hk | hk <;> cases hk <;>
      exact absurd ‹_ ∈ _› (by decide)

/-- Labels fit the type right after them, and there is no other type beside them. -/
theorem exists_labelled (h : n.Rule cfg) (hl : l ∈ n.children) (hk : l.kind = .labelList) :
    ∃ t, [l, t] <:+: n.children ∧ n.childOfKind .type = some t ∧ LabelsFit (some l) t := by
  obtain ⟨before, labels, t, after, hchildren, ht, hlabels, hother⟩ :=
    h.eq_labelled (h.kind_mem_labelled hl hk)
  obtain ⟨hbefore, hafter⟩ := List.forall_mem_append.mp hother
  have hsome : labels = some l := by
    rw [hchildren, List.mem_append, List.mem_append, List.mem_cons, Option.mem_toList] at hl
    rcases hl with hl | hl | rfl | hl
    · exact absurd hk (hbefore l hl).2
    · exact hl
    · rw [ht] at hk
      cases hk
    · exact absurd hk (hafter l hl).2
  subst hsome
  refine ⟨t, ⟨before, after, by rw [hchildren]; simp⟩, ?_, hlabels⟩
  have hnone : before.find? (fun c => c.kind = .type) = none := by
    rw [List.find?_eq_none]
    exact fun c hc => by simpa using (hbefore c hc).1
  unfold childOfKind
  rw [hchildren, List.find?_append, hnone]
  simp [hk, ht]

/-- A whole type has labels in front if it is one of a declaration. -/
theorem eq_typeMangling (h : n.Rule cfg) (hk : n.kind = .typeMangling) :
    ∃ (labels : Option Node) (t : Node), t.kind = .type ∧ LabelsFit labels t ∧
      n = .mk .typeMangling .none (labels.toList ++ [t]) := by
  cases h with
  | typeMangling ht hlabels => exact ⟨_, _, ht, hlabels, rfl⟩
  | _ => cases hk <;> exact absurd ‹_ ∈ _› (by decide)

end Node.Rule

/-! ### The laws -/

/-- A tree that obeys the grammar obeys the laws at its root. -/
theorem Node.All.shapeLaws (h : n.Grammatical cfg) : n.ShapeLaws where
  arguments hk := h.root.eq_argumentTuple hk
  labels l hl hk hne := by
    obtain ⟨t, hinfix, -, hlabels⟩ := h.root.exists_labelled hl hk
    have ht : t ∈ n.children := hinfix.subset (by simp)
    exact ⟨t, hinfix, hlabels.labelsMatch (h.children t ht) hne⟩
  bound hk := by
    obtain ⟨nominal, arguments, hnominal, hne, -, heq⟩ := h.root.eq_boundNominal hk
    exact ⟨nominal, arguments, heq, hne, hnominal⟩
  protocols hk := by
    obtain ⟨ps, hps, heq⟩ := h.root.eq_protocolList hk
    exact ⟨ps, heq, hps⟩
  numbers hk := h.root.eq_number hk
  directness hk := h.root.eq_directness hk
  valueWitness hk := h.root.eq_valueWitness hk

theorem Node.All.shapeLaws_all (h : n.Grammatical cfg) : n.All Node.ShapeLaws := by
  induction h with
  | mk root below ih => exact .mk (Node.All.shapeLaws (.mk root below)) ih

/-- Labels never lie on the stack. -/
theorem Node.Made.kind_ne_labelList (h : n.Made cfg) :
    n.kind ≠ .labelList ∧ n.unwrapped.kind ≠ .labelList := by
  have hmade : ∀ k ∈ Kind.stackable ++ [.typeMangling, .suffix], k ≠ .labelList := by decide
  have htypes : ∀ k ∈ Kind.types, k ≠ .labelList := by decide
  refine ⟨hmade _ h.kind, ?_⟩
  by_cases hk : n.kind = .type
  · obtain ⟨t, ht, rfl⟩ := h.grammatical.root.eq_type hk
    exact htypes _ ht
  · rw [Node.unwrapped_of_ne hk]
    exact hmade _ h.kind

theorem Node.IsSymbol.shapeLaws (h : n.IsSymbol cfg) : n.ShapeLaws := by
  have hkind : n.kind = .global := by
    rw [h.root]
    rfl
  have hnot {k : Kind} (hk : k ≠ .global) : n.kind ≠ k := fun heq => hk (heq.symm.trans hkind)
  refine ⟨fun hk => ?_, fun l hl hk => ?_, fun hk => ?_, fun hk => ?_, fun hk => ?_, fun hk => ?_,
    fun hk => ?_⟩
  · exact absurd hk (hnot (by decide))
  · obtain ⟨m, hm, rfl⟩ := h.children l hl
    exact absurd hk hm.kind_ne_labelList.2
  · exact absurd (show Kind.global ∈ Kind.boundNominals from hkind ▸ hk) (by decide)
  · exact absurd hk (hnot (by decide))
  · rcases hk with hk | hk <;> exact absurd hk (hnot (by decide))
  · exact absurd hk (hnot (by decide))
  · exact absurd hk (hnot (by decide))

end SwiftABI
