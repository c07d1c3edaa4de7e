/-
  The operators that read types keep the machine sound.

  Labels go with the type that they are read for, the arguments of a function are counted, and
  generic arguments are applied to nominal types. What is popped from the stack on the way obeys the
  grammar already.
-/
import SwiftABI.Proofs.Symbol.Code
import SwiftABI.Proofs.Symbol.Soundness.Basic
import SwiftABI.Proofs.Symbol.Specialized

namespace SwiftABI

theorem Node.plainContext_of_ne {n : Node} (h : n.kind.isContext = true)
    (hk : n.kind ≠ .extensionDecl) :
    n.PlainContext where
  kind := h
  extended p m e hn := absurd (by rw [hn]; rfl) hk

namespace Preserves

variable {cfg : Config}

/-- All nodes of a list with an optional node in front. -/
theorem forall_mem_toList {p : Node → Prop} {o : Option Node} (h : ∀ n ∈ o, p n) :
    ∀ n ∈ o.toList, p n :=
  fun n hn => h n (Option.mem_toList.mp hn)

theorem forall_mem_pair {p : Node → Prop} {a b : Node} (ha : p a) (hb : p b) : ∀ n ∈ [a, b], p n :=
  List.forall_mem_cons.mpr ⟨ha, List.forall_mem_singleton.mpr hb⟩

/-! ### Contexts -/

/-- A module, which an identifier on the stack can name. -/
theorem popModule? :
    Preserves cfg Reading.popModule? fun m? =>
      ∀ m ∈ m?, m.Grammatical cfg ∧ m.kind = .moduleName := by
  refine (pop? (by decide)).bind fun n? hn => ?_
  cases n? with
  | none => exact (pop? (by decide)).mono fun m? hm m h => ⟨(hm m h).1.grammatical, (hm m h).2⟩
  | some n =>
    obtain ⟨hsound, hk⟩ := hn n rfl
    obtain ⟨t, ht, heq⟩ := hsound.grammatical.root.eq_name (by rw [hk]; decide)
    rw [hk] at heq
    subst heq
    refine (grammatical (.name (by decide) ht) nofun).bind fun m hm => pure ?_
    rintro _ ⟨⟩
    exact ⟨hm.2, by rw [hm.1]; rfl⟩

/-- A place in which something can be declared. -/
theorem popContext : Preserves cfg Reading.popContext fun n =>
      n.Grammatical cfg ∧ n.PlainContext := by
  refine popModule?.bind fun m? hm => ?_
  cases m? with
  | some m =>
    obtain ⟨hm, hk⟩ := hm m rfl
    exact pure ⟨hm, Node.plainContext_of_ne (by rw [hk]; rfl) (by rw [hk]; decide)⟩
  | none =>
    refine (pop? (by decide)).bind fun t? ht => ?_
    cases t? with
    | some t =>
      obtain ⟨hsound, hk⟩ := ht t rfl
      obtain ⟨hinside, htypes, -⟩ := hsound.unwrapped hk
      refine (check rfl).bind fun _ hcontext =>
        pure ⟨hinside, Node.plainContext_of_ne hcontext fun hext => ?_⟩
      rw [hext] at htypes
      revert htypes
      decide
    | none =>
      refine (popIf rfl).bind fun n? hn => (require rfl hn).mono fun n hn => ?_
      exact ⟨hn.1.grammatical, hn.2, hn.1.onStack.extended⟩

theorem popNominal : Preserves cfg Reading.popNominal fun n =>
      n.Grammatical cfg ∧ n.kind ∈ Kind.nominals := by
  have hall : ∀ k ∈ Kind.all, k.isAnyGeneric = true → k ∈ Kind.nominals := by decide
  refine popTypeInside.bind fun n hn => (check rfl).bind fun _ hgeneric => pure ⟨hn.1, ?_⟩
  exact hall _ (Kind.mem_all _) hgeneric

/-- A nominal type is registered. -/
theorem nominalType {k : Kind} (hk : k ∈ Kind.nominals) :
    Preserves cfg (Reading.nominalType k) fun t => t.Sound cfg := by
  refine popDeclName.bind fun name hname => popContext.bind fun context hcontext => ?_
  refine (typed (.nominal hk (Kind.mem_contextChildren hcontext.2.kind) hname.2) ?_).bind
    fun t ht => ?_
  · exact forall_mem_pair hcontext.1 hname.1.grammatical
  · exact (register ht.2).bind fun _ _ => pure ht.2

/-! ### Functions -/

private theorem emptyTuple : Preserves cfg (Reading.type .tuple []) fun t =>
    t = .typeOf (.mk .tuple .none []) ∧ t.Sound cfg := by
  have hrule : (Node.mk .tuple .none []).Rule cfg := .tuple nofun
  exact typed hrule nofun

/-- The arguments of a function are counted. -/
theorem popArguments :
    Preserves cfg Reading.popArguments fun n => n.Grammatical cfg ∧ n.kind = .argumentTuple := by
  refine popped.bind fun isEmpty _ => ?_
  split
  · refine emptyTuple.bind fun t ht => ?_
    obtain ⟨rfl, ht⟩ := ht
    have hrule := @Node.Rule.argumentTuple cfg (.typeOf (.mk .tuple .none [])) rfl
    refine (grammatical hrule (List.forall_mem_singleton.mpr ht.grammatical)).mono fun n hn => ?_
    exact ⟨hn.2, by rw [hn.1]; rfl⟩
  · refine popType.bind fun t ht => ?_
    refine (grammatical (.argumentTuple ht.2) (List.forall_mem_singleton.mpr ht.1.grammatical)).mono
      fun n hn => ?_
    exact ⟨hn.2, by rw [hn.1]; rfl⟩

private theorem returnType {t : Node} (ht : t.Grammatical cfg ∧ t.kind = .type) :
    Preserves cfg (Reading.node .returnType [t]) fun n =>
      n.Grammatical cfg ∧ n.kind = .returnType :=
  (grammatical (.aroundType (by decide) ht.2) (List.forall_mem_singleton.mpr ht.1)).mono fun n hn =>
    ⟨hn.2, by rw [hn.1]; rfl⟩

theorem popResult :
    Preserves cfg Reading.popResult fun n => n.Grammatical cfg ∧ n.kind = .returnType := by
  refine popped.bind fun isEmpty _ => ?_
  split
  · refine emptyTuple.bind fun t ht => returnType ⟨ht.2.grammatical, ?_⟩
    rw [ht.1]
    rfl
  · exact popType.bind fun t ht => returnType ⟨ht.1.grammatical, ht.2⟩

theorem popFunctionType {k : Kind} (hk : k ∈ Kind.functionTypes) :
    Preserves cfg (Reading.popFunctionType k) fun t =>
      t.Sound cfg ∧ t.kind = .type ∧ t.unwrapped.kind = k := by
  refine (pop? (by decide)).bind fun throws hthrows =>
    popArguments.bind fun arguments harguments => ?_
  refine popResult.bind fun result hresult => ?_
  refine (typed (.functionType hk (fun n hn => (hthrows n hn).2) harguments.2 hresult.2) ?_).mono
    fun t ht => ?_
  · refine List.forall_mem_append.mpr ⟨?_, forall_mem_pair harguments.1 hresult.1⟩
    exact forall_mem_toList fun n hn => (hthrows n hn).1.grammatical
  · obtain ⟨rfl, ht⟩ := ht
    exact ⟨ht, rfl, rfl⟩

/-! ### Labels -/

/-- The labels of some parameters, which are as many as are asked for. -/
theorem popLabels (count : Nat) :
    Preserves cfg (Reading.popLabels count) fun ls =>
      ls.length = count ∧
        ∀ l ∈ ls, l.Grammatical cfg ∧ (l.kind = .identifier ∨ l.kind = .firstElementMarker) := by
  induction count with
  | zero => exact pure ⟨rfl, nofun⟩
  | succ count ih =>
    refine popAny?.bind fun l? hl => (require rfl hl).bind fun l hl =>
      (check rfl).bind fun _ hk => ?_
    refine ih.bind fun ls hls => pure ⟨by rw [List.length_append, hls.1]; rfl, ?_⟩
    refine List.forall_mem_append.mpr ⟨hls.2, List.forall_mem_singleton.mpr ⟨hl.grammatical, ?_⟩⟩
    simpa using hk

theorem mem_of_argumentsOf? {function arguments : Node}
    (h : Reading.argumentsOf? function = some arguments) : arguments ∈ function.children := by
  unfold Reading.argumentsOf? at h
  split at h
  · rename_i heq
    cases h
    rw [heq]
    exact List.mem_cons_of_mem _ List.mem_cons_self
  · rename_i heq
    cases h
    rw [heq]
    exact List.mem_cons_self
  · cases h

/-- A list of labels that is empty. -/
private theorem noLabels (t : Node) :
    Preserves cfg (do return some (← Reading.node .labelList [])) fun ls =>
      LabelsFit ls t ∧ ∀ l ∈ ls, l.Grammatical cfg := by
  have hrule : (Node.mk .labelList .none []).Rule cfg := .labelList nofun (.inl rfl)
  refine (grammatical hrule nofun).map fun n hn => ?_
  obtain ⟨rfl, hn⟩ := hn
  exact ⟨.unnamed t, by rintro _ ⟨⟩; exact hn⟩

/-- The labels that are popped for a type go with it. -/
theorem popLabelList? {t : Node} (ht : t.Sound cfg ∧ t.kind = .type) :
    Preserves cfg (Reading.popLabelList? t) fun ls =>
      LabelsFit ls t ∧ ∀ l ∈ ls, l.Grammatical cfg := by
  refine popped.bind fun isEmpty _ => ?_
  -- Each way to end is one of the ways in which labels fit a type.
  split
  · exact noLabels t
  · dsimp only
    split
    · rename_i hk
      exact pure ⟨.absent hk, nofun⟩
    · rename_i hk
      split
      · rename_i count parameters harguments
        have hgrammatical := (ht.1.unwrapped ht.2).1.children _ (mem_of_argumentsOf? harguments)
        obtain ⟨t', -, heq⟩ := hgrammatical.root.eq_argumentTuple rfl
        injection heq with _ hcount
        injection hcount with hcount
        split
        · rename_i hzero
          rw [hzero] at harguments
          exact pure ⟨.noArguments harguments, nofun⟩
        · split
          · exact noLabels t
          · rename_i htuple
            refine (popLabels count.toNat).bind fun labels hlabels => ?_
            split
            · exact noLabels t
            · rename_i hnamed
              have hname : ∃ l ∈ labels, l.kind ≠ .firstElementMarker := by simpa using hnamed
              have hlength : ((labels.length : Nat) : Int) = count := by
                rw [hlabels.1]
                omega
              rw [← hlength] at harguments
              have hkind : t.unwrapped.kind = .functionType ∨
                  t.unwrapped.kind = .noEscapeFunctionType := by
                by_cases h : t.unwrapped.kind = .functionType
                · exact .inl h
                · exact .inr (Decidable.not_not.mp fun h' => hk ⟨h, h'⟩)
              have hlist := fun l hl => (hlabels.2 l hl).2
              refine (grammatical (.labelList hlist (.inr hname)) fun l hl =>
                (hlabels.2 l hl).1).map fun n hn => ?_
              obtain ⟨rfl, hn⟩ := hn
              refine ⟨.named hkind harguments (Decidable.not_not.mp htuple) hlist hname, ?_⟩
              rintro _ ⟨⟩
              exact hn
      · exact fail rfl

/-- Something comes out of the steps, unless they fail. -/
private def Gives (x : Reading (Option Node)) : Prop := ∀ m m', x m ≠ .ok (none, m')

private theorem gives_some (x : Reading Node) : Gives (do return some (← x)) := by
  intro m m' h
  change (x m >>= fun r => .ok (some r.1, r.2)) = _ at h
  rcases hx : x m with e | ⟨n, m₁⟩ <;> rw [hx] at h <;> cases h

private theorem Gives.bind {α : Type} {x : Reading α} {f : α → Reading (Option Node)}
    (h : ∀ a, Gives (f a)) :
    Gives (x >>= f) := by
  intro m m' hbind
  change (x m >>= fun r => f r.1 r.2) = _ at hbind
  rcases hx : x m with e | ⟨a, m₁⟩ <;> rw [hx] at hbind
  · cases hbind
  · exact h a m₁ m' hbind

/-- If nothing comes out of the steps, they have left everything as it was. -/
private def Idle (x : Reading (Option Node)) : Prop := ∀ m m', x m = .ok (none, m') → m' = m

private theorem Gives.idle {x : Reading (Option Node)} (h : Gives x) :
    Idle x := fun m m' hx => absurd hx (h m m')

private theorem idle_none : Idle (Pure.pure none) := by
  rintro m _ ⟨⟩
  rfl

/-- If nothing comes out after a look at the topmost node, it was of another kind and still lies
there. -/
private theorem head_of_popped {k : Kind} {f : Bool → Reading (Option Node)} {m m' : Machine}
    (hfound : Gives (f true)) (hnot : Idle (f false))
    (h : (Reading.popped k >>= f) m = .ok (none, m')) :
    ∀ n, m'.stack.head? = some n → n.kind ≠ k := by
  change ((Reading.popIf (fun found => found = k) m >>= fun r => .ok (r.1.isSome, r.2)) >>= fun r =>
    f r.1 r.2) = _ at h
  unfold Reading.popIf at h
  rcases hstack : m.stack with _ | ⟨n, stack⟩ <;> rw [hstack] at h
  · have hsame : m' = m := hnot m m' h
    rw [hsame, hstack]
    nofun
  · by_cases hk : n.kind = k
    · simp only [hk, decide_true, if_true] at h
      exact absurd h (hfound _ m')
    · simp only [hk, decide_false] at h
      have hsame : m' = m := hnot m m' h
      rw [hsame, hstack]
      rintro _ ⟨⟩
      exact hk

/-- Where a type has no labels, no empty list lay there to be taken for them. -/
theorem head_of_popLabelList? {t : Node} {m m' : Machine}
    (h : Reading.popLabelList? t m = .ok (none, m')) :
    ∀ n, m'.stack.head? = some n → n.kind ≠ .emptyList := by
  refine head_of_popped (gives_some _) ?_ h
  rw [if_neg (by decide)]
  dsimp only
  split
  · exact idle_none
  · split
    · split
      · exact idle_none
      · split
        · exact (gives_some _).idle
        · refine Gives.idle (.bind fun labels => ?_)
          split
          · exact gives_some _
          · exact gives_some _
    · nofun

/-! ### Lists of types -/

theorem popMarkedList {element : Reading Node} {p : Node → Prop} (h : Preserves cfg element p)
    (fuel : Nat) :
    Preserves cfg (Reading.popMarkedList element fuel) fun ns => ∀ n ∈ ns, p n := by
  induction fuel with
  | zero => exact fail rfl
  | succ fuel ih =>
    refine popped.bind fun isFirst _ => h.bind fun n hn => ?_
    split
    · exact pure (List.forall_mem_singleton.mpr hn)
    · refine ih.bind fun ns hns => pure ?_
      exact List.forall_mem_append.mpr ⟨hns, List.forall_mem_singleton.mpr hn⟩

/-- What holds of each element that is popped holds of all elements of a list. -/
theorem popList {element : Reading Node} {p : Node → Prop} (h : Preserves cfg element p) :
    Preserves cfg (Reading.popList element) fun ns => ∀ n ∈ ns, p n := by
  refine popped.bind fun isEmpty _ => ?_
  split
  · exact pure nofun
  · exact get.bind fun m _ => popMarkedList h _

private theorem tupleElement (variadic name : Option Node) {t : Node}
    (hvariadic : ∀ n ∈ variadic, n.Grammatical cfg ∧ n.kind = .variadicMarker)
    (hname : ∀ n ∈ name, n.Grammatical cfg ∧ n.kind = .tupleElementName)
    (ht : t.Grammatical cfg ∧ t.kind = .type) :
    Preserves cfg (Reading.node .tupleElement (variadic.toList ++ name.toList ++ [t])) fun e =>
      e.Grammatical cfg ∧ e.kind = .tupleElement := by
  refine (grammatical
    (.tupleElement (fun n hn => (hvariadic n hn).2) (fun n hn => (hname n hn).2) ht.2) ?_).mono
    fun e he => ⟨he.2, by rw [he.1]; rfl⟩
  refine List.forall_mem_append.mpr
    ⟨List.forall_mem_append.mpr ⟨?_, ?_⟩, List.forall_mem_singleton.mpr ht.1⟩
  · exact forall_mem_toList fun n hn => (hvariadic n hn).1
  · exact forall_mem_toList fun n hn => (hname n hn).1

theorem popTupleElement :
    Preserves cfg Reading.popTupleElement fun e => e.Grammatical cfg ∧ e.kind = .tupleElement := by
  refine (pop? (by decide)).bind fun variadic hvariadic =>
    (pop? (by decide)).bind fun label? hlabel => ?_
  have hvariadic := fun n hn => And.intro (hvariadic n hn).1.grammatical (hvariadic n hn).2
  cases label? with
  | none => exact popType.bind fun t ht =>
    tupleElement variadic none hvariadic nofun ⟨ht.1.grammatical, ht.2⟩
  | some label =>
    obtain ⟨hsound, hk⟩ := hlabel label rfl
    obtain ⟨t, ht, heq⟩ := hsound.grammatical.root.eq_name (by rw [hk]; decide)
    rw [hk] at heq
    subst heq
    refine (grammatical (.name (by decide) ht) nofun).bind fun name hname => ?_
    show Preserves cfg
      (do Reading.node .tupleElement (variadic.toList ++ [name] ++ [← Reading.popType])) _
    refine popType.bind fun t ht =>
      tupleElement variadic (some name) hvariadic ?_ ⟨ht.1.grammatical, ht.2⟩
    rintro _ ⟨⟩
    exact ⟨hname.2, by rw [hname.1]; rfl⟩

theorem popTuple : Preserves cfg Reading.popTuple fun t => t.Sound cfg :=
  (popList popTupleElement).bind fun _ h =>
    (typed (.tuple fun e he => (h e he).2) fun e he => (h e he).1).mono fun _ ht => ht.2

/-- A protocol is popped as a type, or made of its name and context. -/
theorem popProtocol :
    Preserves cfg Reading.popProtocol fun t =>
      t.Sound cfg ∧ t.kind = .type ∧ t.unwrapped.kind = .protocolType := by
  refine (pop? (by decide)).bind fun t? ht => ?_
  cases t? with
  | some t =>
    exact (check rfl).bind fun _ hk => pure ⟨(ht t rfl).1, (ht t rfl).2, of_decide_eq_true hk⟩
  | none =>
    refine popDeclName.bind fun name hname => popContext.bind fun context hcontext => ?_
    refine (typed (.nominal (by decide) (Kind.mem_contextChildren hcontext.2.kind) hname.2) ?_).mono
      fun t ht => ?_
    · exact forall_mem_pair hcontext.1 hname.1.grammatical
    · obtain ⟨rfl, ht⟩ := ht
      exact ⟨ht, rfl, rfl⟩

theorem popProtocolList :
    Preserves cfg Reading.popProtocolList fun n => n.Grammatical cfg ∧ n.kind = .protocolList := by
  refine (popList popProtocol).bind fun ps hps => ?_
  have hlist : (Node.mk .typeList .none ps).Rule cfg := .typeList fun p hp => (hps p hp).2.1
  refine (grammatical hlist fun p hp => (hps p hp).1.grammatical).bind fun n hn => ?_
  obtain ⟨rfl, hn⟩ := hn
  refine (grammatical (.protocolList fun p hp => ⟨(hps p hp).2.1, .inl (hps p hp).2.2⟩) ?_).mono
    fun n hn => ?_
  · exact List.forall_mem_singleton.mpr hn
  · exact ⟨hn.2, by rw [hn.1]; rfl⟩

/-! ### Generic parameters and builtin types -/

theorem genericParameter (depth index : Nat) :
    Preserves cfg (Reading.genericParameter depth index) fun t => t.Sound cfg := by
  refine (number (by decide) depth).bind fun d hd => (number (by decide) index).bind fun i hi => ?_
  obtain ⟨rfl, hd⟩ := hd
  obtain ⟨rfl, hi⟩ := hi
  exact (typed (.genericParameter depth index) (forall_mem_pair hd hi)).mono fun _ ht => ht.2

theorem numberedParameter : Preserves cfg Reading.numberedParameter fun t => t.Sound cfg := by
  refine (nextIf 'd').bind fun isDeep _ => ?_
  split
  · exact index.bind fun depth _ => index.bind fun i _ => genericParameter _ _
  · refine (nextIf 'z').bind fun isFirst _ => ?_
    split
    · exact genericParameter 0 0
    · exact index.bind fun i _ => genericParameter _ _

theorem builtinSize :
    Preserves cfg (Reading.builtinSize cfg) fun size =>
      0 < size ∧ (size : Int) < cfg.maxBuiltinSize := by
  refine index.bind fun i _ => (check rfl).bind fun _ hsize => pure ?_
  simp only [Bool.and_eq_true, decide_eq_true_eq] at hsize
  omega

/-- The element of a vector is a builtin type. -/
theorem builtinName_of_vectorElement? {element : Node} {name : Text} (h : element.Grammatical cfg)
    (hname : Reading.builtinName.vectorElement? element = some name) :
    BuiltinName cfg (Reading.builtinPrefix ++ name) := by
  unfold Reading.builtinName.vectorElement? at hname
  split at hname
  · obtain ⟨whole, hwhole, heq⟩ := h.root.eq_builtinType rfl
    injection heq with _ htext
    injection htext with htext
    rwa [← Text.eq_append_of_dropPrefix? hname, htext]
  · cases hname

theorem builtinName : Preserves cfg (Reading.builtinName cfg) (BuiltinName cfg) := by
  refine next.bind fun c _ => ?_
  split
  · rename_i name hname
    exact pure (.named (Code.mem_of_decode? hname))
  · split
    · exact builtinSize.bind fun size hsize => pure (.float hsize.1 hsize.2)
    · split
      · exact builtinSize.bind fun size hsize => pure (.integer hsize.1 hsize.2)
      · split
        · refine builtinSize.bind fun size hsize => popTypeInside.bind fun element helement => ?_
          refine (require rfl fun _ h => builtinName_of_vectorElement? helement.1 h).bind
            fun name hname => ?_
          exact pure (.vector hsize.1 hsize.2 hname)
        · exact fail rfl

theorem builtinType : Preserves cfg (Reading.builtinType cfg) fun t => t.Sound cfg := by
  refine builtinName.bind fun name hname => ?_
  refine (grammatical (.builtinType hname) nofun).bind fun n hn => node.mono fun t ht => ?_
  obtain ⟨rfl, hn⟩ := hn
  obtain ⟨rfl, -⟩ := ht
  exact .of_type
    (.mk (.type (show Kind.builtinTypeName ∈ Kind.types by decide))
      (List.forall_mem_singleton.mpr hn)) rfl

/-! ### Other types -/

theorem metatypeRepresentation :
    Preserves cfg Reading.metatypeRepresentation fun n =>
      n.Grammatical cfg ∧ n.kind = .metatypeRepresentation := by
  refine next.bind fun c _ =>
    (require rfl fun _ h => Code.mem_of_decode? h).bind fun name hname => ?_
  exact (grammatical (.metatypeRepresentation hname) nofun).mono fun n hn =>
    ⟨hn.2, by rw [hn.1]; rfl⟩

/-- A type of a kind that wraps another one. -/
theorem aroundType {k : Kind} (hk : k ∈ Kind.aroundType) :
    Preserves cfg (do Reading.type k [← Reading.popType]) fun t => t.Sound cfg :=
  popType.bind fun _ ht =>
    (typed (.aroundType hk ht.2) (List.forall_mem_singleton.mpr ht.1.grammatical)).mono fun _ h =>
      h.2

/-- The ways of passing a parameter are types, too. -/
theorem passing {k : Kind} (hk : k ∈ [Kind.inOut, .shared, .owned]) :
    Preserves cfg (do Reading.type k [← Reading.popTypeInside]) fun t => t.Sound cfg :=
  popTypeInside.bind fun _ ht =>
    (typed (.passing hk ht.2) (List.forall_mem_singleton.mpr ht.1)).mono fun _ h => h.2

/-- A metatype with or without its representation. -/
theorem metatype {k : Kind} (hk : k ∈ [Kind.metatype, .existentialMetatype])
    (representation : Option Node)
    (hr : ∀ n ∈ representation, n.Grammatical cfg ∧ n.kind = .metatypeRepresentation) {t : Node}
    (ht : t.Grammatical cfg ∧ t.kind = .type) :
    Preserves cfg (Reading.type k (representation.toList ++ [t])) fun t => t.Sound cfg := by
  refine (typed (.metatype hk (fun n hn => (hr n hn).2) ht.2) ?_).mono fun _ h => h.2
  refine List.forall_mem_append.mpr ⟨?_, List.forall_mem_singleton.mpr ht.1⟩
  exact forall_mem_toList fun n hn => (hr n hn).1

theorem sugaredType : Preserves cfg Reading.sugaredType fun t => t.Sound cfg := by
  have hall : ∀ entry ∈ Code.sugar, entry.2 ∈ Kind.aroundType := by decide
  refine next.bind fun c _ => ?_
  split
  · rename_i k hk
    exact aroundType (hall _ (Code.mem_of_decode? hk))
  · split
    · refine popType.bind fun value hvalue => popType.bind fun key hkey => ?_
      refine (typed (.sugaredDictionary hkey.2 hvalue.2) ?_).mono fun _ h => h.2
      exact forall_mem_pair hkey.1.grammatical hvalue.1.grammatical
    · exact fail rfl

theorem specialType : Preserves cfg Reading.specialType fun t => t.Sound cfg := by
  have hfunctions : ∀ entry ∈ Code.functionTypes, entry.2 ∈ Kind.functionTypes := by decide
  have hstorage : ∀ entry ∈ Code.referenceStorage, entry.2 ∈ Kind.aroundType := by decide
  refine next.bind fun c _ => ?_
  split
  · rename_i k hk
    exact (popFunctionType (hfunctions _ (Code.mem_of_decode? hk))).mono fun _ h => h.1
  · rename_i k _ hk
    exact aroundType (hstorage _ (Code.mem_of_decode? hk))
  · split
    · refine metatypeRepresentation.bind fun r hr => popType.bind fun t ht => ?_
      refine metatype (by decide) (some r) ?_ ⟨ht.1.grammatical, ht.2⟩
      rintro _ ⟨⟩
      exact hr
    · refine metatypeRepresentation.bind fun r hr => popType.bind fun t ht => ?_
      refine metatype (by decide) (some r) ?_ ⟨ht.1.grammatical, ht.2⟩
      rintro _ ⟨⟩
      exact hr
    · exact popType.bind fun t ht => metatype (by decide) none nofun ⟨ht.1.grammatical, ht.2⟩
    · refine popProtocolList.bind fun p hp => ?_
      refine (typed (.protocolListWithAnyObject hp.2) ?_).mono fun _ h => h.2
      exact List.forall_mem_singleton.mpr hp.1
    · exact nominalType (by decide)
    · have hrule : (Node.mk .errorType .none []).Rule cfg := .marker (by decide)
      exact (typed hrule nofun).mono fun _ h => h.2
    · exact sugaredType
    · exact fail rfl

end Preserves

end SwiftABI
