/-
  Generic arguments along the contexts of a declaration.

  A symbol spells a declaration first without any generic arguments and then all arguments of the
  declaration and the contexts above it, list by list. `ArgumentChain full n m lists` says that this
  is possible for `n`: without its arguments it is `m`, and `lists` are the arguments, from its own
  outwards. Then the writer finds `m` (`ArgumentChain.stripped`), and the reader makes `n` of `m`
  and the lists again (`ArgumentChain.applyToContext`).

  Not every declaration has a chain. The contexts of a protocol are not looked at for arguments, nor
  are those of a function, unless the arguments of all contexts are wanted.
-/
import SwiftABI.Proofs.Symbol.Stacked
import SwiftABI.Symbol.Writing.Type

namespace SwiftABI

/-- The generic arguments that are applied to `n` and its contexts are `lists`, from its own
outwards, and without them it is `m`. Declarations other than types have a list only if `full` is
set. -/
inductive ArgumentChain : Bool → Node → Node → List (List Node) → Prop where
  | stop {full : Bool} {n : Node} (hn : n.isSpecialized = false)
    (hseparates : Writing.separatesArguments n.kind = false) (hextension : n.kind ≠ .extensionDecl)
    (hentity : n.kind ∈ Kind.declaredFirst → full = false) : ArgumentChain full n n []
  | nominal {full : Bool} {k : Kind} {context context' name : Node} {lists : List (List Node)}
    (hk : Writing.separatesArguments k = true)
    (h : ArgumentChain (full || k = .typeAlias) context context' lists) :
    ArgumentChain full (.mk k .none [context, name]) (.mk k .none [context', name]) ([] :: lists)
  | entity {k : Kind} {p : Payload} {context context' : Node} {cs : List Node}
    {lists : List (List Node)} (hk : k ∈ Kind.declaredFirst)
    (h : ArgumentChain true context context' lists) :
    ArgumentChain true (.mk k p (context :: cs)) (.mk k p (context' :: cs))
      (if k.consumesGenericArgs then [] :: lists else lists)
  | extension {full : Bool} {m extended extended' : Node} {lists : List (List Node)}
    (h : ArgumentChain full extended extended' lists) :
    ArgumentChain full (.mk .extensionDecl .none [m, extended])
      (.mk .extensionDecl .none [m, extended']) lists
  | bound {full : Bool} {k bound : Kind} {context context' name : Node} {arguments : List Node}
    {lists : List (List Node)} (hk : k.bound? = some bound)
    (h : ArgumentChain (full || bound = .boundGenericTypeAlias) context context' lists) :
    ArgumentChain full
      (.mk bound .none [.typeOf (.mk k .none [context, name]), .mk .typeList .none arguments])
      (.mk k .none [context', name]) (arguments :: lists)
  | boundFunction {full : Bool} {k : Kind} {p : Payload} {context context' : Node}
    {cs arguments : List Node} {lists : List (List Node)}
    (hk : k = .functionDecl ∨ k = .constructorDecl)
    (h : ArgumentChain true context context' lists) :
    ArgumentChain full
      (.mk .boundGenericFunction .none [.mk k p (context :: cs), .mk .typeList .none arguments])
      (.mk k p (context' :: cs)) (arguments :: lists)

namespace Kind

/-- The kinds of a nominal type with and without generic arguments. -/
theorem bound?_spec {k bound : Kind} (h : k.bound? = some bound) :
    k ∈ nominals ∧ bound ∈ boundNominals ∧ k.consumesGenericArgs = true := by
  cases k <;> cases h <;> decide

theorem separatesArguments_spec {k : Kind} (h : Writing.separatesArguments k = true) :
    k ∈ nominals ∧ k.consumesGenericArgs = true ∧ k ∉ boundGenerics ∧ k.bound?.isSome = true := by
  simp only [Writing.separatesArguments, List.mem_cons, List.not_mem_nil, or_false,
    decide_eq_true_eq] at h
  rcases h with rfl | rfl | rfl | rfl <;> decide

theorem declaredFirst_spec : ∀ k ∈ declaredFirst,
    k.isContext = true ∧ k ∉ boundGenerics ∧ k ∉ nominals ∧ k ≠ .extensionDecl ∧
      k.bound? = none := by
  decide

theorem nominals_spec : ∀ k ∈ nominals, k.isContext = true ∧ k ∉ boundGenerics := by decide

end Kind

namespace Node

theorem size_le_sizeAll {c : Node} {cs : List Node} (h : c ∈ cs) : c.size ≤ sizeAll cs := by
  induction cs with
  | nil => cases h
  | cons d cs ih =>
    rw [sizeAll]
    rcases List.mem_cons.mp h with rfl | h
    · omega
    · have hle := ih h
      omega

theorem size_lt_of_mem_children {n c : Node} (h : c ∈ n.children) : c.size < n.size := by
  cases n with
  | mk k p cs => exact Nat.lt_succ_of_le (size_le_sizeAll h)

theorem size_unwrapped_le (n : Node) : n.unwrapped.size ≤ n.size := by
  unfold unwrapped
  split
  · exact Nat.le_of_lt (size_lt_of_mem_children List.mem_cons_self)
  · exact Nat.le_refl _

theorem mem_children_of_child {n c : Node} {i : Nat} (h : n.child i = .ok c) : c ∈ n.children := by
  unfold child at h
  split at h
  · cases h
    exact List.mem_of_getElem? ‹_›
  · cases h

variable {k : Kind} {p : Payload} {c m extended : Node} {cs : List Node}

/-! ### Specialization along a context -/

theorem isSpecialized_context (hk : k ∈ Kind.nominals ∨ k ∈ Kind.declaredFirst)
    (hbound : k ∉ Kind.boundGenerics) : (mk k p (c :: cs)).isSpecialized = c.isSpecialized := by
  cases cs <;> simp only [isSpecialized, if_neg hbound, if_pos hk]

theorem isSpecialized_extension : (mk .extensionDecl p (m :: extended :: cs)).isSpecialized
    = extended.isSpecialized := by
  simp [isSpecialized, Kind.boundGenerics, Kind.boundNominals, Kind.nominals, Kind.declaredFirst]

theorem isSpecialized_bound (hk : k ∈ Kind.boundGenerics) : (mk k p cs).isSpecialized = true := by
  cases cs with
  | nil => exact decide_eq_true hk
  | cons c cs => cases cs <;> simp only [isSpecialized, if_pos hk]

theorem isSpecialized_of_mem {n : Node} (h : n.kind ∈ Kind.boundGenerics) :
    n.isSpecialized = true := by
  rcases n with ⟨k, p, cs⟩
  exact isSpecialized_bound h

/-- The node itself, if nothing is applied to it, and otherwise the node without generic
arguments. -/
def stripped (n : Node) : Except Fault Node := if n.isSpecialized then n.unspecialized else .ok n

theorem stripped_of_not (h : c.isSpecialized = false) :
    c.stripped = .ok c := if_neg (by rw [h]; decide)

/-- Taking the arguments of the context away gives the node with another context. -/
theorem stripped_context {c' : Node} (hk : k ∈ Kind.nominals ∨ k ∈ Kind.declaredFirst)
    (hbound : k ∉ Kind.boundGenerics) (hc : c.stripped = .ok c')
    (hsame : c.isSpecialized = false → c' = c)
    (hfits : (mk k p (c' :: cs)).Fits) : (mk k p (c :: cs)).stripped = .ok (mk k p (c' :: cs)) := by
  unfold stripped at hc ⊢
  rw [isSpecialized_context hk hbound]
  rcases hspecialized : c.isSpecialized with _ | _
  · rw [hsame hspecialized]
    rfl
  · rw [hspecialized] at hc
    have hc : c.unspecialized = .ok c' := hc
    show (mk k p (c :: cs)).unspecialized = _
    have hunspecialized : (mk k p (c :: cs)).unspecialized = (do
        let context ← if c.isSpecialized then unspecialized c else .ok c
        Fault.inTree (make k p (context :: cs))) := by
      rw [unspecialized.eq_def]
      exact if_pos hk
    rw [hunspecialized, hspecialized, if_pos rfl, hc]
    show Fault.inTree (make k p (c' :: cs)) = _
    rw [make_of_fits hfits]
    rfl

theorem stripped_extension {extended' : Node} (he : extended.stripped = .ok extended')
    (hsame : extended.isSpecialized = false → extended' = extended)
    (hfits : (mk .extensionDecl p [m, extended']).Fits) :
    (mk .extensionDecl p [m, extended]).stripped = .ok (mk .extensionDecl p [m, extended']) := by
  unfold stripped at he ⊢
  rw [isSpecialized_extension]
  rcases hspecialized : extended.isSpecialized with _ | _
  · rw [hsame hspecialized]
    rfl
  · rw [hspecialized] at he
    have he : extended.unspecialized = .ok extended' := he
    have hunspecialized : (mk .extensionDecl p [m, extended]).unspecialized = (do
        let extended ← if extended.isSpecialized then unspecialized extended else .ok extended
        Fault.inTree (make .extensionDecl p [m, extended])) := by
      rw [unspecialized.eq_def]
      rfl
    show (mk .extensionDecl p [m, extended]).unspecialized = _
    rw [hunspecialized, hspecialized, if_pos rfl, he]
    show Fault.inTree (make .extensionDecl p [m, extended']) = _
    rw [make_of_fits hfits]
    rfl

theorem stripped_bound {arguments : Node} (hk : k ∈ Kind.boundNominals) :
    (mk k p [typeOf c, arguments]).stripped = c.stripped := by
  have hunspecialized : (mk k p [typeOf c, arguments]).unspecialized = c.stripped := by
    have hcontext : ∀ k ∈ Kind.boundNominals, ¬(k ∈ Kind.nominals ∨ k ∈ Kind.declaredFirst) := by
      decide
    rw [unspecialized.eq_def]
    show (if k ∈ Kind.nominals ∨ k ∈ Kind.declaredFirst then _ else _) = _
    rw [if_neg (hcontext k hk), if_pos hk]
    rfl
  unfold stripped at hunspecialized ⊢
  rw [isSpecialized_bound (List.mem_append_left _ hk), if_pos rfl, hunspecialized]

theorem stripped_boundFunction {arguments : Node} :
    (mk .boundGenericFunction p [c, arguments]).stripped = c.stripped := by
  unfold stripped
  rw [isSpecialized_bound (by decide), if_pos rfl, unspecialized.eq_def]
  rfl

end Node

/-- The context of a declaration may be replaced by one of the same kind, or by what the arguments
of the context were applied to. -/
theorem Node.Rule.withContext {cfg : Config} {k : Kind} {p : Payload} {c c' : Node} {cs : List Node}
    (h : (Node.mk k p (c :: cs)).Rule cfg) (hk : k ∈ Kind.nominals ∨ k ∈ Kind.declaredFirst)
    (hc : c'.kind = c.kind ∨ c.kind ∈ Kind.boundGenerics ∧ c'.kind.isContext = true) :
    (Node.mk k p (c' :: cs)).Rule cfg := by
  have hcontext : c.kind ∈ Kind.contextChildren → c'.kind ∈ Kind.contextChildren := by
    intro hmem
    rcases hc with hc | ⟨-, hc⟩
    · rwa [hc]
    · exact Kind.mem_contextChildren hc
  -- Other kinds than those of declarations are not meant.
  have hother : ∀ {ks : List Kind} {q : Payload} {ns : List Node},
      (∀ k ∈ ks, ¬(k ∈ Kind.nominals ∨ k ∈ Kind.declaredFirst)) →
        ∀ k' ∈ ks, Node.mk k p (c :: cs) = .mk k' q ns →
          ¬(k ∈ Kind.nominals ∨ k ∈ Kind.declaredFirst) := by
    intro ks q ns hall k' hk' heq
    injection heq with hkind
    rw [hkind]
    exact hall k' hk'
  generalize hn : Node.mk k p (c :: cs) = n at h
  cases h with
  | nominal hk hcontext' hname =>
    cases hn
    exact .nominal hk (hcontext hcontext') hname
  | declaration hk' hcontext' hname ht hlabels hfunction hparam =>
    cases hn
    refine .declaration hk' (hcontext hcontext') hname ht hlabels hfunction fun h => ?_
    subst h
    exact absurd hk (by decide)
  | unnamed hk hcontext' ht hlabels hprivate hsubscript =>
    cases hn
    exact .unnamed hk (hcontext hcontext') ht hlabels hprivate hsubscript
  | bareScope hk hcontext' =>
    cases hn
    exact .bareScope hk (hcontext hcontext')
  | closure hk hcontext' i ht =>
    cases hn
    exact .closure hk (hcontext hcontext') i ht
  | defaultArgument hcontext' i =>
    cases hn
    exact .defaultArgument (hcontext hcontext') i
  | accessor hk hstorage =>
    cases hn
    refine .accessor hk ?_
    rcases hc with hc | ⟨hbound, -⟩
    · rwa [hc]
    · rcases hstorage with hs | hs <;> rw [hs] at hbound <;> exact absurd hbound (by decide)
  | boundNominal hk' | functionType hk' | aroundType hk' | passing hk' | metatype hk' =>
    exact absurd hk (hother (by decide) _ hk' hn)
  | suffix | name | operatorName | number | directness | metatypeRepresentation | builtinType
  | marker => cases hn
  | _ =>
    injection hn with hk'
    subst hk'
    exact absurd hk (by decide)

namespace ArgumentChain

variable {full : Bool} {n m : Node} {lists : List (List Node)}

/-- Without its arguments a declaration is of the same kind, or of the kind that they were applied
to. -/
theorem kind (h : ArgumentChain full n m lists) :
    m.kind = n.kind ∨ n.kind ∈ Kind.boundNominals ∧ m.kind ∈ Kind.nominals ∨
      n.kind = .boundGenericFunction ∧ (m.kind = .functionDecl ∨ m.kind = .constructorDecl) := by
  cases h with
  | bound hk =>
    obtain ⟨hk, hbound, -⟩ := Kind.bound?_spec hk
    exact .inr (.inl ⟨hbound, hk⟩)
  | boundFunction hk => exact .inr (.inr ⟨rfl, hk⟩)
  | _ => exact .inl rfl

theorem isContext (h : ArgumentChain full n m lists) :
    m.kind = n.kind ∨ n.kind ∈ Kind.boundGenerics ∧ m.kind.isContext = true := by
  rcases h.kind with h | ⟨hn, hm⟩ | ⟨hn, hm⟩
  · exact .inl h
  · exact .inr ⟨List.mem_append_left _ hn, (Kind.nominals_spec _ hm).1⟩
  · refine .inr ⟨by rw [hn]; decide, ?_⟩
    rcases hm with hm | hm <;> rw [hm] <;> decide

/-- What is left has no generic arguments. -/
theorem isSpecialized_eq_false (h : ArgumentChain full n m lists) : m.isSpecialized = false := by
  induction h with
  | stop hn => exact hn
  | nominal hk h ih =>
    obtain ⟨hk, -, hbound, -⟩ := Kind.separatesArguments_spec hk
    rwa [Node.isSpecialized_context (.inl hk) hbound]
  | entity hk h ih => rwa [Node.isSpecialized_context (.inr hk) (Kind.declaredFirst_spec _ hk).2.1]
  | extension h ih => rwa [Node.isSpecialized_extension]
  | bound hk h ih =>
    have hk := (Kind.bound?_spec hk).1
    rwa [Node.isSpecialized_context (.inl hk) (Kind.nominals_spec _ hk).2]
  | @boundFunction _ k _ _ _ _ _ _ hk h ih =>
    have hk : k ∈ Kind.declaredFirst := by rcases hk with rfl | rfl <;> decide
    rwa [Node.isSpecialized_context (.inr hk) (Kind.declaredFirst_spec _ hk).2.1]

/-- What the arguments of a nominal type were applied to is a nominal type. -/
theorem kind_mem_nominals (h : ArgumentChain full n m lists)
    (hk : n.kind ∈ Kind.nominals ++ Kind.boundNominals) : m.kind ∈ Kind.nominals := by
  rcases h.kind with hm | ⟨-, hm⟩ | ⟨hm, -⟩
  · rcases List.mem_append.mp hk with hk | hk
    · rwa [hm]
    · have hfalse := h.isSpecialized_eq_false
      rw [Node.isSpecialized_of_mem (by rw [hm]; exact List.mem_append_left _ hk)] at hfalse
      cases hfalse
  · exact hm
  · rw [hm] at hk
    exact absurd hk (by decide)

/-- If there are no lists, nothing was taken away. -/
theorem eq_of_nil (h : ArgumentChain full n m []) : m = n := by
  generalize hlists : ([] : List (List Node)) = lists at h
  induction h with
  | stop => rfl
  | entity hk h ih =>
    split at hlists
    · cases hlists
    · rw [ih hlists]
  | extension h ih => rw [ih hlists]
  | _ => cases hlists

variable {cfg : Config}

/-- What is left obeys the grammar. -/
theorem grammatical (h : ArgumentChain full n m lists) (hn : n.Grammatical cfg) :
    m.Grammatical cfg := by
  -- By induction on the chain: each link puts what is left of a context where the context was.
  induction h with
  | stop => exact hn
  | @nominal _ k context context' name _ hk h ih =>
    have hroot := hn.root.withContext (.inl (Kind.separatesArguments_spec hk).1) h.isContext
    refine .mk hroot fun c hc => ?_
    rcases List.mem_cons.mp hc with rfl | hc
    · exact ih (hn.children context List.mem_cons_self)
    · exact hn.children c (List.mem_cons_of_mem _ hc)
  | @entity k p context context' cs _ hk h ih =>
    refine .mk (hn.root.withContext (.inr hk) h.isContext) fun c hc => ?_
    rcases List.mem_cons.mp hc with rfl | hc
    · exact ih (hn.children context List.mem_cons_self)
    · exact hn.children c (List.mem_cons_of_mem _ hc)
  | @extension _ md extended extended' _ h ih =>
    obtain ⟨m, e, hm, he, heq⟩ := hn.root.eq_extension rfl
    cases heq
    -- What is extended is a nominal type, with its arguments or without them.
    have hextended : extended'.kind ∈ Kind.nominals ++ Kind.boundNominals := by
      rcases h.kind with hk | ⟨-, hk⟩ | ⟨hk, -⟩
      · rwa [hk]
      · exact List.mem_append_left _ hk
      · rw [hk] at he
        exact absurd he (by decide)
    refine .mk (.extension hm hextended) fun c hc => ?_
    rcases List.mem_cons.mp hc with rfl | hc
    · exact hn.children c List.mem_cons_self
    · rw [List.mem_singleton.mp hc]
      exact ih (hn.children extended (by simp [Node.children]))
  | @bound _ k bound context context' name arguments _ hk h ih =>
    have htype := (hn.children _ List.mem_cons_self).children (.mk k .none [context, name])
      (List.mem_singleton_self _)
    refine .mk (htype.root.withContext (.inl (Kind.bound?_spec hk).1) h.isContext) fun c hc => ?_
    rcases List.mem_cons.mp hc with rfl | hc
    · exact ih (htype.children context List.mem_cons_self)
    · exact htype.children c (List.mem_cons_of_mem _ hc)
  | @boundFunction _ k p context context' cs arguments _ hk h ih =>
    have hfunction := hn.children (.mk k p (context :: cs)) List.mem_cons_self
    have hk : k ∈ Kind.declaredFirst := by rcases hk with rfl | rfl <;> decide
    refine .mk (hfunction.root.withContext (.inr hk) h.isContext) fun c hc => ?_
    rcases List.mem_cons.mp hc with rfl | hc
    · exact ih (hfunction.children context List.mem_cons_self)
    · exact hfunction.children c (List.mem_cons_of_mem _ hc)

/-- Where nothing is applied, nothing is taken away. -/
theorem eq_of_not_specialized (h : ArgumentChain full n m lists) (hn : n.isSpecialized = false) :
    m = n := by
  induction h with
  | stop => rfl
  | nominal hk h ih =>
    obtain ⟨hk, -, hbound, -⟩ := Kind.separatesArguments_spec hk
    rw [Node.isSpecialized_context (.inl hk) hbound] at hn
    rw [ih hn]
  | entity hk h ih =>
    rw [Node.isSpecialized_context (.inr hk) (Kind.declaredFirst_spec _ hk).2.1] at hn
    rw [ih hn]
  | extension h ih =>
    rw [Node.isSpecialized_extension] at hn
    rw [ih hn]
  | bound hk =>
    rw [Node.isSpecialized_bound (List.mem_append_left _ (Kind.bound?_spec hk).2.1)] at hn
    cases hn
  | boundFunction =>
    rw [Node.isSpecialized_bound (by decide)] at hn
    cases hn

/-- The writer finds what is left without generic arguments. -/
theorem stripped (h : ArgumentChain full n m lists) (hn : n.Grammatical cfg) :
    n.stripped = .ok m := by
  -- What is left fits at every link, since it obeys the grammar as a whole.
  have hm := h.grammatical hn
  induction h with
  | stop hstop => exact Node.stripped_of_not hstop
  | @nominal _ k context context' name _ hk h ih =>
    obtain ⟨hk, -, hbound, -⟩ := Kind.separatesArguments_spec hk
    have hcontext := ih (hn.children _ List.mem_cons_self) (hm.children _ List.mem_cons_self)
    exact Node.stripped_context (.inl hk) hbound hcontext h.eq_of_not_specialized hm.root.fits
  | @entity k p context context' cs _ hk h ih =>
    have hcontext := ih (hn.children _ List.mem_cons_self) (hm.children _ List.mem_cons_self)
    exact Node.stripped_context (.inr hk) (Kind.declaredFirst_spec _ hk).2.1 hcontext
      h.eq_of_not_specialized hm.root.fits
  | @extension _ md extended extended' _ h ih =>
    have hextended := ih (hn.children _ (by simp [Node.children]))
      (hm.children _ (by simp [Node.children]))
    exact Node.stripped_extension hextended h.eq_of_not_specialized hm.root.fits
  | @bound _ k bound context context' name arguments _ hk h ih =>
    obtain ⟨hk, hbound, -⟩ := Kind.bound?_spec hk
    have htype := (hn.children _ List.mem_cons_self).children (.mk k .none [context, name])
      (List.mem_singleton_self _)
    have hcontext := ih (htype.children _ List.mem_cons_self) (hm.children _ List.mem_cons_self)
    rw [Node.stripped_bound hbound]
    exact Node.stripped_context (.inl hk) (Kind.nominals_spec _ hk).2 hcontext
      h.eq_of_not_specialized hm.root.fits
  | @boundFunction _ k p context context' cs arguments _ hk h ih =>
    have hk : k ∈ Kind.declaredFirst := by rcases hk with rfl | rfl <;> decide
    have hfunction := hn.children (.mk k p (context :: cs)) List.mem_cons_self
    have hcontext := ih (hfunction.children _ List.mem_cons_self) (hm.children _ List.mem_cons_self)
    rw [Node.stripped_boundFunction]
    exact Node.stripped_context (.inr hk) (Kind.declaredFirst_spec _ hk).2.1 hcontext
      h.eq_of_not_specialized hm.root.fits

end ArgumentChain

/-! ### Applying the arguments -/

namespace Reading

/-- A context with lists of generic arguments applied to it. In an extension they are applied to the
type that it extends. -/
def applyToContext (context : Node) (lists : List Node) : Except Complaint Node :=
  match context with
  | .mk .extensionDecl _ (m :: extended :: _) => do
    shaped (Node.make .extensionDecl .none [m, ← applyArguments extended lists])
  | context => applyArguments context lists

theorem applyToContext_of_ne {c : Node} (h : c.kind ≠ .extensionDecl) (lists : List Node) :
    applyToContext c lists = applyArguments c lists := by
  unfold applyToContext
  split
  · exact absurd rfl h
  · rfl

/-- A declaration with its own generic arguments applied to it. Declarations that take none, and
empty lists, change nothing. -/
def applyOwn (k : Kind) (declaration arguments : Node) : Except Complaint Node :=
  if !k.consumesGenericArgs || arguments.children.isEmpty then .ok declaration
  else
    match k.bound? with
    | some bound => do
      let t ← shaped (Node.make .type .none [declaration])
      shaped (Node.make bound .none [t, arguments])
    | none =>
      if k = .functionDecl ∨ k = .constructorDecl then
        shaped (Node.make .boundGenericFunction .none [declaration, arguments])
      else .error (.cannotSpecialize k)

variable {k : Kind} {p : Payload} {context : Node} {cs lists : List Node} {arguments : Node}

/-- What is done with a context and its lists goes on from `applyToContext`. -/
private theorem applyToContext_bind (f : Node → Except Complaint Node) (above : List Node) :
    (match context with
      | .mk .extensionDecl _ (m :: extended :: _) => do
        let extended ← applyArguments extended above
        let context ← shaped (Node.make .extensionDecl .none [m, extended])
        f context
      | context => do
        let context ← applyArguments context above
        f context) = applyToContext context above >>= f := by
  unfold applyToContext
  split
  · rename_i m extended _
    rcases applyArguments extended above <;> rfl
  · rfl

/-- The first list is applied to the declaration itself, once the others have been applied to its
context. -/
theorem applyArguments_cons {above : List Node}
    (h : (if k.consumesGenericArgs then lists else arguments :: lists) = above) :
    applyArguments (.mk k p (context :: cs)) (arguments :: lists)
      = (do
        let declaration ← if above.isEmpty then .ok (.mk k p (context :: cs)) else do
          let context ← applyToContext context above
          shaped (Node.make k p (context :: cs))
        applyOwn k declaration arguments) := by
  rcases above with _ | ⟨l, above⟩
  · rw [applyArguments, h]
    rfl
  · rw [applyArguments, h]
    refine (applyToContext_bind _ (l :: above)).trans ?_
    rcases applyToContext context (l :: above) <;> rfl

/-- Where the context is known with its lists applied, the first list is left. -/
theorem applyArguments_context {context' : Node} {above : List Node}
    (h : (if k.consumesGenericArgs then lists else arguments :: lists) = above)
    (hsame : above = [] → context = context')
    (hcontext : above ≠ [] → applyToContext context above = .ok context')
    (hfits : (Node.mk k p (context' :: cs)).Fits) :
    applyArguments (.mk k p (context :: cs)) (arguments :: lists)
      = applyOwn k (.mk k p (context' :: cs)) arguments := by
  rw [applyArguments_cons h]
  rcases above with _ | ⟨l, above⟩
  · rw [hsame rfl]
    rfl
  · rw [hcontext (List.cons_ne_nil _ _)]
    show (shaped (Node.make k p (context' :: cs)) >>= _) = _
    rw [Node.make_of_fits hfits]
    rfl

/-- The arguments of a bound declaration are applied to it. -/
theorem applyOwn_bound {declaration : Node} {bound : Kind} (hk : k.bound? = some bound)
    (hne : arguments.children ≠ []) (htype : (Node.typeOf declaration).Fits)
    (hfits : (Node.mk bound .none [.typeOf declaration, arguments]).Fits) :
    applyOwn k declaration arguments = .ok (.mk bound .none [.typeOf declaration, arguments]) := by
  have hempty : arguments.children.isEmpty = false := List.isEmpty_eq_false_iff.mpr hne
  unfold applyOwn
  rw [(Kind.bound?_spec hk).2.2, hempty, hk]
  show (shaped (Node.make .type .none [declaration]) >>= _) = _
  rw [Node.make_of_fits htype]
  show shaped (Node.make bound .none [.typeOf declaration, arguments]) = _
  rw [Node.make_of_fits hfits]
  rfl

/-- The arguments of a function are applied to it. -/
theorem applyOwn_boundFunction {declaration : Node} (hk : k = .functionDecl ∨ k = .constructorDecl)
    (hne : arguments.children ≠ [])
    (hfits : (Node.mk .boundGenericFunction .none [declaration, arguments]).Fits) :
    applyOwn k declaration arguments =
      .ok (.mk .boundGenericFunction .none [declaration, arguments]) := by
  have hempty : arguments.children.isEmpty = false := List.isEmpty_eq_false_iff.mpr hne
  have hmake : shaped (Node.make .boundGenericFunction .none [declaration, arguments])
      = .ok (.mk .boundGenericFunction .none [declaration, arguments]) := by
    rw [Node.make_of_fits hfits]
    rfl
  unfold applyOwn
  rw [hempty]
  rcases hk with rfl | rfl <;> exact hmake

theorem applyOwn_nil {declaration : Node} (h : arguments.children = []) :
    applyOwn k declaration arguments = .ok declaration := by
  unfold applyOwn
  rw [h, List.isEmpty_nil, Bool.or_true]
  rfl

theorem applyOwn_of_not_consumes {declaration : Node} (h : k.consumesGenericArgs = false) :
    applyOwn k declaration arguments = .ok declaration := by
  unfold applyOwn
  rw [h]
  rfl

end Reading

namespace ArgumentChain

variable {full : Bool} {n m : Node} {lists : List (List Node)} {cfg : Config}

/-- Lists of generic arguments as the reader has them. -/
def argumentLists (lists : List (List Node)) : List Node := lists.map fun l => .mk .typeList .none l

theorem argumentLists_eq_nil (h : argumentLists lists = []) : lists = [] := List.map_eq_nil_iff.mp h

/-- A declaration that takes a list itself leaves the others to its context. -/
private theorem applyToContext_own {k : Kind} {p : Payload} {context context' own : Node}
    {cs : List Node} (h : ArgumentChain full context context' lists)
    (hcontext : lists ≠ [] → Reading.applyToContext context' (argumentLists lists) = .ok context)
    (hconsumes : k.consumesGenericArgs = true) (hext : k ≠ .extensionDecl)
    (hfits : (Node.mk k p (context :: cs)).Fits) :
    Reading.applyToContext (.mk k p (context' :: cs)) (own :: argumentLists lists)
      = Reading.applyOwn k (.mk k p (context :: cs)) own := by
  rw [Reading.applyToContext_of_ne (c := .mk k p (context' :: cs)) hext]
  refine Reading.applyArguments_context (if_pos hconsumes) (fun hnil => ?_) (fun hne => ?_) hfits
  · have hnil := argumentLists_eq_nil hnil
    subst hnil
    exact h.eq_of_nil
  · exact hcontext fun hnil => hne (by rw [hnil]; rfl)

/-- The lists, applied to what is left without them, give the declaration again. -/
theorem applyToContext (h : ArgumentChain full n m lists) (hn : n.Grammatical cfg)
    (hne : lists ≠ []) :
    Reading.applyToContext m (argumentLists lists) = .ok n := by
  -- By induction on the chain. The first list belongs to the declaration, and the others go to its
  -- context.
  induction h with
  | stop => exact absurd rfl hne
  | @nominal _ k context context' name lists hk h ih =>
    obtain ⟨hk, hconsumes, hbound, -⟩ := Kind.separatesArguments_spec hk
    have hext : k ≠ .extensionDecl := by
      rintro rfl
      exact absurd hk (by decide)
    have hcontext := ih (hn.children _ List.mem_cons_self)
    exact (applyToContext_own h hcontext hconsumes hext hn.root.fits).trans
      (Reading.applyOwn_nil rfl)
  | @entity k p context context' cs lists hk h ih =>
    obtain ⟨-, -, -, hext, -⟩ := Kind.declaredFirst_spec _ hk
    have hcontext := ih (hn.children _ List.mem_cons_self)
    -- A declaration that takes no arguments has no list in the chain, and passes all of them on.
    rcases hconsumes : k.consumesGenericArgs with _ | _
    · rw [hconsumes] at hne
      have hcontext := hcontext hne
      obtain ⟨l, ls, rfl⟩ := List.exists_cons_of_ne_nil (l := lists) hne
      rw [Reading.applyToContext_of_ne (c := .mk k p (context' :: cs)) hext]
      exact (Reading.applyArguments_context (if_neg (by rw [hconsumes]; decide)) nofun
        (fun _ => hcontext) hn.root.fits).trans (Reading.applyOwn_of_not_consumes hconsumes)
    · exact (applyToContext_own h hcontext hconsumes hext hn.root.fits).trans
        (Reading.applyOwn_nil rfl)
  | @extension _ md extended extended' lists h ih =>
    obtain ⟨m, e, -, he, heq⟩ := hn.root.eq_extension rfl
    cases heq
    -- Only one extension is looked into, so what it extends must not be another one.
    have hext : extended'.kind ≠ .extensionDecl := by
      intro hk
      rcases h.kind with hk' | ⟨-, hk'⟩ | ⟨hk', -⟩
      · rw [← hk', hk] at he
        exact absurd he (by decide)
      · rw [hk] at hk'
        exact absurd hk' (by decide)
      · rw [hk'] at he
        exact absurd he (by decide)
    have hextended := ih (hn.children _ (by simp [Node.children])) hne
    rw [Reading.applyToContext_of_ne hext] at hextended
    show (do Reading.shaped (Node.make .extensionDecl .none
      [md, ← Reading.applyArguments extended' (argumentLists lists)])) = _
    rw [hextended]
    show Reading.shaped (Node.make .extensionDecl .none [md, extended]) = _
    rw [Node.make_of_fits hn.root.fits]
    rfl
  | @bound _ k bound context context' name arguments lists hk h ih =>
    obtain ⟨hnominal, hbound, hconsumes⟩ := Kind.bound?_spec hk
    obtain ⟨_, _, -, hne', -, heq⟩ := hn.root.eq_boundNominal hbound
    cases heq
    have htype := hn.children _ List.mem_cons_self
    have hdeclaration := htype.children (.mk k .none [context, name]) (List.mem_singleton_self _)
    have hcontext := ih (hdeclaration.children _ List.mem_cons_self)
    have hext : k ≠ .extensionDecl := by
      rintro rfl
      cases hk
    exact (applyToContext_own h hcontext hconsumes hext hdeclaration.root.fits).trans
      (Reading.applyOwn_bound hk hne' htype.root.fits hn.root.fits)
  | @boundFunction _ k p context context' cs arguments lists hk h ih =>
    obtain ⟨_, _, -, hne', -, heq⟩ := hn.root.eq_boundFunction rfl
    cases heq
    have hdeclaration := hn.children (.mk k p (context :: cs)) List.mem_cons_self
    have hcontext := ih (hdeclaration.children _ List.mem_cons_self)
    have hext : k ≠ .extensionDecl := by rcases hk with rfl | rfl <;> decide
    have hconsumes : k.consumesGenericArgs = true := by rcases hk with rfl | rfl <;> rfl
    exact (applyToContext_own h hcontext hconsumes hext hdeclaration.root.fits).trans
      (Reading.applyOwn_boundFunction hk hne' hn.root.fits)

/-- A list that is applied to a declaration itself lies below it. -/
private theorem of_own {p : Node → Prop} {arguments : List Node} (hp : n.All p)
    (hmem : Node.mk .typeList .none arguments ∈ n.children)
    (harguments : ∀ a ∈ arguments, a.kind = .type) :
    ∀ a ∈ arguments, a.kind = .type ∧ a.All p ∧ a.size < n.size := fun a ha =>
  ⟨harguments a ha, (hp.children _ hmem).children a ha,
    Nat.lt_trans (Node.size_lt_of_mem_children (n := .mk .typeList .none arguments) ha)
      (Node.size_lt_of_mem_children hmem)⟩

/-- What holds of the arguments of the context holds of those of the declaration around it. -/
private theorem of_context {p : Node → Prop} {c : Node} (hsize : c.size ≤ n.size)
    (h : ∀ l ∈ lists, ∀ a ∈ l, a.kind = .type ∧ a.All p ∧ a.size < c.size) :
    ∀ l ∈ lists, ∀ a ∈ l, a.kind = .type ∧ a.All p ∧ a.size < n.size := fun l hl a ha =>
  have ⟨hk, hall, hlt⟩ := h l hl a ha
  ⟨hk, hall, Nat.lt_of_lt_of_le hlt hsize⟩

/-- All generic arguments are types below the declaration. -/
theorem of_mem {p : Node → Prop} (h : ArgumentChain full n m lists) (hn : n.Grammatical cfg)
    (hp : n.All p) : ∀ l ∈ lists, ∀ a ∈ l, a.kind = .type ∧ a.All p ∧ a.size < n.size := by
  -- By induction on the chain, each link of which is below the one before it.
  induction h with
  | stop => nofun
  | @nominal _ k context context' name lists hk h ih =>
    refine List.forall_mem_cons.mpr ⟨nofun, ?_⟩
    exact of_context (Nat.le_of_lt (Node.size_lt_of_mem_children List.mem_cons_self))
      (ih (hn.children context List.mem_cons_self) (hp.children context List.mem_cons_self))
  | @entity k q context context' cs lists hk h ih =>
    have hbelow := of_context
      (Nat.le_of_lt (Node.size_lt_of_mem_children (n := .mk k q (context :: cs))
      List.mem_cons_self)) (ih (hn.children context List.mem_cons_self)
        (hp.children context List.mem_cons_self))
    split
    · exact List.forall_mem_cons.mpr ⟨nofun, hbelow⟩
    · exact hbelow
  | @extension _ md extended extended' lists h ih =>
    have hmem : extended ∈ (Node.mk .extensionDecl .none [md, extended]).children := by
      simp [Node.children]
    exact of_context (Nat.le_of_lt (Node.size_lt_of_mem_children hmem))
      (ih (hn.children extended hmem) (hp.children extended hmem))
  | @bound _ k bound context context' name arguments lists hk h ih =>
    obtain ⟨_, _, -, -, harguments, heq⟩ := hn.root.eq_boundNominal (Kind.bound?_spec hk).2.1
    cases heq
    have hmem := List.mem_singleton_self (Node.mk k .none [context, name])
    refine List.forall_mem_cons.mpr
      ⟨of_own hp (by simp [Node.children]) harguments, of_context ?_ (ih
      (((hn.children _ List.mem_cons_self).children _ hmem).children context List.mem_cons_self)
      (((hp.children _ List.mem_cons_self).children _ hmem).children context List.mem_cons_self))⟩
    simp only [Node.typeOf, Node.size, Node.sizeAll]
    omega
  | @boundFunction _ k q context context' cs arguments lists hk h ih =>
    obtain ⟨_, _, -, -, harguments, heq⟩ := hn.root.eq_boundFunction rfl
    cases heq
    refine List.forall_mem_cons.mpr
      ⟨of_own hp (by simp [Node.children]) harguments, of_context ?_ (ih
      ((hn.children _ List.mem_cons_self).children context List.mem_cons_self)
      ((hp.children _ List.mem_cons_self).children context List.mem_cons_self))⟩
    simp only [Node.size, Node.sizeAll]
    omega

/-- What holds of nodes whatever their children are holds below the declaration without
arguments. -/
theorem all {p : Node → Prop} (h : ArgumentChain full n m lists) (hn : n.All p)
    (hp : ∀ k q cs cs', p (.mk k q cs) → p (.mk k q cs')) : m.All p := by
  -- Only the context changes.
  have hcontext : ∀ {k : Kind} {q : Payload} {c c' : Node} {cs : List Node},
      (Node.mk k q (c :: cs)).All p → c'.All p → (Node.mk k q (c' :: cs)).All p := by
    intro k q c c' cs hall hc'
    refine .mk (hp k q _ _ hall.root) fun d hd => ?_
    rcases List.mem_cons.mp hd with rfl | hd
    · exact hc'
    · exact hall.children d (List.mem_cons_of_mem _ hd)
  induction h with
  | stop => exact hn
  | @nominal _ k context context' name _ hk h ih =>
    exact hcontext hn (ih (hn.children context List.mem_cons_self))
  | @entity k q context context' cs _ hk h ih =>
    exact hcontext hn (ih (hn.children context List.mem_cons_self))
  | @extension _ md extended extended' _ h ih =>
    refine .mk (hp _ _ _ _ hn.root) fun c hc => ?_
    rcases List.mem_cons.mp hc with rfl | hc
    · exact hn.children c List.mem_cons_self
    · rw [List.mem_singleton.mp hc]
      exact ih (hn.children extended (by simp [Node.children]))
  | @bound _ k bound context context' name arguments _ hk h ih =>
    have hdeclaration := (hn.children _ List.mem_cons_self).children (.mk k .none [context, name])
      (List.mem_singleton_self _)
    exact hcontext hdeclaration (ih (hdeclaration.children context List.mem_cons_self))
  | @boundFunction _ k q context context' cs arguments _ hk h ih =>
    have hdeclaration := hn.children (.mk k q (context :: cs)) List.mem_cons_self
    exact hcontext hdeclaration (ih (hdeclaration.children context List.mem_cons_self))

/-- Nothing grows when arguments are taken away. -/
theorem size_le (h : ArgumentChain full n m lists) : m.size ≤ n.size := by
  induction h with
  | stop => exact Nat.le_refl _
  | nominal hk h ih =>
    simp only [Node.size, Node.sizeAll]
    omega
  | entity hk h ih =>
    simp only [Node.size, Node.sizeAll]
    omega
  | extension h ih =>
    simp only [Node.size, Node.sizeAll]
    omega
  | bound hk h ih =>
    simp only [Node.typeOf, Node.size, Node.sizeAll]
    omega
  | boundFunction hk h ih =>
    simp only [Node.size, Node.sizeAll]
    omega

end ArgumentChain

end SwiftABI
