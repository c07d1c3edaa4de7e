/-
  Comparing two ways of writing trees.

  The kinds of nodes are written in many ways, but all of them are put together from a few steps:
  characters are emitted, references are written, names are spelled and registered, and a type is
  registered behind what is written below it. A `Comparison` is a relation that these steps keep.
  Two ways of writing trees that compare for the smaller trees write a larger one so that it
  compares (`Comparison.ofNode`): each kind is written by way of smaller trees only. So a property
  of all that is written needs a proof for the steps alone.

  What is emitted are fixed letters, which may stand in a symbol, or texts that stand for a payload
  (`Node.Emits`). A comparison may ask something of these, and then holds for the trees that it
  admits.
-/
import SwiftABI.Proofs.Symbol.Turns
import SwiftABI.Proofs.Symbol.Unspecialized
import SwiftABI.Proofs.Text.Symbolic
import SwiftABI.Symbol.Mangle

namespace SwiftABI

/-! ### Letters -/

/-- What has letters of a nominal type is one. -/
theorem Code.mem_nominals_of_suffix? {k : Kind} {suffix : Text}
    (h : nominalSuffix? k = some suffix) :
    k ∈ Kind.nominals := by
  have hcodes : ∀ e ∈ nominals, e.2 ∈ Kind.nominals := by decide
  unfold nominalSuffix? at h
  split at h
  · subst ‹k = _›
    decide
  · obtain ⟨letter, hletter, -⟩ := Option.map_eq_some_iff.mp h
    exact hcodes _ (mem_of_encode? hletter)

theorem Code.symbolic_nominalSuffix? {k : Kind} {suffix : Text}
    (h : nominalSuffix? k = some suffix) : suffix.Symbolic := by
  have hcodes : ∀ e ∈ nominals, Text.isSymbolChar e.1 = true := by decide
  unfold nominalSuffix? at h
  split at h
  · cases h
    decide
  · obtain ⟨letter, hletter, rfl⟩ := Option.map_eq_some_iff.mp h
    simpa using hcodes _ (mem_of_encode? hletter)

theorem Code.symbolic_functionTypeSuffix (k : Kind) : (functionTypeSuffix k).Symbolic := by
  have hcodes : ∀ e ∈ functionTypes, Text.isSymbolChar e.1 = true := by decide
  unfold functionTypeSuffix
  split
  next c hc => exact Text.symbolic_cons.mpr ⟨by decide, by simpa using hcodes _ (mem_of_encode? hc)⟩
  · decide

theorem Code.symbolic_suffix? {k : Kind} {letters : String} (h : suffix? k = some letters) :
    Text.Symbolic letters.text := by
  have hletters : ∀ k ∈ Kind.all, ∀ letters ∈ suffix? k, Text.Symbolic letters.text := by
    decide +kernel
  exact hletters k (Kind.mem_all k) letters h

theorem Code.symbolic_accessorSuffix? {k : Kind} {suffix : Text}
    (h : accessorSuffix? k = some suffix) :
    suffix.Symbolic := by
  have hletters : ∀ k ∈ Kind.all, ∀ suffix ∈ accessorSuffix? k, Text.Symbolic suffix := by
    decide +kernel
  exact hletters k (Kind.mem_all k) suffix h

/-- The letters of standard types may stand in a symbol. -/
theorem Standard.isSymbolChar_of_code? {n : Node} {letter : CodePoint} (h : code? n = some letter) :
    Text.isSymbolChar letter = true := by
  have hcodes : ∀ e ∈ catalogue, Text.isSymbolChar e.code = true := by decide
  unfold code? at h
  split at h
  · split at h
    · obtain ⟨e, he, rfl⟩ := Option.map_eq_some_iff.mp h
      exact hcodes e (List.mem_of_find?_eq_some he)
    · contradiction
  · contradiction

/-- What stands at a position is an element. -/
theorem Position.mem_of_pick {α : Type} {xs : List α} {i : Int} {x : α} (h : pick xs i = some x) :
    x ∈ xs := by
  unfold pick at h
  split at h
  · exact List.mem_of_getElem? h
  split at h
  · exact List.mem_of_getElem? h
  · contradiction

/-! ### What is written for a payload -/

namespace Node

/-- The texts that a node is written with besides names, its children and fixed letters: the prefix
of a symbol, and what stands for a payload. -/
inductive Emits (cfg : Config) (n : Node) : Text → Prop where
  | symbolPrefix (hk : n.kind = .global) : Emits cfg n cfg.emittedPrefix
  | suffix {t : Text} (hk : n.kind = .suffix) (ht : Fault.inTree n.text = .ok t) : Emits cfg n t
  | relation {t : Text} (hk : n.kind = .relatedEntityDeclName) (ht : Fault.inTree n.text = .ok t) :
    Emits cfg n ('L' :: t)
  | number {i : Int} (hk : n.kind = .number) (hi : Fault.inTree n.index = .ok i) :
    Emits cfg n (Code.index i)
  | builtinType {t letters : Text} (hk : n.kind = .builtinTypeName)
    (ht : Fault.inTree n.text = .ok t)
    (hletters : Writing.builtinLetters t = .ok letters) : Emits cfg n ('B' :: letters)
  | outerParameter {c d : Node} {depth index : Int} (hk : n.kind = .dependentGenericParamType)
    (hc : n.child 0 = .ok c)
    (hd : n.child 1 = .ok d) (hdepth : Fault.inTree c.index = .ok depth)
      (hindex : Fault.inTree d.index = .ok index)
    (hzero : depth = 0) (hne : index ≠ 0) : Emits cfg n ('q' :: Code.index (index - 1))
  | innerParameter {c d : Node} {depth index : Int} (hk : n.kind = .dependentGenericParamType)
    (hc : n.child 0 = .ok c)
    (hd : n.child 1 = .ok d) (hdepth : Fault.inTree c.index = .ok depth)
      (hindex : Fault.inTree d.index = .ok index)
    (hne : depth ≠ 0) : Emits cfg n ("qd".text ++ Code.index (depth - 1) ++ Code.index index)

/-- Declarations and what applies arguments have no such texts. -/
theorem Emits.not_declared {cfg : Config} {n : Node} {t : Text} (h : n.Emits cfg t) :
    n.kind ∉ Kind.nominals ++ Kind.declaredFirst ++ [.extensionDecl] := by
  cases h <;> simp only [*] <;> decide

end Node

/-- A relation between two pieces of writing that putting pieces together keeps. The size bounds the
trees that are registered. Fixed letters may be written, and other texts if they are plain. -/
structure Comparison (cfg : Config) where
  Plain (t : Text) : Prop
  symbolic {t : Text} (ht : t.Symbolic) : Plain t
  Holds (size : Nat) {α : Type} (x y : Writing α) : Prop
  mono {size size' : Nat} {α : Type} {x y : Writing α} (hle : size ≤ size') (h : Holds size x y) :
    Holds size' x y
  pure {size : Nat} {α : Type} (a : α) : Holds size (Pure.pure a) (Pure.pure a)
  throw {size : Nat} {α : Type} (e : Fault) :
    Holds size (MonadExcept.throw e : Writing α) (MonadExcept.throw e)
  bind {size : Nat} {α β : Type} {x y : Writing α} {f g : α → Writing β} (h : Holds size x y)
    (hrest : ∀ a, Holds size (f a) (g a)) : Holds size (x >>= f) (y >>= g)
  emit {size : Nat} {t : Text} (ht : Plain t) : Holds size (Writing.emit t) (Writing.emit t)
  substitute {size : Nat} {letter : CodePoint} (hletter : Text.isSymbolChar letter = true)
    (sign : SubstitutionSign) :
    Holds size (Writing.substitute cfg letter sign) (Writing.substitute cfg letter sign)
  /-- A name is spelled, and registered by its name. -/
  named {size : Nat} (n : Node) (text : Except Fault Text) (spelling : Text → Text) :
    Holds size
      (Writing.referenceOr cfg n true
        (Writing.lift text >>= fun t => Writing.spellName cfg n (spelling t)))
      (Writing.referenceOr cfg n true
        (Writing.lift text >>= fun t => Writing.spellName cfg n (spelling t)))
  /-- A type is registered behind what is smaller. -/
  registered {n : Node} {x y : Writing Unit} (hk : n.kind ∈ Kind.nominals ++ Kind.boundGenerics)
    (h : Holds n.size x y) :
    Holds (n.size + 1) (Writing.referenceOr cfg n false x) (Writing.referenceOr cfg n false y)

namespace Comparison

variable {α β : Type} {cfg : Config} {C : Comparison cfg} {sub sub' : Node → Writing Unit}
  {n c : Node} {size : Nat}

/-! ### Putting pieces together -/

theorem refuse (n : Node) (r : Refusal) :
    C.Holds size (Writing.refuse n r : Writing α) (Writing.refuse n r) :=
  C.throw _

/-- Letters that are the same for all nodes. -/
theorem letters {t : Text} (ht : t.Symbolic) :
    C.Holds size (Writing.emit t) (Writing.emit t) := C.emit (C.symbolic ht)

theorem lift {x : Except Fault α} {f g : α → Writing β}
    (h : ∀ a, x = .ok a → C.Holds size (f a) (g a)) :
    C.Holds size (Writing.lift x >>= f) (Writing.lift x >>= g) := by
  cases x with
  | error e => exact C.throw e
  | ok a => exact h a rfl

theorem child {i : Nat} {f g : Node → Writing α} (h : ∀ c ∈ n.children, C.Holds size (f c) (g c)) :
    C.Holds size (Writing.child n i >>= f) (Writing.child n i >>= g) :=
  lift fun c hc => h c (Node.mem_children_of_child hc)

theorem ite {p : Prop} [Decidable p] {x x' y y' : Writing α} (hx : p → C.Holds size x y)
    (hx' : ¬p → C.Holds size x' y') : C.Holds size (if p then x else x') (if p then y else y') := by
  split
  · exact hx ‹_›
  · exact hx' ‹_›

theorem each {ns : List Node} (h : ∀ c ∈ ns, C.Holds size (sub c) (sub' c)) :
    C.Holds size (Writing.each sub ns) (Writing.each sub' ns) := by
  induction ns with
  | nil => exact C.pure ()
  | cons n ns ih =>
    exact C.bind (h n List.mem_cons_self) fun _ => ih fun c hc => h c (List.mem_cons_of_mem n hc)

theorem markedList {ns : List Node} (h : ∀ c ∈ ns, C.Holds size (sub c) (sub' c)) :
    C.Holds size (Writing.markedList sub ns) (Writing.markedList sub' ns) := by
  cases ns with
  | nil => exact letters (by decide)
  | cons n ns =>
    exact C.bind (h n List.mem_cons_self) fun _ => C.bind (letters (by decide)) fun _ =>
      each fun c hc => h c (List.mem_cons_of_mem n hc)

/-! ### Writing smaller trees -/

/-- All texts that stand for payloads in the tree are plain. -/
def Admits (C : Comparison cfg) (n : Node) : Prop := n.All fun m => ∀ t, m.Emits cfg t → C.Plain t

namespace Admits

theorem of_plain (h : ∀ t, C.Plain t) (n : Node) :
    C.Admits n := Node.All.iff_walk.mpr fun _ _ t _ => h t

theorem unwrapped (h : C.Admits n) : C.Admits n.unwrapped := by
  unfold Node.unwrapped
  split
  · exact h.children _ List.mem_cons_self
  · exact h

/-- Nothing else is written when arguments have been taken away. -/
theorem unspecialized {m : Node} (h : n.Unbinds m) (hn : C.Admits n) : C.Admits m := by
  have hdeclared {k : Kind} {p : Payload} {cs : List Node}
      (hk : k ∈ Kind.nominals ++ Kind.declaredFirst ++ [.extensionDecl])
      (hcs : ∀ c ∈ cs, C.Admits c) :
      C.Admits (.mk k p cs) := .of_children (fun t ht => absurd hk ht.not_declared) hcs
  induction h with
  | plain => exact hn
  | @context k p c c' cs hk hfits h ih =>
    have hcs : ∀ d ∈ c' :: cs, C.Admits d := by
      rw [List.forall_mem_cons]
      exact ⟨ih (hn.children c List.mem_cons_self),
        fun d hd => hn.children d (List.mem_cons_of_mem c hd)⟩
    exact hdeclared (List.mem_append_left _ (List.mem_append.mpr hk)) hcs
  | bound hk h ih => exact ih ((hn.children _ List.mem_cons_self).children _ List.mem_cons_self)
  | boundFunction h ih => exact ih (hn.children _ List.mem_cons_self)
  | @extension p c extended extended' cs hfits h ih =>
    have hcs : ∀ d ∈ [c, extended'], C.Admits d := by
      rw [List.forall_mem_cons, List.forall_mem_singleton]
      exact ⟨hn.children c List.mem_cons_self, ih (hn.children extended (by simp [Node.children]))⟩
    exact hdeclared (by decide) hcs

end Admits

/-- Two ways of writing trees compare for those that are smaller than a node, which may be written
itself. -/
structure Below (C : Comparison cfg) (n : Node) (sub sub' : Node → Writing Unit) : Prop where
  admits : C.Admits n
  smaller (c : Node) (hc : c.size < n.size) (hadmits : C.Admits c) :
    C.Holds (c.size + 1) (sub c) (sub' c)

namespace Below

theorem of_le {m : Node} (h : C.Below n sub sub') (hle : m.size ≤ n.size) (hm : C.Admits m) :
    C.Below m sub sub' :=
  ⟨hm, fun c hc => h.smaller c (Nat.lt_of_lt_of_le hc hle)⟩

theorem node (h : C.Below n sub sub') (hc : c.size < n.size) (hadmits : C.Admits c) :
    C.Holds n.size (sub c) (sub' c) := C.mono hc (h.smaller c hc hadmits)

theorem mem (h : C.Below n sub sub') (hc : c ∈ n.children) : C.Holds n.size (sub c) (sub' c) :=
  h.node (Node.size_lt_of_mem_children hc) (h.admits.children c hc)

theorem le_of_mem (hc : c ∈ n.children) :
    c.size ≤ n.size := Nat.le_of_lt (Node.size_lt_of_mem_children hc)

theorem unwrapped (h : C.Below n sub sub') : C.Below n.unwrapped sub sub' :=
  h.of_le n.size_unwrapped_le h.admits.unwrapped

/-- What is below a child may be written. -/
theorem below (h : C.Below n sub sub') (hc : c ∈ n.children) : C.Below c sub sub' :=
  h.of_le (le_of_mem hc) (h.admits.children c hc)

/-- What is written by way of the children of a smaller tree. -/
theorem inside (h : C.Below n sub sub') (hle : n.size ≤ size) (hc : c ∈ n.children) :
    C.Holds size (sub c) (sub' c) := C.mono hle (h.mem hc)

theorem onChild (h : C.Below n sub sub') (i : Nat) :
    C.Holds n.size (Writing.child n i >>= sub) (Writing.child n i >>= sub') :=
  child fun _ hc => h.mem hc

/-- A child is written, and then something else. -/
theorem onChildThen (h : C.Below n sub sub') (i : Nat) {f g : Unit → Writing α}
    (hf : ∀ u, C.Holds n.size (f u) (g u)) :
    C.Holds n.size (Writing.child n i >>= fun c => sub c >>= f)
      (Writing.child n i >>= fun c => sub' c >>= g) :=
  child fun _ hc => C.bind (h.mem hc) hf

theorem children (h : C.Below n sub sub') :
    C.Holds n.size (Writing.each sub n.children) (Writing.each sub' n.children) :=
  each fun _ hc => h.mem hc

theorem childrenReversed (h : C.Below n sub sub') :
    C.Holds n.size (Writing.each sub n.children.reverse) (Writing.each sub' n.children.reverse) :=
  each fun _ hc => h.mem (List.mem_reverse.mp hc)

end Below
/-! ### Names and entities -/

theorem tryStandard (n : Node) :
    C.Holds size (Writing.tryStandard cfg n) (Writing.tryStandard cfg n) := by
  unfold Writing.tryStandard
  split
  · exact C.bind (C.substitute (Standard.isSymbolChar_of_code? ‹_›) _) fun _ => C.pure _
  · exact C.pure _

theorem identifier (n : Node) :
    C.Holds size (Writing.identifier cfg n) (Writing.identifier cfg n) :=
  C.named n _ id

theorem operatorName {fixity : CodePoint} (hfixity : Text.isSymbolChar fixity = true) (n : Node) :
    C.Holds size (Writing.operatorName cfg fixity n) (Writing.operatorName cfg fixity n) :=
  C.bind (C.named n _ Operator.translate) fun _ => letters (by simp [hfixity]; decide)

theorem moduleName (n : Node) :
    C.Holds size (Writing.moduleName cfg n) (Writing.moduleName cfg n) :=
  lift fun _ _ => ite (fun _ => letters (by decide)) fun _ =>
    ite (fun _ => letters (by decide)) fun _ =>
    ite (fun _ => letters (by decide)) fun _ => identifier n

theorem privateDeclName (h : C.Below n sub sub') :
    C.Holds n.size (Writing.privateDeclName sub n) (Writing.privateDeclName sub' n) :=
  C.bind h.childrenReversed fun _ => letters (by split <;> decide)

theorem localDeclName (h : C.Below n sub sub') :
    C.Holds n.size (Writing.localDeclName sub n) (Writing.localDeclName sub' n) :=
  h.onChildThen 1 fun _ => C.bind (letters (by decide)) fun _ => h.onChild 0

theorem relatedEntityDeclName (h : C.Below n sub sub') (hk : n.kind = .relatedEntityDeclName) :
    C.Holds n.size (Writing.relatedEntityDeclName sub n) (Writing.relatedEntityDeclName sub' n) :=
  h.onChildThen 0 fun _ => lift fun _ ht => C.emit (h.admits.root _ (.relation hk ht))

theorem function (h : C.Below n sub sub') :
    C.Holds n.size (Writing.function sub n) (Writing.function sub' n) := by
  have htype {t : Node} (ht : t ∈ n.children) : C.Holds n.size
      (do
        if t.unwrapped.kind ≠ .functionType then
          Writing.refuse n (.notFunctionType t.unwrapped.kind)
        Writing.each sub t.unwrapped.children.reverse
        Writing.emit ['F'])
      (do
        if t.unwrapped.kind ≠ .functionType then
          Writing.refuse n (.notFunctionType t.unwrapped.kind)
        Writing.each sub' t.unwrapped.children.reverse
        Writing.emit ['F']) := by
    have hparts : C.Holds n.size (Writing.each sub t.unwrapped.children.reverse)
        (Writing.each sub' t.unwrapped.children.reverse) :=
      each fun _ hc =>
        (h.below ht).unwrapped.inside (Nat.le_trans t.size_unwrapped_le (Below.le_of_mem ht))
        (List.mem_reverse.mp hc)
    have hrest := C.bind hparts fun _ => letters (t := ['F']) (by decide)
    exact ite (fun _ => C.bind (refuse _ _) fun _ => hrest) fun _ => hrest
  refine h.onChildThen 0 fun _ => h.onChildThen 1 fun _ => child fun third hthird => ?_
  by_cases hlabels : third.kind = .labelList
  · simp only [hlabels, if_true]
    exact C.bind (h.mem hthird) fun _ => child fun t ht => htype ht
  · simp only [hlabels, if_false]
    exact htype hthird

theorem closure (h : C.Below n sub sub') {suffix : String} (hsuffix : suffix.text.Symbolic) :
    C.Holds n.size (Writing.closure sub suffix n) (Writing.closure sub' suffix n) :=
  h.onChildThen 0 fun _ => h.onChildThen 2 fun _ => C.bind (letters hsuffix) fun _ => h.onChild 1

theorem defaultArgument (h : C.Below n sub sub') :
    C.Holds n.size (Writing.defaultArgument sub n) (Writing.defaultArgument sub' n) :=
  h.onChildThen 0 fun _ => C.bind (letters (by decide)) fun _ => h.onChild 1

theorem accessor (h : C.Below n sub sub') {suffix : Text} (hsuffix : suffix.Symbolic) :
    C.Holds n.size (Writing.accessor sub suffix n) (Writing.accessor sub' suffix n) := by
  refine child fun storage hstorage => ?_
  have hchildren : C.Holds n.size (Writing.each sub storage.children)
      (Writing.each sub' storage.children) :=
    each fun _ hc => (h.below hstorage).inside (Below.le_of_mem hstorage) hc
  have hrest {letter : CodePoint} (hletter : Text.isSymbolChar letter = true) :=
    C.bind hchildren fun _ => letters (t := letter :: suffix) (by simp [hletter, hsuffix])
  dsimp only
  split
  · exact hrest (by decide)
  · exact hrest (by decide)
  · exact C.throw _

theorem valueWitness (h : C.Below n sub sub') :
    C.Holds n.size (Writing.valueWitness sub n) (Writing.valueWitness sub' n) := by
  have hcodes : ∀ e ∈ Code.valueWitnesses, Text.Symbolic e.1 := by decide
  refine h.onChildThen 0 fun _ => lift fun _ _ => ?_
  split
  next code name hpick =>
    have hcode := hcodes _ (Position.mem_of_pick hpick)
    exact letters (Text.symbolic_cons.mpr ⟨by decide, hcode⟩)
  · exact C.throw _

theorem fieldOffset (h : C.Below n sub sub') :
    C.Holds n.size (Writing.fieldOffset sub n) (Writing.fieldOffset sub' n) :=
  h.onChildThen 1 fun _ => child fun _ _ => lift fun _ _ => letters (by split <;> decide)

/-! ### Generic arguments -/

/-- Arguments are written, and then something else that may depend on the separator behind them.
That is the mark `_`, or the one that they begin with. -/
theorem genericArguments (fuel : Nat) :
    ∀ {m : Node} {separator : CodePoint} {full : Bool} {f g : CodePoint → Writing α},
    m.size ≤ size → C.Below m sub sub' → Text.isSymbolChar separator = true →
    (∀ separator, Text.isSymbolChar separator = true → C.Holds size (f separator) (g separator)) →
    C.Holds size (Writing.genericArguments sub fuel m separator full >>= f)
      (Writing.genericArguments sub' fuel m separator full >>= g) := by
  induction fuel with
  | zero =>
    intro m separator full f g hm h hseparator hrest
    exact hrest separator hseparator
  | succ fuel ih =>
    intro m separator full f g hm h hseparator hrest
    have hle {c : Node} (hc : c ∈ m.children) : c.size ≤ size :=
      Nat.le_trans (Below.le_of_mem hc) hm
    -- Arguments are children of the second child, and the context is the first child, or below
    -- that.
    have harguments {c : Node} (hc : c ∈ m.children) :
        C.Holds size (Writing.each sub c.children) (Writing.each sub' c.children) :=
      each fun _ hd => (h.below hc).inside (hle hc) hd
    have hmark {separator : CodePoint} (hseparator : Text.isSymbolChar separator = true) :
        C.Holds size (Writing.emit [separator] >>= fun _ => f '_')
        (Writing.emit [separator] >>= fun _ => g '_') :=
      C.bind (letters (by simpa using hseparator)) fun _ => hrest '_' (by decide)
    rw [Writing.genericArguments, Writing.genericArguments]
    by_cases hseparates : Writing.separatesArguments m.kind = true
    · simp only [if_pos hseparates, bind_assoc, pure_bind]
      exact child fun c hc => ih (hle hc) (h.below hc) hseparator fun _ => hmark
    simp only [if_neg hseparates]
    by_cases hdeclared : m.kind ∈ Kind.declaredFirst
    · simp only [if_pos hdeclared]
      by_cases hfull : (!full) = true
      · simp only [if_pos hfull, pure_bind]
        exact hrest separator hseparator
      simp only [if_neg hfull, bind_assoc]
      refine child fun c hc => ih (hle hc) (h.below hc) hseparator fun separator hseparator => ?_
      by_cases hconsumes : m.kind.consumesGenericArgs = true
      · simp only [if_pos hconsumes, bind_assoc, pure_bind]
        exact hmark hseparator
      · simp only [if_neg hconsumes, pure_bind]
        exact hrest separator hseparator
    simp only [if_neg hdeclared]
    by_cases hbound : m.kind ∈ Kind.boundNominals
    · simp only [if_pos hbound, bind_assoc, pure_bind]
      refine child fun c hc => child fun unbound hunbound => child fun d hd => ?_
      have hinner := (h.below hc).below hunbound
      have hd' := Nat.le_trans (Below.le_of_mem hd)
        (Nat.le_trans (Below.le_of_mem hunbound) (hle hc))
      refine ih hd' (hinner.below hd) hseparator fun separator hseparator => ?_
      refine C.bind (letters (by simpa using hseparator)) fun _ => child fun arguments hs => ?_
      exact C.bind (harguments hs) fun _ => hrest '_' (by decide)
    simp only [if_neg hbound]
    by_cases hfunction : m.kind = .boundGenericFunction
    · simp only [if_pos hfunction, bind_assoc, pure_bind]
      refine child fun unbound hunbound => child fun d hd => ?_
      have hd' := Nat.le_trans (Below.le_of_mem hd) (hle hunbound)
      refine ih hd' ((h.below hunbound).below hd) hseparator fun separator hseparator => ?_
      refine C.bind (letters (by simpa using hseparator)) fun _ => child fun arguments hs => ?_
      exact C.bind (harguments hs) fun _ => hrest '_' (by decide)
    simp only [if_neg hfunction]
    by_cases hextension : m.kind = .extensionDecl
    · simp only [if_pos hextension, bind_assoc]
      exact child fun c hc => ih (hle hc) (h.below hc) hseparator hrest
    · simp only [if_neg hextension, pure_bind]
      exact hrest separator hseparator

theorem applied (h : C.Below n sub sub') :
    C.Holds n.size (Writing.applied sub n) (Writing.applied sub' n) := by
  unfold Writing.applied
  rw [Writing.discard_eq_bind, Writing.discard_eq_bind, bind_assoc, bind_assoc]
  refine genericArguments n.size (Nat.le_refl _) h (by decide) fun _ _ => ?_
  rw [pure_bind]
  exact letters (by decide)

/-! ### Types -/

theorem plainNominal (hk : n.kind ∈ Kind.nominals) (h : C.Below n sub sub') {suffix : Text}
    (hsuffix : suffix.Symbolic) :
    C.Holds (n.size + 1) (Writing.plainNominal cfg sub suffix n)
      (Writing.plainNominal cfg sub' suffix n) :=
  C.registered (List.mem_append_left _ hk) (C.bind h.children fun _ => letters hsuffix)

theorem unappliedNominal (h : C.Below n sub sub') :
    C.Holds (n.size + 1) (Writing.unappliedNominal cfg sub n)
      (Writing.unappliedNominal cfg sub' n) := by
  unfold Writing.unappliedNominal
  split
  · exact plainNominal (Code.mem_nominals_of_suffix? ‹_›) h (Code.symbolic_nominalSuffix? ‹_›)
  · exact refuse _ _

/-- A type with arguments is registered behind the smaller one without them. -/
theorem nominal (hk : n.kind ∈ Kind.nominals ++ Kind.boundGenerics) (h : C.Below n sub sub') :
    C.Holds (n.size + 1) (Writing.nominal cfg sub n) (Writing.nominal cfg sub' n) := by
  unfold Writing.nominal
  refine ite (fun hn => C.registered hk (lift fun m hm => ?_)) fun _ => unappliedNominal h
  have hlt : m.size < n.size := Node.size_unspecialized hn hm
  have hm := h.of_le (Nat.le_of_lt hlt)
    (h.admits.unspecialized (Node.unbinds_of_unspecialized n hm))
  exact C.bind (C.mono hlt (unappliedNominal hm)) fun _ => applied h

theorem boundGenericEnum (hk : n.kind ∈ Kind.nominals ++ Kind.boundGenerics)
    (h : C.Below n sub sub') :
    C.Holds (n.size + 1) (Writing.boundGenericEnum cfg sub n)
      (Writing.boundGenericEnum cfg sub' n) := by
  refine child fun inner _ => child fun arguments harguments => ?_
  split
  · rename_i argument hone
    refine ite (fun _ => C.registered hk ?_) fun _ => nominal hk h
    have hargument : argument ∈ arguments.children := by rw [hone]; exact List.mem_cons_self
    exact C.bind ((h.below harguments).inside (Below.le_of_mem harguments) hargument) fun _ =>
      letters (by decide)
  · exact nominal hk h

theorem boundGenericFunction (h : C.Below n sub sub') (hk : n.kind = .boundGenericFunction) :
    C.Holds (n.size + 1) (Writing.boundGenericFunction cfg sub n)
      (Writing.boundGenericFunction cfg sub' n) := by
  have hbound : n.kind ∈ Kind.boundGenerics := by rw [hk]; decide
  have hn : n.isSpecialized = true := Node.isSpecialized_of_mem hbound
  refine C.registered (List.mem_append_right _ hbound)
    (lift fun m hm => C.bind ?_ fun _ => applied h)
  exact h.node (Node.size_unspecialized hn hm)
    (h.admits.unspecialized (Node.unbinds_of_unspecialized n hm))

theorem functionType (h : C.Below n sub sub') :
    C.Holds n.size (Writing.functionType sub n) (Writing.functionType sub' n) :=
  C.bind h.childrenReversed fun _ => letters (Code.symbolic_functionTypeSuffix _)

theorem functionParameters (h : C.Below n sub sub') :
    C.Holds n.size (Writing.functionParameters sub n) (Writing.functionParameters sub' n) := by
  refine child fun c hc => ite (fun _ => letters (by decide)) fun _ => ?_
  refine h.node ?_ (h.below hc).unwrapped.admits
  exact Nat.lt_of_le_of_lt c.size_unwrapped_le (Node.size_lt_of_mem_children hc)

theorem labelList (h : C.Below n sub sub') :
    C.Holds n.size (Writing.labelList sub n) (Writing.labelList sub' n) :=
  ite (fun _ => letters (by decide)) fun _ => h.children

theorem pureProtocol (h : C.Below c sub sub') (hc : c.size ≤ size) :
    C.Holds size (Writing.pureProtocol cfg sub c) (Writing.pureProtocol cfg sub' c) :=
  C.bind (tryStandard _) fun _ => ite (fun _ => C.pure _) fun _ => each fun _ hd =>
    h.unwrapped.inside (Nat.le_trans c.size_unwrapped_le hc) hd

theorem protocols (h : C.Below n sub sub') (hn : n.size ≤ size) :
    C.Holds size (Writing.protocols cfg sub n) (Writing.protocols cfg sub' n) :=
  child fun _ hc => markedList fun _ hp =>
    pureProtocol ((h.below hc).below hp)
      (Nat.le_trans (Below.le_of_mem hp) (Nat.le_trans (Below.le_of_mem hc) hn))

theorem metatype (h : C.Below n sub sub') {represented bare : Text}
    (hrepresented : represented.Symbolic) (hbare : bare.Symbolic) :
    C.Holds n.size (Writing.metatype sub represented bare n)
      (Writing.metatype sub' represented bare n) := by
  have hcodes : ∀ e ∈ Code.metatypeRepresentations, Text.isSymbolChar e.1 = true := by decide
  refine child fun first hfirst =>
    ite (fun _ => h.onChildThen 1 fun _ => lift fun _ _ => ?_) fun _ =>
    C.bind (h.mem hfirst) fun _ => letters hbare
  split
  next letter hletter =>
    have hletter := hcodes _ (Code.mem_of_encode? hletter)
    exact letters (by simp [hrepresented, hletter])
  · exact C.throw _

theorem builtinType (h : C.Admits n) (hk : n.kind = .builtinTypeName) :
    C.Holds size (Writing.builtinType n) (Writing.builtinType n) := by
  refine lift fun _ ht => ?_
  split
  next hletters => exact C.emit (h.root _ (.builtinType hk ht hletters))
  · exact refuse _ _

theorem genericParameter (h : C.Admits n) (hk : n.kind = .dependentGenericParamType) :
    C.Holds size (Writing.genericParameter n) (Writing.genericParameter n) := by
  refine lift fun c hc => lift fun depth hdepth => lift fun d hd => lift fun index hindex => ?_
  by_cases hzero : depth = 0
  · by_cases hne : index = 0
    · simp only [hzero, hne, and_self, if_true]
      exact letters (by decide)
    · simp only [hzero, hne, and_false, if_false, ne_eq, not_true_eq_false]
      exact C.emit (h.root _ (.outerParameter hk hc hd hdepth hindex hzero hne))
  · simp only [hzero, false_and, if_false, ne_eq, not_false_eq_true, if_true]
    exact C.emit (h.root _ (.innerParameter hk hc hd hdepth hindex hzero))

/-! ### Nodes -/

/-- What registers smaller trees only. -/
theorem smaller {x y : Writing α} (h : C.Holds n.size x y) :
    C.Holds (n.size + 1) x y := C.mono (Nat.le_succ _) h

theorem ofKind (h : C.Below n sub sub') :
    C.Holds (n.size + 1) (Writing.ofKind cfg sub n) (Writing.ofKind cfg sub' n) := by
  have hadmits : ∀ t, n.Emits cfg t → C.Plain t := h.admits.root
  unfold Writing.ofKind
  -- One case for each kind, in the order of the definition. Only nominal types are registered
  -- themselves.
  split
  · exact smaller (C.bind (C.emit (hadmits _ (.symbolPrefix ‹_›))) fun _ => h.children)
  · exact smaller (h.onChild 0)
  · exact lift fun _ ht => C.emit (hadmits _ (.suffix ‹_› ht))
  · exact moduleName n
  iterate 2 exact identifier n
  iterate 3 exact operatorName (by decide) n
  · exact smaller (localDeclName h)
  · exact smaller (privateDeclName h)
  · exact smaller (relatedEntityDeclName h ‹_›)
  · exact lift fun _ hi => C.emit (hadmits _ (.number ‹_› hi))
  iterate 10 exact nominal (by rw [‹n.kind = _›]; decide) h
  · exact plainNominal (by rw [‹n.kind = _›]; decide) h (by decide)
  · exact smaller (h.onChildThen 1 fun _ => h.onChildThen 0 fun _ => letters (by decide))
  · exact boundGenericEnum (by rw [‹n.kind = _›]; decide) h
  · exact boundGenericFunction h ‹_›
  · exact smaller (function h)
  · exact smaller (closure h (by decide))
  · exact smaller (closure h (by decide))
  · exact smaller (defaultArgument h)
  iterate 7 exact smaller (functionType h)
  iterate 2 exact smaller (functionParameters h)
  · exact smaller (markedList fun _ hc => h.mem hc)
  · exact smaller (C.bind (markedList fun _ hc => h.mem hc) fun _ => letters (by decide))
  · exact smaller h.childrenReversed
  · exact smaller (labelList h)
  · exact smaller (metatype h (by decide) (by decide))
  · exact smaller (metatype h (by decide) (by decide))
  · exact smaller (C.bind (protocols h (Nat.le_refl _)) fun _ => letters (by decide))
  · exact smaller (child fun _ hc => C.bind (protocols (h.below hc) (Below.le_of_mem hc)) fun _ =>
      letters (by decide))
  · exact builtinType h.admits ‹_›
  · exact genericParameter h.admits ‹_›
  · exact smaller (child fun _ hc =>
      C.bind (pureProtocol (h.below hc) (Below.le_of_mem hc)) fun _ => letters (by decide))
  · exact smaller (valueWitness h)
  · exact smaller (fieldOffset h)
  · exact refuse _ _

/-- A node is written by way of smaller trees, and it is the largest one that is registered. -/
theorem ofNode (h : C.Below n sub sub') :
    C.Holds (n.size + 1) (Writing.ofNode cfg sub n) (Writing.ofNode cfg sub' n) := by
  unfold Writing.ofNode
  split
  · exact smaller (C.bind h.children fun _ => letters (Code.symbolic_suffix? ‹_›))
  · exact smaller (accessor h (Code.symbolic_accessorSuffix? ‹_›))
  · exact ofKind h

end Comparison

end SwiftABI
