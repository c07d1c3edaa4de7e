/-
  Comparing the descriptions of two trees.

  A description looks at the kinds of nodes, their numbers and children, and at those texts that the
  options show. A `Comparison` is a relation between trees that is kept where a description goes
  from a node to one below it, and in which such trees have all of this in common. Two ways of
  describing trees that agree on smaller trees which are alike describe alike trees alike
  (`Comparison.ofNode`), and so does `describeAt` (`Comparison.describeAt`).
-/
import Mathlib.Data.List.Forall2
import SwiftABI.Description.Basic
import SwiftABI.Proofs.Symbol.ArgumentChain

namespace SwiftABI

/-- Can a node of the kind have a child of the other kind? -/
def Kind.holds (k k' : Kind) : Bool := (k.slots.getD []).any fun s => s.accepts k'

/-- Do the options show the texts of the nodes of a kind? -/
def DisplayOptions.shows (o : DisplayOptions) : Kind → Bool
  | .moduleName => o.moduleNames
  | .suffix => o.unmangledSuffix
  | _ => true

namespace Description

variable {α β : Type} {o : DisplayOptions}

/-- A relation between trees that a description cannot tell apart. Below a private name, whose
discriminator may be hidden, it is only known to go on where the node is `Open`. -/
structure Comparison (o : DisplayOptions) where
  Alike : Node → Node → Prop
  /-- The children of the node are alike as well. -/
  Open : Node → Prop
  size {n n' : Node} (h : Alike n n') : n'.size = n.size
  kind {n n' : Node} (h : Alike n n') : n'.kind = n.kind
  index? {n n' : Node} (h : Alike n n') : n'.index? = n.index?
  text? {n n' : Node} (h : Alike n n') (hshown : o.shows n.kind = true) : n'.text? = n.text?
  /-- Of a module, a description always sees whether it is the one of the standard library. -/
  standard {n n' : Node} (h : Alike n n') (hk : n.kind = .moduleName) :
    n'.text? = some Standard.moduleText ↔ n.text? = some Standard.moduleText
  length {n n' : Node} (h : Alike n n') : n'.children.length = n.children.length
  children {n n' : Node} (h : Alike n n') (hopen : Open n) :
    List.Forall₂ Alike n.children n'.children
  /-- The first child may be a discriminator, but the others are alike. -/
  tail {n n' : Node} (h : Alike n n') : List.Forall₂ Alike n.children.tail n'.children.tail
  /-- The discriminators of private names are the same if they are shown. -/
  discriminator {n n' : Node} (h : Alike n n') (hk : n.kind = .privateDeclName)
    (hshown : o.privateDiscriminators = true) :
    (do Fault.inTree (← n'.child 0).text : Describing Text) = do Fault.inTree (← n.child 0).text
  /-- Only private names hide what is below them. -/
  isOpen {n n' : Node} (h : Alike n n') (hk : n.kind ≠ .privateDeclName) : Open n
  openChild {n n' c : Node} (h : Alike n n') (hk : n.kind.holds .privateDeclName = false)
    (hc : c ∈ n.children) : Open c
  openGrandchild {n n' c d : Node} (h : Alike n n')
    (hk : ∀ k ∈ Kind.all, n.kind.holds k = true → k.holds .privateDeclName = false)
    (hc : c ∈ n.children) (hd : d ∈ c.children) : Open d

namespace Comparison

variable {C : Comparison o} {sub sub' : Describer} {n n' c c' : Node} {size : Nat}

/-- What is described is refused for the same reason, or has the same text and leaves contexts to be
written later that are alike and no larger than the size. -/
inductive Agree (C : Comparison o) (size : Nat) : Describing Piece → Describing Piece → Prop where
  | error (stop : Stop Fault) : Agree C size (.error f) (.error f)
  | done (t : Text) : Agree C size (.ok { text := t }) (.ok { text := t })
  | deferred (t : Text) {d d' : Node} (hd : C.Alike d d') (hsize : d.size ≤ size) :
    Agree C size (.ok { text := t, deferred := some d }) (.ok { text := t, deferred := some d' })

namespace Agree

variable {x y x' y' : Describing Piece}

theorem mono {size' : Nat} (h : C.Agree size x y) (hle : size ≤ size') : C.Agree size' x y := by
  cases h with
  | error f => exact error f
  | done t => exact done t
  | deferred t hd hsize => exact deferred t hd (Nat.le_trans hsize hle)

theorem bind {x y : Describing α} {f g : α → Describing Piece} (hxy : x = y)
    (h : ∀ a, x = .ok a → C.Agree size (f a) (g a)) : C.Agree size (x >>= f) (y >>= g) := by
  subst hxy
  cases x with
  | error e => exact error e
  | ok a => exact h a rfl

/-- What has been described is looked at, and then something else. -/
theorem bind_piece {size' : Nat} {f g : Piece → Describing Piece} (hxy : C.Agree size x y)
    (h : ∀ piece piece', C.Agree size (.ok piece) (.ok piece') →
      C.Agree size' (f piece) (g piece')) :
    C.Agree size' (x >>= f) (y >>= g) := by
  cases hxy with
  | error stop => exact error stop
  | done t => exact h _ _ (done t)
  | deferred t hd hsize => exact h _ _ (deferred t hd hsize)

theorem ite {p : Prop} [Decidable p] (h : p → C.Agree size x y) (h' : ¬p → C.Agree size x' y') :
    C.Agree size (if p then x else x') (if p then y else y') := by
  split
  · exact h ‹p›
  · exact h' ‹¬p›

/-- A text leaves nothing to be written later. -/
theorem text {x y : Describing Text} {f : Text → Text} (h : x = y) :
    C.Agree size (do return { text := f (← x) }) (do return { text := f (← y) }) :=
      bind h fun _ _ => done _

end Agree

/-! ### Parts of nodes that are alike -/

theorem text (h : C.Alike n n') (hshown : o.shows n.kind = true) : n'.text = n.text := by
  unfold Node.text
  rw [C.text? h hshown, C.kind h]

theorem index (h : C.Alike n n') : n'.index = n.index := by
  unfold Node.index
  rw [C.index? h, C.kind h]

/-- The children of nodes other than private names are alike. -/
theorem children_of_kind (h : C.Alike n n') (hk : n.kind ≠ .privateDeclName) :
    List.Forall₂ C.Alike n.children n'.children := C.children h (C.isOpen h hk)

theorem isEmpty_eq {R : α → β → Prop} {as : List α} {bs : List β} (h : List.Forall₂ R as bs) :
    bs.isEmpty = as.isEmpty := by
  cases h <;> rfl

/-- Related elements are elements of the first list. -/
theorem forall₂_mem {R : α → β → Prop} {as : List α} {bs : List β} (h : List.Forall₂ R as bs) :
    List.Forall₂ (fun a b => a ∈ as ∧ R a b) as bs :=
  (List.forall₂_and_left _ _).mpr ⟨fun _ ha => ha, h⟩

/-- At each position, lists have what is related. -/
theorem getElem?_cases {R : α → β → Prop} {as : List α} {bs : List β} (h : List.Forall₂ R as bs)
    (i : Nat) :
    (as[i]? = none ∧ bs[i]? = none) ∨ ∃ a b, as[i]? = some a ∧ bs[i]? = some b ∧ R a b := by
  rcases Nat.lt_or_ge i as.length with hi | hi
  · have hi' : i < bs.length := h.length_eq ▸ hi
    exact .inr ⟨_, _, List.getElem?_eq_getElem hi, List.getElem?_eq_getElem hi',
      (List.forall₂_iff_get.mp h).2 i hi hi'⟩
  · exact .inl ⟨List.getElem?_eq_none hi, List.getElem?_eq_none (h.length_eq ▸ hi)⟩

theorem child_cases (h : List.Forall₂ C.Alike n.children n'.children) (i : Nat) :
    (∃ f, n.child i = .error f ∧ n'.child i = .error f) ∨
      ∃ c c', n.child i = .ok c ∧ n'.child i = .ok c' ∧ c ∈ n.children ∧ C.Alike c c' := by
  unfold Node.child
  obtain ⟨hc, hc'⟩ | ⟨c, c', hc, hc', hcc'⟩ := getElem?_cases h i <;> rw [hc, hc']
  · exact .inl ⟨_, rfl, rfl⟩
  · exact .inr ⟨c, c', rfl, rfl, List.mem_of_getElem? hc, hcc'⟩

/-- The children at a position are looked at, and then something else. -/
theorem child_bind (h : List.Forall₂ C.Alike n.children n'.children) {i : Nat}
    {f g : Node → Describing α}
    (hrest : ∀ c c', c ∈ n.children → C.Alike c c' → f c = g c') :
    ((n.child i : Describing Node) >>= f) = ((n'.child i : Describing Node) >>= g) := by
  obtain ⟨e, hn, hn'⟩ | ⟨c, c', hn, hn', hc, hcc'⟩ := child_cases h i
  · rw [hn, hn']
    rfl
  · rw [hn, hn']
    exact hrest c c' hc hcc'

/-- So is the second child, also of a private name. -/
theorem tail_bind (h : C.Alike n n') {f g : Node → Describing α}
    (hrest : ∀ c c', c ∈ n.children → C.Alike c c' → f c = g c') :
    ((n.child 1 : Describing Node) >>= f) = ((n'.child 1 : Describing Node) >>= g) := by
  unfold Node.child
  have hcases := getElem?_cases (C.tail h) 0
  rw [List.getElem?_tail, List.getElem?_tail] at hcases
  obtain ⟨hc, hc'⟩ | ⟨c, c', hc, hc', hcc'⟩ := hcases <;> rw [hc, hc']
  · rfl
  · exact hrest c c' (List.mem_of_getElem? hc) hcc'

theorem Agree.child_bind (h : List.Forall₂ C.Alike n.children n'.children) {i : Nat}
    {f g : Node → Describing Piece}
    (hrest : ∀ c c', c ∈ n.children → C.Alike c c' → C.Agree size (f c) (g c')) :
    C.Agree size ((n.child i : Describing Node) >>= f) ((n'.child i : Describing Node) >>= g) := by
  obtain ⟨e, hn, hn'⟩ | ⟨c, c', hn, hn', hc, hcc'⟩ := child_cases h i
  · rw [hn, hn']
    exact .error (.fault e)
  · rw [hn, hn']
    exact hrest c c' hc hcc'

theorem childOfKind_cases (h : List.Forall₂ C.Alike n.children n'.children) (k : Kind) :
    (n.childOfKind k = none ∧ n'.childOfKind k = none) ∨ ∃ c c', n.childOfKind k = some c ∧
      n'.childOfKind k = some c' ∧ c ∈ n.children ∧ c.kind = k ∧ C.Alike c c' := by
  unfold Node.childOfKind
  generalize n.children = cs, n'.children = cs' at h
  induction h with
  | nil => exact .inl ⟨rfl, rfl⟩
  | @cons c c' cs cs' hc _ ih =>
    rw [List.find?_cons, List.find?_cons, C.kind hc]
    by_cases hk : c.kind = k
    · rw [decide_eq_true hk]
      exact .inr ⟨c, c', rfl, rfl, List.mem_cons_self, hk, hc⟩
    · rw [decide_eq_false hk]
      refine ih.imp_right ?_
      rintro ⟨d, d', hd, hd', hmem, hrest⟩
      exact ⟨d, d', hd, hd', List.mem_cons_of_mem c hmem, hrest⟩

/-- The first child of a kind is looked at, if there is one. -/
theorem childOfKind_match (h : List.Forall₂ C.Alike n.children n'.children) {k : Kind} {a b : β}
    {f g : Node → β}
    (hnone : a = b) (hsome : ∀ c c', c ∈ n.children → c.kind = k → C.Alike c c' → f c = g c') :
    (match n.childOfKind k with
      | some c => f c
      | none => a) =
    match n'.childOfKind k with
      | some c => g c
      | none => b := by
  obtain ⟨hc, hc'⟩ | ⟨c, c', hc, hc', hmem, hk, halike⟩ := childOfKind_cases h k <;> rw [hc, hc']
  · exact hnone
  · exact hsome c c' hmem hk halike

theorem refuse_eq (h : C.Alike n n') (r : Refusal) : (refuse n' r : Describing α) = refuse n r := by
  unfold refuse
  rw [C.kind h]

/-- What is inside of a `type` node is looked at, or the node itself. -/
theorem inside_bind (h : C.Alike n n') {f g : Node → Describing α}
    (hrest : ∀ c c', C.Alike c c' → c.size ≤ n.size → f c = g c') :
    (if n.kind = .type then (n.child 0 : Describing Node) >>= f else pure n >>= f : Describing α) =
      if n'.kind = .type then (n'.child 0 : Describing Node) >>= g else pure n' >>= g := by
  rw [C.kind h]
  refine ite_congr rfl (fun hk => ?_) fun _ => hrest n n' h (Nat.le_refl _)
  exact child_bind (children_of_kind h (by rw [hk]; decide)) fun c c' hc hcc' =>
    hrest c c' hcc' (Nat.le_of_lt (Node.size_lt_of_mem_children hc))

theorem kind_unwrapped (h : C.Alike n n') : n'.unwrapped.kind = n.unwrapped.kind := by
  have hk := C.kind h
  rcases n with ⟨k, p, cs⟩
  rcases n' with ⟨k', p', cs'⟩
  obtain rfl : k' = k := hk
  by_cases htype : k' = .type
  · subst htype
    cases C.children_of_kind h (by decide : Kind.type ≠ .privateDeclName) with
    | nil => rfl
    | cons hc _ => exact C.kind hc
  · rw [Node.unwrapped_of_ne (n := .mk k' p' cs') htype,
      Node.unwrapped_of_ne (n := .mk k' p cs) htype]
    rfl

/-! ### Ways to describe trees -/

/-- The two ways of describing trees agree on alike trees that are smaller than a tree of the
size. -/
def AgreeBelow (C : Comparison o) (size : Nat) (sub sub' : Describer) : Prop :=
  ∀ (c c' : Node) (asContext : Bool), C.Alike c c' → c.size < size →
    C.Agree c.size (sub c asContext) (sub' c' asContext)

/-- Lists of labels that are alike, or none. -/
def Labels (C : Comparison o) : Option Node → Option Node → Prop :=
  Option.Rel fun l l' => C.Alike l l' ∧ l.kind = .labelList

/-- Lists of generic arguments that are alike, or none. -/
def Arguments (C : Comparison o) (size : Nat) : Option Node → Option Node → Prop :=
  Option.Rel fun l l' => C.Alike l l' ∧ C.Open l ∧ l.size ≤ size

theorem labels_childOfKind (h : List.Forall₂ C.Alike n.children n'.children) :
    C.Labels (n.childOfKind .labelList) (n'.childOfKind .labelList) := by
  obtain ⟨hl, hl'⟩ | ⟨l, l', hl, hl', -, hk, halike⟩ :=
    childOfKind_cases h .labelList <;> rw [hl, hl']
  · exact .none
  · exact .some ⟨halike, hk⟩

namespace AgreeBelow

theorem mono {size' : Nat} (h : C.AgreeBelow size sub sub') (hle : size' ≤ size) :
    C.AgreeBelow size' sub sub' :=
  fun c c' asContext hcc' hc => h c c' asContext hcc' (Nat.lt_of_lt_of_le hc hle)

/-- They agree below a child. -/
theorem below (h : C.AgreeBelow n.size sub sub') (hc : c ∈ n.children) :
    C.AgreeBelow c.size sub sub' :=
  h.mono (Nat.le_of_lt (Node.size_lt_of_mem_children hc))

theorem plain_of_lt (h : C.AgreeBelow size sub sub') (hcc' : C.Alike c c') (hc : c.size < size) :
    plain sub c = plain sub' c' := by
  unfold Description.plain
  generalize sub c false = x, sub' c' false = y, h c c' false hcc' hc = hagree
  cases hagree <;> rfl

theorem plain (h : C.AgreeBelow n.size sub sub') (hc : c ∈ n.children) (hcc' : C.Alike c c') :
    plain sub c = plain sub' c' :=
  h.plain_of_lt hcc' (Node.size_lt_of_mem_children hc)

/-- A child is described, and then something else. -/
theorem onChild (h : C.AgreeBelow n.size sub sub')
    (hn : List.Forall₂ C.Alike n.children n'.children) (i : Nat) (f : Text → Describing α) :
    ((n.child i : Describing Node) >>= fun c => Description.plain sub c >>= f) =
      ((n'.child i : Describing Node) >>= fun c => Description.plain sub' c >>= f) :=
  child_bind hn fun c c' hc hcc' => by rw [h.plain hc hcc']

theorem joined (separator : Text) {ns ns' : List Node}
    (h : List.Forall₂ (fun c c' => Description.plain sub c = Description.plain sub' c') ns ns') :
    joined sub separator ns = joined sub' separator ns' := by
  induction h with
  | nil => rfl
  | @cons n n' ns ns' hn hns ih =>
    cases hns with
    | nil => exact hn
    | @cons m m' ns ns' hm hns =>
      change (do return (← Description.plain sub n) ++ separator ++
        (← Description.joined sub separator (m :: ns))) = _
      rw [hn, ih]
      rfl

/-- The children are described the same. -/
theorem eachChild (h : C.AgreeBelow n.size sub sub')
    (hn : List.Forall₂ C.Alike n.children n'.children) :
    List.Forall₂ (fun c c' => Description.plain sub c = Description.plain sub' c' ∧ C.Alike c c')
      n.children
      n'.children :=
  (forall₂_mem hn).imp fun _ _ ⟨hc, hcc'⟩ => ⟨h.plain hc hcc', hcc'⟩

theorem children (h : C.AgreeBelow n.size sub sub')
    (hn : List.Forall₂ C.Alike n.children n'.children) (separator : Text) :
    Description.joined sub separator n.children = Description.joined sub' separator n'.children :=
  joined separator ((h.eachChild hn).imp fun _ _ => And.left)

theorem parenthesized (hn : C.Alike n n')
    (h : Description.plain sub n = Description.plain sub' n') :
    parenthesized sub n = parenthesized sub' n' := by
  unfold Description.parenthesized
  rw [h, C.kind hn]
  split
  · rename_i hk
    exact child_bind (children_of_kind hn (by rw [hk]; decide)) fun c c' _ hcc' => by
      rw [C.length hcc']
  · rename_i hk
    refine child_bind (children_of_kind hn (by rw [hk]; decide)) fun c c' hc hcc' => ?_
    have hopen := C.openChild hn (by rw [hk]; decide) hc
    exact child_bind (C.children hcc' hopen) fun d d' _ hdd' => by rw [C.length hdd']
  · rfl

/-! ### Types -/

/-- Private names are not found at generic types, nor right below them. -/
theorem boundNominal_spec {k : Kind} (hk : k ∈ Kind.boundNominals) :
    k ≠ .privateDeclName ∧ k.holds .privateDeclName = false := by
  revert hk k
  decide

theorem unsugared (h : C.AgreeBelow n.size sub sub') (hn : C.Alike n n')
    (hk : n.kind ∈ Kind.boundNominals) :
    unsugared sub n = unsugared sub' n' := by
  obtain ⟨hprivate, hholds⟩ := boundNominal_spec hk
  have hchildren := children_of_kind hn hprivate
  refine child_bind hchildren fun t t' ht htt' => ?_
  rw [h.plain ht htt']
  refine bind_congr fun type => child_bind hchildren fun arguments arguments' ha haa' => ?_
  rw [(h.below ha).children (C.children haa' (C.openChild hn hholds ha))]

theorem bracketed (h : Description.plain sub c = Description.plain sub' c') :
    bracketed sub c = bracketed sub' c' := by
  unfold Description.bracketed
  rw [h]

theorem bracketedPair {value value' : Node}
    (h : Description.plain sub c = Description.plain sub' c')
    (hvalue : Description.plain sub value = Description.plain sub' value') :
    bracketedPair sub c value = bracketedPair sub' c' value' := by
  unfold Description.bracketedPair
  rw [h, hvalue]

theorem isNamed (h : C.Alike n n') (name : String) : isNamed n' name = isNamed n name := by
  unfold Description.isNamed
  rw [C.kind h]
  by_cases hk : n.kind = .identifier
  · rw [C.text? h (by rw [hk]; rfl)]
  · rw [decide_eq_false hk]
    rfl

theorem isStandard_iff (h : C.Alike n n') :
    (n'.kind ≠ .moduleName ∨ n'.text? ≠ some Standard.moduleText) ↔
    (n.kind ≠ .moduleName ∨ n.text? ≠ some Standard.moduleText) := by
  rw [C.kind h]
  by_cases hk : n.kind = .moduleName
  · rw [ne_eq, ne_eq, ne_eq, C.standard h hk]
  · simp only [ne_eq, hk, not_false_eq_true, true_or]

/-- Whether there is a short way to write a type can be told from what is alike. -/
theorem sugar? (h : C.Alike n n') : sugar? n = sugar? n' := by
  -- Two levels below such a type there are modules and names, which are looked at themselves.
  have hbound : ∀ k : Kind, (k = .boundGenericEnum ∨ k = .boundGenericStructure) →
    k ∈ Kind.boundNominals ∧
      ∀ k' ∈ Kind.all, k.holds k' = true → k'.holds .privateDeclName = false := by
    rintro k (rfl | rfl) <;> decide
  unfold Description.sugar?
  rw [C.kind h]
  refine ite_congr rfl (fun _ => rfl) fun hk => ?_
  obtain ⟨hnominal, hbelow⟩ := hbound n.kind (by by_contra hne; exact hk (not_or.mp hne))
  obtain ⟨hprivate, hholds⟩ := boundNominal_spec hnominal
  have hn := children_of_kind h hprivate
  refine child_bind hn fun type type' htype halike => ?_
  refine child_bind (C.children halike (C.openChild h hholds htype))
    fun unbound unbound' hunbound halike => ?_
  have hparts := C.children halike (C.openGrandchild h hbelow htype hunbound)
  refine child_bind hn fun arguments arguments' _ hcount => ?_
  rw [C.length hcount]
  refine child_bind hparts fun m m' _ hm =>
    ite_congr (propext (isStandard_iff hm).symm) (fun _ => rfl) fun _ => ?_
  exact child_bind hparts fun name name' _ hname => by simp only [isNamed hname]

theorem boundGeneric (h : C.AgreeBelow n.size sub sub') (hn : C.Alike n n')
    (hk : n.kind ∈ Kind.boundNominals) :
    boundGeneric o sub n = boundGeneric o sub' n' := by
  obtain ⟨hprivate, hholds⟩ := boundNominal_spec hk
  have hchildren := children_of_kind hn hprivate
  have harguments {c c' : Node} (hc : c ∈ n.children) (hcc' : C.Alike c c') :=
    C.children hcc' (C.openChild hn hholds hc)
  unfold Description.boundGeneric
  rw [C.kind hn]
  refine ite_congr rfl (fun _ => h.unsugared hn hk) fun _ => ite_congr rfl (fun _ => ?_) fun _ => ?_
  · refine child_bind hchildren fun arguments arguments' ha haa' => ?_
    rw [(h.below ha).children (harguments ha haa')]
    refine bind_congr fun _ => child_bind hchildren fun t t' ht htt' => by rw [h.plain ht htt']
  rw [sugar? hn]
  refine bind_congr fun sugar => ?_
  rcases sugar with _ | sugar
  · exact h.unsugared hn hk
  refine child_bind hchildren fun arguments arguments' ha haa' => ?_
  have hinside := harguments ha haa'
  have hplain {c c' : Node} (hc : c ∈ arguments.children) (hcc' : C.Alike c c') :=
    (h.below ha).plain hc hcc'
  cases sugar with
  | optional =>
    exact child_bind hinside fun c c' hc hcc' => by rw [parenthesized hcc' (hplain hc hcc')]
  | implicitlyUnwrapped =>
    exact child_bind hinside fun c c' hc hcc' => by rw [parenthesized hcc' (hplain hc hcc')]
  | array => exact child_bind hinside fun c c' hc hcc' => bracketed (hplain hc hcc')
  | dictionary =>
    exact child_bind hinside fun key key' hkey halike =>
      child_bind hinside fun value value' hvalue halike' =>
      bracketedPair (hplain hkey halike) (hplain hvalue halike')

/-! ### Functions -/

theorem labelText (h : C.Alike n n') : labelText n = labelText n' := by
  unfold Description.labelText
  rw [C.kind h]
  exact ite_congr rfl (fun hk => by rw [text h (by rw [hk]; rfl)]) fun _ => rfl

theorem parameter {showTypes : Bool} {label label' : Option Node} (hn : C.Alike n n')
    (h : Description.plain sub n = Description.plain sub' n')
    (hlabel : Option.Rel C.Alike label label') :
    parameter sub showTypes label n = parameter sub' showTypes label' n' := by
  unfold Description.parameter
  rw [C.kind hn, h]
  refine ite_congr rfl (fun _ => by rw [refuse_eq hn]; rfl) fun hk => ?_
  cases hlabel with
  | some hlabel =>
    dsimp only
    rw [labelText hlabel]
  | none =>
    refine ite_congr rfl (fun _ => rfl) fun _ => ?_
    have hchildren := children_of_kind hn (by rw [not_not.mp hk]; decide)
    exact childOfKind_match hchildren rfl fun name name' _ hk halike => by
      rw [text halike (by rw [hk]; rfl)]

theorem parameterList {showTypes : Bool} {labels labels' ns ns' : List Node}
    (hlabels : List.Forall₂ C.Alike labels labels')
    (h : List.Forall₂
      (fun c c' => Description.plain sub c = Description.plain sub' c' ∧ C.Alike c c') ns ns')
    (i : Nat) : parameterList sub showTypes labels i ns =
      parameterList sub' showTypes labels' i ns' := by
  induction h generalizing i with
  | nil => rfl
  | @cons n n' ns ns' hn _ ih =>
    rw [Description.parameterList, Description.parameterList, ih, isEmpty_eq hlabels]
    refine ite_congr rfl (fun _ => ?_) fun _ => ?_
    · simp only [pure_bind, parameter hn.2 hn.1 .none]
    · obtain ⟨hlabel, hlabel'⟩ | ⟨label, label', hlabel, hlabel', halike⟩ :=
        getElem?_cases hlabels i <;> rw [hlabel, hlabel']
      · rfl
      · simp only [pure_bind, parameter hn.2 hn.1 (.some halike)]

theorem parameters {labels labels' : Option Node} {showTypes : Bool}
    (h : C.AgreeBelow n.size sub sub') (hn : C.Alike n n') (hlabels : C.Labels labels labels') :
    parameters sub labels n showTypes = parameters sub' labels' n' showTypes := by
  unfold Description.parameters
  rw [C.kind hn]
  refine ite_congr rfl (fun _ => by rw [refuse_eq hn]; rfl) fun hk => ?_
  refine child_bind (children_of_kind hn (by rw [not_not.mp hk]; decide)) fun c c' hc hcc' =>
    inside_bind hcc' fun inside inside' halike hle => ?_
  have hlt : inside.size < n.size := Nat.lt_of_le_of_lt hle (Node.size_lt_of_mem_children hc)
  dsimp only
  rw [C.kind halike, h.plain_of_lt halike hlt]
  refine ite_congr rfl (fun _ => rfl) fun hk => ?_
  have hinside := children_of_kind halike (by rw [not_not.mp hk]; decide)
  have hlists : List.Forall₂ C.Alike ((labels.map Node.children).getD [])
      ((labels'.map Node.children).getD []) := by
    cases hlabels with
    | none => exact .nil
    | some hl => exact children_of_kind hl.1 (by rw [hl.2]; decide)
  rw [parameterList hlists ((h.mono (Nat.le_of_lt hlt)).eachChild hinside) 0, C.length halike]
  cases hlabels with
  | none => rfl
  | @some l l' hl =>
    have hempty : l'.children.isEmpty = l.children.isEmpty := isEmpty_eq hlists
    refine ite_congr ?_ (fun _ => by rw [refuse_eq hl.1]) fun _ => rfl
    simp only [Option.map_some, Option.getD_some, hempty, C.length hl.1]

theorem functionType {labels labels' : Option Node} (h : C.AgreeBelow n.size sub sub')
    (hn : C.Alike n n') (hopen : C.Open n) (hlabels : C.Labels labels labels') :
    functionType o sub labels n = functionType o sub' labels' n' := by
  have hchildren := C.children hn hopen
  unfold Description.functionType
  rw [C.length hn]
  refine ite_congr rfl (fun _ => by rw [refuse_eq hn]; rfl) fun _ => ?_
  refine child_bind hchildren fun first first' _ hfirst => ?_
  rw [C.kind hfirst]
  refine child_bind hchildren fun arguments arguments' ha haa' => ?_
  rw [(h.below ha).parameters haa' hlabels]
  refine bind_congr fun shown => ite_congr rfl (fun _ => rfl) fun _ =>
    child_bind hchildren fun result result' hresult halike => ?_
  rw [h.plain hresult halike]

/-! ### Declarations -/

theorem entityType {entity entity' type type' : Node} {arguments arguments' : Option Node}
    (h : C.AgreeBelow size sub sub')
    (hentity : List.Forall₂ C.Alike entity.children entity'.children)
    (htype : C.Alike type type') (hopen : C.Open type) (hlt : type.size < size)
    (harguments : C.Arguments size arguments arguments') :
    entityType o sub entity type arguments = entityType o sub' entity' type' arguments' := by
  have hlabels := labels_childOfKind hentity
  unfold Description.entityType
  dsimp only
  rw [(h.mono (Nat.le_of_lt hlt)).functionType htype hopen hlabels, h.plain_of_lt htype hlt]
  refine ite_congr ?_ (fun _ => rfl) fun _ => ?_
  · generalize entity.childOfKind .labelList = labels,
      entity'.childOfKind .labelList = labels' at hlabels
    cases hlabels <;> cases harguments <;> rfl
  · cases harguments with
    | none => rfl
    | some hl =>
      dsimp only
      rw [(h.mono hl.2.2).children (C.children hl.1 hl.2.1)]

theorem entityName {overwrite : Text} (h : C.AgreeBelow n.size sub sub')
    (hn : List.Forall₂ C.Alike n.children n'.children) :
    entityName sub n overwrite = entityName sub' n' overwrite := by
  unfold Description.entityName
  refine ite_congr rfl (fun _ => rfl) fun _ => child_bind hn fun name name' hname halike => ?_
  rw [h.plain hname halike, C.kind halike]
  refine ite_congr rfl (fun _ => ?_) fun _ => bind_congr fun shown => ?_
  · exact childOfKind_match hn rfl fun d d' hd _ hdd' => by rw [h.plain hd hdd']
  · exact childOfKind_match hn rfl fun d d' hd _ hdd' => by rw [h.plain hd hdd']

theorem styledType {style : TypeStyle} {multiWord : Bool} {entity entity' : Node}
    {arguments arguments' : Option Node}
    (h : C.AgreeBelow size sub sub') (hentity : C.Alike entity entity') (hopen : C.Open entity)
    (hsize : entity.size ≤ size) (harguments : C.Arguments size arguments arguments') :
    styledType o sub style multiWord entity arguments =
      styledType o sub' style multiWord entity' arguments' := by
  have hchildren := C.children hentity hopen
  unfold Description.styledType
  refine ite_congr rfl (fun _ => rfl) fun _ => ?_
  obtain ⟨ht, ht'⟩ | ⟨t, t', ht, ht', hmem, hk, htt'⟩ :=
    childOfKind_cases hchildren .type <;> rw [ht, ht']
  · exact (refuse_eq hentity _).symm
  refine child_bind (children_of_kind htt' (by rw [hk]; decide)) fun type type' htype halike => ?_
  have hlt : type.size < size :=
    Nat.lt_of_lt_of_le
      (Nat.lt_trans (Node.size_lt_of_mem_children htype) (Node.size_lt_of_mem_children hmem)) hsize
  rw [C.kind halike, kind_unwrapped halike,
    h.entityType hchildren halike (C.openChild htt' (by rw [hk]; decide) htype) hlt harguments]

/-- A function with generic arguments is described like the function, with the arguments beside
it. -/
private theorem agree_declaration {g g' : Node × Option Node → Describing Piece} (hn : C.Alike n n')
    (hopen : C.Open n)
    (hg : ∀ decl decl' arguments arguments', C.Alike decl decl' → C.Open decl → decl.size ≤ n.size →
      C.Arguments n.size arguments arguments' →
      C.Agree n.size (g (decl, arguments)) (g' (decl', arguments'))) :
    C.Agree n.size (declaration n >>= g) (declaration n' >>= g') := by
  unfold declaration
  by_cases hk : n.kind = .boundGenericFunction
  · rw [if_pos hk, if_pos ((C.kind hn).trans hk)]
    have hbelow {c : Node} : c ∈ n.children → C.Open c := C.openChild hn (by rw [hk]; decide)
    have hsize {c : Node} (hc : c ∈ n.children) : c.size ≤ n.size :=
      Nat.le_of_lt (Node.size_lt_of_mem_children hc)
    obtain ⟨f, hdecl, hdecl'⟩ | ⟨decl, decl', hdecl, hdecl', hmem, halike⟩ :=
      child_cases (C.children hn hopen) 0 <;> rw [hdecl, hdecl']
    · exact .error (.fault f)
    obtain ⟨f, hl, hl'⟩ | ⟨l, l', hl, hl', hmeml, hll'⟩ :=
      child_cases (C.children hn hopen) 1 <;> rw [hl, hl']
    · exact .error (.fault f)
    exact hg decl decl' (some l) (some l') halike (hbelow hmem) (hsize hmem)
      (.some ⟨hll', hbelow hmeml, hsize hmeml⟩)
  · rw [if_neg hk, if_neg fun h => hk ((C.kind hn).symm.trans h)]
    exact hg n n' none none hn hopen (Nat.le_refl _) .none

private theorem isLocal_eq (hn : List.Forall₂ C.Alike n.children n'.children) (form : EntityForm) :
    isLocal form n = isLocal form n' := by
  unfold isLocal
  exact ite_congr rfl (fun _ => child_bind hn fun name name' _ halike => by rw [C.kind halike])
    fun _ => rfl

/-- What is written before a declaration leaves nothing larger than its context. -/
private theorem agree_before {context context' : Node} (multiWord : Bool)
    (hcontext : C.Alike context context')
    (h : C.Agree context.size (sub context true) (sub' context' true)) :
    C.Agree context.size (before o sub context multiWord) (before o sub' context' multiWord) := by
  unfold before
  refine Agree.ite (fun _ => .done []) fun _ =>
    Agree.ite (fun _ => .deferred [] hcontext (Nat.le_refl _)) fun _ => ?_
  -- The context is described in full, or it is put off in both trees.
  generalize sub context true = x, sub' context' true = y at h
  cases h with
  | error stop => exact .error stop
  | done t => exact .done _
  | deferred t hd hsize => exact .deferred _ hd hsize

private theorem named_eq (h : C.AgreeBelow n.size sub sub')
    (hn : List.Forall₂ C.Alike n.children n'.children) (form : EntityForm) (multiWord : Bool) :
    named sub form multiWord n = named sub' form multiWord n' := by
  unfold named
  rw [h.entityName hn]

theorem entity {asContext : Bool} {form : EntityForm} (h : C.AgreeBelow n.size sub sub')
    (hn : C.Alike n n') (hopen : C.Open n) :
    C.Agree n.size (entity o sub n asContext form)
      (Description.entity o sub' n' asContext form) := by
  unfold Description.entity
  -- Each part of the phrase is looked at as it is written: what is declared, where, under which
  -- name and of which type.
  refine agree_declaration hn hopen
    fun decl decl' arguments arguments' halike hopen hsize harguments => ?_
  have hagree : C.AgreeBelow decl.size sub sub' := h.mono hsize
  have hchildren := C.children halike hopen
  refine Agree.bind (isLocal_eq hchildren form) fun isLocal _ => ?_
  dsimp only
  refine Agree.ite (fun _ => .deferred [] halike hsize) fun _ =>
    Agree.child_bind hchildren fun context context' hmem hcontext => ?_
  have hlt : context.size < decl.size := Node.size_lt_of_mem_children hmem
  refine (agree_before _ hcontext (hagree context context' true hcontext hlt)).bind_piece
    fun before before' hbefore => ?_
  refine Agree.bind (named_eq hagree hchildren form _) fun both _ =>
    Agree.bind rfl fun number _ => ?_
  rw [C.kind halike]
  refine Agree.bind (h.styledType halike hopen hsize harguments) fun type _ => ?_
  cases hbefore with
  | done t => exact .done _
  | deferred t hd hle =>
    -- A context that was left is written now, unless this declaration is the context of another
    -- one.
    refine Agree.ite (fun _ => .deferred _ hd (by omega)) fun _ => ?_
    rw [h.plain_of_lt hd (by omega)]
    exact Agree.bind rfl fun _ _ => .done _

theorem storage {asContext : Bool} {accessor : Text} (h : C.AgreeBelow n.size sub sub')
    (hn : C.Alike n n') :
    C.Agree n.size (storage o sub n asContext accessor)
      (Description.storage o sub' n' asContext accessor) := by
  unfold Description.storage
  rw [C.kind hn]
  split
  · rename_i hk
    exact h.entity hn (C.isOpen hn (by rw [hk]; decide))
  · rename_i hk
    exact h.entity hn (C.isOpen hn (by rw [hk]; decide))
  · rw [refuse_eq hn]
    exact .error (.fault (.refused ⟨n.kind, .notStorage⟩))

theorem entityForm? (hn : C.Alike n n') (hk : n.kind ≠ .privateDeclName) :
    entityForm? o n = entityForm? o n' := by
  have hchildren := children_of_kind hn hk
  have hclosure (extra : String) : entityForm?.closure o n extra = entityForm?.closure o n' extra :=
    child_bind hchildren fun c c' _ hcc' => by rw [index hcc']
  unfold Description.entityForm?
  rw [C.kind hn, C.length hn]
  split
  -- What is not said by way of the children is the same.
  all_goals first
    | with_reducible rfl
    | skip
  · exact hclosure _
  · exact hclosure _
  · exact child_bind hchildren fun c c' _ hcc' => by rw [index hcc']
  · exact child_bind hchildren fun c c' _ hcc' => by rw [C.kind hcc']
  · exact child_bind hchildren fun c c' _ hcc' => by rw [C.kind hcc']

/-! ### Nodes without a phrase -/

theorem metatype (h : C.AgreeBelow n.size sub sub') (hn : C.Alike n n')
    (hk : n.kind ≠ .privateDeclName)
    (hholds : n.kind.holds .privateDeclName = false) : metatype sub n = metatype sub' n' := by
  have hchildren := children_of_kind hn hk
  have hinstance {t t' : Node} (ht : t ∈ n.children) (htt' : C.Alike t t') :
      metatype.instanceType sub n t = metatype.instanceType sub' n' t' := by
    unfold metatype.instanceType
    rw [h.plain ht htt', C.kind hn]
    refine ite_congr rfl (fun _ => rfl) fun _ => ?_
    refine child_bind (C.children htt' (C.openChild hn hholds ht)) fun type type' htype halike => ?_
    rw [parenthesized halike ((h.below ht).plain htype halike), C.kind halike]
  unfold Description.metatype
  rw [C.length hn]
  refine ite_congr rfl (fun _ => child_bind hchildren fun r r' hr hrr' => ?_) fun _ =>
    child_bind hchildren fun t t' ht htt' => hinstance ht htt'
  rw [h.plain hr hrr']
  refine bind_congr fun _ => child_bind hchildren fun t t' ht htt' => ?_
  rw [hinstance ht htt']

theorem classComposition (h : C.AgreeBelow n.size sub sub') (hn : C.Alike n n')
    (hk : n.kind = .protocolListWithAnyObject) :
    classComposition o sub n = classComposition o sub' n' := by
  have hbelow : ∀ k ∈ Kind.all, n.kind.holds k = true → k.holds .privateDeclName = false := by
    rw [hk]
    decide
  refine child_bind (children_of_kind hn (by rw [hk]; decide)) fun list list' hlist halike => ?_
  have hopen := C.openChild hn (by rw [hk]; decide) hlist
  refine child_bind (C.children halike hopen) fun types types' htypes halike' => ?_
  have hinside := C.children halike' (C.openGrandchild hn hbelow hlist htypes)
  dsimp only
  rw [((h.below hlist).below htypes).children hinside, isEmpty_eq hinside]

theorem tupleElement (h : C.AgreeBelow n.size sub sub') (hn : C.Alike n n')
    (hk : n.kind ≠ .privateDeclName) :
    tupleElement sub n = tupleElement sub' n' := by
  have hchildren := children_of_kind hn hk
  unfold Description.tupleElement
  have hdots : (n'.childOfKind .variadicMarker).isSome =
      (n.childOfKind .variadicMarker).isSome := by
    obtain ⟨hm, hm'⟩ | ⟨m, m', hm, hm', -⟩ :=
      childOfKind_cases hchildren .variadicMarker <;> rw [hm, hm']
    rfl
  rw [hdots]
  obtain ⟨ht, ht'⟩ | ⟨t, t', ht, ht', hmem, -, htt'⟩ :=
    childOfKind_cases hchildren .type <;> rw [ht, ht'] <;> dsimp only
  · rw [refuse_eq hn]
    exact childOfKind_match hchildren rfl fun m m' _ hk hmm' => by rw [text hmm' (by rw [hk]; rfl)]
  · rw [h.plain hmem htt']
    exact childOfKind_match hchildren rfl fun m m' _ hk hmm' => by rw [text hmm' (by rw [hk]; rfl)]

theorem privateName (h : C.AgreeBelow n.size sub sub') (hn : C.Alike n n')
    (hk : n.kind = .privateDeclName) :
    privateName o sub n = privateName o sub' n' := by
  unfold Description.privateName
  dsimp only
  rw [C.length hn]
  by_cases hshown : o.privateDiscriminators = true
  · rw [C.discriminator hn hk hshown]
    exact ite_congr rfl (fun _ =>
      tail_bind hn fun name name' hname halike => by rw [h.plain hname halike]) fun _ => rfl
  · refine ite_congr rfl (fun _ => tail_bind hn fun name name' hname halike => ?_) fun _ =>
      ite_congr rfl (fun h => absurd h hshown) fun _ => rfl
    rw [h.plain hname halike]
    exact bind_congr fun _ => ite_congr rfl (fun _ => rfl) fun h => absurd (by simpa using h) hshown

theorem remarked (hn : C.Alike n n') (hshown : o.shows n.kind = true) (remark : String) :
    remarked n remark = remarked n' remark := by
  unfold Description.remarked
  rw [text hn hshown]

theorem other (h : C.AgreeBelow n.size sub sub') (hn : C.Alike n n') :
    other o sub n = other o sub' n' := by
  by_cases hprivate : n.kind = .privateDeclName
  · have hother {m : Node} (sub : Describer) (hm : m.kind = .privateDeclName) :
        Description.other o sub m = Description.privateName o sub m := by
      unfold Description.other
      rw [hm]
    rw [hother sub hprivate, hother sub' ((C.kind hn).trans hprivate), h.privateName hn hprivate]
  have hchildren := children_of_kind hn hprivate
  have hplain (i : Nat) : ((n.child i : Describing Node) >>= Description.plain sub) =
      ((n'.child i : Describing Node) >>= Description.plain sub') :=
    child_bind hchildren fun _ _ hc hcc' => h.plain hc hcc'
  unfold Description.other
  rw [C.kind hn]
  split <;> rename_i hk
  · exact h.children hchildren _
  · exact h.children hchildren _
  · exact hplain 0
  -- Suffixes and, further below, modules are only looked at if they are shown.
  · exact ite_congr rfl (fun hshown => by rw [text hn (by rw [hk]; exact hshown)]) fun _ => rfl
  iterate 6 exact h.boundGeneric hn (by rw [hk]; decide)
  · simp only [h.onChild hchildren]
    refine ite_congr rfl (fun _ => child_bind hchildren fun m m' hm hmm' => ?_) fun _ => rfl
    generalize sub m true = x, sub' m' true = y,
      h m m' true hmm' (Node.size_lt_of_mem_children hm) = hagree
    cases hagree <;> rfl
  -- A type may come after the labels of its parameters. The function that it is stands two levels
  -- below.
  · refine child_bind hchildren fun first first' hfirst halike => ?_
    rw [C.kind halike]
    refine ite_congr rfl (fun hlabels => ?_) fun _ => h.plain hfirst halike
    have hbelow : ∀ k ∈ Kind.all, n.kind.holds k = true → k.holds .privateDeclName = false := by
      rw [hk]
      decide
    refine child_bind hchildren fun t t' ht htt' => ?_
    refine child_bind (C.children htt' (C.openChild hn (by rw [hk]; decide) ht))
      fun type type' htype halike' => ?_
    have hopen := C.openGrandchild hn hbelow ht htype
    exact ((h.below ht).below htype).functionType halike' hopen (.some ⟨halike, hlabels⟩)
  · exact ite_congr rfl (fun hshown => by rw [text hn (by rw [hk]; exact hshown)]) fun _ => rfl
  iterate 3 rw [text hn (by rw [hk]; rfl)]
  iterate 2 rw [index hn]
  · refine child_bind hchildren fun name name' hname halike => ?_
    rw [h.plain hname halike]
    exact bind_congr fun _ => child_bind hchildren fun c c' _ hcc' => by rw [index hcc']
  · exact absurd hk hprivate
  · rw [text hn (by rw [hk]; rfl)]
    exact bind_congr fun _ => h.onChild hchildren 0 _
  iterate 3 exact remarked hn (by rw [hk]; rfl) _
  · exact h.parameters hn .none
  · rw [h.children hchildren]
  · rw [h.children hchildren]
  · exact h.tupleElement hn hprivate
  · exact remarked hn (by rw [hk]; rfl) _
  · rfl
  · refine child_bind hchildren fun c c' _ hcc' => ?_
    rw [index hcc']
    exact bind_congr fun _ => child_bind hchildren fun c c' _ hcc' => by rw [index hcc']
  · exact h.metatype hn hprivate (by rw [hk]; decide)
  · exact h.metatype hn hprivate (by rw [hk]; decide)
  · refine child_bind hchildren fun list list' hlist halike => ?_
    have hinside := C.children halike (C.openChild hn (by rw [hk]; decide) hlist)
    dsimp only
    rw [(h.below hlist).children hinside, isEmpty_eq hinside]
  · exact h.classComposition hn hk
  · exact child_bind hchildren fun t t' ht htt' => by rw [parenthesized htt' (h.plain ht htt')]
  · exact child_bind hchildren fun t t' ht htt' => bracketed (h.plain ht htt')
  · exact child_bind hchildren fun key key' hkey halike =>
      child_bind hchildren fun value value' hvalue halike' =>
      bracketedPair (h.plain hkey halike) (h.plain hvalue halike')
  · exact h.onChild hchildren 0 _
  · rw [index hn]
    refine bind_congr fun i => ?_
    cases Code.valueWitness? i with
    | none => rfl
    | some witness => exact h.onChild hchildren 0 _
  · refine child_bind hchildren fun c c' hc hcc' => ?_
    rw [h.plain hc hcc']
    exact bind_congr fun _ => h.onChild hchildren 1 _
  · rw [index hn]
  · exact (refuse_eq hn _).symm

theorem ofNode {asContext : Bool} (h : C.AgreeBelow n.size sub sub') (hn : C.Alike n n') :
    C.Agree n.size (ofNode o sub n asContext) (ofNode o sub' n' asContext) := by
  -- The children of a private name need not be alike, so it is looked at on its own.
  by_cases hprivate : n.kind = .privateDeclName
  · have hother {m : Node} (sub : Describer) (hm : m.kind = .privateDeclName) :
        Description.ofNode o sub m asContext =
        do return { text := ← Description.other o sub m } := by
      rcases m with ⟨k, p, cs⟩
      cases hm
      rfl
    rw [hother sub hprivate, hother sub' ((C.kind hn).trans hprivate)]
    exact Agree.text (h.other hn)
  have hchildren := children_of_kind hn hprivate
  unfold Description.ofNode
  rw [C.kind hn]
  split
  · exact Agree.child_bind hchildren fun c c' hc hcc' => Agree.text (h.plain hc hcc')
  split
  · exact .done _
  split
  · exact Agree.child_bind hchildren fun c c' hc hcc' =>
      ((h.below hc).storage hcc').mono (Nat.le_of_lt (Node.size_lt_of_mem_children hc))
  split
  · exact Agree.text (h.functionType hn (C.isOpen hn hprivate) .none)
  refine Agree.bind (entityForm? hn hprivate) fun form _ => ?_
  split
  · exact h.entity hn (C.isOpen hn hprivate)
  · exact Agree.text (h.other hn)

end AgreeBelow

/-- Trees that are alike are described alike, with any fuel that is enough. -/
theorem describeAt {fuel fuel' : Nat} {asContext : Bool} (hn : C.Alike n n') (h : n.size ≤ fuel)
    (h' : n.size ≤ fuel') :
    C.Agree n.size (describeAt o fuel n asContext) (describeAt o fuel' n' asContext) := by
  -- The induction is on the fuel of the one description; the other one has some, since it is enough
  -- as well.
  induction fuel generalizing n n' fuel' asContext with
  | zero =>
    cases n
    cases h
  | succ fuel ih =>
    cases fuel' with
    | zero =>
      cases n
      cases h'
    | succ fuel' =>
      have hagree : C.AgreeBelow n.size (Description.describeAt o fuel)
          (Description.describeAt o fuel') :=
        fun c c' _ hcc' hc => ih hcc' (by omega) (by omega)
      exact hagree.ofNode hn

theorem agreeBelow_describeAt {fuel fuel' : Nat} (h : size ≤ fuel) (h' : size ≤ fuel') :
    C.AgreeBelow size (Description.describeAt o fuel) (Description.describeAt o fuel') :=
  fun _ _ _ hcc' _ => describeAt hcc' (by omega) (by omega)

/-- Trees that are alike have the same description, or cannot be described for the same reason. -/
theorem describe_eq (hn : C.Alike n n') : describe o n = describe o n' := by
  have hagree : C.Agree n.size (Description.describeAt o n.size n false)
      (Description.describeAt o n'.size n' false) :=
    describeAt hn (Nat.le_refl _) (Nat.le_of_eq (C.size hn).symm)
  unfold describe
  rw [C.kind hn]
  generalize Description.describeAt o n.size n false = x,
    Description.describeAt o n'.size n' false = y at hagree
  cases hagree <;> rfl

end Comparison

end Description

end SwiftABI
