/-
  Descriptions do not tell what their options hide.

  Two trees are equal but for what is hidden if they differ at most in the names of modules, in
  discriminators of private names and in suffixes, each only if it is not shown (`Node.EqualBut`).
  Whether a module is the one of the standard library is never hidden, since the short ways to write
  a type depend on it. For well-shaped trees this is a comparison, so their descriptions are the
  same (`describe_eq_of_equalBut`): in such a tree a discriminator is only found below a private
  name, and no description looks through one.
-/
import SwiftABI.Proofs.Description.Comparison

namespace SwiftABI

/-! ### Trees that are equal but for what is hidden -/

/-- The payloads of two nodes of a kind are equal, but for a text that is hidden. -/
inductive Payload.EqualBut (o : DisplayOptions) (k : Kind) : Payload → Payload → Prop where
  | same (p : Payload) : EqualBut o k p p
  | moduleName {t t' : Text} (hk : k = .moduleName) (hhidden : o.moduleNames = false)
    (hstandard : t = Standard.moduleText ↔ t' = Standard.moduleText) :
      EqualBut o k (.text t) (.text t')
  | suffix {t t' : Text} (hk : k = .suffix) (hhidden : o.unmangledSuffix = false) :
    EqualBut o k (.text t) (.text t')

/-- Two trees are equal, but for the texts that are hidden. -/
inductive Node.EqualBut (o : DisplayOptions) : Node → Node → Prop where
  | node {k : Kind} {p p' : Payload} {cs cs' : List Node} (hpayload : p.EqualBut o k p')
    (hchildren : List.Forall₂ (EqualBut o) cs cs') : EqualBut o (.mk k p cs) (.mk k p' cs')
  | privateName {p : Payload} {t t' : Text} {cs cs' : List Node}
    (hhidden : o.privateDiscriminators = false) (hchildren : List.Forall₂ (EqualBut o) cs cs') :
    EqualBut o (.mk .privateDeclName p (.identifier t :: cs))
      (.mk .privateDeclName p (.identifier t' :: cs'))

namespace Node

variable {o : DisplayOptions} {n n' : Node}

namespace EqualBut

mutual

theorem refl (o : DisplayOptions) : (n : Node) → n.EqualBut o n
  | .mk _ p cs => .node (.same p) (forall₂_refl o cs)

theorem forall₂_refl (o : DisplayOptions) : (cs : List Node) → List.Forall₂ (EqualBut o) cs cs
  | [] => .nil
  | c :: cs => .cons (refl o c) (forall₂_refl o cs)

end

mutual

theorem size_eq {n n' : Node} : n.EqualBut o n' → n'.size = n.size
  | .node _ hchildren => congrArg (· + 1) (sizeAll_eq hchildren)
  | .privateName _ hchildren => congrArg (1 + · + 1) (sizeAll_eq hchildren)

theorem sizeAll_eq {cs cs' : List Node} :
    List.Forall₂ (EqualBut o) cs cs' → sizeAll cs' = sizeAll cs
  | .nil => rfl
  | .cons hc hcs => congrArg₂ (· + ·) (size_eq hc) (sizeAll_eq hcs)

end

theorem index?_mk (k : Kind) (p : Payload) (cs cs' : List Node) :
    (mk k p cs').index? = (mk k p cs).index? := by
  cases p <;> rfl

theorem text?_mk (k : Kind) (p : Payload) (cs cs' : List Node) :
    (mk k p cs').text? = (mk k p cs).text? := by
  cases p <;> rfl

theorem kind_eq (h : n.EqualBut o n') : n'.kind = n.kind := by
  cases h <;> rfl

theorem index?_eq (h : n.EqualBut o n') : n'.index? = n.index? := by
  cases h with
  | node hpayload _ =>
    cases hpayload with
    | same _ => exact index?_mk _ _ _ _
    | moduleName _ _ _ => rfl
    | suffix _ _ => rfl
  | privateName _ _ => exact index?_mk _ _ _ _

/-- What is shown is equal. -/
theorem text?_eq (h : n.EqualBut o n') (hshown : o.shows n.kind = true) : n'.text? = n.text? := by
  cases h with
  | @node k p p' cs cs' hpayload _ =>
    cases hpayload with
    | same p => exact text?_mk k p cs cs'
    | moduleName hk hhidden _ =>
      subst hk
      exact absurd (hhidden.symm.trans hshown) Bool.false_ne_true
    | suffix hk hhidden =>
      subst hk
      exact absurd (hhidden.symm.trans hshown) Bool.false_ne_true
  | privateName _ _ => exact text?_mk _ _ _ _

theorem standard_iff (h : n.EqualBut o n') (hk : n.kind = .moduleName) :
    n'.text? = some Standard.moduleText ↔ n.text? = some Standard.moduleText := by
  cases h with
  | @node k p p' cs cs' hpayload _ =>
    cases hpayload with
    | same p => rw [text?_mk k p cs cs']
    | moduleName _ _ hstandard =>
      exact Option.some_inj.trans (hstandard.symm.trans Option.some_inj.symm)
    | suffix hsuffix _ => exact absurd (hsuffix.symm.trans hk) (by decide)
  | privateName _ _ => cases hk

theorem length_eq (h : n.EqualBut o n') : n'.children.length = n.children.length := by
  cases h with
  | node _ hchildren => exact hchildren.length_eq.symm
  | privateName _ hchildren => exact congrArg (· + 1) hchildren.length_eq.symm

theorem children (h : n.EqualBut o n') (hk : n.kind ≠ .privateDeclName) :
    List.Forall₂ (EqualBut o) n.children n'.children := by
  cases h with
  | node _ hchildren => exact hchildren
  | privateName _ _ => exact absurd rfl hk

theorem tail (h : n.EqualBut o n') :
    List.Forall₂ (EqualBut o) n.children.tail n'.children.tail := by
  cases h with
  | @node k p p' cs cs' _ hchildren =>
    cases hchildren with
    | nil => exact .nil
    | cons _ hrest => exact hrest
  | privateName _ hchildren => exact hchildren

/-- If discriminators are shown, they are equal. -/
theorem discriminator_eq (h : n.EqualBut o n') (hshown : o.privateDiscriminators = true)
    (hkinds : ∀ c ∈ n.children, o.shows c.kind = true) :
    (do Fault.inTree (← n'.child 0).text : Description.Describing Text)
      = (do Fault.inTree (← n.child 0).text) := by
  cases h with
  | @node k p p' cs cs' _ hchildren =>
    cases hchildren with
    | nil => rfl
    | @cons c c' cs cs' hc _ =>
      have htext : Fault.inTree c'.text = Fault.inTree c.text := by
        unfold Node.text
        rw [text?_eq hc (hkinds c List.mem_cons_self), kind_eq hc]
      exact congrArg (fun r => (liftM r : Description.Describing Text)) htext
  | privateName hhidden _ => exact absurd (hhidden.symm.trans hshown) Bool.false_ne_true

end EqualBut

/-- The kind of a node has room for the kinds of its children. -/
theorem Fits.holds (h : n.Fits) {c : Node} (hc : c ∈ n.children) : n.kind.holds c.kind = true :=
  List.any_eq_true.mpr (h.exists_slot hc)

end Node

/-! ### Comparing such trees -/

namespace Description

variable {o : DisplayOptions}

theorem shows_of_privateName (o : DisplayOptions) {k : Kind}
    (h : Kind.privateDeclName.holds k = true) :
    o.shows k = true := by
  have hnames : ∀ k ∈ Kind.all, Kind.privateDeclName.holds k = true → k ≠ .moduleName ∧
    k ≠ .suffix := by decide
  obtain ⟨hmodule, hsuffix⟩ := hnames k (Kind.mem_all k) h
  unfold DisplayOptions.shows
  split
  · exact absurd rfl hmodule
  · exact absurd rfl hsuffix
  · rfl

/-- Trees that are equal but for what is hidden, the first of which is well-shaped. -/
def Comparison.equalBut (o : DisplayOptions) : Comparison o where
  Alike n n' := n.EqualBut o n' ∧ n.All Node.Fits
  Open n := n.kind ≠ .privateDeclName
  size h := h.1.size_eq
  kind h := h.1.kind_eq
  index? h := h.1.index?_eq
  text? h := h.1.text?_eq
  standard h := h.1.standard_iff
  length h := h.1.length_eq
  children h hopen := (forall₂_mem (h.1.children hopen)).imp fun c _ ⟨hc, hcc'⟩ =>
    ⟨hcc', h.2.children c hc⟩
  tail h := (forall₂_mem h.1.tail).imp fun c _ ⟨hc, hcc'⟩ =>
    ⟨hcc', h.2.children c (List.mem_of_mem_tail hc)⟩
  discriminator h hk hshown := h.1.discriminator_eq hshown fun c hc =>
    shows_of_privateName o (hk ▸ h.2.root.holds hc)
  isOpen _ hk := hk
  openChild {n n' c} h hk hc := fun hprivate => by
    have hholds := h.2.root.holds hc
    rw [hprivate, hk] at hholds
    cases hholds
  openGrandchild {n n' c d} h hk hc hd := fun hprivate => by
    have hholds := (h.2.children c hc).root.holds hd
    rw [hprivate, hk c.kind (Kind.mem_all _) (h.2.root.holds hc)] at hholds
    cases hholds

end Description

/-- Two trees that are equal but for what the options hide have the same description, or none for
the same reason: the same fault, a number that is too long, or a name of a parameter that never
ends. -/
theorem describe_eq_of_equalBut {o : DisplayOptions} {a b : Node} (h : a.EqualBut o b)
    (ha : a.WellShaped) :
    describe o a = describe o b :=
  Description.Comparison.describe_eq (C := .equalBut o) ⟨h, Node.All.iff_walk.mpr ha⟩

/-- A private property `x` of a module, whose type is an optional of a type `T` of the module. -/
def privateProperty (m discriminator suffix : Text) : Node :=
  .ofChildren .global
    [.ofChildren .variableDecl
      [.moduleName m, .ofChildren .privateDeclName
        [.identifier discriminator, .identifier "x".text],
        .typeOf (.ofChildren .boundGenericEnum
          [.typeOf
            (.ofChildren .enumType [.moduleName Standard.moduleText, .identifier "Optional".text]),
            .ofChildren .typeList
            [.typeOf (.ofChildren .structType [.moduleName m, .identifier "T".text])]])],
      .ofText .suffix suffix]

/-- Sugar, contexts and types are shown, but neither modules nor discriminators nor suffixes. -/
def quietOptions : DisplayOptions := .ofBits 35

theorem equalBut_privateProperty {m m' : Text}
    (h : m = Standard.moduleText ↔ m' = Standard.moduleText)
    (discriminator discriminator' suffix suffix' : Text) :
    (privateProperty m discriminator suffix).EqualBut quietOptions
      (privateProperty m' discriminator' suffix') := by
  have hmodule : (Node.moduleName m).EqualBut quietOptions (.moduleName m') :=
    .node (.moduleName rfl rfl h) .nil
  have hnominal : (Node.ofChildren .structType [.moduleName m, .identifier "T".text]).EqualBut
    quietOptions (.ofChildren .structType [.moduleName m', .identifier "T".text]) :=
    .node (.same _) (.cons hmodule (Node.EqualBut.forall₂_refl _ _))
  have htype {t t' : Node} (ht : t.EqualBut quietOptions t') :
      t.typeOf.EqualBut quietOptions t'.typeOf :=
    .node (.same _) (.cons ht .nil)
  have harguments : List.Forall₂ (Node.EqualBut quietOptions)
      [.ofChildren .typeList
        [(Node.ofChildren .structType [.moduleName m, .identifier "T".text]).typeOf]]
      [.ofChildren .typeList
        [(Node.ofChildren .structType [.moduleName m', .identifier "T".text]).typeOf]] :=
    .cons (.node (.same _) (.cons (htype hnominal) .nil)) .nil
  exact .node (.same _) (.cons
    (.node (.same _) (.cons hmodule (.cons (.privateName rfl (Node.EqualBut.forall₂_refl _ _))
      (.cons (htype (.node (.same _) (.cons (.refl _ _) harguments))) .nil))))
    (.cons (.node (.suffix rfl rfl) .nil) .nil))

theorem describe_eq_of_equalBut_privateProperty :
    describe quietOptions (privateProperty "A".text "_1".text ".a".text) =
      describe quietOptions (privateProperty "B".text "_2".text ".b".text) ∧
    describe quietOptions (privateProperty "A".text "_1".text ".a".text) = .ok "x : T?".text :=
  ⟨describe_eq_of_equalBut (equalBut_privateProperty (by decide) _ _ _ _)
    (Node.All.iff_walk.mp (by decide)), rfl⟩

end SwiftABI
