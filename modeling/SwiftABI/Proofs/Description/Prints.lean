/-
  When a description succeeds.

  Two flaws of a tree can keep it from being described. Labels are written before the parameters of
  a function type, and so are the generic arguments of a function. A declaration with labels whose
  type is not one of a function (`Node.Mislabelled`) has no such parameters, and is refused. And a
  number may have more digits than can be shown (`Node.HasLongNumber`).

  `Prints` says of a part of a description that it succeeds but for these flaws, and `Tame` of a
  tree that it obeys the grammar and has each flaw under a condition only. Of such trees the parts
  are there that a description asks for.
-/
import SwiftABI.Description.Basic
import SwiftABI.Proofs.Symbol.ArgumentChain
import SwiftABI.Proofs.Symbol.Parts

namespace SwiftABI

/-- The description of the node writes labels or generic arguments before a type, which is not one
of a function. -/
inductive Node.Mislabelled (o : DisplayOptions) : Node → Prop where
  | typeMangling {labels t : Node} (hlabels : labels.kind = .labelList)
    (ht : t.unwrapped.kind ∉ Kind.functionTypes) :
      Mislabelled o (.mk .typeMangling .none [labels, t])
  | declaration {n labels t : Node} (hshown : o.entityTypes = true)
    (hlabels : n.childOfKind .labelList = some labels) (htype : n.childOfKind .type = some t)
    (ht : t.unwrapped.kind ∉ Kind.functionTypes) : Mislabelled o n
  | boundFunction {function arguments t : Node} (hshown : o.entityTypes = true)
    (htype : function.childOfKind .type = some t) (ht : t.unwrapped.kind ∉ Kind.functionTypes) :
    Mislabelled o (.mk .boundGenericFunction .none [function, arguments])

/-- The reasons to refuse a type that is not one of a function. -/
def Refusal.isNoFunction : Refusal → Bool
  | .expectedArgumentTuple | .badFunctionType => true
  | _ => false

/-- The node is a number of which it, or the next one, cannot be shown. -/
def Node.HasLongNumber (n : Node) : Prop :=
  (n.kind = .index ∨ n.kind = .number) ∧
    ∃ i, n.index? = some i ∧ (Text.isShowable i = false ∨ Text.isShowable (i + 1) = false)

namespace Description

/-- What can be wrong with a tree that obeys the grammar. -/
inductive Flaw where
  | mislabelled
  | longNumber

/-- The node has the flaw. -/
def Flaw.In (o : DisplayOptions) (n : Node) : Flaw → Prop
  | mislabelled => n.Mislabelled o
  | longNumber => n.HasLongNumber

/-- A description stops for a flaw: a type is refused that is not one of a function, or a number
cannot be shown. -/
inductive Stop.IsFor {ε : Type} (noFunction : ε → Prop) : Stop ε → Flaw → Prop where
  | mislabelled {e : ε} (h : noFunction e) : IsFor noFunction (.fault e) .mislabelled
  | longNumber : IsFor noFunction .unshowable .longNumber

/-- A type has been refused that is not one of a function. -/
def RefusesNoFunction (f : Fault) : Prop :=
  ∃ e : Unmangleable, f = .refused e ∧ e.reason.isNoFunction = true

/-- The outcome has the property, or else the description has stopped for a flaw that the tree may
have. -/
def Prints {α : Type} (may : Flaw → Prop) (x : Describing α) (p : α → Prop) : Prop :=
  match x with
  | .ok a => p a
  | .error stop => ∃ flaw, may flaw ∧ stop.IsFor RefusesNoFunction flaw

namespace Prints

variable {α β : Type} {may : Flaw → Prop} {x : Describing α} {f : α → Describing β} {p : α → Prop}
  {q : β → Prop}

theorem ok {a : α} (h : p a) : Prints may (.ok a) p := h

theorem pure {a : α} (h : p a) : Prints may (Pure.pure a) p := h

theorem bind (hx : Prints may x p) (hf : ∀ a, p a → Prints may (f a) q) :
    Prints may (x >>= f) q := by
  rcases x with e | a
  · exact hx
  · exact hf a hx

theorem mono {p' : α → Prop} (hx : Prints may x p) (h : ∀ a, p a → p' a) : Prints may x p' := by
  rcases x with e | a
  · exact hx
  · exact h a hx

/-- A type is refused that is not one of a function. -/
theorem refuse {n : Node} {r : Refusal} (hmay : may .mislabelled) (h : r.isNoFunction = true) :
    Prints may (Description.refuse n r : Describing α) p :=
  ⟨.mislabelled, hmay, .mislabelled ⟨_, rfl, h⟩⟩

/-- A number is shown unless it is a long one. -/
theorem numeral {n : Int} (h : Text.isShowable n = false → may .longNumber) :
    Prints may (Description.numeral n) fun _ => True := by
  unfold Description.numeral Text.decimal?
  cases hshowable : Text.isShowable n with
  | true => exact trivial
  | false => exact ⟨.longNumber, h hshowable, .longNumber⟩

/-- Two branches can go on with the same parts. -/
theorem branch {c : Prop} [Decidable c] {y : Describing α} (hx : c → Prints may x p)
    (hy : ¬c → Prints may y p)
    (hf : ∀ a, p a → Prints may (f a) q) : Prints may (if c then x >>= f else y >>= f) q := by
  split
  · rename_i hc
    exact (hx hc).bind hf
  · rename_i hc
    exact (hy hc).bind hf

/-- What is not refused goes on. -/
theorem pass {c : Prop} [Decidable c] {n : Node} {r : Refusal} {g : PUnit → Describing β} (hc : ¬c)
    (hg : Prints may (g ()) q) :
    Prints may (if c then Description.refuse n r >>= g else g ()) q := by
  rwa [if_neg hc]

/-- A type that is not one of a function may be refused before anything else is done. -/
theorem guard {c : Prop} [Decidable c] {n : Node} {r : Refusal} {g : PUnit → Describing β}
    (hc : c → may .mislabelled) (h : r.isNoFunction = true) (hg : ¬c → Prints may (g ()) q) :
    Prints may (if c then Description.refuse n r >>= g else g ()) q := by
  split
  · rename_i hc'
    exact refuse (hc hc') h
  · rename_i hc'
    exact hg hc'

end Prints

/-! ### Trees that are described -/

/-- A tree of limited size that obeys the grammar. It has only such flaws as it may have. -/
structure Tame (cfg : Config) (o : DisplayOptions) (may : Flaw → Prop) (fuel : Nat) (n : Node) :
    Prop where
  all : n.All fun m => m.Rule cfg ∧ ∀ flaw : Flaw, flaw.In o m → may flaw
  size : n.size ≤ fuel

namespace Tame

variable {cfg : Config} {o : DisplayOptions} {may : Flaw → Prop} {fuel : Nat} {n c : Node}

theorem rule (h : Tame cfg o may fuel n) : n.Rule cfg := h.all.root.1

theorem mislabelled (h : Tame cfg o may fuel n) : n.Mislabelled o → may .mislabelled :=
  h.all.root.2 .mislabelled

theorem longNumber (h : Tame cfg o may fuel n) : n.HasLongNumber → may .longNumber :=
  h.all.root.2 .longNumber

theorem grammatical (h : Tame cfg o may fuel n) : n.Grammatical cfg := h.all.mono fun _ hm => hm.1

theorem below (h : Tame cfg o may (fuel + 1) n) (hc : c ∈ n.children) : Tame cfg o may fuel c := by
  refine ⟨h.all.children c hc, ?_⟩
  have hlt := Node.size_lt_of_mem_children hc
  have hsize := h.size
  omega

theorem mono {fuel' : Nat} (h : Tame cfg o may fuel n) (hle : fuel ≤ fuel') :
    Tame cfg o may fuel' n :=
  ⟨h.all, Nat.le_trans h.size hle⟩

theorem child (h : Tame cfg o may fuel n) (hc : c ∈ n.children) : Tame cfg o may fuel c :=
  (h.mono (Nat.le_succ fuel)).below hc

theorem child? {k : Kind} (h : Tame cfg o may fuel n) (hc : n.childOfKind k = some c) :
    Tame cfg o may fuel c :=
  h.child (List.mem_of_find?_eq_some hc)

end Tame

/-! ### Parts of a node -/

section

variable {cfg : Config} {o : DisplayOptions} {may : Flaw → Prop} {fuel : Nat} {n c : Node}

/-- A child is there if there are enough children. -/
theorem prints_child {i : Nat} (hi : i < n.children.length) :
    Prints may (n.child i) fun c => n.children[i]? = some c := by
  have hchild : n.child i = .ok n.children[i] := by
    unfold Node.child
    rw [List.getElem?_eq_getElem hi]
  rw [hchild]
  exact Prints.ok (List.getElem?_eq_getElem hi)

theorem prints_childOf {i : Nat} (h : n.Rule cfg) (hi : i < n.kind.minChildren) :
    Prints may (n.child i) fun c => c ∈ n.children :=
  (prints_child (Nat.lt_of_lt_of_le hi h.minChildren_le)).mono fun _ hc => List.mem_of_getElem? hc

theorem prints_text (h : n.Rule cfg) (hshape : n.kind.payloadShape = .text) :
    Prints may (Fault.inTree n.text) fun _ => True := by
  have hfits := h.fits
  rcases n with ⟨k, p, cs⟩
  have hpayload := hfits.1
  rw [show k.payloadShape = .text from hshape] at hpayload
  cases p with
  | text t => exact Prints.ok trivial
  | _ => cases hpayload

theorem prints_index (h : n.Rule cfg) (hshape : n.kind.payloadShape = .index) :
    Prints may (Fault.inTree n.index) fun i => n.index? = some i := by
  have hfits := h.fits
  rcases n with ⟨k, p, cs⟩
  have hpayload := hfits.1
  rw [show k.payloadShape = .index from hshape] at hpayload
  cases p with
  | index i => exact Prints.ok rfl
  | _ => cases hpayload

/-- A describer that prints every tree that it may be asked for. What is left to be written is such
a tree, too. -/
def PrintsBelow (cfg : Config) (o : DisplayOptions) (may : Flaw → Prop) (fuel : Nat)
    (sub : Describer) : Prop :=
  ∀ n b, Tame cfg o may fuel n → Prints may (sub n b) fun piece =>
    ∀ d ∈ piece.deferred, Tame cfg o may fuel d

variable {sub : Describer} (hsub : PrintsBelow cfg o may fuel sub)

include hsub

theorem prints_plain (hn : Tame cfg o may fuel n) : Prints may (plain sub n) fun _ => True :=
  (hsub n false hn).bind fun _ _ => .pure trivial

theorem prints_joined (separator : Text) {ns : List Node} (hns : ∀ n ∈ ns, Tame cfg o may fuel n) :
    Prints may (joined sub separator ns) fun _ => True := by
  induction ns with
  | nil => exact .pure trivial
  | cons n ns ih =>
    obtain ⟨hn, hns⟩ := List.forall_mem_cons.mp hns
    rcases ns with _ | ⟨n', ns⟩
    · exact prints_plain hsub hn
    · exact (prints_plain hsub hn).bind fun _ _ => (ih hns).bind fun _ _ => .pure trivial

theorem prints_parenthesized (hn : Tame cfg o may fuel n) :
    Prints may (parenthesized sub n) fun _ => True := by
  have hplain := prints_plain hsub hn
  unfold parenthesized
  split
  · rename_i hk
    exact (prints_childOf hn.rule (by rw [hk]; decide)).bind fun _ _ => hplain.bind fun _ _ =>
      .pure trivial
  · rename_i hk
    obtain ⟨list, hlist, hn'⟩ := hn.rule.eq_classComposition hk
    have hmem : list ∈ n.children := by
      rw [hn']
      exact List.mem_singleton_self list
    rw [hn']
    refine (prints_child (Nat.one_pos)).bind fun first hfirst => ?_
    cases hfirst
    refine (prints_childOf (hn.child hmem).rule (by rw [hlist]; decide)).bind fun _ _ => ?_
    rw [← hn']
    exact hplain.bind fun _ _ => .pure trivial
  · exact hplain.bind fun _ _ => .pure trivial

end

end Description

end SwiftABI
