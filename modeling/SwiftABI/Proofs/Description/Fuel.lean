/-
  A tree is described alike with any fuel that is enough.

  Equality is a comparison of trees. A node is described by way of smaller trees only: those below
  it, and contexts that these have left to be written later, which are no larger. So more fuel than
  a tree has nodes makes no difference (`describeAt_eq`).
-/
import SwiftABI.Proofs.Description.Comparison

namespace SwiftABI.Description

variable {o : DisplayOptions} {n : Node}

/-- Trees that are the same. -/
def Comparison.same (o : DisplayOptions) : Comparison o where
  Alike n n' := n = n'
  Open _ := True
  size h := h ▸ rfl
  kind h := h ▸ rfl
  index? h := h ▸ rfl
  text? h _ := h ▸ rfl
  standard h _ := h ▸ Iff.rfl
  length h := h ▸ rfl
  children h _ := h ▸ List.forall₂_same.mpr fun _ _ => rfl
  tail h := h ▸ List.forall₂_same.mpr fun _ _ => rfl
  discriminator h _ _ := h ▸ rfl
  isOpen _ _ := trivial
  openChild _ _ _ := trivial
  openGrandchild _ _ _ _ := trivial

/-- More fuel than a tree has nodes makes no difference. -/
theorem describeAt_eq {fuel fuel' : Nat} {asContext : Bool} (h : n.size ≤ fuel)
    (h' : n.size ≤ fuel') :
    describeAt o fuel n asContext = describeAt o fuel' n asContext := by
  have hagree : (Comparison.same o).Agree n.size (describeAt o fuel n asContext)
      (describeAt o fuel' n asContext) :=
    Comparison.describeAt rfl h h'
  generalize describeAt o fuel n asContext = x, describeAt o fuel' n asContext = y at hagree
  cases hagree with
  | error f => rfl
  | done t => rfl
  | deferred t hd _ => rw [show _ = _ from hd]

/-- The parameters of a function are described alike. -/
theorem parameters_describeAt {fuel fuel' : Nat} {showTypes : Bool} (h : n.size ≤ fuel)
    (h' : n.size ≤ fuel') :
    parameters (describeAt o fuel) none n showTypes = parameters
      (describeAt o fuel') none n showTypes :=
  (Comparison.agreeBelow_describeAt (C := Comparison.same o) h h').parameters rfl .none

end SwiftABI.Description
