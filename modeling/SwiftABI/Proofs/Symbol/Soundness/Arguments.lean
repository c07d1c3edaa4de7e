/-
  Applying generic arguments keeps the machine sound.

  Lists of types are taken off the stack and applied to a nominal type and to the contexts above it.
  The result is a specialization of the type (`Specializes`), so that the grammar allows it, and a
  failure is never about the table.
-/
import SwiftABI.Proofs.Symbol.Soundness.Type

namespace SwiftABI

namespace Reading

variable {α β : Type} {cfg : Config}

/-! ### Failures -/

/-- A failure is not about the table. -/
def Plain (x : Except Complaint α) : Prop := ∀ c, x = .error c → c.isPlain = true

theorem Plain.ok (a : α) : Plain (.ok a : Except Complaint α) := nofun

theorem Plain.bind {x : Except Complaint α} {f : α → Except Complaint β} (hx : Plain x)
    (hf : ∀ a, Plain (f a)) : Plain (x >>= f) := by
  intro c h
  cases x with
  | error e =>
    cases h
    exact hx _ rfl
  | ok a => exact hf a c h

theorem plain_shaped (n : Except ShapeMismatch Node) : Plain (shaped n) := by
  intro c h
  cases n with
  | error e =>
    cases h
    rfl
  | ok n => cases h

theorem plain_applyOwn (k : Kind) (declaration arguments : Node) :
    Plain (applyOwn k declaration arguments) := by
  unfold applyOwn
  split
  · exact .ok _
  · split
    · exact (plain_shaped _).bind fun _ => plain_shaped _
    · split
      · exact plain_shaped _
      · rintro _ ⟨⟩
        rfl

theorem plain_applyArguments (size : Nat) : ∀ (n : Node) (lists : List Node), n.size ≤ size →
    Plain (applyArguments n lists) := by
  induction size with
  | zero =>
    intro n _ hsize
    exact absurd n.size_pos (Nat.not_lt.mpr hsize)
  | succ size ih =>
    intro n lists hsize
    -- The same for a context, where an extension passes the lists on to what it extends.
    have hcontext : ∀ (c : Node) (above : List Node), c.size ≤ size →
        Plain (applyToContext c above) := by
      intro c above hc
      unfold applyToContext
      split
      · simp only [Node.size, Node.sizeAll] at hc
        exact (ih _ above (by omega)).bind fun _ => plain_shaped _
      · exact ih _ above hc
    rcases n with ⟨k, p, _ | ⟨context, cs⟩⟩
    · rcases lists with _ | ⟨arguments, lists⟩ <;> (rintro _ ⟨⟩; rfl)
    · rcases lists with _ | ⟨arguments, lists⟩
      · rintro _ ⟨⟩
        rfl
      · simp only [Node.size, Node.sizeAll] at hsize
        rw [applyArguments_cons rfl]
        generalize (if k.consumesGenericArgs then lists else arguments :: lists) = above
        split
        · exact plain_applyOwn _ _ _
        · refine (hcontext context above (by omega)).bind fun _ => ?_
          exact (plain_shaped _).bind fun _ => plain_applyOwn _ _ _

/-! ### Lists of arguments -/

/-- What is taken off the stack as a list is made of types from the stack. -/
theorem takeTypeLists_spec {stack types rest : List Node} {lists : List (List Node)}
    (hstack : SoundStack cfg stack) (htypes : ∀ t ∈ types, t.kind = .type ∧ t.Grammatical cfg)
    (h : takeTypeLists stack types = some (lists, rest)) :
    (∀ l ∈ lists, ∀ t ∈ l, t.kind = .type ∧ t.Grammatical cfg) ∧ SoundStack cfg rest := by
  -- On the stack, for all the types that have been taken for the present list.
  induction stack generalizing types lists with
  | nil => cases h
  | cons n stack ih =>
    unfold takeTypeLists at h
    split at h
    · rename_i hk
      have hn : n.Sound cfg := hstack.head (by rw [hk]; decide)
      exact ih hstack.tail (List.forall_mem_cons.mpr ⟨⟨hk, hn.grammatical⟩, htypes⟩) h
    · split at h
      · cases h
        exact ⟨List.forall_mem_singleton.mpr htypes, hstack.tail⟩
      · split at h
        · obtain ⟨⟨lists', rest'⟩, htake, heq⟩ := Option.map_eq_some_iff.mp h
          cases heq
          obtain ⟨hlists, hrest⟩ := ih hstack.tail (List.forall_mem_nil _) htake
          exact ⟨List.forall_mem_cons.mpr ⟨htypes, hlists⟩, hrest⟩
        · cases h

end Reading

namespace Preserves

variable {cfg : Config}

/-- The stack can be left with what remains of it. -/
private theorem setStack {stack : List Node} (h : SoundStack cfg stack) :
    Preserves cfg (modify fun m => { m with stack } : Reading PUnit) fun _ => True :=
  fun _ _ hm => ⟨trivial, ⟨hm.offset, h, hm.table⟩, Nat.le_refl _⟩

private theorem argumentList {arguments : List Node}
    (h : ∀ a ∈ arguments, a.kind = .type ∧ a.Grammatical cfg) :
    Preserves cfg (Reading.node .typeList arguments) (Node.ArgumentList cfg) := by
  refine (grammatical (.typeList fun a ha => (h a ha).1) fun a ha => (h a ha).2).mono fun l hl => ?_
  rw [hl.1]
  exact ⟨rfl, h⟩

/-- A nominal type with its arguments is a type that the grammar allows. -/
theorem boundGenericType : Preserves cfg Reading.boundGenericType fun t => t.Sound cfg := by
  refine get.bind fun m hm => ?_
  obtain ⟨total, hm⟩ := hm
  split
  · exact fail rfl
  · rename_i lists stack htake
    obtain ⟨hlists, hstack⟩ := Reading.takeTypeLists_spec hm.stack (List.forall_mem_nil _) htake
    refine (setStack hstack).bind fun _ _ => ?_
    refine (mapM fun l hl => argumentList (hlists l hl)).bind fun lists hlists => ?_
    refine popNominal.bind fun nominal hnominal => ?_
    split
    · rename_i c happly
      exact fail (Reading.plain_applyArguments _ nominal lists (Nat.le_refl _) c happly)
    · rename_i bound happly
      have hspecializes := Reading.specializes_applyArguments _ nominal lists bound
        (Nat.le_refl _) hlists happly
      have htopmost : ∀ k ∈ Kind.nominals, k ∉ Kind.topmost := by decide
      have hbound := hspecializes.grammatical hnominal.1 (htopmost _ hnominal.2)
      refine node.bind fun t ht => ?_
      obtain ⟨rfl, hfits⟩ := ht
      have hkind : bound.kind ∈ Kind.nominals ++ Kind.boundNominals :=
        hspecializes.kind_mem (List.mem_append_left _ hnominal.2) (by decide) (by decide)
      have htypes : ∀ k ∈ Kind.nominals ++ Kind.boundNominals, k ∈ Kind.types := by decide
      have hsound : (Node.typeOf bound).Sound cfg :=
        .of_type (.mk (.type (htypes _ hkind)) (List.forall_mem_singleton.mpr hbound)) rfl
      exact (register hsound).bind fun _ _ => pure hsound

end Preserves

end SwiftABI
