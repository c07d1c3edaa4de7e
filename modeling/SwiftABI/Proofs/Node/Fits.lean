/-
  Nodes that are as their kind demands them.

  A node that is built with a check fits, and the check lets every node pass that fits
  (`Node.make_eq_ok_iff`). Whether the children of a node fill the slots of its kind is found out
  slot by slot, with a rule for each sort of slot.
-/
import SwiftABI.Node.Basic

namespace SwiftABI

/-! ### Slots -/

namespace Slot

variable {k : Kind} {ks rest : List Kind} {slots : List Slot} {i : Nat}

@[simp]
theorem firstMisplaced_nil_nil : firstMisplaced [] i [] = none := rfl

@[simp]
theorem firstMisplaced_nil_cons : firstMisplaced [] i (k :: rest) ≠ none := Option.some_ne_none i

/-- A slot for one child takes the next one. -/
theorem firstMisplaced_one (h : k ∈ ks) :
    firstMisplaced (.one ks :: slots) i (k :: rest) = firstMisplaced slots (i + 1) rest := by
  simp [firstMisplaced, Slot.one, accepts, h]

/-- A slot that may stay empty takes the next child if that fits. -/
theorem firstMisplaced_optionally (h : k ∈ ks) :
    firstMisplaced (.optionally ks :: slots) i (k :: rest) = firstMisplaced slots (i + 1) rest := by
  simp [firstMisplaced, Slot.optionally, accepts, h]

/-- A slot that may stay empty leaves a child that does not fit to the others. -/
theorem firstMisplaced_optionally_of_not_mem (h : k ∉ ks) :
    firstMisplaced (.optionally ks :: slots) i (k :: rest) = firstMisplaced slots i
      (k :: rest) := by
  simp [firstMisplaced, Slot.optionally, accepts, h]

@[simp]
theorem firstMisplaced_optionally_nil :
    firstMisplaced (.optionally ks :: slots) i [] = firstMisplaced slots i [] := by
  simp [firstMisplaced, Slot.optionally]

/-- The last child takes the last slot. -/
theorem firstMisplaced_last (h : k ∈ ks) : firstMisplaced [.one ks] i [k] = none :=
  firstMisplaced_one h

/-- Two children take two slots. -/
theorem firstMisplaced_pair {k' : Kind} {ks' : List Kind} (h : k ∈ ks) (h' : k' ∈ ks') :
    firstMisplaced [.one ks, .one ks'] i [k, k'] = none :=
  (firstMisplaced_one h).trans (firstMisplaced_last h')

/-- A slot that takes every child that fits takes all of them if they do. -/
theorem firstMisplaced_repeated {s : Slot} (hs : s.repeated = true)
    (h : ∀ k ∈ rest, s.accepts k = true) :
    firstMisplaced [s] i rest = none := by
  have hdrop : rest.dropWhile s.accepts = [] := by
    induction rest with
    | nil => rfl
    | cons k rest ih =>
      rw [List.dropWhile_cons_of_pos (h k List.mem_cons_self)]
      exact ih fun k hk => h k (List.mem_cons_of_mem _ hk)
  show (if s.repeated then firstMisplaced [] _ (rest.dropWhile s.accepts) else _) = none
  rw [if_pos hs, hdrop]
  rfl

theorem firstMisplaced_many (h : ∀ k ∈ rest, k ∈ ks) : firstMisplaced [.many ks] i rest = none :=
  firstMisplaced_repeated rfl fun k hk => decide_eq_true (h k hk)

/-- Every child that is not misplaced is in a slot that accepts it. -/
theorem exists_accepts (h : firstMisplaced slots i rest = none) :
    ∀ k ∈ rest, ∃ s ∈ slots, s.accepts k = true := by
  induction slots generalizing i rest with
  | nil =>
    rcases rest with _ | ⟨k, rest⟩
    · nofun
    · cases h
  | cons s slots ih =>
    -- The other slots are among all of them.
    have hmore : ∀ {k : Kind}, (∃ s ∈ slots, s.accepts k = true) →
        ∃ t ∈ s :: slots, t.accepts k = true :=
      fun ⟨t, ht, haccepts⟩ => ⟨t, List.mem_cons_of_mem _ ht, haccepts⟩
    rcases rest with _ | ⟨first, rest⟩
    · nofun
    · intro k hk
      rw [firstMisplaced] at h
      split at h
      · rw [← List.takeWhile_append_dropWhile (p := s.accepts) (l := first :: rest),
          List.mem_append] at hk
        rcases hk with hk | hk
        · exact ⟨s, List.mem_cons_self, List.all_eq_true.mp List.all_takeWhile k hk⟩
        · exact hmore (ih h k hk)
      · split at h
        · rename_i haccepts
          rcases List.mem_cons.mp hk with rfl | hk
          · exact ⟨s, List.mem_cons_self, haccepts⟩
          · exact hmore (ih h k hk)
        · split at h
          · exact hmore (ih h k hk)
          · cases h

end Slot

/-! ### The check -/

namespace Kind

variable {k : Kind} {children : List Kind}

theorem checkSlots_eq_ok_iff : k.checkSlots children = .ok () ↔ k.misplaced? children = none := by
  unfold checkSlots
  rcases hm : k.misplaced? children with _ | i
  · simp
  · rcases hc : children[i]? with _ | c <;> simp [hc]

end Kind

namespace Node

variable {k : Kind} {p : Payload} {cs : List Node}

/-- The check lets exactly those nodes pass that fit. -/
theorem make_eq_ok_iff {n : Node} :
    make k p cs = .ok n ↔ n = .mk k p cs ∧ (Node.mk k p cs).Fits := by
  have hslots : k.checkSlots (cs.map kind) = .ok () ↔ k.misplaced? (cs.map kind) = none :=
    Kind.checkSlots_eq_ok_iff
  unfold make Fits Kind.checkPayload Kind.checkCount
  by_cases hp : p.fits k.payloadShape = true
  · by_cases hc : k.allowsCount cs.length = true
    · rcases hs : k.checkSlots (cs.map kind) with e | ⟨⟩
      · rw [hs] at hslots
        have hm : k.misplaced? (cs.map kind) ≠ none := fun h => nomatch hslots.mpr h
        simp [hp, hc, hm, bind, Except.bind]
      · have hm := hslots.mp hs
        simp [hp, hc, hm, bind, Except.bind, pure, Except.pure, eq_comm]
    · simp [hp, hc, bind, Except.bind]
  · simp [hp, bind, Except.bind]

theorem make_of_fits (h : (Node.mk k p cs).Fits) : make k p cs = .ok (.mk k p cs) :=
  make_eq_ok_iff.mpr ⟨rfl, h⟩

/-- A node without slots has no children. -/
theorem Fits.slots_isSome {n : Node} (h : n.Fits) {c : Node} (hc : c ∈ n.children) :
    n.kind.slots.isSome = true := by
  have hnone : ∀ k ∈ Kind.all, k.slots.isSome = true ∨ k.maxChildren = some 0 := by decide
  refine (hnone n.kind (Kind.mem_all _)).resolve_right fun hmax => ?_
  rcases n with ⟨k, p, cs⟩
  change k.maxChildren = some 0 at hmax
  have hcount := h.2.1
  unfold Kind.allowsCount at hcount
  rw [hmax, Bool.and_eq_true] at hcount
  have hlength : cs.length = 0 := by simpa using hcount.2
  rw [List.eq_nil_of_length_eq_zero hlength] at hc
  cases hc

/-- The kind of a child is accepted by one of the slots. -/
theorem Fits.exists_slot {n : Node} (h : n.Fits) {c : Node} (hc : c ∈ n.children) :
    ∃ s ∈ n.kind.slots.getD [], s.accepts c.kind = true := by
  obtain ⟨slots, hslots⟩ := Option.isSome_iff_exists.mp (h.slots_isSome hc)
  rcases n with ⟨k, p, cs⟩
  have hplaced : k.misplaced? (cs.map kind) = none := h.2.2
  unfold Kind.misplaced? at hplaced
  change k.slots = some slots at hslots
  rw [hslots] at hplaced
  show ∃ s ∈ k.slots.getD [], _
  rw [hslots]
  exact Slot.exists_accepts hplaced c.kind (List.mem_map_of_mem hc)

/-- A root can have any children, but at least one. -/
theorem fits_global (hne : cs ≠ []) : (Node.mk .global .none cs).Fits := by
  have hpos := List.length_pos_iff.mpr hne
  have hslot : Slot.firstMisplaced [{ accepted := none, repeated := true }] 0
      (cs.map kind) = none :=
    Slot.firstMisplaced_repeated rfl fun _ _ => rfl
  refine ⟨rfl, ?_, hslot⟩
  show (decide (1 ≤ cs.length) && true) = true
  rw [Bool.and_true]
  exact decide_eq_true hpos

theorem fits_typeOf {n : Node} (h : n.kind ∈ Kind.types) : n.typeOf.Fits :=
  ⟨rfl, rfl, Slot.firstMisplaced_one h⟩

end Node

end SwiftABI
