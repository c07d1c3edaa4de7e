/-
  A run can be cut at each operator.

  `Comes` says that a run goes through two states, one after the other. What it has read between
  them is a text that it would have read in front of anything else (`Parses`), unless the suffix has
  taken the rest (`Machine.Comes.ahead`). A run that ends well is one that comes to the end of the
  text (`Machine.run_eq_ok_iff`).
-/
import Mathlib.Logic.Relation
import SwiftABI.Proofs.Symbol.SelfDelimiting.Operators

namespace SwiftABI

variable {cfg : Config}

/-! ### One step -/

theorem FailsAtEnd.identifier : FailsAtEnd (Reading.identifier cfg) :=
  .left (x := Reading.identifierText cfg) fun _ _ _ h => nomatch h

/-- Every operator but the suffix reads the same in front of anything else. -/
theorem SelfDelimitingAt.step {ch : CodePoint} (hch : ch ≠ '.') :
    SelfDelimitingAt ch (Reading.step cfg) := by
  have hread : SelfDelimitingAt ch (if Text.isDigit ch then Reading.identifier cfg >>= Reading.push
      else Reading.advance 1 >>= fun _ => Reading.operator cfg ch >>= Reading.push) := by
    refine .ite (.of_failsAtEnd (.before .identifier .push) (.left .identifier)) ?_
    exact .advance (.before (.operator hch) .push)
  intro c offset t a m h
  rw [Reading.step_of_cons rfl] at h
  obtain ⟨w, rest, c', ht, hm, hreads⟩ := hread.reads h
  exact ⟨w, rest, c', ht, hm,
    fun _ _ offset' rest' => (Reading.step_of_cons rfl).trans (hreads offset' rest')⟩

/-- The suffix takes the rest of the text. -/
theorem Reading.step_suffix (c : Store) (offset : Nat) (t : Text) :
    Reading.step cfg (c.machine offset (('.' : CodePoint) :: t)) =
      .ok ((), (c.push (Machine.suffixNode t)).machine (offset + (('.' : CodePoint) :: t).length)
        []) := by
  have hadvance := Reads.advance t c (offset + 1) []
  rw [List.append_nil] at hadvance
  have hsuffix : Reading.suffix (c.machine (offset + 1) t)
      = .ok (Machine.suffixNode t, c.machine (offset + 1 + t.length) []) := by
    show (Reading.advance t.length (c.machine (offset + 1) t) >>= fun r =>
      Reading.build .suffix (.text ('.' :: t)) [] r.2 : Except Malformed (Node × Machine)) = _
    rw [hadvance]
    rfl
  rw [Reading.step_of_cons rfl]
  show (Reading.suffix (c.machine (offset + 1) t) >>= fun r => Reading.push r.1 r.2 :
    Except Malformed _) = _
  rw [hsuffix, List.length_cons, Nat.add_comm t.length, ← Nat.add_assoc]
  rfl

/-- Where a step leads to. -/
theorem Reading.step_cases {c : Store} {offset : Nat} {t : Text} {m : Machine}
    (h : Reading.step cfg (c.machine offset t) = .ok ((), m)) :
    (∃ ch w rest c', t = ch :: w ++ rest ∧ m = c'.machine (offset + (ch :: w).length) rest ∧
      Parses cfg (ch :: w) c c') ∨
    ∃ v, t = ('.' : CodePoint) :: v ∧
      m = (c.push (Machine.suffixNode v)).machine (offset + t.length) [] := by
  rcases t with _ | ⟨ch, t⟩
  · cases h
  by_cases hch : ch = '.'
  · subst hch
    cases (Reading.step_suffix c offset t).symm.trans h
    exact .inr ⟨t, rfl, rfl⟩
  · obtain ⟨w, rest, c', rfl, rfl, hreads⟩ := (SelfDelimitingAt.step hch).reads h
    exact .inl ⟨ch, w, rest, c', rfl, rfl, .of_step hreads⟩

/-- A step reads at least one character. -/
theorem Reading.length_lt_of_step {m m' : Machine} (h : Reading.step cfg m = .ok ((), m')) :
    m'.rest.length < m.rest.length := by
  have hstore : m = Store.machine ⟨m.stack, m.table, m.words⟩ m.offset m.rest := rfl
  rw [hstore] at h
  rcases Reading.step_cases h with ⟨ch, w, rest, c', hrest, rfl, -⟩ | ⟨v, hrest, rfl⟩
  · rw [hrest, List.length_append, List.length_cons]
    show rest.length < _
    omega
  · rw [hrest]
    exact Nat.succ_pos v.length

/-! ### Runs -/

namespace Machine

/-- A run comes from one state to another one. -/
def Comes (cfg : Config) : Machine → Machine → Prop :=
  Relation.ReflTransGen fun m m' => Reading.step cfg m = .ok ((), m')

/-- A run comes to the state that its steps end with, which is the end of the text if they are
enough. -/
theorem comes_of_steps {fuel : Nat} {m m' : Machine} (h : m.steps cfg fuel = .ok m') :
    Comes cfg m m' ∧ (m.rest.length ≤ fuel → m'.rest = []) := by
  induction fuel generalizing m with
  | zero =>
    cases h
    exact ⟨.refl, fun hfuel => List.length_eq_zero_iff.mp (Nat.le_zero.mp hfuel)⟩
  | succ fuel ih =>
    rw [steps] at h
    by_cases hempty : m.rest.isEmpty = true
    · rw [if_pos hempty] at h
      cases h
      exact ⟨.refl, fun _ => List.isEmpty_iff.mp hempty⟩
    · rw [if_neg hempty] at h
      rcases hstep : Reading.step cfg m with e | ⟨⟨⟩, m''⟩
      · rw [hstep] at h
        cases h
      · rw [hstep] at h
        obtain ⟨hcomes, hend⟩ := ih h
        refine ⟨.head hstep hcomes, fun hfuel => hend ?_⟩
        have hlt := Reading.length_lt_of_step hstep
        omega

/-- Where a run over a text can come to. -/
inductive Ahead (cfg : Config) (c : Store) (offset : Nat) (t : Text) : Machine → Prop where
  /-- Some operators have been read. -/
  | parsed (w rest : Text) (c' : Store) (ht : t = w ++ rest) (h : Parses cfg w c c') :
    Ahead cfg c offset t (c'.machine (offset + w.length) rest)
  /-- The suffix has taken the rest. -/
  | suffixed (w v : Text) (c' : Store) (ht : t = w ++ ('.' : CodePoint) :: v)
    (h : Parses cfg w c c') :
    Ahead cfg c offset t ((c'.push (suffixNode v)).machine (offset + t.length) [])

theorem Comes.ahead {c : Store} {offset : Nat} {t : Text} {m : Machine}
    (h : Comes cfg (c.machine offset t) m) :
    Ahead cfg c offset t m := by
  induction h with
  | refl => exact .parsed [] t c rfl (.refl cfg c)
  | tail _ hstep ih =>
    cases ih with
    | suffixed => cases hstep -- There is no step at the end of the text.
    | parsed w rest c' ht h =>
      rcases Reading.step_cases hstep with ⟨ch, w', rest', c'', rfl, rfl, h'⟩ | ⟨v, rfl, rfl⟩
      · rw [Nat.add_assoc, ← List.length_append]
        exact .parsed _ rest' c'' (by rw [ht, List.append_assoc]) (h.trans h')
      · rw [Nat.add_assoc, ← List.length_append, ← ht]
        exact .suffixed w v c' ht h

/-- A run over the text `w` has parsed it, or its end was the suffix and with it the end of the
whole text. -/
theorem Comes.over {c : Store} {offset : Nat} {w : Text} {m : Machine}
    (h : Comes cfg (c.machine offset (w ++ m.rest)) m) :
    (∃ c', Parses cfg w c c' ∧ m = c'.machine (offset + w.length) m.rest) ∨
    ∃ u v c', w = u ++ ('.' : CodePoint) :: v ∧ Parses cfg u c c' ∧
      m = (c'.push (suffixNode v)).machine (offset + w.length) [] := by
  generalize ht : w ++ m.rest = t at h
  cases h.ahead with
  | parsed w' rest c' ht' hw' =>
    obtain rfl : w = w' := List.append_cancel_right (ht.trans ht')
    exact .inl ⟨c', hw', rfl⟩
  | suffixed u v c' ht' hu =>
    obtain rfl : w = t := (List.append_nil w).symm.trans ht
    exact .inr ⟨u, v, c', ht', hu, rfl⟩

/-- A run that comes to the end of the text ends there. -/
theorem Comes.steps_eq {m m' : Machine} (h : Comes cfg m m') (hend : m'.rest = []) :
    ∀ fuel ≥ m.rest.length, m.steps cfg fuel = .ok m' := by
  -- By induction from the front, since each step takes one unit of the fuel and a part of the text.
  induction h using Relation.ReflTransGen.head_induction_on with
  | refl =>
    intro fuel _
    cases fuel with
    | zero => rfl
    | succ fuel =>
      rw [steps, hend]
      rfl
  | @head m m₁ hstep _ ih =>
    intro fuel hfuel
    have hlt := Reading.length_lt_of_step hstep
    obtain ⟨fuel, rfl⟩ : ∃ k, fuel = k + 1 := ⟨fuel - 1, by omega⟩
    have hne : ¬m.rest.isEmpty = true := by
      rw [List.isEmpty_iff_length_eq_zero]
      omega
    rw [steps, if_neg hne, hstep]
    exact ih fuel (by omega)

/-- A run ends well where it comes to the end of the text. -/
theorem run_eq_ok_iff {m m' : Machine} : m.run cfg = .ok m' ↔ Comes cfg m m' ∧ m'.rest = [] :=
  ⟨fun h => (comes_of_steps h).imp_right fun hend => hend (Nat.le_refl _),
    fun h => h.1.steps_eq h.2 _ (Nat.le_refl _)⟩

end Machine

namespace Parses

variable {w : Text} {c c' : Store}

/-- A run comes over a text that is parsed. -/
theorem comes (h : Parses cfg w c c') (offset : Nat) (rest : Text) :
    Machine.Comes cfg (c.machine offset (w ++ rest)) (c'.machine (offset + w.length) rest) := by
  obtain ⟨count, -, hsteps⟩ := h
  exact (Machine.comes_of_steps (hsteps 0 offset rest)).1

/-- A run takes everything behind a text that is parsed as the suffix, if it begins like one. -/
theorem comes_suffix (h : Parses cfg w c c') (offset : Nat) (v : Text) :
    Machine.Comes cfg (c.machine offset (w ++ ('.' : CodePoint) :: v))
      ((c'.push (Machine.suffixNode v)).machine (offset + (w ++ ('.' : CodePoint) :: v).length)
        []) := by
  rw [List.length_append, ← Nat.add_assoc]
  exact (h.comes offset ('.' :: v)).tail (Reading.step_suffix c' _ v)

end Parses

end SwiftABI
