/-
  Merged substitutions are read as the ones that they were merged from.

  What a symbol that is being written is read as depends on its text only, but how it can go on
  depends on the substitution at its end. `Ending` says both: a text gets a machine from one store
  to another, and the state of merging knows the substitution at the end of the text, or that there
  is none to be merged with. A further operator keeps that (`Ending.append`), and so does a further
  substitution, whether it is merged or not (`Ending.write_table`, `Ending.write_standard`).
-/
import SwiftABI.Proofs.Symbol.Reads
import SwiftABI.Proofs.Text.Letter
import SwiftABI.Symbol.Merging

namespace SwiftABI

/-! ### Counts -/

/-- The count in front of a letter that says how often it is meant. Once needs no count. -/
def countPrefix (count : Nat) : Text := if count = 1 then [] else Text.digits count

/-- The count that is read there. -/
def countRead (count : Nat) : Option Nat := if count = 1 then none else some count

/-- A count that a symbol may hold. -/
structure CountAllowed (cfg : Config) (count : Nat) : Prop where
  pos : 0 < count
  once : -1 ≤ cfg.maxRepeatCount
  limit : count ≠ 1 → (count : Int) ≤ cfg.maxRepeatCount

namespace CountAllowed

variable {cfg : Config} {count : Nat}

theorem one (h : -1 ≤ cfg.maxRepeatCount) : CountAllowed cfg 1 :=
  ⟨by decide, h, fun hne => absurd rfl hne⟩

theorem succ (h : CountAllowed cfg count) (hlt : (count : Int) < cfg.maxRepeatCount) :
    CountAllowed cfg (count + 1) := ⟨by omega, h.once, fun _ => by omega⟩

theorem countOr_le (h : CountAllowed cfg count) :
    Reading.countOr (countRead count) ≤ cfg.maxRepeatCount := by
  unfold countRead
  split
  · exact h.once
  · exact h.limit ‹_›

theorem getD_countRead (h : CountAllowed cfg count) : (countRead count).getD 0 - 1 = count - 1 := by
  unfold countRead
  have hpos := h.pos
  split
  · simp only [Option.getD_none]
    omega
  · rfl

end CountAllowed

namespace Store

/-- The store with some copies of a node on its stack. -/
def pushCopies (c : Store) (count : Nat) (n : Node) : Store :=
  { c with stack := List.replicate count n ++ c.stack }

theorem push_pushCopies (c : Store) {count : Nat} (hpos : 0 < count) (n : Node) :
    (c.pushCopies (count - 1) n).push n = c.pushCopies count n := by
  obtain ⟨count, rfl⟩ : ∃ m, count = m + 1 := ⟨count - 1, by omega⟩
  rfl

end Store

/-! ### Reading references -/

theorem Reads.pushCopies (count : Nat) (n : Node) (c : Store) :
    Reads (Reading.pushCopies count n) [] c () (c.pushCopies count n) := fun _ _ => rfl

/-- The machine stands behind the sign of the table, and reads references. -/
def ReadsOn (cfg : Config) (count? : Option Nat) (w : Text) (c : Store) (n : Node) (c' : Store) :
    Prop :=
  ∀ fuel, w.length < fuel → Reads (Reading.references cfg fuel count?) w c n c'

section

variable {cfg : Config} {c c' : Store} {i count : Nat} {n n' : Node} {w : Text}

theorem Reads.repeated (hnode : c.table.node? i = .ok n) (hcount : CountAllowed cfg count) :
    Reads (Reading.repeated cfg (countRead count) i) [] c n (c.pushCopies (count - 1) n) := by
  have hresolve : Reads (Reading.resolve i) [] c n c := Reads.resolve hnode
  refine hresolve.step ((Reads.check (decide_eq_true hcount.countOr_le) _).step ?_)
  rw [hcount.getD_countRead]
  exact (Reads.pushCopies (count - 1) n c).step (Reads.pure n _)

namespace ReadsOn

/-- The upper-case letter is the last one. -/
theorem upper (hi : i < 26) (hnode : c.table.node? i = .ok n) (hcount : CountAllowed cfg count) :
    ReadsOn cfg (countRead count) [Text.upperLetter i] c n (c.pushCopies (count - 1) n) := by
  intro fuel hfuel
  obtain ⟨fuel, rfl⟩ : ∃ m, fuel = m + 1 := ⟨fuel - 1, by omega⟩
  obtain ⟨hlower, hupper, -, hindex, -⟩ := Text.upperLetter_spec hi
  refine Reads.peek ?_
  show Reads (if Text.isLower (Text.upperLetter i) = true then _ else _) _ _ _ _
  rw [if_neg (by rw [hlower]; decide), if_pos hupper, hindex]
  exact (Reads.advance [Text.upperLetter i] c).last (Reads.repeated hnode hcount)

/-- A lower-case letter is followed by more. -/
theorem lower (hi : i < 26) (hnode : c.table.node? i = .ok n) (hcount : CountAllowed cfg count)
    (h : ReadsOn cfg none w (c.pushCopies count n) n' c') :
    ReadsOn cfg (countRead count) (Text.lowerLetter i :: w) c n' c' := by
  intro fuel hfuel
  obtain ⟨fuel, rfl⟩ : ∃ m, fuel = m + 1 := ⟨fuel - 1, by omega⟩
  obtain ⟨hlower, -, hindex⟩ := Text.lowerLetter_spec hi
  have hw : w.length < fuel := by
    rw [List.length_cons] at hfuel
    omega
  refine Reads.peek ?_
  show Reads (if Text.isLower (Text.lowerLetter i) = true then _ else _) _ _ _ _
  rw [if_pos hlower, hindex]
  refine (Reads.advance [Text.lowerLetter i] c).bind ?_
  refine (Reads.repeated hnode hcount).step ((Reads.push n _).step ?_)
  rw [Store.push_pushCopies c hcount.pos]
  exact h fuel hw

/-- The mark of an entry without a letter. -/
theorem mark {count? : Option Nat} (hnode : c.table.node? (Reading.countOr count? + 27) = .ok n) :
    ReadsOn cfg count? ['_'] c n c := by
  intro fuel hfuel
  obtain ⟨fuel, rfl⟩ : ∃ m, fuel = m + 1 := ⟨fuel - 1, by omega⟩
  exact Reads.peek ((Reads.advance ['_'] c).last (Reads.resolve hnode))

/-- A number stands for how often the next reference is repeated. -/
private theorem reads_count {ch : CodePoint} {fuel : Nat} (k : Nat) (hch : Text.isDigit ch = false)
    (h : Reads (Reading.references cfg fuel (some k)) (ch :: w) c n c') : Reads (do
      match ← Reading.natural? with
      | some n => Reading.references cfg fuel (some n)
      | none => Reading.fail .badSubstitution) (Text.digits k ++ ch :: w) c n c' :=
  Reads.natural k hch h

/-- A numeral is the count of what follows it. -/
theorem numeral {ch : CodePoint} (k : Nat) (hch : Text.isDigit ch = false)
    (h : ReadsOn cfg (some k) (ch :: w) c n c') :
    ReadsOn cfg none (Text.digits k ++ ch :: w) c n c' := by
  intro fuel hfuel
  obtain ⟨fuel, rfl⟩ : ∃ m, fuel = m + 1 := ⟨fuel - 1, by omega⟩
  obtain ⟨d, ds, hds⟩ := List.exists_cons_of_ne_nil (Text.digits_ne_nil k)
  have hdigit : Text.isDigit d = true :=
    Text.isDigit_of_mem_digits (n := k) (by rw [hds]; exact List.mem_cons_self)
  have hfuel' : (ch :: w).length < fuel := by
    rw [List.length_append, hds, List.length_cons] at hfuel
    omega
  have hread := reads_count k hch (h fuel hfuel')
  rw [hds] at hread ⊢
  refine Reads.peek ?_
  show Reads (if Text.isLower d = true then _ else if Text.isUpper d = true then _
    else if d = '_' then _ else _) _ _ _ _
  obtain ⟨hlower, hupper⟩ := Text.not_letter_of_isDigit hdigit
  rw [if_neg (by rw [hlower]; decide), if_neg (by rw [hupper]; decide),
    if_neg (Text.ne_mark_of_isDigit hdigit)]
  exact hread

/-- A count goes with the letter behind it. -/
theorem countPrefix {ch : CodePoint} (hch : Text.isDigit ch = false)
    (h : ReadsOn cfg (countRead count) (ch :: w) c n c') :
    ReadsOn cfg none (countPrefix count ++ ch :: w) c n c' := by
  unfold SwiftABI.countPrefix
  unfold countRead at h
  split
  · rename_i hone
    rwa [if_pos hone] at h
  · rename_i hne
    rw [if_neg hne] at h
    exact numeral count hch h

end ReadsOn

/-! ### References as operators -/

theorem Reads.tableReference (h : ReadsOn cfg none w c n c') :
    Reads (Reading.tableReference cfg) w c n c' := by
  intro offset rest
  refine h ((w ++ rest).length + 1) ?_ offset rest
  rw [List.length_append]
  omega

theorem Parses.tableReference (h : ReadsOn cfg none w c n c') :
    Parses cfg ('A' :: w) c (c'.push n) :=
  .of_operator (by decide) (Reads.tableReference h)

/-- The number of an entry that has no letter is read as it is written. -/
theorem Parses.distantReference (hi : 26 ≤ i) (hnode : c.table.node? i = .ok n) :
    Parses cfg ('A' :: Code.index (i - 26 : Nat)) c (c.push n) := by
  refine .tableReference ?_
  rcases hk : i - 26 with _ | k
  · have hi' : (i : Int) = Reading.countOr none + 27 := by
      show (i : Int) = -1 + 27
      omega
    exact .mark (hi' ▸ hnode)
  · have hi' : (i : Int) = Reading.countOr (some k) + 27 := by
      show (i : Int) = (k : Int) + 27
      omega
    rw [Code.index_succ]
    exact .numeral k (by decide) (.mark (hi' ▸ hnode))

/-- A count within the limit is one that is read. -/
theorem CountAllowed.all_countRead (h : CountAllowed cfg count) :
    ((countRead count).all fun count => decide ((count : Int) ≤ cfg.maxRepeatCount)) = true := by
  unfold countRead
  split
  · rfl
  · exact decide_eq_true (h.limit ‹_›)

theorem Reads.standardReference {letter : CodePoint} (ht : Standard.type? letter = some n)
    (hcount : CountAllowed cfg count) :
    Reads (Reading.standardReference cfg) (countPrefix count ++ [letter]) c n
      (c.pushCopies (count - 1) n) := by
  obtain ⟨hspecial, hdigit⟩ := Standard.letter_spec ht
  -- What is left to do once the count has been read.
  have htail : Reads (do
      Reading.check ((countRead count).all fun count => (count : Int) ≤ cfg.maxRepeatCount)
        .repeatCount
      let t ← Reading.require (Standard.type? (← Reading.next)) .unknownStandard
      Reading.pushCopies ((countRead count).getD 0 - 1) t
      return t) [letter] c n (c.pushCopies (count - 1) n) := by
    refine (Reads.check hcount.all_countRead _).step ((Reads.next letter c).bind ?_)
    rw [ht, hcount.getD_countRead]
    exact (Reads.require_some n _).step ((Reads.pushCopies _ n c).step (Reads.pure n _))
  have hread : ∀ ch w, countPrefix count ++ [letter] = ch :: w →
      Reads (Reading.natural? >>= fun count => do
        Reading.check (count.all fun count => (count : Int) ≤ cfg.maxRepeatCount) .repeatCount
        let t ← Reading.require (Standard.type? (← Reading.next)) .unknownStandard
        Reading.pushCopies (count.getD 0 - 1) t
        return t) (ch :: w) c n (c.pushCopies (count - 1) n) := by
    intro ch w hw
    rw [← hw]
    unfold countPrefix countRead at *
    split
    · rename_i hone
      simp only [hone, if_true] at htail
      subst hone
      exact Reads.natural_none hdigit htail
    · rename_i hne
      simp only [hne, if_false] at htail
      exact Reads.natural count hdigit htail
  obtain ⟨ch, w, hw, hch⟩ : ∃ ch w, countPrefix count ++ [letter] = ch :: w ∧
      ch ∉ (['o', 'C', 'g'] : Text) := by
    unfold countPrefix
    split
    · exact ⟨letter, [], rfl, hspecial⟩
    · obtain ⟨d, ds, hds⟩ := List.exists_cons_of_ne_nil (Text.digits_ne_nil count)
      have hd : Text.isDigit d = true :=
        Text.isDigit_of_mem_digits (n := count) (by rw [hds]; exact List.mem_cons_self)
      refine ⟨d, ds ++ [letter], by rw [hds]; rfl, ?_⟩
      simp only [List.mem_cons, List.not_mem_nil, or_false]
      rintro (rfl | rfl | rfl) <;> exact absurd hd (by decide)
  have hrest := hread ch w hw
  rw [hw]
  simp only [List.mem_cons, List.not_mem_nil, or_false, not_or] at hch
  refine Reads.peek ?_
  split
  · rename_i h
    cases h
  · rename_i h
    exact absurd (Option.some.inj h) hch.1
  · rename_i h
    exact absurd (Option.some.inj h) hch.2.1
  · rename_i h
    exact absurd (Option.some.inj h) hch.2.2
  · exact hrest

/-- A letter of the standard library is read as the type that it stands for, as often as the count
in front of it says. -/
theorem Parses.standardReference {letter : CodePoint} (ht : Standard.type? letter = some n)
    (hcount : CountAllowed cfg count) :
    Parses cfg ('S' :: (countPrefix count ++ [letter])) c (c.pushCopies count n) := by
  have h : Parses cfg ('S' :: (countPrefix count ++ [letter])) c
      ((c.pushCopies (count - 1) n).push n) :=
    .of_operator (by decide) (Reads.standardReference ht hcount)
  rwa [Store.push_pushCopies c hcount.pos] at h

end

/-! ### The end of a text -/

/-- What a machine makes of a text, and what the state of merging knows of its end. The text stands
behind `offset` characters. -/
inductive Ending (cfg : Config) (start : Store) (offset : Nat) : Text → Merging → Store → Prop where
  /-- There is no substitution at the end that could be merged with. -/
  | closed {body : Text} {m : Merging} {c : Store} (h : Parses cfg body start c)
    (hm : m.count = 0 ∨ m.position + m.size < offset + body.length) :
    Ending cfg start offset body m c
  /-- At the end is a reference to the table. -/
  | table {head : Text} {m : Merging} {c : Store} {count i : Nat} {n : Node}
    (hhead : ∀ w n' c', ReadsOn cfg none w c n' c' → Parses cfg (head ++ w) start (c'.push n'))
    (hi : i < 26) (hnode : c.table.node? i = .ok n) (hcount : CountAllowed cfg count)
    (hm : m = ⟨offset + head.length, (countPrefix count).length + 1, count, .table⟩) :
    Ending cfg start offset (head ++ (countPrefix count ++ [Text.upperLetter i])) m
      (c.pushCopies count n)
  /-- At the end is a type of the standard library. -/
  | standard {body : Text} {m : Merging} {c : Store} {count : Nat} {letter : CodePoint} {t : Node}
    (h : Parses cfg body start c) (ht : Standard.type? letter = some t)
    (hcount : CountAllowed cfg count)
    (hm : m = ⟨offset + body.length + 1, (countPrefix count).length + 1, count, .standard⟩) :
    Ending cfg start offset (body ++ ('S' : CodePoint) :: (countPrefix count ++ [letter])) m
      (c.pushCopies count t)

namespace Ending

variable {cfg : Config} {start c c' : Store} {offset : Nat} {body w : Text} {m : Merging}

/-- A text is read as it should be, whatever its end. -/
theorem parses (h : Ending cfg start offset body m c) : Parses cfg body start c := by
  cases h with
  | closed h hm => exact h
  | @table head _ c count i n hhead hi hnode hcount hm =>
    have hread := hhead _ _ _
      (.countPrefix (Text.upperLetter_spec hi).2.2.1 (.upper hi hnode hcount))
    rwa [Store.push_pushCopies c hcount.pos] at hread
  | standard h ht hcount hm => exact h.trans (.standardReference ht hcount)

/-- The substitution at the end does not reach further than the text. -/
theorem position_add_size_le (h : Ending cfg start offset body m c) :
    m.count = 0 ∨ m.position + m.size ≤ offset + body.length := by
  cases h with
  | closed h hm => exact hm.imp_right Nat.le_of_lt
  | table hhead hi hnode hcount hm =>
    right
    rw [hm]
    simp only [List.length_append, List.length_singleton]
    omega
  | standard h ht hcount hm =>
    right
    rw [hm]
    simp only [List.length_append, List.length_cons, List.length_nil]
    omega

/-- Behind another operator nothing can be merged. -/
theorem append (h : Ending cfg start offset body m c) (hw : Parses cfg w c c') (hne : w ≠ []) :
    Ending cfg start offset (body ++ w) m c' := by
  refine .closed (h.parses.trans hw) (h.position_add_size_le.imp_right fun hle => ?_)
  have hpos : 0 < w.length := List.length_pos_iff.mpr hne
  rw [List.length_append]
  omega

/-! ### A further substitution -/

variable {pre : Text} {letter : CodePoint} {sign : SubstitutionSign} {i : Nat} {n : Node}

/-- A substitution that is open stands at the very end. -/
private theorem isOpen_iff :
    m.isOpen cfg (pre ++ body) sign = true ↔
      0 < m.count ∧ (m.count : Int) < cfg.maxRepeatCount ∧
        pre.length + body.length = m.position + m.size ∧ m.sign = sign := by
  simp [Merging.isOpen, and_assoc]

private theorem countPrefix_succ {count : Nat} (h : 0 < count) :
    countPrefix (count + 1) = Text.digits (count + 1) := if_neg (by omega)

/-- A reference that is not merged begins with the sign of the table. -/
theorem restart_table (h : Ending cfg start pre.length body m c) (hi : i < 26)
    (hnode : c.table.node? i = .ok n) (hlimit : -1 ≤ cfg.maxRepeatCount) :
    Ending cfg start pre.length (body ++ (['A'] : Text) ++ [Text.upperLetter i])
      (Merging.restart (pre ++ body) .table) (c.push n) := by
  refine .table (fun w n' c' hread => ?_) hi hnode (CountAllowed.one hlimit) ?_
  · rw [List.append_assoc]
    exact h.parses.trans (.tableReference hread)
  · simp [Merging.restart, countPrefix, Nat.add_assoc]

/-- A type of the standard library that is not merged begins with its sign. -/
theorem restart_standard (h : Ending cfg start pre.length body m c)
    (ht : Standard.type? letter = some n) (hlimit : -1 ≤ cfg.maxRepeatCount) :
    Ending cfg start pre.length (body ++ ('S' : CodePoint) :: [letter])
      (Merging.restart (pre ++ body) .standard) (c.push n) := by
  refine .standard h.parses ht (CountAllowed.one hlimit) ?_
  simp [Merging.restart, countPrefix]

/-- A reference to the table at the end of a text leads to a further node on the stack, whether it
is merged or not. -/
theorem write_table (h : Ending cfg start pre.length body m c) (hi : i < 26)
    (hnode : c.table.node? i = .ok n) (hlimit : -1 ≤ cfg.maxRepeatCount) :
    ∃ body', (m.write cfg (pre ++ body) [Text.upperLetter i] .table).1 = pre ++ body' ∧
      Ending cfg start pre.length body'
        (m.write cfg (pre ++ body) [Text.upperLetter i] .table).2 (c.push n) := by
  have hrestart := h.restart_table hi hnode hlimit
  unfold Merging.write Merging.merge
  by_cases hopen : m.isOpen cfg (pre ++ body) .table = true
  · rw [if_pos hopen]
    obtain ⟨hpos, hlt, hend, hsign⟩ := isOpen_iff.mp hopen
    cases h with
    | closed h hm => omega
    | standard h ht hcount hm =>
      rw [hm] at hsign
      cases hsign
    | @table head _ c count j n' hhead hj hnode' hcount hm =>
      have hlast : (pre ++ (head ++ (countPrefix count ++ [Text.upperLetter j]))).getLast?
          = some (Text.upperLetter j) := by simp
      rw [hlast]
      subst hm
      by_cases hsame : j = i
      · -- The same entry again: the count goes up.
        subst hsame
        have hnode'' : n' = n := Except.ok.inj (hnode'.symm.trans hnode)
        subst hnode''
        simp only [if_pos]
        refine ⟨head ++ (countPrefix (count + 1) ++ [Text.upperLetter j]), ?_, ?_⟩
        · rw [countPrefix_succ hcount.pos, ← List.append_assoc pre head, ← List.length_append,
            List.take_left, List.append_assoc, List.append_assoc]
        · refine .table hhead hi hnode' (hcount.succ hlt) ?_
          rw [countPrefix_succ hcount.pos, ← List.append_assoc pre head, ← List.length_append,
            List.take_left]
          simp only [List.length_append, List.length_singleton, Merging.mk.injEq, and_true,
            true_and]
          omega
      · -- Another entry: the last letter becomes a small one.
        have hne : ¬[Text.upperLetter j] = [Text.upperLetter i] := fun heq =>
          hsame (Text.upperLetter_injective hj hi (List.singleton_inj.mp heq))
        simp only [hne, if_false, reduceCtorEq]
        refine ⟨head ++ (countPrefix count ++ [Text.lowerLetter j])
          ++ (countPrefix 1 ++ [Text.upperLetter i]), ?_, ?_⟩
        · rw [(Text.upperLetter_spec hj).2.2.2.2, ← List.append_assoc pre head,
            ← List.append_assoc _ (countPrefix count), List.dropLast_concat]
          simp [countPrefix]
        · refine .table (fun w n'' c' hread => ?_) hi hnode (CountAllowed.one hlimit) ?_
          · have hlower := ReadsOn.lower hj hnode' hcount hread
            have hparses := hhead _ _ _ (.countPrefix (Text.lowerLetter_spec hj).2.1 hlower)
            simpa only [List.append_assoc, List.singleton_append] using hparses
          · simp [countPrefix]
  · rw [if_neg hopen]
    exact ⟨body ++ (['A'] : Text) ++
      [Text.upperLetter i], by simp [SubstitutionSign.char], hrestart⟩

/-- A type of the standard library at the end of a text leads to a further node on the stack,
whether it is merged or not. -/
theorem write_standard (h : Ending cfg start pre.length body m c)
    (ht : Standard.type? letter = some n) (hlimit : -1 ≤ cfg.maxRepeatCount) :
    ∃ body', (m.write cfg (pre ++ body) [letter] .standard).1 = pre ++ body' ∧
      Ending cfg start pre.length body' (m.write cfg (pre ++ body) [letter] .standard).2
        (c.push n) := by
  have hrestart := h.restart_standard ht hlimit
  unfold Merging.write Merging.merge
  by_cases hopen : m.isOpen cfg (pre ++ body) .standard = true
  · rw [if_pos hopen]
    obtain ⟨hpos, hlt, hend, hsign⟩ := isOpen_iff.mp hopen
    cases h with
    | closed h hm => omega
    | table hhead hi hnode hcount hm =>
      rw [hm] at hsign
      cases hsign
    | @standard body _ c count last t h ht' hcount hm =>
      have hconcat : pre ++ (body ++ ('S' : CodePoint) :: (countPrefix count ++ [last]))
          = pre ++ body ++ ('S' : CodePoint) :: countPrefix count ++ [last] := by simp
      have hlast : (pre ++ (body ++ ('S' : CodePoint) :: (countPrefix count ++ [last]))).getLast? =
          some last := by
        rw [hconcat, List.getLast?_concat]
      rw [hlast]
      subst hm
      by_cases hsame : last = letter
      · -- The same type again: the count goes up.
        subst hsame
        have hnode : t = n := Option.some.inj (ht'.symm.trans ht)
        subst hnode
        have htake : (pre ++ (body ++ ('S' : CodePoint) :: (countPrefix count ++ [last]))).take
            (pre.length + body.length + 1) = pre ++ body ++ (['S'] : Text) := by
          rw [← List.append_assoc, ← List.singleton_append (l := countPrefix count ++ [last]),
            ← List.append_assoc, ← List.length_append]
          exact List.take_left' (by simp [Nat.add_assoc])
        simp only [if_pos, htake]
        refine ⟨body ++ ('S' : CodePoint) :: (countPrefix (count + 1) ++ [last]), ?_, ?_⟩
        · rw [countPrefix_succ hcount.pos]
          simp
        · refine .standard h ht (hcount.succ hlt) ?_
          rw [countPrefix_succ hcount.pos]
          simp only [List.length_append, List.length_singleton, Merging.mk.injEq, and_true,
            true_and]
          omega
      · -- Letters of the standard library cannot be made small, so that nothing is merged.
        have hne : ¬[last] = [letter] := fun heq => hsame (List.singleton_inj.mp heq)
        simp only [hne, if_false, if_true]
        exact ⟨_, by simp [SubstitutionSign.char], hrestart⟩
  · rw [if_neg hopen]
    exact ⟨_, by simp [SubstitutionSign.char], hrestart⟩

end Ending

end SwiftABI
