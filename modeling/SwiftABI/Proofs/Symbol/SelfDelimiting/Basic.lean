/-
  Where an operator ends is decided by the operator alone.

  Steps look ahead: at the next character, and at all digits that come next. `SelfDelimiting` says
  that this makes no difference where the steps go well: what they have read, they would have read
  in front of any other text, with the same result. A look ahead is harmless if whatever follows it
  fails at the end of the text (`FailsAtEnd`), for then the text that is read goes at least as far
  as the look.

  Steps with fuel are given as much of it as the text is long, and the text in front of something
  else may be a longer one. So the rules are about two ways of reading, the one that goes well and
  the one in front of something else (`Delimits`), which may have different fuel, as long as it is
  more than what is read.
-/
import SwiftABI.Proofs.Symbol.OnStore
import SwiftABI.Proofs.Text.Pieces

namespace SwiftABI

variable {α β : Type} {cfg : Config} {x : Reading α} {f : α → Reading β}

/-- If the steps `x` go well before a text that begins with `pre`, then they read that and a further
part of the text. With more fuel than the further part is long, the steps `y` read the same in front
of anything else. -/
def Delimits (pre : Text) (x : Reading α) (y : Nat → Reading α) : Prop :=
  ∀ c offset t a m, x (c.machine offset (pre ++ t)) = .ok (a, m) →
    ∃ w rest c', t = w ++ rest ∧ m = c'.machine (offset + (pre ++ w).length) rest ∧
      ∀ fuel, w.length < fuel → Reads (y fuel) (pre ++ w) c a c'

/-- If the steps go well, then they read a part of the text as they would read it in front of
anything else. -/
def SelfDelimiting (x : Reading α) : Prop := Delimits [] x fun _ => x

/-- The same of steps that begin in front of a character, and read at least that. -/
def SelfDelimitingAt (ch : CodePoint) (x : Reading α) : Prop := Delimits [ch] x fun _ => x

/-- The steps do not go well at the end of the text. -/
def FailsAtEnd (x : Reading α) : Prop := ∀ (c : Store) offset r, x (c.machine offset []) ≠ .ok r

/-- If a sequence goes well, all of its steps do. -/
theorem Reading.bind_eq_ok {m : Machine} {r : β × Machine} (h : (x >>= f) m = .ok r) :
    ∃ a m', x m = .ok (a, m') ∧ f a m' = .ok r := by
  change (x m >>= fun p => f p.1 p.2 : Except Malformed (β × Machine)) = .ok r at h
  rcases hx : x m with e | ⟨a, m'⟩
  · rw [hx] at h
    cases h
  · rw [hx] at h
    exact ⟨a, m', rfl, h⟩

/-- What some steps read shows in the machine that they lead to. -/
theorem Reads.delimits {w : Text} {c c' : Store} {a a' : α} {offset : Nat} {m : Machine}
    (hreads : Reads x w c a c') (rest : Text) (h : x (c.machine offset (w ++ rest)) = .ok (a', m)) :
    a' = a ∧ m = c'.machine (offset + w.length) rest := by
  rw [hreads offset rest] at h
  cases h
  exact ⟨rfl, rfl⟩

/-! ### Sequences of steps -/

namespace Delimits

variable {pre : Text} {y : Nat → Reading α}

/-- Steps that do without fuel. -/
theorem of_succ (hx : Delimits pre x fun _ => x) (hy : ∀ fuel, y (fuel + 1) = x) :
    Delimits pre x y := by
  intro c offset t a m h
  obtain ⟨w, rest, c', ht, hm, hreads⟩ := hx c offset t a m h
  refine ⟨w, rest, c', ht, hm, fun fuel hfuel => ?_⟩
  obtain ⟨fuel, rfl⟩ := Nat.exists_eq_succ_of_ne_zero (Nat.ne_zero_of_lt hfuel)
  rw [hy]
  exact hreads _ hfuel

/-- More fuel makes no difference. -/
theorem succ (hx : Delimits pre x y) : Delimits pre x fun fuel => y (fuel + 1) := by
  intro c offset t a m h
  obtain ⟨w, rest, c', ht, hm, hreads⟩ := hx c offset t a m h
  exact ⟨w, rest, c', ht, hm, fun fuel hfuel => hreads (fuel + 1) (Nat.lt_succ_of_lt hfuel)⟩

theorem bind {g : α → Nat → Reading β} (hx : Delimits pre x y) (hf : ∀ a, Delimits [] (f a) (g a)) :
    Delimits pre (x >>= f) fun fuel => y fuel >>= fun a => g a fuel := by
  intro c offset t b m h
  obtain ⟨a, m', hfirst, hrest⟩ := Reading.bind_eq_ok h
  obtain ⟨w, t', c', rfl, rfl, hreads⟩ := hx c offset t a m' hfirst
  obtain ⟨w', rest, c'', rfl, rfl, hreads'⟩ := hf a c' _ t' b m hrest
  refine ⟨w ++ w', rest, c'', (List.append_assoc _ _ _).symm, ?_, fun fuel hfuel => ?_⟩
  · show c''.machine (offset + (pre ++ w).length + w'.length) rest = _
    rw [Nat.add_assoc, ← List.length_append, List.append_assoc]
  · rw [List.length_append] at hfuel
    rw [← List.append_assoc]
    exact (hreads fuel (by omega)).bind (hreads' fuel (by omega))

theorem ite {p : Prop} [Decidable p] {x' : Reading α} {y' : Nat → Reading α} (hx : Delimits pre x y)
    (hx' : Delimits pre x' y') :
    Delimits pre (if p then x else x') fun fuel => if p then y fuel else y' fuel := by
  split
  · exact hx
  · exact hx'

end Delimits

namespace SelfDelimiting

theorem reads (hx : SelfDelimiting x) {c : Store} {offset : Nat} {t : Text} {a : α} {m : Machine}
    (h : x (c.machine offset t) = .ok (a, m)) :
    ∃ w rest c', t = w ++ rest ∧ m = c'.machine (offset + w.length) rest ∧ Reads x w c a c' := by
  obtain ⟨w, rest, c', ht, hm, hreads⟩ := hx c offset t a m h
  exact ⟨w, rest, c', ht, hm, hreads _ (Nat.lt_succ_self _)⟩

theorem of_reads (h : ∀ c offset t a m, x (c.machine offset t) = .ok (a, m) →
    ∃ w rest c', t = w ++ rest ∧ m = c'.machine (offset + w.length) rest ∧ Reads x w c a c') :
    SelfDelimiting x := by
  intro c offset t a m hx
  obtain ⟨w, rest, c', ht, hm, hreads⟩ := h c offset t a m hx
  exact ⟨w, rest, c', ht, hm, fun _ _ => hreads⟩

/-- Steps on the store end alike in front of all texts. -/
theorem of_onStore (hx : OnStore x) : SelfDelimiting x := by
  refine of_reads fun c offset t a m h => ?_
  rcases hx c with ⟨a', c', hreads⟩ | ⟨k, hfail⟩
  · obtain ⟨rfl, rfl⟩ := hreads.delimits t h
    exact ⟨[], t, c', rfl, rfl, hreads⟩
  · cases (hfail offset t).symm.trans h

theorem pure (a : α) : SelfDelimiting (Pure.pure a : Reading α) := of_onStore (.pure a)

theorem fail (k : Complaint) : SelfDelimiting (Reading.fail k : Reading α) := nofun

theorem bind (hx : SelfDelimiting x) (hf : ∀ a, SelfDelimiting (f a)) : SelfDelimiting (x >>= f) :=
  Delimits.bind hx hf

/-- Steps on the store follow. -/
theorem before (hx : SelfDelimiting x) (hf : ∀ a, OnStore (f a)) : SelfDelimiting (x >>= f) :=
  hx.bind fun a => of_onStore (hf a)

theorem ite {p : Prop} [Decidable p] {y : Reading α} (hx : SelfDelimiting x)
    (hy : SelfDelimiting y) :
    SelfDelimiting (if p then x else y) := Delimits.ite hx hy

/-- The steps behind a check may rest on it. -/
theorem guard {b : Bool} {k : Complaint} {f : Unit → Reading β}
    (h : b = true → SelfDelimiting (f ())) :
    SelfDelimiting (Reading.check b k >>= f) := by
  cases b with
  | false => exact nofun
  | true => exact (pure ()).bind fun _ => h rfl

end SelfDelimiting

namespace FailsAtEnd

theorem fail (k : Complaint) : FailsAtEnd (Reading.fail k : Reading α) := nofun

/-- The end of the text is still there after steps that go well. -/
theorem bind (hx : SelfDelimiting x) (hf : ∀ a, FailsAtEnd (f a)) : FailsAtEnd (x >>= f) := by
  intro c offset r h
  obtain ⟨a, m', hfirst, hrest⟩ := Reading.bind_eq_ok h
  obtain ⟨w, t, c', hnil, rfl, -⟩ := hx.reads hfirst
  obtain ⟨-, rfl⟩ := List.append_eq_nil_iff.mp hnil.symm
  exact hf a c' _ r hrest

theorem guard {b : Bool} {k : Complaint} {f : Unit → Reading β} (h : b = true → FailsAtEnd (f ())) :
    FailsAtEnd (Reading.check b k >>= f) := by
  cases b with
  | false => exact nofun
  | true => exact fun c offset r hr => h rfl c offset r hr

theorem left (hx : FailsAtEnd x) : FailsAtEnd (x >>= f) := by
  intro c offset r h
  obtain ⟨a, m', hfirst, -⟩ := Reading.bind_eq_ok h
  exact hx c offset _ hfirst

theorem peek {f : Option CodePoint → Reading β} (h : FailsAtEnd (f none)) :
    FailsAtEnd (Reading.peek? >>= f) :=
  fun c offset r => h c offset r

theorem next : FailsAtEnd Reading.next := peek (fail _)

theorem nextIf {ch : CodePoint} {f : Bool → Reading β} (h : FailsAtEnd (f false)) :
    FailsAtEnd (Reading.nextIf ch >>= f) := fun c offset r => h c offset r

theorem natural {f : Option Nat → Reading β} (h : FailsAtEnd (f none)) :
    FailsAtEnd (Reading.natural? >>= f) := fun c offset r => h c offset r

theorem index : FailsAtEnd Reading.index := nextIf (natural (fail _))

end FailsAtEnd

/-! ### The text -/

/-- The digits that come next are passed. -/
theorem Reading.natural?_bind_eq_ok {f : Option Nat → Reading β} {c : Store} {offset : Nat}
    {t : Text} {r : β × Machine} (h : (Reading.natural? >>= f) (c.machine offset t) = .ok r) :
    ∃ ds t', t = ds ++ t' ∧ (∀ d ∈ ds, Text.isDigit d = true) ∧
      (∀ ch, t'.head? = some ch → Text.isDigit ch = false) ∧
      f (if ds.isEmpty then none else some (Text.number ds))
      (c.machine (offset + ds.length) t') = .ok r := by
  obtain ⟨n?, m, hnatural, hrest⟩ := Reading.bind_eq_ok h
  rw [Reads.natural?_apply] at hnatural
  cases hnatural
  obtain ⟨ht, hdigits, hhead⟩ := Text.spanDigits_spec t
  exact ⟨_, _, ht, hdigits, hhead, hrest⟩

namespace Delimits

variable {pre : Text} {ch other : CodePoint} {y : Nat → Reading α}

/-- Steps that do not go well at the end of the text go well in front of a character only. -/
theorem of_at (hend : FailsAtEnd x) (h : ∀ ch, Delimits [ch] x fun fuel => y (fuel + 1)) :
    Delimits [] x y := by
  intro c offset t a m hx
  rcases t with _ | ⟨ch, t⟩
  · exact absurd hx (hend c offset _)
  · obtain ⟨w, rest, c', rfl, hm, hreads⟩ := h ch c offset t a m hx
    -- The fuel that is more is for the character.
    refine ⟨ch :: w, rest, c', rfl, hm, fun fuel hfuel => ?_⟩
    obtain ⟨fuel, rfl⟩ := Nat.exists_eq_succ_of_ne_zero (Nat.ne_zero_of_lt hfuel)
    exact hreads fuel (Nat.lt_of_succ_lt_succ hfuel)

/-- Steps that would not go well at the end of the text read the next character. -/
theorem of_failsAtEnd (hx : Delimits [] x y) (hend : ∀ fuel, FailsAtEnd (y fuel)) :
    Delimits [ch] x fun fuel => y (fuel + 1) := by
  intro c offset t a m h
  obtain ⟨w, rest, c', ht, hm, hreads⟩ := hx c offset (ch :: t) a m h
  rcases w with _ | ⟨ch', w⟩
  · -- Steps that read nothing would go well at the end, too.
    exact absurd (hreads 1 Nat.one_pos offset []) (hend 1 c offset _)
  · obtain ⟨rfl, rfl⟩ := List.cons_eq_cons.mp ht
    exact ⟨w, rest, c', rfl, hm, fun fuel hfuel => hreads (fuel + 1) (Nat.succ_lt_succ hfuel)⟩

theorem pass : Delimits [ch] (Reading.advance 1) fun _ => Reading.advance 1 := by
  intro c offset t a m h
  have hreads : Reads (Reading.advance 1) [ch] c () c := Reads.advance [ch] c
  obtain ⟨rfl, rfl⟩ := hreads.delimits t h
  exact ⟨[], t, c, rfl, rfl, fun _ _ => hreads⟩

theorem peek {f : Option CodePoint → Reading β} {g : Option CodePoint → Nat → Reading β}
    (h : Delimits [ch] (f (some ch)) (g (some ch))) :
    Delimits [ch] (Reading.peek? >>= f) fun fuel => Reading.peek? >>= fun c? => g c? fuel := by
  intro c offset t b m hpeek
  obtain ⟨w, rest, c', ht, hm, hreads⟩ := h c offset t b m hpeek
  exact ⟨w, rest, c', ht, hm, fun fuel hfuel => Reads.peek (hreads fuel hfuel)⟩

/-- A letter that comes next is read. -/
theorem letter {f : Option CodePoint → Reading β} {g : Option CodePoint → Nat → Reading β}
    (hletter : Delimits [] (f (some ch)) (g (some ch))) (hother : Delimits [ch] (f none) (g none)) :
    Delimits [ch] (Reading.letter? >>= f) fun fuel => Reading.letter? >>= fun c? => g c? fuel := by
  unfold Reading.letter?
  simp only [bind_assoc]
  refine peek ?_
  by_cases hch : (Text.isLower ch || Text.isUpper ch) = true
  · simp only [if_pos hch, bind_assoc, pure_bind]
    exact .bind .pass fun _ => hletter
  · simp only [if_neg hch, pure_bind]
    exact hother

/-- A character that may come next is read, or else the steps that follow read another one. -/
theorem nextIf {f : Bool → Reading β} {g : Bool → Nat → Reading β}
    (htrue : Delimits [] (f true) (g true)) (hfalse : Delimits [ch] (f false) (g false)) :
    Delimits [ch] (Reading.nextIf other >>= f) fun fuel => Reading.nextIf other >>= fun b =>
      g b fuel := by
  unfold Reading.nextIf
  simp only [bind_assoc]
  refine peek ?_
  by_cases hch : some ch = some other
  · simp only [if_pos hch, bind_assoc, pure_bind]
    exact .bind .pass fun _ => htrue
  · simp only [if_neg hch, pure_bind]
    exact hfalse

/-- Digits that may come next are read, and the steps that follow read what ends them. -/
theorem natural {f : Option Nat → Reading β} {g : Option Nat → Nat → Reading β}
    (hnone : Delimits [ch] (f none) (g none)) (hsome : ∀ n, Delimits [] (f (some n)) (g (some n)))
    (hend : ∀ n fuel, FailsAtEnd (g (some n) fuel)) :
    Delimits [ch] (Reading.natural? >>= f) fun fuel => Reading.natural? >>= fun n? =>
      g n? fuel := by
  intro c offset t b m h
  obtain ⟨ds, t', ht, hdigits, hhead, hrest⟩ := Reading.natural?_bind_eq_ok h
  rcases ds with _ | ⟨d, ds⟩
  · obtain rfl : ch :: t = t' := ht
    obtain ⟨w, rest, c', ht, hm, hreads⟩ := hnone c offset t b m hrest
    exact ⟨w, rest, c', ht, hm,
      fun fuel hfuel => Reads.natural_none (hhead ch rfl) (hreads fuel hfuel)⟩
  · obtain ⟨rfl, rfl⟩ := List.cons_eq_cons.mp ht
    obtain ⟨w, rest, c', rfl, rfl, hreads⟩ := hsome (Text.number (ch :: ds)) c _ t' b m hrest
    refine ⟨ds ++ w, rest, c', (List.append_assoc _ _ _).symm, ?_, fun fuel hfuel => ?_⟩
    · show c'.machine (offset + (ch :: ds).length + w.length) rest =
        c'.machine (offset + (ch :: ds ++ w).length) rest
      rw [List.length_append, Nat.add_assoc]
    · have hfuel' : w.length < fuel := by
        rw [List.length_append] at hfuel
        omega
      -- What ends the numeral belongs to what is read behind it, which is not empty.
      rcases w with _ | ⟨ch', w⟩
      · exact absurd (hreads fuel hfuel' 0 []) (hend _ fuel c 0 _)
      · exact Reads.numeral hdigits (List.cons_ne_nil _ _) (hhead ch' rfl) (hreads fuel hfuel')

/-- The length of the text is fuel enough. -/
theorem selfDelimiting (h : ∀ fuel, Delimits [] (y (fuel + 1)) y) :
    SelfDelimiting (do y ((← MonadState.get).rest.length + 1)) := by
  refine .of_reads fun c offset t a m hy => ?_
  obtain ⟨w, rest, c', rfl, rfl, hreads⟩ := h _ c offset t a m hy
  refine ⟨w, rest, c', rfl, rfl, Reads.get fun offset' rest' => hreads _ ?_⟩
  show w.length < (w ++ rest').length + 1
  rw [List.length_append]
  omega

end Delimits

namespace SelfDelimitingAt

variable {ch : CodePoint}

theorem reads (hx : SelfDelimitingAt ch x) {c : Store} {offset : Nat} {t : Text} {a : α}
    {m : Machine} (h : x (c.machine offset (ch :: t)) = .ok (a, m)) :
    ∃ w rest c', t = w ++ rest ∧ m = c'.machine (offset + (ch :: w).length) rest ∧
      Reads x (ch :: w) c a c' := by
  obtain ⟨w, rest, c', ht, hm, hreads⟩ := hx c offset t a m h
  exact ⟨w, rest, c', ht, hm, hreads _ (Nat.lt_succ_self _)⟩

theorem of_failsAtEnd (hx : SelfDelimiting x) (hend : FailsAtEnd x) : SelfDelimitingAt ch x :=
  Delimits.of_failsAtEnd hx fun _ => hend

theorem advance {g : Unit → Reading β} (h : SelfDelimiting (g ())) :
    SelfDelimitingAt ch (Reading.advance 1 >>= g) := Delimits.pass.bind fun _ => h

theorem ite {p : Prop} [Decidable p] {y : Reading α} (hx : SelfDelimitingAt ch x)
    (hy : SelfDelimitingAt ch y) :
    SelfDelimitingAt ch (if p then x else y) := Delimits.ite hx hy

end SelfDelimitingAt

namespace SelfDelimiting

theorem peek {f : Option CodePoint → Reading β} (hnone : FailsAtEnd (f none))
    (hsome : ∀ ch, SelfDelimitingAt ch (f (some ch))) : SelfDelimiting (Reading.peek? >>= f) :=
  Delimits.of_at (.peek hnone) fun ch => .peek (hsome ch)

theorem next : SelfDelimiting Reading.next := peek (FailsAtEnd.fail _) fun ch => .advance (pure ch)

theorem nextIf {ch : CodePoint} {f : Bool → Reading β} (htrue : SelfDelimiting (f true))
    (hfalse : SelfDelimiting (f false)) (hend : FailsAtEnd (f false)) :
    SelfDelimiting (Reading.nextIf ch >>= f) :=
  Delimits.of_at (.nextIf hend) fun _ => .nextIf htrue (.of_failsAtEnd hfalse fun _ => hend)

theorem natural {f : Option Nat → Reading β} (hf : ∀ n?, SelfDelimiting (f n?))
    (hend : ∀ n?, FailsAtEnd (f n?)) :
    SelfDelimiting (Reading.natural? >>= f) :=
  Delimits.of_at (.natural (hend none)) fun _ =>
    .natural (.of_failsAtEnd (hf none) fun _ => hend none) (fun n => hf (some n)) fun n _ =>
      hend (some n)

theorem index : SelfDelimiting Reading.index := by
  refine nextIf (pure 0) (natural (fun n? => ?_) fun n? => ?_)
    (FailsAtEnd.natural (FailsAtEnd.fail _))
  all_goals cases n?
  · exact fail _
  · exact nextIf (pure _) (fail _) (FailsAtEnd.fail _)
  · exact FailsAtEnd.fail _
  · exact FailsAtEnd.nextIf (FailsAtEnd.fail _)

end SelfDelimiting

end SwiftABI
