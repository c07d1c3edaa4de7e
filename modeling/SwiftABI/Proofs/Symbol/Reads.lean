/-
  What a part of a symbol does, whatever follows it.

  A machine is a `Store` — its stack, its table and its words — with a text that is still to be
  read. `Reads x w c a c'` says that the steps `x`, begun in the store `c` before any text that
  begins with `w`, read exactly `w`, give `a` and leave the store `c'`. Such facts are put together
  along a sequence of steps, and there is one rule for each elementary step.

  `Parses w c c'` says the same of whole operators: a run that has `w` before it gets from `c` to
  `c'` and goes on behind it. Texts that are parsed one after the other are parsed together.
-/
import SwiftABI.Proofs.Node.Fits
import SwiftABI.Proofs.Symbol.Code
import SwiftABI.Symbol.Demangle

namespace SwiftABI

/-- What a machine has beside the text that it reads. -/
structure Store where
  stack : List Node := []
  table : SubstitutionTable := {}
  words : List Text := []

namespace Store

/-- The machine with this store before a text. -/
def machine (c : Store) (offset : Nat) (rest : Text) : Machine :=
  { offset, rest, stack := c.stack, table := c.table, words := c.words }

/-- The store with a node on its stack. -/
def push (c : Store) (n : Node) : Store := { c with stack := n :: c.stack }

end Store

/-- The steps read exactly the text `w`, whatever follows it. -/
def Reads {α : Type} (x : Reading α) (w : Text) (c : Store) (a : α) (c' : Store) : Prop :=
  ∀ offset rest,
    x (c.machine offset (w ++ rest)) = .ok (a, c'.machine (offset + w.length) rest)

namespace Reads

variable {α β : Type} {x : Reading α} {f : α → Reading β} {w w' : Text} {a : α} {b : β}
  {c c' c'' : Store} {ch : CodePoint}

/-! ### Sequences of steps -/

theorem pure (a : α) (c : Store) : Reads (Pure.pure a) [] c a c := fun _ _ => rfl

/-- A sequence reads what its steps read. -/
theorem bind (hx : Reads x w c a c') (hf : Reads (f a) w' c' b c'') :
    Reads (x >>= f) (w ++ w') c b c'' := by
  intro offset rest
  have h := hx offset (w' ++ rest)
  have h' := hf (offset + w.length) rest
  rw [List.append_assoc, List.length_append, ← Nat.add_assoc]
  show (x _ >>= fun p => f p.1 p.2) = _
  rw [h]
  exact h'

/-- A step that reads nothing is followed by the others. -/
theorem step (hx : Reads x [] c a c') (hf : Reads (f a) w c' b c'') :
    Reads (x >>= f) w c b c'' := hx.bind hf

/-- The last step may read nothing. -/
theorem last (hx : Reads x w c a c') (hf : Reads (f a) [] c' b c'') :
    Reads (x >>= f) w c b c'' := by
  have h := hx.bind hf
  rwa [List.append_nil] at h

theorem map (g : α → β) (hx : Reads x w c a c') : Reads (do return g (← x)) w c (g a) c' :=
  hx.last (pure (g a) c')

theorem require_some (a : α) (k : Complaint) : Reads (Reading.require (some a) k) [] c a c :=
  pure a c

theorem check {p : Bool} (h : p = true) (k : Complaint) : Reads (Reading.check p k) [] c () c := by
  subst h
  exact pure () c

/-- The steps may look at the machine, whatever follows the text that they read. -/
theorem get {f : Machine → Reading β}
    (h : ∀ offset rest, Reads (f (c.machine offset (w ++ rest))) w c b c') :
    Reads (MonadState.get >>= f) w c b c' := by
  intro offset rest
  exact h offset rest offset rest

/-! ### The text -/

/-- The next character is looked at, and left for the steps that follow. -/
theorem peek {f : Option CodePoint → Reading β} (hf : Reads (f (some ch)) (ch :: w) c b c') :
    Reads (Reading.peek? >>= f) (ch :: w) c b c' := fun offset rest => hf offset rest

theorem advance (w : Text) (c : Store) : Reads (Reading.advance w.length) w c () c := by
  intro offset rest
  have hlength : min w.length (w ++ rest).length = w.length := by
    rw [List.length_append]
    omega
  simp only [Reading.advance, Store.machine, hlength, List.drop_left]

theorem next (ch : CodePoint) (c : Store) : Reads Reading.next [ch] c ch c :=
  peek ((advance [ch] c).last (pure ch c))

/-- A character that comes next is read. -/
theorem nextIf (ch : CodePoint) (c : Store) : Reads (Reading.nextIf ch) [ch] c true c := by
  refine peek ?_
  rw [if_pos rfl]
  exact (advance [ch] c).last (pure true c)

/-- Another character is left for the steps that follow. -/
theorem nextIf_ne {f : Bool → Reading β} {other : CodePoint} (hne : ch ≠ other)
    (hf : Reads (f false) (ch :: w) c b c') :
    Reads (Reading.nextIf other >>= f) (ch :: w) c b c' := by
  intro offset rest
  have h : Reading.nextIf other (c.machine offset (ch :: w ++ rest))
      = .ok (false, c.machine offset (ch :: w ++ rest)) := by
    show (if some ch = some other then _ else _ : Reading Bool) _ = _
    rw [if_neg fun h => hne (Option.some.inj h)]
    rfl
  show (Reading.nextIf other _ >>= fun p => f p.1 p.2 : Except Malformed _) = _
  rw [h]
  exact hf offset rest

theorem natural?_apply (m : Machine) :
    Reading.natural? m = .ok
      (if (Text.spanDigits m.rest).1.isEmpty then none
        else some (Text.number (Text.spanDigits m.rest).1),
        { m with
          offset := m.offset + (Text.spanDigits m.rest).1.length
          rest := (Text.spanDigits m.rest).2 }) := rfl

/-- Digits are read up to the first character that is none. -/
theorem numeral {f : Option Nat → Reading β} {ds : Text} (hds : ∀ d ∈ ds, Text.isDigit d = true)
    (hne : ds ≠ [])
    (hch : Text.isDigit ch = false) (hf : Reads (f (some (Text.number ds))) (ch :: w) c b c') :
    Reads (Reading.natural? >>= f) (ds ++ ch :: w) c b c' := by
  intro offset rest
  have hspan : Text.spanDigits (ds ++ ch :: (w ++ rest)) = (ds, ch :: (w ++ rest)) :=
    Text.spanDigits_append hds fun d hd => by
      rw [← Option.some.inj hd]
      exact hch
  have h : Reading.natural? (c.machine offset (ds ++ ch :: w ++ rest))
      = .ok (some (Text.number ds), c.machine (offset + ds.length) (ch :: w ++ rest)) := by
    rw [natural?_apply]
    simp [Store.machine, hspan, hne]
  show (Reading.natural? _ >>= fun p => f p.1 p.2 : Except Malformed _) = _
  rw [h, List.length_append, ← Nat.add_assoc]
  exact hf (offset + ds.length) rest

/-- A number is read as it is written. -/
theorem natural {f : Option Nat → Reading β} (n : Nat) (hch : Text.isDigit ch = false)
    (hf : Reads (f (some n)) (ch :: w) c b c') :
    Reads (Reading.natural? >>= f) (Text.digits n ++ ch :: w) c b c' := by
  refine numeral (fun d hd => Text.isDigit_of_mem_digits hd) (Text.digits_ne_nil n) hch ?_
  rwa [Text.number_digits]

/-- Where no digit comes next, there is no numeral. -/
theorem natural_none {f : Option Nat → Reading β} (hch : Text.isDigit ch = false)
    (hf : Reads (f none) (ch :: w) c b c') :
    Reads (Reading.natural? >>= f) (ch :: w) c b c' := by
  intro offset rest
  have h : Reading.natural? (c.machine offset (ch :: w ++ rest))
      = .ok (none, c.machine offset (ch :: w ++ rest)) := by
    rw [natural?_apply]
    simp [Store.machine, Text.spanDigits, hch]
  show (Reading.natural? _ >>= fun p => f p.1 p.2 : Except Malformed _) = _
  rw [h]
  exact hf offset rest

/-- The number of an index, and the mark behind it. -/
private theorem indexDigits (n : Nat) (c : Store) : Reads (do
    match ← Reading.natural? with
    | some n => if ← Reading.nextIf '_' then return n + 1 else Reading.fail .badIndex
    | none => Reading.fail .badIndex) (Text.digits n ++ (['_'] : Text)) c (n + 1) c :=
  natural n (by decide) ((nextIf '_' c).last (pure (n + 1) c))

/-- An index is read as it is written. -/
theorem index (n : Nat) (c : Store) : Reads Reading.index (Code.index n) c n c := by
  cases n with
  | zero => exact (nextIf '_' c).last (pure 0 c)
  | succ n =>
    rw [Code.index_succ]
    obtain ⟨d, ds, hds⟩ := List.exists_cons_of_ne_nil (Text.digits_ne_nil n)
    have hd : d ≠ '_' := by
      intro h
      have hdigit := Text.isDigit_of_mem_digits (n := n) (c := d) (by rw [hds]; simp)
      rw [h] at hdigit
      exact absurd hdigit (by decide)
    have hbody := indexDigits n c
    rw [hds] at hbody ⊢
    exact nextIf_ne hd hbody

/-! ### Nodes -/

theorem build {k : Kind} {p : Payload} {cs : List Node} (h : (Node.mk k p cs).Fits) (c : Store) :
    Reads (Reading.build k p cs) [] c (.mk k p cs) c := by
  have hmake := Node.make_of_fits h
  unfold Reading.build
  rw [hmake]
  exact pure _ c

theorem node {k : Kind} {cs : List Node} (h : (Node.mk k .none cs).Fits) (c : Store) :
    Reads (Reading.node k cs) [] c (.mk k .none cs) c := build h c

theorem type {k : Kind} {cs : List Node} (h : (Node.mk k .none cs).Fits)
    (ht : k ∈ Kind.types) (c : Store) :
    Reads (Reading.type k cs) [] c (.typeOf (.mk k .none cs)) c :=
  (node h c).step (node (Node.fits_typeOf (n := .mk k .none cs) ht) c)

/-! ### The stack -/

variable {n : Node} {s : List Node} {table : SubstitutionTable} {words : List Text} {k : Kind}

theorem push (n : Node) (c : Store) : Reads (Reading.push n) [] c () (c.push n) :=
  fun _ _ => rfl

theorem popIf {p : Kind → Bool} (h : p n.kind = true) :
    Reads (Reading.popIf p) [] ⟨n :: s, table, words⟩ (some n) ⟨s, table, words⟩ := by
  intro offset rest
  simp only [Reading.popIf, Store.machine, h]
  rfl

theorem popIf_none {p : Kind → Bool} (h : ∀ n, s.head? = some n → p n.kind = false) :
    Reads (Reading.popIf p) [] ⟨s, table, words⟩ none ⟨s, table, words⟩ := by
  intro offset rest
  cases s with
  | nil => rfl
  | cons n s =>
    simp only [Reading.popIf, Store.machine, h n rfl]
    rfl

theorem pop? (h : n.kind = k) :
    Reads (Reading.pop? k) [] ⟨n :: s, table, words⟩ (some n) ⟨s, table, words⟩ :=
  popIf (decide_eq_true h)

/-- A node of another kind is left on the stack. -/
theorem pop?_none (h : ∀ n, s.head? = some n → n.kind ≠ k) :
    Reads (Reading.pop? k) [] ⟨s, table, words⟩ none ⟨s, table, words⟩ :=
  popIf_none fun n hn => decide_eq_false (h n hn)

theorem pop?_ne (h : n.kind ≠ k) :
    Reads (Reading.pop? k) [] ⟨n :: s, table, words⟩ none ⟨n :: s, table, words⟩ :=
  pop?_none fun m hm => by
    rw [← Option.some.inj hm]
    exact h

theorem popped (h : n.kind = k) :
    Reads (Reading.popped k) [] ⟨n :: s, table, words⟩ true ⟨s, table, words⟩ :=
  (pop? h).map Option.isSome

theorem popped_none (h : ∀ n, s.head? = some n → n.kind ≠ k) :
    Reads (Reading.popped k) [] ⟨s, table, words⟩ false ⟨s, table, words⟩ :=
  (pop?_none h).map Option.isSome

theorem popped_ne (h : n.kind ≠ k) :
    Reads (Reading.popped k) [] ⟨n :: s, table, words⟩ false ⟨n :: s, table, words⟩ :=
  (pop?_ne h).map Option.isSome

theorem popType (h : n.kind = .type) :
    Reads Reading.popType [] ⟨n :: s, table, words⟩ n ⟨s, table, words⟩ :=
  (pop? h).step (require_some n _)

theorem popTypeInside (h : n.kind = .type) :
    Reads Reading.popTypeInside [] ⟨n :: s, table, words⟩ n.unwrapped ⟨s, table, words⟩ :=
  (popType h).map Node.unwrapped

theorem popNominal (h : n.kind = .type) (hn : n.unwrapped.kind.isAnyGeneric = true) :
    Reads Reading.popNominal [] ⟨n :: s, table, words⟩ n.unwrapped ⟨s, table, words⟩ :=
  (popTypeInside h).step ((check hn _).step (pure _ _))

theorem popDeclName (h : n.kind.isDeclName = true) :
    Reads Reading.popDeclName [] ⟨n :: s, table, words⟩ n ⟨s, table, words⟩ :=
  (popIf h).step (require_some n _)

theorem popEntity (h : n.kind.isEntity = true) :
    Reads Reading.popEntity [] ⟨n :: s, table, words⟩ n ⟨s, table, words⟩ :=
  (popIf h).step (require_some n _)

/-! ### The table -/

theorem register {table' : SubstitutionTable} (h : table.register n false = .ok table') :
    Reads (Reading.register n) [] ⟨s, table, words⟩ () ⟨s, table', words⟩ := by
  intro offset rest
  simp only [Reading.register, Store.machine, h]
  rfl

theorem resolve {i : Int} (h : table.node? i = .ok n) :
    Reads (Reading.resolve i) [] ⟨s, table, words⟩ n ⟨s, table, words⟩ := by
  refine get fun offset rest => ?_
  simp only [Store.machine, h]
  exact pure n _

end Reads

/-! ### Runs of operators -/

/-- A run of operators that has the text `w` before it gets from one store to another and goes on
behind the text. -/
def Parses (cfg : Config) (w : Text) (c c' : Store) : Prop :=
  ∃ count ≤ w.length, ∀ fuel offset rest,
    Machine.steps cfg (fuel + count) (c.machine offset (w ++ rest))
      = Machine.steps cfg fuel (c'.machine (offset + w.length) rest)

namespace Parses

variable {cfg : Config} {w w' : Text} {c c' c'' : Store}

theorem refl (cfg : Config) (c : Store) : Parses cfg [] c c := ⟨0, Nat.le_refl 0, fun _ _ _ => rfl⟩

theorem trans (h : Parses cfg w c c') (h' : Parses cfg w' c' c'') : Parses cfg (w ++ w') c c'' := by
  obtain ⟨count, hcount, hsteps⟩ := h
  obtain ⟨count', hcount', hsteps'⟩ := h'
  refine ⟨count' + count, by rw [List.length_append]; omega, ?_⟩
  intro fuel offset rest
  rw [← Nat.add_assoc, List.append_assoc, hsteps, hsteps', List.length_append, Nat.add_assoc]

/-- One operator is a run. -/
theorem of_step {ch : CodePoint} (h : Reads (Reading.step cfg) (ch :: w) c () c') :
    Parses cfg (ch :: w) c c' := by
  refine ⟨1, by simp, ?_⟩
  intro fuel offset rest
  have hstep := h offset rest
  show (if (ch :: w ++ rest).isEmpty then _ else _) = _
  rw [if_neg (by simp), hstep]
  rfl

/-- An operator with a letter pushes the node that it makes. -/
theorem of_operator {ch : CodePoint} {n : Node} (hch : Text.isDigit ch = false)
    (h : Reads (Reading.operator cfg ch) w c n c') : Parses cfg (ch :: w) c (c'.push n) := by
  refine of_step (Reads.peek ?_)
  show Reads (if Text.isDigit ch = true then _ else _) _ _ _ _
  rw [if_neg (by rw [hch]; decide)]
  exact (Reads.advance [ch] c).bind (h.last (Reads.push n c'))

/-- An identifier pushes its name. -/
theorem of_identifier {ch : CodePoint} {n : Node} (hch : Text.isDigit ch = true)
    (h : Reads (Reading.identifier cfg) (ch :: w) c n c') :
    Parses cfg (ch :: w) c (c'.push n) := by
  refine of_step (Reads.peek ?_)
  show Reads (if Text.isDigit ch = true then _ else _) _ _ _ _
  rw [if_pos hch]
  exact h.last (Reads.push n c')

/-- A run over a whole text ends in the store that the text leads to. -/
theorem run_eq (h : Parses cfg w c c') (offset : Nat) :
    (c.machine offset w).run cfg = .ok (c'.machine (offset + w.length) []) := by
  obtain ⟨count, hcount, hsteps⟩ := h
  have hrun := hsteps (w.length - count) offset []
  rw [List.append_nil, Nat.sub_add_cancel hcount] at hrun
  show Machine.steps cfg w.length _ = _
  rw [hrun]
  cases w.length - count <;> rfl

/-- A text leads to one store only. -/
theorem unique {c'' : Store} (h : Parses cfg w c c') (h' : Parses cfg w c c'') : c' = c'' := by
  have hrun := (h.run_eq 0).symm.trans (h'.run_eq 0)
  injection hrun with hmachine
  injection hmachine with _ _ hstack htable hwords
  cases c'
  cases c''
  cases hstack
  cases htable
  cases hwords
  rfl

/-- A run over nothing changes nothing. -/
theorem eq_of_nil (h : Parses cfg [] c c') : c' = c := h.unique (refl cfg c)

end Parses

end SwiftABI
