/-
  A body is read alike wherever it begins.

  The machine counts the characters that it has read, and names that number in its complaints.
  Nothing else depends on it: a step that is `Relative` does the same on a machine that has read `d`
  characters more, and ends with an offset that is greater by `d`. Every operator is
  (`Relative.operator`), and so is a whole run (`Machine.run_shift`).

  The prefixes of symbols differ in their lengths and in nothing else (`prefixIndependent`). A
  symbol without a prefix is the bare name of a type, if it leaves a single node.
-/
import SwiftABI.Proofs.Symbol.OperatorLaw
import SwiftABI.Proofs.Symbol.Soundness.Run
import SwiftABI.Symbol.Mangle

namespace SwiftABI

/-! ### Shifts -/

/-- The machine after `d` more characters. -/
def Machine.shift (d : Nat) (m : Machine) : Machine := { m with offset := m.offset + d }

/-- The complaint at an offset that is greater by `d`. -/
def Malformed.shift (d : Nat) (e : Malformed) : Malformed := { e with offset := e.offset + d }

/-- How a reading ends after `d` more characters, if `g` moves what it ends with. -/
def shiftEnd {α : Type} (d : Nat) (g : α → α) : Except Malformed α → Except Malformed α
  | .ok a => .ok (g a)
  | .error e => .error (e.shift d)

/-- The steps do the same after any number of characters. -/
def Relative {α : Type} (x : Reading α) : Prop :=
  ∀ d m, x (m.shift d) = shiftEnd d (fun r => (r.1, r.2.shift d)) (x m)

namespace Relative

variable {α β : Type} {x : Reading α} {f : α → Reading β} {cfg : Config}

/-! ### Sequences of steps -/

/-- Steps on the store end alike in front of all texts, and so at all offsets. -/
theorem of_onStore (hx : OnStore x) : Relative x := by
  intro d m
  rcases hx ⟨m.stack, m.table, m.words⟩ with ⟨a, c', hreads⟩ | ⟨k, hfail⟩
  · have hhere : x m = .ok (a, c'.machine m.offset m.rest) := hreads m.offset m.rest
    have hthere : x (m.shift d) = .ok (a, c'.machine (m.offset + d) m.rest) :=
      hreads (m.offset + d) m.rest
    rw [hhere, hthere]
    rfl
  · have hhere : x m = .error ⟨k, m.offset⟩ := hfail m.offset m.rest
    have hthere : x (m.shift d) = .error ⟨k, m.offset + d⟩ := hfail (m.offset + d) m.rest
    rw [hhere, hthere]
    rfl

theorem pure (a : α) : Relative (Pure.pure a : Reading α) := of_onStore (.pure a)

theorem fail (c : Complaint) : Relative (Reading.fail c : Reading α) := of_onStore (.fail c)

theorem bind (hx : Relative x) (hf : ∀ a, Relative (f a)) : Relative (x >>= f) := by
  intro d m
  show (x (m.shift d) >>= fun r => f r.1 r.2 : Except Malformed (β × Machine))
    = shiftEnd d (fun r => (r.1, r.2.shift d)) (x m >>= fun r => f r.1 r.2)
  rw [hx d m]
  rcases x m with e | ⟨a, m'⟩
  · rfl
  · exact hf a d m'

/-- Steps on the store follow. -/
theorem before (hx : Relative x) (hf : ∀ a, OnStore (f a)) :
    Relative (x >>= f) := hx.bind fun a => of_onStore (hf a)

theorem map (hx : Relative x) (g : α → β) :
    Relative (do return g (← x)) := hx.before fun _ => .pure _

theorem ite {c : Prop} [Decidable c] {y : Reading α} (hx : Relative x) (hy : Relative y) :
    Relative (if c then x else y) := by
  split
  · exact hx
  · exact hy

/-- The steps may look at the machine, but not at the number of characters. -/
theorem get {f : Machine → Reading β} (hlook : ∀ d m, f (Machine.shift d m) = f m)
    (hf : ∀ m, Relative (f m)) : Relative (MonadState.get >>= f) := by
  intro d m
  show f (m.shift d) (m.shift d) = shiftEnd d (fun r => (r.1, r.2.shift d)) (f m m)
  rw [hlook]
  exact hf m d m

/-! ### The text -/

theorem peek? : Relative Reading.peek? := fun _ _ => rfl

theorem advance (n : Nat) : Relative (Reading.advance n) := by
  intro d m
  show Except.ok ((), _) = Except.ok ((), _)
  rw [show (m.shift d).rest = m.rest from rfl, show (m.shift d).offset = m.offset + d from rfl,
    Nat.add_right_comm]
  rfl

theorem digits : Relative Reading.digits := by
  intro d m
  show Except.ok (_, _) = Except.ok (_, _)
  rw [show (m.shift d).rest = m.rest from rfl, show (m.shift d).offset = m.offset + d from rfl,
    Nat.add_right_comm]
  rfl

theorem next : Relative Reading.next := by
  refine peek?.bind fun c? => ?_
  cases c? with
  | none => exact fail _
  | some c => exact (advance 1).before fun _ => .pure c

theorem nextIf (c : CodePoint) : Relative (Reading.nextIf c) :=
  peek?.bind fun _ => ite ((advance 1).before fun _ => .pure true) (pure false)

theorem natural? : Relative Reading.natural? := digits.map _

theorem index : Relative Reading.index := by
  refine (nextIf '_').bind fun _ => ite (pure 0) (natural?.bind fun n? => ?_)
  cases n? with
  | none => exact fail _
  | some n => exact (nextIf '_').before fun _ => .ite (.pure _) (.fail _)

/-! ### Names -/

theorem take (n : Nat) : Relative (Reading.take n) :=
  get (fun _ _ => rfl) fun _ => (of_onStore (.check _ _)).bind fun _ =>
    (advance n).before fun _ => .pure _

theorem piece (isPunycode : Bool) : Relative (Reading.piece cfg isPunycode) := by
  refine natural?.bind fun length? => ?_
  cases length? with
  | none => exact fail _
  | some length =>
    refine (of_onStore (.check _ _)).bind fun _ => ite ?_ ?_
    · exact ((nextIf '_').before fun _ => .pure ()).bind fun _ => (take length).before fun _ =>
        .require _ _
    · refine (take length).before fun text => .bind (.modify fun c => ?_) fun _ => .pure text
      exact ⟨{ c with words := Word.rememberAll cfg.maxWords c.words text }, fun _ _ => rfl⟩

theorem letter? : Relative Reading.letter? := by
  refine peek?.bind fun c? => ?_
  cases c? with
  | none => exact pure none
  | some c => exact ite ((advance 1).before fun _ => .pure _) (pure none)

theorem pieces (isPunycode : Bool) (fuel : Nat) :
    ∀ words name, Relative (Reading.pieces cfg isPunycode fuel words name) := by
  induction fuel with
  | zero => exact fun _ _ => fail _
  | succ fuel ih =>
    intro words name
    have hword (i : Nat) : Relative (Reading.word cfg i) := of_onStore (.word i)
    rw [Reading.pieces]
    -- Among words a letter may come next, but what is done with it is the same.
    refine ite (letter?.bind fun c? => ?_) ((pure none).bind fun c? => ?_)
    all_goals
      cases c? with
      | some c => exact ite ((hword _).bind fun _ => ih _ _) ((hword _).bind fun _ => ih _ _)
      | none =>
        refine (nextIf '0').bind fun _ => ite (pure name) ((piece _).bind fun text => ?_)
        exact ite (ih _ _) (pure _)

theorem identifierText : Relative (Reading.identifierText cfg) := by
  refine get (fun _ _ => rfl) fun m => peek?.bind fun c? => ?_
  split
  · exact (advance 1).bind fun _ => (nextIf '0').bind fun _ => ite (pieces _ _ _ _) (pieces _ _ _ _)
  · exact (of_onStore (.check _ _)).bind fun _ => pieces _ _ _ _
  · exact fail _

theorem identifier : Relative (Reading.identifier cfg) :=
  identifierText.before fun _ => .bind (.check _ _) fun _ => (OnStore.build _ _ _).registered

theorem localName : Relative Reading.localName := by
  have hnumbered : Relative Reading.localName.numbered :=
    index.before fun _ => .bind (.indexNode _ _) fun _ => .bind .popDeclName fun _ => .node _ _
  have hprivate : OnStore (do
      let discriminator ← Reading.require (← Reading.pop? .identifier) .expectedDiscriminator
      Reading.node .privateDeclName [discriminator, ← Reading.popDeclName]) :=
    .bind (.pop? _) fun _ => .bind (.require _ _) fun _ => .bind .popDeclName fun _ => .node _ _
  refine (nextIf 'L').bind fun _ => ite (of_onStore hprivate) ((nextIf 'l').bind fun _ => ite ?_ ?_)
  · exact of_onStore (.bind (.pop? _) fun _ => .bind (.require _ _) fun _ => .node _ _)
  · refine peek?.bind fun c? => ?_
    cases c? with
    | none => exact hnumbered
    | some c =>
      exact ite ((advance 1).before fun _ => .bind .popDeclName fun _ => .build _ _ _) hnumbered

theorem numberedParameter : Relative Reading.numberedParameter :=
  (nextIf _).bind fun _ => ite (index.bind fun _ => index.before fun _ => .genericParameter _ _)
    ((nextIf _).bind fun _ => ite (of_onStore (.genericParameter _ _))
      (index.before fun _ => .genericParameter _ _))

/-! ### References -/

theorem references (fuel : Nat) : ∀ count, Relative (Reading.references cfg fuel count) := by
  induction fuel with
  | zero => exact fun _ => fail _
  | succ fuel ih =>
    intro count
    refine peek?.bind fun c? => ?_
    cases c? with
    | none => exact fail _
    | some c =>
      refine ite ?_ (ite ?_ (ite ?_ ?_))
      · refine (advance 1).bind fun _ => (of_onStore (.repeated _ _)).bind fun n => ?_
        exact (of_onStore (.push n)).bind fun _ => ih none
      · exact (advance 1).before fun _ => .repeated _ _
      · exact (advance 1).before fun _ => .resolve _
      · refine natural?.bind fun n? => ?_
        cases n? with
        | none => exact fail _
        | some n => exact ih (some n)

theorem tableReference : Relative (Reading.tableReference cfg) := get (fun _ _ => rfl) fun _ =>
      references _ _

theorem standardReference : Relative (Reading.standardReference cfg) := by
  refine peek?.bind fun c? => ?_
  split
  · exact fail _
  · exact (advance 1).before fun _ => .build _ _ _
  · exact (advance 1).before fun _ => .build _ _ _
  · exact (advance 1).before fun _ => .optional
  · exact natural?.bind fun _ => (of_onStore (.check _ _)).bind fun _ => next.before fun _ =>
      .bind (.require _ _) fun t => .bind (.pushCopies _ t) fun _ => .pure t

/-! ### Steps -/

/-- Whatever operators read, they read alike at all offsets. -/
def law (cfg : Config) : OperatorLaw cfg where
  Holds := Relative
  onStore := of_onStore
  bind := bind
  next := next
  index := index
  localName := localName
  numberedParameter := numberedParameter
  tableReference := tableReference
  standardReference := standardReference

theorem suffix : Relative Reading.suffix := get (fun _ _ => rfl) fun _ =>
      (advance _).before fun _ => .build _ _ _

theorem operator (c : CodePoint) :
    Relative (Reading.operator cfg c) := (law cfg).operator c fun _ => suffix

theorem step : Relative (Reading.step cfg) := by
  refine peek?.bind fun c? => ?_
  cases c? with
  | none => exact (fail _).before .push
  | some c =>
    exact ite (identifier.before .push) ((advance 1).bind fun _ => (operator c).before .push)

end Relative

/-! ### Runs -/

theorem Machine.steps_shift (cfg : Config) (d fuel : Nat) (m : Machine) :
    steps cfg fuel (m.shift d) = shiftEnd d (shift d) (steps cfg fuel m) := by
  induction fuel generalizing m with
  | zero => rfl
  | succ fuel ih =>
    rw [steps, steps, show (m.shift d).rest = m.rest from rfl, Relative.step d m]
    by_cases hempty : m.rest.isEmpty = true
    · rw [if_pos hempty, if_pos hempty]
      rfl
    · rw [if_neg hempty, if_neg hempty]
      rcases Reading.step cfg m with e | ⟨-, m'⟩
      · rfl
      · exact ih m'

theorem Machine.run_shift (cfg : Config) (d : Nat) (m : Machine) :
    (m.shift d).run cfg = shiftEnd d (shift d) (m.run cfg) := steps_shift cfg d m.rest.length m

theorem Machine.symbol_shift (d : Nat) (m : Machine) :
    (m.shift d).symbol = shiftEnd d id m.symbol := by
  unfold symbol
  rw [show (m.shift d).stack = m.stack from rfl]
  dsimp only
  by_cases hempty : (m.stack.reverse.map Node.unwrapped).isEmpty = true
  · rw [if_pos hempty, if_pos hempty]
    rfl
  · rw [if_neg hempty, if_neg hempty]
    rcases Node.make .global .none (m.stack.reverse.map Node.unwrapped) with e | n
    · rfl
    · rfl

/-! ### Prefixes -/

/-- If no prefix begins another one, a symbol is split where it was put together. -/
theorem splitPrefix_append {prefixes : List Text}
    (h : ∀ p ∈ prefixes, ∀ q ∈ prefixes, q <+: p → q = p)
    {p : Text} (hp : p ∈ prefixes) (body : Text) :
    splitPrefix prefixes (p ++ body) = some (p.length, body) := by
  have honly : ∀ q ∈ prefixes, ∀ rest, Text.dropPrefix? q (p ++ body) = some rest → q = p := by
    intro q hq rest hrest
    have hbegins : q <+: p ++ body := ⟨rest, (Text.eq_append_of_dropPrefix? hrest).symm⟩
    rcases List.prefix_or_prefix_of_prefix hbegins (List.prefix_append p body) with hqp | hpq
    · exact h p hp q hq hqp
    · exact (h q hq p hp hpq).symm
  have hmatch : ∀ r, splitPrefix prefixes (p ++ body) = some r → r = (p.length, body) := by
    intro r hr
    obtain ⟨q, hq, hsplit⟩ := List.exists_of_findSome?_eq_some hr
    obtain ⟨rest, hrest, rfl⟩ := Option.map_eq_some_iff.mp hsplit
    obtain rfl := honly q hq rest hrest
    rw [Text.dropPrefix?_append, Option.some.injEq] at hrest
    rw [hrest]
  rcases hsplit : splitPrefix prefixes (p ++ body) with _ | r
  · have hnone := List.findSome?_eq_none_iff.mp hsplit p hp
    rw [Text.dropPrefix?_append] at hnone
    cases hnone
  · rw [hmatch r hsplit]

/-- The tree of a body, with offsets that are counted from where it begins. -/
def readBody (cfg : Config) (body : Text) : Except Malformed Node :=
  if body.isEmpty then .error ⟨.nothingAfterPrefix, 0⟩
  else do
    let m ← (Machine.load 0 body).run cfg
    m.symbol

section Default

variable {cfg : Config} {p q : Text}

theorem splitPrefix_default (h : cfg.prefixes = ({} : Config).prefixes) (hp : p ∈ cfg.prefixes)
    (body : Text) :
    splitPrefix cfg.prefixes (p ++ body) = some (p.length, body) := by
  rw [h] at hp ⊢
  exact splitPrefix_append (by decide) hp body

/-- A symbol is read as its body is. -/
theorem readSymbol_append (h : cfg.prefixes = ({} : Config).prefixes) (hp : p ∈ cfg.prefixes)
    (body : Text) :
    readSymbol cfg (p ++ body) = shiftEnd p.length id (readBody cfg body) := by
  unfold readSymbol readBody loadSymbol
  rw [splitPrefix_default h hp]
  dsimp only
  by_cases hempty : body.isEmpty = true
  · rw [if_pos hempty, if_pos hempty]
    show Except.error (⟨.nothingAfterPrefix, p.length⟩ : Malformed) =
      .error ⟨.nothingAfterPrefix, 0 + p.length⟩
    rw [Nat.zero_add]
  · rw [if_neg hempty, if_neg hempty]
    have hload : Machine.load p.length body = (Machine.load 0 body).shift p.length := by
      unfold Machine.load Machine.shift
      rw [Nat.zero_add]
    show ((Machine.load p.length body).run cfg >>= Machine.symbol) = _
    rw [hload, Machine.run_shift]
    rcases (Machine.load 0 body).run cfg with e | m
    · rfl
    · exact m.symbol_shift p.length

/-- Two readings of one body, which begins after `i` characters in one and after `j` in the other,
end alike. -/
def EndAlike (i j : Nat) : Except Raised Node → Except Raised Node → Prop
  | .ok t, .ok t' => t = t'
  | .error (.malformed e), .error (.malformed e') =>
    e.complaint = e'.complaint ∧ (e.offset : Int) - e'.offset = i - j
  | .error .unshowable, .error .unshowable => True
  | _, _ => False

theorem endAlike_shiftEnd (i j : Nat) (r : Except Malformed Node) :
    EndAlike i j ((shiftEnd i id r).mapError Malformed.raise)
      ((shiftEnd j id r).mapError Malformed.raise) := by
  rcases r with ⟨complaint, offset⟩ | t
  · have hraise (i : Nat) :
      (shiftEnd i id (Except.error ⟨complaint, offset⟩ : Except Malformed Node)).mapError
        Malformed.raise = .error (if complaint.isShowable then .malformed ⟨complaint, offset + i⟩
          else .unshowable) := rfl
    rw [hraise, hraise]
    split
    · refine ⟨rfl, ?_⟩
      show ((offset + i : Nat) : Int) - (offset + j : Nat) = i - j
      omega
    · exact trivial
  · exact rfl

/-- What a symbol means does not depend on its prefix, and its body alone is the name of a type if
it means only one thing. -/
structure PrefixIndependent (cfg : Config) (body : Text) : Prop where
  alike (p q : Text) (hp : p ∈ cfg.prefixes) (hq : q ∈ cfg.prefixes) :
    EndAlike p.length q.length (demangle cfg (p ++ body)) (demangle cfg (q ++ body))
  bare_iff : (∃ n, demangleType cfg body = .ok n) ↔
    body ≠ [] ∧ ∃ t, demangle cfg ("$s".text ++ body) = .ok t ∧ t.kind = .global ∧
    t.children.length = 1
  bare (n : Node) (h : demangleType cfg body = .ok n) :
    demangle cfg ("$s".text ++ body) = .ok (.mk .global .none [n.unwrapped])
  remangled (p : Text) (hp : p ∈ cfg.prefixes) :
    (demangle cfg (p ++ body)).toOption.map (mangle cfg)
      = (demangle cfg ("$s".text ++ body)).toOption.map (mangle cfg)

/-! A symbol and a bare type are read by one run, which they judge by what it leaves on the
stack. -/

theorem Machine.symbol_eq_ok_iff {m : Machine} {t : Node} :
    m.symbol = .ok t ↔ m.stack ≠ [] ∧
      t = .mk .global .none (m.stack.reverse.map Node.unwrapped) := by
  unfold symbol
  dsimp only
  by_cases hempty : m.stack = []
  · simp [hempty]
  · have hchildren : m.stack.reverse.map Node.unwrapped ≠ [] := by simpa using hempty
    rw [if_neg (by simpa using hempty), Node.make_of_fits (Node.fits_global hchildren),
      Except.ok.injEq]
    exact ⟨fun h => ⟨hempty, h.symm⟩, fun h => h.2.symm⟩

theorem Machine.single_eq_ok_iff {m : Machine} {n : Node} : m.single = .ok n ↔ m.stack = [n] := by
  unfold single
  rcases m.stack with _ | ⟨n', _ | ⟨n'', stack⟩⟩ <;> simp

theorem readBody_eq_ok_iff {body : Text} {t : Node} : readBody cfg body = .ok t ↔
    body ≠ [] ∧ ∃ m, (Machine.load 0 body).run cfg = .ok m ∧ m.symbol = .ok t := by
  unfold readBody
  by_cases hempty : body = []
  · simp [hempty]
  · rw [if_neg (by simpa using hempty)]
    rcases (Machine.load 0 body).run cfg with e | m
    · simp [hempty, bind, Except.bind]
    · simp [hempty, bind, Except.bind]

theorem demangleType_eq_ok_iff {body : Text} {n : Node} : demangleType cfg body = .ok n ↔
    body ≠ [] ∧ ∃ m, (Machine.load 0 body).run cfg = .ok m ∧ m.stack = [n] := by
  rw [demangleType_eq_ok_iff_readType]
  unfold readType loadType
  by_cases hempty : body = []
  · simp [hempty, bind, Except.bind]
  · rw [if_neg (by simpa using hempty)]
    rcases hrun : (Machine.load 0 body).run cfg with e | m
    · simp [hrun, bind, Except.bind]
    · simp [hrun, hempty, bind, Except.bind, Machine.single_eq_ok_iff]

theorem demangle_append_eq_ok_iff (h : cfg.prefixes = ({} : Config).prefixes)
    (hp : p ∈ cfg.prefixes) {body : Text}
    {t : Node} : demangle cfg (p ++ body) = .ok t ↔ readBody cfg body = .ok t := by
  rw [demangle_eq_ok_iff_readSymbol, readSymbol_append h hp]
  rcases readBody cfg body with e | t'
  · simp [shiftEnd]
  · simp [shiftEnd]

/-- The body of every symbol is read alike after each of the default prefixes, and without one. -/
theorem prefixIndependent (cfg : Config) (h : cfg.prefixes = ({} : Config).prefixes) (body : Text) :
    PrefixIndependent cfg body := by
  have hnewest : "$s".text ∈ cfg.prefixes := by
    rw [h]
    decide
  have hbare (n : Node) (hn : demangleType cfg body = .ok n) :
      demangle cfg ("$s".text ++ body) = .ok (.mk .global .none [n.unwrapped]) := by
    obtain ⟨hne, m, hrun, hstack⟩ := demangleType_eq_ok_iff.mp hn
    apply (demangle_append_eq_ok_iff h hnewest).mpr
    apply readBody_eq_ok_iff.mpr
    refine ⟨hne, m, hrun, Machine.symbol_eq_ok_iff.mpr ?_⟩
    simp [hstack]
  refine ⟨fun p q hp hq => ?_, ⟨?_, ?_⟩, hbare, fun p hp => ?_⟩
  · unfold demangle
    rw [readSymbol_append h hp, readSymbol_append h hq]
    exact endAlike_shiftEnd p.length q.length _
  · rintro ⟨n, hn⟩
    exact ⟨(demangleType_eq_ok_iff.mp hn).1, _, hbare n hn, rfl, rfl⟩
  -- A symbol has one child where the run has left one node.
  · rintro ⟨hne, t, ht, -, hlength⟩
    obtain ⟨-, m, hrun, hsymbol⟩ :=
      readBody_eq_ok_iff.mp ((demangle_append_eq_ok_iff h hnewest).mp ht)
    obtain ⟨-, rfl⟩ := Machine.symbol_eq_ok_iff.mp hsymbol
    have hsingle : m.stack.length = 1 := by simpa [Node.children] using hlength
    obtain ⟨n, hstack⟩ := List.length_eq_one_iff.mp hsingle
    exact ⟨n, demangleType_eq_ok_iff.mpr ⟨hne, m, hrun, hstack⟩⟩
  · unfold demangle
    rw [readSymbol_append h hp, readSymbol_append h hnewest]
    rcases readBody cfg body with e | t
    · rfl
    · rfl

theorem prefixIndependent_integer :
    ({ maxWords := 0 } : Config).prefixes = ({} : Config).prefixes ∧
      demangle { maxWords := 0 } "_T0Si".text = .ok (.mk .global .none
        [.mk .structType .none [.moduleName Standard.moduleText, .identifier "Int".text]]) ∧
      PrefixIndependent { maxWords := 0 } "Si".text := by
  refine ⟨rfl, by decide +kernel, ?_⟩
  exact prefixIndependent { maxWords := 0 } rfl "Si".text

end Default

end SwiftABI
