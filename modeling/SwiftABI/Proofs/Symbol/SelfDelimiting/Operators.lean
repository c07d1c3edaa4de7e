/-
  Every operator but the suffix is self-delimiting.

  That is a law of operators (`SelfDelimiting.law`, `SelfDelimiting.operator`), for which the steps
  that look at the text have to be gone through. Names and references to the table take some
  thought, since they are read with fuel.
-/
import SwiftABI.Proofs.Symbol.Identifier
import SwiftABI.Proofs.Symbol.OperatorLaw
import SwiftABI.Proofs.Symbol.SelfDelimiting.Basic
import SwiftABI.Proofs.Symbol.Soundness.Run

namespace SwiftABI

variable {cfg : Config}

/-! ### Names -/

/-- Only what is there can be taken. -/
theorem Reading.le_of_take {n : Nat} {m : Machine} {r : Text × Machine}
    (h : Reading.take n m = .ok r) :
    n ≤ m.rest.length := by
  obtain ⟨_, _, hget, hrest⟩ := Reading.bind_eq_ok h
  cases hget
  obtain ⟨_, _, hcheck, -⟩ := Reading.bind_eq_ok hrest
  by_contra hn
  rw [decide_eq_false hn] at hcheck
  cases hcheck

theorem FailsAtEnd.take {n : Nat} (hn : 0 < n) : FailsAtEnd (Reading.take n) := by
  intro c offset r h
  exact absurd (Reading.le_of_take h) (Nat.not_le.mpr hn)

/-- A piece has a length that is not zero. -/
theorem FailsAtEnd.pieceOf {isPunycode : Bool} {length : Nat} : FailsAtEnd (do
    Reading.check (0 < length) .identifierLength
    if isPunycode then
      discard (Reading.nextIf '_')
      Reading.require (Reading.decodePunycode? (← Reading.take length)) .badPunycode
    else
      let text ← Reading.take length
      modify fun m => { m with words := Word.rememberAll cfg.maxWords m.words text }
      return text) := by
  refine guard fun hlength => ?_
  have hpos : 0 < length := of_decide_eq_true hlength
  split
  · show FailsAtEnd ((fun _ => ()) <$> Reading.nextIf '_' >>= fun _ => _)
    rw [bind_map_left]
    exact nextIf (take hpos).left
  · exact (take hpos).left

namespace SelfDelimiting

theorem take (n : Nat) : SelfDelimiting (Reading.take n) := by
  refine of_reads fun c offset t text m h => ?_
  have hn : n ≤ t.length := Reading.le_of_take h
  obtain ⟨w, rest, rfl, rfl⟩ : ∃ w rest, t = w ++ rest ∧ n = w.length :=
    ⟨t.take n, t.drop n, (List.take_append_drop n t).symm, (List.length_take_of_le hn).symm⟩
  obtain ⟨rfl, rfl⟩ := (Reads.take w c).delimits rest h
  exact ⟨text, rest, c, rfl, rfl, Reads.take text c⟩

theorem piece (isPunycode : Bool) : SelfDelimiting (Reading.piece cfg isPunycode) := by
  refine natural (fun length? => ?_) fun length? => ?_
  · cases length? with
    | none => exact fail _
    | some length =>
      refine guard fun hlength => ite ?_ ?_
      · have htail : SelfDelimiting (do
            Reading.require (Reading.decodePunycode? (← Reading.take length)) .badPunycode) :=
          (take length).before fun _ => .require _ _
        show SelfDelimiting ((fun _ => ()) <$> Reading.nextIf '_' >>= fun _ => _)
        rw [bind_map_left]
        exact nextIf htail htail (FailsAtEnd.take (of_decide_eq_true hlength)).left
      · refine (take length).before fun text => .bind (.modify fun c => ?_) fun _ => .pure text
        exact ⟨{ c with words := Word.rememberAll cfg.maxWords c.words text }, fun _ _ => rfl⟩
  · cases length? with
    | none => exact FailsAtEnd.fail _
    | some length => exact FailsAtEnd.pieceOf

end SelfDelimiting

namespace FailsAtEnd

theorem piece {isPunycode : Bool} : FailsAtEnd (Reading.piece cfg isPunycode) := natural (fail _)

theorem pieces (isPunycode : Bool) (fuel : Nat) (words : Bool) (name : Text) :
    FailsAtEnd (Reading.pieces cfg isPunycode fuel words name) := by
  cases fuel with
  | zero => exact fail _
  | succ fuel =>
    have hrest : FailsAtEnd (do
        if ← Reading.nextIf '0' then return name
        let text ← Reading.piece cfg isPunycode
        if words then Reading.pieces cfg isPunycode fuel true (name ++ text)
          else return name ++ text) :=
      nextIf piece.left
    -- No letter comes next, whether one is looked for or not.
    cases words with
    | true => exact fun c offset r h => hrest c offset r h
    | false => exact fun c offset r h => hrest c offset r h

end FailsAtEnd

/-- The last piece of a name needs no fuel. -/
theorem SelfDelimiting.lastPiece (isPunycode : Bool) (fuel : Nat) (name : Text) :
    SelfDelimiting (Reading.pieces cfg isPunycode (fuel + 1) false name) := by
  show SelfDelimiting (do
    if ← Reading.nextIf '0' then return name
    let text ← Reading.piece cfg isPunycode
    return name ++ text)
  exact .nextIf (.pure name)
    ((SelfDelimiting.piece _).before fun _ => .pure _) FailsAtEnd.piece.left

/-- What is read behind a letter for a word, or where no letter comes next. -/
private def Reading.behindLetter (cfg : Config) (isPunycode : Bool) (name : Text) :
    Option CodePoint → Nat → Reading Text
  | some c, fuel =>
    if Text.isLower c then do
      Reading.pieces cfg isPunycode fuel true (name ++ (← Reading.word cfg (Text.lowerIndex c)))
    else do
      Reading.pieces cfg isPunycode fuel false (name ++ (← Reading.word cfg (Text.upperIndex c)))
  | none, fuel => do
    if ← Reading.nextIf '0' then return name
    let text ← Reading.piece cfg isPunycode
    Reading.pieces cfg isPunycode fuel true (name ++ text)

private theorem Reading.pieces_true (isPunycode : Bool) (fuel : Nat) (name : Text) :
    Reading.pieces cfg isPunycode (fuel + 1) true name =
      Reading.letter? >>= fun c? => behindLetter cfg isPunycode name c? fuel := by
  rw [Reading.pieces, if_pos rfl]
  congr 1
  funext c?
  cases c? with
  | none => rfl
  | some c => rfl

theorem Delimits.pieces (isPunycode : Bool) (fuel : Nat) : ∀ words name,
    Delimits [] (Reading.pieces cfg isPunycode fuel words name)
      fun fuel => Reading.pieces cfg isPunycode fuel words name := by
  -- By induction on the fuel of the run that goes well. The other run has fuel of its own.
  induction fuel with
  | zero => exact nofun
  | succ fuel ih =>
    intro words name
    cases words with
    | false => exact of_succ (SelfDelimiting.lastPiece isPunycode fuel name) fun _ => rfl
    | true =>
      refine of_at (.pieces isPunycode _ true name) fun ch => ?_
      simp only [Reading.pieces_true]
      refine letter (ite ?_ ?_) (nextIf ?_ ?_)
      · exact bind (SelfDelimiting.of_onStore (.word _)) fun _ => ih true _
      · exact bind (SelfDelimiting.of_onStore (.word _)) fun _ => ih false _
      · exact SelfDelimiting.pure name
      · exact bind (of_failsAtEnd (SelfDelimiting.piece isPunycode) fun _ => .piece) fun _ =>
          ih true _

/-- What is read of an identifier behind a zero. -/
private def Reading.announced (cfg : Config) (fuel : Nat) : Reading Text := do
  if ← Reading.nextIf '0' then Reading.pieces cfg true fuel false []
    else Reading.pieces cfg false fuel true []

/-- The only piece of an identifier that does not begin with a zero. -/
private def Reading.alone (cfg : Config) (c : CodePoint) (fuel : Nat) : Reading Text := do
  Reading.check (Text.isDigit c) .expectedIdentifier
  Reading.pieces cfg false fuel false []

/-- What an identifier is read as, by its first character. -/
private def Reading.identifierFrom (cfg : Config) : Option CodePoint → Nat → Reading Text
  | some c, fuel => if c = '0' then do Reading.advance 1; announced cfg fuel else alone cfg c fuel
  | none, _ => Reading.fail .expectedIdentifier

private theorem Reading.identifierText_eq : Reading.identifierText cfg = (do
    let fuel := (← MonadState.get).rest.length + 1
    identifierFrom cfg (← Reading.peek?) fuel) := by
  funext m
  show _ = identifierFrom cfg m.rest.head? (m.rest.length + 1) m
  rcases hhead : m.rest.head? with _ | c
  · exact Reading.identifierText_of_end hhead
  · rw [Reading.identifierText_of_head hhead, identifierFrom]
    split
    · rfl
    · rfl

private theorem Delimits.announced (fuel : Nat) :
    Delimits [] (Reading.announced cfg fuel) (Reading.announced cfg) := by
  refine of_at (.nextIf ?_) fun ch => nextIf ?_ ?_
  all_goals simp only [Bool.false_eq_true, reduceIte]
  · exact .pieces false fuel true []
  · exact succ (pieces true fuel false [])
  · exact of_failsAtEnd (pieces false fuel true []) fun fuel => .pieces false fuel true []

private theorem Delimits.alone (c : CodePoint) (fuel : Nat) :
    Delimits [] (Reading.alone cfg c (fuel + 1)) (Reading.alone cfg c) :=
  bind (SelfDelimiting.of_onStore (.check _ _)) fun _ => pieces false (fuel + 1) false []

private theorem FailsAtEnd.alone (c : CodePoint) (fuel : Nat) :
    FailsAtEnd (Reading.alone cfg c fuel) :=
  bind (.of_onStore (.check _ _)) fun _ => pieces false fuel false []

theorem SelfDelimiting.identifierText : SelfDelimiting (Reading.identifierText cfg) := by
  rw [Reading.identifierText_eq]
  refine Delimits.selfDelimiting
    (y := fun fuel => do Reading.identifierFrom cfg (← Reading.peek?) fuel)
    fun fuel => .of_at (.peek (.fail _)) fun ch => .peek (.ite (.bind .pass fun _ => ?_) ?_)
  · exact .succ (.announced (fuel + 1))
  · exact .of_failsAtEnd (.alone ch fuel) (.alone ch)

theorem FailsAtEnd.references (fuel : Nat) (count : Option Nat) :
    FailsAtEnd (Reading.references cfg fuel count) := by
  cases fuel with
  | zero => exact fail _
  | succ fuel => exact peek (fail _)

namespace SelfDelimiting

theorem identifier : SelfDelimiting (Reading.identifier cfg) :=
  identifierText.before fun _ => .bind (.check _ _) fun _ => (OnStore.build _ _ _).registered

theorem localName : SelfDelimiting Reading.localName := by
  have hnumbered : SelfDelimiting Reading.localName.numbered :=
    index.before fun _ => .bind (.indexNode _ _) fun _ => .bind .popDeclName fun _ => .node _ _
  have hend : FailsAtEnd Reading.localName.numbered := FailsAtEnd.index.left
  have hprivate : OnStore (do
      let discriminator ← Reading.require (← Reading.pop? .identifier) .expectedDiscriminator
      Reading.node .privateDeclName [discriminator, ← Reading.popDeclName]) :=
    .bind (.pop? _) fun _ => .bind (.require _ _) fun _ => .bind .popDeclName fun _ => .node _ _
  refine nextIf (of_onStore hprivate) (nextIf ?_ (peek hend fun ch => ?_) (.peek hend))
    (.nextIf (.peek hend))
  · exact of_onStore (.bind (.pop? _) fun _ => .bind (.require _ _) fun _ => .node _ _)
  · refine .ite (.advance ?_) (.of_failsAtEnd hnumbered hend)
    exact of_onStore (.bind .popDeclName fun _ => .build _ _ _)

theorem numberedParameter : SelfDelimiting Reading.numberedParameter := by
  have hdepth : SelfDelimiting (do
      let depth ← Reading.index
      Reading.genericParameter (depth + 1) (← Reading.index)) :=
    index.bind fun _ => index.before fun _ => .genericParameter _ _
  refine nextIf hdepth (nextIf ?_ ?_ FailsAtEnd.index.left) (.nextIf FailsAtEnd.index.left)
  · exact of_onStore (.genericParameter _ _)
  · exact index.before fun _ => .genericParameter _ _

end SelfDelimiting

theorem Delimits.references (fuel : Nat) : ∀ count,
    Delimits [] (Reading.references cfg fuel count) fun fuel =>
      Reading.references cfg fuel count := by
  induction fuel with
  | zero => exact nofun
  | succ fuel ih =>
    intro count
    refine of_at (.references _ count) fun ch => peek (ite ?_ (ite ?_ (ite ?_ ?_)))
    · refine bind pass fun _ => bind (SelfDelimiting.of_onStore (.repeated _ _)) fun n => ?_
      exact bind (SelfDelimiting.of_onStore (.push n)) fun _ => ih none
    · exact of_succ (pass.bind fun _ => SelfDelimiting.of_onStore (.repeated _ _)) fun _ => rfl
    · exact of_succ (pass.bind fun _ => SelfDelimiting.of_onStore (.resolve _)) fun _ => rfl
    · exact natural nofun (fun n => ih (some n)) fun n fuel => .references fuel (some n)

namespace SelfDelimiting

theorem tableReference : SelfDelimiting (Reading.tableReference cfg) :=
  Delimits.selfDelimiting (y := fun fuel => Reading.references cfg fuel none) fun fuel =>
    .references (fuel + 1) none

theorem standardReference : SelfDelimiting (Reading.standardReference cfg) := by
  have hcounted : SelfDelimiting (do
      let count ← Reading.natural?
      Reading.check (count.all fun count => (count : Int) ≤ cfg.maxRepeatCount) .repeatCount
      let t ← Reading.require (Standard.type? (← Reading.next)) .unknownStandard
      Reading.pushCopies (count.getD 0 - 1) t
      return t) := by
    refine natural (fun count? => (of_onStore (.check _ _)).bind fun _ => next.before fun _ => ?_)
      fun count? => ?_
    · exact .bind (.require _ _) fun t => .bind (.pushCopies _ t) fun _ => .pure t
    · exact .bind (of_onStore (.check _ _)) fun _ => FailsAtEnd.next.left
  have hend : FailsAtEnd (do
      let count ← Reading.natural?
      Reading.check (count.all fun count => (count : Int) ≤ cfg.maxRepeatCount) .repeatCount
      let t ← Reading.require (Standard.type? (← Reading.next)) .unknownStandard
      Reading.pushCopies (count.getD 0 - 1) t
      return t) := .natural (.bind (of_onStore (.check _ _)) fun _ => FailsAtEnd.next.left)
  refine peek (.fail _) fun ch => ?_
  split
  · exact .of_failsAtEnd (fail _) (.fail _)
  · exact .advance (of_onStore (.build _ _ _))
  · exact .advance (of_onStore (.build _ _ _))
  · exact .advance (of_onStore .optional)
  · exact .of_failsAtEnd hcounted hend

/-- Where an operator ends is decided by the steps that it is made of. -/
def law (cfg : Config) : OperatorLaw cfg where
  Holds := SelfDelimiting
  onStore := of_onStore
  bind := bind
  next := next
  index := index
  localName := localName
  numberedParameter := numberedParameter
  tableReference := tableReference
  standardReference := standardReference

/-- Only the suffix reads whatever comes next. -/
theorem operator {c : CodePoint} (hc : c ≠ '.') : SelfDelimiting (Reading.operator cfg c) :=
  (law cfg).operator c fun h => absurd h hc

end SelfDelimiting

end SwiftABI
