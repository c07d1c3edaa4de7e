/-
  The operators that read names keep the machine sound.

  What they leave on the stack are names as the grammar has them: an identifier is not empty, an
  operator is made of operator characters, and a private, local or related name is made of others.
-/
import SwiftABI.Proofs.Symbol.Code
import SwiftABI.Proofs.Symbol.Soundness.Basic

namespace SwiftABI

/-- The character that a letter of an operator stands for is one that operators are made of. -/
theorem Operator.isOperatorChar_of_char? {letter c : CodePoint} (h : char? letter = some c) :
    IsOperatorChar c := by
  have hall : ∀ entry ∈ letters, char? (Operator.letter entry.2) = some entry.2 := by decide
  unfold char? at h
  split at h
  · -- Characters beyond ASCII stand for themselves, in both directions.
    rename_i hlarge
    cases h
    have hnone : letters.find? (fun entry => entry.2 = letter) = none := by
      rw [List.find?_eq_none]
      intro entry hentry heq
      have hsmall : ∀ entry ∈ letters, entry.2.toNat < 0x80 := by decide
      have hlt := hsmall entry hentry
      rw [of_decide_eq_true heq] at hlt
      omega
    unfold IsOperatorChar Operator.letter
    rw [hnone]
    exact if_pos hlarge
  · have hmem : (letter, c) ∈ letters := by
      rw [List.lookup_eq_some_iff] at h
      obtain ⟨before, after, heq, -⟩ := h
      rw [heq]
      exact List.mem_append_right _ List.mem_cons_self
    exact hall (letter, c) hmem

namespace Preserves

variable {cfg : Config}

/-! ### Identifiers -/

theorem take (n : Nat) : Preserves cfg (Reading.take n) fun _ => True := by
  refine get.bind fun m _ => (check rfl).bind fun _ _ => ?_
  exact (advance n).bind fun _ _ => pure trivial

theorem word (i : Nat) : Preserves cfg (Reading.word cfg i) fun _ => True := by
  refine (check rfl).bind fun _ _ => get.bind fun m _ => ?_
  exact require rfl fun _ _ => trivial

/-- Remembering words leaves everything else as it is. -/
theorem remember (f : List Text → List Text) :
    Preserves cfg (modify fun m => { m with words := f m.words } : Reading PUnit) fun _ => True :=
  fun _ _ hm => ⟨trivial, ⟨hm.offset, hm.stack, hm.table⟩, Nat.le_refl _⟩

theorem piece (isPunycode : Bool) : Preserves cfg (Reading.piece cfg isPunycode) fun _ => True := by
  refine natural?.bind fun n? _ => ?_
  cases n? with
  | none => exact fail rfl
  | some n =>
    refine (check rfl).bind fun _ _ => ?_
    split
    · refine (nextIf '_').discard.bind fun _ _ => (take n).bind fun _ _ => ?_
      exact require rfl fun _ _ => trivial
    · refine (take n).bind fun text _ => ?_
      exact (remember fun words => Word.rememberAll cfg.maxWords words text).bind fun _ _ =>
        pure trivial

theorem letter? : Preserves cfg Reading.letter? fun _ => True := by
  refine peek?.bind fun c? _ => ?_
  cases c? with
  | none => exact pure trivial
  | some c =>
    dsimp only
    split
    · exact (advance 1).bind fun _ _ => pure trivial
    · exact pure trivial

theorem pieces (isPunycode : Bool) (fuel : Nat) : ∀ words name,
    Preserves cfg (Reading.pieces cfg isPunycode fuel words name) fun _ => True := by
  induction fuel with
  | zero => exact fun _ _ => fail rfl
  | succ fuel ih =>
    intro words name
    rw [Reading.pieces]
    refine branch (fun _ => letter?) (fun _ => pure trivial) fun c? _ => ?_
    cases c? with
    | some c =>
      dsimp only
      split
      · exact (word _).bind fun _ _ => ih _ _
      · exact (word _).bind fun _ _ => ih _ _
    | none =>
      refine (nextIf '0').bind fun isEnd _ => ?_
      split
      · exact pure trivial
      · refine (piece isPunycode).bind fun text _ => ?_
        split
        · exact ih _ _
        · exact pure trivial

theorem identifierText : Preserves cfg (Reading.identifierText cfg) fun _ => True := by
  refine get.bind fun m _ => peek?.bind fun c? _ => ?_
  split
  · refine (advance 1).bind fun _ _ => (nextIf '0').bind fun isZero _ => ?_
    split
    · exact pieces true _ _ _
    · exact pieces false _ _ _
  · exact (check rfl).bind fun _ _ => pieces false _ _ _
  · exact fail rfl

/-- An identifier that is registered is not empty. -/
theorem registered (name : Text) :
    Preserves cfg (do
      Reading.check (!name.isEmpty) .emptyIdentifier
      let n ← Reading.build .identifier (.text name) []
      Reading.register n
      return n) fun n => n.Sound cfg := by
  refine (check rfl).bind fun _ hname => ?_
  have hne : name ≠ [] := by
    rintro rfl
    cases hname
  refine (sound (by decide) (.name (by decide) hne) nofun).bind fun n hn => ?_
  exact (register hn).bind fun _ _ => pure hn

theorem identifier : Preserves cfg (Reading.identifier cfg) fun n => n.Sound cfg :=
  identifierText.bind fun name _ => registered name

/-! ### Operators and local names -/

/-- The letters of an operator are read one by one. -/
theorem operatorText (letters : Text) :
    Preserves cfg (Reading.operatorText letters) fun name =>
      (∀ c ∈ name, Operator.IsOperatorChar c) ∧ (letters ≠ [] → name ≠ []) := by
  induction letters with
  | nil => exact pure ⟨nofun, id⟩
  | cons letter letters ih =>
    refine (require rfl fun c hc => Operator.isOperatorChar_of_char? hc).bind fun c hc => ?_
    refine ih.bind fun name hname => pure ⟨?_, fun _ => List.cons_ne_nil _ _⟩
    exact List.forall_mem_cons.mpr ⟨hc, hname.1⟩

/-- The letters of a fixity stand for the kinds of operators. -/
theorem mem_operators_of_fixity {c : CodePoint} {k : Kind}
    (h : Code.decode? Code.fixities c = some k) :
    k ∈ Kind.operators := by
  have hall : ∀ entry ∈ Code.fixities, entry.2 ∈ Kind.operators := by decide
  exact hall _ (Code.mem_of_decode? h)

theorem operatorName : Preserves cfg Reading.operatorName fun n => n.Sound cfg := by
  refine (pop? (by decide)).bind fun n? hn => (require rfl hn).bind fun n hn => ?_
  obtain ⟨t, ht, heq⟩ := hn.1.grammatical.root.eq_name (by rw [hn.2]; decide)
  have htext : n.text?.getD [] = t := by
    rw [heq]
    rfl
  rw [htext]
  refine (operatorText t).bind fun name hname => next.bind fun c _ => ?_
  refine (require rfl fun k hk => mem_operators_of_fixity hk).bind fun k hk => ?_
  have hkinds : ∀ k ∈ Kind.operators, k ∈ Kind.stackable ∧ k ≠ .moduleName ∧
    k ≠ .extensionDecl := by decide
  exact sound (hkinds k hk) (.operatorName hk (hname.2 ht) hname.1) nofun

theorem numberedLocalName : Preserves cfg Reading.localName.numbered fun n => n.Sound cfg := by
  refine index.bind fun i _ => (number (by decide) i).bind fun d hd =>
    popDeclName.bind fun name hname => ?_
  obtain ⟨rfl, hd⟩ := hd
  refine sound (by decide) (.localDeclName i hname.2) ?_
  exact List.forall_mem_cons.mpr ⟨hd, List.forall_mem_singleton.mpr hname.1.grammatical⟩

/-- A private name, with or without the name that is private. -/
theorem privateDeclName {d : Node} (name : Option Node) (hd : d.Sound cfg ∧ d.kind = .identifier)
    (hname : ∀ n ∈ name, n.Sound cfg ∧ n.kind.isDeclName = true) :
    Preserves cfg (Reading.node .privateDeclName (d :: name.toList)) fun n => n.Sound cfg := by
  refine sound (by decide) (.privateDeclName hd.2 fun n hn => (hname n hn).2) ?_
  refine List.forall_mem_cons.mpr ⟨hd.1.grammatical, fun n hn => ?_⟩
  exact (hname n (Option.mem_toList.mp hn)).1.grammatical

theorem localName : Preserves cfg Reading.localName fun n => n.Sound cfg := by
  refine (nextIf 'L').bind fun isPrivate _ => ?_
  split
  · refine (pop? (by decide)).bind fun d? hd => (require rfl hd).bind fun d hd =>
      popDeclName.bind fun name hname => ?_
    exact privateDeclName (some name) hd fun n hn => Option.some.inj hn ▸ hname
  · refine (nextIf 'l').bind fun isDiscriminator _ => ?_
    split
    · exact (pop? (by decide)).bind fun d? hd => (require rfl hd).bind fun d hd =>
        privateDeclName none hd nofun
    · refine peek?.bind fun c? _ => ?_
      cases c? with
      | none => exact numberedLocalName
      | some c =>
        dsimp only
        split
        · rename_i hletter
          refine (advance 1).bind fun _ _ => popDeclName.bind fun name hname => ?_
          refine sound (by decide) (.relatedEntityDeclName hletter hname.2) ?_
          exact List.forall_mem_singleton.mpr hname.1.grammatical
        · exact numberedLocalName

end Preserves

end SwiftABI
