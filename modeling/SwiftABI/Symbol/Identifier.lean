/-
  How a symbol spells an identifier.

  An identifier is written with its length in front. A word that occurred before is referred to by a
  letter instead: a leading `0` announces such letters, a lower-case letter is followed by more of
  the identifier, and the upper-case letter is the last one. Identifiers that hold other characters
  than a symbol may are written in punycode, announced by `00`.
-/
import SwiftABI.Config
import SwiftABI.Node.Refusal
import SwiftABI.Symbol.Word
import SwiftABI.Text.Digit
import SwiftABI.Text.Punycode

namespace SwiftABI.Identifier

/-- A word of an identifier that is referred to by its number. -/
structure WordUse where
  start : Nat
  word : Nat
  length : Nat

/-- Looks up the words of an identifier from first to last. The ones that occurred before are used,
and the others are remembered. -/
def useWords (limit : Int) : List (Nat × Text) → List Text → List WordUse × List Text
  | [], words => ([], words)
  | (start, word) :: rest, words =>
    match words.idxOf? word with
    | some i =>
      let (uses, words) := useWords limit rest words
      (⟨start, i, word.length⟩ :: uses, words)
    | none => useWords limit rest (Word.remember limit words word)

/-- A piece that is written out, after its length. -/
def spellPiece (name piece : Text) : Except Refusal Text :=
  match piece with
  | [] => .ok []
  | c :: _ =>
    if Text.isAnyDigit c then .error (.startsWithDigit name)
    else .ok (Text.digits piece.length ++ piece)

/-- Spells what is left of an identifier from the position `pos` on. -/
def spell (name : Text) (pos : Nat) (rest : Text) : List WordUse → Except Refusal Text
  | [] => spellPiece name rest
  | use :: uses => do
    let piece ← spellPiece name (rest.take (use.start - pos))
    let after := rest.drop (use.start - pos + use.length)
    let letter :=
      if !uses.isEmpty then [Text.lowerLetter use.word]
      else if after.isEmpty then [Text.upperLetter use.word, '0']
      else [Text.upperLetter use.word]
    return piece ++ letter ++ (← spell name (use.start + use.length) after uses)

/-- What keeps the length of a punycode form apart from the form itself, if that begins like a
numeral. -/
def separator : Text → Text
  | c :: _ => if Text.isAnyDigit c || c = '_' then ['_'] else []
  | [] => []

theorem separator_cons (c : CodePoint) (cs : Text) :
    separator (c :: cs) = (if Text.isAnyDigit c || c = '_' then ['_'] else [] : Text) := rfl

/-- The punycode form of an identifier. An underscore keeps its length apart from what follows. -/
def spellPunycode (name : Text) : Except Refusal Text :=
  match Punycode.encode (name.map CodePoint.toNat) with
  | none => .error (.unencodable name)
  | some encoded =>
    .ok ("00" ++ Text.digits encoded.length ++ separator encoded ++ encoded)

/-- What announces that words are referred to. -/
def announcement (uses : List WordUse) : Text := if uses.isEmpty then [] else ['0']

/-- The encoded form of an identifier, and the words that can be referred to after it. The words are
remembered even if the identifier turns out to have no encoded form. -/
def encode (cfg : Config) (name : Text) (words : List Text) : Except Refusal Text × List Text :=
  if name.isEmpty then (.error .emptyIdentifier, words)
  else if cfg.usePunycode &&
    Punycode.needed (name.map CodePoint.toNat) then (spellPunycode name, words)
  else
    let (uses, words) := useWords cfg.maxWords (Word.split name) words
    ((spell name 0 name uses).map (announcement uses ++ ·), words)

end SwiftABI.Identifier
