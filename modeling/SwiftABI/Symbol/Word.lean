/-
  The words of an identifier, which later identifiers can refer back to.

  A word begins at a character that is neither a digit nor an underscore, and ends before an
  underscore, before an upper-case letter that does not follow another one, or with the identifier.
  `split` lists the words of an identifier with the positions they begin at.
-/
import SwiftABI.Text.Basic

namespace SwiftABI.Word

def isStart (c : CodePoint) : Bool := !Text.isDigit c && c ≠ '_' && c ≠ '\x00'

/-- Does a word end before `c`, if its last character is `prev`? -/
def isEnd (c prev : CodePoint) : Bool :=
  c = '_' || c = '\x00' || (!Text.isUpper prev && Text.isUpper c)

/-- The words from the position `pos` on, where `current` is the word that is still open there. -/
def splitFrom (pos : Nat) (current : Text) : Text → List (Nat × Text)
  | [] => if current.isEmpty then [] else [(pos - current.length, current)]
  | c :: cs =>
    match current.getLast? with
    | none => splitFrom (pos + 1) (if isStart c then [c] else []) cs
    | some prev =>
      if isEnd c prev then
        (pos - current.length, current) :: splitFrom (pos + 1) (if isStart c then [c] else []) cs
      else splitFrom (pos + 1) (current ++ [c]) cs

/-- The words of an identifier, each with the position that it begins at. -/
def split (name : Text) : List (Nat × Text) := splitFrom 0 [] name

/-- Remembers a word, if it is long enough and there is room. -/
def remember (limit : Int) (words : List Text) (word : Text) : List Text :=
  if 2 ≤ word.length ∧ (words.length : Int) < limit then words ++ [word] else words

/-- Remembers all words of a piece of an identifier that is written out. -/
def rememberAll (limit : Int) (words : List Text) (piece : Text) : List Text :=
  ((split piece).map Prod.snd).foldl (remember limit) words

end SwiftABI.Word
