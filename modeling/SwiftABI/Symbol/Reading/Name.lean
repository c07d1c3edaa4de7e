/-
  Reading the names of declarations: identifiers, operators and local names.

  An identifier is read piece by piece. A piece is either spelled out after its length or, after a
  leading `0`, a letter for a word that occurred before. Words of pieces that are spelled out are
  remembered, and the identifier is registered when it is complete.
-/
import SwiftABI.Symbol.Code
import SwiftABI.Symbol.Identifier
import SwiftABI.Symbol.Machine

namespace SwiftABI.Reading

/-- Reads exactly `n` characters. -/
def take (n : Nat) : Reading Text := do
  let rest := (← get).rest
  check (n ≤ rest.length) .identifierPastEnd
  advance n
  return rest.take n

/-- The word with a number. -/
def word (cfg : Config) (i : Nat) : Reading Text := do
  check ((i : Int) < cfg.maxWords) .unknownWord
  require (← get).words[i]? .unknownWord

/-- The text that a punycode piece encodes, if it encodes one. -/
def decodePunycode? (piece : Text) : Option Text :=
  (Punycode.decode piece).map fun scalars => scalars.map CodePoint.ofNat

/-- Reads a piece of an identifier that follows its length. -/
def piece (cfg : Config) (isPunycode : Bool) : Reading Text := do
  match ← natural? with
  | none => fail .identifierLength
  | some length =>
    check (0 < length) .identifierLength
    if isPunycode then
      discard (nextIf '_')
      require (decodePunycode? (← take length)) .badPunycode
    else
      let text ← take length
      modify fun m => { m with words := Word.rememberAll cfg.maxWords m.words text }
      return text

/-- Reads a letter, if one comes next. -/
def letter? : Reading (Option CodePoint) := do
  match ← peek? with
  | some c => if Text.isLower c || Text.isUpper c then do advance 1; return some c else return none
  | none => return none

/-- Reads the pieces of an identifier, of which `name` has been read. As long as `words` is set, the
next piece may be a letter for a word. `fuel` bounds the number of pieces. -/
def pieces (cfg : Config) (isPunycode : Bool) : Nat → Bool → Text → Reading Text
  | 0, _, _ => fail .endOfInput
  | fuel + 1, words, name => do
    match ← if words then letter? else pure none with
    | some c =>
      if Text.isLower c then
        pieces cfg isPunycode fuel true (name ++ (← word cfg (Text.lowerIndex c)))
      else
        pieces cfg isPunycode fuel false (name ++ (← word cfg (Text.upperIndex c)))
    | none =>
      if ← nextIf '0' then return name
      let text ← piece cfg isPunycode
      if words then pieces cfg isPunycode fuel true (name ++ text) else return name ++ text

/-- Reads the text of an identifier, which begins with a digit. -/
def identifierText (cfg : Config) : Reading Text := do
  let fuel := (← get).rest.length + 1
  match ← peek? with
  | some '0' =>
    advance 1
    if ← nextIf '0' then pieces cfg true fuel false []
    else pieces cfg false fuel true []
  | some c =>
    check (Text.isDigit c) .expectedIdentifier
    pieces cfg false fuel false []
  | none => fail .expectedIdentifier

/-- Reads an identifier and registers it. -/
def identifier (cfg : Config) : Reading Node := do
  let name ← identifierText cfg
  check (!name.isEmpty) .emptyIdentifier
  let n ← build .identifier (.text name) []
  register n
  return n

/-- The operator that an identifier spells with letters. -/
def operatorText : Text → Reading Text
  | [] => return []
  | letter :: letters => do
    let c ← require (Operator.char? letter) (.operatorCharacter letter)
    return c :: (← operatorText letters)

/-- Turns the identifier on the stack into the name of an operator. -/
def operatorName : Reading Node := do
  let name ← require (← pop? .identifier) .expectedOperatorName
  let op ← operatorText (name.text?.getD [])
  let kind ← require (Code.decode? Code.fixities (← next)) .operatorFixity
  build kind (.text op) []

/-- Turns the name on the stack into the name of a private or local declaration, or into one that is
related to another declaration. -/
def localName : Reading Node := do
  if ← nextIf 'L' then
    let discriminator ← require (← pop? .identifier) .expectedDiscriminator
    node .privateDeclName [discriminator, ← popDeclName]
  else if ← nextIf 'l' then
    node .privateDeclName [← require (← pop? .identifier) .expectedDiscriminator]
  else
    match ← peek? with
    | some c =>
      if ('a' ≤ c && c ≤ 'j') || ('A' ≤ c && c ≤ 'J') then
        advance 1
        build .relatedEntityDeclName (.text [c]) [← popDeclName]
      else numbered
    | none => numbered
where
  /-- A local declaration, with a number that tells it apart from others of its name. -/
  numbered : Reading Node := do
    let discriminator ← indexNode .number (← index)
    node .localDeclName [discriminator, ← popDeclName]

end SwiftABI.Reading
