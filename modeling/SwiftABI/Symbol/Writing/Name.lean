/-
  Writing the names of declarations.
-/
import SwiftABI.Symbol.Writing.Basic

namespace SwiftABI.Writing

/-- Writes the text of a name, in the encoded form of identifiers. -/
def spellName (cfg : Config) (n : Node) (name : Text) : Writing Unit := do
  let d ← get
  let (spelled, words) := Identifier.encode cfg name d.words
  set { d with words }
  match spelled with
  | .ok t => emit t
  | .error r => refuse n r

/-- Writes an identifier. -/
def identifier (cfg : Config) (n : Node) : Writing Unit :=
  referenceOr cfg n true do
    spellName cfg n (← lift (Fault.inTree n.text))

/-- Writes the name of an operator, and which operands it goes with. -/
def operatorName (cfg : Config) (fixity : CodePoint) (n : Node) : Writing Unit := do
  referenceOr cfg n true do
    spellName cfg n (Operator.translate (← lift (Fault.inTree n.text)))
  emit ['o', fixity]

/-- Writes a module. Three of them have letters. -/
def moduleName (cfg : Config) (n : Node) : Writing Unit := do
  let name ← lift (Fault.inTree n.text)
  if name = Standard.moduleText then emit ['s']
  else if name = Code.objcModule then emit ['S', 'o']
  else if name = Code.importerModule then emit ['S', 'C']
  else identifier cfg n

/-- Writes a private name, which ends with its discriminator. -/
def privateDeclName (sub : Node → Writing Unit) (n : Node) : Writing Unit := do
  each sub n.children.reverse
  emit (if n.children.length = 1 then ['L', 'l'] else ['L', 'L'])

/-- Writes a local name and its number. -/
def localDeclName (sub : Node → Writing Unit) (n : Node) : Writing Unit := do
  sub (← child n 1)
  emit ['L']
  sub (← child n 0)

/-- Writes a name that is related to another declaration. -/
def relatedEntityDeclName (sub : Node → Writing Unit) (n : Node) : Writing Unit := do
  sub (← child n 0)
  emit ('L' :: (← lift (Fault.inTree n.text)))

end SwiftABI.Writing
