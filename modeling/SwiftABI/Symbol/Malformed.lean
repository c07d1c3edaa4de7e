/-
  Why a text is no symbol.

  A `Complaint` says what is wrong, and `Malformed` adds the offset up to which the text was read.
  That is what is raised, unless the message cannot be written (`Raised`).
-/
import SwiftABI.Log
import SwiftABI.Symbol.Substitution

namespace SwiftABI

/-- What is wrong with a text. -/
inductive Complaint where
  -- the text as a whole
  | oldClassName
  | oldFunctionType
  | noPrefix
  | nothingAfterPrefix
  | nothingToDemangle
  | leftover (count : Nat)
  -- reading on
  | endOfInput
  | unsupportedOperator (c : CodePoint)
  | badIndex
  | malformedNode (e : ShapeMismatch)
  -- substitutions
  | badSubstitution
  | repeatCount
  | unknownStandard
  | unknownSubstitution (u : UnknownSubstitution)
  -- identifiers
  | expectedIdentifier
  | unknownWord
  | identifierLength
  | identifierPastEnd
  | badPunycode
  | emptyIdentifier
  | expectedOperatorName
  | operatorCharacter (c : CodePoint)
  | operatorFixity
  | expectedDiscriminator
  -- what an operator finds on the stack
  | notContext (found : Kind)
  | expectedContext
  | expectedType
  | notNominal (found : Kind)
  | expectedDeclName
  | expectedEntity
  | expectedArguments
  | missingLabel
  | badLabel
  | expectedProtocol
  | expectedModule
  | expectedSubscriptLabels
  -- types
  | builtinSize
  | vectorElement
  | unknownBuiltin (c : CodePoint)
  | expectedSeparator
  | tooFewArgumentLists
  | takesNoArguments (found : Kind)
  | cannotSpecialize (found : Kind)
  | metatypeRepresentation
  | unsupportedSpecialType (c : CodePoint)
  | unsupportedSugar (c : CodePoint)
  -- entities and global symbols
  | unsupportedMetadata (c : CodePoint)
  | fieldDirectness
  | unsupportedWitness (c : CodePoint)
  | unsupportedFunctionEntity (c : CodePoint)
  | badAddressor
  | unsupportedAccessor (c : CodePoint)
  | unknownValueWitness (code : Text)

namespace Complaint

def message : Complaint → Text
  | .oldClassName => "Old-style class and protocol names are not supported"
  | .oldFunctionType => "Old function type mangling is not supported"
  | .noPrefix => "Missing mangling prefix"
  | .nothingAfterPrefix => "Nothing to demangle after the prefix"
  | .nothingToDemangle => "Nothing to demangle"
  | .leftover count => s!"Type mangling left {count} nodes"
  | .endOfInput => "Unexpected end of input"
  | .unsupportedOperator c => "Unsupported operator " ++ Text.quotedChar c
  | .badIndex => "Bad index"
  | .malformedNode e => "Malformed node: " ++ e.message
  | .badSubstitution => "Bad substitution"
  | .repeatCount => "Repeat count too large"
  | .unknownStandard => "Unknown standard substitution"
  | .unknownSubstitution u => u.message
  | .expectedIdentifier => "Expected an identifier"
  | .unknownWord => "Unknown word substitution"
  | .identifierLength => "Bad identifier length"
  | .identifierPastEnd => "Identifier runs past the end of input"
  | .badPunycode => "Bad punycode identifier"
  | .emptyIdentifier => "Empty identifier"
  | .expectedOperatorName => "Expected an operator name"
  | .operatorCharacter c => "Bad operator character " ++ Text.quotedChar c
  | .operatorFixity => "Bad operator fixity"
  | .expectedDiscriminator => "Expected a discriminator"
  | .notContext found => found.name ++ " is not a context"
  | .expectedContext => "Expected a context"
  | .expectedType => "Expected a type"
  | .notNominal found => found.name ++ " is not a nominal type"
  | .expectedDeclName => "Expected a declaration name"
  | .expectedEntity => "Expected an entity"
  | .expectedArguments => "Malformed mangling"
  | .missingLabel => "Missing parameter label"
  | .badLabel => "Bad parameter label"
  | .expectedProtocol => "Expected a protocol"
  | .expectedModule => "Expected the extension's module"
  | .expectedSubscriptLabels => "Subscript needs a label list"
  | .builtinSize => "Bad builtin type size"
  | .vectorElement => "Vector element must be a builtin type"
  | .unknownBuiltin c => "Unknown builtin type " ++ Text.quotedChar c
  | .expectedSeparator => "Expected a generic argument list separator"
  | .tooFewArgumentLists => "Too few generic argument lists"
  | .takesNoArguments found => found.name ++ " cannot take generic arguments"
  | .cannotSpecialize found => found.name ++ " cannot be specialized"
  | .metatypeRepresentation => "Bad metatype representation"
  | .unsupportedSpecialType c => "Unsupported special type X" ++ [c]
  | .unsupportedSugar c => "Unsupported sugared type XS" ++ [c]
  | .unsupportedMetadata c => "Unsupported metadata symbol M" ++ [c]
  | .fieldDirectness => "Bad field offset directness"
  | .unsupportedWitness c => "Unsupported witness W" ++ [c]
  | .unsupportedFunctionEntity c => "Unsupported function entity f" ++ [c]
  | .badAddressor => "Bad addressor"
  | .unsupportedAccessor c => "Unsupported accessor " ++ Text.quotedChar c
  | .unknownValueWitness code => "Unknown value witness " ++ Text.quoted code

end Complaint

/-- A complaint about a text, and how far the text had been read. -/
structure Malformed where
  complaint : Complaint
  offset : Nat

namespace Malformed

/-- A message with the offset it is about, if there is one. -/
def located (message : Text) : Option Int → Text
  | none => message
  | some offset => message ++ s!" (at offset {offset})"

def message (e : Malformed) : Text := located e.complaint.message (some e.offset)

/-- The entry of the log for a failure to read `whole`. A reference to an unknown substitution has
none. -/
def entries (whole : Text) (e : Malformed) : List Log.Entry :=
  match e.complaint with
  | .unknownSubstitution _ => []
  | c =>
    [⟨.debug, c.message ++ " in " ++ Text.quoted whole ++ s!" at {e.offset}"⟩]

end Malformed

/-- What is raised for a text. -/
inductive Raised where
  | malformed (e : Malformed)
  /-- The message would show a number that has too many digits. -/
  | unshowable

/-- Can the message be written? -/
def Complaint.isShowable : Complaint → Bool
  | .unknownSubstitution u => u.isShowable
  | _ => true

/-- Raises a complaint, for which its message is needed. -/
def Malformed.raise (e : Malformed) : Raised :=
  if e.complaint.isShowable then .malformed e else .unshowable

end SwiftABI
