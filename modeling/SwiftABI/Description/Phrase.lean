/-
  The phrases that descriptions are made of.

  Kinds that are described by a fixed phrase, alone or before what they contain, have it from a
  table here. So have generic parameters, which are named by letters, and the suffix of a symbol,
  which is quoted in a way of its own.
-/
import SwiftABI.Kind.Group
import SwiftABI.Text.Quoted

namespace SwiftABI

namespace Kind

/-- What is said of a symbol before its only child. -/
def leadPhrase? : Kind → Option String
  | .typeMetadata => some "type metadata for "
  | .fullTypeMetadata => some "full type metadata for "
  | .typeMetadataAccessFunction => some "type metadata accessor for "
  | .nominalTypeDescriptor => some "nominal type descriptor for "
  | .metaclass => some "metaclass for "
  | .protocolDescriptor => some "protocol descriptor for "
  | .valueWitnessTable => some "value witness table for "
  | .enumCase => some "enum case for "
  | .staticDecl => some "static "
  | .inOut => some "inout "
  | .shared => some "__shared "
  | .owned => some "__owned "
  | .weak => some "weak "
  | .unowned => some "unowned "
  | .unmanaged => some "unowned(unsafe) "
  | _ => none

/-- What stands for a node whose children do not matter. -/
def markPhrase? : Kind → Option String
  | .throwsMarker => some " throws "
  | .emptyList => some " empty-list "
  | .firstElementMarker => some " first-element-marker "
  | .variadicMarker => some " variadic-marker "
  | .dynamicSelf => some "Self"
  | .errorType => some "<ERROR TYPE>"
  | _ => none

/-- The name of an accessor. -/
def accessorName? : Kind → Option String
  | .owningAddressor => some "owningAddressor"
  | .owningMutableAddressor => some "owningMutableAddressor"
  | .nativeOwningAddressor => some "nativeOwningAddressor"
  | .nativeOwningMutableAddressor => some "nativeOwningMutableAddressor"
  | .nativePinningAddressor => some "nativePinningAddressor"
  | .nativePinningMutableAddressor => some "nativePinningMutableAddressor"
  | .unsafeAddressor => some "unsafeAddressor"
  | .unsafeMutableAddressor => some "unsafeMutableAddressor"
  | .globalGetter => some "getter"
  | .getter => some "getter"
  | .setter => some "setter"
  | .materializeForSet => some "materializeForSet"
  | .willSet => some "willset"
  | .didSet => some "didset"
  | .readAccessor => some "read"
  | .modifyAccessor => some "modify"
  | _ => none

/-- What stands before a function type. -/
def conventionPhrase? : Kind → Option String
  | .functionType | .noEscapeFunctionType => some ""
  | .escapingAutoClosureType | .autoClosureType => some "@autoclosure "
  | .thinFunctionType => some "@convention(thin) "
  | .cFunctionPointer => some "@convention(c) "
  | .objcBlock => some "@convention(block) "
  | _ => none

/-- Is a type of this kind clear without parentheses, whatever mark follows it? -/
def isSimpleType (k : Kind) : Bool :=
  k ∈ boundGenerics || k ∈ nominals ||
    k ∈ ([.builtinTypeName, .dependentGenericParamType, .dynamicSelf, .errorType,
      .existentialMetatype, .metatype, .metatypeRepresentation, .moduleName, .tuple, .returnType,
      .tupleElementName, .type, .typeList, .labelList, .sugaredOptional, .sugaredArray,
      .sugaredDictionary, .sugaredParen] : List Kind)

/-- Is the metatype of this kind the one of a protocol? -/
def isExistential (k : Kind) : Bool :=
  k ∈ ([.existentialMetatype, .protocolList, .protocolListWithAnyObject] : List Kind)

/-- Does the type follow a function of this kind without a colon? -/
def isFunctionStyle (k : Kind) : Bool :=
  k ∈ ([.functionType, .noEscapeFunctionType, .cFunctionPointer, .thinFunctionType] : List Kind)

end Kind

namespace Text

/-- A number in base 26 with letters as digits, the lowest one first. -/
def letters (i : Nat) : Text :=
  upperLetter (i % 26) :: (if _h : i / 26 = 0 then [] else letters (i / 26))
termination_by i
decreasing_by omega

/-- The letters of an index, found one by one, if no more than `rounds` are needed. The index goes
down to its quotient by 26 from one letter to the next. -/
def lettersWithin : Nat → Int → Option Text
  | 0, _ => none
  | rounds + 1, i =>
    let letter := upperLetter (i % 26).toNat
    if i / 26 = 0 then some [letter] else (lettersWithin rounds (i / 26)).map (letter :: ·)

/-- The letters of an index. A negative one does not come to an end of them. -/
def letters? (i : Int) : Option Text := if 0 ≤ i then some (letters i.toNat) else none

/-- A code point in upper case, if it is a letter of the alphabet. -/
def upperAscii (c : CodePoint) : CodePoint := if isLower c then .ofNat (c.toNat - 32) else c

/-- One character of a suffix. -/
def escapeSuffix (c : CodePoint) : Text :=
  if c = backslash then [backslash, backslash]
  else if c = '\t' then [backslash, 't']
  else if c = '\n' then [backslash, 'n']
  else if c = '\r' then [backslash, 'r']
  else if c = doubleQuote then [backslash, doubleQuote]
  else if c = '\x00' then [backslash, '0']
  else if c.toNat < 0x20 ∨ c.toNat = 0x7f then
    backslash :: 'x' :: (hexPadded 2 c.toNat).map upperAscii
  else [c]

/-- The suffix of a symbol between double quotes. -/
def quotedSuffix (t : Text) : Text := doubleQuote :: t.flatMap escapeSuffix ++ [doubleQuote]

end Text

end SwiftABI
