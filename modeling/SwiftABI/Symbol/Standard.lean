/-
  The types of the standard library that a symbol names by one letter.

  They all belong to one module. `type?` gives the type that a letter stands for, and `code?` the
  letter of a type, if it has one.
-/
import SwiftABI.Node.Basic

namespace SwiftABI.Standard

/-- The module of the standard library. -/
def moduleText : Text := "Swift".text

/-- A type of the standard library that has a letter. -/
structure Entry where
  code : CodePoint
  kind : Kind
  name : String

def catalogue : List Entry :=
  [⟨'A', .structType, "AutoreleasingUnsafeMutablePointer"⟩, ⟨'a', .structType, "Array"⟩,
   ⟨'b', .structType, "Bool"⟩, ⟨'c', .structType, "UnicodeScalar"⟩,
   ⟨'D', .structType, "Dictionary"⟩, ⟨'d', .structType, "Double"⟩, ⟨'f', .structType, "Float"⟩,
   ⟨'h', .structType, "Set"⟩, ⟨'I', .structType, "DefaultIndices"⟩, ⟨'i', .structType, "Int"⟩,
   ⟨'J', .structType, "Character"⟩, ⟨'N', .structType, "ClosedRange"⟩,
   ⟨'n', .structType, "Range"⟩, ⟨'O', .structType, "ObjectIdentifier"⟩,
   ⟨'P', .structType, "UnsafePointer"⟩, ⟨'p', .structType, "UnsafeMutablePointer"⟩,
   ⟨'R', .structType, "UnsafeBufferPointer"⟩, ⟨'r', .structType, "UnsafeMutableBufferPointer"⟩,
   ⟨'S', .structType, "String"⟩, ⟨'s', .structType, "Substring"⟩, ⟨'u', .structType, "UInt"⟩,
   ⟨'V', .structType, "UnsafeRawPointer"⟩, ⟨'v', .structType, "UnsafeMutableRawPointer"⟩,
   ⟨'W', .structType, "UnsafeRawBufferPointer"⟩,
   ⟨'w', .structType, "UnsafeMutableRawBufferPointer"⟩, ⟨'q', .enumType, "Optional"⟩,
   ⟨'B', .protocolType, "BinaryFloatingPoint"⟩, ⟨'E', .protocolType, "Encodable"⟩,
   ⟨'e', .protocolType, "Decodable"⟩, ⟨'F', .protocolType, "FloatingPoint"⟩,
   ⟨'G', .protocolType, "RandomNumberGenerator"⟩, ⟨'H', .protocolType, "Hashable"⟩,
   ⟨'j', .protocolType, "Numeric"⟩, ⟨'K', .protocolType, "BidirectionalCollection"⟩,
   ⟨'k', .protocolType, "RandomAccessCollection"⟩, ⟨'L', .protocolType, "Comparable"⟩,
   ⟨'l', .protocolType, "Collection"⟩, ⟨'M', .protocolType, "MutableCollection"⟩,
   ⟨'m', .protocolType, "RangeReplaceableCollection"⟩, ⟨'Q', .protocolType, "Equatable"⟩,
   ⟨'T', .protocolType, "Sequence"⟩, ⟨'t', .protocolType, "IteratorProtocol"⟩,
   ⟨'U', .protocolType, "UnsignedInteger"⟩, ⟨'X', .protocolType, "RangeExpression"⟩,
   ⟨'x', .protocolType, "Strideable"⟩, ⟨'Y', .protocolType, "RawRepresentable"⟩,
   ⟨'y', .protocolType, "StringProtocol"⟩, ⟨'Z', .protocolType, "SignedInteger"⟩,
   ⟨'z', .protocolType, "BinaryInteger"⟩]

namespace Entry

/-- The nominal type of an entry. -/
def nominal (e : Entry) : Node :=
  Node.ofChildren e.kind [Node.moduleName moduleText, Node.identifier e.name.text]

/-- The entry as a type. -/
def type (e : Entry) : Node := Node.typeOf e.nominal

end Entry

/-- The type that a letter stands for. -/
def type? (code : CodePoint) : Option Node :=
  (catalogue.find? fun e => e.code = code).map Entry.type

/-- The optional type before its argument is applied. -/
def optionalType : Node := Node.typeOf
  (Node.ofChildren .enumType [Node.moduleName moduleText, Node.identifier "Optional".text])

/-- The letter of a type, given with or without the node that makes it a type. -/
def code? (n : Node) : Option CodePoint :=
  match n.unwrapped with
  | .mk k .none [.mk .moduleName (.text m) [], .mk .identifier (.text name) []] =>
    if m = moduleText then
      (catalogue.find? fun e => e.kind = k && e.name.text = name).map Entry.code
    else none
  | _ => none

end SwiftABI.Standard
