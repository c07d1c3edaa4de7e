/-
  The groups of kinds that the grammar speaks of.

  `Traits` says in which roles a kind can appear: as a context of a declaration, as an entry of the
  substitution table, as an entity, as a declared name, or as a nominal type that generic arguments
  may be applied to. The lists below name the groups that have no trait of their own.
-/
import SwiftABI.Kind.Basic

namespace SwiftABI

/-- The roles of a kind. -/
structure Traits where
  context : Bool := false
  substitutable : Bool := false
  entity : Bool := false
  declName : Bool := false
  anyGeneric : Bool := false

namespace Traits

/-- The roles as one number, a bit for each. -/
def bits (t : Traits) : Nat :=
  t.context.toNat + 2 * t.substitutable.toNat + 4 * t.entity.toNat + 8 * t.declName.toNat
    + 16 * t.anyGeneric.toNat

/-- A place in which other things are declared. -/
def scope : Traits := { context := true, entity := true }

/-- A nominal type, which is a place and a type at once. -/
def nominal : Traits :=
  { context := true, substitutable := true, entity := true, anyGeneric := true }

end Traits

namespace Kind

/-! ### Groups -/

/-- Nominal types before generic arguments are applied. -/
def nominals : List Kind :=
  [.structType, .classType, .enumType, .protocolType, .typeAlias, .otherNominalType]

/-- The kind of a nominal type with generic arguments applied. -/
def bound? : Kind → Option Kind
  | .classType => some .boundGenericClass
  | .structType => some .boundGenericStructure
  | .enumType => some .boundGenericEnum
  | .protocolType => some .boundGenericProtocol
  | .otherNominalType => some .boundGenericOtherNominalType
  | .typeAlias => some .boundGenericTypeAlias
  | _ => none

/-- Nominal types with generic arguments applied. -/
def boundNominals : List Kind :=
  [.boundGenericStructure, .boundGenericClass, .boundGenericEnum, .boundGenericProtocol,
   .boundGenericTypeAlias, .boundGenericOtherNominalType]

/-- Everything that generic arguments have been applied to. -/
def boundGenerics : List Kind := boundNominals ++ [.boundGenericFunction]

def functionTypes : List Kind :=
  [.functionType, .noEscapeFunctionType, .escapingAutoClosureType, .autoClosureType,
   .thinFunctionType, .objcBlock, .cFunctionPointer]

/-- The parts of a stored or computed property or of a subscript. -/
def accessors : List Kind :=
  [.getter, .setter, .materializeForSet, .globalGetter, .willSet, .didSet, .readAccessor,
   .modifyAccessor, .owningAddressor, .nativeOwningAddressor, .nativePinningAddressor,
   .unsafeAddressor, .owningMutableAddressor, .nativeOwningMutableAddressor,
   .nativePinningMutableAddressor, .unsafeMutableAddressor]

/-- Declarations other than nominal types that other things can be declared in. -/
def scopes : List Kind :=
  [.extensionDecl, .functionDecl, .variableDecl, .subscriptDecl, .staticDecl, .allocator,
   .constructorDecl, .destructor, .deallocator, .initializer, .ivarInitializer, .ivarDestroyer,
   .explicitClosure, .implicitClosure, .defaultArgumentInitializer] ++ accessors

/-- Names of operators. -/
def operators : List Kind := [.prefixOperator, .postfixOperator, .infixOperator]

/-- Kinds whose whole content is a name. -/
def identifierLike : List Kind := [.identifier, .moduleName, .tupleElementName] ++ operators

/-! ### Traits -/

def traits (k : Kind) : Traits :=
  if k ∈ nominals then .nominal
  else if k ∈ scopes then .scope
  else if k ∈ boundGenerics then { substitutable := true }
  else match k with
    | .type => { entity := true, substitutable := true }
    | .moduleName => { Traits.scope with substitutable := true }
    | .identifier | .prefixOperator | .postfixOperator | .infixOperator =>
      { declName := true, substitutable := true }
    | .localDeclName | .privateDeclName | .relatedEntityDeclName => { declName := true }
    | .tupleElementName => { substitutable := true }
    | _ => {}

def isContext (k : Kind) : Bool := k.traits.context

def isSubstitutable (k : Kind) : Bool := k.traits.substitutable

def isEntity (k : Kind) : Bool := k.traits.entity

def isDeclName (k : Kind) : Bool := k.traits.declName

def isAnyGeneric (k : Kind) : Bool := k.traits.anyGeneric

def isFunctionType (k : Kind) : Bool := k ∈ functionTypes

/-- Kinds that can hold a declaration. With generic arguments applied, a nominal type or function
stands for the one it specializes. -/
def contextChildren : List Kind := all.filter fun k => k.isContext || k ∈ boundGenerics

/-- Kinds that are types. -/
def types : List Kind :=
  nominals ++ boundNominals ++ functionTypes ++
    [.tuple, .builtinTypeName, .dependentGenericParamType, .metatype, .existentialMetatype,
     .protocolList, .protocolListWithAnyObject, .errorType, .sugaredOptional, .sugaredArray,
     .sugaredDictionary, .sugaredParen, .weak, .unowned, .unmanaged, .dynamicSelf, .inOut, .shared,
     .owned]

end Kind

end SwiftABI
