/-
  The letters that a symbol uses for everything that has a fixed set of values.

  Each table relates the letters to what they stand for, and is read in both directions.
-/
import SwiftABI.Kind.Basic
import SwiftABI.Position
import SwiftABI.Text.Basic

namespace SwiftABI.Code

/-- What a code stands for, in a table. -/
def decode? {α β : Type} [DecidableEq α] (table : List (α × β)) (code : α) : Option β :=
  (table.find? fun entry => entry.1 = code).map Prod.snd

/-- The code of a value, in a table. -/
def encode? {α β : Type} [DecidableEq β] (table : List (α × β)) (value : β) : Option α :=
  (table.find? fun entry => entry.2 = value).map Prod.fst

/-! ### Names -/

/-- The module of imported Objective-C declarations. -/
def objcModule : Text := "__C".text

/-- The module of declarations that are made up while C is imported. -/
def importerModule : Text := "__C_Synthesized".text

def metatypeRepresentations : List (CodePoint × Text) :=
  [('t', "@thin".text), ('T', "@thick".text), ('o', "@objc_metatype".text)]

def builtinTypes : List (CodePoint × Text) :=
  [('b', "Builtin.BridgeObject".text), ('B', "Builtin.UnsafeValueBuffer".text),
   ('I', "Builtin.IntLiteral".text), ('O', "Builtin.UnknownObject".text),
   ('o', "Builtin.NativeObject".text), ('p', "Builtin.RawPointer".text),
   ('t', "Builtin.SILToken".text), ('w', "Builtin.Word".text)]

/-- The value witnesses, with their codes. The position of one is its index. -/
def valueWitnesses : List (Text × String) :=
  [("al".text, "allocateBuffer"), ("ca".text, "assignWithCopy"),
   ("ta".text, "assignWithTake"), ("de".text, "deallocateBuffer"),
   ("xx".text, "destroy"), ("Xx".text, "destroyArray"), ("XX".text, "destroyBuffer"),
   ("CP".text, "initializeBufferWithCopyOfBuffer"),
   ("Cp".text, "initializeBufferWithCopy"), ("cp".text, "initializeWithCopy"),
   ("Tk".text, "initializeBufferWithTake"), ("tk".text, "initializeWithTake"),
   ("pr".text, "projectBuffer"), ("TK".text, "initializeBufferWithTakeOfBuffer"),
   ("Cc".text, "initializeArrayWithCopy"),
   ("Tt".text, "initializeArrayWithTakeFrontToBack"),
   ("tT".text, "initializeArrayWithTakeBackToFront"), ("xs".text, "storeExtraInhabitant"),
   ("xg".text, "getExtraInhabitantIndex"), ("ug".text, "getEnumTag"),
   ("up".text, "destructiveProjectEnumData"), ("ui".text, "destructiveInjectEnumTag"),
   ("et".text, "getEnumTagSinglePayload"), ("st".text, "storeEnumTagSinglePayload")]

/-- The index of the value witness with a code. -/
def valueWitnessIndex? (code : Text) : Option Nat :=
  valueWitnesses.findIdx? fun entry => entry.1 = code

/-- The code and name of the value witness with an index. -/
def valueWitness? (index : Int) : Option (Text × String) := Position.pick valueWitnesses index

/-! ### Kinds -/

/-- The letters of accessors that have one letter. -/
def accessors : List (CodePoint × Kind) :=
  [('m', .materializeForSet), ('s', .setter), ('g', .getter), ('G', .globalGetter),
   ('w', .willSet), ('W', .didSet), ('r', .readAccessor), ('M', .modifyAccessor)]

/-- The letters of addressors for reading, which follow an `l`. -/
def addressors : List (CodePoint × Kind) :=
  [('O', .owningAddressor), ('o', .nativeOwningAddressor), ('p', .nativePinningAddressor),
   ('u', .unsafeAddressor)]

/-- The letters of addressors for writing, which follow an `a`. -/
def mutableAddressors : List (CodePoint × Kind) :=
  [('O', .owningMutableAddressor), ('o', .nativeOwningMutableAddressor),
   ('P', .nativePinningMutableAddressor), ('u', .unsafeMutableAddressor)]

/-- The letters of declarations that have no name of their own, which follow an `f`. -/
def functionEntities : List (CodePoint × Kind) :=
  [('D', .deallocator), ('d', .destructor), ('E', .ivarDestroyer), ('e', .ivarInitializer),
   ('i', .initializer), ('C', .allocator), ('c', .constructorDecl), ('U', .explicitClosure),
   ('u', .implicitClosure), ('A', .defaultArgumentInitializer)]

/-- The letters of function types other than the plain one, which follow an `X`. -/
def functionTypes : List (CodePoint × Kind) :=
  [('E', .noEscapeFunctionType), ('A', .escapingAutoClosureType), ('f', .thinFunctionType),
   ('K', .autoClosureType), ('B', .objcBlock), ('C', .cFunctionPointer)]

/-- The letters of reference storage, which follow an `X`. -/
def referenceStorage : List (CodePoint × Kind) :=
  [('o', .unowned), ('u', .unmanaged), ('w', .weak), ('D', .dynamicSelf)]

/-- The letters of type metadata, which follow an `M`. -/
def metadata : List (CodePoint × Kind) :=
  [('a', .typeMetadataAccessFunction), ('f', .fullTypeMetadata), ('n', .nominalTypeDescriptor),
   ('m', .metaclass)]

/-- The letters of types written with sugar around one other type, which follow an `XS`. -/
def sugar : List (CodePoint × Kind) :=
  [('q', .sugaredOptional), ('a', .sugaredArray), ('p', .sugaredParen)]

/-- The letters of nominal types that have one letter. -/
def nominals : List (CodePoint × Kind) :=
  [('C', .classType), ('O', .enumType), ('P', .protocolType), ('V', .structType),
   ('a', .typeAlias)]

/-- The letters of operator names, which follow an `o`. -/
def fixities : List (CodePoint × Kind) :=
  [('i', .infixOperator), ('p', .prefixOperator), ('P', .postfixOperator)]

/-! ### Numbers -/

/-- A number as a symbol spells it: zero is the mark alone, and any other number is one more than
the numeral before the mark says. -/
def index (n : Int) : Text := if n = 0 then ['_'] else Text.decimal (n - 1) ++ (['_'] : Text)

end SwiftABI.Code
