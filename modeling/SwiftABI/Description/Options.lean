/-
  What a description shows.

  Every option shows one thing more. They can be given as one number, a bit for each in the order of
  the fields.
-/
import SwiftABI.Bits

namespace SwiftABI

structure DisplayOptions where
  /-- Write optionals, arrays and dictionaries the short way. -/
  synthesizeSugar : Bool
  /-- Write the context of a declaration before it. -/
  qualifyEntities : Bool
  /-- Say which module an extension is in. -/
  extensionContexts : Bool
  /-- Show what follows the symbol. -/
  unmangledSuffix : Bool
  moduleNames : Bool
  entityTypes : Bool
  /-- Show what tells private declarations of one name apart. -/
  privateDiscriminators : Bool
  functionArgumentTypes : Bool
  deriving DecidableEq

namespace DisplayOptions

/-- The options that the bits of a number stand for. -/
def ofBits (n : Int) : DisplayOptions :=
  { synthesizeSugar := bit n 0
    qualifyEntities := bit n 1
    extensionContexts := bit n 2
    unmangledSuffix := bit n 3
    moduleNames := bit n 4
    entityTypes := bit n 5
    privateDiscriminators := bit n 6
    functionArgumentTypes := bit n 7 }

/-- Everything is shown, and sugar is not used. -/
def standard : DisplayOptions := ofBits 254

/-- Sugar is used, and only contexts are shown. -/
def simplified : DisplayOptions := ofBits 3

end DisplayOptions

end SwiftABI
