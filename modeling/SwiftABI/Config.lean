/-
  The settings that the whole library looks up.

  `prefixes` are the beginnings that make a text a symbol, and `emittedPrefix` is the one that new
  symbols get. The limits bound what a symbol may repeat, name and measure. The last two settings
  describe the machine that values live on.
-/
import SwiftABI.Text.Basic

namespace SwiftABI

structure Config where
  emittedPrefix : Text := "$s".text
  prefixes : List Text :=
    ["_T0".text, "$S".text, "_$S".text, "$s".text, "_$s".text]
  /-- How often one substitution may be repeated. -/
  maxRepeatCount : Int := 2048
  /-- How many words a symbol may refer back to. -/
  maxWords : Int := 26
  /-- A builtin type is smaller than this. -/
  maxBuiltinSize : Int := 4096
  /-- Are identifiers with other characters than a symbol may hold written in punycode? -/
  usePunycode : Bool := true
  /-- The bytes of a pointer, where a layout does not say. -/
  pointerSize : Int := 8
  /-- The words of a buffer that a value may live in. -/
  bufferWords : Int := 3

end SwiftABI
