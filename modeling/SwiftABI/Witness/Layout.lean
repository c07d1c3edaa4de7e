/-
  Type layouts: what has to be known of a type to handle its values.

  A layout is made from a `LayoutDraft`, whose numbers can be anything, by `LayoutDraft.build`,
  which refuses numbers that fit no type. `TypeLayout.ofStruct` lays out a struct from the layouts
  of its fields, `noPayloadEnum` an enum from the number of its cases, and `ofRecord` recovers a
  layout from a value witness table.

  A layout can come with hooks, which are run when values are copied and destroyed. They stand for
  what the type has to do then besides moving bytes, such as counting references.
-/
import SwiftABI.Alignment
import SwiftABI.Bits
import SwiftABI.Config
import SwiftABI.Log
import SwiftABI.Witness.Session
import SwiftABI.Witness.Slot

namespace SwiftABI

/-- The numbers of a layout before they have been checked. -/
structure LayoutDraft where
  size : Int
  alignment : Int
  /-- How many bit patterns are no values of the type. They are the highest ones. -/
  extraInhabitants : Int := 0
  /-- Are values copied and destroyed by doing nothing but moving bytes? -/
  isPod : Bool := true
  /-- Are values moved by moving their bytes? -/
  isBitwiseTakable : Bool := true
  /-- The number of cases, if the type is an enum whose cases carry nothing. -/
  caseCount : Option Int := none
  hasSpareBits : Bool := false
  /-- What is run when a value has been copied, with the addresses of the copy and of its source. -/
  onCopy : Option (Int → Int → Run Unit) := none
  /-- What is run before a value is gone, with its address. -/
  onDestroy : Option (Int → Run Unit) := none
  pointerSize : Int

/-- The layout of a type. -/
structure TypeLayout where
  size : Nat
  alignment : Nat
  extraInhabitants : Nat
  isPod : Bool
  isBitwiseTakable : Bool
  caseCount : Option Nat
  hasSpareBits : Bool
  onCopy : Option (Int → Int → Run Unit) := none
  onDestroy : Option (Int → Run Unit) := none
  pointerSize : Int

/-- Why some numbers fit no type. -/
inductive LayoutFault where
  | negativeSize (size : Int)
  | alignmentPower (alignment : Int)
  | alignmentMask (alignment : Int)
  | inhabitantRange (count : Int)
  | inhabitantsOfNothing
  | inhabitantFit (count size : Int)
  | negativeCases (count : Int)
  | caseFit (count size : Int)
  deriving DecidableEq

namespace LayoutFault

def problem : LayoutFault → Text
  | .negativeSize size => s!"negative size {size}"
  | .alignmentPower a => s!"alignment {a} is not a power of two"
  | .alignmentMask a => s!"alignment {a} does not fit the alignment mask"
  | .inhabitantRange count => s!"extra inhabitant count {count} out of range"
  | .inhabitantsOfNothing => "zero sized types have no extra inhabitants"
  | .inhabitantFit count size => s!"{count} extra inhabitants do not fit in {size} bytes"
  | .negativeCases count => s!"negative case count {count}"
  | .caseFit count size => s!"{count} cases do not fit in {size} bytes"

def message (f : LayoutFault) : Text := "Invalid type layout: " ++ f.problem

def entries (f : LayoutFault) : List Log.Entry := [⟨.debug, f.message⟩]

end LayoutFault

/-- The greatest alignment less one that the flags of a layout can hold. -/
def alignmentMask : Nat := 0xFF

def maxExtraInhabitants : Nat := 0x7FFFFFFF

namespace LayoutDraft

/-- What is wrong with the number of cases. They are numbered from zero on, and the last of them has
to fit. -/
def caseFault? (d : LayoutDraft) : Option LayoutFault :=
  match d.caseCount with
  | none => none
  | some count =>
    if count < 0 then some (.negativeCases count)
    else if !Bytes.fits d.size.toNat (count.toNat - 1) then some (.caseFit count d.size)
    else none

/-- The first thing that is wrong with the numbers. -/
def fault? (d : LayoutDraft) : Option LayoutFault :=
  if d.size < 0 then some (.negativeSize d.size)
  else if !isPowerOfTwo d.alignment then some (.alignmentPower d.alignment)
  else if (alignmentMask : Int) < d.alignment - 1 then some (.alignmentMask d.alignment)
  else if d.extraInhabitants < 0 ∨ (maxExtraInhabitants : Int) < d.extraInhabitants then
    some (.inhabitantRange d.extraInhabitants)
  else if d.size = 0 ∧ d.extraInhabitants ≠ 0 then some .inhabitantsOfNothing
  else if d.size ≠ 0 ∧ !Bytes.fits d.size.toNat d.extraInhabitants.toNat then
    some (.inhabitantFit d.extraInhabitants d.size)
  else d.caseFault?

/-- The layout with these numbers, if they fit a type. -/
def build (d : LayoutDraft) : Except LayoutFault TypeLayout :=
  match d.fault? with
  | some f => .error f
  | none =>
    .ok
      { size := d.size.toNat
        alignment := d.alignment.toNat
        extraInhabitants := d.extraInhabitants.toNat
        isPod := d.isPod
        isBitwiseTakable := d.isBitwiseTakable
        caseCount := d.caseCount.map Int.toNat
        hasSpareBits := d.hasSpareBits
        onCopy := d.onCopy
        onDestroy := d.onDestroy
        pointerSize := d.pointerSize }

end LayoutDraft

namespace TypeLayout

/-- The numbers of a layout. -/
def draft (l : TypeLayout) : LayoutDraft :=
  { size := l.size
    alignment := l.alignment
    extraInhabitants := l.extraInhabitants
    isPod := l.isPod
    isBitwiseTakable := l.isBitwiseTakable
    caseCount := l.caseCount.map Int.ofNat
    hasSpareBits := l.hasSpareBits
    onCopy := l.onCopy
    onDestroy := l.onDestroy
    pointerSize := l.pointerSize }

/-- Do the numbers of the layout fit a type? -/
def Valid (l : TypeLayout) : Prop := l.draft.fault? = none

instance (l : TypeLayout) : Decidable l.Valid := by unfold Valid; infer_instance

/-! ### Layouts of structs and enums -/

/-- The offsets of fields of which the first can begin at `start`. -/
def offsets (start : Nat) : List TypeLayout → List Nat
  | [] => []
  | f :: fs =>
    let offset := roundUp start f.alignment
    offset :: offsets (offset + f.size) fs

/-- The end of the last of some fields of which the first can begin at `start`. -/
def endOfFields (start : Nat) : List TypeLayout → Nat
  | [] => start
  | f :: fs => endOfFields (roundUp start f.alignment + f.size) fs

/-- The greatest of some numbers and `least`. -/
def greatest (least : Nat) (ns : List Nat) : Nat := ns.foldl max least

/-- The layout of a struct. Each field begins at the next offset that its alignment allows, and the
struct takes over the extra inhabitants of the field that has most of them. -/
def ofStruct (pointerSize : Int) (fields : List TypeLayout) : Except LayoutFault TypeLayout :=
  LayoutDraft.build
    { size := endOfFields 0 fields
      alignment := greatest 1 (fields.map alignment)
      extraInhabitants := greatest 0 (fields.map extraInhabitants)
      isPod := fields.all isPod
      isBitwiseTakable := fields.all isBitwiseTakable
      hasSpareBits := fields.any hasSpareBits
      pointerSize }

/-- The bytes that the tag of an enum with `count` cases takes. -/
def tagSize (count : Int) : Nat :=
  if count ≤ 1 then 0 else if count ≤ 0x100 then 1 else if count ≤ 0x10000 then 2 else 4

/-- The layout of an enum whose cases carry nothing. Its values are tags, and the patterns that are
no tags are extra inhabitants. -/
def noPayloadEnum (pointerSize count : Int) : Except LayoutFault TypeLayout :=
  let size := tagSize count
  LayoutDraft.build
    { size
      alignment := max size 1
      extraInhabitants :=
        if size = 0 then 0 else min ((Bytes.patterns size : Int) - count) maxExtraInhabitants
      caseCount := some count
      pointerSize }

/-! ### Properties -/

/-- The distance of values that lie next to each other, which is never zero. -/
def stride (l : TypeLayout) : Nat := max 1 (roundUp l.size l.alignment)

def isEnum (l : TypeLayout) : Bool := l.caseCount.isSome

/-- Does a value live in the buffer itself, if that has `words` words? -/
def isInline (words : Int) (l : TypeLayout) : Bool :=
  l.isBitwiseTakable && decide ((l.size : Int) ≤ words * l.pointerSize)
    && decide ((l.alignment : Int) ≤ l.pointerSize)

/-! ### Flags -/

def nonPodBit : Nat := 16
def nonInlineBit : Nat := 17
def spareBitsBit : Nat := 19
def nonTakableBit : Nat := 20
def enumBit : Nat := 21

/-- The flags of a layout: its alignment less one, and a bit for each property. -/
def flags (words : Int) (l : TypeLayout) : Nat :=
  (l.alignment - 1) % (alignmentMask + 1) + bitIf (!l.isPod) nonPodBit
    + bitIf (!l.isInline words) nonInlineBit + bitIf l.hasSpareBits spareBitsBit
    + bitIf (!l.isBitwiseTakable) nonTakableBit + bitIf l.isEnum enumBit

/-- The layout that a table says a type has. A table does not say how many cases an enum has, nor
what its hooks are. -/
def ofRecord (cfg : Config) (pointerSize : Option Int) (r : Record) :
    Except LayoutFault TypeLayout :=
  let flags := r.value WitnessSlot.flags.name
  LayoutDraft.build
    { size := r.value WitnessSlot.size.name
      alignment := flags % (alignmentMask + 1 : Nat) + 1
      extraInhabitants := r.value WitnessSlot.extraInhabitantCount.name
      isPod := !bit flags nonPodBit
      isBitwiseTakable := !bit flags nonTakableBit
      hasSpareBits := bit flags spareBitsBit
      pointerSize := (pointerSize <|> r.packing.pointerSize).getD cfg.pointerSize }

/-- The layout as a message shows it. -/
def shown (words : Int) (l : TypeLayout) : Text :=
  s!"TypeLayout(size={l.size}, alignment={l.alignment}, stride={l.stride}, "
    ++ s!"extra_inhabitants={l.extraInhabitants}, flags="
    ++ Text.hex (l.flags words) ++ ")"

end TypeLayout

/-- Reads a value witness table out of some bytes. The slots of enums are read only if the flags say
that they are there. -/
def loadValueWitnesses (p : Packing) (raw : Bytes) : Except RecordFault Record := do
  let r ← Record.unpack .requiredValueWitnesses p raw
  if bit (r.value WitnessSlot.flags.name) TypeLayout.enumBit then
    Record.unpack .allValueWitnesses p raw
  else return r

/-- The log of reading a value witness table. -/
def loadLog (p : Packing) (raw : Bytes) : List Log.Entry :=
  match (loadValueWitnesses p raw).bind Record.shown with
  | .ok shown => [⟨.debug, "Loaded value witnesses: " ++ shown⟩]
  | .error _ => []

end SwiftABI
