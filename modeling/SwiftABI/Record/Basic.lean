/-
  Records: integers that lie one after the other in a sequence of bytes.

  A `Record` gives every field of a schema a value, and is packed into bytes and unpacked from them.

  A field that has the name of a property hides that property from the moment it has a value. The
  size of a pointer is a number as well, so such a field takes its place when the record is packed
  (`machine`) or compared (`number?`). Where another property is needed, hiding it is a fault.
-/
import SwiftABI.Position
import SwiftABI.Record.Schema

namespace SwiftABI

/-- The machine that a record lies on. -/
structure Packing where
  order : OrderRequest := .known .little
  /-- The bytes of a pointer, if they are known. -/
  pointerSize : Option Int := some 8

/-- Values for the fields of a schema, in their order. -/
structure Record where
  schema : Schema
  values : List Int
  packing : Packing

namespace Record

/-- Reads the fields of a list out of some bytes, from the offset on. Once the types are hidden, no
further field can be read. -/
def unpackFields (p : Packing) (raw : Bytes) (offset : Int) :
    List Field → Except RecordFault (List Int)
  | [] => .ok []
  | f :: fs => do
    let size ← f.type.size p.pointerSize
    let value ← (Bytes.decode p.order (Position.slice raw offset (offset + size))).mapError .integer
    if f.isDerived then throw (.derivedName f.name)
    if f.name = RecordProperty.types.name && !fs.isEmpty then throw (.hidden .types)
    return value :: (← unpackFields p raw (offset + size) fs)

/-- Reads a record out of some bytes, of which there may be more than it needs. -/
def unpack (s : Schema) (p : Packing) (raw : Bytes) : Except RecordFault Record := do
  if s.fields?.isNone then throw .noFields
  let needed ← s.size p.pointerSize
  if (raw.length : Int) < needed then throw (.tooShort s.name needed raw.length)
  return ⟨s, ← unpackFields p raw 0 s.fields, p⟩

/-- A record with the given values. They are not looked at yet. -/
def ofValues (s : Schema) (p : Packing) (values : List Int) : Except RecordFault Record := do
  if s.fields?.isNone then throw .noFields
  if values.length ≠ s.fields.length then
    throw (.valueCount s.name s.fields.length values.length)
  match s.fields.find? Field.isDerived with
  | some f => throw (.derivedName f.name)
  | none => return ⟨s, values, p⟩

/-! ### Looking at a record -/

/-- The fields with their values. -/
def entries (r : Record) : List (Field × Int) := r.schema.fields.zip r.values

/-- The fields with their values, if the list of the fields is not hidden. -/
def visibleEntries (r : Record) : Except RecordFault (List (Field × Int)) :=
  if r.schema.hides .fields then .error (.hidden .fields) else .ok r.entries

/-- The value of a field. -/
def value? (r : Record) (name : String) : Option Int :=
  (r.entries.find? fun e => e.1.name = name).map Prod.snd

/-- The value of a field, or zero if there is none. -/
def value (r : Record) (name : String) : Int := (r.value? name).getD 0

/-- The number that a record has under a name: the value of a field, or else the bytes of a pointer,
if it is their name. -/
def number? (r : Record) (name : String) : Option Int :=
  match r.value? name with
  | some n => some n
  | none => if name = RecordProperty.pointerSize.name then r.packing.pointerSize else none

/-- The values of the fields, in their order. -/
def listed (r : Record) : Except RecordFault (List Int) :=
  r.visibleEntries.map fun entries => entries.map Prod.snd

/-- Has `s` the same numbers under the names of all fields of `r`? It may have more of them. -/
def agrees (r s : Record) : Except RecordFault Bool :=
  r.visibleEntries.map fun entries => entries.all fun e => s.number? e.1.name = some e.2

/-- A record as a message shows it. The last two characters of the fields are replaced, which are a
separator if there are any fields. -/
def shown (r : Record) : Except RecordFault Text :=
  r.visibleEntries.map fun entries =>
    let fields := entries.flatMap fun (f, v) => f.name.text ++ "=" ++ Text.hex v ++ ", "
    (r.schema.name.text ++ "(" ++ fields).dropLast.dropLast ++ ")"

/-! ### Packing -/

/-- The machine that a record is packed for, once its fields have values. -/
def machine (r : Record) : Packing :=
  { order := if r.schema.hides .order then .nameless else r.packing.order
    pointerSize := r.number? RecordProperty.pointerSize.name }

/-- The bytes of fields with values. -/
def packFields (p : Packing) : List (Field × Int) → Except RecordFault Bytes
  | [] => .ok []
  | (f, value) :: rest => do
    let size ← f.type.size p.pointerSize
    let bytes ← (Bytes.encode p.order size value).mapError .integer
    return bytes ++ (← packFields p rest)

/-- The bytes of a record. -/
def pack (r : Record) : Except RecordFault Bytes := do
  let entries ← r.visibleEntries
  if r.schema.hides .types then throw (.hidden .types)
  packFields r.machine entries

end Record

end SwiftABI
