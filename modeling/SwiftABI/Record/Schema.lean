/-
  Kinds of records.

  A `Schema` names the fields of a record and says how many bytes each of them takes, which for a
  pointer depends on the machine. Fields follow each other without gaps.

  A record also keeps some things about itself, under names that fields may have too: the
  `RecordProperty`s. What a field of such a name does to the record is told where records are.
-/
import SwiftABI.Bytes

namespace SwiftABI

/-- How many bytes a field takes. -/
inductive FieldType where
  | bytes (size : Int)
  | pointer
  /-- No type at all, by the name that was given for it. -/
  | unknown (name : String)

structure Field where
  name : String
  type : FieldType

/-- What a kind of record is made of. A schema without a list of fields describes no records. -/
structure Schema where
  name : String
  fields? : Option (List Field)

/-- What a record keeps about itself. -/
inductive RecordProperty where
  /-- The bytes of a pointer. -/
  | pointerSize
  /-- The order of the bytes. -/
  | order
  /-- The fields, in their order. -/
  | fields
  /-- The types of the fields. -/
  | types
  deriving DecidableEq

/-- The name under which a record keeps a property. -/
def RecordProperty.name : RecordProperty → String
  | .pointerSize => "ptr_size"
  | .order => "byte_order"
  | .fields => "_fields"
  | .types => "_field_sizes"

inductive RecordFault where
  | noFields
  /-- The fields of a schema without any are asked for. -/
  | noFieldList
  | noPointerSize
  | unknownType (name : String)
  | tooShort (schema : String) (needed : Int) (given : Nat)
  | valueCount (schema : String) (fields given : Nat)
  | noField (name : String)
  /-- A field has the name of something that is worked out from the fields. -/
  | derivedName (name : String)
  /-- A field has the name of a property that is needed, and a number cannot stand for it. -/
  | hidden (p : RecordProperty)
  | integer (f : IntegerFault)

namespace RecordFault

/-- The message of a fault. Some faults of names have none. -/
def message? : RecordFault → Option Text
  | .noFields => some "Do not use the bare Struct class; it must be implemented in an actual type"
  | .noFieldList => none
  | .noPointerSize =>
    some "Trying to get size on variable (ptr) sized type without a ptr_size"
  | .unknownType name => some ("Unknown field type " ++ name)
  | .tooShort schema needed given => some (schema ++ s!" needs {needed} bytes, got {given}")
  | .valueCount schema fields given =>
    some (schema ++ s!" has {fields} fields, got {given} values")
  | .noField name => some name
  | .derivedName _ => none
  | .hidden _ => none
  | .integer f => f.message?

end RecordFault

namespace FieldType

/-- The bytes of a field. -/
def size (pointerSize : Option Int) : FieldType → Except RecordFault Int
  | .bytes n => .ok n
  | .pointer =>
    match pointerSize with
    | some n => .ok n
    | none => .error .noPointerSize
  | .unknown name => .error (.unknownType name)

end FieldType

namespace Field

/-- The bytes of a list of fields. -/
def sizeAll (pointerSize : Option Int) : List Field → Except RecordFault Int
  | [] => .ok 0
  | f :: fs => do
    let size ← f.type.size pointerSize
    return size + (← sizeAll pointerSize fs)

/-- The offset of a field from the first of a list. -/
def offsetIn (pointerSize : Option Int) (name : String) : List Field → Except RecordFault Int
  | [] => .error (.noField name)
  | f :: fs =>
    if f.name = name then .ok 0
    else do
      let size ← f.type.size pointerSize
      return size + (← offsetIn pointerSize name fs)

/-- The names of what is worked out from the fields of a record: its bytes, and their names. No
field can be given one of these. -/
def derivedNames : List String := ["raw", "fields"]

/-- Has the field a name that no field can be given? -/
def isDerived (f : Field) : Bool := derivedNames.contains f.name

end Field

namespace Schema

/-- A schema with the given fields. A field that is named again keeps its place and takes the later
type. -/
def ofFields (name : String) (fields : List Field) : Schema :=
  ⟨name, some (fields.foldl add [])⟩
where
  /-- Adds a field to the ones before it. -/
  add (before : List Field) (f : Field) : List Field :=
    if before.any fun g => g.name = f.name then
      before.map fun g => if g.name = f.name then f else g
    else before ++ [f]

/-- The fields of a schema, of which some have none. -/
def fields (s : Schema) : List Field := s.fields?.getD []

/-- The fields of a schema that has some. -/
def fieldList (s : Schema) : Except RecordFault (List Field) :=
  match s.fields? with
  | some fields => .ok fields
  | none => .error .noFieldList

/-- Is there a field with the name of a property? -/
def hides (s : Schema) (p : RecordProperty) : Bool := s.fields.any fun f => f.name = p.name

/-- The bytes of a record. -/
def size (s : Schema) (pointerSize : Option Int) : Except RecordFault Int := do
  Field.sizeAll pointerSize (← s.fieldList)

/-- The offset of a field in a record. -/
def offsetOf (s : Schema) (pointerSize : Option Int) (name : String) : Except RecordFault Int := do
  Field.offsetIn pointerSize name (← s.fieldList)

end Schema

end SwiftABI
