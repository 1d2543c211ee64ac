import PlotSeries.Datum

/-!
# The direct serialization

The serialization that the program runs with. A structure is written as an object
of its fields, and read from an object, whatever else it holds, or from an array
of its fields in order. A name is written as a text, and also read from an object
that maps it to null.

* `FieldForm.readEntries?` takes the fields of a structure from an object by name.
* `FieldForm.readItems?` takes them from an array by place.
* `Structured` is a type that has a form.
-/

namespace PlotSeries

namespace FieldKind

/-- The value of a field. An integer is rounded to the nearest double. -/
def read? : (kind : FieldKind) → Datum → Option kind.Value
  | flag, .bool value => some value
  | index, .natural value => some value.toNat
  | double, .natural value => some (Binary64.ofNat value.toNat)
  | double, .negative value => some (Binary64.ofInt value.toInt)
  | double, .real value => some value
  | _, _ => none

/-- What a value is written as. Infinities and NaNs have no number and are written
as null. -/
def write : (kind : FieldKind) → kind.Value → Datum
  | flag, value => .bool value
  | index, value => .natural (UInt64.ofNat value)
  | double, value => if Binary64.isFinite value then .real value else .null

end FieldKind

namespace FieldForm

variable {α : Type}

/-- The value of a field that may be given. If it is not, a standard structure
gives it. -/
def read? (standard : Option α) (field : FieldForm α) : Option Datum → Option field.kind.Value
  | some item => field.kind.read? item
  | none => standard.map field.get

/-- The fields by name. -/
def readEntries? (standard : Option α) (entries : List (String × Datum)) :
    (fields : List (FieldForm α)) → Option (Values fields)
  | [] => some ()
  | field :: fields => do
    let value ← field.read? standard (entries.lookup field.name)
    let row ← readEntries? standard entries fields
    some (value, row)

/-- The fields by place. -/
def readItems? (standard : Option α) :
    (fields : List (FieldForm α)) → List Datum → Option (Values fields)
  | [], [] => some ()
  | [], _ :: _ => none
  | field :: fields, items => do
    let value ← field.read? standard items.head?
    let row ← readItems? standard fields items.tail
    some (value, row)

end FieldForm

/-- The fields of a structure by name or by place. -/
def StructureForm.read? {α : Type} (form : StructureForm α) : Datum → Option α
  | .object entries => (FieldForm.readEntries? form.standard entries form.fields).map form.make
  | .array items => (FieldForm.readItems? form.standard form.fields items).map form.make
  | _ => none

/-- All fields of a structure by name. -/
def StructureForm.write {α : Type} (form : StructureForm α) (a : α) : Datum :=
  .object (form.fields.map fun field => (field.name, field.kind.write (field.get a)))

namespace NameForm

variable {α : Type} (form : NameForm α)

/-- The value of a name. -/
def ofName? (name : String) : Option α := form.values.find? fun a => form.name a == name

/-- A name as it is, or as the only one of an object. -/
def read? : Datum → Option α
  | .text name => form.ofName? name
  | .object [(name, .null)] => form.ofName? name
  | _ => none

end NameForm

/-- Reading and writing field by field. -/
def Serialization.direct : Serialization where
  readField := FieldKind.read?
  writeField := FieldKind.write
  read
    | .fields form => form.read?
    | .names form => form.read?
  write
    | .fields form => form.write
    | .names form => fun a => .text (form.name a)

/-- A type of values that are written as data. -/
class Structured (α : Type) where
  form : Form α

namespace Structured

variable {α : Type} [Structured α]

/-- The value that a datum stands for. -/
def ofDatum? (d : Datum) : Option α := Serialization.direct.read form d

/-- The datum of a value. -/
def toDatum (a : α) : Datum := Serialization.direct.write form a

end Structured

end PlotSeries
