import PlotSeries.Binary64.Rounding

/-!
# Structured data

The data in which records, policies, ranges and sign domains are stored: null,
booleans, numbers, texts, arrays and objects. Integers and reals are kept apart,
because an index is only read from an integer.

A type does not read or write its own values. It gives its form, and a
serialization reads and writes the values of all types by their forms. This is done
outside the library, which only relies on what is documented of it.

* `StructureForm` is the table of a structure: the names of its fields, what each
  of them holds, and the structure that gives the fields that are left out.
* `NameForm` is the table of a type whose values are names.
* `Serialization` is what reads and writes by such tables.
-/

namespace PlotSeries

/-- A structured value. -/
inductive Datum where
  | null
  | bool (value : Bool)
  /-- An integer from 0 on. -/
  | natural (value : UInt64)
  /-- An integer below 0. -/
  | negative (value : Int64)
  /-- A number that is not written as an integer, or too large for one. -/
  | real (value : Binary64)
  | text (value : String)
  | array (items : List Datum)
  | object (entries : List (String × Datum))
  deriving Inhabited

/-- The data that can be stored: a negative integer is below 0, a real is finite,
and no two entries of an object have the same name. -/
inductive Datum.Proper : Datum → Prop
  | null : Proper null
  | bool (value : Bool) : Proper (bool value)
  | natural (value : UInt64) : Proper (natural value)
  | negative (value : Int64) (h : value < 0) : Proper (negative value)
  | real (value : Binary64) (h : value.isFinite = true) : Proper (real value)
  | text (value : String) : Proper (text value)
  | array (items : List Datum) (h : ∀ item ∈ items, Proper item) : Proper (array items)
  | object (entries : List (String × Datum)) (hnames : (entries.map Prod.fst).Nodup)
      (h : ∀ entry ∈ entries, Proper entry.2) : Proper (object entries)

/-! ## Forms -/

/-- What a field of a structure holds. -/
inductive FieldKind where
  | flag
  | index
  | double
  deriving DecidableEq

/-- The values that a field of this kind can have. -/
def FieldKind.Value : FieldKind → Type
  | flag => Bool
  | index => Nat
  | double => Binary64

/-- A field of a structure of type `α`. -/
structure FieldForm (α : Type) where
  name : String
  kind : FieldKind
  get : α → kind.Value

namespace FieldForm

variable {α : Type}

/-- One value for each of the fields. -/
def Values : List (FieldForm α) → Type
  | [] => Unit
  | field :: fields => field.kind.Value × Values fields

/-- The values of the fields in a structure. -/
def values : (fields : List (FieldForm α)) → α → Values fields
  | [], _ => ()
  | field :: fields, a => (field.get a, values fields a)

end FieldForm

/-- A table of the fields of a structure, in order. -/
structure StructureForm (α : Type) where
  fields : List (FieldForm α)
  /-- The structure that gives the fields that are left out; without one none may be. -/
  standard : Option α
  /-- The structure with these values in its fields. -/
  make : FieldForm.Values fields → α
  nodup : (fields.map FieldForm.name).Nodup
  make_values : ∀ a, make (FieldForm.values fields a) = a
  values_make : ∀ row, FieldForm.values fields (make row) = row

/-- A table of the names of all values of a type. -/
structure NameForm (α : Type) where
  name : α → String
  values : List α
  mem_values : ∀ a, a ∈ values
  name_inj : ∀ a b, name a = name b → a = b

/-- The form of the values of a type. -/
inductive Form (α : Type) where
  | fields (form : StructureForm α)
  | names (form : NameForm α)

/-- What reads the values of all types from data and writes them, by their forms. -/
structure Serialization : Type 1 where
  readField : (kind : FieldKind) → Datum → Option kind.Value
  writeField : (kind : FieldKind) → kind.Value → Datum
  read : {α : Type} → Form α → Datum → Option α
  write : {α : Type} → Form α → α → Datum

end PlotSeries
