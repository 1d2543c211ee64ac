import Mathlib.Data.List.Nodup
import PlotSeries.Datum
import PlotSeries.Proofs.Rounding

/-!
# Forms of structures

What is documented of a serialization (`Serialization.Documented`) is stated once for all forms:
how scalars are read and written, where the fields of a structure are taken from, and how a name
is given. From it follow the laws of a structure (`StructureForm.Lawful`), whatever its table.

* `FieldKind.Reads`: the data that a field of each kind is read from, and as what.
* `StructureForm.exists_of_fields`: the fields of a structure do not depend on each other, so it
  can have any values that its fields can be read as.
* `Serialization.Documented.read_array_eq`: an array that is not too long is read as the object
  that has the names for its places, so that what holds of objects holds of arrays.
* `Serialization.Documented.read_write`: a structure that can be written is read back, bit for
  bit, and what has been read can be written (`Serialization.Documented.writable_of_read`).
* `Serialization.Documented.lawful`: the laws of structures;
  `Serialization.Documented.read_names_iff`: those of names.
-/

namespace PlotSeries

/-! ## Fields -/

namespace FieldKind

/-- A field of this kind is read from a datum as a value. An index is read from an integer that
is not negative, a double from any number, and an integer is rounded for it. -/
inductive Reads : (kind : FieldKind) → Datum → kind.Value → Prop
  | flag (value : Bool) : Reads flag (.bool value) value
  | index (value : UInt64) : Reads index (.natural value) value.toNat
  | natural (value : UInt64) : Reads double (.natural value) (Binary64.ofNat value.toNat)
  | negative (value : Int64) : Reads double (.negative value) (Binary64.ofInt value.toInt)
  | real (value : Binary64) : Reads double (.real value) value

/-- A field of this kind can be read from the datum. -/
def Fits (kind : FieldKind) (item : Datum) : Prop := ∃ value, kind.Reads item value

/-- There is a datum for the value. -/
def Writable : (kind : FieldKind) → kind.Value → Prop
  | flag, _ => True
  | index, (value : Nat) => value < 2 ^ 64
  | double, value => Binary64.isFinite value = true

instance : (kind : FieldKind) → (value : kind.Value) → Decidable (kind.Writable value)
  | flag, _ => inferInstanceAs (Decidable True)
  | index, (value : Nat) => inferInstanceAs (Decidable (value < 2 ^ 64))
  | double, value => inferInstanceAs (Decidable (Binary64.isFinite value = true))

/-- No field can be null. -/
theorem not_fits_null (kind : FieldKind) : ¬kind.Fits .null :=
  fun ⟨_, h⟩ => nomatch h

/-- What is read from a datum that can be stored can be written again. -/
theorem Reads.writable {kind : FieldKind} {item : Datum} {value : kind.Value}
    (h : kind.Reads item value) (hitem : item.Proper) : kind.Writable value := by
  cases h with
  | flag => trivial
  | index value => exact value.toNat_lt
  | natural value => exact Binary64.isFinite_nearest_zero _ value.toNat_lt
  | negative value =>
    have hlow := value.le_toInt
    have hhigh := value.toInt_lt
    exact Binary64.isFinite_nearest_zero _ (by omega)
  | real value =>
    cases hitem with
    | real _ hfinite => exact hfinite

end FieldKind

namespace FieldForm

variable {α : Type}

theorem values_eq_iff {fields : List (FieldForm α)} {a b : α} :
    values fields a = values fields b ↔ ∀ field ∈ fields, field.get a = field.get b := by
  induction fields with
  | nil => exact iff_of_true rfl nofun
  | cons field fields ih =>
    rw [List.forall_mem_cons, ← ih]
    exact Prod.mk.injEq .. ▸ Iff.rfl

/-- Values for each of the fields make a row of values. -/
theorem exists_values {P : (field : FieldForm α) → field.kind.Value → Prop}
    {fields : List (FieldForm α)} (h : ∀ field ∈ fields, ∃ value, P field value) :
    ∃ row : Values fields, ∀ a, values fields a = row → ∀ field ∈ fields, P field (field.get a) := by
  induction fields with
  | nil => exact ⟨(), fun _ _ => nofun⟩
  | cons field fields ih =>
    obtain ⟨⟨value, hvalue⟩, hrest⟩ := List.forall_mem_cons.1 h
    obtain ⟨row, hrow⟩ := ih hrest
    refine ⟨(value, row), fun a ha => List.forall_mem_cons.2 ?_⟩
    obtain ⟨rfl, hfields⟩ := Prod.mk.inj ha
    exact ⟨hvalue, hrow a hfields⟩

end FieldForm

/-! ## Serializations -/

/-- What is documented of a serialization, and all that is relied on of one. -/
structure Serialization.Documented (S : Serialization) : Prop where
  /-- A field is read from the scalars of its kind and from nothing else. -/
  readField_iff : ∀ (kind : FieldKind) (item : Datum) (value : kind.Value), item.Proper →
    (S.readField kind item = some value ↔ kind.Reads item value)
  writeField_flag : ∀ value : Bool, S.writeField .flag value = .bool value
  writeField_index : ∀ value : UInt64, S.writeField .index value.toNat = .natural value
  writeField_double : ∀ value : Binary64, value.isFinite = true →
    S.writeField .double value = .real value
  /-- The fields of a structure are taken from an object by their names. One that is left out is
  taken from the standard structure, and without one it is missing. Other names do not matter. -/
  read_object : ∀ {α : Type} (form : StructureForm α) (entries : List (String × Datum)) (a : α),
    (Datum.object entries).Proper →
    (S.read (.fields form) (.object entries) = some a ↔ ∀ field ∈ form.fields,
      (∀ item, (field.name, item) ∈ entries →
        S.readField field.kind item = some (field.get a)) ∧
      (field.name ∉ entries.map Prod.fst →
        form.standard.map field.get = some (field.get a)))
  /-- They are taken from an array by their places, and no item may be left over. -/
  read_array : ∀ {α : Type} (form : StructureForm α) (items : List Datum) (a : α),
    (Datum.array items).Proper →
    (S.read (.fields form) (.array items) = some a ↔
      items.length ≤ form.fields.length ∧
      (∀ field item, (field, item) ∈ form.fields.zip items →
        S.readField field.kind item = some (field.get a)) ∧
      ∀ field ∈ form.fields.drop items.length,
        form.standard.map field.get = some (field.get a))
  /-- Scalars are no structures. -/
  object_or_array : ∀ {α : Type} (form : StructureForm α) (d : Datum) (a : α), d.Proper →
    S.read (.fields form) d = some a → (∃ entries, d = .object entries) ∨ ∃ items, d = .array items
  /-- A structure is written as an object of its fields. -/
  write_fields : ∀ {α : Type} (form : StructureForm α) (a : α),
    ∃ entries, S.write (.fields form) a = .object entries ∧
      entries.Perm (form.fields.map fun field =>
        (field.name, S.writeField field.kind (field.get a)))
  /-- A name is a tag without content. It is read from a text, -/
  read_text : ∀ {α : Type} (form : NameForm α) (text : String) (a : α),
    S.read (.names form) (.text text) = some a ↔ form.name a = text
  /-- or from an object of one entry, whose datum is the content. -/
  read_tagged : ∀ {α : Type} (form : NameForm α) (tag : String) (content : Datum) (a : α),
    content.Proper →
    (S.read (.names form) (.object [(tag, content)]) = some a ↔
      form.name a = tag ∧ content = .null)
  /-- Nothing else has a tag. -/
  text_or_tagged : ∀ {α : Type} (form : NameForm α) (d : Datum) (a : α), d.Proper →
    S.read (.names form) d = some a →
      (∃ text, d = .text text) ∨ ∃ tag content, d = .object [(tag, content)]
  /-- A name is written as a text. -/
  write_names : ∀ {α : Type} (form : NameForm α) (a : α),
    S.write (.names form) a = .text (form.name a)

/-! ## Structures -/

/-- The names that the items of an array stand under. -/
theorem map_fst_zip_eq_take {β : Type} (names : List String) (items : List β) :
    (names.zip items).map Prod.fst = names.take items.length := by
  induction names generalizing items with
  | nil => rw [List.zip_nil_left, List.take_nil, List.map_nil]
  | cons name names ih =>
    cases items with
    | nil => rfl
    | cons item items => exact congrArg (name :: ·) (ih items)

namespace StructureForm

variable {α : Type} (form : StructureForm α)

/-- The names of the fields. -/
def names : List String := form.fields.map FieldForm.name

/-- The items are data for the fields, one for each. -/
def Fit (items : List Datum) : Prop :=
  items.length = form.fields.length ∧
    ∀ field item, (field, item) ∈ form.fields.zip items → field.kind.Fits item

/-- The structure has the values that its fields are read as. -/
def ReadAs (items : List Datum) (a : α) : Prop :=
  ∀ field item, (field, item) ∈ form.fields.zip items → field.kind.Reads item (field.get a)

/-- The laws of a structure with these fields that a serialization reads and writes. -/
structure Lawful (S : Serialization) : Prop where
  /-- A structure has no other parts than its fields. -/
  ext : ∀ a b, (∀ field ∈ form.fields, field.get a = field.get b) → a = b
  /-- From data for all fields the same structure is read, be they an array or, in any order
  and among any others, the entries of an object. -/
  complete : ∀ items, (Datum.array items).Proper → form.Fit items → ∃ a, form.ReadAs items a ∧
    S.read (.fields form) (.array items) = some a ∧
    ∀ entries, (Datum.object entries).Proper →
      (∀ entry ∈ form.names.zip items, entry ∈ entries) →
      S.read (.fields form) (.object entries) = some a
  /-- Without a standard structure no field may be left out of an object, -/
  missing : form.standard = none → ∀ field ∈ form.fields, ∀ entries,
    (Datum.object entries).Proper → field.name ∉ entries.map Prod.fst →
    S.read (.fields form) (.object entries) = none
  /-- nor out of an array. -/
  short : form.standard = none → ∀ items, (Datum.array items).Proper →
    items.length < form.fields.length → S.read (.fields form) (.array items) = none
  /-- With one, any fields may be left out of an object, and the standard structure gives
  those and no others. -/
  partly : ∀ standard, form.standard = some standard → ∀ entries, (Datum.object entries).Proper →
    (∀ field ∈ form.fields, ∀ item, (field.name, item) ∈ entries → field.kind.Fits item) →
    ∃ a, S.read (.fields form) (.object entries) = some a ∧ ∀ field ∈ form.fields,
      (∀ item, (field.name, item) ∈ entries → field.kind.Reads item (field.get a)) ∧
      (field.name ∉ entries.map Prod.fst → field.get a = field.get standard)
  /-- An array may leave out the last fields. -/
  partlyPlaced : ∀ standard, form.standard = some standard → ∀ items,
    (Datum.array items).Proper → items.length ≤ form.fields.length →
    (∀ field item, (field, item) ∈ form.fields.zip items → field.kind.Fits item) →
    ∃ a, S.read (.fields form) (.array items) = some a ∧ form.ReadAs items a ∧
      ∀ field ∈ form.fields.drop items.length, field.get a = field.get standard
  /-- The items of an array that is not too long are those of the first fields. -/
  places : ∀ items, (Datum.array items).Proper → items.length ≤ form.fields.length →
    S.read (.fields form) (.array items) = S.read (.fields form) (.object (form.names.zip items))
  /-- An array may not be too long. -/
  long : ∀ items, (Datum.array items).Proper → form.fields.length < items.length →
    S.read (.fields form) (.array items) = none
  /-- A field of an object must fit, -/
  misfit : ∀ entries, (Datum.object entries).Proper → ∀ field ∈ form.fields, ∀ item,
    (field.name, item) ∈ entries → ¬field.kind.Fits item →
    S.read (.fields form) (.object entries) = none
  /-- and so must one of an array. -/
  misplaced : ∀ items, (Datum.array items).Proper → ∀ field item,
    (field, item) ∈ form.fields.zip items → ¬field.kind.Fits item →
    S.read (.fields form) (.array items) = none
  /-- Nothing else is a structure. -/
  other : ∀ d : Datum, d.Proper → (∀ items, d ≠ .array items) →
    (∀ entries, d ≠ .object entries) → S.read (.fields form) d = none
  /-- A structure is written as an object that has the names of its fields and no others. -/
  written : ∀ a, ∃ entries, S.write (.fields form) a = .object entries ∧
    (entries.map Prod.fst).Perm form.names
  /-- What has been read is written so that it is read back. -/
  readBack : ∀ d a, d.Proper → S.read (.fields form) d = some a →
    S.read (.fields form) (S.write (.fields form) a) = some a

/-- The values that stand in for fields that are left out have data. -/
def StandardWritable : Prop := ∀ standard, form.standard = some standard →
  ∀ field ∈ form.fields, field.kind.Writable (field.get standard)

variable {form} {items : List Datum} {field field' : FieldForm α} {a b : α}

theorem ext_fields (h : ∀ field ∈ form.fields, field.get a = field.get b) : a = b := by
  rw [← form.make_values a, FieldForm.values_eq_iff.2 h, form.make_values b]

/-- There is a structure whose fields have values of any choice. -/
theorem exists_of_fields {P : (field : FieldForm α) → field.kind.Value → Prop}
    (h : ∀ field ∈ form.fields, ∃ value, P field value) :
    ∃ a, ∀ field ∈ form.fields, P field (field.get a) := by
  obtain ⟨row, hrow⟩ := FieldForm.exists_values h
  exact ⟨form.make row, hrow _ (form.values_make row)⟩

/-- A name is that of one field. -/
theorem eq_of_name_eq (hfield : field ∈ form.fields) (hfield' : field' ∈ form.fields)
    (h : field.name = field'.name) : field = field' :=
  List.inj_on_of_nodup_map form.nodup hfield hfield' h

/-! ### Places -/

/-- An item of an array stands under the name of its field. -/
theorem mem_zip_names {item : Datum} (h : (field, item) ∈ form.fields.zip items) :
    (field.name, item) ∈ form.names.zip items := by
  rw [names, List.zip_map_left]
  exact List.mem_map_of_mem (f := Prod.map FieldForm.name id) h

theorem mem_zip_of_mem_zip_names {item : Datum} (hfield : field ∈ form.fields)
    (h : (field.name, item) ∈ form.names.zip items) : (field, item) ∈ form.fields.zip items := by
  rw [names, List.zip_map_left] at h
  obtain ⟨⟨field', item'⟩, hmem, heq⟩ := List.mem_map.1 h
  obtain ⟨hname, rfl⟩ := Prod.mk.inj heq
  rwa [← eq_of_name_eq (List.of_mem_zip hmem).1 hfield hname]

/-- The fields that an array leaves out are those after its items. -/
theorem name_not_mem_zip_iff (hfield : field ∈ form.fields) :
    field.name ∉ (form.names.zip items).map Prod.fst ↔ field ∈ form.fields.drop items.length := by
  rw [map_fst_zip_eq_take, names, ← List.map_take, List.mem_map]
  constructor
  · intro h
    rw [← List.take_append_drop items.length form.fields] at hfield
    exact (List.mem_append.1 hfield).resolve_left fun htake => h ⟨field, htake, rfl⟩
  · rintro hdrop ⟨field', htake, hname⟩
    cases eq_of_name_eq (List.mem_of_mem_take htake) hfield hname
    exact List.disjoint_take_drop form.nodup.of_map (Nat.le_refl _) htake hdrop

theorem exists_mem_zip (hlength : items.length = form.fields.length) (h : field ∈ form.fields) :
    ∃ item, (field, item) ∈ form.fields.zip items := by
  obtain ⟨i, hi, rfl⟩ := List.getElem_of_mem h
  refine ⟨items[i], List.mem_iff_getElem.2 ⟨i, ?_, List.getElem_zip⟩⟩
  rw [List.length_zip]
  omega

/-- The object that has the names for the places of an array. -/
theorem proper_zip (h : (Datum.array items).Proper) :
    (Datum.object (form.names.zip items)).Proper := by
  cases h with
  | array _ hitems =>
    refine .object _ ?_ fun entry hentry => hitems _ (List.of_mem_zip hentry).2
    rw [map_fst_zip_eq_take]
    exact form.nodup.sublist (List.take_sublist _ _)

end StructureForm

namespace Datum.Proper

variable {entries : List (String × Datum)} {name : String} {item item' : Datum}

theorem of_mem (h : (Datum.object entries).Proper) (hmem : (name, item) ∈ entries) : item.Proper := by
  cases h with
  | object _ _ hentries => exact hentries _ hmem

/-- An object gives one datum for a name. -/
theorem eq_of_mem (h : (Datum.object entries).Proper) (hmem : (name, item) ∈ entries)
    (hmem' : (name, item') ∈ entries) : item = item' := by
  cases h with
  | object _ hnames _ => exact congrArg Prod.snd (List.inj_on_of_nodup_map hnames hmem hmem' rfl)

end Datum.Proper

/-- Data for all fields are those of a structure. -/
theorem StructureForm.exists_readAs {α : Type} {form : StructureForm α} {items : List Datum}
    (hitems : (Datum.array items).Proper) (hfit : form.Fit items) : ∃ a, form.ReadAs items a := by
  obtain ⟨hlength, hfits⟩ := hfit
  obtain ⟨a, ha⟩ : ∃ a, ∀ field ∈ form.fields, ∀ item, (field, item) ∈ form.fields.zip items →
      field.kind.Reads item (field.get a) := by
    refine form.exists_of_fields (P := fun field value => ∀ item,
      (field, item) ∈ form.fields.zip items → field.kind.Reads item value) fun field hfield => ?_
    obtain ⟨item, hmem⟩ := form.exists_mem_zip hlength hfield
    obtain ⟨value, hvalue⟩ := hfits field item hmem
    refine ⟨value, fun item' hmem' => ?_⟩
    rwa [(form.proper_zip hitems).eq_of_mem (form.mem_zip_names hmem') (form.mem_zip_names hmem)]
  exact ⟨a, fun field item hmem => ha field (List.of_mem_zip hmem).1 item hmem⟩

namespace Serialization.Documented

variable {S : Serialization} {α : Type} {form : StructureForm α} {a : α} {d : Datum}
  {entries : List (String × Datum)} {items : List Datum} {field : FieldForm α}

/-! ### Objects -/

/-- The fields of an object that are given have the values that are read. -/
theorem reads_of_read (hS : S.Documented) (hentries : (Datum.object entries).Proper)
    (h : S.read (.fields form) (.object entries) = some a) (hfield : field ∈ form.fields)
    {item : Datum} (hmem : (field.name, item) ∈ entries) :
    field.kind.Reads item (field.get a) := by
  have hread := ((hS.read_object form entries a hentries).1 h field hfield).1 item hmem
  exact (hS.readField_iff _ _ _ (hentries.of_mem hmem)).1 hread

/-- The others are those of the standard structure. -/
theorem standard_of_read (hS : S.Documented) (hentries : (Datum.object entries).Proper)
    (h : S.read (.fields form) (.object entries) = some a) (hfield : field ∈ form.fields)
    (hmissing : field.name ∉ entries.map Prod.fst) :
    ∃ standard, form.standard = some standard ∧ field.get standard = field.get a :=
  Option.map_eq_some_iff.1 (((hS.read_object form entries a hentries).1 h field hfield).2 hmissing)

/-- An object is read if the data that are given fit and the standard structure has the rest. -/
theorem read_object_of_reads (hS : S.Documented) (hentries : (Datum.object entries).Proper)
    (hgiven : ∀ field ∈ form.fields, ∀ item, (field.name, item) ∈ entries →
      field.kind.Reads item (field.get a))
    (hrest : ∀ field ∈ form.fields, field.name ∉ entries.map Prod.fst →
      form.standard.map field.get = some (field.get a)) :
    S.read (.fields form) (.object entries) = some a := by
  refine (hS.read_object form entries a hentries).2 fun field hfield => ⟨?_, hrest field hfield⟩
  intro item hmem
  exact (hS.readField_iff _ _ _ (hentries.of_mem hmem)).2 (hgiven field hfield item hmem)

theorem read_eq_none_of_misfit (hS : S.Documented) (hentries : (Datum.object entries).Proper)
    (hfield : field ∈ form.fields) {item : Datum} (hmem : (field.name, item) ∈ entries)
    (hmisfit : ¬field.kind.Fits item) : S.read (.fields form) (.object entries) = none :=
  Option.eq_none_iff_forall_ne_some.2 fun _ h =>
    hmisfit ⟨_, hS.reads_of_read hentries h hfield hmem⟩

theorem read_eq_none_of_missing (hS : S.Documented) (hstandard : form.standard = none)
    (hentries : (Datum.object entries).Proper) (hfield : field ∈ form.fields)
    (hmissing : field.name ∉ entries.map Prod.fst) :
    S.read (.fields form) (.object entries) = none := by
  refine Option.eq_none_iff_forall_ne_some.2 fun a h => ?_
  obtain ⟨standard, hsome, -⟩ := hS.standard_of_read hentries h hfield hmissing
  exact nomatch hstandard.symm.trans hsome

/-- Data for some of the fields, where the others have a standard. -/
theorem read_partly (hS : S.Documented) {standard : α} (hstandard : form.standard = some standard)
    (hentries : (Datum.object entries).Proper)
    (hfits : ∀ field ∈ form.fields, ∀ item, (field.name, item) ∈ entries → field.kind.Fits item) :
    ∃ a, S.read (.fields form) (.object entries) = some a ∧ ∀ field ∈ form.fields,
      (∀ item, (field.name, item) ∈ entries → field.kind.Reads item (field.get a)) ∧
      (field.name ∉ entries.map Prod.fst → field.get a = field.get standard) := by
  obtain ⟨a, ha⟩ : ∃ a, ∀ field ∈ form.fields,
      (∀ item, (field.name, item) ∈ entries → field.kind.Reads item (field.get a)) ∧
      (field.name ∉ entries.map Prod.fst → field.get a = field.get standard) := by
    refine form.exists_of_fields (P := fun field value =>
      (∀ item, (field.name, item) ∈ entries → field.kind.Reads item value) ∧
      (field.name ∉ entries.map Prod.fst → value = field.get standard)) fun field hfield => ?_
    by_cases hgiven : field.name ∈ entries.map Prod.fst
    · obtain ⟨⟨name, item⟩, hmem, rfl⟩ := List.mem_map.1 hgiven
      obtain ⟨value, hvalue⟩ := hfits field hfield item hmem
      refine ⟨value, fun item' hmem' => ?_, fun h => absurd hgiven h⟩
      rwa [hentries.eq_of_mem hmem' hmem]
    · refine ⟨field.get standard, fun item hmem => ?_, fun _ => rfl⟩
      exact absurd (List.mem_map_of_mem hmem) hgiven
  refine ⟨a, ?_, ha⟩
  refine hS.read_object_of_reads hentries (fun field hfield => (ha field hfield).1) ?_
  intro field hfield hmissing
  rw [(ha field hfield).2 hmissing, hstandard]
  rfl

/-! ### Arrays -/

/-- An array is read as the object that has the names for its places. -/
theorem read_array_eq (hS : S.Documented) (hitems : (Datum.array items).Proper)
    (hlength : items.length ≤ form.fields.length) :
    S.read (.fields form) (.array items) =
      S.read (.fields form) (.object (form.names.zip items)) := by
  refine Option.ext fun a => ?_
  rw [hS.read_array form items a hitems, hS.read_object form _ a (form.proper_zip hitems)]
  constructor
  · rintro ⟨-, hgiven, hrest⟩ field hfield
    refine ⟨fun item hmem => hgiven field item ?_, fun hmissing => hrest field ?_⟩
    · exact form.mem_zip_of_mem_zip_names hfield hmem
    · exact (form.name_not_mem_zip_iff hfield).1 hmissing
  · intro h
    refine ⟨hlength, fun field item hmem => ?_, fun field hdrop => ?_⟩
    · exact (h field (List.of_mem_zip hmem).1).1 item (form.mem_zip_names hmem)
    · have hfield := List.mem_of_mem_drop hdrop
      exact (h field hfield).2 ((form.name_not_mem_zip_iff hfield).2 hdrop)

theorem read_array_long (hS : S.Documented) (hitems : (Datum.array items).Proper)
    (hlength : form.fields.length < items.length) :
    S.read (.fields form) (.array items) = none :=
  Option.eq_none_iff_forall_ne_some.2 fun a h =>
    absurd ((hS.read_array form items a hitems).1 h).1 (Nat.not_le.2 hlength)

theorem read_array_short (hS : S.Documented) (hstandard : form.standard = none)
    (hitems : (Datum.array items).Proper) (hlength : items.length < form.fields.length) :
    S.read (.fields form) (.array items) = none := by
  refine Option.eq_none_iff_forall_ne_some.2 fun a h => ?_
  have hrest := ((hS.read_array form items a hitems).1 h).2.2
  -- the first field that is left out
  rw [List.drop_eq_getElem_cons hlength, hstandard] at hrest
  exact nomatch hrest _ List.mem_cons_self

theorem read_array_misplaced (hS : S.Documented) (hitems : (Datum.array items).Proper)
    {item : Datum} (hmem : (field, item) ∈ form.fields.zip items)
    (hmisfit : ¬field.kind.Fits item) : S.read (.fields form) (.array items) = none := by
  rcases Nat.lt_or_ge form.fields.length items.length with hlong | hle
  · exact hS.read_array_long hitems hlong
  · rw [hS.read_array_eq hitems hle]
    exact hS.read_eq_none_of_misfit (form.proper_zip hitems) (List.of_mem_zip hmem).1
      (form.mem_zip_names hmem) hmisfit

/-- Data for the first fields, where the others have a standard. -/
theorem read_array_partly (hS : S.Documented) {standard : α}
    (hstandard : form.standard = some standard) (hitems : (Datum.array items).Proper)
    (hlength : items.length ≤ form.fields.length)
    (hfits : ∀ field item, (field, item) ∈ form.fields.zip items → field.kind.Fits item) :
    ∃ a, S.read (.fields form) (.array items) = some a ∧ form.ReadAs items a ∧
      ∀ field ∈ form.fields.drop items.length, field.get a = field.get standard := by
  obtain ⟨a, ha, hfields⟩ := hS.read_partly hstandard (form.proper_zip hitems)
    fun field hfield item hmem => hfits field item (form.mem_zip_of_mem_zip_names hfield hmem)
  refine ⟨a, (hS.read_array_eq hitems hlength).trans ha, fun field item hmem => ?_,
    fun field hdrop => ?_⟩
  · exact (hfields field (List.of_mem_zip hmem).1).1 item (form.mem_zip_names hmem)
  · have hfield := List.mem_of_mem_drop hdrop
    exact (hfields field hfield).2 ((form.name_not_mem_zip_iff hfield).2 hdrop)

/-- All fields of an object with data for each are read from them. -/
theorem read_object_of_readAs (hS : S.Documented) (hlength : items.length = form.fields.length)
    (ha : form.ReadAs items a) (hentries : (Datum.object entries).Proper)
    (hsubset : ∀ entry ∈ form.names.zip items, entry ∈ entries) :
    S.read (.fields form) (.object entries) = some a := by
  -- each field is given, by the item of its place and by no other
  have hgiven : ∀ field ∈ form.fields, ∃ item, (field, item) ∈ form.fields.zip items ∧
      (field.name, item) ∈ entries := by
    intro field hfield
    obtain ⟨item, hmem⟩ := form.exists_mem_zip hlength hfield
    exact ⟨item, hmem, hsubset _ (form.mem_zip_names hmem)⟩
  refine hS.read_object_of_reads hentries ?_ ?_
  · intro field hfield item hentry
    obtain ⟨item', hmem, hentry'⟩ := hgiven field hfield
    rw [hentries.eq_of_mem hentry hentry']
    exact ha field item' hmem
  · intro field hfield hmissing
    obtain ⟨item, -, hentry⟩ := hgiven field hfield
    exact absurd (List.mem_map_of_mem hentry) hmissing

/-- Data for all fields, in any of the forms. -/
theorem read_complete (hS : S.Documented) (hitems : (Datum.array items).Proper)
    (hfit : form.Fit items) :
    ∃ a, form.ReadAs items a ∧ S.read (.fields form) (.array items) = some a ∧
      ∀ entries, (Datum.object entries).Proper →
        (∀ entry ∈ form.names.zip items, entry ∈ entries) →
        S.read (.fields form) (.object entries) = some a := by
  obtain ⟨a, ha⟩ := form.exists_readAs hitems hfit
  refine ⟨a, ha, ?_, fun entries => hS.read_object_of_readAs hfit.1 ha⟩
  rw [hS.read_array_eq hitems (Nat.le_of_eq hfit.1)]
  exact hS.read_object_of_readAs hfit.1 ha (form.proper_zip hitems) fun _ h => h

/-! ### Writing -/

/-- A value that can be written is read back, bit for bit. -/
theorem reads_writeField (hS : S.Documented) {kind : FieldKind} {value : kind.Value}
    (h : kind.Writable value) :
    (S.writeField kind value).Proper ∧ kind.Reads (S.writeField kind value) value := by
  cases kind with
  | flag =>
    rw [hS.writeField_flag value]
    exact ⟨.bool _, .flag _⟩
  | index =>
    obtain ⟨value, rfl⟩ : ∃ word : UInt64, value = word.toNat :=
      ⟨UInt64.ofNat value, (UInt64.toNat_ofNat_of_lt' h).symm⟩
    rw [hS.writeField_index value]
    exact ⟨.natural _, .index _⟩
  | double =>
    rw [hS.writeField_double value h]
    exact ⟨.real _ h, .real _⟩

/-- A structure is written under the names of its fields, and each field under its own. -/
theorem write_fields_entries (hS : S.Documented) (form : StructureForm α) (a : α) :
    ∃ entries, S.write (.fields form) a = .object entries ∧
      (entries.map Prod.fst).Perm form.names ∧
      ∀ entry ∈ entries, ∃ field ∈ form.fields,
        (field.name, S.writeField field.kind (field.get a)) = entry := by
  obtain ⟨entries, hwrite, hperm⟩ := hS.write_fields form a
  have hnames := hperm.map Prod.fst
  rw [List.map_map] at hnames
  exact ⟨entries, hwrite, hnames, fun entry hmem => List.mem_map.1 (hperm.mem_iff.1 hmem)⟩

/-- A structure that can be written is read back. -/
theorem read_write (hS : S.Documented)
    (hwritable : ∀ field ∈ form.fields, field.kind.Writable (field.get a)) :
    S.read (.fields form) (S.write (.fields form) a) = some a := by
  obtain ⟨entries, hwrite, hnames, hentry⟩ := hS.write_fields_entries form a
  have hentries : (Datum.object entries).Proper := by
    refine .object _ (hnames.nodup_iff.2 form.nodup) fun entry hmem => ?_
    obtain ⟨field, hfield, rfl⟩ := hentry entry hmem
    exact (hS.reads_writeField (hwritable field hfield)).1
  rw [hwrite]
  refine hS.read_object_of_reads hentries ?_ ?_
  · intro field hfield item hmem
    obtain ⟨field', hfield', heq⟩ := hentry _ hmem
    obtain ⟨hname, rfl⟩ := Prod.mk.inj heq
    cases form.eq_of_name_eq hfield' hfield hname
    exact (hS.reads_writeField (hwritable field hfield)).2
  · intro field hfield hmissing
    exact absurd (hnames.mem_iff.2 (List.mem_map_of_mem hfield)) hmissing

/-- What has been read from an object can be written. -/
theorem writable_of_read_object (hS : S.Documented) (hstandard : form.StandardWritable)
    (hentries : (Datum.object entries).Proper)
    (h : S.read (.fields form) (.object entries) = some a) :
    ∀ field ∈ form.fields, field.kind.Writable (field.get a) := by
  intro field hfield
  by_cases hgiven : field.name ∈ entries.map Prod.fst
  · obtain ⟨⟨name, item⟩, hmem, rfl⟩ := List.mem_map.1 hgiven
    exact (hS.reads_of_read hentries h hfield hmem).writable (hentries.of_mem hmem)
  · obtain ⟨standard, hsome, hget⟩ := hS.standard_of_read hentries h hfield hgiven
    exact hget ▸ hstandard standard hsome field hfield

theorem writable_of_read (hS : S.Documented) (hstandard : form.StandardWritable) (hd : d.Proper)
    (h : S.read (.fields form) d = some a) :
    ∀ field ∈ form.fields, field.kind.Writable (field.get a) := by
  rcases hS.object_or_array form d a hd h with ⟨entries, rfl⟩ | ⟨items, rfl⟩
  · exact hS.writable_of_read_object hstandard hd h
  · have hlength := ((hS.read_array form items a hd).1 h).1
    rw [hS.read_array_eq hd hlength] at h
    exact hS.writable_of_read_object hstandard (form.proper_zip hd) h

/-! ### The laws -/

theorem lawful (hS : S.Documented) (hstandard : form.StandardWritable) : form.Lawful S where
  ext _ _ := form.ext_fields
  complete _ := hS.read_complete
  missing hnone _ hfield _ hentries := hS.read_eq_none_of_missing hnone hentries hfield
  short hnone _ := hS.read_array_short hnone
  partly _ hsome _ := hS.read_partly hsome
  partlyPlaced _ hsome _ := hS.read_array_partly hsome
  places _ := hS.read_array_eq
  long _ := hS.read_array_long
  misfit _ hentries _ hfield _ := hS.read_eq_none_of_misfit hentries hfield
  misplaced _ hitems _ _ := hS.read_array_misplaced hitems
  other d hd harray hobject := by
    refine Option.eq_none_iff_forall_ne_some.2 fun a h => ?_
    rcases hS.object_or_array form d a hd h with ⟨entries, rfl⟩ | ⟨items, rfl⟩
    · exact hobject entries rfl
    · exact harray items rfl
  written a := by
    obtain ⟨entries, hwrite, hnames, -⟩ := hS.write_fields_entries form a
    exact ⟨entries, hwrite, hnames⟩
  readBack _ _ hd h := hS.read_write (hS.writable_of_read hstandard hd h)

/-! ## Names -/

/-- A name is read from a text and from an object that maps it to null. -/
theorem read_names_iff (hS : S.Documented) (form : NameForm α) (hd : d.Proper) :
    S.read (.names form) d = some a ↔
      d = .text (form.name a) ∨ d = .object [(form.name a, .null)] := by
  constructor
  · intro h
    rcases hS.text_or_tagged form d a hd h with ⟨text, rfl⟩ | ⟨tag, content, rfl⟩
    · exact .inl (congrArg Datum.text ((hS.read_text form text a).1 h).symm)
    · have hcontent : content.Proper := hd.of_mem List.mem_cons_self
      obtain ⟨rfl, rfl⟩ := (hS.read_tagged form tag content a hcontent).1 h
      exact .inr rfl
  · rintro (rfl | rfl)
    · exact (hS.read_text form _ a).2 rfl
    · exact (hS.read_tagged form _ _ a .null).2 ⟨rfl, rfl⟩

end Serialization.Documented

end PlotSeries
