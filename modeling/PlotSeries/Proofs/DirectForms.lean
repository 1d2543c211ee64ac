import PlotSeries.Datum.Direct
import PlotSeries.Proofs.StructureForms

/-!
# The direct serialization is as documented

The serialization that the program runs with does what is documented of any
(`direct_documented`). Reading a structure is by recursion on its fields, so each way of
reading is an induction on them, from what one field is read as:

* `readEntries?_eq_some_iff`: an object is read name by name;
* `readItems?_eq_some_iff`: an array is read place by place.
-/

namespace PlotSeries

section Entries

variable {β : Type} {name : String} {entries : List (String × β)}

theorem lookup_eq_none_iff_not_mem : entries.lookup name = none ↔ name ∉ entries.map Prod.fst := by
  simp only [List.lookup_eq_none_iff, bne_iff_ne, List.mem_map, not_exists, not_and]
  exact ⟨fun h p hp heq => h p hp heq.symm, fun h p hp heq => h p hp heq.symm⟩

theorem mem_of_lookup_eq_some {item : β} (h : entries.lookup name = some item) :
    (name, item) ∈ entries := by
  obtain ⟨before, after, rfl, -⟩ := List.lookup_eq_some_iff.1 h
  exact List.mem_append_right before List.mem_cons_self

end Entries

theorem FieldKind.read?_eq_some_iff {kind : FieldKind} {item : Datum} {value : kind.Value} :
    kind.read? item = some value ↔ kind.Reads item value := by
  constructor
  · intro h
    cases kind <;> cases item <;> cases h <;> constructor
  · rintro (_ | _ | _ | _ | _) <;> rfl

/-- A field and those after it are read if each is. -/
theorem bind_pair_eq_some_iff {β γ : Type} {x? : Option β} {y? : Option γ} {x : β} {y : γ} :
    (x?.bind fun x => y?.bind fun y => some (x, y)) = some (x, y) ↔ x? = some x ∧ y? = some y := by
  simp [Option.bind_eq_some_iff]

namespace FieldForm

variable {α : Type} {standard : Option α} {a : α} {fields : List (FieldForm α)}

/-- A field is read by name as what is given under it, or else as the standard. -/
theorem read?_lookup_eq_some_iff {field : FieldForm α} {entries : List (String × Datum)}
    (hentries : (Datum.object entries).Proper) :
    field.read? standard (entries.lookup field.name) = some (field.get a) ↔
      (∀ item, (field.name, item) ∈ entries → field.kind.read? item = some (field.get a)) ∧
      (field.name ∉ entries.map Prod.fst → standard.map field.get = some (field.get a)) := by
  cases hlookup : entries.lookup field.name with
  | none =>
    have hmissing := lookup_eq_none_iff_not_mem.1 hlookup
    exact ⟨fun h => ⟨fun item hmem => absurd (List.mem_map_of_mem hmem) hmissing, fun _ => h⟩,
      fun h => h.2 hmissing⟩
  | some item =>
    have hmem := mem_of_lookup_eq_some hlookup
    refine ⟨fun h => ⟨fun item' hmem' => ?_, fun hmissing => ?_⟩, fun h => h.1 item hmem⟩
    · rwa [hentries.eq_of_mem hmem' hmem]
    · exact absurd (List.mem_map_of_mem hmem) hmissing

/-- The fields of an object are read each on its own. -/
theorem readEntries?_eq_some_iff {entries : List (String × Datum)} :
    readEntries? standard entries fields = some (values fields a) ↔ ∀ field ∈ fields,
      field.read? standard (entries.lookup field.name) = some (field.get a) := by
  induction fields with
  | nil => exact iff_of_true rfl nofun
  | cons field fields ih =>
    rw [List.forall_mem_cons, ← ih]
    exact bind_pair_eq_some_iff

/-- The fields of an array are read each on its own, those after its items as the standard. -/
theorem readItems?_eq_some_iff {items : List Datum} :
    readItems? standard fields items = some (values fields a) ↔
      items.length ≤ fields.length ∧
      (∀ field item, (field, item) ∈ fields.zip items →
        field.kind.read? item = some (field.get a)) ∧
      ∀ field ∈ fields.drop items.length, standard.map field.get = some (field.get a) := by
  induction fields generalizing items with
  | nil => cases items <;> simp [readItems?, values]
  | cons field fields ih =>
    have hstep : readItems? standard (field :: fields) items = some (values (field :: fields) a) ↔
        field.read? standard items.head? = some (field.get a) ∧
          readItems? standard fields items.tail = some (values fields a) :=
      bind_pair_eq_some_iff
    rw [hstep, ih]
    cases items with
    | nil => simp [read?]
    | cons item items => simp [read?, and_assoc, and_left_comm, or_imp, forall_and]

end FieldForm

namespace StructureForm

variable {α : Type} {form : StructureForm α} {a : α}

theorem map_make_eq_some_iff {row? : Option (FieldForm.Values form.fields)} :
    row?.map form.make = some a ↔ row? = some (FieldForm.values form.fields a) := by
  rw [Option.map_eq_some_iff]
  constructor
  · rintro ⟨row, rfl, rfl⟩
    rw [form.values_make]
  · rintro rfl
    exact ⟨_, rfl, form.make_values a⟩

end StructureForm

theorem NameForm.ofName?_eq_some_iff {α : Type} {form : NameForm α} {name : String} {a : α} :
    form.ofName? name = some a ↔ form.name a = name := by
  constructor
  · intro h
    exact eq_of_beq (List.find?_some (p := fun a => form.name a == name) h)
  · rintro rfl
    cases hfind : form.ofName? (form.name a) with
    | none => exact absurd BEq.rfl (List.find?_eq_none.1 hfind a (form.mem_values a))
    | some b =>
      have hname := List.find?_some (p := fun b => form.name b == form.name a) hfind
      rw [form.name_inj b a (eq_of_beq hname)]

namespace Serialization

theorem direct_documented : direct.Documented where
  readField_iff _ _ _ _ := FieldKind.read?_eq_some_iff
  writeField_flag _ := rfl
  writeField_index value := congrArg Datum.natural UInt64.ofNat_toNat
  writeField_double value h := if_pos h
  read_object form entries a hentries := by
    refine StructureForm.map_make_eq_some_iff.trans (FieldForm.readEntries?_eq_some_iff.trans ?_)
    exact forall₂_congr fun field _ => FieldForm.read?_lookup_eq_some_iff hentries
  read_array form items a _ :=
    StructureForm.map_make_eq_some_iff.trans FieldForm.readItems?_eq_some_iff
  object_or_array form d a _ h := by
    cases d with
    | object entries => exact .inl ⟨entries, rfl⟩
    | array items => exact .inr ⟨items, rfl⟩
    | _ => cases h
  write_fields form a := ⟨_, rfl, .refl _⟩
  read_text form text a := NameForm.ofName?_eq_some_iff
  read_tagged form tag content a _ := by
    cases content with
    | null => exact NameForm.ofName?_eq_some_iff.trans (and_iff_left rfl).symm
    | _ => exact iff_of_false nofun fun h => nomatch h.2
  text_or_tagged form d a _ h := by
    cases d with
    | text text => exact .inl ⟨text, rfl⟩
    | object entries =>
      rcases entries with _ | ⟨⟨tag, content⟩, _ | ⟨entry, entries⟩⟩
      · cases h
      · exact .inr ⟨tag, content, rfl⟩
      · cases content <;> cases h
    | _ => cases h
  write_names _ _ := rfl

end Serialization

end PlotSeries
