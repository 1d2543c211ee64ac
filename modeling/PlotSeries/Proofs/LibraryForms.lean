import PlotSeries.Datum.Forms
import PlotSeries.Proofs.DirectForms

/-!
# The forms of the library's values

Records, index ranges, policies and sign domains are read and written by their tables alone. So
they keep the laws of structures and names in every serialization that does what is documented
of one (`library_forms_lawful`). The tables owe nothing but that the values of the standard
policy can be written (`standardWritable_policy`).
-/

namespace PlotSeries

namespace StructureForm

/-- Without a standard structure there is nothing to be written. -/
theorem standardWritable_of_none {α : Type} {form : StructureForm α}
    (h : form.standard = none) : form.StandardWritable :=
  fun _ hsome => nomatch h.symm.trans hsome

theorem standardWritable_policy : policy.StandardWritable := by
  intro standard h
  cases h
  show ∀ field ∈ policy.fields, field.kind.Writable (field.get SqueezePolicy.standard)
  decide

end StructureForm

end PlotSeries
