import PlotSeries.Proofs.SortedList
import PlotSeries.Proofs.Stepwise

/-!
# Inserting records piece by piece

Records can be inserted one at a time, in batches to be sorted and in batches that
are sorted. However a sequence of records is cut into such pieces, and whatever is
done to the layout in between, the store ends with the same list: the stable sort of
what it held and the whole sequence behind it (`insertion_path_independence`).
-/

namespace PlotSeries

variable {R : Type} [PlotRecord R]

namespace Operation

/-- The records that an operation adds, as they are given. -/
def piece : Operation R → List R
  | add record => [record]
  | addBatch records _ => records
  | _ => []

/-- The operation adds a record or a batch, which is in key order if it is declared
sorted; or it is about the layout alone, like a squeeze; or it is of another kind and
happens to leave all records as they are, like a removal that drops nothing, after
which the store may squeeze itself. -/
def Inserts (op : Operation R) (s : Store R) : Prop :=
  match op with
  | add _ | squeeze _ | setAutoSqueeze _ | setPolicy _ | copy => True
  | addBatch records sorted => sorted = true → InKeyOrder records
  | _ => (op.apply s).state.toList = s.toList

/-- A removal of a key that is not a number drops nothing, though it may squeeze. -/
theorem inserts_removeKey_of_isNaN {key : Binary64} (h : key.isNaN = true) (s : Store R) :
    (removeKey key).Inserts s := by
  refine (s.toList_removeKey key).trans ?_
  have hne (r : R) : (sortKey r).numEq key = false := by simp [Binary64.numEq, h]
  unfold removeKeyFrom
  dsimp only
  split
  next record _ => rw [hne, if_neg Bool.false_ne_true]
  next => rfl

/-- An insertion into records in key order sorts its piece in. -/
theorem Inserts.toList_apply {op : Operation R} {s : Store R} (h : op.Inserts s)
    (hs : InKeyOrder s.toList) :
    (op.apply s).state.toList = sortByKey (s.toList ++ op.piece) := by
  have hidle (hpiece : op.piece = []) (hsame : (op.apply s).state.toList = s.toList) :
      (op.apply s).state.toList = sortByKey (s.toList ++ op.piece) := by
    rw [hsame, hpiece, List.append_nil, hs.sortByKey_eq]
  cases op with
  | add record => exact (s.toList_add record).trans (addTo_eq_sortByKey hs record)
  | addBatch records sorted =>
    exact (s.toList_addBatch records sorted).trans (addBatchTo_eq_sortByKey hs h)
  | squeeze request => exact hidle rfl (s.toList_squeeze request)
  | setAutoSqueeze enabled => exact hidle rfl (s.toList_setAutoSqueeze enabled)
  | setPolicy policy => exact hidle rfl rfl
  | copy => exact hidle rfl (Buffer.toList_copy s.buffer)
  | _ => exact hidle rfl h

/-- A run of insertions sorts all pieces in. -/
theorem toList_run_of_inserts {ops : List (Operation R)} {s : Store R}
    (h : Throughout Inserts ops s) (hs : InKeyOrder s.toList) :
    (run ops s).state.toList = sortByKey (s.toList ++ ops.flatMap piece) := by
  induction ops generalizing s with
  | nil => rw [state_run_nil, List.flatMap_nil, List.append_nil, hs.sortByKey_eq]
  | cons op ops ih =>
    have hstep := h.1.toList_apply hs
    have horder : InKeyOrder (op.apply s).state.toList := by
      rw [hstep]
      exact inKeyOrder_sortByKey _
    calc
      (run (op :: ops) s).state.toList
          = sortByKey ((op.apply s).state.toList ++ ops.flatMap piece) := by
        rw [state_run_cons, ih h.2 horder]
      _ = sortByKey (s.toList ++ (op :: ops).flatMap piece) := by
        rw [hstep, sortByKey_sortByKey_append, List.append_assoc, List.flatMap_cons]

end Operation

/-- A sequence of records can be cut into pieces in any way: inserting the pieces into
a store in key order leads to the stable sort of its records and the sequence, and so
does inserting other pieces of the same sequence into a store of the same records,
whatever the layouts, and whatever is done to them in between. -/
theorem insertion_path_independence {s : Store R} (hs : InKeyOrder s.toList)
    {ops : List (Operation R)} (hops : Throughout Operation.Inserts ops s) :
    (Operation.run ops s).state.toList =
        sortByKey (s.toList ++ ops.flatMap Operation.piece) ∧
      ∀ (t : Store R) (others : List (Operation R)), t.toList = s.toList →
        Throughout Operation.Inserts others t →
        others.flatMap Operation.piece = ops.flatMap Operation.piece →
        (Operation.run others t).state.toList = (Operation.run ops s).state.toList := by
  have hrun := Operation.toList_run_of_inserts hops hs
  refine ⟨hrun, fun t others hlist hothers hpieces => ?_⟩
  rw [hrun, Operation.toList_run_of_inserts hothers (hlist ▸ hs), hlist, hpieces]

/-- Two samples with equal keys at each seam, behind a pool. -/
def seamSamples : Store Sample where
  buffer := (Buffer.ofList [⟨.ofNat 1, ⟨1⟩⟩, ⟨.ofNat 2, ⟨2⟩⟩] 0).growPool ⟨0, 0⟩ 1

/-- Four samples in three pieces: one at the last key, a batch to be sorted around the
first, one in front; with squeezes and a removal of nothing in between. -/
def cutInThree : List (Operation Sample) :=
  [.add ⟨.ofNat 2, ⟨3⟩⟩, .squeeze ⟨true, true⟩, .addBatch [⟨.ofNat 1, ⟨4⟩⟩, ⟨0, ⟨5⟩⟩] false,
    .removeKey .nan, .setPolicy .disabled, .addBatch [] true,
    .addBatch [⟨⟨0x8000000000000000⟩, ⟨6⟩⟩] true]

/-- The same samples one by one. -/
def cutInFour : List (Operation Sample) :=
  [.add ⟨.ofNat 2, ⟨3⟩⟩, .add ⟨.ofNat 1, ⟨4⟩⟩, .add ⟨0, ⟨5⟩⟩, .add ⟨⟨0x8000000000000000⟩, ⟨6⟩⟩]

theorem cutInThree_eq_cutInFour :
    InKeyOrder seamSamples.toList ∧ Throughout Operation.Inserts cutInThree seamSamples ∧
      (Operation.run cutInFour seamSamples).state.toList =
        (Operation.run cutInThree seamSamples).state.toList :=
  have hs : InKeyOrder seamSamples.toList := by decide
  have hthree : Throughout Operation.Inserts cutInThree seamSamples :=
    ⟨trivial, trivial, fun h => Bool.noConfusion h, Operation.inserts_removeKey_of_isNaN rfl _, trivial,
      fun _ => by decide, fun _ => by decide, trivial⟩
  have hfour : Throughout Operation.Inserts cutInFour seamSamples :=
    ⟨trivial, trivial, trivial, trivial, trivial⟩
  ⟨hs, hthree, (insertion_path_independence hs hthree).2 seamSamples cutInFour rfl hfour rfl⟩

end PlotSeries
