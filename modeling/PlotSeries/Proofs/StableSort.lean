import PlotSeries.Proofs.Bounds

/-!
# Stable sorting by key

A run in key order is determined by its records at each place, in their order
(`InKeyOrder.eq_of_filter`). Stable sorting keeps the records at each place in
their order (`filter_sortByKey`), so any run that is in key order and has the
same records at each place as a list is the stable sort of that list
(`InKeyOrder.eq_sortByKey`). Every way of adding records to a run in key order
is compared with the stable sort through this:

* `sortByKey_append_of_le`: records not below the run go behind it;
* `sortByKey_append_of_lt`: records below the run go in front of it;
* `sortByKey_append_singleton`: one record goes to its upper bound;
* `mergeRuns_eq_sortByKey`: the merge of two runs in key order.
-/

namespace PlotSeries

variable {R : Type} [PlotRecord R]

/-- The record stands at this place of the key order. -/
def atPlace (p : Int) (r : R) : Bool := decide (place r = p)

theorem atPlace_iff {p : Int} {r : R} : atPlace p r = true ↔ place r = p := decide_eq_true_iff

theorem atPlace_place (r : R) : atPlace (place r) r = true := atPlace_iff.2 rfl

/-- No record of a run that stays away from a place is selected there. -/
theorem filter_atPlace_eq_nil {run : List R} {p : Int} (h : ∀ r ∈ run, place r ≠ p) :
    run.filter (atPlace p) = [] :=
  List.filter_eq_nil_iff.2 fun r hr hp => h r hr (atPlace_iff.1 hp)

/-! ## Runs in key order -/

theorem inKeyOrder_cons {r : R} {run : List R} :
    InKeyOrder (r :: run) ↔ (∀ x ∈ run, place r ≤ place x) ∧ InKeyOrder run := by
  simp only [InKeyOrder, List.pairwise_cons, recordLe_iff]

theorem inKeyOrder_append {l r : List R} :
    InKeyOrder (l ++ r) ↔
      InKeyOrder l ∧ InKeyOrder r ∧ ∀ x ∈ l, ∀ y ∈ r, place x ≤ place y := by
  simp only [InKeyOrder, List.pairwise_append, recordLe_iff]

theorem InKeyOrder.sublist {l run : List R} (h : InKeyOrder run) (hs : l.Sublist run) :
    InKeyOrder l :=
  List.Pairwise.sublist hs h

/-- A run in key order is determined by its records at each place. -/
theorem InKeyOrder.eq_of_filter {l m : List R} (hl : InKeyOrder l) (hm : InKeyOrder m)
    (h : ∀ p, l.filter (atPlace p) = m.filter (atPlace p)) : l = m := by
  induction l generalizing m with
  | nil =>
    cases m with
    | nil => rfl
    | cons b m => simpa [atPlace_place] using h (place b)
  | cons a l ih =>
    cases m with
    | nil => simpa [atPlace_place] using h (place a)
    | cons b m =>
      -- each head occurs in the other run, so neither is above the other
      have ha : a ∈ b :: m := by
        have : a ∈ (b :: m).filter (atPlace (place a)) := h (place a) ▸ by simp [atPlace_place]
        exact (List.mem_filter.1 this).1
      have hb : b ∈ a :: l := by
        have : b ∈ (a :: l).filter (atPlace (place b)) := h (place b) ▸ by simp [atPlace_place]
        exact (List.mem_filter.1 this).1
      have hab : place a = place b := by
        refine Int.le_antisymm ?_ ?_
        · rcases List.mem_cons.1 hb with rfl | hb
          · exact Int.le_refl _
          · exact (inKeyOrder_cons.1 hl).1 b hb
        · rcases List.mem_cons.1 ha with rfl | ha
          · exact Int.le_refl _
          · exact (inKeyOrder_cons.1 hm).1 a ha
      have hhead : a = b := by
        have := h (place a)
        rw [List.filter_cons_of_pos (atPlace_place a),
          List.filter_cons_of_pos (atPlace_iff.2 hab.symm)] at this
        exact List.head_eq_of_cons_eq this
      subst hhead
      refine congrArg _ (ih (inKeyOrder_cons.1 hl).2 (inKeyOrder_cons.1 hm).2 fun p => ?_)
      have := h p
      simp only [List.filter_cons] at this
      split at this
      · exact List.tail_eq_of_cons_eq this
      · exact this

/-! ## The stable sort -/

theorem inKeyOrder_sortByKey (l : List R) : InKeyOrder (sortByKey l) :=
  List.pairwise_mergeSort recordLe_trans recordLe_total l

theorem sortByKey_perm (l : List R) : (sortByKey l).Perm l :=
  List.mergeSort_perm l recordLe

theorem InKeyOrder.sortByKey_eq {run : List R} (h : InKeyOrder run) : sortByKey run = run :=
  List.mergeSort_of_pairwise h

/-- Sorting keeps the order of the records at each place. -/
theorem filter_sortByKey (l : List R) (p : Int) :
    (sortByKey l).filter (atPlace p) = l.filter (atPlace p) := by
  have hp : InKeyOrder (l.filter (atPlace p)) := by
    refine List.pairwise_of_forall_mem_list fun a ha b hb => recordLe_iff.2 (Int.le_of_eq ?_)
    rw [atPlace_iff.1 (List.mem_filter.1 ha).2, atPlace_iff.1 (List.mem_filter.1 hb).2]
  have hsub : (l.filter (atPlace p)).Sublist (sortByKey l) :=
    List.sublist_mergeSort recordLe_trans recordLe_total hp List.filter_sublist
  have hsub' := hsub.filter (atPlace p)
  simp only [List.filter_filter, Bool.and_self] at hsub'
  exact (hsub'.eq_of_length ((sortByKey_perm l).filter (atPlace p)).length_eq.symm).symm

/-- A run in key order with the records of a list at each place is its stable sort. -/
theorem InKeyOrder.eq_sortByKey {l run : List R} (h : InKeyOrder run)
    (hf : ∀ p, run.filter (atPlace p) = l.filter (atPlace p)) : run = sortByKey l :=
  h.eq_of_filter (inKeyOrder_sortByKey l) fun p => (hf p).trans (filter_sortByKey l p).symm

/-- What a stable sort by key makes of records: the same records, in key order, and those at one
place of the order as they were. -/
structure IsStableSort (records sorted : List R) : Prop where
  perm : sorted.Perm records
  inKeyOrder : InKeyOrder sorted
  stable : ∀ p, sorted.filter (atPlace p) = records.filter (atPlace p)

theorem isStableSort_sortByKey (l : List R) : IsStableSort l (sortByKey l) where
  perm := sortByKey_perm l
  inKeyOrder := inKeyOrder_sortByKey l
  stable := filter_sortByKey l

/-- Records that are to be sorted in may be sorted before. -/
theorem sortByKey_append_sortByKey (l r : List R) :
    sortByKey (l ++ sortByKey r) = sortByKey (l ++ r) := by
  refine (inKeyOrder_sortByKey _).eq_sortByKey fun p => ?_
  rw [filter_sortByKey, List.filter_append, List.filter_append, filter_sortByKey]

/-- Records that others are to be sorted into may be sorted before. -/
theorem sortByKey_sortByKey_append (l r : List R) :
    sortByKey (sortByKey l ++ r) = sortByKey (l ++ r) := by
  refine (inKeyOrder_sortByKey _).eq_sortByKey fun p => ?_
  rw [filter_sortByKey, List.filter_append, List.filter_append, filter_sortByKey]

theorem sortByKey_append_of_le {l r : List R} (hl : InKeyOrder l) (hr : InKeyOrder r)
    (h : ∀ x ∈ l, ∀ y ∈ r, place x ≤ place y) : sortByKey (l ++ r) = l ++ r :=
  (inKeyOrder_append.2 ⟨hl, hr, h⟩).sortByKey_eq

theorem sortByKey_append_of_lt {l r : List R} (hl : InKeyOrder l) (hr : InKeyOrder r)
    (h : ∀ x ∈ r, ∀ y ∈ l, place x < place y) : sortByKey (l ++ r) = r ++ l := by
  have hrl : InKeyOrder (r ++ l) :=
    inKeyOrder_append.2 ⟨hr, hl, fun x hx y hy => Int.le_of_lt (h x hx y hy)⟩
  refine (hrl.eq_sortByKey fun p => ?_).symm
  rw [List.filter_append, List.filter_append]
  -- at no place are there records of both lists
  by_cases hp : ∃ x ∈ r, place x = p
  · obtain ⟨x, hx, rfl⟩ := hp
    rw [filter_atPlace_eq_nil fun y hy => Ne.symm (Int.ne_of_lt (h x hx y hy)), List.append_nil,
      List.nil_append]
  · rw [filter_atPlace_eq_nil fun x hx hxp => hp ⟨x, hx, hxp⟩, List.append_nil, List.nil_append]

theorem sortByKey_append_singleton {l : List R} (hl : InKeyOrder l) (r : R) :
    sortByKey (l ++ [r]) =
      l.take (runUpperBound l (sortKey r)) ++ r :: l.drop (runUpperBound l (sortKey r)) := by
  have hle : ∀ x ∈ _, place x ≤ place r := take_runUpperBound hl (sortKey r)
  have hgt : ∀ x ∈ _, place r < place x := drop_runUpperBound hl (sortKey r)
  generalize runUpperBound l (sortKey r) = i at hle hgt
  have hrun : InKeyOrder (l.take i ++ r :: l.drop i) := by
    refine inKeyOrder_append.2 ⟨hl.sublist (List.take_sublist i l),
      inKeyOrder_cons.2 ⟨fun x hx => Int.le_of_lt (hgt x hx), hl.sublist (List.drop_sublist i l)⟩,
      fun x hx y hy => ?_⟩
    rcases List.mem_cons.1 hy with rfl | hy
    · exact hle x hx
    · exact Int.le_trans (hle x hx) (Int.le_of_lt (hgt y hy))
  refine (hrun.eq_sortByKey fun p => ?_).symm
  have hsplit : l.filter (atPlace p) =
      (l.take i).filter (atPlace p) ++ (l.drop i).filter (atPlace p) := by
    rw [← List.filter_append, List.take_append_drop]
  rw [List.filter_append, List.filter_append, hsplit, List.filter_cons]
  -- behind the place of `r` the run has no record at it
  by_cases hp : place r = p
  · subst hp
    rw [filter_atPlace_eq_nil fun x hx => Ne.symm (Int.ne_of_lt (hgt x hx))]
    simp [atPlace_place]
  · simp [atPlace, hp]

/-! ## Merging -/

/-- Of two runs in key order, a merge has the records of the first in front at each place. -/
theorem filter_merge {l r : List R} (hl : InKeyOrder l) (hr : InKeyOrder r) (p : Int) :
    (l.merge r recordLe).filter (atPlace p) = l.filter (atPlace p) ++ r.filter (atPlace p) := by
  induction l generalizing r with
  | nil => simp
  | cons a l ihl =>
    induction r with
    | nil => simp
    | cons b r ihr =>
      have ha := inKeyOrder_cons.1 hl
      have hb := inKeyOrder_cons.1 hr
      by_cases hab : recordLe a b = true
      · rw [List.cons_merge_cons_pos _ _ _ hab, List.filter_cons, ihl ha.2 hr]
        simp only [List.filter_cons (x := a)]
        split <;> rfl
      · rw [List.cons_merge_cons_neg _ _ _ hab, List.filter_cons, ihr hb.2]
        simp only [List.filter_cons (x := b)]
        split
        next hp =>
          -- `b` is below all of the first run, which has no record at its place
          rw [recordLe_iff] at hab
          have hb' := atPlace_iff.1 hp
          have hnone : ∀ x ∈ a :: l, place x ≠ p := by
            intro x hx
            rcases List.mem_cons.1 hx with rfl | hx
            · omega
            · have := ha.1 x hx
              omega
          rw [filter_atPlace_eq_nil hnone]
          rfl
        next => rfl

/-- Between a part below two runs and one above them, merging the two is stable sorting. -/
theorem merge_window_eq_sortByKey {a b c d : List R} (hab : InKeyOrder (a ++ b))
    (hcd : InKeyOrder (c ++ d)) (hac : ∀ x ∈ a, ∀ y ∈ c ++ d, place x ≤ place y)
    (hbd : ∀ x ∈ a ++ b, ∀ y ∈ d, place x ≤ place y) :
    a ++ b.merge c recordLe ++ d = sortByKey ((a ++ b) ++ (c ++ d)) := by
  obtain ⟨ha, hb, hab⟩ := inKeyOrder_append.1 hab
  obtain ⟨hc, hd, hcd⟩ := inKeyOrder_append.1 hcd
  have hbc : InKeyOrder (b.merge c recordLe) :=
    List.pairwise_merge recordLe_trans recordLe_total b c hb hc
  have hmem : ∀ x ∈ b.merge c recordLe, x ∈ b ∨ x ∈ c := fun x hx => List.mem_merge.1 hx
  have h : InKeyOrder (a ++ b.merge c recordLe ++ d) := by
    refine inKeyOrder_append.2 ⟨inKeyOrder_append.2 ⟨ha, hbc, fun x hx y hy => ?_⟩, hd,
      fun x hx y hy => ?_⟩
    · rcases hmem y hy with hy | hy
      · exact hab x hx y hy
      · exact hac x hx y (List.mem_append_left _ hy)
    · rcases List.mem_append.1 hx with hx | hx
      · exact hbd x (List.mem_append_left _ hx) y hy
      · rcases hmem x hx with hx | hx
        · exact hbd x (List.mem_append_right _ hx) y hy
        · exact hcd x hx y hy
  refine h.eq_sortByKey fun p => ?_
  simp only [List.filter_append, filter_merge hb hc, List.append_assoc]

theorem InKeyOrder.place_le_getLast {run : List R} (h : InKeyOrder run) {last : R}
    (hlast : run.getLast? = some last) : ∀ x ∈ run, place x ≤ place last := by
  obtain ⟨front, rfl⟩ := List.getLast?_eq_some_iff.1 hlast
  intro x hx
  rcases List.mem_append.1 hx with hx | hx
  · exact (inKeyOrder_append.1 h).2.2 x hx last (List.mem_singleton_self _)
  · exact Int.le_of_eq (congrArg place (List.mem_singleton.1 hx))

theorem InKeyOrder.head_place_le {run : List R} (h : InKeyOrder run) {head : R}
    (hhead : run.head? = some head) : ∀ x ∈ run, place head ≤ place x := by
  obtain ⟨rest, rfl⟩ := List.head?_eq_some_iff.1 hhead
  intro x hx
  rcases List.mem_cons.1 hx with rfl | hx
  · exact Int.le_refl _
  · exact (inKeyOrder_cons.1 h).1 x hx

/-- The merge of the two runs that a list consists of is the stable sort of the list. -/
theorem mergeRuns_eq_sortByKey {records : List R} {mid : Nat}
    (hl : InKeyOrder (records.take mid)) (hr : InKeyOrder (records.drop mid)) :
    mergeRuns records mid = sortByKey records := by
  have hsorted : (∀ x ∈ records.take mid, ∀ y ∈ records.drop mid, place x ≤ place y) →
      records = sortByKey records := fun h => by
    have := sortByKey_append_of_le hl hr h
    rw [List.take_append_drop] at this
    exact this.symm
  dsimp only [mergeRuns]
  split
  next last head hlast hhead =>
    have hlow := take_runUpperBound hl (sortKey head)
    have hhigh := drop_runLowerBound hr (sortKey last)
    have hstart := runUpperBound_le (records.take mid) (sortKey head)
    split
    next h =>
      refine hsorted fun x hx y hy => ?_
      rcases h with h | h
      · rw [List.take_of_length_le (by simp; omega)] at hlow
        exact Int.le_trans (hlow x hx) (hr.head_place_le hhead y hy)
      · rw [h, List.drop_zero] at hhigh
        exact Int.le_trans (hl.place_le_getLast hlast x hx) (hhigh y hy)
    next =>
      generalize runUpperBound (records.take mid) (sortKey head) = start at hlow
      generalize runLowerBound (records.drop mid) (sortKey last) = stop at hhigh
      have hwindow := merge_window_eq_sortByKey (a := (records.take mid).take start)
        (b := (records.take mid).drop start) (c := (records.drop mid).take stop)
        (d := (records.drop mid).drop stop)
      simp only [List.take_append_drop] at hwindow
      exact hwindow hl hr (fun x hx y hy => Int.le_trans (hlow x hx) (hr.head_place_le hhead y hy))
        fun x hx y hy => Int.le_trans (hl.place_le_getLast hlast x hx) (hhigh y hy)
  next h =>
    -- one of the runs has no record
    refine hsorted fun x hx y hy => ?_
    have hlast := List.getLast?_eq_some_getLast (List.ne_nil_of_mem hx)
    have hhead := List.head?_eq_some_head (List.ne_nil_of_mem hy)
    exact absurd hhead (h _ _ hlast)

end PlotSeries
