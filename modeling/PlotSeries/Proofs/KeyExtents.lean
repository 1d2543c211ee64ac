import PlotSeries.Proofs.KeyWindows
import PlotSeries.Proofs.StableSort

/-!
# How far the keys of a store extend

The extent of some keys has its bounds among them, as numbers, and the keys between its
bounds (`Extent.Spans`); up to the sign of a zero there is only one (`IsExtentOf.agree`).
Taking up the keys one by one leads to it (`isExtentOf_extentOfKeys`), and so do the ends
of a run in key order (`spans_ends`).

A store sorted by the keys that its records are drawn at looks for those ends on one side
of zero only. No record of the domain stands on the other side
(`Store.filter_domainRecords`), so what it finds is the extent of all of them
(`keyExtent_of_inKeyOrder`).
-/

namespace PlotSeries

/-! ## Extents of numbers -/

namespace Binary64

variable {x y : Binary64}

/-- The smaller of two numbers is one of them and at most either. -/
theorem smaller_spec (hx : x.isNaN = false) (hy : y.isNaN = false) :
    (x.smaller y = x ∨ x.smaller y = y) ∧ x.smaller y ≤ x ∧ x.smaller y ≤ y := by
  unfold smaller
  rw [hx, if_neg Bool.false_ne_true]
  split
  next hlt => exact ⟨.inr rfl, ⟨hy, hx, Int.le_of_lt hlt.2.2⟩, le_refl hy⟩
  next hnot =>
    exact ⟨.inl rfl, le_refl hx, le_of_not_lt hx hy hnot⟩

/-- The larger of two numbers is one of them and at least either. -/
theorem larger_spec (hx : x.isNaN = false) (hy : y.isNaN = false) :
    (x.larger y = x ∨ x.larger y = y) ∧ x ≤ x.larger y ∧ y ≤ x.larger y := by
  unfold larger
  rw [hx, if_neg Bool.false_ne_true]
  split
  next hlt => exact ⟨.inr rfl, ⟨hx, hy, Int.le_of_lt hlt.2.2⟩, le_refl hy⟩
  next hnot =>
    exact ⟨.inl rfl, le_refl hx, le_of_not_lt hy hx hnot⟩

end Binary64

/-- What a sign domain accepts is a number. -/
theorem SignDomain.isNaN_of_accepts {domain : SignDomain} {value : Binary64}
    (h : domain.accepts value = true) : value.isNaN = false := by
  cases domain with
  | both => simpa [accepts] using h
  | negative => exact (of_decide_eq_true h).1
  | positive => exact (of_decide_eq_true h).2.1

/-- The bounds of the extent are among the keys, as numbers, and bound all of them. -/
structure Extent.Spans (e : Extent) (keys : List Binary64) : Prop where
  lower_mem : ∃ key ∈ keys, e.lower.numEq key = true
  upper_mem : ∃ key ∈ keys, e.upper.numEq key = true
  bounds : ∀ key ∈ keys, e.lower ≤ key ∧ key ≤ e.upper

/-- The extents have the same bounds, as numbers. -/
def Extent.Agree (e f : Extent) : Prop :=
  e.lower.numEq f.lower = true ∧ e.upper.numEq f.upper = true

/-- The extent of some keys, which they have unless there are none. -/
def IsExtentOf (extent : Option Extent) (keys : List Binary64) : Prop :=
  match extent with
  | none => keys = []
  | some e => e.Spans keys

namespace Extent

variable {e f : Extent} {keys : List Binary64} {key : Binary64}

theorem spans_point (h : key.isNaN = false) : (point key).Spans [key] := by
  have hmem : ∃ k ∈ [key], key.numEq k = true :=
    ⟨key, List.mem_singleton_self _, Binary64.numEq_refl h⟩
  refine ⟨hmem, hmem, fun k hk => ?_⟩
  obtain rfl := List.mem_singleton.1 hk
  exact ⟨Binary64.le_refl h, Binary64.le_refl h⟩

theorem Spans.append_singleton (h : e.Spans keys) (hkey : key.isNaN = false) :
    Spans ⟨e.lower.smaller key, e.upper.larger key⟩ (keys ++ [key]) := by
  obtain ⟨⟨low, hlow, hlowEq⟩, ⟨high, hhigh, hhighEq⟩, hbounds⟩ := h
  obtain ⟨hleast, hlower, hkey₁⟩ := Binary64.smaller_spec (Binary64.numEq_iff.1 hlowEq).1 hkey
  obtain ⟨hgreatest, hupper, hkey₂⟩ := Binary64.larger_spec (Binary64.numEq_iff.1 hhighEq).1 hkey
  have hkeySelf := Binary64.numEq_refl hkey
  have hlast : key ∈ keys ++ [key] := List.mem_append_right _ (List.mem_singleton_self _)
  refine ⟨?_, ?_, fun k hk => ?_⟩
  · rcases hleast with heq | heq
    · exact ⟨low, List.mem_append_left _ hlow, by rwa [heq]⟩
    · exact ⟨key, hlast, by rwa [heq]⟩
  · rcases hgreatest with heq | heq
    · exact ⟨high, List.mem_append_left _ hhigh, by rwa [heq]⟩
    · exact ⟨key, hlast, by rwa [heq]⟩
  · rcases List.mem_append.1 hk with hk | hk
    · exact ⟨Binary64.le_trans hlower (hbounds k hk).1, Binary64.le_trans (hbounds k hk).2 hupper⟩
    · obtain rfl := List.mem_singleton.1 hk
      exact ⟨hkey₁, hkey₂⟩

theorem Spans.lower_le (he : e.Spans keys) (hf : f.Spans keys) : e.lower ≤ f.lower := by
  obtain ⟨key, hkey, heq⟩ := hf.lower_mem
  exact Binary64.le_trans (he.bounds key hkey).1 (Binary64.le_of_numEq heq).2

theorem Spans.upper_le (he : e.Spans keys) (hf : f.Spans keys) : e.upper ≤ f.upper := by
  obtain ⟨key, hkey, heq⟩ := he.upper_mem
  exact Binary64.le_trans (Binary64.le_of_numEq heq).1 (hf.bounds key hkey).2

/-- Some keys have one extent, up to the sign of a zero. -/
theorem Spans.agree (he : e.Spans keys) (hf : f.Spans keys) : e.Agree f :=
  ⟨Binary64.numEq_of_le_of_le (he.lower_le hf) (hf.lower_le he),
    Binary64.numEq_of_le_of_le (he.upper_le hf) (hf.upper_le he)⟩

end Extent

namespace IsExtentOf

variable {extent other : Option Extent} {keys : List Binary64}

theorem eq_none_iff (h : IsExtentOf extent keys) : extent = none ↔ keys = [] := by
  cases extent with
  | none => exact ⟨fun _ => h, fun _ => rfl⟩
  | some e =>
    obtain ⟨key, hkey, -⟩ := h.lower_mem
    exact ⟨fun hnone => absurd hnone (Option.some_ne_none e),
      fun hnil => absurd (hnil ▸ hkey) List.not_mem_nil⟩

theorem agree (h : IsExtentOf extent keys) (h' : IsExtentOf other keys) :
    Option.Rel Extent.Agree extent other := by
  cases extent with
  | none =>
    rw [h'.eq_none_iff.2 h]
    exact .none
  | some e =>
    cases other with
    | none => exact absurd (h.eq_none_iff.2 h') (Option.some_ne_none e)
    | some f => exact .some (h.agree h')

end IsExtentOf

/-! ## Taking up keys one by one -/

/-- What holds at the start, and is kept when one more element is taken up, holds of a
fold and all elements that it has taken up. -/
theorem foldl_takenUp {α β : Type} {P : List α → β → Prop} {f : β → α → β} {start : β}
    (hstart : P [] start) (hstep : ∀ {seen b} a, P seen b → P (seen ++ [a]) (f b a))
    (l : List α) : P l (l.foldl f start) := by
  -- the elements that have been taken up come before those that have not
  have hfold (seen rest : List α) (b : β) (h : P seen b) : P (seen ++ rest) (rest.foldl f b) := by
    induction rest generalizing seen b with
    | nil => rwa [List.append_nil]
    | cons a rest ih =>
      rw [List.foldl_cons, List.append_cons]
      exact ih _ _ (hstep a h)
  exact hfold [] l start hstart

namespace Store

/-- The extent with one more key in it. -/
def widen (extent : Option Extent) (key : Binary64) : Option Extent :=
  match extent with
  | none => some (.point key)
  | some e => some ⟨e.lower.smaller key, e.upper.larger key⟩

theorem isExtentOf_widen {extent : Option Extent} {keys : List Binary64} {key : Binary64}
    (h : IsExtentOf extent keys) (hkey : key.isNaN = false) :
    IsExtentOf (widen extent key) (keys ++ [key]) := by
  cases extent with
  | none =>
    obtain rfl : keys = [] := h
    exact Extent.spans_point hkey
  | some e => exact h.append_singleton hkey

theorem extentOfKeys_eq (keys : List Binary64) : extentOfKeys keys = keys.foldl widen none := rfl

theorem isExtentOf_extentOfKeys {keys : List Binary64} (hkeys : ∀ key ∈ keys, key.isNaN = false) :
    IsExtentOf (extentOfKeys keys) keys := by
  have hnone : IsExtentOf none [] := rfl
  rw [extentOfKeys_eq]
  refine foldl_takenUp (P := fun seen extent => (∀ key ∈ seen, key.isNaN = false) →
    IsExtentOf extent seen) (fun _ => hnone) (fun {seen extent} key h hseen => ?_) keys hkeys
  exact isExtentOf_widen (h fun k hk => hseen k (List.mem_append_left _ hk))
    (hseen key (List.mem_append_right _ (List.mem_singleton_self key)))

end Store

/-! ## The ends of a run -/

variable {R : Type} [PlotRecord R]

/-- The keys of a run in key order lie between those of its ends. -/
theorem spans_ends {run : List R} (hrun : InKeyOrder run)
    (hsort : ∀ r ∈ run, mainKey r = sortKey r) (hnum : ∀ r ∈ run, (mainKey r).isNaN = false)
    {first last : R} (hfirst : run.head? = some first) (hlast : run.getLast? = some last) :
    Extent.Spans ⟨mainKey first, mainKey last⟩ (run.map mainKey) := by
  have hfirstMem : first ∈ run := List.mem_of_head? hfirst
  have hlastMem : last ∈ run := List.mem_of_getLast? hlast
  have hle {a b : R} (ha : a ∈ run) (hb : b ∈ run) (hab : place a ≤ place b) :
      mainKey a ≤ mainKey b := by
    refine ⟨hnum a ha, hnum b hb, ?_⟩
    rw [hsort a ha, hsort b hb]
    exact hab
  refine ⟨⟨mainKey first, List.mem_map_of_mem hfirstMem, ?_⟩,
    ⟨mainKey last, List.mem_map_of_mem hlastMem, ?_⟩, fun key hkey => ?_⟩
  · exact Binary64.numEq_refl (hnum first hfirstMem)
  · exact Binary64.numEq_refl (hnum last hlastMem)
  · obtain ⟨r, hr, rfl⟩ := List.mem_map.1 hkey
    exact ⟨hle hfirstMem hr (hrun.head_place_le hfirst r hr),
      hle hr hlastMem (hrun.place_le_getLast hlast r hr)⟩

namespace Store

theorem isNaN_of_qualifies {domain : SignDomain} {r : R} (h : qualifies domain r = true) :
    (mainKey r).isNaN = false :=
  SignDomain.isNaN_of_accepts (Bool.and_eq_true_iff.1 h).2

variable {s : Store R} (domain : SignDomain)

/-- The keys that the qualifying records are drawn at. -/
def qualifyingKeys (s : Store R) (domain : SignDomain) : List Binary64 :=
  (s.toList.filter (qualifies domain)).map mainKey

theorem mem_qualifyingKeys {key : Binary64} :
    key ∈ s.qualifyingKeys domain ↔
      ∃ r ∈ s.toList, qualifies domain r = true ∧ mainKey r = key := by
  simp only [qualifyingKeys, List.mem_map, List.mem_filter, and_assoc]

/-- Taking up all qualifying keys leads to their extent. -/
theorem isExtentOf_scan :
    IsExtentOf (extentOfKeys (s.qualifyingKeys domain)) (s.qualifyingKeys domain) := by
  refine isExtentOf_extentOfKeys fun key hkey => ?_
  obtain ⟨r, -, hq, rfl⟩ := (mem_qualifyingKeys domain).1 hkey
  exact isNaN_of_qualifies hq

/-- No qualifying record stands on the side of zero that is left out. -/
theorem filter_domainRecords (hsorts : PlotRecord.sortsByMainKey R = true)
    (hs : InKeyOrder s.toList) :
    (s.domainRecords domain).filter (qualifies domain) = s.toList.filter (qualifies domain) := by
  have hkey (r : R) : (mainKey r).signedMagnitude = place r :=
    congrArg Binary64.signedMagnitude (PlotRecord.mainKey_eq_sortKey hsorts r)
  have hzero : (0 : Binary64).signedMagnitude = 0 := rfl
  cases domain with
  | both => rfl
  | negative =>
    have hbehind : ∀ r ∈ s.toList.drop (runLowerBound s.toList 0), qualifies .negative r = false := by
      refine fun r hr => Bool.eq_false_iff.2 fun hq => ?_
      have hplace := drop_runLowerBound hs 0 r hr
      have hlt := (of_decide_eq_true (Bool.and_eq_true_iff.1 hq).2 : mainKey r < 0).2.2
      rw [hkey] at hlt
      omega
    have hspan := filter_span_eq (Nat.zero_le _) (by simp) hbehind
    rwa [List.drop_zero, ← lowerBound_eq] at hspan
  | positive =>
    have hfront : ∀ r ∈ s.toList.take (runUpperBound s.toList 0), qualifies .positive r = false := by
      refine fun r hr => Bool.eq_false_iff.2 fun hq => ?_
      have hplace := take_runUpperBound hs 0 r hr
      have hlt := (of_decide_eq_true (Bool.and_eq_true_iff.1 hq).2 : 0 < mainKey r).2.2
      rw [hkey] at hlt
      omega
    have hspan := filter_span_eq (runUpperBound_le s.toList 0) hfront (by simp)
    rwa [List.take_length, ← upperBound_eq] at hspan

/-- The extent that a store finds is that of its qualifying keys. -/
theorem isExtentOf_keyExtent (hs : InKeyOrder s.toList) :
    IsExtentOf (s.keyExtent domain) (s.qualifyingKeys domain) := by
  unfold keyExtent
  split
  next hsorts =>
    dsimp only
    rw [← List.head?_filter, ← List.getLast?_filter, filter_domainRecords domain hsorts hs]
    split
    next first last hfirst hlast =>
      exact spans_ends (hs.sublist List.filter_sublist)
        (fun r _ => PlotRecord.mainKey_eq_sortKey hsorts r)
        (fun r hr => isNaN_of_qualifies (List.mem_filter.1 hr).2) hfirst hlast
    next hnot =>
      have hnil : s.toList.filter (qualifies domain) = [] := by
        refine Classical.byContradiction fun hne => ?_
        exact hnot _ _ (List.head?_eq_some_head hne) (List.getLast?_eq_some_getLast hne)
      exact congrArg (List.map mainKey) hnil
  next => exact isExtentOf_scan domain

end Store

/-- Of a store in key order, the extent of the keys is that of its qualifying records,
those that are no gap and are drawn at a key of the domain: there is none exactly if none
of them qualifies, and otherwise its bounds are keys of such records, as numbers, and all
their keys lie between them. Where only the records on one side of zero are searched
from both ends, this is, up to the sign of a zero, what taking up all keys leads to. -/
theorem keyExtent_of_inKeyOrder {s : Store R} (hs : InKeyOrder s.toList) (domain : SignDomain) :
    (s.keyExtent domain = none ↔ ∀ r ∈ s.toList, Store.qualifies domain r = false) ∧
      (∀ e ∈ s.keyExtent domain,
        (∃ r ∈ s.toList, Store.qualifies domain r = true ∧ e.lower.numEq (mainKey r) = true) ∧
          (∃ r ∈ s.toList, Store.qualifies domain r = true ∧ e.upper.numEq (mainKey r) = true) ∧
          ∀ r ∈ s.toList, Store.qualifies domain r = true →
            e.lower ≤ mainKey r ∧ mainKey r ≤ e.upper) ∧
      Option.Rel Extent.Agree (s.keyExtent domain)
        (Store.extentOfKeys ((s.toList.filter (Store.qualifies domain)).map mainKey)) := by
  have hextent := s.isExtentOf_keyExtent domain hs
  refine ⟨?_, fun e he => ?_, hextent.agree (Store.isExtentOf_scan domain)⟩
  · rw [hextent.eq_none_iff, Store.qualifyingKeys, List.map_eq_nil_iff, List.filter_eq_nil_iff]
    simp only [Bool.not_eq_true]
  · rw [Option.mem_def.1 he] at hextent
    obtain ⟨low, hlow, hlower⟩ := hextent.lower_mem
    obtain ⟨high, hhigh, hupper⟩ := hextent.upper_mem
    obtain ⟨r, hr, hq, rfl⟩ := (Store.mem_qualifyingKeys domain).1 hlow
    obtain ⟨r', hr', hq', rfl⟩ := (Store.mem_qualifyingKeys domain).1 hhigh
    exact ⟨⟨r, hr, hq, hlower⟩, ⟨r', hr', hq', hupper⟩, fun r hr hq =>
      hextent.bounds _ ((Store.mem_qualifyingKeys domain).2 ⟨r, hr, hq, rfl⟩)⟩

/-- Samples at both zeros and at keys that are no numbers, with gaps at the ends. -/
def signedSamples : Store Sample where
  buffer := .ofList [⟨⟨0xFFF8000000000000⟩, 0⟩, ⟨.nearest true 2 0, .nan⟩, ⟨.nearest true 1 0, 0⟩,
    ⟨0, 0⟩, ⟨.nearest true 0 0, 0⟩, ⟨.ofNat 1, 0⟩, ⟨.ofNat 2, 0⟩, ⟨.nan, 0⟩] 0

/-- The negative keys extend over the one sample at minus one that is no gap. -/
theorem signedSamples_keyExtent :
    InKeyOrder signedSamples.toList ∧
      signedSamples.keyExtent .negative = some (.point (.nearest true 1 0)) ∧
      (∀ r ∈ signedSamples.toList, Store.qualifies .negative r = true →
        Binary64.nearest true 1 0 ≤ mainKey r ∧ mainKey r ≤ Binary64.nearest true 1 0) ∧
      Option.Rel Extent.Agree (some (.point (.nearest true 1 0)))
        (Store.extentOfKeys
          ((signedSamples.toList.filter (Store.qualifies .negative)).map mainKey)) := by
  have hs : InKeyOrder signedSamples.toList := by decide
  have hextent : signedSamples.keyExtent .negative = some (.point (.nearest true 1 0)) := by
    decide +kernel
  have hresult := keyExtent_of_inKeyOrder hs .negative
  rw [hextent] at hresult
  exact ⟨hs, hextent, (hresult.2.1 _ rfl).2.2, hresult.2.2⟩

end PlotSeries
