import PlotSeries.Proofs.Contents
import PlotSeries.Store.Query

/-!
# Questions to a store

Everything that can be asked of the records of a store, as values of one type,
beside the operations that change it. `Question.answer_congr`: the answers depend
on the list of the records alone; not even the searches in records out of order
see the layout.
-/

namespace PlotSeries

/-- A question to a store. Each is named for the function of `Store` that answers it. -/
inductive Question where
  | size
  | isEmpty
  | records
  | get (index : Nat)
  | recordAt (index : Nat)
  | first
  | last
  | indexRange
  | findStart (key : Binary64) (expanded : Bool)
  | findStop (key : Binary64) (expanded : Bool)
  | limitSpan (span selection : IndexRange)
  | visibleSpan (keys : Extent) (selection : IndexRange)
  | keyExtent (domain : SignDomain)
  | valueExtent (domain : SignDomain) (keys : Option Extent)

/-- What a store answers. -/
inductive Answer (R : Type) where
  | number (n : Nat)
  | flag (b : Bool)
  | records (records : List R)
  | record (record : R)
  | record? (record : Option R)
  | span (span : IndexRange)
  | extent? (extent : Option Extent)

namespace Question

variable {R : Type} [PlotRecord R]

/-- The answer of a store, or the fault of asking for a record that is not there. -/
def answer (q : Question) (s : Store R) : Except Fault (Answer R) :=
  match q with
  | size => .ok (.number s.size)
  | isEmpty => .ok (.flag s.isEmpty)
  | records => .ok (.records s.toList)
  | get index => .ok (.record? (s.get? index))
  | recordAt index => (s.recordAt index).map .record
  | first => .ok (.record? s.first?)
  | last => .ok (.record? s.last?)
  | indexRange => .ok (.span s.indexRange)
  | findStart key expanded => .ok (.number (s.findStart key expanded))
  | findStop key expanded => .ok (.number (s.findStop key expanded))
  | limitSpan span selection => .ok (.span (s.limitSpan span selection))
  | visibleSpan keys selection => .ok (.span (s.visibleSpanWithin keys selection))
  | keyExtent domain => .ok (.extent? (s.keyExtent domain))
  | valueExtent domain keys => .ok (.extent? (s.valueExtent domain keys))

end Question

/-! ## Answers from the list -/

namespace Store

variable {R : Type}

theorem recordAt_eq (s : Store R) (i : Nat) :
    s.recordAt i =
      match s.toList[i]? with
      | some record => .ok record
      | none => .error (.indexOutOfBounds i s.toList.length) := by
  rw [recordAt]
  split
  next h =>
    have h' : i < s.toList.length := by rwa [← size_eq]
    rw [getElem_buffer s i h h', List.getElem?_eq_getElem h']
  next h =>
    have hnone : s.toList[i]? = none :=
      List.getElem?_eq_none (by rw [← size_eq]; exact Nat.le_of_not_lt h)
    rw [hnone, size_eq]

variable [PlotRecord R]

theorem findStart_congr {s t : Store R} (h : s.toList = t.toList) (key : Binary64)
    (expanded : Bool) : s.findStart key expanded = t.findStart key expanded := by
  simp only [findStart, lowerBound_eq, h]

theorem findStop_congr {s t : Store R} (h : s.toList = t.toList) (key : Binary64)
    (expanded : Bool) : s.findStop key expanded = t.findStop key expanded := by
  simp only [findStop, upperBound_eq, size_eq, h]

theorem keySpan_congr {s t : Store R} (h : s.toList = t.toList) (keys : Extent)
    (expanded : Bool) : s.keySpan keys expanded = t.keySpan keys expanded := by
  simp only [keySpan, findStart_congr h, findStop_congr h]

theorem limitSpan_congr {R : Type} {s t : Store R} (h : s.toList = t.toList)
    (span selection : IndexRange) : s.limitSpan span selection = t.limitSpan span selection := by
  simp only [limitSpan, indexRange, size_eq, h]

theorem visibleSpanWithin_congr {s t : Store R} (h : s.toList = t.toList) (keys : Extent)
    (selection : IndexRange) :
    s.visibleSpanWithin keys selection = t.visibleSpanWithin keys selection := by
  simp only [visibleSpanWithin, indexRange, keySpan_congr h, limitSpan_congr h, size_eq, h]

theorem keyExtent_congr {s t : Store R} (h : s.toList = t.toList) (domain : SignDomain) :
    s.keyExtent domain = t.keyExtent domain := by
  have hrecords : s.domainRecords domain = t.domainRecords domain := by
    cases domain <;> simp only [domainRecords, lowerBound_eq, upperBound_eq, h]
  simp only [keyExtent, hrecords, h]

theorem valueExtent_congr {s t : Store R} (h : s.toList = t.toList) (domain : SignDomain)
    (keys : Option Extent) : s.valueExtent domain keys = t.valueExtent domain keys := by
  have hrecords : s.recordsIn keys = t.recordsIn keys := by
    simp only [recordsIn, keySpan_congr h, h]
  simp only [valueExtent, hrecords]

end Store

/-- Two stores of the same records answer every question alike, and are at fault
on the same ones. -/
theorem Question.answer_congr {R : Type} [PlotRecord R] {s t : Store R}
    (h : s.toList = t.toList) (q : Question) : q.answer s = q.answer t := by
  cases q with
  | size | isEmpty | indexRange =>
    simp only [answer, Store.indexRange, Store.isEmpty, Store.size_eq, h]
  | records => simp only [answer, h]
  | get | first | last => simp only [answer, Store.get?_eq, Store.first?_eq, Store.last?_eq, h]
  | recordAt index => simp only [answer, Store.recordAt_eq, h]
  | findStart key expanded => simp only [answer, Store.findStart_congr h]
  | findStop key expanded => simp only [answer, Store.findStop_congr h]
  | limitSpan span selection => simp only [answer, Store.limitSpan_congr h]
  | visibleSpan keys selection => simp only [answer, Store.visibleSpanWithin_congr h]
  | keyExtent domain => simp only [answer, Store.keyExtent_congr h]
  | valueExtent domain keys => simp only [answer, Store.valueExtent_congr h]

end PlotSeries
