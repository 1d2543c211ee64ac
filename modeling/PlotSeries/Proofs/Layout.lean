import PlotSeries.Proofs.Contents
import PlotSeries.Proofs.Interleaving

/-!
# The layout of an allocation

A `Layout` is what the bounds of an allocation are: how many slots are in use, how
many of them are pool, how often the pool has grown and how many slots are
allocated. What an operation does to these numbers depends on nothing but them and
the number of records it moves: one lemma `layout_…` for each operation on buffers,
and one for each on stores.

* `Layout.Fits`: the slots in use are allocated.
* `Operation.judged?` is the store that an operation hands to its policy, and
  `Operation.apply_of_judged?` says that the operation then does what the policy
  asks for and nothing else. A removal hands over what it leaves of the buffer
  (`Operation.cut_judged?`), which is one of four kinds (`Buffer.Cut`).
-/

namespace PlotSeries

/-- The bounds of an allocation. -/
structure Layout where
  /-- Number of slots in use, the pool included. -/
  used : Nat
  /-- Number of unused slots in front. -/
  pool : Nat
  /-- Number of times the pool has grown. -/
  growths : Nat
  /-- Number of slots allocated. -/
  capacity : Nat

namespace Layout

/-- The layout with `n` more slots in use behind the others. -/
def extend (a : Layout) (n : Nat) : Layout :=
  { a with used := a.used + n, capacity := capacityFor a.capacity (a.used + n) }

/-- The layout with `n` slots of the pool in use as records. -/
def takePool (a : Layout) (n : Nat) : Layout := { a with pool := a.pool - n }

/-- The layout after a growth of the pool for `need` records. -/
def growPool (a : Layout) (need : Nat) : Layout :=
  let pool := need + poolSlack a.growths
  { a.extend (pool - a.pool) with pool, growths := min (a.growths + 1) maxGrowths }

/-- The layout after records in front, for which the pool grows if it is too short. -/
def prepend (a : Layout) (count : Nat) : Layout :=
  if count ≤ a.pool then a.takePool count else (a.growPool count).takePool count

/-- The layout after the parts asked for have been given back. -/
def squeeze (a : Layout) (request : SqueezeRequest) : Layout :=
  let b := if request.pool then { a with used := a.used - a.pool, pool := 0, growths := 0 } else a
  if request.tail then { b with capacity := b.used } else b

/-- The slots in use are allocated. -/
def Fits (a : Layout) : Prop := a.used ≤ a.capacity

theorem fits_extend (a : Layout) (n : Nat) : (a.extend n).Fits := le_capacityFor _ _

theorem capacity_le_extend (a : Layout) (n : Nat) : a.capacity ≤ (a.extend n).capacity :=
  capacityFor_ge _ _

theorem fits_growPool (a : Layout) (need : Nat) : (a.growPool need).Fits := le_capacityFor _ _

theorem capacity_le_growPool (a : Layout) (need : Nat) : a.capacity ≤ (a.growPool need).capacity :=
  capacityFor_ge _ _

/-- No more slots in use than in another layout, of as many allocated. -/
structure Within (a b : Layout) : Prop where
  used_le : a.used ≤ b.used
  capacity_eq : a.capacity = b.capacity

theorem Within.refl (a : Layout) : a.Within a := ⟨Nat.le_refl _, rfl⟩

theorem Fits.within {a b : Layout} (h : b.Fits) (hab : a.Within b) : a.Fits := by
  unfold Fits at h ⊢
  rw [hab.capacity_eq]
  exact Nat.le_trans hab.used_le h

theorem pool_squeeze (a : Layout) (request : SqueezeRequest) :
    (a.squeeze request).pool = if request.pool then 0 else a.pool := by
  unfold squeeze
  cases request.pool <;> cases request.tail <;> rfl

theorem growths_squeeze (a : Layout) (request : SqueezeRequest) :
    (a.squeeze request).growths = if request.pool then 0 else a.growths := by
  unfold squeeze
  cases request.pool <;> cases request.tail <;> rfl

theorem used_squeeze (a : Layout) (request : SqueezeRequest) :
    (a.squeeze request).used = if request.pool then a.used - a.pool else a.used := by
  unfold squeeze
  cases request.pool <;> cases request.tail <;> rfl

theorem capacity_squeeze (a : Layout) (request : SqueezeRequest) :
    (a.squeeze request).capacity =
      if request.tail then (a.squeeze request).used else a.capacity := by
  unfold squeeze
  cases request.pool <;> cases request.tail <;> rfl

theorem pool_squeeze_le {a : Layout} (h : a.pool ≤ a.used) (request : SqueezeRequest) :
    (a.squeeze request).pool ≤ (a.squeeze request).used := by
  rw [pool_squeeze, used_squeeze]
  split <;> omega

theorem used_squeeze_le (a : Layout) (request : SqueezeRequest) :
    (a.squeeze request).used ≤ a.used := by
  rw [used_squeeze]
  split <;> omega

theorem Fits.squeeze {a : Layout} (h : a.Fits) (request : SqueezeRequest) :
    (a.squeeze request).Fits := by
  unfold Fits
  rw [capacity_squeeze]
  split
  · exact Nat.le_refl _
  · exact Nat.le_trans (a.used_squeeze_le request) h

theorem Fits.capacity_squeeze_le {a : Layout} (h : a.Fits) (request : SqueezeRequest) :
    (a.squeeze request).capacity ≤ a.capacity := by
  rw [capacity_squeeze]
  split
  · exact Nat.le_trans (a.used_squeeze_le request) h
  · exact Nat.le_refl _

theorem capacity_squeeze_of_not_tail (a : Layout) {request : SqueezeRequest}
    (h : request.tail = false) : (a.squeeze request).capacity = a.capacity := by
  rw [capacity_squeeze, h, if_neg Bool.false_ne_true]

theorem squeeze_of_not_any (a : Layout) {request : SqueezeRequest} (h : request.any = false) :
    a.squeeze request = a := by
  rw [SqueezeRequest.any, Bool.or_eq_false_iff] at h
  unfold squeeze
  rw [h.1, h.2]
  rfl

end Layout

/-! ## Buffers -/

namespace Buffer

variable {α : Type}

/-- The bounds of the allocation of a buffer. -/
def layout (b : Buffer α) : Layout := ⟨b.slots.size, b.pool, b.growths, b.capacity⟩

@[simp] theorem layout_ofList (l : List α) (spare : Nat) :
    (ofList l spare).layout = ⟨l.length, 0, 0, l.length + spare⟩ := rfl

@[simp] theorem layout_copy (b : Buffer α) :
    b.copy.layout = { b.layout with capacity := b.layout.used } := rfl

@[simp] theorem layout_clear (b : Buffer α) : b.clear.layout = ⟨0, 0, 0, b.layout.capacity⟩ := rfl

@[simp] theorem layout_push (b : Buffer α) (a : α) : (b.push a).layout = b.layout.extend 1 := by
  simp [layout, push, Layout.extend]

@[simp] theorem layout_append (b : Buffer α) (l : List α) :
    (b.append l).layout = b.layout.extend l.length := by
  simp [layout, append, Layout.extend]

@[simp] theorem layout_insert (b : Buffer α) (i : Nat) (a : α) (h : i ≤ b.size) :
    (b.insert i a h).layout = b.layout.extend 1 := by
  simp [layout, insert, Layout.extend]

@[simp] theorem layout_prepend (b : Buffer α) (l : List α) :
    (b.prepend l).layout = b.layout.takePool l.length := by
  simp [layout, prepend, Layout.takePool]

theorem layout_growPool (b : Buffer α) (filler : α) {need : Nat} (h : b.pool ≤ need) :
    (b.growPool filler need).layout = b.layout.growPool need := by
  have hpool := b.pool_le
  have hused : (b.growPool filler need).slots.size =
      b.slots.size + (need + poolSlack b.growths - b.pool) := by
    simp only [growPool, Array.size_append, Array.take_eq_extract, Array.size_extract,
      Array.size_replicate]
    omega
  simp only [layout, hused]
  rfl

@[simp] theorem layout_dropFirst (b : Buffer α) (count : Nat) (h : count ≤ b.size) :
    (b.dropFirst count h).layout = { b.layout with pool := b.layout.pool + count } := rfl

@[simp] theorem layout_truncate (b : Buffer α) (count : Nat) :
    (b.truncate count).layout =
      { b.layout with used := min (b.layout.pool + count) b.layout.used } := by
  simp [layout, truncate]

@[simp] theorem layout_eraseSpan (b : Buffer α) (i j : Nat) :
    (b.eraseSpan i j).layout =
      { b.layout with
        used := min (b.layout.pool + i) b.layout.used + (b.layout.used - (b.layout.pool + j)) } := by
  simp [layout, eraseSpan]

@[simp] theorem layout_set (b : Buffer α) (i : Nat) (a : α) (h : i < b.size) :
    (b.set i a h).layout = b.layout := by
  simp [layout, set]

theorem layout_setAll (b : Buffer α) {l : List α} (h : l.length = b.size) :
    (b.setAll l).layout = b.layout := by
  have hsize := b.pool_add_size
  have hpool := b.pool_le
  have hused : (b.setAll l).slots.size = b.slots.size := by
    simp only [setAll, Array.size_append, Array.take_eq_extract, Array.size_extract,
      List.size_toArray]
    omega
  simp only [layout, hused]
  rfl

/-- What a removal may leave of a buffer. -/
inductive Cut (b : Buffer α) : Buffer α → Prop
  | same : Cut b b
  | dropFirst (count : Nat) (h : count ≤ b.size) : Cut b (b.dropFirst count h)
  | truncate (count : Nat) : Cut b (b.truncate count)
  | eraseSpan {i j : Nat} (hij : i ≤ j) (hj : j ≤ b.size) : Cut b (b.eraseSpan i j)

/-- What a removal leaves lies in the same allocation. -/
theorem Cut.within {b c : Buffer α} (h : b.Cut c) : c.layout.Within b.layout := by
  cases h with
  | same => exact .refl _
  | dropFirst count hcount => exact ⟨Nat.le_refl _, rfl⟩
  | truncate count =>
    rw [layout_truncate]
    exact ⟨Nat.min_le_right _ _, rfl⟩
  | eraseSpan hij hj =>
    rw [layout_eraseSpan]
    refine ⟨?_, rfl⟩
    dsimp only
    omega

@[simp] theorem layout_releasePool (b : Buffer α) :
    b.releasePool.layout =
      { b.layout with used := b.layout.used - b.layout.pool, pool := 0, growths := 0 } := by
  simp [layout, releasePool]

@[simp] theorem layout_releaseSpare (b : Buffer α) :
    b.releaseSpare.layout = { b.layout with capacity := b.layout.used } := rfl

end Buffer

/-! ## Stores -/

namespace Store

variable {R : Type}

/-- The bounds of the allocation of a store. -/
def layout (s : Store R) : Layout := s.buffer.layout

/-- What the policy asks for, which is nothing if it is disabled. -/
def request (s : Store R) : SqueezeRequest :=
  if s.policy.enabled then s.policy.evaluate s.stats else {}

theorem size_eq_layout (s : Store R) : s.size = s.layout.used - s.layout.pool := rfl

theorem layout_pool_le (s : Store R) : s.layout.pool ≤ s.layout.used := s.buffer.pool_le

@[simp] theorem layout_squeeze (s : Store R) (request : SqueezeRequest) :
    (s.squeeze request).value.layout = s.layout.squeeze request := by
  simp only [squeeze, layout, Logged.value_bind, Logged.value_pure, Layout.squeeze]
  cases request.pool <;> cases request.tail <;> simp

@[simp] theorem policy_squeeze (s : Store R) (request : SqueezeRequest) :
    (s.squeeze request).value.policy = s.policy := rfl

/-- Nothing is done, and nothing reported, when the policy asks for nothing. -/
theorem autoSqueeze_of_not_any {s : Store R} (h : s.request.any = false) :
    s.autoSqueeze = pure s := by
  unfold autoSqueeze
  unfold request at h
  split
  next hen =>
    rw [if_pos hen] at h
    dsimp only
    rw [if_neg (by simp [h])]
  next => rfl

/-- What the policy asks for is reported, and then done. -/
theorem autoSqueeze_of_any {s : Store R} (h : s.request.any = true) :
    s.autoSqueeze =
      Logged.report (.squeezeDue s.stats s.request) >>= fun _ => s.squeeze s.request := by
  unfold autoSqueeze
  unfold request at h ⊢
  split
  next hen =>
    rw [if_pos hen] at h
    dsimp only
    rw [if_pos h]
  next hen =>
    rw [if_neg hen] at h
    cases h

@[simp] theorem layout_autoSqueeze (s : Store R) :
    s.autoSqueeze.value.layout = s.layout.squeeze s.request := by
  cases h : s.request.any with
  | false => rw [autoSqueeze_of_not_any h, Logged.value_pure, Layout.squeeze_of_not_any _ h]
  | true => rw [autoSqueeze_of_any h, Logged.value_bind, layout_squeeze]

@[simp] theorem policy_autoSqueeze (s : Store R) : s.autoSqueeze.value.policy = s.policy := by
  cases h : s.request.any with
  | false => rw [autoSqueeze_of_not_any h, Logged.value_pure]
  | true => rw [autoSqueeze_of_any h, Logged.value_bind, policy_squeeze]

theorem layout_writeAll (s : Store R) (writes : List (Nat × R)) :
    (s.writeAll writes).1.layout = s.layout := by
  induction writes generalizing s with
  | nil => rfl
  | cons w writes ih =>
    obtain ⟨i, record⟩ := w
    rw [writeAll]
    split
    next h => exact (ih _).trans (Buffer.layout_set s.buffer i record h)
    next => rfl

variable [PlotRecord R]

theorem layout_sort (s : Store R) : s.sort.layout = s.layout :=
  Buffer.layout_setAll _ (by simp [sortByKey, toList])

theorem length_inOrder (records : List R) (sorted : Bool) :
    (inOrder records sorted).length = records.length := by
  cases sorted <;> simp [inOrder, sortByKey]

theorem layout_replace (s : Store R) (records : List R) (spare : Nat) (sorted : Bool) :
    (s.replace records spare sorted).layout =
      ⟨records.length, 0, 0, records.length + spare⟩ := by
  rw [← length_inOrder records sorted]
  rfl

/-- Records go in front of all others through the pool, which grows if it is too short. -/
theorem layout_prepend (s : Store R) (records : List R) :
    (s.prepend records).value.layout = s.layout.prepend records.length := by
  unfold prepend Layout.prepend
  split
  next h =>
    rw [if_pos (show records.length ≤ s.layout.pool from h)]
    exact Buffer.layout_prepend _ _
  next h =>
    rw [if_neg (show ¬records.length ≤ s.layout.pool from h)]
    have hgrow := s.buffer.layout_growPool (PlotRecord.ofSortKey 0) (Nat.le_of_not_le h)
    exact (Buffer.layout_prepend _ _).trans (congrArg (Layout.takePool · records.length) hgrow)

/-- A record that is not below all others takes one slot behind them. -/
theorem layout_add_of_not_below (s : Store R) {record : R}
    (h : ∀ first ∈ s.first?, keyLess (sortKey record) (sortKey first) = false) :
    (s.add record).value.layout = s.layout.extend 1 := by
  unfold add
  split
  next first last hfirst hlast =>
    split
    · exact Buffer.layout_push _ _
    · rw [if_neg (by simp [h first hfirst])]
      exact Buffer.layout_insert _ _ _ (s.upperBound_le_size _)
  next => exact Buffer.layout_push _ _

theorem layout_add (s : Store R) (record : R) :
    (s.add record).value.layout = s.layout.extend 1 ∨
      (s.add record).value.layout = (s.prepend [record]).value.layout := by
  by_cases h : ∀ first ∈ s.first?, keyLess (sortKey record) (sortKey first) = false
  · exact .inl (s.layout_add_of_not_below h)
  · unfold add
    split
    next first last hfirst hlast =>
      split
      · exact .inl (Buffer.layout_push _ _)
      · split
        · exact .inr rfl
        · exact .inl (Buffer.layout_insert _ _ _ (s.upperBound_le_size _))
    next => exact .inl (Buffer.layout_push _ _)

theorem layout_appendRun (s : Store R) (run : List R) :
    (s.appendRun run).layout = s.layout.extend run.length := by
  have happend : (s.buffer.append run).layout = s.layout.extend run.length :=
    Buffer.layout_append _ _
  have hmerge (mid : Nat) : (mergeRuns (s.buffer.append run).toList mid).length =
      (s.buffer.append run).size := by
    rw [(interleaving_mergeRuns _ mid).perm.length_eq, ← Buffer.length_toList]
    simp
  rw [← happend]
  -- whether or not the runs overlap
  exact (apply_ite Buffer.layout _ _ _).trans (by rw [Buffer.layout_setAll _ (hmerge _), ite_self])

theorem layout_addBatch (s : Store R) (records : List R) (sorted : Bool)
    (h : s.toList ≠ []) :
    (s.addBatch records sorted).value.layout = s.layout ∨
      (s.addBatch records sorted).value.layout = (s.prepend records).value.layout ∨
      (s.addBatch records sorted).value.layout = s.layout.extend records.length := by
  unfold addBatch
  split
  · exact .inl rfl
  · split
    next hfirst => exact absurd (List.head?_eq_none_iff.1 (s.first?_eq ▸ hfirst)) h
    next =>
      split
      · exact .inr (.inl rfl)
      · refine .inr (.inr ?_)
        rw [Logged.value_pure, layout_appendRun, length_inOrder]

/-- A batch for a store without records becomes its allocation. -/
theorem layout_addBatch_of_nil (s : Store R) (records : List R) (sorted : Bool)
    (h : s.toList = []) :
    (s.addBatch records sorted).value.layout =
      if records = [] then s.layout else ⟨records.length, 0, 0, records.length⟩ := by
  unfold addBatch
  cases hlast : records.getLast? with
  | none => rw [if_pos (List.getLast?_eq_none_iff.1 hlast), Logged.value_pure]
  | some last =>
    have hne : records ≠ [] := by
      rintro rfl
      cases hlast
    rw [first?_eq, h, if_neg hne]
    exact s.layout_replace records 0 sorted

end Store

/-! ## Operations -/

namespace Operation

variable {R : Type} [PlotRecord R]

/-- The store that an operation hands to its policy: what a removal leaves, and the
store whose automatic squeezing is being enabled. -/
def judged? (op : Operation R) (s : Store R) : Option (Store R) :=
  match op with
  | removeUpTo key =>
    some { s with buffer := s.buffer.dropFirst (s.upperBound key) (s.upperBound_le_size key) }
  | removeFrom key => some { s with buffer := s.buffer.truncate (s.lowerBound key) }
  | removeBetween lower upper =>
    let start := s.lowerBound lower
    let stop := s.upperBound upper
    if s.toList ≠ [] ∧ lower < upper ∧ start ≤ stop then
      some { s with buffer := s.buffer.eraseSpan start stop }
    else none
  | removeKey key =>
    let i := s.lowerBound key
    if h : i < s.buffer.size then
      if (sortKey s.buffer[i]).numEq key then
        if i = 0 then some { s with buffer := s.buffer.dropFirst 1 (s.one_le_size key h) }
        else some { s with buffer := s.buffer.eraseSpan i (i + 1) }
      else some s
    else some s
  | setAutoSqueeze enabled =>
    if enabled = true ∧ s.policy.enabled = false then some { s with policy.enabled := true }
    else none
  | _ => none

/-- The operation drops records by their keys. -/
def isRemoval : Operation R → Bool
  | removeUpTo _ | removeFrom _ | removeBetween _ _ | removeKey _ => true
  | _ => false

/-- An operation that consults its policy does what the policy asks for. -/
theorem apply_of_judged? {op : Operation R} {s t : Store R} (h : op.judged? s = some t) :
    op.apply s = .ofLogged t.autoSqueeze := by
  cases op with
  | removeUpTo key => cases h; rfl
  | removeFrom key => cases h; rfl
  | removeBetween lower upper =>
    simp only [judged?] at h
    split at h
    next hspan =>
      cases h
      have hempty : (s.isEmpty || !decide (lower < upper)) = false := by
        simp [Store.isEmpty_eq, hspan.1, hspan.2.1]
      simp only [apply, Store.removeBetween, hempty, Bool.false_eq_true, if_false, if_pos hspan.2.2]
      rfl
    next => cases h
  | removeKey key =>
    simp only [judged?] at h
    simp only [apply, Store.removeKey]
    split at h
    next hlt =>
      rw [dif_pos hlt]
      split at h
      next heq =>
        rw [if_pos heq]
        split at h
        next hzero => cases h; rw [if_pos hzero]
        next hzero => cases h; rw [if_neg hzero]
      next heq => cases h; rw [if_neg heq]
    next hlt => cases h; rw [dif_neg hlt]
  | setAutoSqueeze enabled =>
    simp only [judged?] at h
    split at h
    next hen =>
      cases h
      obtain ⟨rfl, hoff⟩ := hen
      simp [apply, Store.setAutoSqueeze, hoff]
    next => cases h
  | _ => cases h

/-- A removal that does not consult its policy changes nothing. -/
theorem apply_of_judged?_eq_none {op : Operation R} (hop : op.isRemoval = true) {s : Store R}
    (h : op.judged? s = none) : (op.apply s).state = s := by
  cases op with
  | removeUpTo | removeFrom => cases h
  | removeBetween lower upper =>
    simp only [judged?] at h
    split at h
    next => cases h
    next hspan =>
      simp only [apply, Store.removeBetween]
      split
      · rfl
      next hempty =>
        simp only [Store.isEmpty_eq, Bool.or_eq_true, List.isEmpty_iff, Bool.not_eq_true',
          decide_eq_false_iff_not, not_or, Classical.not_not] at hempty
        rw [if_neg fun hle => hspan ⟨hempty.1, hempty.2, hle⟩]
        rfl
  | removeKey key =>
    simp only [judged?] at h
    repeat' split at h
    all_goals cases h
  | _ => cases hop

/-- What a removal hands to its policy is the store with what it leaves of the buffer. -/
theorem cut_judged? {op : Operation R} (hop : op.isRemoval = true) {s t : Store R}
    (h : op.judged? s = some t) : ∃ b, s.buffer.Cut b ∧ t = { s with buffer := b } := by
  cases op with
  | removeUpTo key =>
    cases h
    exact ⟨_, .dropFirst _ (s.upperBound_le_size key), rfl⟩
  | removeFrom key =>
    cases h
    exact ⟨_, .truncate _, rfl⟩
  | removeBetween lower upper =>
    simp only [judged?] at h
    split at h
    next hspan =>
      cases h
      exact ⟨_, .eraseSpan hspan.2.2 (s.upperBound_le_size upper), rfl⟩
    next => cases h
  | removeKey key =>
    simp only [judged?] at h
    split at h
    next hlt =>
      split at h
      · split at h
        · cases h
          exact ⟨_, .dropFirst 1 (s.one_le_size key hlt), rfl⟩
        · cases h
          exact ⟨_, .eraseSpan (Nat.le_succ _) hlt, rfl⟩
      · cases h
        exact ⟨_, .same, rfl⟩
    next =>
      cases h
      exact ⟨_, .same, rfl⟩
  | _ => cases hop

/-- What an operation hands to its policy lies in the same allocation. -/
theorem layout_judged? {op : Operation R} {s t : Store R} (h : op.judged? s = some t) :
    t.layout.Within s.layout := by
  cases hop : op.isRemoval with
  | true =>
    obtain ⟨b, hcut, rfl⟩ := cut_judged? hop h
    exact hcut.within
  | false =>
    cases op with
    | setAutoSqueeze enabled =>
      simp only [judged?] at h
      split at h
      · cases h
        exact .refl _
      · cases h
    | removeUpTo | removeFrom | removeBetween | removeKey => cases hop
    | _ => cases h

/-- A removal keeps the policy it consults. -/
theorem policy_judged? {op : Operation R} (hop : op.isRemoval = true) {s t : Store R}
    (h : op.judged? s = some t) : t.policy = s.policy := by
  obtain ⟨b, -, rfl⟩ := cut_judged? hop h
  rfl

end Operation

end PlotSeries
