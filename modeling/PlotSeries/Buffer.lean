/-!
# Buffers with a front pool

A `Buffer` keeps a list of live elements in one row of slots, with unused slots
on both sides: the *pool* in front, which takes elements added before the first,
and the spare capacity behind, which takes elements added after the last.

* `Buffer.toList` is the list of live elements. The lemmas `toList_push`,
  `toList_insert`, `toList_prepend`, … say what each operation does to it; none
  depends on the layout.
* `capacityFor` is the rule by which the number of allocated slots grows, and
  `poolSlack` the number of slots that a growth of the pool adds beyond need.
-/

namespace PlotSeries

-- Powers of naturals are core's, whatever instances are in scope.
attribute [instance (high + 1), default_instance (high + 1)] instPowNat

/-- The number of slots allocated once `need` of them are in use: unchanged while
they fit, otherwise at least doubled and at least 4. -/
def capacityFor (current need : Nat) : Nat :=
  if need ≤ current then current else max (2 * current) (max need 4)

theorem le_capacityFor (current need : Nat) : need ≤ capacityFor current need := by
  unfold capacityFor
  split <;> omega

theorem capacityFor_ge (current need : Nat) : current ≤ capacityFor current need := by
  unfold capacityFor
  split <;> omega

/-- Growths are counted up to this number. -/
def maxGrowths : Nat := 2 ^ 32 - 1

/-- Slots that the pool gains beyond need when it grows after `growths` earlier
growths. The power of two in it doubles with every growth up to the twelfth. -/
def poolSlack (growths : Nat) : Nat := 2 ^ min (growths + 4) 15 - 12

/-- A row of slots whose first `pool` slots are unused. -/
structure Buffer (α : Type) where
  /-- The slots in use: the pool, then the live elements. -/
  slots : Array α := #[]
  /-- Number of unused slots in front. -/
  pool : Nat := 0
  /-- Number of times the pool has grown since it was last given up. -/
  growths : Nat := 0
  /-- Number of slots allocated. -/
  capacity : Nat := 0
  /-- The pool consists of slots. -/
  pool_le : pool ≤ slots.size := by simp

namespace Buffer

variable {α : Type}

/-- A buffer that has never held anything. -/
def empty : Buffer α := {}

instance : Inhabited (Buffer α) := ⟨empty⟩

/-- Number of live elements. -/
def size (b : Buffer α) : Nat := b.slots.size - b.pool

/-- The live elements, in order. -/
def toList (b : Buffer α) : List α := b.slots.toList.drop b.pool

@[simp] theorem length_toList (b : Buffer α) : b.toList.length = b.size := by
  simp [toList, size]

theorem pool_add_size (b : Buffer α) : b.pool + b.size = b.slots.size := by
  have := b.pool_le
  unfold size
  omega

/-- The live element at an index. -/
def get (b : Buffer α) (i : Nat) (h : i < b.size) : α :=
  have : b.pool + i < b.slots.size := by have := b.pool_add_size; omega
  b.slots[b.pool + i]

instance : GetElem (Buffer α) Nat α fun b i => i < b.size := ⟨get⟩

theorem getElem_eq_toList (b : Buffer α) (i : Nat) (h : i < b.size) :
    b[i] = b.toList.get ⟨i, by simpa using h⟩ := by
  show b.get i h = _
  simp [get, toList]

/-- The live element at an index, if there is one. -/
def get? (b : Buffer α) (i : Nat) : Option α := if h : i < b.size then some b[i] else none

theorem get?_eq (b : Buffer α) (i : Nat) : b.get? i = b.toList[i]? := by
  unfold get?
  split
  next h => rw [getElem_eq_toList, List.getElem?_eq_getElem (by simpa using h), List.get_eq_getElem]
  next h => rw [List.getElem?_eq_none (by simpa using h)]

/-- The first live element, if any. -/
def first? (b : Buffer α) : Option α := b.get? 0

/-- The last live element, if any. -/
def last? (b : Buffer α) : Option α := b.get? (b.size - 1)

/-! ## Making a buffer -/

/-- The buffer of a list, with `spare` slots allocated behind it. -/
def ofList (l : List α) (spare : Nat) : Buffer α :=
  { slots := l.toArray, capacity := l.length + spare }

@[simp] theorem toList_ofList (l : List α) (spare : Nat) : (ofList l spare).toList = l := by
  simp [ofList, toList]

/-- The same slots, allocated anew without spare capacity. -/
def copy (b : Buffer α) : Buffer α := { b with capacity := b.slots.size }

@[simp] theorem toList_copy (b : Buffer α) : b.copy.toList = b.toList := rfl

/-- No slots in use; the allocation stays. -/
def clear (b : Buffer α) : Buffer α := { capacity := b.capacity }

@[simp] theorem toList_clear (b : Buffer α) : b.clear.toList = [] := rfl

/-! ## Adding behind and between -/

/-- Add an element after the last. -/
def push (b : Buffer α) (a : α) : Buffer α :=
  let need := b.slots.size + 1
  { b with
    slots := b.slots.push a
    capacity := capacityFor b.capacity need
    pool_le := by have := b.pool_le; simp; omega }

@[simp] theorem toList_push (b : Buffer α) (a : α) : (b.push a).toList = b.toList ++ [a] := by
  have := b.pool_le
  simp [push, toList, List.drop_append_of_le_length, this]

/-- Add a list of elements after the last. -/
def append (b : Buffer α) (l : List α) : Buffer α :=
  let need := b.slots.size + l.length
  { b with
    slots := b.slots ++ l.toArray
    capacity := capacityFor b.capacity need
    pool_le := by have := b.pool_le; simp; omega }

@[simp] theorem toList_append (b : Buffer α) (l : List α) :
    (b.append l).toList = b.toList ++ l := by
  have := b.pool_le
  simp [append, toList, List.drop_append_of_le_length, this]

/-- Add an element before the live element at an index, or after the last. -/
def insert (b : Buffer α) (i : Nat) (a : α) (h : i ≤ b.size) : Buffer α :=
  let need := b.slots.size + 1
  { b with
    slots := b.slots.insertIdx (b.pool + i) a (by have := b.pool_add_size; omega)
    capacity := capacityFor b.capacity need
    pool_le := by have := b.pool_le; simp; omega }

theorem drop_insertIdx (l : List α) (p i : Nat) (a : α) (h : p ≤ l.length) :
    (l.insertIdx (p + i) a).drop p = (l.drop p).insertIdx i a := by
  induction p generalizing l with
  | zero => simp
  | succ p ih =>
    cases l with
    | nil => simp at h
    | cons x l => simpa [Nat.succ_add] using ih l (by simpa using h)

@[simp] theorem toList_insert (b : Buffer α) (i : Nat) (a : α) (h : i ≤ b.size) :
    (b.insert i a h).toList = b.toList.insertIdx i a := by
  have := b.pool_le
  simp [insert, toList, drop_insertIdx, this]

/-! ## Adding in front -/

/-- The slots with a list written over them from `start` on. -/
def overwrite (slots : Array α) (start : Nat) : List α → Array α
  | [] => slots
  | a :: l => overwrite (slots.setIfInBounds start a) (start + 1) l

@[simp] theorem size_overwrite (slots : Array α) (start : Nat) (l : List α) :
    (overwrite slots start l).size = slots.size := by
  induction l generalizing slots start with
  | nil => rfl
  | cons a l ih => simp [overwrite, ih]

theorem toList_overwrite (slots : Array α) (start : Nat) (l : List α)
    (h : start + l.length ≤ slots.size) :
    (overwrite slots start l).toList =
      slots.toList.take start ++ l ++ slots.toList.drop (start + l.length) := by
  induction l generalizing slots start with
  | nil => simp [overwrite]
  | cons a l ih =>
    have hs : start < slots.toList.length := by simp at h ⊢; omega
    have htake : (slots.toList.set start a).take (start + 1) = slots.toList.take start ++ [a] := by
      rw [List.take_set, List.take_succ_eq_append_getElem hs,
        List.set_append_right _ _ (List.length_take_le _ _)]
      have : start - min start slots.size = 0 := by simp at hs; omega
      simp [this]
    rw [overwrite, ih _ _ (by simp at h ⊢; omega)]
    simp only [Array.toList_setIfInBounds, List.length_cons]
    rw [htake, List.drop_set_of_lt (by omega)]
    simp [Nat.add_comm, Nat.add_left_comm]

/-- Write a list into the end of the pool, which becomes live. -/
def prepend (b : Buffer α) (l : List α) : Buffer α :=
  { b with
    slots := overwrite b.slots (b.pool - l.length) l
    pool := b.pool - l.length
    pool_le := by have := b.pool_le; simp; omega }

theorem toList_prepend (b : Buffer α) (l : List α) (h : l.length ≤ b.pool) :
    (b.prepend l).toList = l ++ b.toList := by
  have hp := b.pool_le
  have hl : (b.slots.toList.take (b.pool - l.length)).length = b.pool - l.length := by
    simp; omega
  simp only [prepend, toList]
  rw [toList_overwrite _ _ _ (by omega), List.append_assoc, List.drop_append, hl]
  rw [Nat.sub_add_cancel h]
  simp

/-- Give the pool room for `need` elements and the slack of its next growth. The
row gets longer behind the live elements, by slots that hold `filler`, and the
live elements move to its end; the slots they leave keep what they held. -/
def growPool (b : Buffer α) (filler : α) (need : Nat) : Buffer α :=
  let pool := need + poolSlack b.growths
  let longer := b.slots ++ Array.replicate (pool - b.pool) filler
  { slots := longer.take pool ++ b.slots.extract b.pool b.slots.size
    pool := pool
    growths := min (b.growths + 1) maxGrowths
    capacity := capacityFor b.capacity (b.slots.size + (pool - b.pool))
    pool_le := by have := b.pool_le; simp [longer]; omega }

@[simp] theorem toList_growPool (b : Buffer α) (filler : α) (need : Nat) :
    (b.growPool filler need).toList = b.toList := by
  have := b.pool_le
  have hl : ((b.slots ++ Array.replicate (need + poolSlack b.growths - b.pool) filler).take
      (need + poolSlack b.growths)).toList.length = need + poolSlack b.growths := by
    simp; omega
  simp only [growPool, toList, Array.toList_append]
  rw [List.drop_append_of_le_length (Nat.le_of_eq hl.symm), List.drop_of_length_le (Nat.le_of_eq hl)]
  simp [List.take_of_length_le]

/-! ## Removing -/

/-- Turn the first `count` live elements into pool. -/
def dropFirst (b : Buffer α) (count : Nat) (h : count ≤ b.size) : Buffer α :=
  { b with
    pool := b.pool + count
    pool_le := by have := b.pool_add_size; omega }

@[simp] theorem toList_dropFirst (b : Buffer α) (count : Nat) (h : count ≤ b.size) :
    (b.dropFirst count h).toList = b.toList.drop count := by
  simp [dropFirst, toList]

/-- Drop all live elements but the first `count`. -/
def truncate (b : Buffer α) (count : Nat) : Buffer α :=
  { b with
    slots := b.slots.take (b.pool + count)
    pool_le := by
      have := b.pool_le
      simp only [Array.take_eq_extract, Array.size_extract]
      omega }

@[simp] theorem toList_truncate (b : Buffer α) (count : Nat) :
    (b.truncate count).toList = b.toList.take count := by
  simp [truncate, toList, List.drop_take]

/-- Drop the live elements at the indices from `i` up to `j`. -/
def eraseSpan (b : Buffer α) (i j : Nat) : Buffer α :=
  { b with
    slots := b.slots.take (b.pool + i) ++ b.slots.extract (b.pool + j) b.slots.size
    pool_le := by have := b.pool_le; simp; omega }

@[simp] theorem toList_eraseSpan (b : Buffer α) (i j : Nat) :
    (b.eraseSpan i j).toList = b.toList.take i ++ b.toList.drop j := by
  have := b.pool_le
  have h : b.pool - min (b.pool + i) b.slots.size = 0 := by omega
  simp [eraseSpan, toList, List.drop_append, List.drop_take, List.take_of_length_le, h]

/-! ## Rewriting in place -/

/-- Write over the live element at an index. -/
def set (b : Buffer α) (i : Nat) (a : α) (h : i < b.size) : Buffer α :=
  { b with
    slots := b.slots.set (b.pool + i) a (by have := b.pool_add_size; omega)
    pool_le := by have := b.pool_le; simpa using this }

@[simp] theorem toList_set (b : Buffer α) (i : Nat) (a : α) (h : i < b.size) :
    (b.set i a h).toList = b.toList.set i a := by
  have : ¬b.pool + i < b.pool := by omega
  simp [set, toList, List.drop_set, this]

/-- Put a list in the place of the live elements; it has to be as long. -/
def setAll (b : Buffer α) (l : List α) : Buffer α :=
  { b with
    slots := b.slots.take b.pool ++ l.toArray
    pool_le := by have := b.pool_le; simp; omega }

@[simp] theorem toList_setAll (b : Buffer α) (l : List α) : (b.setAll l).toList = l := by
  have := b.pool_le
  simp [setAll, toList, this]

theorem setAll_toList (b : Buffer α) : b.setAll b.toList = b := by
  have hslots : b.slots.take b.pool ++ b.toList.toArray = b.slots := by
    apply Array.toList_inj.1
    simp [toList]
  simp only [setAll, hslots]

theorem setAll_set (b : Buffer α) {i : Nat} (a : α) (h : i < b.size) :
    b.setAll (b.toList.set i a) = b.set i a h := by
  have hpool := b.pool_le
  have hslots : b.slots.take b.pool ++ (b.toList.set i a).toArray =
      b.slots.set (b.pool + i) a (by have := b.pool_add_size; omega) := by
    have hlength : (b.slots.toList.take b.pool).length = b.pool := by
      rw [List.length_take]
      exact Nat.min_eq_left (by simpa using hpool)
    have hset : (b.slots.toList.take b.pool ++ b.slots.toList.drop b.pool).set (b.pool + i) a =
        b.slots.toList.take b.pool ++ (b.slots.toList.drop b.pool).set i a := by
      rw [List.set_append_right _ _ (by omega), hlength, Nat.add_sub_cancel_left]
    rw [List.take_append_drop] at hset
    apply Array.toList_inj.1
    simp [toList, hset]
  simp only [setAll, set, hslots]

/-- The pool keeps what it holds when a list is put in the place of the live elements. -/
theorem take_slots_setAll (b : Buffer α) (l : List α) :
    (b.setAll l).slots.take b.pool = b.slots.take b.pool := by
  have hpool := b.pool_le
  apply Array.toList_inj.1
  simp [setAll, hpool]

/-- Of two lists put in the place of the live elements, the second stays. -/
theorem setAll_setAll (b : Buffer α) (l m : List α) : (b.setAll l).setAll m = b.setAll m := by
  have hslots := b.take_slots_setAll l
  simp only [setAll] at hslots ⊢
  simp only [hslots]

/-! ## Giving up unused slots -/

/-- Give up the pool and forget its growths; the slots join the spare capacity. -/
def releasePool (b : Buffer α) : Buffer α :=
  { slots := b.slots.extract b.pool b.slots.size, capacity := b.capacity }

@[simp] theorem toList_releasePool (b : Buffer α) : b.releasePool.toList = b.toList := by
  simp [releasePool, toList, List.take_of_length_le]

/-- Give up the spare capacity. -/
def releaseSpare (b : Buffer α) : Buffer α := { b with capacity := b.slots.size }

@[simp] theorem toList_releaseSpare (b : Buffer α) : b.releaseSpare.toList = b.toList := rfl

end Buffer

end PlotSeries
