import PlotSeries.Proofs.KeyOrder

/-!
# Bounds in sorted runs

Where the two bisections end. Each step keeps what the answers at the ends of the
interval were (`Bracket.stepRight`, `Bracket.stepLeft`), so a bisection always ends
where its answers change (`bracket_bisect`), after a logarithmic number of steps
(`length_intervals_le`). Monotone answers are split by the result (`lt_bisect_iff`),
so in a run in key order

* the records before `runLowerBound run key` are those below `key`
  (`take_runLowerBound`, `drop_runLowerBound`), and
* the records before `runUpperBound run key` are those not above it
  (`take_runUpperBound`, `drop_runUpperBound`).

On other runs the results are still at most the length of the run, and the bounds
of a window of keys are still in order: both bisections probe the same indices
until one goes right where the other goes left (`bisect_mono`), so
`runLowerBound_le_runUpperBound` holds of records in any order. For the same reason
either bound goes up with its key (`runLowerBound_mono`, `runUpperBound_mono`).
-/

namespace PlotSeries

/-! ## The intervals of a bisection -/

section Intervals

variable {n : Nat} {goRight : Fin n → Bool} {lo hi : Nat}

/-- What a bisection knows of the interval it is left with: it went right at the index in
front of it and left at the index behind it, if there are such indices. -/
structure Bracket (goRight : Fin n → Bool) (lo hi : Nat) : Prop where
  le : lo ≤ hi
  le_size : hi ≤ n
  right : lo = 0 ∨ ∃ i : Fin n, i + 1 = lo ∧ goRight i = true
  left : hi = n ∨ ∃ i : Fin n, i = hi ∧ goRight i = false

theorem Bracket.all (goRight : Fin n → Bool) : Bracket goRight 0 n :=
  ⟨Nat.zero_le n, Nat.le_refl n, .inl rfl, .inl rfl⟩

theorem Bracket.stepRight (h : Bracket goRight lo hi) {i : Fin n} (hlt : i < hi)
    (hright : goRight i = true) : Bracket goRight (i + 1) hi :=
  ⟨hlt, h.le_size, .inr ⟨i, rfl, hright⟩, h.left⟩

theorem Bracket.stepLeft (h : Bracket goRight lo hi) {i : Fin n} (hle : lo ≤ i)
    (hleft : goRight i = false) : Bracket goRight lo i :=
  ⟨hle, Nat.le_of_lt i.isLt, h.right, .inr ⟨i, rfl, hleft⟩⟩

theorem mid_lt_size (h : lo < hi) (hn : hi ≤ n) : (lo + hi) / 2 < n := by omega

theorem mid_le_size (h : lo < hi) (hn : hi ≤ n) : (lo + hi) / 2 ≤ n := by omega

/-- The intervals that a bisection between two indices goes through, down to the empty one at
its result. -/
def intervalsFrom (goRight : Fin n → Bool) (lo hi : Nat) (hn : hi ≤ n) : List (Nat × Nat) :=
  if h : lo < hi then
    let mid := (lo + hi) / 2
    if goRight ⟨mid, mid_lt_size h hn⟩ then (lo, hi) :: intervalsFrom goRight (mid + 1) hi hn
    else (lo, hi) :: intervalsFrom goRight lo mid (mid_le_size h hn)
  else [(lo, hi)]
termination_by hi - lo

/-- The intervals that a bisection of all indices below `n` goes through. -/
def intervals (n : Nat) (goRight : Fin n → Bool) : List (Nat × Nat) :=
  intervalsFrom goRight 0 n (Nat.le_refl n)

theorem Bracket.of_mem_intervalsFrom (hn : hi ≤ n) (h : Bracket goRight lo hi) :
    ∀ interval ∈ intervalsFrom goRight lo hi hn, Bracket goRight interval.1 interval.2 := by
  fun_induction intervalsFrom goRight lo hi hn with
  | case1 lo hi hn hlt mid hmid ih =>
    rw [List.forall_mem_cons]
    exact ⟨h, ih (h.stepRight (i := ⟨mid, by omega⟩) (show mid < hi by omega) hmid)⟩
  | case2 lo hi hn hlt mid hmid ih =>
    rw [List.forall_mem_cons]
    refine ⟨h, ih (h.stepLeft (i := ⟨mid, by omega⟩) (show lo ≤ mid by omega) ?_)⟩
    simpa using hmid
  | case3 lo hi hn hge =>
    rw [List.forall_mem_singleton]
    exact h

theorem getLast?_intervalsFrom (hn : hi ≤ n) (hle : lo ≤ hi) :
    (intervalsFrom goRight lo hi hn).getLast? =
      some (bisectFrom goRight lo hi hn, bisectFrom goRight lo hi hn) := by
  fun_induction bisectFrom goRight lo hi hn with
  | case1 lo hi hn h mid hmid ih =>
    rw [intervalsFrom, dif_pos h, if_pos hmid, List.getLast?_cons, ih (by omega), Option.getD_some]
  | case2 lo hi hn h mid hmid ih =>
    rw [intervalsFrom, dif_pos h, if_neg hmid, List.getLast?_cons, ih (by omega), Option.getD_some]
  | case3 lo hi hn h =>
    have heq : hi = lo := by omega
    subst heq
    rw [intervalsFrom, dif_neg h]
    rfl

/-- A step leaves at most half of an interval, so a bisection is over after as many steps as
the length has binary digits. -/
theorem length_intervalsFrom_le (hn : hi ≤ n) {k : Nat} (h : hi - lo < 2 ^ k) :
    (intervalsFrom goRight lo hi hn).length ≤ k + 1 := by
  induction k generalizing lo hi with
  | zero =>
    rw [intervalsFrom, dif_neg (by omega)]
    exact Nat.le_refl 1
  | succ k ih =>
    rw [intervalsFrom]
    split
    · dsimp only
      split
      · exact Nat.succ_le_succ (ih hn (by omega))
      · exact Nat.succ_le_succ (ih _ (by omega))
    · exact Nat.le_add_left 1 _

/-- Every interval of a bisection is one between two answers, whatever they are elsewhere. -/
theorem bracket_of_mem_intervals {interval : Nat × Nat} (h : interval ∈ intervals n goRight) :
    Bracket goRight interval.1 interval.2 :=
  (Bracket.all goRight).of_mem_intervalsFrom (Nat.le_refl n) interval h

theorem getLast?_intervals (goRight : Fin n → Bool) :
    (intervals n goRight).getLast? = some (bisect n goRight, bisect n goRight) :=
  getLast?_intervalsFrom (Nat.le_refl n) (Nat.zero_le n)

theorem length_intervals_le {k : Nat} (h : n < 2 ^ k) : (intervals n goRight).length ≤ k + 1 :=
  length_intervalsFrom_le (Nat.le_refl n) h

/-- So a bisection ends where its answers change. -/
theorem bracket_bisect (goRight : Fin n → Bool) :
    Bracket goRight (bisect n goRight) (bisect n goRight) :=
  bracket_of_mem_intervals (List.mem_of_getLast? (getLast?_intervals goRight))

/-- A bisection splits monotone answers. -/
theorem lt_bisect_iff
    (hmono : ∀ i j : Fin n, i ≤ j → goRight j = true → goRight i = true) (i : Fin n) :
    i < bisect n goRight ↔ goRight i = true := by
  obtain ⟨-, -, hright, hleft⟩ := bracket_bisect goRight
  generalize bisect n goRight = stop at hright hleft ⊢
  constructor
  · intro hi
    obtain hzero | ⟨j, hj, hgo⟩ := hright
    · omega
    · exact hmono i j (by omega) hgo
  · intro hgo
    refine Nat.lt_of_not_le fun hge => ?_
    obtain hall | ⟨j, hj, hstop⟩ := hleft
    · omega
    · -- going right at `i` would mean going right where the bisection stopped
      have hgo' := hmono j i (by omega) hgo
      rw [hstop] at hgo'
      cases hgo'

end Intervals

/-! ## Two bisections -/

theorem le_bisectFrom {n : Nat} (goRight : Fin n → Bool) {lo hi : Nat} (hn : hi ≤ n) (hle : lo ≤ hi) :
    lo ≤ bisectFrom goRight lo hi hn := by
  fun_induction bisectFrom goRight lo hi hn with
  | case1 lo hi hn h mid hmid ih =>
    have := ih (by omega)
    omega
  | case2 lo hi hn h mid hmid ih => exact ih (by omega)
  | case3 lo hi hn h => exact Nat.le_refl lo

/-- A bisection that goes right wherever another one does ends no earlier. -/
theorem bisectFrom_mono {n : Nat} {f g : Fin n → Bool} (hfg : ∀ i, f i = true → g i = true)
    {lo hi : Nat} (hn : hi ≤ n) (hle : lo ≤ hi) : bisectFrom f lo hi hn ≤ bisectFrom g lo hi hn := by
  fun_induction bisectFrom f lo hi hn with
  | case1 lo hi hn h mid hmid ih =>
    conv => rhs; rw [bisectFrom, dif_pos h, if_pos (hfg _ hmid)]
    exact ih (by omega)
  | case2 lo hi hn h mid hmid ih =>
    conv => rhs; rw [bisectFrom, dif_pos h]
    dsimp only
    split
    · have hf := bisectFrom_le f lo mid (by omega) (by omega)
      have hg := le_bisectFrom g hn (show mid + 1 ≤ hi by omega)
      exact Nat.le_trans hf (Nat.le_trans (Nat.le_succ mid) hg)
    · exact ih (by omega)
  | case3 lo hi hn h => exact le_bisectFrom g hn hle

theorem bisect_mono {n : Nat} {f g : Fin n → Bool} (hfg : ∀ i, f i = true → g i = true) :
    bisect n f ≤ bisect n g :=
  bisectFrom_mono hfg (Nat.le_refl n) (Nat.zero_le n)

/-! ## Bounds of keys -/

variable {R : Type} [PlotRecord R]

/-- The bounds of a window of keys are in order, whether or not the records are. -/
theorem runLowerBound_le_runUpperBound (run : List R) {lower upper : Binary64}
    (h : lower.signedMagnitude ≤ upper.signedMagnitude) :
    runLowerBound run lower ≤ runUpperBound run upper := by
  refine bisect_mono fun i hi => ?_
  rw [keyLess_sortKey_iff] at hi
  rw [not_keyLess_key_iff]
  exact Int.le_trans (Int.le_of_lt hi) h

theorem runLowerBound_mono (run : List R) {a b : Binary64}
    (h : a.signedMagnitude ≤ b.signedMagnitude) : runLowerBound run a ≤ runLowerBound run b := by
  refine bisect_mono fun i hi => ?_
  rw [keyLess_sortKey_iff] at hi ⊢
  exact Int.lt_of_lt_of_le hi h

theorem runUpperBound_mono (run : List R) {a b : Binary64}
    (h : a.signedMagnitude ≤ b.signedMagnitude) : runUpperBound run a ≤ runUpperBound run b := by
  refine bisect_mono fun i hi => ?_
  rw [not_keyLess_key_iff] at hi ⊢
  exact Int.le_trans hi h

theorem runLowerBound_le (run : List R) (key : Binary64) : runLowerBound run key ≤ run.length :=
  lowerBound_le _ _ _

theorem runUpperBound_le (run : List R) (key : Binary64) : runUpperBound run key ≤ run.length :=
  upperBound_le _ _ _

/-- The records of a run do not go down in the key order. -/
def InKeyOrder (run : List R) : Prop := run.Pairwise fun a b => recordLe a b = true

instance (run : List R) : Decidable (InKeyOrder run) :=
  inferInstanceAs (Decidable (run.Pairwise _))

section Sorted

variable {run : List R} (hrun : InKeyOrder run) (key : Binary64)
include hrun

theorem InKeyOrder.place_le {i j : Nat} (hij : i ≤ j) (hj : j < run.length) :
    place run[i] ≤ place run[j] := by
  rcases Nat.lt_or_eq_of_le hij with h | rfl
  · exact recordLe_iff.1 (List.pairwise_iff_getElem.1 hrun i j (by omega) hj h)
  · exact Int.le_refl _

theorem lt_runLowerBound_iff (i : Nat) (hi : i < run.length) :
    i < runLowerBound run key ↔ place run[i] < key.signedMagnitude := by
  have hmono : ∀ i j : Fin run.length, i ≤ j → keyLess (sortKey run[j]) key = true →
      keyLess (sortKey run[i]) key = true := by
    intro i j hij hj
    rw [keyLess_sortKey_iff] at hj ⊢
    exact Int.lt_of_le_of_lt (hrun.place_le hij j.isLt) hj
  exact (lt_bisect_iff hmono ⟨i, hi⟩).trans keyLess_sortKey_iff

theorem lt_runUpperBound_iff (i : Nat) (hi : i < run.length) :
    i < runUpperBound run key ↔ place run[i] ≤ key.signedMagnitude := by
  have hmono : ∀ i j : Fin run.length, i ≤ j → (!keyLess key (sortKey run[j])) = true →
      (!keyLess key (sortKey run[i])) = true := by
    intro i j hij hj
    rw [not_keyLess_key_iff] at hj ⊢
    exact Int.le_trans (hrun.place_le hij j.isLt) hj
  exact (lt_bisect_iff hmono ⟨i, hi⟩).trans not_keyLess_key_iff

theorem take_runLowerBound : ∀ r ∈ run.take (runLowerBound run key),
    place r < key.signedMagnitude := by
  intro r hr
  obtain ⟨i, hi, rfl⟩ := List.mem_take_iff_getElem.1 hr
  exact (lt_runLowerBound_iff hrun key i (by omega)).1 (by omega)

theorem drop_runLowerBound : ∀ r ∈ run.drop (runLowerBound run key),
    key.signedMagnitude ≤ place r := by
  intro r hr
  obtain ⟨i, hi, rfl⟩ := List.mem_drop_iff_getElem.1 hr
  have := lt_runLowerBound_iff hrun key (runLowerBound run key + i) (by omega)
  omega

theorem take_runUpperBound : ∀ r ∈ run.take (runUpperBound run key),
    place r ≤ key.signedMagnitude := by
  intro r hr
  obtain ⟨i, hi, rfl⟩ := List.mem_take_iff_getElem.1 hr
  exact (lt_runUpperBound_iff hrun key i (by omega)).1 (by omega)

theorem drop_runUpperBound : ∀ r ∈ run.drop (runUpperBound run key),
    key.signedMagnitude < place r := by
  intro r hr
  obtain ⟨i, hi, rfl⟩ := List.mem_drop_iff_getElem.1 hr
  have := lt_runUpperBound_iff hrun key (runUpperBound run key + i) (by omega)
  omega

/-! ### Bounds by index -/

section Index

variable {i : Nat} {r : R} (hr : run[i]? = some r)
include hr

theorem lt_runLowerBound_iff_keyLess :
    i < runLowerBound run key ↔ keyLess (sortKey r) key = true := by
  obtain ⟨hi, rfl⟩ := List.getElem?_eq_some_iff.1 hr
  exact (lt_runLowerBound_iff hrun key i hi).trans keyLess_sortKey_iff.symm

theorem runUpperBound_le_iff_keyLess :
    runUpperBound run key ≤ i ↔ keyLess key (sortKey r) = true := by
  obtain ⟨hi, rfl⟩ := List.getElem?_eq_some_iff.1 hr
  have hiff := lt_runUpperBound_iff hrun key i hi
  rw [keyLess_key_iff]
  omega

end Index

end Sorted

end PlotSeries
