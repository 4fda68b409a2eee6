import VllmEngine.Lib.Numpy
import VllmEngine.Lib.Ragged

/-!
# Intervals cut at points

The numbers from `lo` to `hi`, in order, as the intervals between the points of a list that does not
decrease.

> `flatMap_cuts`: between all points, `flatMap_clamp`: between the points that fall in the interval,
> `lt_searchsorted_iff`, `lt_searchsortedRight_iff`: the points before a number.
-/

namespace Intervals

/-- The numbers of `[lo, hi)`. -/
def between (lo hi : Nat) : List Nat := List.range' lo (hi - lo)

theorem mem_between {lo hi x : Nat} : x ∈ between lo hi ↔ lo ≤ x ∧ x < hi := by
  unfold between
  rw [List.mem_range'_1]
  omega

theorem between_append {lo mid hi : Nat} (h : lo ≤ mid) (h' : mid ≤ hi) :
    between lo mid ++ between mid hi = between lo hi := by
  unfold between
  have hmid : mid = lo + (mid - lo) := by omega
  have hsum : hi - lo = mid - lo + (hi - mid) := by omega
  rw [hsum, ← List.range'_append_1]
  rw [← hmid]

/-- The intervals between points that do not decrease. -/
theorem flatMap_cuts {f : Nat → Nat} : ∀ {n : Nat}, (∀ j < n, f j ≤ f (j + 1)) →
    f 0 ≤ f n ∧ ((List.range n).flatMap fun j => between (f j) (f (j + 1))) = between (f 0) (f n) := by
  intro n
  induction n with
  | zero =>
    intro _
    refine ⟨Nat.le_refl _, ?_⟩
    unfold between
    rw [Nat.sub_self]
    rfl
  | succ n ih =>
    intro h
    obtain ⟨hle, hcut⟩ := ih fun j hj => h j (Nat.lt_succ_of_lt hj)
    have hlast := h n (Nat.lt_succ_self n)
    refine ⟨Nat.le_trans hle hlast, ?_⟩
    rw [List.range_succ, List.flatMap_append, hcut, List.flatMap_singleton, between_append hle hlast]

/-- A point moved into `[lo, hi]`. -/
def clamp (lo hi x : Nat) : Nat := max lo (min x hi)

theorem clamp_le_clamp (lo hi : Nat) {x y : Nat} (h : x ≤ y) : clamp lo hi x ≤ clamp lo hi y := by
  unfold clamp
  omega

/-- An interval between the points around it. -/
theorem flatMap_clamp (f : Nat → Nat) (lo hi n : Nat) (hf : ∀ j < n, f j ≤ f (j + 1)) (hlo : f 0 ≤ lo)
    (hle : lo ≤ hi) (hhi : hi ≤ f n) :
    ((List.range n).flatMap fun j => between (clamp lo hi (f j)) (clamp lo hi (f (j + 1)))) = between lo hi := by
  have hfirst : clamp lo hi (f 0) = lo := by
    unfold clamp
    omega
  have hlast : clamp lo hi (f n) = hi := by
    unfold clamp
    omega
  have hcut := (flatMap_cuts (f := fun j => clamp lo hi (f j)) fun j hj => clamp_le_clamp lo hi (hf j hj)).2
  rw [hfirst, hlast] at hcut
  exact hcut

end Intervals

namespace Numpy

/-- `np.searchsorted(a, v, side="right")` for one value: the first index whose entry is above it. -/
def searchsortedRight (a : List Nat) (v : Nat) : Nat := (a.takeWhile (· ≤ v)).length

/-- In an array that does not decrease, the indices before are those of the entries that satisfy a condition
that no entry behind an entry that does not satisfies. -/
theorem lt_length_takeWhile_iff {p : Nat → Bool} (hp : ∀ x y, x ≤ y → p y = true → p x = true) :
    ∀ {a : List Nat}, a.Pairwise (· ≤ ·) → ∀ i, i < (a.takeWhile p).length ↔ ∃ x, a[i]? = some x ∧ p x = true := by
  intro a
  induction a with
  | nil =>
    intro _ i
    simp
  | cons x a ih =>
    intro h i
    obtain ⟨hx, ha⟩ := List.pairwise_cons.mp h
    rw [List.takeWhile_cons]
    split
    next hpx =>
      cases i with
      | zero => simp [hpx]
      | succ i =>
        rw [List.length_cons, Nat.succ_lt_succ_iff, ih ha, List.getElem?_cons_succ]
    next hpx =>
      rw [List.length_nil]
      refine ⟨fun hi => absurd hi (Nat.not_lt_zero i), fun ⟨y, hy, hpy⟩ => ?_⟩
      cases i with
      | zero =>
        rw [List.getElem?_cons_zero, Option.some.injEq] at hy
        exact absurd (hy ▸ hpy) hpx
      | succ i =>
        rw [List.getElem?_cons_succ] at hy
        exact absurd (hp x y (hx y (List.mem_of_getElem? hy)) hpy) hpx

theorem lt_searchsorted_iff {a : List Nat} (h : a.Pairwise (· ≤ ·)) (v i : Nat) :
    i < searchsorted a v ↔ ∃ x, a[i]? = some x ∧ x < v := by
  unfold searchsorted
  rw [lt_length_takeWhile_iff (fun x y hle hy => ?_) h]
  · simp only [decide_eq_true_eq]
  · exact decide_eq_true (Nat.lt_of_le_of_lt hle (of_decide_eq_true hy))

theorem lt_searchsortedRight_iff {a : List Nat} (h : a.Pairwise (· ≤ ·)) (v i : Nat) :
    i < searchsortedRight a v ↔ ∃ x, a[i]? = some x ∧ x ≤ v := by
  unfold searchsortedRight
  rw [lt_length_takeWhile_iff (fun x y hle hy => ?_) h]
  · simp only [decide_eq_true_eq]
  · exact decide_eq_true (Nat.le_trans hle (of_decide_eq_true hy))

/-- The ends of segments do not decrease. -/
theorem pairwise_cons_cumsum (counts : List Nat) : (0 :: cumsum counts).Pairwise (· ≤ ·) := by
  rw [List.pairwise_iff_getElem]
  intro i j hi hj hij
  rw [List.length_cons, length_cumsum] at hi hj
  have hget : ∀ (k : Nat) (hk : k < (0 :: cumsum counts).length), (0 :: cumsum counts)[k] = (counts.take k).sum := by
    intro k hk
    rw [← getD_cons_cumsum (by rw [List.length_cons, length_cumsum] at hk; omega), List.getD_eq_getElem _ _ hk]
  rw [hget, hget]
  have hsplit := congrArg List.sum (List.take_append_drop i (counts.take j))
  rw [List.sum_append, List.take_take, Nat.min_eq_left (Nat.le_of_lt hij)] at hsplit
  omega

end Numpy
