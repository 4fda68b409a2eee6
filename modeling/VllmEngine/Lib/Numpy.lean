import Mathlib.Algebra.GroupWithZero.Nat
import Mathlib.Data.List.Sort
import Mathlib.Data.List.Dedup
import Mathlib.Data.List.GetD

/-!
# One-dimensional array operations

The numpy functions on one-dimensional arrays, with arrays as lists: masks,
fancy indexing and `argsort`.

> `compress_map`: a mask computed from the entries is a filter.
-/

namespace Numpy

variable {α β κ : Type}

/-! ## Masks and fancy indexing -/

/-- `np.arange(n)`. -/
def arange (n : Nat) : List Nat := List.range n

/-- `a[mask]`. -/
def compress (mask : List Bool) (a : List α) : List α :=
  ((mask.zip a).filter (·.1)).map (·.2)

/-- `a[idx]` for indices in range. -/
def pick [Inhabited α] (a : List α) (idx : List Nat) : List α := idx.map fun i => a.getD i default

theorem compress_map (p : β → Bool) (f : β → α) (xs : List β) :
    compress (xs.map p) (xs.map f) = (xs.filter p).map f := by
  induction xs with
  | nil => rfl
  | cons x xs ih =>
    have hcons : compress (p x :: xs.map p) (f x :: xs.map f)
        = if p x then f x :: compress (xs.map p) (xs.map f)
          else compress (xs.map p) (xs.map f) := by
      unfold compress
      rw [List.zip_cons_cons, List.filter_cons]
      split
      · rfl
      · rfl
    rw [List.map_cons, List.map_cons, hcons, ih, List.filter_cons]
    split
    · rfl
    · rfl

/-- An array as the values at its indices. -/
theorem eq_map_arange (a : List α) (d : α) : a = (arange a.length).map fun i => a.getD i d := by
  refine List.ext_getElem (by simp [arange]) ?_
  intro i h₁ h₂
  simp [arange, List.getElem?_eq_getElem h₁]

theorem pick_arange [Inhabited α] (a : List α) : pick a (arange a.length) = a :=
  (eq_map_arange a default).symm

theorem pick_perm [Inhabited α] (a : List α) {idx : List Nat}
    (h : idx.Perm (arange a.length)) : (pick a idx).Perm a := by
  have hmap : (pick a idx).Perm (pick a (arange a.length)) := h.map _
  rw [pick_arange] at hmap
  exact hmap

/-! ## Sorting by keys -/

section Keys

variable [LinearOrder κ]

/-- The indices below `n` sorted by a key, ties in index order. -/
def keySort (key : Nat → κ) (n : Nat) : List Nat :=
  (arange n).insertionSort fun i j => key i ≤ key j

theorem keySort_perm (key : Nat → κ) (n : Nat) : (keySort key n).Perm (arange n) :=
  List.perm_insertionSort _ _

theorem keySort_pairwise (key : Nat → κ) (n : Nat) :
    (keySort key n).Pairwise fun i j => key i ≤ key j := by
  have htotal : Std.Total fun i j => key i ≤ key j := ⟨fun i j => le_total (key i) (key j)⟩
  have htrans : IsTrans Nat fun i j => key i ≤ key j := ⟨fun _ _ _ h₁ h₂ => le_trans h₁ h₂⟩
  exact List.pairwise_insertionSort _ _

end Keys

section Order

variable [LinearOrder α]

/-- `np.searchsorted(a, v)` for one value: the first index whose entry is not
below it. -/
def searchsorted (a : List α) (v : α) : Nat := (a.takeWhile (· < v)).length

/-- `np.argsort(a, kind="stable")`. -/
def argsort [Inhabited α] (a : List α) : List Nat := keySort (fun i => a.getD i default) a.length

end Order

end Numpy
