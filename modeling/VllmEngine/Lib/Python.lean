import Mathlib.Algebra.Order.Ring.Int

/-!
# Python integers, slices and exceptions

Python's `//` rounds towards minus infinity and a slice bound may be negative
or past the end; both differ from what a natural-number reading suggests. The
definitions here are the Python ones, and the lemmas give the plain reading on
the inputs that satisfy it.
-/

namespace Python

/-- The exceptions that modelled code raises, with their messages. -/
inductive Error
  | assertion (msg : String)
  | value (msg : String)
  | runtime (msg : String)
  | index (msg : String)
  | key (msg : String)
  | notImplemented (msg : String)
  | zeroDivision (msg : String)
  | attribute (msg : String)
  | type (msg : String)
deriving DecidableEq, Repr

/-- How a call can fail to return: it raises, or its loop goes on for ever. -/
inductive NoReturn
  | raised (e : Error)
  | forever
deriving DecidableEq, Repr

/-- `assert cond, msg`. -/
def require (cond : Bool) (msg : String) : Except Error Unit :=
  if cond then .ok () else .error (.assertion msg)

@[simp] theorem require_eq_ok {cond : Bool} {msg : String} {u : Unit} :
    require cond msg = .ok u ↔ cond = true := by
  unfold require
  cases cond with
  | true => simp
  | false => simp

/-- Ceiling division, written with floor division as in Python:
`-(a // -b)`. -/
def cdiv (a b : Int) : Int := -(Int.fdiv a (-b))

/-- A slice bound resolved against a sequence of length `n`: negative bounds
count from the end, and the result is clamped to `[0, n]`. -/
def sliceBound (n : Nat) (i : Int) : Nat :=
  if i < 0 then (n + i).toNat else min i.toNat n

/-- `l[a:b]`. -/
def slice {α : Type} (l : List α) (a b : Int) : List α :=
  (l.take (sliceBound l.length b)).drop (sliceBound l.length a)

/-- `l[:b]`, also the list that `del l[b:]` leaves behind. -/
def sliceTo {α : Type} (l : List α) (b : Int) : List α :=
  l.take (sliceBound l.length b)

/-- `l[a:]`. -/
def sliceFrom {α : Type} (l : List α) (a : Int) : List α :=
  l.drop (sliceBound l.length a)

/-- `l[i]`; a negative index counts from the end. -/
def getItem {α : Type} (l : List α) (i : Int) : Except Error α :=
  match if i < 0 then (if 0 ≤ l.length + i then l[(l.length + i).toNat]? else none)
    else l[i.toNat]? with
  | some a => .ok a
  | none => .error (.index "list index out of range")

theorem getItem_natCast {α : Type} {l : List α} {i : Nat} {x : α} (h : l[i]? = some x) :
    getItem l (i : Int) = .ok x := by
  unfold getItem
  rw [if_neg (by omega), Int.toNat_natCast, h]

/-- `l[start::step]`, for a start that is not negative and a positive step. -/
def strided {α : Type} (l : List α) (start step : Nat) : List α :=
  l.zipIdx.filterMap fun e => if start ≤ e.2 ∧ (e.2 - start) % step = 0 then some e.1 else none

theorem sliceTo_natCast {α : Type} (l : List α) (n : Nat) : sliceTo l (n : Int) = l.take n := by
  have h : ¬ ((n : Int) < 0) := by omega
  rw [sliceTo, sliceBound, if_neg h, Int.toNat_natCast]
  rcases Nat.le_total n l.length with hle | hle
  · rw [Nat.min_eq_left hle]
  · rw [Nat.min_eq_right hle, List.take_length, List.take_of_length_le hle]

theorem slice_natCast {α : Type} (l : List α) (a b : Nat) :
    slice l (a : Int) (b : Int) = (l.take b).drop a := by
  have ha : ¬ ((a : Int) < 0) := by omega
  have htake : l.take (sliceBound l.length b) = l.take b := sliceTo_natCast l b
  rw [slice, htake, sliceBound, if_neg ha, Int.toNat_natCast]
  rcases Nat.le_total a l.length with hle | hle
  · rw [Nat.min_eq_left hle]
  · rw [Nat.min_eq_right hle, List.drop_of_length_le (by simp),
      List.drop_of_length_le (by rw [List.length_take]; omega)]

theorem sliceFrom_natCast {α : Type} (l : List α) (n : Nat) : sliceFrom l (n : Int) = l.drop n := by
  have h : ¬ ((n : Int) < 0) := by omega
  rw [sliceFrom, sliceBound, if_neg h, Int.toNat_natCast]
  rcases Nat.le_total n l.length with hle | hle
  · rw [Nat.min_eq_left hle]
  · rw [Nat.min_eq_right hle, List.drop_length, List.drop_of_length_le hle]

/-- `l[-k:]` are the last `k` elements, unless `k` is zero. -/
theorem sliceFrom_neg {α : Type} (l : List α) {k : Nat} (hk : k ≠ 0) :
    sliceFrom l (-(k : Int)) = l.drop (l.length - k) := by
  have hneg : -(k : Int) < 0 := by omega
  have hbound : ((l.length : Int) + -(k : Int)).toNat = l.length - k := by omega
  rw [sliceFrom, sliceBound, if_pos hneg, hbound]

theorem sliceFrom_neg_zero {α : Type} (l : List α) : sliceFrom l (-((0 : Nat) : Int)) = l := by
  rw [sliceFrom, sliceBound]
  simp

/-- On a positive divisor the ceiling is the least integer whose multiple
reaches `a`. -/
theorem cdiv_le_iff {a b n : Int} (hb : 0 < b) : cdiv a b ≤ n ↔ a ≤ n * b := by
  have hneg : Int.fdiv a (-b) = (-a) / b := by
    have h := Int.neg_fdiv_neg (-a) b
    rw [Int.neg_neg] at h
    rw [h, Int.fdiv_eq_ediv_of_nonneg _ (by omega)]
  have hle := Int.le_ediv_iff_mul_le (a := -n) (b := -a) hb
  rw [Int.neg_mul] at hle
  rw [cdiv, hneg]
  omega

theorem lt_cdiv_iff {a b n : Int} (hb : 0 < b) : n < cdiv a b ↔ n * b < a := by
  have h := cdiv_le_iff (a := a) (n := n) hb
  omega

end Python
