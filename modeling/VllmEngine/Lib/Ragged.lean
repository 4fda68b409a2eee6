import Mathlib.Algebra.GroupWithZero.Nat
import Mathlib.Data.List.Basic

/-!
# Ragged arrays

A batch of segments of different lengths laid out flat: the offsets of the segments
(`cumsum`), one value repeated over each segment (`repeatEach`), the positions inside the
segments (`aranges`). Every lemma reads such an array at position `k` of the segment that
follows the segments `pre`.
-/

namespace Numpy

variable {α β : Type}

/-- `np.cumsum`, from a start. -/
def cumsumFrom (start : Nat) : List Nat → List Nat
  | [] => []
  | n :: counts => (start + n) :: cumsumFrom (start + n) counts

/-- `np.cumsum(counts)`. -/
def cumsum (counts : List Nat) : List Nat := cumsumFrom 0 counts

/-- `np.repeat(a, counts)`. -/
def repeatEach (a : List α) (counts : List Nat) : List α :=
  (a.zip counts).flatMap fun e => List.replicate e.2 e.1

/-- The concatenation of `np.arange(n)` for every count. -/
def aranges (counts : List Nat) : List Nat := counts.flatMap List.range

theorem getElem?_cumsumFrom (pre : List Nat) (n : Nat) (post : List Nat) : ∀ start,
    (cumsumFrom start (pre ++ n :: post))[pre.length]? = some (start + pre.sum + n) := by
  induction pre with
  | nil =>
    intro start
    rfl
  | cons p pre ih =>
    intro start
    show (cumsumFrom (start + p) (pre ++ n :: post))[pre.length]? = _
    rw [ih, List.sum_cons]
    simp only [Nat.add_assoc]

theorem getElem?_cumsum (pre : List Nat) (n : Nat) (post : List Nat) :
    (cumsum (pre ++ n :: post))[pre.length]? = some (pre.sum + n) := by
  have h := getElem?_cumsumFrom pre n post 0
  rw [Nat.zero_add] at h
  exact h

theorem length_cumsumFrom (counts : List Nat) : ∀ start, (cumsumFrom start counts).length = counts.length := by
  induction counts with
  | nil => exact fun _ => rfl
  | cons n counts ih =>
    intro start
    show (cumsumFrom (start + n) counts).length + 1 = counts.length + 1
    rw [ih]

theorem length_cumsum (counts : List Nat) : (cumsum counts).length = counts.length :=
  length_cumsumFrom counts 0

/-- A position of a segment, read in the flat list. -/
theorem getElem?_flatMap_segment (f : α → List β) (pre : List α) (a : α) (post : List α) {off k : Nat}
    (hoff : (pre.map fun x => (f x).length).sum = off) (hk : k < (f a).length) :
    ((pre ++ a :: post).flatMap f)[off + k]? = (f a)[k]? := by
  have hpre : (pre.flatMap f).length = off := by
    rw [List.length_flatMap]
    exact hoff
  rw [List.flatMap_append, List.flatMap_cons, List.getElem?_append_right (by omega), hpre,
    Nat.add_sub_cancel_left, List.getElem?_append_left hk]

theorem getElem?_repeatEach (pre : List Nat) {n : Nat} (post : List Nat) : ∀ {a : List α} {x : α} {k : Nat},
    a[pre.length]? = some x → k < n → (repeatEach a (pre ++ n :: post))[pre.sum + k]? = some x := by
  induction pre with
  | nil =>
    intro a x k hx hk
    cases a with
    | nil => cases hx
    | cons y a =>
      obtain rfl : y = x := Option.some.inj hx
      show (List.replicate n y ++ _)[List.sum [] + k]? = _
      rw [List.sum_nil, Nat.zero_add, List.getElem?_append_left (by simpa using hk),
        List.getElem?_replicate, if_pos hk]
  | cons p pre ih =>
    intro a x k hx hk
    cases a with
    | nil => cases hx
    | cons y a =>
      have hrest : (repeatEach a (pre ++ n :: post))[pre.sum + k]? = some x := ih hx hk
      show (List.replicate p y ++ repeatEach a (pre ++ n :: post))[(p :: pre).sum + k]? = _
      rw [List.sum_cons, Nat.add_assoc, List.getElem?_append_right (by simp), List.length_replicate,
        Nat.add_sub_cancel_left]
      exact hrest

/-- The ends of the segments. -/
theorem getD_cons_cumsum {counts : List Nat} {j : Nat} (hj : j ≤ counts.length) :
    (0 :: cumsum counts).getD j 0 = (counts.take j).sum := by
  cases j with
  | zero => rfl
  | succ j =>
    have hlt : j < counts.length := by omega
    have hsplit : counts.take j ++ counts[j] :: counts.drop (j + 1) = counts := by
      rw [List.getElem_cons_drop, List.take_append_drop]
    have hlength : (counts.take j).length = j := by
      rw [List.length_take]
      omega
    have hat := getElem?_cumsum (counts.take j) counts[j] (counts.drop (j + 1))
    rw [hsplit, hlength] at hat
    show (cumsum counts).getD j 0 = _
    rw [List.getD_eq_getElem?_getD, hat, List.take_add_one, List.getElem?_eq_getElem hlt, List.sum_append]
    simp

/-- Segments do not overlap. -/
theorem segment_unique {counts : List Nat} {i j x : Nat} (hi : (counts.take i).sum ≤ x)
    (hi' : x < (counts.take i).sum + counts.getD i 0) (hj : (counts.take j).sum ≤ x)
    (hj' : x < (counts.take j).sum + counts.getD j 0) : i = j := by
  have hmono : ∀ a b, a < b → (counts.take a).sum + counts.getD a 0 ≤ (counts.take b).sum := by
    intro a b hab
    have hsucc : (counts.take (a + 1)).sum = (counts.take a).sum + counts.getD a 0 := by
      rw [List.take_add_one, List.sum_append, List.getD_eq_getElem?_getD]
      cases counts[a]? with
      | none => rfl
      | some n => simp
    have hle : a + 1 ≤ b := hab
    have hsplit := congrArg List.sum (List.take_append_drop (a + 1) (counts.take b))
    rw [List.sum_append, List.take_take, Nat.min_eq_left hle] at hsplit
    omega
  rcases Nat.lt_trichotomy i j with h | h | h
  · have := hmono i j h
    omega
  · exact h
  · have := hmono j i h
    omega

end Numpy
