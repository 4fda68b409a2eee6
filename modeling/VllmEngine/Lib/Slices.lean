import VllmEngine.Lib.Python
import VllmEngine.Lib.Raises

/-!
# Slices with a step

`l[start:stop:step]` for a positive step: every `step`-th element of `l[start:stop]`.
A slice chooses positions, whatever stands there (`getSlice_map`), and keeps their
order (`getSlice_sublist`). `mapM_range'` is a loop that reads the elements of a slice one
at a time.
-/

namespace Python

variable {α β : Type}

/-- A slice whose step is positive; `none` is `None`. -/
structure Slice where
  start : Option Int
  stop : Option Int
  step : Nat
  step_pos : 0 < step

/-- `l[s]`. -/
def getSlice (l : List α) (s : Slice) : List α :=
  strided (slice l (s.start.getD 0) (s.stop.getD l.length)) 0 s.step

theorem strided_map (f : α → β) (l : List α) (start step : Nat) :
    strided (l.map f) start step = (strided l start step).map f := by
  unfold strided
  rw [List.zipIdx_map, List.filterMap_map, List.map_filterMap]
  congr 1
  funext e
  show (if start ≤ e.2 ∧ (e.2 - start) % step = 0 then some (f e.1) else none) = _
  split <;> rfl

theorem strided_sublist (l : List α) (start step : Nat) : (strided l start step).Sublist l := by
  have hfilter : strided l start step =
      (l.zipIdx.filter fun e => decide (start ≤ e.2 ∧ (e.2 - start) % step = 0)).map Prod.fst := by
    unfold strided
    rw [← List.filterMap_eq_map, List.filterMap_filter]
    congr 1
    funext e
    simp only [decide_eq_true_eq, Function.comp_apply]
  rw [hfilter]
  have hsub := (List.filter_sublist (l := l.zipIdx)
    (p := fun e => decide (start ≤ e.2 ∧ (e.2 - start) % step = 0))).map Prod.fst
  rwa [List.zipIdx_map_fst] at hsub

theorem slice_map (f : α → β) (l : List α) (a b : Int) :
    slice (l.map f) a b = (slice l a b).map f := by
  unfold slice
  rw [List.length_map, List.map_drop, List.map_take]

theorem slice_sublist (l : List α) (a b : Int) : (slice l a b).Sublist l :=
  (List.drop_sublist _ _).trans (List.take_sublist _ _)

theorem getSlice_map (f : α → β) (l : List α) (s : Slice) :
    getSlice (l.map f) s = (getSlice l s).map f := by
  unfold getSlice
  rw [List.length_map, slice_map, strided_map]

theorem getSlice_sublist (l : List α) (s : Slice) : (getSlice l s).Sublist l :=
  (strided_sublist _ _ _).trans (slice_sublist _ _ _)

theorem getItem_map (f : α → β) (l : List α) (i : Int) :
    getItem (l.map f) i = (getItem l i).map f := by
  unfold getItem
  rw [List.length_map]
  by_cases hneg : i < 0
  · by_cases hin : 0 ≤ (l.length : Int) + i
    · simp only [if_pos hneg, if_pos hin, List.getElem?_map]
      cases l[((l.length : Int) + i).toNat]? <;> rfl
    · simp only [if_pos hneg, if_neg hin]
      rfl
  · simp only [if_neg hneg, List.getElem?_map]
    cases l[i.toNat]? <;> rfl

theorem mem_of_getItem {l : List α} {i : Int} {a : α} (h : getItem l i = .ok a) : a ∈ l := by
  unfold getItem at h
  split at h
  next b hb =>
    obtain rfl := Except.ok.inj h
    split at hb
    · split at hb
      · exact List.mem_of_getElem? hb
      · cases hb
    · exact List.mem_of_getElem? hb
  next => cases h

theorem getItem_zero {a : α} {l : List α} : getItem (a :: l) 0 = .ok a :=
  getItem_natCast (i := 0) rfl

theorem getItem_neg_one {l : List α} (h : l ≠ []) : getItem l (-1) = .ok (l.getLast h) := by
  have hpos : 0 < l.length := List.length_pos_iff.mpr h
  have hlast : l[((l.length : Int) + -1).toNat]? = some (l.getLast h) := by
    rw [show ((l.length : Int) + -1).toNat = l.length - 1 by omega,
      List.getElem?_eq_getElem (by omega), List.getLast_eq_getElem]
  unfold getItem
  rw [if_pos (by omega), if_pos (by omega), hlast]

theorem mapM_range' {f : Nat → Except Error α} {l : List α}
    (hf : ∀ i x, l[i]? = some x → f i = .ok x) :
    ∀ {n a : Nat}, a + n ≤ l.length → (List.range' a n).mapM f = .ok ((l.drop a).take n)
  | 0, a, _ => by
    rw [List.take_zero]
    rfl
  | n + 1, a, h => by
    have hlt : a < l.length := by omega
    have hhead : f a = .ok l[a] := hf a l[a] (List.getElem?_eq_getElem hlt)
    rw [List.range'_succ, List.mapM_cons, hhead, Raises.ok_bind, mapM_range' hf (by omega),
      List.drop_eq_getElem_cons hlt]
    rfl

end Python
