import Mathlib.Data.List.GetD

/-!
# Values over the true entries of a mask

`scatter mask values` writes the values in order over the true entries of the mask, as a masked
assignment does. Rows that are wanted here and there are taken apart into their mask and their
values and put together again (`scatter_rows`).

What a mask selects from compressed values is a slice of them (`filterMap_selected`): the value
of a true entry stands behind those of the true entries before it.
-/

namespace Scatter

variable {α : Type}

/-- `rows[mask] = values`, with `none` at the rows that are not written. -/
def scatter : List Bool → List α → List (Option α)
  | [], _ => []
  | false :: mask, values => none :: scatter mask values
  | true :: mask, [] => none :: scatter mask []
  | true :: mask, v :: values => some v :: scatter mask values

theorem scatter_rows : ∀ rows : List (Option α),
    scatter (rows.map Option.isSome) (rows.filterMap id) = rows
  | [] => rfl
  | none :: rows => congrArg (List.cons none) (scatter_rows rows)
  | some v :: rows => congrArg (List.cons (some v)) (scatter_rows rows)

theorem count_rows : ∀ rows : List (Option α),
    (rows.map Option.isSome).count true = (rows.filterMap id).length
  | [] => rfl
  | none :: rows => by
    show (false :: rows.map Option.isSome).count true = (rows.filterMap id).length
    rw [List.count_cons_of_ne Bool.false_ne_true]
    exact count_rows rows
  | some v :: rows => by
    show (true :: rows.map Option.isSome).count true = (v :: rows.filterMap id).length
    rw [List.count_cons_self, List.length_cons, count_rows rows]

/-! ## Compressed values -/

/-- The number of true entries before an index. -/
def before (mask : List Bool) (i : Nat) : Nat := (mask.take i).count true

theorem before_succ_true {mask : List Bool} {i : Nat} (h : mask.getD i false = true) :
    before mask (i + 1) = before mask i + 1 := by
  have hlt : i < mask.length := by
    apply Nat.not_le.mp
    intro hle
    rw [List.getD_eq_default _ _ hle] at h
    cases h
  rw [List.getD_eq_getElem _ _ hlt] at h
  unfold before
  rw [List.take_succ_eq_append_getElem hlt, List.count_append, h]
  rfl

theorem before_succ_false {mask : List Bool} {i : Nat} (h : mask.getD i false = false) :
    before mask (i + 1) = before mask i := by
  unfold before
  rcases Nat.lt_or_ge i mask.length with hlt | hle
  · rw [List.getD_eq_getElem _ _ hlt] at h
    rw [List.take_succ_eq_append_getElem hlt, List.count_append, h]
    rfl
  · rw [List.take_of_length_le hle, List.take_of_length_le (Nat.le_succ_of_le hle)]

theorem before_mono (mask : List Bool) {i j : Nat} (h : i ≤ j) : before mask i ≤ before mask j := by
  induction h with
  | refl => exact Nat.le_refl _
  | @step j _ ih =>
    cases hj : mask.getD j false with
    | true => exact Nat.le_trans ih (by rw [before_succ_true hj]; exact Nat.le_succ _)
    | false => exact Nat.le_trans ih (Nat.le_of_eq (before_succ_false hj).symm)

theorem before_le_count (mask : List Bool) (i : Nat) : before mask i ≤ mask.count true :=
  (List.take_sublist i mask).count_le true

/-- A true entry has a value. -/
theorem before_lt_count {mask : List Bool} {i : Nat} (h : mask.getD i false = true) :
    before mask i < mask.count true := by
  have hle := before_le_count mask (i + 1)
  rw [before_succ_true h] at hle
  exact hle

/-- The value of an entry, if it is true. -/
def selected (mask : List Bool) (values : List α) (i : Nat) : Option α :=
  if mask.getD i false = true then values[before mask i]? else none

theorem selected_isSome {mask : List Bool} {values : List α}
    (h : values.length = mask.count true) (i : Nat) :
    (selected mask values i).isSome = mask.getD i false := by
  unfold selected
  cases hi : mask.getD i false with
  | false => rfl
  | true =>
    have hlt : before mask i < values.length := by
      rw [h]
      exact before_lt_count hi
    rw [if_pos rfl, List.getElem?_eq_getElem hlt]
    rfl

/-- The values of the entries of a range. -/
theorem filterMap_selected {mask : List Bool} {values : List α}
    (h : values.length = mask.count true) :
    ∀ (n s : Nat), (List.range' s n).filterMap (selected mask values) =
      (values.take (before mask (s + n))).drop (before mask s)
  | 0, s => by
    rw [Nat.add_zero, List.drop_of_length_le (List.length_take_le _ _)]
    rfl
  | n + 1, s => by
    have hstop : s + 1 + n = s + (n + 1) := by omega
    cases hs : mask.getD s false with
    | false =>
      have hnone : selected mask values s = none := by
        unfold selected
        rw [hs]
        rfl
      rw [List.range'_succ, List.filterMap_cons_none hnone, filterMap_selected h n (s + 1),
        before_succ_false hs, hstop]
    | true =>
      have hlt : before mask s < values.length := by
        rw [h]
        exact before_lt_count hs
      have hsome : selected mask values s = some values[before mask s] := by
        unfold selected
        rw [if_pos hs, List.getElem?_eq_getElem hlt]
      -- the value is in front of the end of the slice
      have hend : before mask s < before mask (s + (n + 1)) := by
        have hmono := before_mono mask (show s + 1 ≤ s + (n + 1) by omega)
        rw [before_succ_true hs] at hmono
        exact hmono
      have htake : before mask s < (values.take (before mask (s + (n + 1)))).length := by
        rw [List.length_take]
        exact Nat.lt_min.mpr ⟨hend, hlt⟩
      rw [List.range'_succ, List.filterMap_cons_some hsome, filterMap_selected h n (s + 1),
        before_succ_true hs, hstop, List.drop_eq_getElem_cons htake, List.getElem_take]

/-! ## Ranges -/

/-- Outside of a part of the range there is nothing. -/
theorem filterMap_range'_inside {f : Nat → Option α} {c n lo hi : Nat} (hc : c ≤ lo)
    (hlo : lo ≤ hi) (hhi : hi ≤ c + n) (hf : ∀ p,
      p < lo ∨ hi ≤ p → c ≤ p → p < c + n → f p = none) :
    (List.range' c n).filterMap f = (List.range' lo (hi - lo)).filterMap f := by
  have hsplit : List.range' c n =
      List.range' c (lo - c) ++ List.range' lo (hi - lo) ++ List.range' hi (c + n - hi) := by
    have h₁ : List.range' c (lo - c) ++ List.range' lo (hi - lo) = List.range' c (hi - c) := by
      have := @List.range'_append_1 c (lo - c) (hi - lo)
      rw [show c + (lo - c) = lo by omega, show lo - c + (hi - lo) = hi - c by omega] at this
      exact this
    rw [h₁]
    have := @List.range'_append_1 c (hi - c) (c + n - hi)
    rw [show c + (hi - c) = hi by omega, show hi - c + (c + n - hi) = n by omega] at this
    exact this.symm
  have hleft : (List.range' c (lo - c)).filterMap f = [] := by
    apply List.filterMap_eq_nil_iff.mpr
    intro p hp
    rw [List.mem_range'_1] at hp
    exact hf p (Or.inl (by omega)) (by omega) (by omega)
  have hright : (List.range' hi (c + n - hi)).filterMap f = [] := by
    apply List.filterMap_eq_nil_iff.mpr
    intro p hp
    rw [List.mem_range'_1] at hp
    exact hf p (Or.inr (by omega)) (by omega) (by omega)
  rw [hsplit, List.filterMap_append, List.filterMap_append, hleft, hright, List.nil_append,
    List.append_nil]

/-- Two kinds of rows, one in front of the other. -/
theorem filterMap_range'_or {f g : Nat → Option α} {o : Nat} (hf : ∀ p, o ≤ p → f p = none)
    (hg : ∀ p, p < o → g p = none) :
    ∀ (n c : Nat), (List.range' c n).filterMap (fun p => (f p).or (g p)) =
      (List.range' c n).filterMap f ++ (List.range' c n).filterMap g
  | 0, _ => rfl
  | n + 1, c => by
    have ih := filterMap_range'_or hf hg n (c + 1)
    rw [List.range'_succ]
    rcases Nat.lt_or_ge c o with hlt | hle
    · -- the first row is of the first kind, if of any
      have hgc : g c = none := hg c hlt
      cases hfc : f c with
      | none => simp only [List.filterMap_cons, hfc, hgc, Option.or_none, ih]
      | some v => simp only [List.filterMap_cons, hfc, hgc, Option.some_or, ih, List.cons_append]
    · have hnil : (List.range' (c + 1) n).filterMap f = [] := by
        apply List.filterMap_eq_nil_iff.mpr
        intro p hp
        rw [List.mem_range'_1] at hp
        exact hf p (by omega)
      have hfc : f c = none := hf c hle
      simp only [List.filterMap_cons, hfc, Option.none_or, ih, hnil, List.nil_append]

end Scatter
