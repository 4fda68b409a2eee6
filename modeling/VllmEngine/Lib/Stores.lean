import Mathlib.Data.List.Perm.Basic

/-!
# Stores of a kernel launch

A launch performs the stores of all its programs in some order that the device
chooses; what it loads comes from other arrays. A memory is a function of the
address, so a store outside an array is a store like any other, and where the
stores go can be asked.

What a launch leaves at an address depends on the order only if two stores there
differ:

> `perform_of_untouched`: no store, no change,
> `perform_of_agree`: the value that all stores to the address have.

A matrix lies in memory row by row (`cell`), and `tiles` are the offsets of a
masked loop over tiles.
-/

namespace Stores

variable {α : Type}

/-- A store of one value. -/
structure Store (α : Type) where
  address : Nat
  value : α
deriving DecidableEq

/-- The order in which the device performs the stores of a launch. -/
structure Order (α : Type) where
  perm : List (Store α) → List (Store α)
  perm_perm : ∀ stores, (perm stores).Perm stores

/-- The stores as the programs are numbered. -/
def Order.inOrder : Order α := ⟨id, fun _ => List.Perm.refl _⟩

/-- The stores one after the other. -/
def performList (mem : Nat → α) (stores : List (Store α)) : Nat → α :=
  stores.foldl (fun mem s => Function.update mem s.address s.value) mem

def perform (order : Order α) (mem : Nat → α) (stores : List (Store α)) : Nat → α :=
  performList mem (order.perm stores)

theorem performList_of_untouched {a : Nat} : ∀ {stores : List (Store α)} {mem : Nat → α},
    (∀ s ∈ stores, s.address ≠ a) → performList mem stores a = mem a
  | [], _, _ => rfl
  | s :: stores, mem, h => by
    show performList (Function.update mem s.address s.value) stores a = mem a
    rw [performList_of_untouched fun t ht => h t (List.mem_cons_of_mem s ht)]
    exact Function.update_of_ne (h s List.mem_cons_self).symm _ _

theorem performList_of_agree {a : Nat} {v : α} : ∀ {stores : List (Store α)} {mem : Nat → α},
    (mem a = v ∨ ∃ s ∈ stores, s.address = a) → (∀ s ∈ stores, s.address = a → s.value = v) →
    performList mem stores a = v
  | [], mem, hsome, _ => by
    rcases hsome with h | ⟨s, hs, -⟩
    · exact h
    · cases hs
  | s :: stores, mem, hsome, hall => by
    show performList (Function.update mem s.address s.value) stores a = v
    apply performList_of_agree
    · by_cases hs : s.address = a
      · left
        rw [← hs, Function.update_self]
        exact hall s List.mem_cons_self hs
      · rw [Function.update_of_ne (Ne.symm hs)]
        rcases hsome with h | ⟨t, ht, hta⟩
        · exact Or.inl h
        · rcases List.mem_cons.mp ht with rfl | ht
          · exact absurd hta hs
          · exact Or.inr ⟨t, ht, hta⟩
    · exact fun t ht => hall t (List.mem_cons_of_mem s ht)

variable {order : Order α} {mem : Nat → α} {stores : List (Store α)} {a : Nat}

theorem perform_of_untouched (h : ∀ s ∈ stores, s.address ≠ a) :
    perform order mem stores a = mem a :=
  performList_of_untouched fun s hs => h s ((order.perm_perm stores).mem_iff.mp hs)

theorem perform_of_agree {v : α} (hsome : ∃ s ∈ stores, s.address = a)
    (hall : ∀ s ∈ stores, s.address = a → s.value = v) : perform order mem stores a = v := by
  obtain ⟨s, hs, ha⟩ := hsome
  apply performList_of_agree
  · exact Or.inr ⟨s, (order.perm_perm stores).mem_iff.mpr hs, ha⟩
  · exact fun t ht => hall t ((order.perm_perm stores).mem_iff.mp ht)

/-! ## Rows -/

/-- Where a matrix of the given width has column `col` of row `row`. -/
def cell (width row col : Nat) : Nat := row * width + col

theorem cell_lt {width row col rows : Nat} (hrow : row < rows) (hcol : col < width) :
    cell width row col < rows * width := by
  have h : (row + 1) * width ≤ rows * width := Nat.mul_le_mul_right width hrow
  rw [Nat.add_mul, Nat.one_mul] at h
  unfold cell
  omega

theorem cell_inj {width row col row' col' : Nat} (hcol : col < width) (hcol' : col' < width)
    (h : cell width row col = cell width row' col') : row = row' ∧ col = col' := by
  unfold cell at h
  rcases Nat.lt_trichotomy row row' with hlt | heq | hlt
  · have hle : (row + 1) * width ≤ row' * width := Nat.mul_le_mul_right width hlt
    rw [Nat.add_mul, Nat.one_mul] at hle
    omega
  · subst heq
    exact ⟨rfl, by omega⟩
  · have hle : (row' + 1) * width ≤ row * width := Nat.mul_le_mul_right width hlt
    rw [Nat.add_mul, Nat.one_mul] at hle
    omega

/-- A later row lies behind. -/
theorem cell_lt_of_row_lt {width row col row' : Nat} (hrow : row < row') (hcol : col < width)
    (col' : Nat) : cell width row col < cell width row' col' := by
  have hle : (row + 1) * width ≤ row' * width := Nat.mul_le_mul_right width hrow
  rw [Nat.add_mul, Nat.one_mul] at hle
  unfold cell
  omega

/-! ## Programs on their own rows -/

/-- A launch whose programs load and store in their own row only: what it leaves in a
row does not depend on the order. -/
theorem view_launch {σ β : Type} {program : σ → Nat → σ} {view : Nat → σ → β}
    {step : Nat → β → β} (hself : ∀ s r, view r (program s r) = step r (view r s))
    (hother : ∀ s r r', r ≠ r' → view r' (program s r) = view r' s) {r : Nat} :
    ∀ {order : List Nat} {s : σ}, order.Nodup →
      view r (order.foldl program s) = if r ∈ order then step r (view r s) else view r s
  | [], s, _ => by rw [if_neg List.not_mem_nil]; rfl
  | r' :: order, s, hnd => by
    obtain ⟨hr', hnd⟩ := List.nodup_cons.mp hnd
    show view r (order.foldl program (program s r')) = _
    rw [view_launch hself hother hnd]
    by_cases h : r' = r
    · subst h
      rw [if_neg hr', hself, if_pos List.mem_cons_self]
    · -- the program is not the row's own
      have hmem : r ∈ r' :: order ↔ r ∈ order :=
        ⟨fun hm => (List.mem_cons.mp hm).resolve_left (Ne.symm h), List.mem_cons_of_mem r'⟩
      rw [hother s r' r h]
      simp only [hmem]

/-! ## Segments -/

section Segments

variable {start len : Nat → Nat} {n : Nat}

theorem segment_le (h : ∀ r < n, start r + len r ≤ start (r + 1)) {r : Nat} :
    ∀ {r' : Nat}, r < r' → r' ≤ n → start r + len r ≤ start r'
  | r' + 1, hr, hn => by
    rcases Nat.lt_succ_iff_lt_or_eq.mp hr with hlt | rfl
    · have := segment_le h hlt (Nat.le_of_lt hn)
      have := h r' hn
      omega
    · exact h r hn

/-- Segments one behind the other do not overlap. -/
theorem segment_inj (h : ∀ r < n, start r + len r ≤ start (r + 1)) {r r' j j' : Nat}
    (hr : r < n) (hr' : r' < n) (hj : j < len r) (hj' : j' < len r')
    (heq : start r + j = start r' + j') : r = r' ∧ j = j' := by
  rcases Nat.lt_trichotomy r r' with hlt | rfl | hlt
  · have := segment_le h hlt (Nat.le_of_lt hr')
    omega
  · exact ⟨rfl, by omega⟩
  · have := segment_le h hlt (Nat.le_of_lt hr)
    omega

end Segments

/-! ## Tiles -/

/-- `for i in range(0, n, tile)` with the lanes `i + arange(tile)` below `n`. -/
def tiles (tile n : Nat) : List Nat :=
  (List.range' 0 ((n + (tile - 1)) / tile) tile).flatMap fun i =>
    (List.range' i tile).filter fun off => decide (off < n)

theorem mem_tiles {tile : Nat} (htile : 0 < tile) {n off : Nat} : off ∈ tiles tile n ↔ off < n := by
  unfold tiles
  rw [List.mem_flatMap]
  constructor
  · rintro ⟨i, -, hoff⟩
    exact of_decide_eq_true (List.mem_filter.mp hoff).2
  · intro hoff
    -- the lane of `off` in its tile
    have hmod : off % tile < tile := Nat.mod_lt off htile
    have hdiv := Nat.div_add_mod off tile
    refine ⟨tile * (off / tile), ?_, ?_⟩
    · rw [List.mem_range']
      refine ⟨off / tile, ?_, by rw [Nat.zero_add]⟩
      apply (Nat.lt_div_iff_mul_lt htile).mpr
      rw [Nat.mul_comm]
      omega
    · rw [List.mem_filter, List.mem_range'_1]
      exact ⟨by omega, decide_eq_true hoff⟩

end Stores
