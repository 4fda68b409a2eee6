import Mathlib.Algebra.Order.Group.Multiset
import VllmEngine.Lib.Segments

/-!
# Sorting indices in any order of ties

`np.argsort` without a kind sorts, and leaves equal keys in some order. What holds of every
such order, and what `np.argmax` and `np.argmin` find:

> `IsArgsort.take_available`: keys that are the indices themselves where a mask is set, and
> too large everywhere else, give the indices of the mask first, in order.
-/

namespace Numpy

variable {α κ : Type}

/-- What `np.argsort(keys)` promises: the indices, ordered by their keys. -/
structure IsArgsort [LE κ] (keys : List κ) (indices : List Nat) : Prop where
  perm : indices.Perm (arange keys.length)
  sorted : indices.Pairwise fun i j => ∀ x ∈ keys[i]?, ∀ y ∈ keys[j]?, x ≤ y

theorem IsArgsort.lt [LE κ] {keys : List κ} {indices : List Nat} (h : IsArgsort keys indices)
    {i : Nat} (hi : i ∈ indices) : i < keys.length :=
  List.mem_range.mp (h.perm.mem_iff.mp hi)

theorem IsArgsort.nodup [LE κ] {keys : List κ} {indices : List Nat} (h : IsArgsort keys indices) :
    indices.Nodup := h.perm.nodup_iff.mpr List.nodup_range

/-- The stable order is one of them. -/
theorem isArgsort_argsort [LinearOrder κ] [Inhabited κ] (keys : List κ) :
    IsArgsort keys (argsort keys) := by
  refine ⟨keySort_perm _ _, (keySort_pairwise _ _).imp fun {i j} hij x hx y hy => ?_⟩
  rw [List.getD_eq_getElem?_getD, List.getD_eq_getElem?_getD, hx, hy] at hij
  exact hij

/-- A list in which nothing with the property stands behind something without it. -/
theorem eq_filter_append {p : α → Bool} : ∀ {l : List α},
    l.Pairwise (fun x y => p y = true → p x = true) →
    l = l.filter p ++ l.filter (fun x => !p x) := by
  intro l
  induction l with
  | nil => exact fun _ => rfl
  | cons x xs ih =>
    intro h
    obtain ⟨hx, hxs⟩ := List.pairwise_cons.mp h
    cases hp : p x with
    | true =>
      rw [List.filter_cons_of_pos hp, List.filter_cons_of_neg (by rw [hp]; exact Bool.false_ne_true)]
      exact congrArg (x :: ·) (ih hxs)
    | false =>
      -- nothing behind it has the property
      have hnone : xs.filter p = [] := by
        rw [List.filter_eq_nil_iff]
        intro y hy hpy
        rw [hx y hy hpy] at hp
        cases hp
      have hall : xs.filter (fun y => !p y) = xs := by
        rw [List.filter_eq_self]
        intro y hy
        cases hpy : p y with
        | true =>
          rw [hx y hy hpy] at hp
          cases hp
        | false => rfl
      rw [List.filter_cons_of_neg (by rw [hp]; exact Bool.false_ne_true),
        List.filter_cons_of_pos (by rw [hp]; rfl), hnone, hall]
      rfl

/-- `np.where(mask, arange(n), large)`. -/
def maskedIndices (large : Nat) (mask : List Bool) : List Nat :=
  List.zipWith (fun m i => if m then i else large) mask (arange mask.length)

theorem getElem?_maskedIndices (large : Nat) {mask : List Bool} {i : Nat} (hi : i < mask.length) :
    (maskedIndices large mask)[i]? = some (if mask.getD i false then i else large) := by
  unfold maskedIndices arange
  rw [List.getElem?_zipWith, List.getElem?_range hi, List.getElem?_eq_getElem hi,
    List.getD_eq_getElem _ _ hi]

theorem count_true_eq {mask : List Bool} :
    mask.count true = ((arange mask.length).filter fun i => mask.getD i false).length := by
  have h : mask = (arange mask.length).map fun i => mask.getD i false := eq_map_arange mask false
  rw [← List.countP_eq_length_filter]
  conv_lhs => rw [h]
  rw [List.count, List.countP_map]
  refine List.countP_congr fun i _ => ?_
  show (mask.getD i false == true) = true ↔ _
  rw [beq_true]

/-- The indices that the mask leaves come first, in order. -/
theorem IsArgsort.take_available {large : Nat} {mask : List Bool} {indices : List Nat}
    (h : IsArgsort (maskedIndices large mask) indices) (hlarge : mask.length ≤ large) :
    indices.take (mask.count true) = (arange mask.length).filter fun i => mask.getD i false := by
  have hlen : (maskedIndices large mask).length = mask.length := by
    unfold maskedIndices arange
    rw [List.length_zipWith, List.length_range, Nat.min_self]
  have hperm := h.perm
  rw [hlen] at hperm
  have hkeys : indices.Pairwise fun i j =>
      (if mask.getD i false then i else large) ≤ (if mask.getD j false then j else large) := by
    refine h.sorted.imp_of_mem fun {i j} hi hj hij => ?_
    have hi' := hlen ▸ h.lt hi
    have hj' := hlen ▸ h.lt hj
    exact hij _ (getElem?_maskedIndices large hi') _ (getElem?_maskedIndices large hj')
  have hsplit := eq_filter_append (p := fun i => mask.getD i false)
    (hkeys.imp_of_mem fun {i j} hi hj hij => by
      intro hmj
      have hj' := hlen ▸ h.lt hj
      cases hmi : mask.getD i false with
      | true => rfl
      | false =>
        rw [hmi, hmj, if_neg Bool.false_ne_true, if_pos rfl] at hij
        omega)
  have havail : (indices.filter fun i => mask.getD i false)
      = (arange mask.length).filter fun i => mask.getD i false := by
    refine List.Perm.eq_of_pairwise (fun (a b : Nat) _ _ (h : a ≤ b) (h' : b ≤ a) =>
      Nat.le_antisymm h h') ?_ ?_ (hperm.filter _)
    · rw [List.pairwise_filter]
      refine hkeys.imp fun {i j} hij hi hj => ?_
      rw [if_pos hi, if_pos hj] at hij
      exact hij
    · exact (List.pairwise_lt_range.imp Nat.le_of_lt).filter _
  rw [hsplit, count_true_eq, ← havail, List.take_left]

/-! ## The first largest and the first smallest entry -/

section Extremes

variable [LinearOrder κ]

/-- `np.argmax(a)`. -/
def argmax (a : List κ) : Nat := a.findIdx fun x => a.all fun y => decide (y ≤ x)

/-- `np.argmin(a)`. -/
def argmin (a : List κ) : Nat := a.findIdx fun x => a.all fun y => decide (x ≤ y)

theorem exists_largest : ∀ {a : List κ}, a ≠ [] → ∃ x ∈ a, ∀ y ∈ a, y ≤ x := by
  intro a
  induction a with
  | nil => intro h; exact absurd rfl h
  | cons z zs ih =>
    intro _
    by_cases hzs : zs = []
    · subst hzs
      refine ⟨z, List.mem_cons_self, fun y hy => ?_⟩
      rw [List.mem_singleton.mp hy]
    · obtain ⟨x, hx, hmax⟩ := ih hzs
      rcases le_total x z with hle | hle
      · refine ⟨z, List.mem_cons_self, fun y hy => ?_⟩
        rcases List.mem_cons.mp hy with hyz | hyzs
        · rw [hyz]
        · exact (hmax y hyzs).trans hle
      · refine ⟨x, List.mem_cons_of_mem z hx, fun y hy => ?_⟩
        rcases List.mem_cons.mp hy with hyz | hyzs
        · rw [hyz]
          exact hle
        · exact hmax y hyzs

theorem argmax_spec {a : List κ} (h : a ≠ []) :
    ∃ x, a[argmax a]? = some x ∧ ∀ y ∈ a, y ≤ x := by
  obtain ⟨x, hx, hmax⟩ := exists_largest h
  have hlt : argmax a < a.length := by
    apply List.findIdx_lt_length_of_exists
    exact ⟨x, hx, List.all_eq_true.mpr fun y hy => decide_eq_true (hmax y hy)⟩
  refine ⟨_, List.getElem?_eq_getElem hlt, fun y hy => ?_⟩
  exact of_decide_eq_true (List.all_eq_true.mp (List.findIdx_getElem (w := hlt)) y hy)

theorem argmin_spec {a : List κ} (h : a ≠ []) :
    ∃ x, a[argmin a]? = some x ∧ ∀ y ∈ a, x ≤ y :=
  argmax_spec (κ := κᵒᵈ) h

theorem argmax_lt {a : List κ} (h : a ≠ []) : argmax a < a.length := by
  obtain ⟨x, hx, -⟩ := argmax_spec h
  exact (List.getElem?_eq_some_iff.mp hx).1

end Extremes

/-! ## Assignment at indices -/

theorem indexAssign_append {a : List α} {idx idx' : List Nat} {vals vals' : List α}
    (h : idx.length = vals.length) :
    indexAssign (indexAssign a idx vals) idx' vals' = indexAssign a (idx ++ idx') (vals ++ vals') := by
  unfold indexAssign
  rw [List.zip_append h, List.foldl_append]

@[simp] theorem length_indexAssign (a : List α) (idx : List Nat) (vals : List α) :
    (indexAssign a idx vals).length = a.length := by
  unfold indexAssign
  generalize idx.zip vals = entries
  induction entries generalizing a with
  | nil => rfl
  | cons e es ih => exact (ih (a.set e.1 e.2)).trans List.length_set

theorem getElem?_foldl_set_of_not_mem {i : Nat} : ∀ {entries : List (Nat × α)} {a : List α},
    i ∉ entries.map Prod.fst → (entries.foldl (fun a e => a.set e.1 e.2) a)[i]? = a[i]? := by
  intro entries
  induction entries with
  | nil => exact fun _ => rfl
  | cons e es ih =>
    intro a hi
    rw [List.map_cons, List.mem_cons, not_or] at hi
    rw [List.foldl_cons, ih hi.2, List.getElem?_set_ne (Ne.symm hi.1)]

theorem getElem?_foldl_set_of_mem {e : Nat × α} : ∀ {entries : List (Nat × α)} {a : List α},
    (entries.map Prod.fst).Nodup → e ∈ entries → e.1 < a.length →
    (entries.foldl (fun a e => a.set e.1 e.2) a)[e.1]? = some e.2 := by
  intro entries
  induction entries with
  | nil =>
    intro a _ he
    cases he
  | cons d ds ih =>
    intro a hnodup he hlt
    rw [List.map_cons, List.nodup_cons] at hnodup
    rw [List.foldl_cons]
    rcases List.mem_cons.mp he with hd | hds
    · subst hd
      rw [getElem?_foldl_set_of_not_mem hnodup.1, List.getElem?_set_self hlt]
    · exact ih hnodup.2 hds (by rw [List.length_set]; exact hlt)

end Numpy

/-!
## Permutations as index arrays

An index array that permutes the indices, its inverse, and numbers made of a block and a
place in it.

> `inverse_perm`, `getElem?_inverse`: the inverse array undoes the array,
> `perm_of_injOn`: below a bound, what does not meet is everything,
> `flatMap_blocks`, `block_lt`: blocks one after the other.
-/

namespace Numpy

variable {α : Type}

/-- `inv[perm] = np.arange(n)`. -/
def inverse (perm : List Nat) : List Nat :=
  indexAssign (List.replicate perm.length 0) perm (arange perm.length)

theorem length_inverse (perm : List Nat) : (inverse perm).length = perm.length := by
  unfold inverse
  rw [length_indexAssign, List.length_replicate]

theorem length_of_perm_arange {perm : List Nat} {n : Nat} (h : perm.Perm (arange n)) :
    perm.length = n := h.length_eq.trans List.length_range

theorem getElem?_inverse {perm : List Nat} {n : Nat} (h : perm.Perm (arange n)) {i x : Nat}
    (hi : perm[i]? = some x) : (inverse perm)[x]? = some i := by
  rw [← length_of_perm_arange h] at h
  obtain ⟨hlt, hget⟩ := List.getElem?_eq_some_iff.mp hi
  have hlen : perm.length = (arange perm.length).length := List.length_range.symm
  have hnodup : ((perm.zip (arange perm.length)).map Prod.fst).Nodup := by
    rw [List.map_fst_zip (Nat.le_of_eq hlen)]
    exact h.nodup_iff.mpr List.nodup_range
  have hmem : (x, i) ∈ perm.zip (arange perm.length) := by
    refine List.mem_of_getElem? (i := i) ?_
    unfold arange
    rw [List.getElem?_zip_eq_some]
    exact ⟨hi, List.getElem?_range hlt⟩
  unfold inverse indexAssign
  refine getElem?_foldl_set_of_mem (e := (x, i)) hnodup hmem ?_
  rw [List.length_replicate]
  exact List.mem_range.mp (h.mem_iff.mp (List.mem_of_getElem? hi))

/-- Distinct numbers below their count are all numbers below it. -/
theorem perm_of_injOn {n : Nat} {f : Nat → Nat} (hlt : ∀ i < n, f i < n)
    (hinj : ∀ i < n, ∀ j < n, f i = f j → i = j) : ((arange n).map f).Perm (arange n) := by
  have hnodup : ((arange n).map f).Nodup := by
    refine List.Nodup.map_on ?_ List.nodup_range
    intro i hi j hj hij
    exact hinj i (List.mem_range.mp hi) j (List.mem_range.mp hj) hij
  refine (List.subperm_of_subset hnodup ?_).perm_of_length_le ?_
  · intro x hx
    obtain ⟨i, hi, rfl⟩ := List.mem_map.mp hx
    exact List.mem_range.mpr (hlt i (List.mem_range.mp hi))
  · rw [List.length_map]

theorem inverse_perm {perm : List Nat} {n : Nat} (h : perm.Perm (arange n)) :
    (inverse perm).Perm (arange n) := by
  have hn := length_of_perm_arange h
  subst hn
  have hnodup : (inverse perm).Nodup := by
    rw [List.nodup_iff_injective_getElem]
    intro i j hij
    -- both are the place of something in the array
    have hfind : ∀ k : Fin (inverse perm).length, ∃ p : Nat, perm[p]? = some k.1 := by
      intro k
      have hk : k.1 ∈ perm := h.mem_iff.mpr (List.mem_range.mpr ((length_inverse perm) ▸ k.2))
      exact List.mem_iff_getElem?.mp hk
    obtain ⟨p, hp⟩ := hfind i
    obtain ⟨q, hq⟩ := hfind j
    have hip := getElem?_inverse h hp
    have hjq := getElem?_inverse h hq
    rw [List.getElem?_eq_getElem i.2] at hip
    rw [List.getElem?_eq_getElem j.2] at hjq
    have hpq : p = q := (Option.some.inj hip).symm.trans (hij.trans (Option.some.inj hjq))
    rw [hpq] at hp
    exact Fin.ext (Option.some.inj (hp.symm.trans hq))
  have hsub : ∀ x ∈ inverse perm, x ∈ arange perm.length := by
    intro x hx
    obtain ⟨k, hk⟩ := List.mem_iff_getElem?.mp hx
    obtain ⟨hlt, -⟩ := List.getElem?_eq_some_iff.mp hk
    have hkmem : k ∈ perm := h.mem_iff.mpr (List.mem_range.mpr ((length_inverse perm) ▸ hlt))
    obtain ⟨p, hp⟩ := List.mem_iff_getElem?.mp hkmem
    have hxp := (getElem?_inverse h hp).symm.trans hk
    rw [← Option.some.inj hxp]
    exact List.mem_range.mpr (List.getElem?_eq_some_iff.mp hp).1
  refine (List.subperm_of_subset hnodup hsub).perm_of_length_le ?_
  rw [length_inverse, arange, List.length_range]

theorem getElem?_inverse_iff {perm : List Nat} {n : Nat} (h : perm.Perm (arange n)) {x i : Nat} :
    (inverse perm)[x]? = some i ↔ perm[i]? = some x := by
  constructor
  · intro hx
    obtain ⟨hlt, -⟩ := List.getElem?_eq_some_iff.mp hx
    rw [length_inverse, length_of_perm_arange h] at hlt
    obtain ⟨p, hp⟩ := List.mem_iff_getElem?.mp (h.mem_iff.mpr (List.mem_range.mpr hlt))
    rw [getElem?_inverse h hp] at hx
    rw [← Option.some.inj hx]
    exact hp
  · exact getElem?_inverse h

/-! ## Blocks -/

theorem block_lt {n k i r : Nat} (hi : i < n) (hr : r < k) : i * k + r < n * k := by
  have hmul : (i + 1) * k ≤ n * k := Nat.mul_le_mul_right k hi
  rw [Nat.succ_mul] at hmul
  omega

theorem block_div {k i r : Nat} (hr : r < k) : (i * k + r) / k = i := by
  rw [Nat.mul_comm, Nat.mul_add_div (by omega), Nat.div_eq_of_lt hr, Nat.add_zero]

theorem block_mod {k i r : Nat} (hr : r < k) : (i * k + r) % k = r := by
  rw [Nat.mul_comm, Nat.mul_add_mod, Nat.mod_eq_of_lt hr]

theorem block_eq (k x : Nat) : x / k * k + x % k = x := by
  rw [Nat.mul_comm]
  exact Nat.div_add_mod x k

/-- Blocks of one size, laid one after the other. -/
theorem flatMap_blocks (f : Nat → Nat → α) (k : Nat) : ∀ n : Nat,
    (arange n).flatMap (fun i => (arange k).map (f i))
      = (arange (n * k)).map fun x => f (x / k) (x % k) := by
  intro n
  induction n with
  | zero => rw [Nat.zero_mul]; rfl
  | succ n ih =>
    unfold arange at ih ⊢
    rw [List.range_succ, List.flatMap_append, ih, Nat.succ_mul, List.range_add, List.map_append,
      List.map_map, List.flatMap_singleton]
    refine congrArg _ (List.map_congr_left fun r hr => ?_)
    have hr' : r < k := List.mem_range.mp hr
    show f n r = f ((n * k + r) / k) ((n * k + r) % k)
    rw [block_div hr', block_mod hr']

end Numpy

/-!
## Positions of two arrays with the same entry

A pairing is a list of pairs of a position of `old` and a position of `new` with the same
entry. It is greedy when every position of `old` that is left out finds its entry used up in
`new`. In no order of the entries of `new` do more positions agree with `old` than a greedy
pairing has pairs (`Greedy.agreeing_le`).
-/

namespace Pairing

open Numpy

variable {α : Type} [DecidableEq α]

/-- The number of positions at which two arrays have the same entry. -/
def agreeing (x y : List α) : Nat := (x.zip y).countP fun e => decide (e.1 = e.2)

/-- The pairs use no position twice, and pair positions with the same entry. -/
structure Paired (old new : List α) (pairs : List (Nat × Nat)) : Prop where
  nodup_old : (pairs.map Prod.fst).Nodup
  nodup_new : (pairs.map Prod.snd).Nodup
  agree : ∀ e ∈ pairs, ∃ x, old[e.1]? = some x ∧ new[e.2]? = some x

/-- An entry of `old` before `bound` is left out only when `new` has no more of it. -/
structure Greedy (old new : List α) (bound : Nat) (pairs : List (Nat × Nat)) : Prop
    extends Paired old new pairs where
  used_up : ∀ i < bound, i ∉ pairs.map Prod.fst → ∀ x, old[i]? = some x →
    ∀ j, new[j]? = some x → j ∈ pairs.map Prod.snd

variable {old new x y : List α} {pairs : List (Nat × Nat)} {bound : Nat}

/-- Every index of an entry is in the list. -/
theorem count_le_of_indices {l : List α} {v : α} {indices : List Nat}
    (h : ∀ i, l[i]? = some v → i ∈ indices) :
    l.count v ≤ indices.countP fun i => decide (l[i]? = some v) := by
  have hcount : l.count v = ((arange l.length).filter fun i => decide (l[i]? = some v)).length := by
    rw [← List.countP_eq_length_filter]
    have hself : l.map some = (arange l.length).map fun i => l[i]? := by
      apply List.ext_getElem?
      intro i
      unfold arange
      by_cases hi : i < l.length
      · rw [List.getElem?_map, List.getElem?_map, List.getElem?_range hi,
          List.getElem?_eq_getElem hi]
        exact congrArg some (List.getElem?_eq_getElem hi).symm
      · rw [List.getElem?_map, List.getElem?_map, List.getElem?_eq_none (by omega),
          List.getElem?_eq_none (by rw [List.length_range]; omega)]
        rfl
    have hmap := List.count_map_of_injective l some (Option.some_injective α) v
    rw [← hmap, hself, List.count, List.countP_map]
    refine List.countP_congr fun i _ => ?_
    show (l[i]? == some v) = true ↔ _
    rw [beq_iff_eq, decide_eq_true_iff]
  rw [hcount, List.countP_eq_length_filter]
  refine (List.subperm_of_subset (List.nodup_range.filter _) fun i hi => ?_).length_le
  rw [List.mem_filter] at hi ⊢
  exact ⟨h i (of_decide_eq_true hi.2), hi.2⟩

/-- The entries that are paired. -/
def entries (old : List α) (pairs : List (Nat × Nat)) : List α :=
  pairs.filterMap fun e => old[e.1]?

omit [DecidableEq α] in
theorem Paired.length_entries (h : Paired old new pairs) :
    (entries old pairs).length = pairs.length := by
  unfold entries
  rw [List.length_filterMap_eq_countP, List.countP_eq_length]
  intro e he
  obtain ⟨v, hv, -⟩ := h.agree e he
  rw [hv]
  rfl

theorem Paired.count_entries (h : Paired old new pairs) (v : α) :
    (entries old pairs).count v = (pairs.map Prod.fst).countP (fun i => decide (old[i]? = some v)) ∧
      (entries old pairs).count v
        = (pairs.map Prod.snd).countP (fun j => decide (new[j]? = some v)) := by
  unfold entries
  rw [List.count_filterMap, List.countP_map, List.countP_map]
  constructor
  · refine List.countP_congr fun e _ => ?_
    show (old[e.1]? == some v) = true ↔ decide (old[e.1]? = some v) = true
    rw [beq_iff_eq, decide_eq_true_iff]
  · refine List.countP_congr fun e he => ?_
    obtain ⟨x, hold, hnew⟩ := h.agree e he
    show (old[e.1]? == some v) = true ↔ decide (new[e.2]? = some v) = true
    rw [beq_iff_eq, decide_eq_true_iff, hold, hnew]

/-- Of each entry the pairing takes all that one of the arrays has. -/
theorem Greedy.count_entries (h : Greedy old new old.length pairs) (v : α) :
    min (old.count v) (new.count v) ≤ (entries old pairs).count v := by
  obtain ⟨hold, hnew⟩ := h.toPaired.count_entries v
  by_cases hall : ∀ i, old[i]? = some v → i ∈ pairs.map Prod.fst
  · rw [hold]
    exact (Nat.min_le_left _ _).trans (count_le_of_indices hall)
  · push Not at hall
    obtain ⟨i, hi, hout⟩ := hall
    obtain ⟨hlt, -⟩ := List.getElem?_eq_some_iff.mp hi
    rw [hnew]
    exact (Nat.min_le_right _ _).trans (count_le_of_indices (h.used_up i hlt hout v hi))

omit [DecidableEq α] in
theorem map_fst_zip_sublist : ∀ (x y : List α), ((x.zip y).map Prod.fst).Sublist x
  | [], _ => List.Sublist.slnil
  | _ :: _, [] => List.nil_sublist _
  | a :: xs, _ :: ys => (map_fst_zip_sublist xs ys).cons_cons a

omit [DecidableEq α] in
theorem map_snd_zip_sublist : ∀ (x y : List α), ((x.zip y).map Prod.snd).Sublist y
  | [], _ => List.nil_sublist _
  | _ :: _, [] => List.Sublist.slnil
  | _ :: xs, b :: ys => (map_snd_zip_sublist xs ys).cons_cons b

/-- The entries at which two arrays agree are entries of both. -/
theorem count_agreeing (x y : List α) (v : α) :
    (((x.zip y).filter fun e => decide (e.1 = e.2)).map Prod.fst).count v ≤
      min (x.count v) (y.count v) := by
  have hsame : ((x.zip y).filter fun e => decide (e.1 = e.2)).map Prod.fst
      = ((x.zip y).filter fun e => decide (e.1 = e.2)).map Prod.snd := by
    refine List.map_congr_left fun e he => ?_
    exact of_decide_eq_true (List.mem_filter.mp he).2
  have hx : (((x.zip y).filter fun e => decide (e.1 = e.2)).map Prod.fst).Sublist x := by
    exact (List.filter_sublist.map _).trans (map_fst_zip_sublist x y)
  have hy : (((x.zip y).filter fun e => decide (e.1 = e.2)).map Prod.fst).Sublist y := by
    rw [hsame]
    exact (List.filter_sublist.map _).trans (map_snd_zip_sublist x y)
  exact Nat.le_min.mpr ⟨hx.count_le v, hy.count_le v⟩

/-- No order of `new` agrees with `old` at more positions than are paired. -/
theorem Greedy.agreeing_le (h : Greedy old new old.length pairs) (hx : x.Perm new) :
    agreeing x old ≤ pairs.length := by
  have hsub : (((x.zip old).filter fun e => decide (e.1 = e.2)).map Prod.fst : Multiset α) ≤
      (entries old pairs : Multiset α) := by
    rw [Multiset.le_iff_count]
    intro v
    rw [Multiset.coe_count, Multiset.coe_count]
    refine (count_agreeing x old v).trans ?_
    rw [hx.count_eq, Nat.min_comm]
    exact h.count_entries v
  have hcard := Multiset.card_le_card hsub
  rw [Multiset.coe_card, Multiset.coe_card, List.length_map, h.toPaired.length_entries] at hcard
  unfold agreeing
  rw [List.countP_eq_length_filter]
  exact hcard

theorem agreeing_eq : ∀ (x y : List α), agreeing x y
    = (arange (min x.length y.length)).countP fun i => decide (x[i]? = y[i]?) := by
  intro x
  unfold agreeing arange
  induction x with
  | nil => intro y; rw [List.length_nil, Nat.zero_min]; rfl
  | cons a xs ih =>
    intro y
    cases y with
    | nil => rfl
    | cons b ys =>
      rw [List.zip_cons_cons, List.countP_cons, ih ys, List.length_cons, List.length_cons,
        Nat.succ_min_succ, List.range_succ_eq_map, List.countP_cons, List.countP_map]
      show _ + (if decide (a = b) = true then 1 else 0)
        = _ + (if decide (some a = some b) = true then 1 else 0)
      have hfirst : decide (some a = some b) = decide (a = b) := decide_eq_decide.mpr Option.some_inj
      rw [hfirst]
      rfl

/-- Positions that agree, each counted once. -/
theorem le_agreeing {indices : List Nat} (hnodup : indices.Nodup)
    (h : ∀ i ∈ indices, ∃ v, x[i]? = some v ∧ y[i]? = some v) :
    indices.length ≤ agreeing x y := by
  rw [agreeing_eq, List.countP_eq_length_filter]
  refine (List.subperm_of_subset hnodup fun i hi => ?_).length_le
  obtain ⟨v, hx, hy⟩ := h i hi
  obtain ⟨hxlt, -⟩ := List.getElem?_eq_some_iff.mp hx
  obtain ⟨hylt, -⟩ := List.getElem?_eq_some_iff.mp hy
  rw [List.mem_filter]
  exact ⟨List.mem_range.mpr (Nat.lt_min.mpr ⟨hxlt, hylt⟩),
    decide_eq_true (hx.trans hy.symm)⟩

end Pairing
