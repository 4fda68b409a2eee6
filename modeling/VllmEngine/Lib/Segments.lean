import VllmEngine.Lib.Numpy
import VllmEngine.Lib.Ragged

/-!
# Flat arrays over the parts of things

Every `x` of a list has `n x` parts. The flat arrays that hold one entry for every part are maps of
one list, `parts n xs`; each lemma says which map an array operation gives.

> `repeatEach_parts`, `arange_parts`: values of the things and places in them,
> `maskAssign_first`, `indexAssign_last`: other values for the first or the last part,
> `reshapeRows_flatMap`: one row a part,
> `exists_mem_segment`: every entry is in one of them.
-/

namespace Numpy

variable {α β γ ι : Type}

/-- `a[mask] = vals`. -/
def maskAssign : List α → List Bool → List α → List α
  | _ :: a, true :: mask, v :: vals => v :: maskAssign a mask vals
  | x :: a, false :: mask, vals => x :: maskAssign a mask vals
  | a, _, _ => a

/-- `a[idx] = vals`. -/
def indexAssign (a : List α) (idx : List Nat) (vals : List α) : List α :=
  (idx.zip vals).foldl (fun a e => a.set e.1 e.2) a

/-- `a.reshape(rows, -1)`. -/
def reshapeRows (rows : Nat) (a : List α) : List (List α) :=
  (List.range rows).map fun i => (a.drop (i * (a.length / rows))).take (a.length / rows)

/-- The parts of the things, each with its place. -/
def parts (n : ι → Nat) (xs : List ι) : List (ι × Nat) :=
    xs.flatMap fun x => (List.range (n x)).map (Prod.mk x)

theorem parts_cons (n : ι → Nat) (x : ι) (xs : List ι) :
    parts n (x :: xs) = (List.range (n x)).map (Prod.mk x) ++ parts n xs := List.flatMap_cons

variable {n : ι → Nat} {xs : List ι}

theorem mem_parts {t : ι × Nat} : t ∈ parts n xs ↔ t.1 ∈ xs ∧
    t.2 < n t.1 := by
  unfold parts
  rw [List.mem_flatMap]
  constructor
  · rintro ⟨x, hx, ht⟩
    obtain ⟨j, hj, rfl⟩ := List.mem_map.mp ht
    exact ⟨hx, List.mem_range.mp hj⟩
  · rintro ⟨hx, hj⟩
    exact ⟨t.1, hx, List.mem_map.mpr ⟨t.2, List.mem_range.mpr hj, rfl⟩⟩

theorem length_parts (n : ι → Nat) (xs : List ι) : (parts n xs).length = (xs.map n).sum := by
  unfold parts
  rw [List.length_flatMap]
  simp

theorem zipWith_maps (op : α → β → γ) (f : ι → α) (g : ι → β) (l : List ι) :
    (l.map f).zipWith op (l.map g) = l.map fun x => op (f x) (g x) := by
  rw [List.zipWith_map, List.zipWith_self]

/-- Going through a list by its places. -/
theorem flatMap_range {f : Nat → List α} {g : ι → List α} (h : ∀ i x, xs[i]? = some x → f i = g x) :
    (List.range xs.length).flatMap f = xs.flatMap g := by
  have hplaces : List.range xs.length = xs.zipIdx.map Prod.snd := by
    rw [List.zipIdx_map_snd, List.range_eq_range']
  have hvalues : xs.flatMap g = (xs.zipIdx.map Prod.fst).flatMap g := by
    rw [List.zipIdx_map_fst]
  rw [hplaces, hvalues, List.flatMap_map, List.flatMap_map]
  exact List.flatMap_congr fun e he => h e.2 e.1 (List.mem_zipIdx_iff_getElem?.mp he)

/-- A value of each thing, repeated for its parts. -/
theorem repeatEach_parts (f : ι → α) (n : ι → Nat) (xs : List ι) :
    repeatEach (xs.map f) (xs.map n) = (parts n xs).map fun t => f t.1 := by
  have hone : ∀ x, List.replicate (n x) (f x) = ((List.range (n x)).map
    (Prod.mk x)).map fun t => f t.1 := by
    intro x
    rw [List.map_map]
    show _ = (List.range (n x)).map fun _ => f x
    rw [List.map_const', List.length_range]
  unfold repeatEach
  induction xs with
  | nil => rfl
  | cons x xs ih =>
    rw [List.map_cons, List.map_cons, List.zip_cons_cons, List.flatMap_cons, ih, parts_cons,
      List.map_append,
      ← hone]

/-- The same, where each part has `k` entries. -/
theorem repeatEach_mul_parts (f : ι → α) (n : ι → Nat) (k : Nat) (xs : List ι) :
    repeatEach (xs.map f) ((xs.map n).map (· * k)) =
      (parts n xs).flatMap fun t => List.replicate k (f t.1) := by
  have hone : ∀ x, List.replicate (n x * k) (f x)
      = ((List.range (n x)).map (Prod.mk x)).flatMap fun t => List.replicate k (f t.1) := by
    intro x
    rw [List.flatMap_map]
    generalize n x = count
    induction count with
    | zero =>
      rw [Nat.zero_mul]
      rfl
    | succ count ih =>
      rw [Nat.succ_mul, ← List.replicate_append_replicate, ih, List.range_succ, List.flatMap_append,
        List.flatMap_singleton]
  unfold repeatEach
  induction xs with
  | nil => rfl
  | cons x xs ih =>
    rw [List.map_cons, List.map_cons, List.map_cons, List.zip_cons_cons, List.flatMap_cons, ih,
      parts_cons,
      List.flatMap_append, ← hone]

theorem zip_flatMap {f : ι → List α} {g : ι → List β} : ∀ {xs : List ι},
    (∀ x ∈ xs, (f x).length = (g x).length) →
    (xs.flatMap f).zip (xs.flatMap g) = xs.flatMap fun x => (f x).zip (g x) := by
  intro xs
  induction xs with
  | nil => exact fun _ => rfl
  | cons x xs ih =>
    intro h
    rw [List.flatMap_cons, List.flatMap_cons, List.flatMap_cons,
      List.zip_append (h x List.mem_cons_self),
      ih fun y hy => h y (List.mem_cons_of_mem x hy)]

/-- Counting on through all parts, less the number of the thing's first part, is the place in the
thing. -/
theorem arangeFrom_parts (n : ι → Nat) : ∀ (xs : List ι) (start : Nat),
    (List.range' start (xs.map n).sum).zipWith (· - ·)
        (repeatEach ((cumsumFrom start (xs.map n)).zipWith (· - ·) (xs.map n)) (xs.map n))
      = (parts n xs).map Prod.snd := by
  intro xs
  induction xs with
  | nil => exact fun _ => rfl
  | cons x xs ih =>
    intro start
    have hlen : (List.range' start (n x)).length = (List.replicate (n x) start).length := by
      rw [List.length_range', List.length_replicate]
    have hfirst : (List.range' start (n x)).zipWith (· - ·) (List.replicate (n x) start)
        = ((List.range (n x)).map (Prod.mk x)).map Prod.snd := by
      have hplaces : ((List.range (n x)).map (Prod.mk x)).map Prod.snd = List.range (n x) := by
        rw [List.map_map]
        exact List.map_id _
      have hstart : List.replicate (n x) start = (List.range (n x)).map fun _ => start := by
        rw [List.map_const', List.length_range]
      rw [hplaces, hstart, List.range'_eq_map_range, zipWith_maps]
      simp only [Nat.add_sub_cancel_left]
      exact List.map_id _
    have hstarts : repeatEach ((cumsumFrom start ((x :: xs).map n)).zipWith (· - ·)
      ((x :: xs).map n))
        ((x :: xs).map n) = List.replicate (n x) start
          ++ repeatEach ((cumsumFrom (start + n x) (xs.map n)).zipWith (· - ·) (xs.map n))
            (xs.map n) := by
      show List.replicate (n x) (start + n x - n x) ++ _ = _
      rw [Nat.add_sub_cancel]
      rfl
    rw [hstarts, List.map_cons, List.sum_cons, ← List.range'_append_1, List.zipWith_append hlen,
      hfirst,
      ih (start + n x), parts_cons, List.map_append]

/-- `np.arange(total) - np.repeat(ends - counts, counts)`. -/
theorem arange_parts (n : ι → Nat) (xs : List ι) :
    (arange (xs.map n).sum).zipWith (· - ·)
        (repeatEach ((cumsum (xs.map n)).zipWith (· - ·) (xs.map n)) (xs.map n))
      = (parts n xs).map Prod.snd := by
  unfold arange
  rw [List.range_eq_range']
  exact arangeFrom_parts n xs 0

/-- `a[mask] = b[mask]`. -/
theorem maskAssign_map (p : ι → Bool) (f g : ι → α) (l : List ι) :
    maskAssign (l.map f) (l.map p) (compress (l.map p)
      (l.map g)) = l.map fun x => if p x then g x else f x := by
  induction l with
  | nil => rfl
  | cons x l ih =>
    rw [compress_map, List.map_cons, List.map_cons, List.map_cons, List.filter_cons]
    rw [compress_map] at ih
    cases hp : p x with
    | true =>
      show g x :: maskAssign (l.map f) (l.map p) ((l.filter p).map g) = _
      rw [ih, if_pos rfl]
    | false =>
      show f x :: maskAssign (l.map f) (l.map p) ((l.filter p).map g) = _
      rw [ih, if_neg Bool.false_ne_true]

/-- The first parts, one of each thing. -/
theorem filter_parts_first (h : ∀ x ∈ xs, 0 < n x) :
    (parts n xs).filter (fun t => t.2 == 0) = xs.map fun x => (x, 0) := by
  induction xs with
  | nil => rfl
  | cons x xs ih =>
    obtain ⟨k, hk⟩ : ∃ k, n x = k + 1 := ⟨n x - 1, by have := h x List.mem_cons_self; omega⟩
    have hrest : ((List.range k).map fun j => (x, j + 1)).filter (fun t => t.2 == 0) = [] := by
      rw [List.filter_eq_nil_iff]
      intro t ht
      obtain ⟨j, -, rfl⟩ := List.mem_map.mp ht
      exact Bool.false_ne_true
    rw [parts_cons, List.filter_append, ih fun y hy => h y (List.mem_cons_of_mem x hy), hk,
      List.range_succ_eq_map, List.map_cons, List.map_map, List.filter_cons]
    show (x, 0) :: ((List.range k).map fun j => (x, j + 1)).filter (fun t => t.2 == 0) ++ _ = _
    rw [hrest]
    rfl

/-- Assigning a value of each thing to its first part. -/
theorem maskAssign_first (h : ∀ x ∈ xs, 0 < n x) (f : ι × Nat → α) (v : ι → α) :
    maskAssign ((parts n xs).map f) ((parts n xs).map fun t => t.2 == 0) (xs.map v)
      = (parts n xs).map fun t => if t.2 == 0 then v t.1 else f t := by
  have hvals : xs.map v = compress ((parts n xs).map fun t => t.2 == 0)
    ((parts n xs).map fun t => v t.1) := by
    rw [compress_map, filter_parts_first h, List.map_map]
    rfl
  rw [hvals, maskAssign_map]

theorem indexAssignFrom_last (v : ι → α) (c : α) : ∀ {xs : List ι} (pre : List α),
    (∀ x ∈ xs, 0 < n x) →
    indexAssign (pre ++ List.replicate (xs.map n).sum c) ((cumsumFrom pre.length (xs.map n)).map
      (· - 1)) (xs.map v)
      = pre ++ (parts n xs).map fun t => if t.2 + 1 = n t.1 then v t.1 else c := by
  intro xs
  induction xs with
  | nil =>
    intro pre _
    rfl
  | cons x xs ih =>
    intro pre h
    obtain ⟨k, hk⟩ : ∃ k, n x = k + 1 := ⟨n x - 1, by have := h x List.mem_cons_self; omega⟩
    have hone : ((List.range (n x)).map (Prod.mk x)).map
      (fun t => if t.2 + 1 = n t.1 then v t.1 else c)
        = List.replicate k c ++ [v x] := by
      have hbefore : (List.range k).map (fun j => if j + 1 = n x then v x else c)
        = List.replicate k c := by
        rw [List.map_congr_left (g := fun _ => c) fun j hj => if_neg ?_, List.map_const',
          List.length_range]
        have := List.mem_range.mp hj
        omega
      rw [List.map_map]
      show (List.range (n x)).map (fun j => if j + 1 = n x then v x else c) = _
      rw [← hbefore]
      conv => lhs; rw [hk, List.range_succ]
      rw [List.map_append, List.map_singleton, if_pos rfl, hk]
    have hset : (pre ++ List.replicate ((x :: xs).map n).sum c).set (pre.length + n x - 1) (v x)
        = (pre ++ (List.replicate k c ++ [v x])) ++ List.replicate (xs.map n).sum c := by
      have hcount : (List.map n (x :: xs)).sum = k + ((xs.map n).sum + 1) := by
        rw [List.map_cons, List.sum_cons]
        omega
      have hsplit : List.replicate ((x :: xs).map n).sum c
          = List.replicate k c ++ c :: List.replicate (xs.map n).sum c := by
        rw [hcount, ← List.replicate_append_replicate]
        rfl
      have hindex : pre.length + n x - 1 = (pre ++ List.replicate k c).length := by
        rw [List.length_append, List.length_replicate]
        omega
      rw [hsplit, ← List.append_assoc, hindex, List.set_append_right _ _ (Nat.le_refl _),
        Nat.sub_self]
      simp
    have hlength : (pre ++ (List.replicate k c ++ [v x])).length = pre.length + n x := by
      rw [List.length_append, List.length_append, List.length_replicate, List.length_singleton]
      omega
    have hrest := ih (pre ++ (List.replicate k c ++ [v x])) fun y hy => h y
      (List.mem_cons_of_mem x hy)
    rw [hlength] at hrest
    show indexAssign ((pre ++ List.replicate ((x :: xs).map n).sum c).set (pre.length + n x - 1)
      (v x))
      ((cumsumFrom (pre.length + n x) (xs.map n)).map (· - 1)) (xs.map v) = _
    rw [hset, hrest, parts_cons, List.map_append, hone, List.append_assoc]

/-- Assigning a value of each thing to its last part. -/
theorem indexAssign_last (h : ∀ x ∈ xs, 0 < n x) (v : ι → α) (c : α) :
    indexAssign (List.replicate (xs.map n).sum c) ((cumsum (xs.map n)).map (· - 1)) (xs.map v)
      = (parts n xs).map fun t => if t.2 + 1 = n t.1 then v t.1 else c :=
        indexAssignFrom_last v c [] h

/-- Rows of one length, laid flat and read again. -/
theorem reshapeRows_flatMap {f : ι → List α} {k : Nat} (hk : ∀ x ∈ xs, (f x).length = k) :
    reshapeRows xs.length (xs.flatMap f) = xs.map f := by
  have hlen : (xs.flatMap f).length = xs.length * k := by
    rw [List.length_flatMap, List.map_congr_left hk]
    simp
  cases xs with
  | nil => rfl
  | cons x xs =>
    have hdiv : (x :: xs).length * k / (x :: xs).length = k :=
      Nat.mul_div_cancel_left k (Nat.succ_pos _)
    unfold reshapeRows
    rw [hlen, hdiv]
    -- Each row lies behind those before it.
    have hrows : ∀ (ys : List ι), (∀ y ∈ ys, (f y).length = k) →
        ((List.range ys.length).map fun i => ((ys.flatMap f).drop (i * k)).take k) = ys.map f := by
      intro ys
      induction ys with
      | nil => exact fun _ => rfl
      | cons y ys ih =>
        intro h
        have hy := h y List.mem_cons_self
        rw [List.length_cons, List.range_succ_eq_map, List.map_cons, List.map_map, List.map_cons,
          List.flatMap_cons,
          Nat.zero_mul, List.drop_zero, ← hy, List.take_left, hy]
        congr 1
        rw [← ih fun z hz => h z (List.mem_cons_of_mem y hz)]
        refine List.map_congr_left fun i _ => ?_
        show ((f y ++ ys.flatMap f).drop ((i + 1) * k)).take k = _
        rw [Nat.succ_mul, Nat.add_comm, ← hy, ← List.drop_drop, List.drop_left]
    exact hrows (x :: xs) hk

/-- Every entry of the flat array is in a segment. -/
theorem exists_mem_segment {counts : List Nat} {x : Nat} (hx : x < counts.sum) :
    ∃ i < counts.length, (counts.take i).sum ≤ x ∧ x < (counts.take i).sum + counts.getD i 0 := by
  induction counts generalizing x with
  | nil => exact absurd hx (Nat.not_lt_zero x)
  | cons n counts ih =>
    rw [List.sum_cons] at hx
    by_cases hn : x < n
    · exact ⟨0, Nat.succ_pos _, Nat.zero_le x, (Nat.zero_add n).symm ▸ hn⟩
    · obtain ⟨i, hi, hle, hlt⟩ := ih (x := x - n) (by omega)
      refine ⟨i + 1, Nat.succ_lt_succ hi, ?_, ?_⟩
      · rw [List.take_succ_cons, List.sum_cons]
        omega
      · rw [List.take_succ_cons, List.sum_cons, List.getD_cons_succ]
        omega

end Numpy
