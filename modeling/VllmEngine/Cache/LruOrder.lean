import VllmEngine.Cache.LruCache

/-!
# The order of an LRU cache

A group of keys is touched, then each of them is looked up or inserted. While this goes on, the order
is the old keys followed by those of the group (`Serving`). Inserting drops old keys from the front;
as long as there is room for the whole group, only old keys are dropped, and how many depends on
sizes alone.
-/

namespace VllmEngine.Cache

variable {K V : Type}

/-! ## Sizes -/

/-- Sum of the sizes of keys. -/
def sizeSum (sz : K → Nat) (keys : List K) : Nat := (keys.map sz).sum

@[simp] theorem sizeSum_append (sz : K → Nat) (xs ys : List K) :
    sizeSum sz (xs ++ ys) = sizeSum sz xs + sizeSum sz ys := by
  simp [sizeSum]

@[simp] theorem sizeSum_cons (sz : K → Nat) (x : K) (xs : List K) :
    sizeSum sz (x :: xs) = sz x + sizeSum sz xs := by
  simp [sizeSum]

theorem sizeSum_perm (sz : K → Nat) {xs ys : List K} (h : xs.Perm ys) : sizeSum sz xs = sizeSum sz ys :=
  (h.map sz).sum_eq

/-- One key more that meets the condition. -/
theorem sizeSum_filter_add (sz : K → Nat) {p q : K → Bool} {key : K} (hkey : p key = false)
    (hkey' : q key = true) (hothers : ∀ k, k ≠ key → q k = p k) :
    ∀ {xs : List K}, xs.Nodup → key ∈ xs →
      sizeSum sz (xs.filter q) = sizeSum sz (xs.filter p) + sz key := by
  intro xs
  induction xs with
  | nil => intro _ hmem; cases hmem
  | cons x xs ih =>
    intro hnodup hmem
    obtain ⟨hx, hnodup⟩ := List.nodup_cons.mp hnodup
    rw [List.filter_cons, List.filter_cons]
    by_cases hxkey : x = key
    · subst hxkey
      have hrest : xs.filter q = xs.filter p :=
        List.filter_congr fun k hk => hothers k fun he => hx (he ▸ hk)
      rw [if_pos hkey', if_neg (by rw [hkey]; exact Bool.false_ne_true), sizeSum_cons, hrest]
      omega
    · have hmem' : key ∈ xs := by
        obtain he | hmem := List.mem_cons.mp hmem
        · exact absurd he.symm hxkey
        · exact hmem
      have hih := ih hnodup hmem'
      rw [hothers x hxkey]
      split
      · rw [sizeSum_cons, sizeSum_cons, hih]
        omega
      · exact hih

theorem sizeSum_filter_le (sz : K → Nat) (p : K → Bool) (xs : List K) :
    sizeSum sz (xs.filter p) ≤ sizeSum sz xs := by
  induction xs with
  | nil => exact Nat.le_refl _
  | cons x xs ih =>
    rw [List.filter_cons]
    split
    · rw [sizeSum_cons, sizeSum_cons]
      exact Nat.add_le_add_left ih _
    · rw [sizeSum_cons]
      exact Nat.le_trans ih (Nat.le_add_left _ _)

/-- `d` is how many of the `old` keys must go until the others fit in with `total`: no fewer would
do. -/
def Minimal (sz : K → Nat) (maxsize : Nat) (old : List K) (total d : Nat) : Prop :=
  ∀ e < d, maxsize < sizeSum sz (old.drop e) + total

theorem Minimal.unique {sz : K → Nat} {maxsize : Nat} {old : List K} {total d d' : Nat}
    (h : Minimal sz maxsize old total d) (h' : Minimal sz maxsize old total d')
    (hfits : sizeSum sz (old.drop d) + total ≤ maxsize)
    (hfits' : sizeSum sz (old.drop d') + total ≤ maxsize) : d = d' := by
  obtain hlt | heq | hgt := Nat.lt_trichotomy d d'
  · exact absurd hfits (Nat.not_le.mpr (h' d hlt))
  · exact heq
  · exact absurd hfits' (Nat.not_le.mpr (h d' hgt))

theorem Minimal.mono {sz : K → Nat} {maxsize : Nat} {old : List K} {total total' d : Nat}
    (h : Minimal sz maxsize old total d) (hle : total ≤ total') : Minimal sz maxsize old total' d :=
  fun e he => Nat.lt_of_lt_of_le (h e he) (Nat.add_le_add_left hle _)

/-- Dropping `d` keys and then `d'` more. -/
theorem Minimal.add {sz : K → Nat} {maxsize : Nat} {old : List K} {total d d' : Nat}
    (h : Minimal sz maxsize old total d) (h' : Minimal sz maxsize (old.drop d) total d') :
    Minimal sz maxsize old total (d + d') := by
  intro e he
  by_cases hlt : e < d
  · exact h e hlt
  · have hrest := h' (e - d) (by omega)
    rw [List.drop_drop, Nat.add_sub_cancel' (Nat.not_lt.mp hlt)] at hrest
    exact hrest

variable [DecidableEq K]

/-! ## Touching -/

/-- `move_to_end`, of a key that need not be there. -/
def moveToEnd (order : List K) (key : K) : List K := order.erase key ++ [key]

theorem moveToEnd_append {old own : List K} {key : K} (h : key ∉ old) :
    moveToEnd (old ++ own) key = old ++ moveToEnd own key := by
  unfold moveToEnd
  rw [List.erase_append_right own h, List.append_assoc]

theorem moveToEnd_perm {own : List K} {key : K} (h : key ∈ own) : (moveToEnd own key).Perm own := by
  unfold moveToEnd
  exact (List.perm_append_singleton key (own.erase key)).trans (List.perm_cons_erase h).symm

/-- Touching keys one after another: the others come first, then these by their last occurrence. -/
theorem foldl_moveToEnd : ∀ (keys order : List K), order.Nodup →
    keys.foldl moveToEnd order = order.filter (· ∉ keys) ++ keys.dedup := by
  intro keys
  induction keys with
  | nil =>
    intro order _
    simp
  | cons key keys ih =>
    intro order hnodup
    have hnodup' : (moveToEnd order key).Nodup := by
      unfold moveToEnd
      refine List.nodup_append.mpr ⟨hnodup.erase key, List.nodup_singleton key, ?_⟩
      intro a ha b hb hab
      rw [hab, List.mem_singleton.mp hb] at ha
      exact (hnodup.not_mem_erase) ha
    rw [List.foldl_cons, ih _ hnodup', moveToEnd, hnodup.erase_eq_filter, List.filter_append,
      List.filter_filter]
    have hothers : order.filter (fun k => decide (k ∉ keys) && (k != key))
        = order.filter (· ∉ key :: keys) := by
      refine List.filter_congr fun k _ => ?_
      rw [Bool.eq_iff_iff]
      simp [and_comm]
    rw [hothers, List.append_assoc]
    by_cases hmem : key ∈ keys
    · rw [List.dedup_cons_of_mem hmem, List.filter_cons_of_neg (by simpa using hmem), List.filter_nil,
        List.nil_append]
    · rw [List.dedup_cons_of_notMem hmem, List.filter_cons_of_pos (by simpa using hmem), List.filter_nil]
      rfl

theorem foldl_touch (keys : List K) (c : LruCache K V) :
    keys.foldl LruCache.touch c = { c with order := keys.foldl moveToEnd c.order } := by
  induction keys generalizing c with
  | nil => rfl
  | cons key keys ih => rw [List.foldl_cons, ih, List.foldl_cons]; rfl

/-! ## Serving a group of keys -/

/-- The cache while a group of keys is served: the `old` ones with their values, then the group,
some of them without a value yet. Every key `k` has size `sz k`. -/
structure Serving (getsizeof : V → Nat) (sz : K → Nat) (c : LruCache K V) (old own : List K) : Prop where
  order : c.order = old ++ own
  nodup : (old ++ own).Nodup
  cached : ∀ k ∈ old, c.contains k = true
  keys : ∀ k, c.contains k = true → k ∈ old ++ own
  size : ∀ k v, c.data.get? k = some v → getsizeof v = sz k
  currsize : c.currsize = sizeSum sz old + sizeSum sz (own.filter c.contains)
  within : c.currsize ≤ c.maxsize

namespace Serving

variable {getsizeof : V → Nat} {sz : K → Nat} {c : LruCache K V} {old own : List K}

/-- The first of the old keys is popped. -/
theorem pop_first {key : K} (h : Serving getsizeof sz c (key :: old) own) :
    c.popitem getsizeof = .ok (key, c.pop getsizeof key)
      ∧ Serving getsizeof sz (c.pop getsizeof key) old own
      ∧ (c.pop getsizeof key).maxsize = c.maxsize
      ∧ ∀ k ∈ old ++ own, (c.pop getsizeof key).data.get? k = c.data.get? k := by
  have hcached := h.cached key List.mem_cons_self
  obtain ⟨value, hvalue⟩ := Option.isSome_iff_exists.mp hcached
  have hpop : c.pop getsizeof key = { c with
      currsize := c.currsize - getsizeof value
      order := c.order.erase key
      data := c.data.erase key } := by
    unfold LruCache.pop
    rw [hvalue]
  have horder : c.order = key :: (old ++ own) := h.order
  have hnodup : key ∉ old ++ own ∧ (old ++ own).Nodup := List.nodup_cons.mp h.nodup
  have hsame : ∀ k ∈ old ++ own, (c.data.erase key).get? k = c.data.get? k := by
    intro k hk
    refine Dict.get?_erase_ne _ fun hkey => hnodup.1 ?_
    rw [← hkey]
    exact hk
  have hcontains : ∀ k ∈ old ++ own, (c.data.erase key).contains k = c.contains k := by
    intro k hk
    unfold LruCache.contains Dict.contains
    rw [hsame k hk]
  refine ⟨by unfold LruCache.popitem; rw [horder], ?_, by rw [hpop], by rw [hpop]; exact hsame⟩
  rw [hpop]
  constructor
  case order =>
    show c.order.erase key = old ++ own
    rw [horder, List.erase_cons_head]
  case nodup => exact hnodup.2
  case cached =>
    intro k hk
    show (c.data.erase key).contains k = true
    rw [hcontains k (List.mem_append_left own hk)]
    exact h.cached k (List.mem_cons_of_mem key hk)
  case keys =>
    intro k hk
    have hk' : (c.data.erase key).contains k = true := hk
    unfold Dict.contains at hk'
    rw [Dict.get?_erase] at hk'
    split at hk'
    next => cases hk'
    next hne =>
      obtain heq | hmem := List.mem_cons.mp (h.keys k hk')
      · exact absurd heq hne
      · exact hmem
  case size =>
    intro k v hv
    have hv' : (c.data.erase key).get? k = some v := hv
    rw [Dict.get?_erase] at hv'
    split at hv'
    next => cases hv'
    next => exact h.size k v hv'
  case currsize =>
    have hfilter : own.filter (c.data.erase key).contains = own.filter c.contains :=
      List.filter_congr fun k hk => hcontains k (List.mem_append_right old hk)
    show c.currsize - getsizeof value = sizeSum sz old + sizeSum sz (own.filter (c.data.erase key).contains)
    rw [hfilter, h.currsize, sizeSum_cons, h.size key value hvalue]
    omega
  case within => exact Nat.le_trans (Nat.sub_le _ _) h.within

/-- Making room for a value drops the fewest old keys that will do, provided that the group and the
value fit. -/
theorem evict {size : Nat} (hroom : sizeSum sz (own.filter c.contains) + size ≤ c.maxsize) :
    ∀ {old : List K} {c' : LruCache K V} {fuel : Nat}, Serving getsizeof sz c' old own →
      (∀ k ∈ own, c'.data.get? k = c.data.get? k) → c'.maxsize = c.maxsize → old.length < fuel →
      ∃ d c'', c'.evict getsizeof size fuel = .ok (old.take d, c'')
        ∧ Serving getsizeof sz c'' (old.drop d) own
        ∧ (∀ k ∈ old.drop d ++ own, c''.data.get? k = c'.data.get? k) ∧ c''.maxsize = c.maxsize
        ∧ c''.currsize + size ≤ c.maxsize
        ∧ Minimal sz c.maxsize old (sizeSum sz (own.filter c.contains) + size) d := by
  intro old
  induction old with
  | nil =>
    intro c' fuel h hown hmax hfuel
    obtain ⟨fuel, rfl⟩ := Nat.exists_eq_succ_of_ne_zero (Nat.ne_of_gt hfuel)
    have hfits : c'.currsize + size ≤ c'.maxsize := by
      have hfilter : own.filter c'.contains = own.filter c.contains := by
        refine List.filter_congr fun k hk => ?_
        unfold LruCache.contains Dict.contains
        rw [hown k hk]
      rw [h.currsize, hfilter, hmax]
      exact Nat.le_trans (Nat.le_of_eq (by simp [sizeSum])) hroom
    refine ⟨0, c', ?_, h, fun _ _ => rfl, hmax, by rw [← hmax]; exact hfits, fun e he => ?_⟩
    · rw [LruCache.evict, if_pos hfits]
      rfl
    · exact absurd he (Nat.not_lt_zero e)
  | cons key old ih =>
    intro c' fuel h hown hmax hfuel
    obtain ⟨fuel, rfl⟩ := Nat.exists_eq_succ_of_ne_zero (Nat.ne_of_gt (Nat.lt_of_le_of_lt (Nat.zero_le _) hfuel))
    by_cases hfits : c'.currsize + size ≤ c'.maxsize
    · refine ⟨0, c', ?_, h, fun _ _ => rfl, hmax, by rw [← hmax]; exact hfits, fun e he => ?_⟩
      · rw [LruCache.evict, if_pos hfits]
        rfl
      · exact absurd he (Nat.not_lt_zero e)
    · obtain ⟨hpopitem, hserving, hmax', hsame⟩ := h.pop_first
      have hown' : ∀ k ∈ own, (c'.pop getsizeof key).data.get? k = c.data.get? k := by
        intro k hk
        rw [hsame k (List.mem_append_right old hk), hown k hk]
      obtain ⟨d, c'', hevict, hserving', hsame', hmax'', hfits', hminimal⟩ :=
        ih hserving hown' (hmax'.trans hmax) (Nat.lt_of_succ_lt_succ hfuel)
      refine ⟨d + 1, c'', ?_, hserving', fun k hk => ?_, hmax'', hfits', fun e he => ?_⟩
      · rw [LruCache.evict, if_neg hfits, hpopitem]
        dsimp only
        rw [hevict]
        rfl
      · rw [hsame' k hk]
        refine hsame k ?_
        obtain hk | hk := List.mem_append.mp hk
        · exact List.mem_append_left own ((List.drop_sublist d old).subset hk)
        · exact List.mem_append_right old hk
      · cases e with
        | zero =>
          have hfilter : own.filter c'.contains = own.filter c.contains := by
            refine List.filter_congr fun k hk => ?_
            unfold LruCache.contains Dict.contains
            rw [hown k hk]
          have hcurr := h.currsize
          rw [hfilter] at hcurr
          rw [List.drop_zero]
          omega
        | succ e => exact hminimal e (Nat.lt_of_succ_lt_succ he)

/-- A key of the group that has a value is touched. -/
theorem touch (h : Serving getsizeof sz c old own) {key : K} (hkey : key ∈ own) :
    Serving getsizeof sz (c.touch key) old (moveToEnd own key) := by
  have hold : key ∉ old := fun hmem => (List.nodup_append.mp h.nodup).2.2 key hmem key hkey rfl
  have hperm : (old ++ moveToEnd own key).Perm (old ++ own) :=
    (List.Perm.refl old).append (moveToEnd_perm hkey)
  constructor
  case order =>
    show moveToEnd c.order key = old ++ moveToEnd own key
    rw [h.order, moveToEnd_append hold]
  case nodup => exact hperm.nodup_iff.mpr h.nodup
  case cached => exact h.cached
  case keys => exact fun k hk => hperm.mem_iff.mpr (h.keys k hk)
  case size => exact h.size
  case currsize =>
    show c.currsize = sizeSum sz old + sizeSum sz ((moveToEnd own key).filter c.contains)
    rw [h.currsize, sizeSum_perm sz ((moveToEnd_perm hkey).filter c.contains)]
  case within => exact h.within

/-- A key of the group is inserted, and there is room for the whole group: only old keys are
dropped, as few as possible. -/
theorem setItem (h : Serving getsizeof sz c old own) {key : K} {value : V} (hkey : key ∈ own)
    (habsent : c.data.get? key = none) (hsize : getsizeof value = sz key)
    (hroom : sizeSum sz own ≤ c.maxsize) :
    ∃ d c', c.setItem getsizeof key value = .ok (old.take d, c')
      ∧ Serving getsizeof sz c' (old.drop d) (moveToEnd own key) ∧ c'.maxsize = c.maxsize
      ∧ (∀ k ∈ old.drop d ++ own, c'.data.get? k = if k = key then some value else c.data.get? k)
      ∧ Minimal sz c.maxsize old (sizeSum sz own) d := by
  have hnodupOwn : own.Nodup := (List.nodup_append.mp h.nodup).2.1
  have hnotContains : c.contains key = false := by
    unfold LruCache.contains Dict.contains
    rw [habsent]
    rfl
  -- The others of the group and the new value together are no more than the group.
  have hpart : sizeSum sz (own.filter c.contains) + sz key ≤ sizeSum sz own := by
    rw [← sizeSum_filter_add sz (q := fun k => c.contains k || decide (k = key)) hnotContains (by simp)
      (fun k hk => by simp [hk]) hnodupOwn hkey]
    exact sizeSum_filter_le sz _ own
  have hlen : old.length < c.order.length + 1 := by
    rw [h.order, List.length_append]
    omega
  obtain ⟨d, c', hevict, hserving, hsame, hmax, hfits, hminimal⟩ :=
    evict (Nat.le_trans hpart hroom) h (fun _ _ => rfl) rfl hlen
  have hold : key ∉ old.drop d := fun hmem =>
    (List.nodup_append.mp hserving.nodup).2.2 key hmem key hkey rfl
  have hperm : (old.drop d ++ moveToEnd own key).Perm (old.drop d ++ own) :=
    (List.Perm.refl _).append (moveToEnd_perm hkey)
  have habsent' : c'.data.get? key = none := by
    rw [hsame key (List.mem_append_right _ hkey), habsent]
  have hcontains : ∀ k, (c'.data.set key value).contains k = (c'.contains k || decide (k = key)) := by
    intro k
    unfold LruCache.contains Dict.contains
    rw [Dict.get?_set]
    by_cases hk : k = key
    · rw [if_pos hk]
      simp [hk]
    · rw [if_neg hk]
      simp [hk]
  refine ⟨d, c'.assign getsizeof key value, ?_, ?_, hmax, ?_, hminimal.mono hpart⟩
  · unfold LruCache.setItem
    rw [hsize, if_neg (Nat.not_lt.mpr (Nat.le_trans (Nat.le_add_left _ _) (Nat.le_trans hpart hroom))),
      habsent]
    rw [if_pos (show (none : Option V).elim true (fun old => decide (getsizeof old < sz key)) = true
      from rfl), hevict]
  · constructor
    case order =>
      show moveToEnd c'.order key = _
      rw [hserving.order, moveToEnd_append hold]
    case nodup => exact hperm.nodup_iff.mpr hserving.nodup
    case cached =>
      intro k hk
      show (c'.data.set key value).contains k = true
      rw [hcontains, hserving.cached k hk]
      rfl
    case keys =>
      intro k hk
      have hk' : (c'.data.set key value).contains k = true := hk
      rw [hcontains, Bool.or_eq_true, decide_eq_true_eq] at hk'
      refine hperm.mem_iff.mpr ?_
      obtain hk' | hk' := hk'
      · exact hserving.keys k hk'
      · rw [hk']
        exact List.mem_append_right _ hkey
    case size =>
      intro k v hv
      have hv' : (c'.data.set key value).get? k = some v := hv
      rw [Dict.get?_set] at hv'
      split at hv'
      next hk =>
        cases hv'
        rw [hk, hsize]
      next => exact hserving.size k v hv'
    case currsize =>
      have hnot : c'.contains key = false := by
        unfold LruCache.contains Dict.contains
        rw [habsent']
        rfl
      have hadd := sizeSum_filter_add sz (q := (c'.data.set key value).contains) hnot
        (by rw [hcontains]; simp) (fun k hk => by rw [hcontains]; simp [hk]) hnodupOwn hkey
      show c'.currsize + getsizeof value - (c'.data.get? key).elim 0 getsizeof
        = sizeSum sz (old.drop d) + sizeSum sz ((moveToEnd own key).filter (c'.data.set key value).contains)
      rw [habsent', sizeSum_perm sz ((moveToEnd_perm hkey).filter _), hadd, hserving.currsize, hsize]
      show _ - 0 = _
      omega
    case within =>
      show c'.currsize + getsizeof value - (c'.data.get? key).elim 0 getsizeof ≤ c'.maxsize
      rw [habsent', hsize, hmax]
      exact hfits
  · intro k hk
    show (c'.data.set key value).get? k = _
    rw [Dict.get?_set, hsame k hk]

end Serving

end VllmEngine.Cache

/-!
## LRU caches that count their keys

An `LRUCache` without `getsizeof`: every value has size one, so the capacity bounds the number of
keys. As long as only keys with values are touched, the order is exactly the keys of the cache
(`Counted`), and each operation changes the order as expected.
-/

namespace VllmEngine.Cache

variable {K V : Type} [DecidableEq K]

/-- `getsizeof` when none is given. -/
def countOne (_ : V) : Nat := 1

/-- The order is the keys of the cache, each once, no more than the capacity. -/
structure Counted (c : LruCache K V) : Prop where
  nodup : c.order.Nodup
  keys : ∀ k, k ∈ c.order ↔ c.contains k = true
  currsize : c.currsize = c.order.length
  within : c.order.length ≤ c.maxsize

namespace Counted

variable {c : LruCache K V} {key : K} {value : V}

theorem empty (maxsize : Nat) : Counted (LruCache.empty maxsize : LruCache K V) where
  nodup := List.nodup_nil
  keys := fun _ => ⟨fun h => (by cases h), fun h => (by cases h)⟩
  currsize := rfl
  within := Nat.zero_le _

/-- `len` counts the keys of the order. -/
theorem length (h : Counted c) : c.length = c.order.length := by
  have hperm : c.data.keys.Perm c.order :=
    (List.perm_ext_iff_of_nodup c.data.nodup h.nodup).mpr fun k =>
      c.data.mem_keys_iff.trans (h.keys k).symm
  rw [← hperm.length_eq]
  show c.data.entries.length = (c.data.entries.map Prod.fst).length
  rw [List.length_map]

theorem touch (h : Counted c) (hkey : c.contains key = true) : Counted (c.touch key) := by
  have hperm : (c.touch key).order.Perm c.order := moveToEnd_perm ((h.keys key).mpr hkey)
  constructor
  case nodup => exact hperm.nodup_iff.mpr h.nodup
  case keys => exact fun k => hperm.mem_iff.trans (h.keys k)
  case currsize => rw [hperm.length_eq]; exact h.currsize
  case within => rw [hperm.length_eq]; exact h.within

/-- `pop` of a key that is there. -/
theorem pop (h : Counted c) (key : K) : Counted (c.pop countOne key) := by
  unfold LruCache.pop
  cases hget : c.data.get? key with
  | none => exact h
  | some value =>
    have hmem : key ∈ c.order := (h.keys key).mpr (by unfold LruCache.contains Dict.contains; rw [hget]; rfl)
    have hlen : (c.order.erase key).length = c.order.length - 1 := List.length_erase_of_mem hmem
    constructor
    case nodup => exact h.nodup.erase key
    case keys =>
      intro k
      show k ∈ c.order.erase key ↔ (c.data.erase key).contains k = true
      unfold Dict.contains
      rw [h.nodup.mem_erase_iff, h.keys, Dict.get?_erase]
      unfold LruCache.contains Dict.contains
      by_cases hk : k = key
      · simp [hk]
      · simp [hk]
    case currsize =>
      show c.currsize - 1 = (c.order.erase key).length
      rw [hlen, h.currsize]
    case within =>
      show (c.order.erase key).length ≤ c.maxsize
      rw [hlen]
      exact Nat.le_trans (Nat.sub_le _ _) h.within

/-- `remove_oldest` takes the first key of the order. -/
theorem removeOldest (h : Counted c) {rest : List K} (horder : c.order = key :: rest) :
    c.removeOldest countOne = .ok (some key, c.pop countOne key) := by
  have hlen : c.length ≠ 0 := by
    rw [h.length, horder]
    exact Nat.succ_ne_zero _
  unfold LruCache.removeOldest LruCache.popitem
  rw [if_neg hlen, horder]

/-- `__setitem__` of a new key when there is room. -/
theorem setItem (h : Counted c) (hkey : c.contains key = false) (hroom : c.order.length < c.maxsize) :
    c.setItem countOne key value = .ok ([], c.assign countOne key value) := by
  have hget : c.data.get? key = none := by
    unfold LruCache.contains Dict.contains at hkey
    exact Option.not_isSome_iff_eq_none.mp (by rw [hkey]; exact Bool.false_ne_true)
  have hfits : c.currsize + countOne value ≤ c.maxsize := by
    rw [h.currsize]
    exact hroom
  unfold LruCache.setItem
  rw [if_neg (Nat.not_lt.mpr (Nat.le_trans (Nat.le_add_left _ _) hfits)), hget]
  rw [if_pos (show (none : Option V).elim true (fun old => decide (countOne old < countOne value)) = true
    from rfl), LruCache.evict, if_pos hfits]

theorem assign (h : Counted c) (value : V) (hkey : c.contains key = false) (hroom : c.order.length < c.maxsize) :
    Counted (c.assign countOne key value) ∧ (c.assign countOne key value).order = c.order ++ [key] := by
  have hget : c.data.get? key = none := by
    unfold LruCache.contains Dict.contains at hkey
    exact Option.not_isSome_iff_eq_none.mp (by rw [hkey]; exact Bool.false_ne_true)
  have hmem : key ∉ c.order := by
    rw [h.keys, hkey]
    exact Bool.false_ne_true
  have horder : (c.assign countOne key value).order = c.order ++ [key] := by
    show c.order.erase key ++ [key] = _
    rw [List.erase_of_not_mem hmem]
  refine ⟨?_, horder⟩
  constructor
  case nodup =>
    rw [horder]
    exact List.nodup_append.mpr ⟨h.nodup, List.nodup_singleton key, fun a ha b hb hab =>
      hmem (by rw [List.mem_singleton.mp hb] at hab; rwa [← hab])⟩
  case keys =>
    intro k
    rw [horder, List.mem_append, List.mem_singleton, h.keys]
    show _ ↔ (c.data.set key value).contains k = true
    unfold LruCache.contains Dict.contains
    rw [Dict.get?_set]
    by_cases hk : k = key
    · simp [hk]
    · simp [hk]
  case currsize =>
    rw [horder, List.length_append]
    show c.currsize + 1 - (c.data.get? key).elim 0 countOne = _
    rw [hget, h.currsize]
    rfl
  case within =>
    rw [horder, List.length_append]
    exact hroom

end Counted

end VllmEngine.Cache
