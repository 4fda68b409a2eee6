import Mathlib.Data.List.Nodup
import Mathlib.Algebra.BigOperators.Group.List.Basic
import Mathlib.Tactic.Abel
import VllmEngine.Lib.Raises

/-!
# Insertion-ordered dictionaries

A Python `dict` as a list of entries with distinct keys. Assigning to a present
key replaces its value in place, assigning to a new key appends, and popping
removes the entry; iteration follows the list.

The lookup lemmas (`get?_set`, `get?_erase`) say how an operation changes one
key and no other; the sum lemmas (`sumOver_set`, `sumOver_erase`) say how it
changes a sum over all entries.
-/

/-- A dictionary: entries with distinct keys, in insertion order. -/
structure Dict (K V : Type) where
  entries : List (K × V)
  nodup : (entries.map Prod.fst).Nodup

namespace Dict

variable {K V : Type} [DecidableEq K]

instance [DecidableEq V] : DecidableEq (Dict K V) := fun a b =>
  decidable_of_iff (a.entries = b.entries) <| by
    cases a
    cases b
    simp

def empty : Dict K V := ⟨[], List.nodup_nil⟩

/-- Value of the first entry with key `k`. -/
def lookup (k : K) : List (K × V) → Option V
  | [] => none
  | (k', v) :: es => if k' = k then some v else lookup k es

/-- `d.get(k)`. -/
def get? (d : Dict K V) (k : K) : Option V := lookup k d.entries

/-- `k in d`. -/
def contains (d : Dict K V) (k : K) : Bool := (d.get? k).isSome

def keys (d : Dict K V) : List K := d.entries.map Prod.fst

def values (d : Dict K V) : List V := d.entries.map Prod.snd

/-- `len(d)`. -/
def size (d : Dict K V) : Nat := d.entries.length

/-- The entries after `d[k] = v`. -/
def insertEntry (k : K) (v : V) : List (K × V) → List (K × V)
  | [] => [(k, v)]
  | (k', v') :: es => if k' = k then (k, v) :: es else (k', v') :: insertEntry k v es

theorem insertEntry_keys (k : K) (v : V) (es : List (K × V)) :
    (insertEntry k v es).map Prod.fst
      = if k ∈ es.map Prod.fst then es.map Prod.fst else es.map Prod.fst ++ [k] := by
  induction es with
  | nil => simp [insertEntry]
  | cons e es ih =>
    obtain ⟨k', v'⟩ := e
    by_cases hk : k' = k
    · simp [insertEntry, hk]
    · simp only [insertEntry, if_neg hk, List.map_cons, ih, List.mem_cons, Ne.symm hk, false_or]
      split <;> simp

/-- `d[k] = v`. -/
def set (d : Dict K V) (k : K) (v : V) : Dict K V where
  entries := insertEntry k v d.entries
  nodup := by
    rw [insertEntry_keys]
    split
    · exact d.nodup
    · rename_i hk
      exact List.nodup_append.mpr ⟨d.nodup, List.nodup_singleton k, by
        intro a ha b hb
        rw [List.mem_singleton.mp hb]
        intro hab
        exact hk (hab ▸ ha)⟩

/-- The dictionary `d.pop(k, None)` leaves behind. -/
def erase (d : Dict K V) (k : K) : Dict K V where
  entries := d.entries.filter fun e => decide (e.1 ≠ k)
  nodup := d.nodup.sublist (List.filter_sublist.map _)

/-- `dict(items)`: a key stands where it came first, with the value that came last. -/
def ofItems (items : List (K × V)) : Dict K V := items.foldl (fun d p => d.set p.1 p.2) empty

/-- Every value replaced in place. -/
def mapValues {V' : Type} (f : V → V') (d : Dict K V) : Dict K V' where
  entries := d.entries.map fun e => (e.1, f e.2)
  nodup := by
    rw [List.map_map]
    exact d.nodup

/-- `d.move_to_end(k)`; a key that is not there is left alone. -/
def moveToEnd (d : Dict K V) (k : K) : Dict K V :=
  match d.get? k with
  | some v => (d.erase k).set k v
  | none => d

/-- The value of a present key changed in place. -/
def modify (d : Dict K V) (k : K) (f : V → V) : Dict K V :=
  match d.get? k with
  | some v => d.set k (f v)
  | none => d

/-- `d.update(e)`. -/
def update (d e : Dict K V) : Dict K V := e.entries.foldl (fun d p => d.set p.1 p.2) d

/-- Entries at the front whose keys meet `p` are popped, up to the first that does not. -/
def dropWhile (d : Dict K V) (p : K → Bool) : Dict K V where
  entries := d.entries.dropWhile fun e => p e.1
  nodup := d.nodup.sublist ((List.dropWhile_sublist _).map Prod.fst)

/-- `d.popitem()`: the entry that was added last. -/
def popitem (d : Dict K V) : Option ((K × V) × Dict K V) :=
  d.entries.getLast?.map fun e => (e, d.erase e.1)

/-- `n` times `d.popitem(last=False)`. -/
def dropFirst (d : Dict K V) (n : Nat) : Dict K V where
  entries := d.entries.drop n
  nodup := d.nodup.sublist ((List.drop_sublist n _).map _)

/-! ## Lookups -/

@[simp] theorem get?_empty (k : K) : (empty : Dict K V).get? k = none := rfl

variable {k : K} {v : V} {d : Dict K V}

theorem lookup_eq_none : ∀ {es : List (K × V)}, (∀ e ∈ es, e.1 ≠ k) → lookup k es = none
  | [], _ => rfl
  | e :: es, h => by
    rw [lookup, if_neg (h e List.mem_cons_self)]
    exact lookup_eq_none fun e' he' => h e' (List.mem_cons_of_mem e he')

theorem lookup_insertEntry (k k' : K) (v : V) (es : List (K × V)) :
    lookup k' (insertEntry k v es) = if k' = k then some v else lookup k' es := by
  induction es with
  | nil =>
    simp only [insertEntry, lookup]
    exact if_congr eq_comm rfl rfl
  | cons e es ih =>
    obtain ⟨k₀, v₀⟩ := e
    simp only [insertEntry]
    by_cases h0 : k₀ = k
    · subst h0
      rw [if_pos rfl, lookup, lookup]
      by_cases hk : k' = k₀
      · simp [hk]
      · simp [hk, Ne.symm hk]
    · rw [if_neg h0, lookup, ih, lookup]
      by_cases hk : k' = k
      · simp [hk, h0]
      · simp [hk]

theorem get?_set (d : Dict K V) (k k' : K) (v : V) :
    (d.set k v).get? k' = if k' = k then some v else d.get? k' :=
  lookup_insertEntry k k' v d.entries

theorem keys_set (d : Dict K V) (k : K) (v : V) :
    (d.set k v).keys = if k ∈ d.keys then d.keys else d.keys ++ [k] :=
  insertEntry_keys k v d.entries

@[simp] theorem get?_set_self (d : Dict K V) (k : K) (v : V) : (d.set k v).get? k = some v := by
  rw [get?_set, if_pos rfl]

theorem get?_set_ne (d : Dict K V) {k' : K} (v : V) (h : k' ≠ k) :
    (d.set k v).get? k' = d.get? k' := by
  rw [get?_set, if_neg h]

/-- Assignments in a loop, where all to key `k` assign the same value: the loop
sets `k` if it reaches it, and leaves it alone otherwise. -/
theorem get?_foldl_set {A : Type} (key : A → K) (val : A → V) :
    ∀ (xs : List A) (d : Dict K V), (∀ x ∈ xs, key x = k → val x = v) →
      (xs.foldl (fun d x => d.set (key x) (val x)) d).get? k
        = if k ∈ xs.map key then some v else d.get? k := by
  intro xs
  induction xs with
  | nil => intro d _; rfl
  | cons x xs ih =>
    intro d hval
    rw [List.foldl_cons, ih _ fun y hy => hval y (List.mem_cons_of_mem x hy), List.map_cons]
    by_cases hx : key x = k
    · rw [get?_set, if_pos hx.symm, hval x List.mem_cons_self hx, ← hx,
        if_pos List.mem_cons_self]
      split
      · rfl
      · rfl
    · rw [get?_set_ne d _ (Ne.symm hx)]
      simp only [List.mem_cons, Ne.symm hx, false_or]

theorem get?_erase (d : Dict K V) (k k' : K) :
    (d.erase k).get? k' = if k' = k then none else d.get? k' := by
  show lookup k' (d.entries.filter _) = _
  rw [get?]
  induction d.entries with
  | nil => simp [lookup]
  | cons e es ih =>
    obtain ⟨k₀, v₀⟩ := e
    by_cases h0 : k₀ = k
    · rw [List.filter_cons_of_neg (by simpa using h0), ih, lookup]
      by_cases hk : k' = k
      · simp [hk]
      · have : k₀ ≠ k' := by
          intro h
          exact hk (h ▸ h0)
        simp [hk, this]
    · rw [List.filter_cons_of_pos (by simpa using h0), lookup, ih, lookup]
      by_cases hk : k' = k
      · have : k₀ ≠ k' := by
          intro h
          exact h0 (h.trans hk)
        simp [hk, h0]
      · simp [hk]

@[simp] theorem get?_erase_self (d : Dict K V) (k : K) : (d.erase k).get? k = none := by
  rw [get?_erase, if_pos rfl]

theorem get?_erase_ne (d : Dict K V) {k' : K} (h : k' ≠ k) : (d.erase k).get? k' = d.get? k' := by
  rw [get?_erase, if_neg h]

/-- Where the keys that meet `p` come before the others, `dropWhile` removes just these. -/
theorem get?_dropWhile {p : K → Bool} (h : d.keys.Pairwise fun a b => p b = true → p a = true)
    (k : K) : (d.dropWhile p).get? k = if p k then none else d.get? k := by
  obtain ⟨entries, nodup⟩ := d
  show lookup k (entries.dropWhile _) = if p k then none else lookup k entries
  replace h : (entries.map Prod.fst).Pairwise fun a b => p b = true → p a = true := h
  clear nodup
  induction entries with
  | nil => simp [lookup]
  | cons e es ih =>
    obtain ⟨k₀, v₀⟩ := e
    rw [List.map_cons, List.pairwise_cons] at h
    by_cases hp : p k₀ = true
    · rw [List.dropWhile_cons, if_pos hp, ih h.2, lookup]
      by_cases hk : k₀ = k
      · rw [← hk, if_pos hp, if_pos hp]
      · rw [if_neg hk]
    · rw [List.dropWhile_cons, if_neg hp]
      split
      next hpk =>
        -- The first key does not meet `p`, so none of the others does.
        have hnone : ∀ e ∈ (k₀, v₀) :: es, e.1 ≠ k := by
          intro e he hek
          obtain he | he := List.mem_cons.mp he
          · exact hp (by rw [he] at hek; rw [show k₀ = k from hek]; exact hpk)
          · exact hp (h.1 e.1 (List.mem_map_of_mem he) (by rw [hek]; exact hpk))
        exact lookup_eq_none hnone
      next => rfl

theorem get?_moveToEnd (d : Dict K V) (k k' : K) : (d.moveToEnd k).get? k' = d.get? k' := by
  unfold moveToEnd
  cases h : d.get? k with
  | none => rfl
  | some v =>
    rw [get?_set, get?_erase]
    by_cases hk : k' = k
    · rw [if_pos hk, hk, h]
    · rw [if_neg hk, if_neg hk]

theorem get?_modify (d : Dict K V) (k k' : K) (f : V → V) :
    (d.modify k f).get? k' = if k' = k then (d.get? k).map f else d.get? k' := by
  unfold modify
  cases h : d.get? k with
  | none =>
    by_cases hk : k' = k
    · rw [if_pos hk, hk, h]
      rfl
    · rw [if_neg hk]
  | some v => rw [get?_set]; rfl

theorem mem_of_lookup : ∀ {es : List (K × V)}, lookup k es = some v → (k, v) ∈ es := by
  intro es
  induction es with
  | nil => intro h; cases h
  | cons e es ih =>
    obtain ⟨k₀, v₀⟩ := e
    intro h
    rw [lookup] at h
    by_cases h0 : k₀ = k
    · rw [if_pos h0, Option.some.injEq] at h
      simp [h0, h]
    · rw [if_neg h0] at h
      exact List.mem_cons_of_mem _ (ih h)

theorem lookup_of_mem :
    ∀ {es : List (K × V)}, (es.map Prod.fst).Nodup → (k, v) ∈ es → lookup k es = some v := by
  intro es
  induction es with
  | nil => intro _ h; cases h
  | cons e es ih =>
    obtain ⟨k₀, v₀⟩ := e
    intro hn h
    rw [List.map_cons, List.nodup_cons] at hn
    rw [lookup]
    rcases List.mem_cons.mp h with h | h
    · obtain ⟨rfl, rfl⟩ := Prod.mk.inj h
      rw [if_pos rfl]
    · have hk : k₀ ≠ k := by
        intro h0
        exact hn.1 (h0 ▸ List.mem_map.mpr ⟨(k, v), h, rfl⟩)
      rw [if_neg hk]
      exact ih hn.2 h

/-- A key's value is the value of its entry. -/
theorem get?_eq_some_iff (d : Dict K V) : d.get? k = some v ↔ (k, v) ∈ d.entries :=
  ⟨mem_of_lookup, lookup_of_mem d.nodup⟩

theorem popitem_eq_some {d' : Dict K V} {e : K × V} (h : d.popitem = some (e, d')) :
    d.get? e.1 = some e.2 ∧ d' = d.erase e.1 := by
  obtain ⟨e', he', heq⟩ := Option.map_eq_some_iff.mp h
  cases heq
  exact ⟨(get?_eq_some_iff d).mpr (List.mem_of_getLast? he'), rfl⟩

theorem popitem_eq_none (h : d.popitem = none) (k : K) : d.get? k = none := by
  have hnil := List.getLast?_eq_none_iff.mp (Option.map_eq_none_iff.mp h)
  unfold get?
  rw [hnil]
  rfl

/-- The second dictionary wins. -/
theorem get?_update (d e : Dict K V) (k : K) : (d.update e).get? k = (e.get? k).or (d.get? k) := by
  unfold update
  cases h : e.get? k with
  | none =>
    have hmem : k ∉ e.entries.map Prod.fst := by
      intro hk
      obtain ⟨⟨k', v⟩, he, rfl⟩ := List.mem_map.mp hk
      rw [(e.get?_eq_some_iff).mpr he] at h
      cases h
    rw [Option.none_or]
    have hskip : ∀ (es : List (K × V)) (d : Dict K V), k ∉ es.map Prod.fst →
        (es.foldl (fun d p => d.set p.1 p.2) d).get? k = d.get? k := by
      intro es
      induction es with
      | nil => intro d _; rfl
      | cons p es ih =>
        intro d hk
        rw [List.map_cons, List.mem_cons, not_or] at hk
        rw [List.foldl_cons, ih _ hk.2, get?_set_ne d _ hk.1]
    exact hskip e.entries d hmem
  | some v =>
    have hmem := (e.get?_eq_some_iff).mp h
    have hval : ∀ p ∈ e.entries, p.1 = k → p.2 = v := by
      intro p hp hk
      have hp' := (e.get?_eq_some_iff).mpr hp
      rw [hk, h] at hp'
      exact (Option.some.inj hp').symm
    rw [get?_foldl_set Prod.fst Prod.snd e.entries d hval, if_pos (List.mem_map_of_mem hmem), Option.some_or]

theorem mem_values_iff (d : Dict K V) : v ∈ d.values ↔ ∃ k, d.get? k = some v := by
  constructor
  · intro h
    obtain ⟨⟨k, v'⟩, he, rfl⟩ := List.mem_map.mp h
    exact ⟨k, (d.get?_eq_some_iff).mpr he⟩
  · rintro ⟨k, h⟩
    exact List.mem_map.mpr ⟨(k, v), (d.get?_eq_some_iff).mp h, rfl⟩

theorem mem_keys_iff (d : Dict K V) : k ∈ d.keys ↔ d.contains k = true := by
  rw [contains, Option.isSome_iff_exists]
  constructor
  · intro h
    obtain ⟨⟨k', v⟩, he, rfl⟩ := List.mem_map.mp h
    exact ⟨v, (d.get?_eq_some_iff).mpr he⟩
  · rintro ⟨v, h⟩
    exact List.mem_map.mpr ⟨(k, v), (d.get?_eq_some_iff).mp h, rfl⟩

theorem get?_mapValues {V' : Type} (f : V → V') (d : Dict K V) (k : K) :
    (d.mapValues f).get? k = (d.get? k).map f := by
  show lookup k (d.entries.map fun e => (e.1, f e.2)) = (lookup k d.entries).map f
  induction d.entries with
  | nil => rfl
  | cons e es ih =>
    show (if e.1 = k then some (f e.2) else lookup k (es.map fun e => (e.1, f e.2))) =
      (if e.1 = k then some e.2 else lookup k es).map f
    split
    next => rfl
    next => exact ih

/-- The values without one entry. -/
theorem values_erase_perm (h : d.get? k = some v) : (v :: (d.erase k).values).Perm d.values := by
  obtain ⟨entries, nodup⟩ := d
  replace h : lookup k entries = some v := h
  show (v :: (entries.filter fun e => decide (e.1 ≠ k)).map Prod.snd).Perm (entries.map Prod.snd)
  induction entries with
  | nil => cases h
  | cons e es ih =>
    obtain ⟨k₀, v₀⟩ := e
    rw [List.map_cons, List.nodup_cons] at nodup
    rw [lookup] at h
    by_cases h0 : k₀ = k
    · rw [if_pos h0] at h
      cases h
      have hkeep : (es.filter fun e => decide (e.1 ≠ k)) = es := by
        refine List.filter_eq_self.mpr fun e he => decide_eq_true fun hek => nodup.1 ?_
        rw [h0, ← hek]
        exact List.mem_map.mpr ⟨e, he, rfl⟩
      rw [List.filter_cons_of_neg (by simpa using h0), hkeep]
      rfl
    · rw [if_neg h0] at h
      rw [List.filter_cons_of_pos (by simpa using h0), List.map_cons, List.map_cons]
      exact (List.Perm.swap _ _ _).trans ((ih nodup.2 h).cons v₀)

/-- The values after an assignment: the new one, and those under the other keys. -/
theorem values_set_perm (d : Dict K V) (k : K) (v : V) :
    (d.set k v).values.Perm (v :: (d.erase k).values) := by
  obtain ⟨entries, nodup⟩ := d
  show ((insertEntry k v entries).map Prod.snd).Perm
    (v :: (entries.filter fun e => decide (e.1 ≠ k)).map Prod.snd)
  induction entries with
  | nil => exact List.Perm.refl _
  | cons e es ih =>
    obtain ⟨k₀, v₀⟩ := e
    rw [List.map_cons, List.nodup_cons] at nodup
    by_cases h0 : k₀ = k
    · have hkeep : (es.filter fun e => decide (e.1 ≠ k)) = es := by
        refine List.filter_eq_self.mpr fun e he => decide_eq_true fun hek => nodup.1 ?_
        rw [h0, ← hek]
        exact List.mem_map.mpr ⟨e, he, rfl⟩
      rw [insertEntry, if_pos h0, List.filter_cons_of_neg (by simpa using h0), hkeep]
      exact List.Perm.refl _
    · rw [insertEntry, if_neg h0, List.filter_cons_of_pos (by simpa using h0), List.map_cons,
        List.map_cons]
      exact ((ih nodup.2).cons v₀).trans (List.Perm.swap _ _ _)

/-- Popping a key that is not there changes nothing. -/
theorem erase_of_none (h : d.get? k = none) : d.erase k = d := by
  obtain ⟨entries, nodup⟩ := d
  have hkeep : (entries.filter fun e => decide (e.1 ≠ k)) = entries := by
    refine List.filter_eq_self.mpr fun e he => decide_eq_true fun hek => ?_
    have hsome := (get?_eq_some_iff ⟨entries, nodup⟩).mpr (hek ▸ he : (k, e.2) ∈ entries)
    rw [h] at hsome
    cases hsome
  unfold erase
  congr 1

/-! ## Filling a dictionary -/

theorem insertEntry_of_not_mem (v : V) {es : List (K × V)} (h : k ∉ es.map Prod.fst) :
    insertEntry k v es = es ++ [(k, v)] := by
  induction es with
  | nil => rfl
  | cons e es ih =>
    obtain ⟨k', v'⟩ := e
    rw [List.map_cons, List.mem_cons, not_or] at h
    rw [insertEntry, if_neg (Ne.symm h.1), ih h.2]
    rfl

theorem foldl_set_entries : ∀ {es : List (K × V)} {d : Dict K V},
    (d.keys ++ es.map Prod.fst).Nodup →
      (es.foldl (fun d p => d.set p.1 p.2) d).entries = d.entries ++ es
  | [], d, _ => (List.append_nil _).symm
  | (k, v) :: es, d, hnd => by
    obtain ⟨-, -, hdisj⟩ := List.nodup_append.mp hnd
    have hk : k ∉ d.entries.map Prod.fst := fun hmem =>
      hdisj k hmem k List.mem_cons_self rfl
    have hset : (d.set k v).entries = d.entries ++ [(k, v)] := insertEntry_of_not_mem v hk
    show (es.foldl (fun d p => d.set p.1 p.2) (d.set k v)).entries = _
    rw [foldl_set_entries, hset, List.append_assoc]
    · rfl
    · unfold keys at hnd ⊢
      rw [hset, List.map_append, List.append_assoc]
      exact hnd

/-- A dictionary is made of its own items. -/
theorem ofItems_entries (d : Dict K V) : ofItems d.entries = d := by
  have h : (ofItems d.entries).entries = [] ++ d.entries :=
    foldl_set_entries (d := (empty : Dict K V)) d.nodup
  cases hof : ofItems d.entries with
  | mk entries nodup =>
    rw [hof] at h
    cases d
    cases h
    rfl

/-! ## Sums over the entries -/

section Sums

variable {M : Type} [AddCommMonoid M]

/-- The sum of `g` over all entries. -/
def sumOver (g : K → V → M) (d : Dict K V) : M := (d.entries.map fun e => g e.1 e.2).sum

/-- Assigning trades the old entry's summand for the new one's. -/
theorem sumOver_set (g : K → V → M) (d : Dict K V) (k : K) (v : V) :
    sumOver g (d.set k v) + (d.get? k).elim 0 (g k) = sumOver g d + g k v := by
  show ((insertEntry k v d.entries).map fun e => g e.1 e.2).sum + (lookup k d.entries).elim 0 (g k)
    = (d.entries.map fun e => g e.1 e.2).sum + g k v
  induction d.entries with
  | nil => simp [insertEntry, lookup]
  | cons e es ih =>
    obtain ⟨k₀, v₀⟩ := e
    by_cases h0 : k₀ = k
    · subst h0
      simp only [insertEntry, lookup, if_true, List.map_cons, List.sum_cons, Option.elim_some]
      abel
    · simp only [insertEntry, lookup, if_neg h0, List.map_cons, List.sum_cons, add_assoc, ih]

/-- Popping removes the entry's summand. -/
theorem sumOver_erase (g : K → V → M) (d : Dict K V) (k : K) :
    sumOver g (d.erase k) + (d.get? k).elim 0 (g k) = sumOver g d := by
  obtain ⟨es, hn⟩ := d
  show ((es.filter _).map fun e => g e.1 e.2).sum + (lookup k es).elim 0 (g k)
    = (es.map fun e => g e.1 e.2).sum
  induction es with
  | nil => simp [lookup]
  | cons e es ih =>
    obtain ⟨k₀, v₀⟩ := e
    rw [List.map_cons, List.nodup_cons] at hn
    have ih := ih hn.2
    by_cases h0 : k₀ = k
    · -- the key occurs only here, so nothing else is filtered out
      have hrest : es.filter (fun e => decide (e.1 ≠ k)) = es := by
        refine List.filter_eq_self.mpr fun e he => ?_
        have : e.1 ≠ k := fun hk => hn.1 (List.mem_map.mpr ⟨e, he, hk.trans h0.symm⟩)
        simpa using this
      rw [List.filter_cons_of_neg (by simpa using h0), hrest, lookup, if_pos h0]
      subst h0
      simp only [List.map_cons, List.sum_cons, Option.elim_some]
      exact add_comm _ _
    · rw [List.filter_cons_of_pos (by simpa using h0), lookup, if_neg h0]
      simp only [List.map_cons, List.sum_cons, add_assoc, ih]

end Sums

/-! ## Totals of the values -/

/-- The sum of `f` over all values. -/
def total (f : V → Nat) (d : Dict K V) : Nat := (d.values.map f).sum

omit [DecidableEq K] in
theorem total_eq_sumOver (f : V → Nat) (d : Dict K V) : total f d = sumOver (fun _ => f) d := by
  rw [total, sumOver, values, List.map_map]
  rfl

omit [DecidableEq K] in
@[simp] theorem total_empty (f : V → Nat) : total f (empty : Dict K V) = 0 := rfl

/-- Assigning trades the old value's summand for the new one's. -/
theorem total_set (f : V → Nat) (d : Dict K V) (k : K) (v : V) :
    total f (d.set k v) + (d.get? k).elim 0 f = total f d + f v := by
  rw [total_eq_sumOver, total_eq_sumOver]
  exact sumOver_set (fun _ => f) d k v

/-- Popping removes the value's summand. -/
theorem total_erase (f : V → Nat) (d : Dict K V) (k : K) :
    total f (d.erase k) + (d.get? k).elim 0 f = total f d := by
  rw [total_eq_sumOver, total_eq_sumOver]
  exact sumOver_erase (fun _ => f) d k

omit [DecidableEq K] in
theorem size_eq_total (d : Dict K V) : d.size = total (fun _ => 1) d := by
  rw [total, List.map_const', List.sum_replicate_nat, Nat.mul_one, values, List.length_map, size]

theorem size_set_of_none (v : V) (h : d.get? k = none) : (d.set k v).size = d.size + 1 := by
  have hset := total_set (fun _ => 1) d k v
  rw [h, ← size_eq_total, ← size_eq_total] at hset
  exact hset

theorem size_erase_of_some (h : d.get? k = some v) : (d.erase k).size + 1 = d.size := by
  have herase := total_erase (fun _ => 1) d k
  rw [h, ← size_eq_total, ← size_eq_total] at herase
  exact herase

theorem le_total (f : V → Nat) (d : Dict K V) (h : d.get? k = some v) : f v ≤ total f d := by
  have h' := total_erase f d k
  rw [h] at h'
  simp only [Option.elim_some] at h'
  omega

end Dict
