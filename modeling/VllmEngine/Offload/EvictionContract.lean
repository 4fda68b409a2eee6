import VllmEngine.Offload.CpuManager

/-!
# The four lists of the adaptive policy

The states that the calls of a manager bring an `ARCCachePolicy` to (`Reached`), and what
holds in all of them: a key is in at most one of the lists, no ghost list has more keys than
the cache has blocks, and the target, taken as a rational number, lies between zero and the
capacity.
-/

namespace Dict

variable {K V : Type} [DecidableEq K]

theorem get?_eq_none_iff {d : Dict K V} {k : K} : d.get? k = none ↔ k ∉ d.keys := by
  rw [mem_keys_iff]
  unfold contains
  rw [Option.not_isSome_iff_eq_none]

theorem get?_dropFirst_eq_none {d : Dict K V} {k : K} (n : Nat) (h : d.get? k = none) :
    (d.dropFirst n).get? k = none := by
  rw [get?_eq_none_iff] at h ⊢
  exact fun hmem => h (((List.drop_sublist n d.entries).map Prod.fst).subset hmem)

omit [DecidableEq K] in
theorem size_dropFirst (d : Dict K V) (n : Nat) : (d.dropFirst n).size = d.size - n :=
  List.length_drop

theorem size_erase_le (d : Dict K V) (k : K) : (d.erase k).size ≤ d.size :=
  List.length_filter_le _ _

theorem size_moveToEnd (d : Dict K V) (k : K) : (d.moveToEnd k).size = d.size := by
  unfold moveToEnd
  cases h : d.get? k with
  | none => rfl
  | some v =>
    show ((d.erase k).set k v).size = d.size
    rw [size_set_of_none v (get?_erase_self d k)]
    exact size_erase_of_some h

end Dict

namespace VllmEngine

set_option linter.unusedSectionVars false

namespace ARCCachePolicy

variable {K F : Type} [DecidableEq K] [PyFloat F]

/-- The states of a policy. A key that is inserted is not among those used twice, and
`update` stands for the counting of readers. -/
inductive Reached (cacheCapacity : Nat) : ARCCachePolicy K F → Prop
  | init : Reached cacheCapacity (init cacheCapacity)
  | insert {p} (key : K) (block : BlockStatus) : Reached cacheCapacity p →
    p.t2.get? key = none → Reached cacheCapacity (p.insert key block)
  | remove {p p'} (key : K) : Reached cacheCapacity p → p.remove key = .ok p' →
    Reached cacheCapacity p'
  | touch {p} (keys : List K) : Reached cacheCapacity p → Reached cacheCapacity (p.touch keys)
  | evict {p p'} (n : Nat) (protect : List K) (evicted : List (K × BlockStatus)) :
    Reached cacheCapacity p → p.evict n protect = some (p', evicted) →
    Reached cacheCapacity p'
  | update {p} (key : K) (f : BlockStatus → BlockStatus) : Reached cacheCapacity p →
    Reached cacheCapacity (arcPolicy.update p key f)

variable {p p' : ARCCachePolicy K F}

/-- The key is in at most one of the lists. -/
def Once (p : ARCCachePolicy K F) (k : K) : Prop :=
  (p.t2.get? k = none ∧ p.b1.get? k = none ∧ p.b2.get? k = none) ∨
  (p.t1.get? k = none ∧ p.b1.get? k = none ∧ p.b2.get? k = none) ∨
  (p.t1.get? k = none ∧ p.t2.get? k = none ∧ p.b2.get? k = none) ∨
  (p.t1.get? k = none ∧ p.t2.get? k = none ∧ p.b1.get? k = none)

/-- What holds of the lists. -/
structure ListsOk (cacheCapacity : Nat) (p : ARCCachePolicy K F) : Prop where
  once : ∀ k, p.Once k
  capacity : p.cacheCapacity = cacheCapacity
  b1_le : p.b1.size ≤ cacheCapacity
  b2_le : p.b2.size ≤ cacheCapacity

variable {cacheCapacity : Nat}

theorem ListsOk.split (h : ListsOk cacheCapacity p) : p.Split := by
  intro k
  rcases h.once k with ⟨ht2, -, -⟩ | ⟨ht1, -, -⟩ | ⟨ht1, -, -⟩ | ⟨ht1, -, -⟩
  · exact Or.inr ht2
  · exact Or.inl ht1
  · exact Or.inl ht1
  · exact Or.inl ht1

theorem Once.of_eq {k : K} (h : p.Once k) (ht1 : p.t1.get? k = none → p'.t1.get? k = none)
    (ht2 : p.t2.get? k = none → p'.t2.get? k = none)
    (hb1 : p.b1.get? k = none → p'.b1.get? k = none)
    (hb2 : p.b2.get? k = none → p'.b2.get? k = none) : p'.Once k := by
  rcases h with ⟨a, b, c⟩ | ⟨a, b, c⟩ | ⟨a, b, c⟩ | ⟨a, b, c⟩
  · exact Or.inl ⟨ht2 a, hb1 b, hb2 c⟩
  · exact Or.inr (Or.inl ⟨ht1 a, hb1 b, hb2 c⟩)
  · exact Or.inr (Or.inr (Or.inl ⟨ht1 a, ht2 b, hb2 c⟩))
  · exact Or.inr (Or.inr (Or.inr ⟨ht1 a, ht2 b, hb1 c⟩))

theorem ListsOk.insert (h : ListsOk cacheCapacity p) (key : K) (block : BlockStatus)
    (hkey : p.t2.get? key = none) : ListsOk cacheCapacity (p.insert key block) where
  once := by
    intro k
    by_cases hk : k = key
    · subst hk
      left
      exact ⟨hkey, Dict.get?_erase_self _ _, Dict.get?_erase_self _ _⟩
    · refine (h.once k).of_eq (fun hnone => ?_) id (fun hnone => ?_) (fun hnone => ?_)
      · exact (Dict.get?_set_ne _ _ hk).trans hnone
      · exact (Dict.get?_erase_ne _ hk).trans hnone
      · exact (Dict.get?_erase_ne _ hk).trans hnone
  capacity := h.capacity
  b1_le := Nat.le_trans (Dict.size_erase_le _ _) h.b1_le
  b2_le := Nat.le_trans (Dict.size_erase_le _ _) h.b2_le

/-- Erasing keys keeps a dictionary without the others. -/
theorem erase_eq_none {V : Type} {d : Dict K V} {k : K} (key : K) (h : d.get? k = none) :
    (d.erase key).get? k = none := by
  rw [Dict.get?_erase, h]
  exact ite_self none

theorem ListsOk.remove {key : K} (h : ListsOk cacheCapacity p) (hremove : p.remove key = .ok p') :
    ListsOk cacheCapacity p' := by
  unfold ARCCachePolicy.remove at hremove
  split at hremove
  · cases hremove
    exact ⟨fun k => (h.once k).of_eq (erase_eq_none key) id id id, h.capacity, h.b1_le, h.b2_le⟩
  · cases hremove
    exact ⟨fun k => (h.once k).of_eq id (erase_eq_none key) id id, h.capacity, h.b1_le, h.b2_le⟩

theorem ListsOk.update (h : ListsOk cacheCapacity p) (key : K) (f : BlockStatus → BlockStatus) :
    ListsOk cacheCapacity (arcPolicy.update p key f) := by
  have hmodify : ∀ (d : Dict K BlockStatus) (k : K), d.get? k = none →
      (d.modify key f).get? k = none := by
    intro d k hnone
    rw [Dict.get?_modify]
    split
    · rename_i hk
      rw [← hk, hnone]
      rfl
    · exact hnone
  exact ⟨fun k => (h.once k).of_eq (hmodify _ k) (hmodify _ k) id id, h.capacity, h.b1_le,
    h.b2_le⟩

/-- A key that is moved within a list or from `t1` to `t2`. -/
theorem ListsOk.touchKey (h : ListsOk cacheCapacity p) (key : K) :
    ListsOk cacheCapacity (p.touchKey key) := by
  unfold ARCCachePolicy.touchKey
  split
  · rename_i block hblock
    -- a key of `t1` is in no other list
    have hothers : p.t2.get? key = none ∧ p.b1.get? key = none ∧ p.b2.get? key = none := by
      rcases h.once key with hothers | ⟨hnone, -⟩ | ⟨hnone, -⟩ | ⟨hnone, -⟩
      · exact hothers
      · rw [hblock] at hnone
        exact absurd hnone (by simp)
      · rw [hblock] at hnone
        exact absurd hnone (by simp)
      · rw [hblock] at hnone
        exact absurd hnone (by simp)
    split
    · refine ⟨fun k => ?_, h.capacity, h.b1_le, h.b2_le⟩
      by_cases hk : k = key
      · subst hk
        right; left
        exact ⟨Dict.get?_erase_self _ _, hothers.2⟩
      · exact (h.once k).of_eq (erase_eq_none key)
          (fun hnone => (Dict.get?_set_ne _ _ hk).trans hnone) id id
    · refine ⟨fun k => ?_, h.capacity, h.b1_le, h.b2_le⟩
      by_cases hk : k = key
      · subst hk
        left
        exact hothers
      · refine (h.once k).of_eq (fun hnone => ?_) id id id
        exact (Dict.get?_set_ne _ _ hk).trans (erase_eq_none key hnone)
  · have hmove : ∀ {V : Type} (d : Dict K V) (k : K), d.get? k = none →
        (d.moveToEnd key).get? k = none := fun d k hnone =>
      (Dict.get?_moveToEnd d key k).trans hnone
    split
    · exact ⟨fun k => (h.once k).of_eq id (hmove _ k) id id, h.capacity, h.b1_le, h.b2_le⟩
    · split
      · refine ⟨fun k => (h.once k).of_eq id id (hmove _ k) id, h.capacity, ?_, h.b2_le⟩
        exact Nat.le_trans (Nat.le_of_eq (Dict.size_moveToEnd _ _)) h.b1_le
      · split
        · refine ⟨fun k => (h.once k).of_eq id id id (hmove _ k), h.capacity, h.b1_le, ?_⟩
          exact Nat.le_trans (Nat.le_of_eq (Dict.size_moveToEnd _ _)) h.b2_le
        · exact h

theorem ListsOk.touch (h : ListsOk cacheCapacity p) (keys : List K) :
    ListsOk cacheCapacity (p.touch keys) := by
  unfold ARCCachePolicy.touch
  induction keys.reverse generalizing p with
  | nil => exact h
  | cons key keys ih => exact ih (h.touchKey key)

/-- A candidate leaves its list for the ghosts of that list. -/
theorem once_evictCandidate {c : ArcCandidate K} (hp : ∀ k, p.Once k) (hhas : p.Has c) :
    ∀ k, (p.evictCandidate c).Once k := by
  intro k
  unfold ARCCachePolicy.Has at hhas
  unfold ARCCachePolicy.evictCandidate
  cases hfrom : c.fromT1 with
  | true =>
    rw [hfrom, if_pos rfl] at hhas
    rw [if_pos rfl]
    by_cases hk : k = c.key
    · subst hk
      have hne : p.t1.get? c.key ≠ none := by rw [hhas]; simp
      rcases hp c.key with ⟨ht2, -, hb2⟩ | ⟨hnone, -⟩ | ⟨hnone, -⟩ | ⟨hnone, -⟩
      · right; right; left
        exact ⟨Dict.get?_erase_self _ _, ht2, hb2⟩
      · exact absurd hnone hne
      · exact absurd hnone hne
      · exact absurd hnone hne
    · exact (hp k).of_eq (erase_eq_none c.key) id
        (fun hnone => (Dict.get?_set_ne _ _ hk).trans hnone) id
  | false =>
    rw [hfrom, if_neg Bool.false_ne_true] at hhas
    rw [if_neg Bool.false_ne_true]
    by_cases hk : k = c.key
    · subst hk
      have hne : p.t2.get? c.key ≠ none := by rw [hhas]; simp
      rcases hp c.key with ⟨hnone, -⟩ | ⟨ht1, hb1, -⟩ | ⟨-, hnone, -⟩ | ⟨-, hnone, -⟩
      · exact absurd hnone hne
      · right; right; right
        exact ⟨ht1, Dict.get?_erase_self _ _, hb1⟩
      · exact absurd hnone hne
      · exact absurd hnone hne
    · exact (hp k).of_eq id (erase_eq_none c.key) id
        (fun hnone => (Dict.get?_set_ne _ _ hk).trans hnone)

theorem once_evictCandidates : ∀ {cs : List (ArcCandidate K)} {p : ARCCachePolicy K F},
    p.Split → (∀ k, p.Once k) → (∀ c ∈ cs, p.Has c) → (cs.map ArcCandidate.key).Nodup →
    ∀ k, (cs.foldl evictCandidate p).Once k := by
  intro cs
  induction cs with
  | nil => intro p _ hp _ _; exact hp
  | cons c cs ih =>
    intro p hsplit hp hhas hnodup
    rw [List.map_cons, List.nodup_cons] at hnodup
    obtain ⟨hsplit', -, hrest⟩ := evictCandidate_spec hsplit (hhas c List.mem_cons_self)
    refine ih hsplit' (once_evictCandidate hp (hhas c List.mem_cons_self)) ?_ hnodup.2
    intro c' hc'
    refine hrest c' (fun heq => hnodup.1 ?_) (hhas c' (List.mem_cons_of_mem c hc'))
    rw [← heq]
    exact List.mem_map_of_mem hc'

theorem foldl_evictCandidate_capacity (cs : List (ArcCandidate K)) :
    ∀ p : ARCCachePolicy K F, (cs.foldl evictCandidate p).cacheCapacity = p.cacheCapacity := by
  induction cs with
  | nil => intro p; rfl
  | cons c cs ih =>
    intro p
    rw [List.foldl_cons, ih]
    unfold evictCandidate
    split
    · rfl
    · rfl

theorem ListsOk.evict {n : Nat} {protect : List K} {evicted : List (K × BlockStatus)}
    (h : ListsOk cacheCapacity p) (hevict : p.evict n protect = some (p', evicted)) :
    ListsOk cacheCapacity p' := by
  unfold ARCCachePolicy.evict at hevict
  split at hevict
  · cases hevict
    exact h
  · split at hevict
    · cases hevict
    · rename_i cs hsel
      cases hevict
      obtain ⟨hcs, -⟩ := selectCandidates_spec n [] _ (p := p)
        ⟨fun c hc => (nomatch hc), fun c hc => (nomatch hc), fun c hc => (nomatch hc),
          List.nodup_nil⟩ hsel
      have honce := once_evictCandidates h.split h.once hcs.has hcs.nodup
      have hcap : (cs.foldl evictCandidate p).cacheCapacity = cacheCapacity :=
        (foldl_evictCandidate_capacity cs p).trans h.capacity
      refine ⟨fun k => ?_, hcap, ?_, ?_⟩
      · exact (honce k).of_eq id id (Dict.get?_dropFirst_eq_none _) (Dict.get?_dropFirst_eq_none _)
      · show (Dict.dropFirst _ _).size ≤ cacheCapacity
        rw [Dict.size_dropFirst, hcap]
        omega
      · show (Dict.dropFirst _ _).size ≤ cacheCapacity
        rw [Dict.size_dropFirst, hcap]
        omega

theorem Reached.listsOk (h : Reached cacheCapacity p) : ListsOk cacheCapacity p := by
  induction h with
  | init => exact ⟨fun k => Or.inl ⟨rfl, rfl, rfl⟩, rfl, Nat.zero_le _, Nat.zero_le _⟩
  | insert key block _ hkey ih => exact ih.insert key block hkey
  | remove key _ hremove ih => exact ih.remove hremove
  | touch keys _ ih => exact ih.touch keys
  | evict n protect evicted _ hevict ih => exact ih.evict hevict
  | update key f _ ih => exact ih.update key f

/-! ## The target -/

/-- The target lies between zero and the capacity. -/
def TargetOk (p : ARCCachePolicy K ℚ) : Prop :=
  0 ≤ p.targetT1Size ∧ p.targetT1Size ≤ (p.cacheCapacity : ℚ)

theorem one_le_delta (a b : Nat) : (1 : ℚ) ≤ delta a b := by
  show (1 : ℚ) ≤ max ((1 : Nat) : ℚ) ((a : ℚ) / (b : ℚ))
  rw [Nat.cast_one]
  exact le_max_left _ _

theorem TargetOk.touchKey {p : ARCCachePolicy K ℚ} (h : p.TargetOk) (key : K) :
    (p.touchKey key).TargetOk := by
  obtain ⟨hzero, hle⟩ := h
  unfold ARCCachePolicy.touchKey
  split
  · split
    · exact ⟨hzero, hle⟩
    · exact ⟨hzero, hle⟩
  · split
    · exact ⟨hzero, hle⟩
    · split
      · -- a ghost of `t1` raises the target
        have hdelta := one_le_delta p.b2.size p.b1.size
        constructor
        · show (0 : ℚ) ≤ min (p.targetT1Size + delta p.b2.size p.b1.size) (p.cacheCapacity : ℚ)
          exact le_min (by linarith) (le_trans hzero hle)
        · show min (p.targetT1Size + delta p.b2.size p.b1.size) (p.cacheCapacity : ℚ) ≤
            (p.cacheCapacity : ℚ)
          exact min_le_right _ _
      · split
        · have hdelta := one_le_delta p.b1.size p.b2.size
          constructor
          · show (0 : ℚ) ≤ max (p.targetT1Size - delta p.b1.size p.b2.size) ((0 : Nat) : ℚ)
            rw [Nat.cast_zero]
            exact le_max_right _ _
          · show max (p.targetT1Size - delta p.b1.size p.b2.size) ((0 : Nat) : ℚ) ≤
              (p.cacheCapacity : ℚ)
            rw [Nat.cast_zero]
            exact max_le (by linarith) (le_trans hzero hle)
        · exact ⟨hzero, hle⟩

theorem TargetOk.touch {p : ARCCachePolicy K ℚ} (h : p.TargetOk) (keys : List K) :
    (p.touch keys).TargetOk := by
  unfold ARCCachePolicy.touch
  induction keys.reverse generalizing p with
  | nil => exact h
  | cons key keys ih => exact ih (h.touchKey key)

theorem foldl_evictCandidate_target (cs : List (ArcCandidate K)) :
    ∀ p : ARCCachePolicy K F, (cs.foldl evictCandidate p).targetT1Size = p.targetT1Size := by
  induction cs with
  | nil => intro p; rfl
  | cons c cs ih =>
    intro p
    rw [List.foldl_cons, ih]
    unfold evictCandidate
    split
    · rfl
    · rfl

/-- Eviction leaves the target and the capacity. -/
theorem evict_target {p p' : ARCCachePolicy K F} {n : Nat} {protect : List K}
    {evicted : List (K × BlockStatus)} (h : p.evict n protect = some (p', evicted)) :
    p'.targetT1Size = p.targetT1Size ∧ p'.cacheCapacity = p.cacheCapacity := by
  unfold ARCCachePolicy.evict at h
  split at h
  · cases h
    exact ⟨rfl, rfl⟩
  · split at h
    · cases h
    · cases h
      exact ⟨foldl_evictCandidate_target _ p, foldl_evictCandidate_capacity _ p⟩

theorem Reached.targetOk {p : ARCCachePolicy K ℚ} (h : Reached cacheCapacity p) : p.TargetOk := by
  induction h with
  | init =>
    constructor
    · show (0 : ℚ) ≤ ((0 : Nat) : ℚ)
      rw [Nat.cast_zero]
    · show ((0 : Nat) : ℚ) ≤ (cacheCapacity : ℚ)
      exact Nat.cast_le.mpr (Nat.zero_le _)
  | insert key block _ hkey ih => exact ih
  | remove key _ hremove ih =>
    unfold ARCCachePolicy.remove at hremove
    split at hremove
    · cases hremove
      exact ih
    · cases hremove
      exact ih
  | touch keys _ ih => exact ih.touch keys
  | evict n protect evicted _ hevict ih =>
    obtain ⟨htarget, hcap⟩ := evict_target hevict
    unfold TargetOk
    rw [htarget, hcap]
    exact ih
  | update key f _ ih => exact ih

/-- The list discipline of the policy. -/
structure Disciplined (cacheCapacity : Nat) (p : ARCCachePolicy K ℚ) : Prop where
  apart : [p.t1.keys, p.t2.keys, p.b1.keys, p.b2.keys].Pairwise List.Disjoint
  target_nonneg : 0 ≤ p.targetT1Size
  target_le : p.targetT1Size ≤ (cacheCapacity : ℚ)
  b1_le : p.b1.size ≤ cacheCapacity
  b2_le : p.b2.size ≤ cacheCapacity

theorem ListsOk.apart (h : ListsOk cacheCapacity p) :
    [p.t1.keys, p.t2.keys, p.b1.keys, p.b2.keys].Pairwise List.Disjoint := by
  have hpair : ∀ {V V' : Type} (d : Dict K V) (d' : Dict K V'),
      (∀ k, d.get? k = none ∨ d'.get? k = none) → d.keys.Disjoint d'.keys := by
    intro V V' d d' hnone k hk hk'
    rcases hnone k with hd | hd'
    · exact Dict.get?_eq_none_iff.mp hd hk
    · exact Dict.get?_eq_none_iff.mp hd' hk'
  have h12 := hpair p.t1 p.t2 fun k => by
    rcases h.once k with ⟨a, -, -⟩ | ⟨a, -, -⟩ | ⟨a, -, -⟩ | ⟨a, -, -⟩
    · exact Or.inr a
    · exact Or.inl a
    · exact Or.inl a
    · exact Or.inl a
  have h13 := hpair p.t1 p.b1 fun k => by
    rcases h.once k with ⟨-, b, -⟩ | ⟨a, -, -⟩ | ⟨a, -, -⟩ | ⟨a, -, -⟩
    · exact Or.inr b
    · exact Or.inl a
    · exact Or.inl a
    · exact Or.inl a
  have h14 := hpair p.t1 p.b2 fun k => by
    rcases h.once k with ⟨-, -, c⟩ | ⟨a, -, -⟩ | ⟨a, -, -⟩ | ⟨a, -, -⟩
    · exact Or.inr c
    · exact Or.inl a
    · exact Or.inl a
    · exact Or.inl a
  have h23 := hpair p.t2 p.b1 fun k => by
    rcases h.once k with ⟨a, -, -⟩ | ⟨-, b, -⟩ | ⟨-, b, -⟩ | ⟨-, b, -⟩
    · exact Or.inl a
    · exact Or.inr b
    · exact Or.inl b
    · exact Or.inl b
  have h24 := hpair p.t2 p.b2 fun k => by
    rcases h.once k with ⟨a, -, -⟩ | ⟨-, -, c⟩ | ⟨-, b, -⟩ | ⟨-, b, -⟩
    · exact Or.inl a
    · exact Or.inr c
    · exact Or.inl b
    · exact Or.inl b
  have h34 := hpair p.b1 p.b2 fun k => by
    rcases h.once k with ⟨-, b, -⟩ | ⟨-, b, -⟩ | ⟨-, -, c⟩ | ⟨-, -, c⟩
    · exact Or.inl b
    · exact Or.inl b
    · exact Or.inr c
    · exact Or.inl c
  simp [h12, h13, h14, h23, h24, h34]

theorem Reached.disciplined {p : ARCCachePolicy K ℚ} (h : Reached cacheCapacity p) :
    Disciplined cacheCapacity p where
  apart := h.listsOk.apart
  target_nonneg := h.targetOk.1
  target_le := h.listsOk.capacity ▸ h.targetOk.2
  b1_le := h.listsOk.b1_le
  b2_le := h.listsOk.b2_le

end ARCCachePolicy

/-! ## The calls of the manager -/

namespace CPUOffloadingManager

open ARCCachePolicy

variable {K F : Type} [DecidableEq K] [PyFloat F] {m : CPUOffloadingManager K (ARCCachePolicy K F)}
  {cacheCapacity : Nat}

theorem reached_prepareLoad : ∀ (keys : List K) (blocks : List Nat)
    (m : CPUOffloadingManager K (ARCCachePolicy K F)), ARCCachePolicy.Reached cacheCapacity m.policy →
    ARCCachePolicy.Reached cacheCapacity (m.prepareLoad arcPolicy keys blocks).1.policy := by
  intro keys
  induction keys with
  | nil => intro blocks m h; exact h
  | cons key keys ih =>
    intro blocks m h
    rw [prepareLoad]
    split
    · exact h
    · split
      · exact ih _ _ (h.update key _)
      · exact h

theorem reached_completeLoad : ∀ (keys : List K)
    (m : CPUOffloadingManager K (ARCCachePolicy K F)), ARCCachePolicy.Reached cacheCapacity m.policy →
    ARCCachePolicy.Reached cacheCapacity (m.completeLoad arcPolicy keys).1.policy := by
  intro keys
  induction keys with
  | nil => intro m h; exact h
  | cons key keys ih =>
    intro m h
    rw [completeLoad]
    split
    · exact h
    · split
      · exact ih _ (h.update key _)
      · exact h

theorem reached_storeSucceeded : ∀ (keys storedKeys : List K)
    (m : CPUOffloadingManager K (ARCCachePolicy K F)), ARCCachePolicy.Reached cacheCapacity m.policy →
    ARCCachePolicy.Reached cacheCapacity (m.storeSucceeded arcPolicy keys storedKeys).1.policy := by
  intro keys
  induction keys with
  | nil => intro storedKeys m h; exact h
  | cons key keys ih =>
    intro storedKeys m h
    rw [storeSucceeded]
    split
    · split
      · exact ih _ _ h
      · exact ih _ _ (h.update key _)
    · exact ih _ _ h

theorem reached_storeFailed : ∀ (keys : List K)
    (m : CPUOffloadingManager K (ARCCachePolicy K F)), ARCCachePolicy.Reached cacheCapacity m.policy →
    ARCCachePolicy.Reached cacheCapacity (m.storeFailed arcPolicy keys).1.policy := by
  intro keys
  induction keys with
  | nil => intro m h; exact h
  | cons key keys ih =>
    intro m h
    rw [storeFailed]
    split
    · split
      · exact ih _ h
      · split
        · exact h
        · rename_i policy hremove
          exact ih _ (h.remove key hremove)
    · exact ih _ h

/-- Inserting keys that are not in `t2`, some of them perhaps twice. -/
theorem reached_insertBlocks : ∀ (es : List (K × BlockStatus)) (p : ARCCachePolicy K F),
    (∀ e ∈ es, p.t2.get? e.1 = none) → ARCCachePolicy.Reached cacheCapacity p →
    ARCCachePolicy.Reached cacheCapacity (es.foldl (fun p e => arcPolicy.insert p e.1 e.2) p) := by
  intro es
  induction es with
  | nil => intro p _ h; exact h
  | cons e es ih =>
    intro p hes h
    refine ih _ (fun e' he' => ?_) (h.insert e.1 e.2 (hes e List.mem_cons_self))
    exact hes e' (List.mem_cons_of_mem e he')

theorem foldl_freeBlock_policy (evicted : List (K × BlockStatus)) :
    ∀ m : CPUOffloadingManager K (ARCCachePolicy K F),
      (evicted.foldl (fun m e => m.freeBlock e.2) m).policy = m.policy := by
  induction evicted with
  | nil => intro m; rfl
  | cons e evicted ih => intro m; exact ih _

theorem recordEvent_policy (keys : List K) (removed : Bool) :
    (m.recordEvent keys removed).policy = m.policy := by
  unfold recordEvent
  split
  · rfl
  · rfl

/-- The eviction before a store: a key that is not cached stays so. -/
theorem reached_makeRoom {m' : CPUOffloadingManager K (ARCCachePolicy K F)}
    {keysToStore keys toEvict : List K} (h : ARCCachePolicy.Reached cacheCapacity m.policy)
    (hroom : m.makeRoom arcPolicy keysToStore keys = some (m', toEvict)) :
    ARCCachePolicy.Reached cacheCapacity m'.policy ∧
      ∀ k, m.policy.get k = none → m'.policy.t2.get? k = none := by
  unfold makeRoom at hroom
  dsimp only at hroom
  split at hroom
  · split at hroom
    · cases hroom
    · rename_i policy evicted hevict
      cases hroom
      rw [foldl_freeBlock_policy]
      refine ⟨h.evict _ keys evicted hevict, fun k hk => ?_⟩
      have hget := (arcPolicy_lawful.evict h.listsOk.split hevict).2.2.2.2 k
      have hnone : policy.get k = none := by
        show arcPolicy.get policy k = none
        rw [hget]
        split
        · rfl
        · exact hk
      exact (Option.or_eq_none_iff.mp hnone).2
  · cases hroom
    exact ⟨h, fun k hk => (Option.or_eq_none_iff.mp hk).2⟩

theorem reached_prepareStore (keys : List K) (h : ARCCachePolicy.Reached cacheCapacity m.policy) :
    ARCCachePolicy.Reached cacheCapacity (m.prepareStore arcPolicy keys).1.policy := by
  unfold prepareStore
  dsimp only
  split
  · exact h
  · split
    · exact h
    · rename_i m' toEvict hroom
      obtain ⟨hreached, hnone⟩ := reached_makeRoom h hroom
      have hrecord : (m'.recordEvent toEvict true).policy = m'.policy := recordEvent_policy _ _
      split
      · show ARCCachePolicy.Reached cacheCapacity (m'.recordEvent toEvict true).policy
        rw [hrecord]
        exact hreached
      · rename_i m'' blocks hallocate
        have hpolicy : m''.policy = m'.policy := by
          unfold allocateBlocks at hallocate
          dsimp only at hallocate
          split at hallocate
          · cases hallocate
          · cases hallocate
            exact hrecord
        split
        · refine reached_insertBlocks _ _ (fun e he => ?_) (hpolicy ▸ hreached)
          -- only keys that were not cached are stored
          have hmem := List.of_mem_zip he
          have hkey := (List.mem_filter.mp hmem.1).2
          rw [hpolicy]
          exact hnone e.1 (Option.isNone_iff_eq_none.mp hkey)
        · exact hpolicy ▸ hreached

/-- Whatever the manager is asked, its policy takes a step that a policy may take. -/
theorem reached_call (c : Call K) (h : ARCCachePolicy.Reached cacheCapacity m.policy) :
    ARCCachePolicy.Reached cacheCapacity (m.call arcPolicy c).1.policy := by
  cases c with
  | lookup key => exact h
  | prepareLoad keys => exact reached_prepareLoad keys [] m h
  | completeLoad keys => exact reached_completeLoad keys m h
  | prepareStore keys => exact reached_prepareStore keys h
  | completeStore keys success =>
    show ARCCachePolicy.Reached cacheCapacity (m.completeStore arcPolicy keys success).1.policy
    unfold completeStore
    split
    · show ARCCachePolicy.Reached cacheCapacity
        ((m.storeSucceeded arcPolicy keys []).1.recordEvent _ false).policy
      rw [recordEvent_policy]
      exact reached_storeSucceeded keys [] m h
    · exact reached_storeFailed keys m h
  | touch keys => exact h.touch keys
  | takeEvents => exact h

/-- The manager after some calls. -/
def afterCalls (m : CPUOffloadingManager K (ARCCachePolicy K F)) (calls : List (Call K)) :
    CPUOffloadingManager K (ARCCachePolicy K F) :=
  calls.foldl (fun m c => (m.call arcPolicy c).1) m

theorem reached_afterCalls : ∀ (calls : List (Call K))
    (m : CPUOffloadingManager K (ARCCachePolicy K F)), ARCCachePolicy.Reached cacheCapacity m.policy →
    ARCCachePolicy.Reached cacheCapacity (afterCalls m calls).policy := by
  intro calls
  induction calls with
  | nil => intro m h; exact h
  | cons c calls ih => intro m h; exact ih _ (reached_call c h)

/-- A manager whose policy is adaptive, with exact numbers. -/
def initExact (numBlocks : Nat) (enableEvents : Bool) :
    CPUOffloadingManager K (ARCCachePolicy K ℚ) :=
  CPUOffloadingManager.init numBlocks (ARCCachePolicy.init numBlocks) enableEvents

/-- Every sequence of calls keeps the discipline of the lists: the calls bring the policy to
states that it reaches by its own operations, and in each of those, so also after every
single insertion, removal, touch and eviction, the lists are as they should be. -/
theorem arc_disciplined (numBlocks : Nat) (enableEvents : Bool) (calls : List (Call K)) :
    ARCCachePolicy.Reached numBlocks (afterCalls (initExact numBlocks enableEvents) calls).policy ∧
    ∀ p : ARCCachePolicy K ℚ, ARCCachePolicy.Reached numBlocks p →
      ARCCachePolicy.Disciplined numBlocks p :=
  ⟨reached_afterCalls calls _ .init, fun _ h => h.disciplined⟩

/-- Two blocks: one key is a ghost in the end, one is used twice, one is fresh. -/
theorem arc_disciplined_two :
    ARCCachePolicy.Disciplined 2 (afterCalls (initExact 2 false)
      [.prepareStore [1, 2], .completeStore [1, 2] true, .prepareStore [3],
        .completeStore [3] true, .touch [1], .touch [2]]).policy :=
  (arc_disciplined 2 false []).2 _ (arc_disciplined 2 false _).1

end CPUOffloadingManager
end VllmEngine

/-!
## The eviction contract

What `CachePolicy.evict` promises: `n` blocks that can go, or `None`, and then there are not
that many. `LRUCachePolicy` keeps the promise. `ARCCachePolicy` goes from `t1` to `t2` when
`t1` has no block that can go, but not from `t2` to `t1`: below the target it does not look
at `t1` at all, so it can return `None` with idle blocks in `t1` (`evictContract_policies`).
-/

namespace VllmEngine

set_option linter.unusedSectionVars false

variable {K : Type} [DecidableEq K]

/-- A block that may be evicted: no transfer reads it, and its key is not protected. -/
def Evictable (protect : List K) (e : K × BlockStatus) : Prop :=
  e.2.refCnt = 0 ∧ e.1 ∉ protect

instance (protect : List K) (e : K × BlockStatus) : Decidable (Evictable protect e) :=
  inferInstanceAs (Decidable (_ ∧ _))

/-- How many blocks of a list may be evicted. -/
def numEvictable (d : Dict K BlockStatus) (protect : List K) : Nat :=
  d.entries.countP fun e => Evictable protect e

/-- The policy object after a call of `evict`, which changes nothing when it returns `None`. -/
def CachePolicy.afterEvict {P : Type} (C : CachePolicy K P) (p : P) (n : Nat)
    (protect : List K) : P :=
  match C.evict p n protect with
  | some (p', _) => p'
  | none => p

/-- What `evict` promises, for a policy whose blocks that may be evicted are counted. -/
def EvictContract {P : Type} (C : CachePolicy K P) (available : P → List K → Nat) (p : P)
    (n : Nat) (protect : List K) : Prop :=
  match C.evict p n protect with
  | some (_, evicted) =>
    evicted.length = n ∧ (evicted.map Prod.fst).Nodup ∧
      (∀ e ∈ evicted, C.get p e.1 = some e.2 ∧ Evictable protect e) ∧
      ∀ k, C.get (C.afterEvict p n protect) k =
        if k ∈ evicted.map Prod.fst then none else C.get p k
  | none => C.afterEvict p n protect = p ∧ available p protect < n

/-- A lawful policy keeps the promise but for the condition on `None`. -/
theorem evictContract_of_lawful {P : Type} {C : CachePolicy K P} {Valid : P → Prop}
    {available : P → List K → Nat} {p : P} {n : Nat} {protect : List K} (hC : C.Lawful Valid)
    (hp : Valid p) : EvictContract C available p n protect ↔
      (C.evict p n protect = none → available p protect < n) := by
  unfold EvictContract CachePolicy.afterEvict
  cases h : C.evict p n protect with
  | none => exact ⟨fun hnone _ => hnone.2, fun hnone => ⟨rfl, hnone rfl⟩⟩
  | some result =>
    obtain ⟨p', evicted⟩ := result
    obtain ⟨-, hlen, hnodup, hmem, hget⟩ := hC.evict hp h
    refine ⟨fun _ hnone => absurd hnone (by simp), fun _ => ⟨hlen, hnodup, fun e he => ?_, hget⟩⟩
    obtain ⟨hin, hidle, hfree⟩ := hmem e.1 e.2 he
    exact ⟨hin, hidle, hfree⟩

/-! ## Least recently used -/

/-- `LRUCachePolicy` keeps the promise. -/
theorem evictContract_lru (p : LRUCachePolicy K) (n : Nat) (protect : List K) :
    EvictContract lruPolicy (fun p protect => numEvictable p.blocks protect) p n protect := by
  rw [evictContract_of_lawful lruPolicy_lawful trivial]
  intro hnone
  simp only [lruPolicy, LRUCachePolicy.evict] at hnone
  split at hnone
  · cases hnone
  · split at hnone
    · rename_i hlt
      unfold numEvictable
      rw [List.countP_eq_length_filter]
      rw [List.length_take] at hlt
      have hfew : (p.blocks.entries.filter fun e =>
          decide (e.2.refCnt = 0 ∧ e.1 ∉ protect)).length < n := by omega
      exact hfew
    · cases hnone

/-! ## Adaptive replacement -/

namespace ARCCachePolicy

variable {F : Type} [PyFloat F] {p : ARCCachePolicy K F} {protect : List K}

/-- How often `evict` looks at `t1` before it is below the target. -/
def room (p : ARCCachePolicy K F) (virtualT1Size : Int) : Nat :=
  (virtualT1Size - PyFloat.toInt p.targetT1Size + 1).toNat

/-- The entries that are left to choose from. -/
def numLeft (d : Dict K BlockStatus) (protect selected : List K) : Nat :=
  d.entries.countP fun e => decide (e.2.refCnt = 0 ∧ e.1 ∉ protect ∧ e.1 ∉ selected)

theorem numLeft_nil (d : Dict K BlockStatus) (protect : List K) :
    numLeft d protect [] = numEvictable d protect := by
  unfold numLeft numEvictable
  apply List.countP_congr
  intro e _
  rw [decide_eq_true_iff, decide_eq_true_iff]
  exact ⟨fun h => ⟨h.1, h.2.1⟩, fun h => ⟨h.1, h.2, List.not_mem_nil⟩⟩

theorem findCandidate_eq_none {d : Dict K BlockStatus} {protect selected : List K} :
    findCandidate d protect selected = none ↔ numLeft d protect selected = 0 := by
  unfold findCandidate numLeft
  rw [List.find?_eq_none, List.countP_eq_zero]

/-- Choosing a key leaves one entry less where the key is. -/
theorem numLeft_snoc : ∀ {es : List (K × BlockStatus)} {protect selected : List K} {key : K}
    {block : BlockStatus}, (es.map Prod.fst).Nodup → (key, block) ∈ es → block.refCnt = 0 →
    key ∉ protect → key ∉ selected →
    (es.countP fun e => decide (e.2.refCnt = 0 ∧ e.1 ∉ protect ∧ e.1 ∉ selected ++ [key])) + 1 =
      es.countP fun e => decide (e.2.refCnt = 0 ∧ e.1 ∉ protect ∧ e.1 ∉ selected) := by
  intro es
  induction es with
  | nil => intro protect selected key block _ hmem; exact absurd hmem List.not_mem_nil
  | cons e es ih =>
    intro protect selected key block hnodup hmem hidle hfree hnew
    rw [List.map_cons, List.nodup_cons] at hnodup
    rw [List.countP_cons, List.countP_cons]
    rcases List.mem_cons.mp hmem with rfl | htail
    · -- the others have other keys
      have hrest : (es.countP fun e =>
            decide (e.2.refCnt = 0 ∧ e.1 ∉ protect ∧ e.1 ∉ selected ++ [key])) =
          es.countP fun e => decide (e.2.refCnt = 0 ∧ e.1 ∉ protect ∧ e.1 ∉ selected) := by
        apply List.countP_congr
        intro e he
        have hne : e.1 ≠ key := by
          intro heq
          rw [← heq] at hnodup
          exact hnodup.1 (List.mem_map.mpr ⟨e, he, rfl⟩)
        simp [hne]
      rw [hrest]
      simp [hidle, hfree, hnew]
    · have hne : e.1 ≠ key := by
        intro heq
        rw [heq] at hnodup
        exact hnodup.1 (List.mem_map.mpr ⟨(key, block), htail, rfl⟩)
      rw [← ih hnodup.2 htail hidle hfree hnew]
      simp only [List.mem_append, List.mem_singleton, hne, or_false]
      omega

/-- A key that is not in the dictionary does not count. -/
theorem numLeft_snoc_of_none {d : Dict K BlockStatus} {selected : List K} {key : K}
    (h : d.get? key = none) :
    numLeft d protect (selected ++ [key]) = numLeft d protect selected := by
  unfold numLeft
  apply List.countP_congr
  intro e he
  have hne : e.1 ≠ key := by
    intro heq
    rw [Dict.get?_eq_none_iff] at h
    rw [← heq] at h
    exact h (List.mem_map.mpr ⟨e, he, rfl⟩)
  simp [hne]

/-- A found candidate is one of the entries left. -/
theorem numLeft_find {d : Dict K BlockStatus} {selected : List K} {key : K}
    {block : BlockStatus} (h : findCandidate d protect selected = some (key, block)) :
    numLeft d protect (selected ++ [key]) + 1 = numLeft d protect selected := by
  obtain ⟨hget, hidle, hfree, hnew⟩ := findCandidate_spec h
  exact numLeft_snoc d.nodup ((Dict.get?_eq_some_iff d).mp hget) hidle hfree hnew

/-- When the rounds of `evict` fail: `t1` is looked at until it is below the target, and only
`t2` from then on. -/
theorem selectCandidates_eq_none (hp : p.Split) : ∀ (n : Nat) (cs : List (ArcCandidate K))
    (v : Int), selectCandidates p protect n cs v = none ↔
      min (numLeft p.t1 protect (cs.map ArcCandidate.key)) (p.room v) +
        numLeft p.t2 protect (cs.map ArcCandidate.key) < n := by
  intro n
  induction n with
  | zero => intro cs v; simp [selectCandidates]
  | succ n ih =>
    intro cs v
    rw [selectCandidates]
    have hkeys : ∀ (key : K) (block : BlockStatus) (fromT1 : Bool),
        (cs ++ [(⟨key, block, fromT1⟩ : ArcCandidate K)]).map ArcCandidate.key = cs.map ArcCandidate.key ++ [key] := by
      intro key block fromT1
      rw [List.map_append]
      rfl
    -- a choice from `t2`
    have hsecond : ∀ res : Option (List (ArcCandidate K)),
        (findCandidate p.t2 protect (cs.map ArcCandidate.key) = none → res = none) →
        (∀ key block, findCandidate p.t2 protect (cs.map ArcCandidate.key) = some (key, block) →
          res = selectCandidates p protect n (cs ++ [(⟨key, block, false⟩ : ArcCandidate K)]) v) →
        min (numLeft p.t1 protect (cs.map ArcCandidate.key)) (p.room v) = 0 →
        (res = none ↔
          min (numLeft p.t1 protect (cs.map ArcCandidate.key)) (p.room v) +
            numLeft p.t2 protect (cs.map ArcCandidate.key) < n + 1) := by
      intro res hnone hsome hzero
      cases hfind : findCandidate p.t2 protect (cs.map ArcCandidate.key) with
      | none =>
        rw [hnone hfind, findCandidate_eq_none.mp hfind, hzero]
        simp
      | some found =>
        obtain ⟨key, block⟩ := found
        rw [hsome key block hfind]
        obtain ⟨hget, -⟩ := findCandidate_spec hfind
        have hother : p.t1.get? key = none :=
          (hp key).resolve_right (by rw [hget]; simp)
        rw [ih, hkeys, numLeft_snoc_of_none hother, hzero]
        have := numLeft_find hfind
        omega
    by_cases hlook : PyFloat.toInt p.targetT1Size ≤ v
    · rw [if_pos hlook]
      cases hfind : findCandidate p.t1 protect (cs.map ArcCandidate.key) with
      | none =>
        refine hsecond _ (fun hf => by rw [hf]) (fun key block hf => by rw [hf]) ?_
        rw [findCandidate_eq_none.mp hfind]
        exact Nat.zero_min _
      | some found =>
        obtain ⟨key, block⟩ := found
        dsimp only
        obtain ⟨hget, -⟩ := findCandidate_spec hfind
        have hother : p.t2.get? key = none :=
          (hp key).resolve_left (by rw [hget]; simp)
        rw [ih, hkeys, numLeft_snoc_of_none hother]
        have hleft := numLeft_find hfind
        have hroom : p.room v = p.room (v - 1) + 1 := by
          unfold room
          omega
        rw [← hleft, hroom]
        omega
    · rw [if_neg hlook]
      refine hsecond _ (fun hf => by rw [hf]) (fun key block hf => by rw [hf]) ?_
      have hroom : p.room v = 0 := by
        unfold room
        omega
      rw [hroom]
      exact Nat.min_zero _

/-- The blocks of the policy that may be evicted. -/
def available (p : ARCCachePolicy K F) (protect : List K) : Nat :=
  numEvictable p.t1 protect + numEvictable p.t2 protect

/-- The blocks that `evict` gets to: those of `t2`, and of `t1` as many as it may give before
it is below the target. -/
def withinReach (p : ARCCachePolicy K F) (protect : List K) : Nat :=
  min (numEvictable p.t1 protect) (p.room p.t1.size) + numEvictable p.t2 protect

theorem evict_eq_none (hp : p.Split) (n : Nat) :
    p.evict n protect = none ↔ p.withinReach protect < n := by
  unfold ARCCachePolicy.evict withinReach
  by_cases hn : n = 0
  · rw [if_pos hn, hn]
    simp
  · rw [if_neg hn, ← numLeft_nil, ← numLeft_nil]
    have hsel : selectCandidates p protect n _ p.t1.size = none ↔ _ :=
      selectCandidates_eq_none hp n [] p.t1.size
    rw [List.map_nil] at hsel
    rw [← hsel]
    cases selectCandidates p protect n [] p.t1.size with
    | none => simp
    | some cs => simp

end ARCCachePolicy

/-- Both policies: the least recently used one keeps the promise, and the adaptive one just
where the blocks it gets to are enough, or all blocks that may be evicted are too few. -/
theorem evictContract_policies {F : Type} [PyFloat F] (cacheCapacity n : Nat)
    (protect : List K) (q : LRUCachePolicy K) (p : ARCCachePolicy K F)
    (hp : ARCCachePolicy.Reached cacheCapacity p) :
    EvictContract lruPolicy (fun q protect => numEvictable q.blocks protect) q n protect ∧
    (EvictContract arcPolicy ARCCachePolicy.available p n protect ↔
      n ≤ p.withinReach protect ∨ p.available protect < n) := by
  refine ⟨evictContract_lru q n protect, ?_⟩
  rw [evictContract_of_lawful arcPolicy_lawful hp.listsOk.split]
  have hnone : arcPolicy.evict p n protect = none ↔ p.withinReach protect < n :=
    ARCCachePolicy.evict_eq_none hp.listsOk.split n
  rw [hnone]
  constructor
  · intro h
    rcases Nat.lt_or_ge (p.withinReach protect) n with hlt | hge
    · right
      exact h hlt
    · left
      exact hge
  · intro h hlt
    rcases h with hge | hfew
    · exact absurd hlt (Nat.not_lt.mpr hge)
    · exact hfew

/-- A cache of two blocks: the key 1 has been evicted and asked for again twice, which raises
the target to two; the key 2 is used twice and being read; the key 3 is idle. -/
def pinnedT2 : ARCCachePolicy Nat ℚ :=
  (CPUOffloadingManager.afterCalls (CPUOffloadingManager.initExact 2 false)
    [.prepareStore [1, 2], .completeStore [1, 2] true, .prepareStore [3],
      .completeStore [3] true, .touch [1], .touch [1], .touch [2], .prepareLoad [2]]).policy

theorem pinnedT2_reached : ARCCachePolicy.Reached 2 pinnedT2 :=
  CPUOffloadingManager.reached_afterCalls _ _ .init

/-- The policies in states that calls of the manager lead to. -/
theorem evictContract_policies_pinned :
    EvictContract lruPolicy (fun q protect => numEvictable q.blocks protect)
        (LRUCachePolicy.init.insert 1 ⟨0, 0⟩) 1 [4] ∧
      (EvictContract arcPolicy ARCCachePolicy.available pinnedT2 1 [4] ↔
        1 ≤ pinnedT2.withinReach [4] ∨ pinnedT2.available [4] < 1) :=
  evictContract_policies 2 1 _ _ pinnedT2 pinnedT2_reached

/-- The key 3 could go, and `evict` returns `None`: the store of the key 4 is refused. -/
theorem pinned_t2_hides_t1 : ARCCachePolicy.Reached 2 pinnedT2 ∧
    pinnedT2.available [4] = 1 ∧ pinnedT2.evict 1 [4] = none ∧
    ¬ EvictContract arcPolicy ARCCachePolicy.available pinnedT2 1 [4] := by
  have havailable : pinnedT2.available [4] = 1 := by decide
  have hevict : arcPolicy.evict pinnedT2 1 [4] = none :=
    (ARCCachePolicy.evict_eq_none pinnedT2_reached.listsOk.split 1).mpr (by decide +kernel)
  refine ⟨pinnedT2_reached, havailable, hevict, fun h => ?_⟩
  unfold EvictContract at h
  rw [hevict, havailable] at h
  exact absurd h.2 (by decide)

end VllmEngine
