import VllmEngine.Kv.Lookup

/-!
# Hybrid lookup

`HybridKVCacheCoordinator` (`vllm/v1/core/kv_cache_coordinator.py`): the groups
of a model are gathered into attention groups of equal specs, full attention
first, and `find_longest_cache_hit` passes one shared hit length through their
lookups until none of them shortens it. Full attention looks up once; later
rounds only cut its length.

This file holds the definitions and what `verify_and_split_kv_cache_groups`
guarantees (`SplitOk`): the attention groups have distinct specs and partition
the groups.
-/

namespace VllmEngine

variable {H : Type} [DecidableEq H]

/-- An entry of `attention_groups`; the manager class is that of the spec. -/
structure AttentionGroup where
  spec : KVCacheSpec
  groupIds : List GroupId
deriving DecidableEq, Repr

/-- The inner loop of `verify_and_split_kv_cache_groups`: group `i` joins the
entry of its spec, or opens one. -/
def addToGroups (i : GroupId) (spec : KVCacheSpec) : List AttentionGroup → List AttentionGroup
  | [] => [⟨spec, [i]⟩]
  | a :: as =>
    if a.spec = spec then ⟨a.spec, a.groupIds ++ [i]⟩ :: as else a :: addToGroups i spec as

/-- The entries after the groups `i, i + 1, …` with the given specs. -/
def splitFrom : GroupId → List KVCacheSpec → List AttentionGroup → List AttentionGroup
  | _, [], as => as
  | i, s :: specs, as => splitFrom (i + 1) specs (addToGroups i s as)

structure HybridCoordinator where
  specs : List KVCacheSpec
  hashBlockSize : Nat
  useEagle : Bool
  attentionGroups : List AttentionGroup
  lcmBlockSize : Nat
deriving DecidableEq, Repr

namespace HybridCoordinator

/-- `HybridKVCacheCoordinator.__init__` with
`verify_and_split_kv_cache_groups`. The stable sort by
`not isinstance(spec, FullAttentionSpec)` puts full attention first. -/
def init (specs : List KVCacheSpec) (hashBlockSize : Nat) (useEagle : Bool) :
    Except Python.Error HybridCoordinator := do
  Python.require (specs.all fun s => s.blockSize % hashBlockSize = 0)
    "block_size must be divisible by hash_block_size"
  let groups := splitFrom 0 specs []
  Python.require (decide (groups.length > 1))
    "HybridKVCacheCoordinator requires at least two attention groups."
  return { specs := specs
           hashBlockSize := hashBlockSize
           useEagle := useEagle
           attentionGroups := groups.filter (·.spec.isFullAttention)
             ++ groups.filter (!·.spec.isFullAttention)
           lcmBlockSize := (groups.map (·.spec.blockSize)).foldl Nat.lcm 1 }

/-- `hit_blocks_by_group`. -/
abbrev Hits := GroupId → Option (List BlockId)

/-- `for group_id, blocks in zip(group_ids, hit_blocks)`: store the columns. -/
def setHits (hits : Hits) (groupIds : List GroupId) (rows : List Row) : Hits := fun g =>
  if g ∈ groupIds then some (column rows (groupIds.idxOf g)) else hits g

/-- `_get_block_hashes`. -/
def hashesOf (c : HybridCoordinator) (hashes : List H) (spec : KVCacheSpec) : List (List H) :=
  blockHashList hashes c.hashBlockSize spec.blockSize

/-- The body of the `for` loop of `find_longest_cache_hit`. -/
def visitGroup (c : HybridCoordinator) (p : BlockPool H) (hashes : List H) (st : Hits × Nat)
    (a : AttentionGroup) : Except Python.Error (Hits × Nat) :=
  if a.spec.isFullAttention ∧ (a.groupIds.head?.bind st.1).isSome then
    -- full attention looks up once and is cut afterwards
    .ok (st.1, st.2 / a.spec.blockSize * a.spec.blockSize)
  else do
    let rows ← findLongestCacheHit p (c.hashesOf hashes a.spec) st.2 a.groupIds a.spec c.useEagle
      c.lcmBlockSize
    return (setHits st.1 a.groupIds rows, rows.length * a.spec.blockSize)

/-- `is_simple_hybrid`. -/
def isSimpleHybrid (c : HybridCoordinator) : Bool :=
  c.attentionGroups.length = 2 ∧ (c.attentionGroups.head?.map (·.spec.isFullAttention)) = some true

/-- The `while True` loop. Every round but the last lowers `hitLength`, so with
`hitLength ≤ bound` the round at bound `0` is the last one. -/
def hitLoop (c : HybridCoordinator) (p : BlockPool H) (hashes : List H) :
    Nat → Hits → Nat → Except Python.Error (Hits × Nat)
  | 0, hits, hitLength => do
    let (hits, _) ← c.attentionGroups.foldlM (c.visitGroup p hashes) (hits, hitLength)
    return (hits, hitLength)
  | bound + 1, hits, hitLength => do
    let (hits, currHitLength) ← c.attentionGroups.foldlM (c.visitGroup p hashes) (hits, hitLength)
    if currHitLength ≥ hitLength then return (hits, hitLength)
    else if c.isSimpleHybrid then return (hits, currHitLength)
    else c.hitLoop p hashes bound hits currHitLength

/-- The truncation after the loop: the first attention group, if it is full
attention. -/
def truncateFirst (c : HybridCoordinator) (hits : Hits) (hitLength : Nat) : Hits :=
  match c.attentionGroups with
  | a :: _ =>
    if a.spec.isFullAttention then fun g =>
      if g ∈ a.groupIds then (hits g).map (·.take (hitLength / a.spec.blockSize)) else hits g
    else hits
  | [] => hits

/-- `HybridKVCacheCoordinator.find_longest_cache_hit`. -/
def findLongestHit (c : HybridCoordinator) (p : BlockPool H) (hashes : List H)
    (maxCacheHitLength : Nat) : Except Python.Error (List (List BlockId) × Nat) := do
  let (hits, hitLength) ← c.hitLoop p hashes maxCacheHitLength (fun _ => none) maxCacheHitLength
  let hits := c.truncateFirst hits hitLength
  return ((List.range c.specs.length).map fun g => (hits g).getD [], hitLength)

end HybridCoordinator

/-! ## The attention groups partition the groups -/

/-- The entries stand for the groups `0, …, n - 1` of `specs`. -/
structure SplitOk (specs : List KVCacheSpec) (n : Nat) (as : List AttentionGroup) : Prop where
  distinct : as.Pairwise fun a b => a.spec ≠ b.spec
  nonempty : ∀ a ∈ as, a.groupIds ≠ []
  nodup : ∀ a ∈ as, a.groupIds.Nodup
  spec_eq : ∀ a ∈ as, ∀ g ∈ a.groupIds, g < n ∧ specs[g]? = some a.spec
  cover : ∀ g < n, ∃ a ∈ as, g ∈ a.groupIds

variable {s : KVCacheSpec} {specs : List KVCacheSpec} {as : List AttentionGroup}
  {c : HybridCoordinator}

theorem mem_addToGroups {i : GroupId} :
    ∀ {as : List AttentionGroup} {b : AttentionGroup}, b ∈ addToGroups i s as →
      b ∈ as ∨ (b.spec = s ∧ (b.groupIds = [i] ∨
        ∃ a ∈ as, a.spec = s ∧ b.groupIds = a.groupIds ++ [i])) := by
  intro as
  induction as with
  | nil =>
    intro b hb
    rw [addToGroups, List.mem_singleton] at hb
    subst hb
    exact Or.inr ⟨rfl, Or.inl rfl⟩
  | cons a as ih =>
    intro b hb
    rw [addToGroups] at hb
    by_cases ha : a.spec = s
    · rw [if_pos ha] at hb
      rcases List.mem_cons.mp hb with rfl | hb
      · exact Or.inr ⟨ha, Or.inr ⟨a, List.mem_cons_self, ha, rfl⟩⟩
      · exact Or.inl (List.mem_cons_of_mem a hb)
    · rw [if_neg ha] at hb
      rcases List.mem_cons.mp hb with rfl | hb
      · exact Or.inl List.mem_cons_self
      · rcases ih hb with h | ⟨h1, h2 | ⟨a', ha', h3⟩⟩
        · exact Or.inl (List.mem_cons_of_mem a h)
        · exact Or.inr ⟨h1, Or.inl h2⟩
        · exact Or.inr ⟨h1, Or.inr ⟨a', List.mem_cons_of_mem a ha', h3⟩⟩

/-- The joined entry is there, and every old id is still in some entry. -/
theorem addToGroups_cover {i : GroupId} :
    ∀ (as : List AttentionGroup), (∃ b ∈ addToGroups i s as, i ∈ b.groupIds) ∧
      ∀ a ∈ as, ∀ g ∈ a.groupIds, ∃ b ∈ addToGroups i s as, g ∈ b.groupIds := by
  intro as
  induction as with
  | nil => exact ⟨⟨⟨s, [i]⟩, by simp [addToGroups], by simp⟩, fun a ha => by cases ha⟩
  | cons a as ih =>
    obtain ⟨⟨b, hb, hib⟩, hold⟩ := ih
    rw [addToGroups]
    by_cases ha : a.spec = s
    · rw [if_pos ha]
      refine ⟨⟨_, List.mem_cons_self, by simp⟩, ?_⟩
      intro a' ha' g hg
      rcases List.mem_cons.mp ha' with rfl | ha'
      · exact ⟨_, List.mem_cons_self, by simp [hg]⟩
      · exact ⟨a', List.mem_cons_of_mem _ ha', hg⟩
    · rw [if_neg ha]
      refine ⟨⟨b, List.mem_cons_of_mem _ hb, hib⟩, ?_⟩
      intro a' ha' g hg
      rcases List.mem_cons.mp ha' with rfl | ha'
      · exact ⟨a', List.mem_cons_self, hg⟩
      · obtain ⟨b', hb', hgb⟩ := hold a' ha' g hg
        exact ⟨b', List.mem_cons_of_mem _ hb', hgb⟩

theorem addToGroups_distinct {i : GroupId} :
    ∀ (as : List AttentionGroup), as.Pairwise (fun a b => a.spec ≠ b.spec) →
      (addToGroups i s as).Pairwise fun a b => a.spec ≠ b.spec := by
  intro as
  induction as with
  | nil => intro _; exact List.pairwise_singleton _ _
  | cons a as ih =>
    intro h
    obtain ⟨hhead, htail⟩ := List.pairwise_cons.mp h
    rw [addToGroups]
    by_cases ha : a.spec = s
    · rw [if_pos ha]
      exact List.pairwise_cons.mpr ⟨hhead, htail⟩
    · rw [if_neg ha]
      refine List.pairwise_cons.mpr ⟨?_, ih htail⟩
      intro b hb
      rcases mem_addToGroups hb with hb | ⟨hb, -⟩
      · exact hhead b hb
      · rw [hb]
        exact ha

theorem splitOk_add {n : Nat} (h : SplitOk specs n as) (hs : specs[n]? = some s) :
    SplitOk specs (n + 1) (addToGroups n s as) where
  distinct := addToGroups_distinct as h.distinct
  nonempty := by
    intro b hb
    rcases mem_addToGroups hb with hb | ⟨-, hb | ⟨a, -, -, hb⟩⟩
    · exact h.nonempty b hb
    · simp [hb]
    · simp [hb]
  nodup := by
    intro b hb
    rcases mem_addToGroups hb with hb | ⟨-, hb | ⟨a, ha, -, hb⟩⟩
    · exact h.nodup b hb
    · simp [hb]
    · rw [hb]
      refine List.nodup_append.mpr ⟨h.nodup a ha, List.nodup_singleton n, ?_⟩
      intro g hg g' hg'
      rw [List.mem_singleton.mp hg']
      exact Nat.ne_of_lt (h.spec_eq a ha g hg).1
  spec_eq := by
    intro b hb g hg
    rcases mem_addToGroups hb with hb | ⟨hbs, hb | ⟨a, ha, has, hb⟩⟩
    · obtain ⟨h1, h2⟩ := h.spec_eq b hb g hg
      exact ⟨Nat.lt_succ_of_lt h1, h2⟩
    · rw [hb, List.mem_singleton] at hg
      subst hg
      exact ⟨Nat.lt_succ_self g, by rw [hs, hbs]⟩
    · rw [hb, List.mem_append, List.mem_singleton] at hg
      rcases hg with hg | rfl
      · obtain ⟨h1, h2⟩ := h.spec_eq a ha g hg
        exact ⟨Nat.lt_succ_of_lt h1, by rw [h2, has, hbs]⟩
      · exact ⟨Nat.lt_succ_self g, by rw [hs, hbs]⟩
  cover := by
    intro g hg
    obtain ⟨hnew, hold⟩ := addToGroups_cover (i := n) (s := s) as
    by_cases hgn : g = n
    · subst hgn
      exact hnew
    · obtain ⟨a, ha, hga⟩ := h.cover g (by omega)
      exact hold a ha g hga

theorem splitFrom_ok {all : List KVCacheSpec} :
    ∀ (rest : List KVCacheSpec) (n : Nat) (as : List AttentionGroup), all.drop n = rest →
      SplitOk all n as → SplitOk all (n + rest.length) (splitFrom n rest as) := by
  intro rest
  induction rest with
  | nil => intro n as _ h; exact h
  | cons s rest ih =>
    intro n as hdrop h
    have hs : all[n]? = some s := by
      have := congrArg (fun l => l[0]?) hdrop
      simpa using this
    have hdrop' : all.drop (n + 1) = rest := by
      rw [← List.drop_drop, hdrop]
      rfl
    have := ih (n + 1) _ hdrop' (splitOk_add h hs)
    rw [splitFrom, List.length_cons]
    rwa [show n + (rest.length + 1) = n + 1 + rest.length by omega]

/-- What `__init__` guarantees about a coordinator with positive block sizes. -/
structure HybridOk (c : HybridCoordinator) : Prop where
  split : SplitOk c.specs c.specs.length c.attentionGroups
  fullFirst : ∃ fulls others, c.attentionGroups = fulls ++ others ∧
    (∀ a ∈ fulls, a.spec.isFullAttention = true) ∧ ∀ a ∈ others, a.spec.isFullAttention = false
  two_le : 2 ≤ c.attentionGroups.length
  blockSize_pos : ∀ a ∈ c.attentionGroups, 0 < a.spec.blockSize
  hash_dvd : ∀ a ∈ c.attentionGroups, c.hashBlockSize ∣ a.spec.blockSize
  dvd_lcm : ∀ a ∈ c.attentionGroups, a.spec.blockSize ∣ c.lcmBlockSize
  lcm_pos : 0 < c.lcmBlockSize

theorem foldl_lcm_dvd : ∀ (l : List Nat) (m : Nat),
    m ∣ l.foldl Nat.lcm m ∧ ∀ n ∈ l, n ∣ l.foldl Nat.lcm m := by
  intro l
  induction l with
  | nil => intro m; exact ⟨Nat.dvd_refl m, fun n hn => by cases hn⟩
  | cons k l ih =>
    intro m
    obtain ⟨h1, h2⟩ := ih (m.lcm k)
    refine ⟨Nat.dvd_trans (Nat.dvd_lcm_left m k) h1, ?_⟩
    intro n hn
    rcases List.mem_cons.mp hn with rfl | hn
    · exact Nat.dvd_trans (Nat.dvd_lcm_right m n) h1
    · exact h2 n hn

theorem foldl_lcm_pos : ∀ (l : List Nat) (m : Nat), 0 < m → (∀ n ∈ l, 0 < n) →
    0 < l.foldl Nat.lcm m := by
  intro l
  induction l with
  | nil => intro m hm _; exact hm
  | cons k l ih =>
    intro m hm h
    exact ih _ (Nat.lcm_pos hm (h k List.mem_cons_self))
      fun n hn => h n (List.mem_cons_of_mem k hn)

/-- Sorting full attention first keeps what the split guarantees. -/
theorem SplitOk.perm {n : Nat} {bs : List AttentionGroup} (h : SplitOk specs n as) (hp : bs.Perm as) :
    SplitOk specs n bs where
  distinct := (hp.pairwise_iff fun {a b} hab => Ne.symm hab).mpr h.distinct
  nonempty := fun a ha => h.nonempty a (hp.mem_iff.mp ha)
  nodup := fun a ha => h.nodup a (hp.mem_iff.mp ha)
  spec_eq := fun a ha => h.spec_eq a (hp.mem_iff.mp ha)
  cover := by
    intro g hg
    obtain ⟨a, ha, hga⟩ := h.cover g hg
    exact ⟨a, hp.mem_iff.mpr ha, hga⟩

/-- Two entries that share a group are the same entry. -/
theorem SplitOk.eq_of_mem {n : Nat} (h : SplitOk specs n as) {a b : AttentionGroup} (ha : a ∈ as)
    (hb : b ∈ as) {g : GroupId} (hga : g ∈ a.groupIds) (hgb : g ∈ b.groupIds) : a = b := by
  have hspec : a.spec = b.spec := by
    have h1 := (h.spec_eq a ha g hga).2
    have h2 := (h.spec_eq b hb g hgb).2
    rw [h1] at h2
    exact Option.some.inj h2
  have hnodup : (as.map (·.spec)).Nodup := List.pairwise_map.mpr h.distinct
  exact List.inj_on_of_nodup_map hnodup ha hb hspec

theorem init_hybridOk {hashBlockSize : Nat} {useEagle : Bool} (hpos : ∀ s ∈ specs, 0 < s.blockSize)
    (h : HybridCoordinator.init specs hashBlockSize useEagle = .ok c) : HybridOk c := by
  unfold HybridCoordinator.init at h
  simp only [Raises.bind_eq_ok, Raises.pure_eq_ok] at h
  obtain ⟨u, hdvd, v, htwo, rfl⟩ := h
  have hdvd := require_ok hdvd
  have htwo := require_ok htwo
  have hsplit : SplitOk specs specs.length (splitFrom 0 specs []) := by
    have h0 : SplitOk specs 0 [] :=
      ⟨List.Pairwise.nil, by simp, by simp, by simp, by simp⟩
    have := splitFrom_ok specs 0 [] rfl h0
    rwa [Nat.zero_add] at this
  have hperm := List.filter_append_perm (fun a : AttentionGroup => a.spec.isFullAttention)
    (splitFrom 0 specs [])
  -- every spec of an entry is one of the groups' specs
  have hmem : ∀ a ∈ splitFrom 0 specs [], a.spec ∈ specs := by
    intro a ha
    obtain ⟨g, hg⟩ := List.exists_mem_of_ne_nil _ (hsplit.nonempty a ha)
    exact List.mem_of_getElem? (hsplit.spec_eq a ha g hg).2
  refine ⟨hsplit.perm hperm, ⟨_, _, rfl, ?_, ?_⟩, ?_, ?_, ?_, ?_, ?_⟩
  · intro a ha
    exact (List.mem_filter.mp ha).2
  · intro a ha
    simpa using (List.mem_filter.mp ha).2
  · rw [hperm.length_eq]
    exact of_decide_eq_true htwo
  · intro a ha
    exact hpos _ (hmem a (hperm.mem_iff.mp ha))
  · intro a ha
    have := List.all_eq_true.mp hdvd _ (hmem a (hperm.mem_iff.mp ha))
    exact Nat.dvd_of_mod_eq_zero (of_decide_eq_true this)
  · intro a ha
    exact (foldl_lcm_dvd _ 1).2 _ (List.mem_map.mpr ⟨a, hperm.mem_iff.mp ha, rfl⟩)
  · refine foldl_lcm_pos _ 1 Nat.one_pos ?_
    intro n hn
    obtain ⟨a, ha, rfl⟩ := List.mem_map.mp hn
    exact hpos _ (hmem a ha)

theorem init_fields {hashBlockSize : Nat} {useEagle : Bool}
    (hinit : HybridCoordinator.init specs hashBlockSize useEagle = .ok c) :
    c.specs = specs ∧ c.hashBlockSize = hashBlockSize ∧ c.useEagle = useEagle := by
  simp only [HybridCoordinator.init, Raises.bind_eq_ok, Raises.pure_eq_ok] at hinit
  obtain ⟨_, _, _, _, rfl⟩ := hinit
  exact ⟨rfl, rfl, rfl⟩

/-- The specs of the entries are the specs of the groups. -/
theorem HybridOk.mem_specs_iff (hok : HybridOk c) :
    s ∈ c.specs ↔ ∃ a ∈ c.attentionGroups, a.spec = s := by
  constructor
  · intro hs
    obtain ⟨g, hg⟩ := List.getElem?_of_mem hs
    obtain ⟨a, ha, hga⟩ := hok.split.cover g (List.getElem?_eq_some_iff.mp hg).1
    refine ⟨a, ha, ?_⟩
    have := (hok.split.spec_eq a ha g hga).2
    rw [hg] at this
    exact (Option.some.inj this).symm
  · rintro ⟨a, ha, rfl⟩
    obtain ⟨g, hg⟩ := List.exists_mem_of_ne_nil _ (hok.split.nonempty a ha)
    exact List.mem_of_getElem? (hok.split.spec_eq a ha g hg).2

end VllmEngine
