import VllmEngine.Kv.ManagerAccounting
import VllmEngine.Kv.HybridLookup
import VllmEngine.Kv.Manager

/-!
# KV block accounting over whole runs

The KV cache manager as a state machine over the calls that the scheduler makes
(`KvOp`). Every call is a sequence of loops over the managers, and a loop of
steps that each keep the balance keeps it for all managers together
(`mapManagers_keeps`). The hit blocks that a call hands to `allocate_slots` are
blocks of the pool and occur once in a list, because a block is filed under one
key (`getComputedBlocks_valid`).

> `accounting_run`: in every run in which external tokens only come with hit
> lists that fit them, counts, lists and free queue agree in every state. A
> coordinator that truncates all its lists only returns lists that fit.
-/

namespace VllmEngine

open SingleTypeManager KVCacheManager

variable {H : Type} [DecidableEq H]

/-! ## The plain attention types -/

/-- Full attention without sinks, sliding windows and chunked local attention. -/
def KVCacheSpec.isPlainAttention (s : KVCacheSpec) : Bool :=
  match s.kind with
  | .fullAttention .. | .tqFullAttention .. | .mlaAttention .. | .slidingWindow ..
  | .chunkedLocalAttention .. => true
  | .sinkFullAttention .. | .mamba .. | .crossAttention .. => false

section Dispatch

variable {m : SingleTypeManager H} (h : m.spec.isPlainAttention = true)
include h

omit [DecidableEq H] in
theorem isCrossAttention_eq_false : m.spec.isCrossAttention = false := by
  unfold KVCacheSpec.isPlainAttention at h
  unfold KVCacheSpec.isCrossAttention
  cases hk : m.spec.kind <;> simp_all

theorem allocateNewBlocks_eq (p : BlockPool H) (reqId : ReqId) (n n' : Int) :
    m.allocateNewBlocks p reqId n n' = m.baseAllocateNewBlocks p reqId n := by
  unfold KVCacheSpec.isPlainAttention at h
  unfold allocateNewBlocks
  cases hk : m.spec.kind <;> simp_all

theorem cacheBlocks_eq (p : BlockPool H) (r : Request H) (n : Int) :
    m.cacheBlocks p r n = m.baseCacheBlocks p r n := by
  unfold KVCacheSpec.isPlainAttention at h
  unfold SingleTypeManager.cacheBlocks
  cases hk : m.spec.kind <;> simp_all

omit [DecidableEq H] in
theorem free_eq (p : BlockPool H) (reqId : ReqId) : m.free p reqId = m.baseFree p reqId := by
  unfold KVCacheSpec.isPlainAttention at h
  unfold SingleTypeManager.free
  cases hk : m.spec.kind <;> simp_all

theorem getNumBlocksToAllocate_eq (p : BlockPool H) (reqId : ReqId) (n : Int) (hits : List BlockId)
    (total main : Int) : m.getNumBlocksToAllocate p reqId n hits total main
      = m.baseNumBlocksToAllocate p reqId n hits total := by
  unfold KVCacheSpec.isPlainAttention at h
  unfold SingleTypeManager.getNumBlocksToAllocate
  cases hk : m.spec.kind <;> simp_all

omit [DecidableEq H] in
theorem removeSkippedBlocks_eq (p : BlockPool H) (reqId : ReqId) (n : Int) :
    m.removeSkippedBlocks p reqId n = m.baseRemoveSkippedBlocks p reqId n := by
  unfold KVCacheSpec.isPlainAttention at h
  unfold SingleTypeManager.removeSkippedBlocks
  cases hk : m.spec.kind <;> simp_all

end Dispatch

/-! ## All managers -/

/-- Occurrences in the lists of all managers. -/
def occurrencesAll (ms : List (SingleTypeManager H)) (b : BlockId) : Nat :=
  (ms.map fun m => m.occurrences b).sum

/-- The pool balances the lists of all managers and `R` further references. -/
structure AllBalanced (R : BlockId → Nat) (p : BlockPool H) (ms : List (SingleTypeManager H)) :
    Prop where
  accounted : p.Accounted fun b => R b + occurrencesAll ms b
  hashOk : p.HashOk
  lists : ∀ m ∈ ms, m.ListsOk

variable {p : BlockPool H} {c : KVCacheCoordinator H} {specs : List KVCacheSpec} {hashes : List H}
  {maxLength : Nat} {res : List (List BlockId) × Nat}

theorem AllBalanced.head {R : BlockId → Nat} {m : SingleTypeManager H}
    {ms : List (SingleTypeManager H)} (h : AllBalanced R p (m :: ms)) :
    Balanced (fun b => R b + occurrencesAll ms b) p m := by
  refine ⟨h.accounted.congr (fun b _ => ?_) rfl rfl rfl rfl, h.hashOk, h.lists m List.mem_cons_self⟩
  simp only [occurrencesAll, List.map_cons, List.sum_cons]
  omega

/-- After a step of the first manager its lists are further references for the
others. -/
theorem AllBalanced.tail {R : BlockId → Nat} {q : BlockPool H} {m m' : SingleTypeManager H}
    {ms : List (SingleTypeManager H)} (h : AllBalanced R p (m :: ms)) (hk : Keeps p m q m') :
    AllBalanced (fun b => R b + m'.occurrences b) q ms := by
  have hhead := (hk.balanced _ h.head).1
  exact ⟨hhead.accounted.congr (fun b _ => by omega) rfl rfl rfl rfl, hhead.hashOk,
    fun m' hm' => h.lists m' (List.mem_cons_of_mem m hm')⟩

/-- **The loop over the managers.** If each round keeps the balance of its own
manager, the loop keeps the balance of all. The induction passes the
occurrences of the other managers as further references. -/
theorem mapManagers_keeps {α : Type}
    {f : Nat → BlockPool H → SingleTypeManager H →
      Except Python.Error (BlockPool H × SingleTypeManager H × α)} :
    ∀ (ms : List (SingleTypeManager H)) (i : Nat) (R : BlockId → Nat) {p p' : BlockPool H}
      {ms' : List (SingleTypeManager H)} {as : List α},
      (∀ j m, ms[j]? = some m → ∀ q q' m' a, q.numGpuBlocks = p.numGpuBlocks →
        f (i + j) q m = .ok (q', m', a) → Keeps q m q' m') →
      KVCacheCoordinator.mapManagers f i p ms = .ok (p', ms', as) → AllBalanced R p ms →
      AllBalanced R p' ms' ∧ p'.numGpuBlocks = p.numGpuBlocks ∧
        ms'.map (·.spec) = ms.map (·.spec) := by
  intro ms
  induction ms with
  | nil =>
    intro i R p p' ms' as _ h hb
    simp only [KVCacheCoordinator.mapManagers, Except.ok.injEq, Prod.mk.injEq] at h
    obtain ⟨rfl, rfl, -⟩ := h
    exact ⟨hb, rfl, rfl⟩
  | cons m ms ih =>
    intro i R p p' ms' as hf h hb
    simp only [KVCacheCoordinator.mapManagers, Raises.bind_eq_ok, Raises.pure_eq_ok] at h
    obtain ⟨⟨q, m₁, a⟩, hm, ⟨q', ms₁, as₁⟩, hms, heq⟩ := h
    simp only [Prod.mk.injEq] at heq
    obtain ⟨rfl, rfl, -⟩ := heq
    have hkeep := hf 0 m rfl p q m₁ a rfl hm
    obtain ⟨hhead, hgpu⟩ := hkeep.balanced _ hb.head
    obtain ⟨hall, hgpu', hspecs⟩ := ih (i + 1) _ (fun j m' hj t t' m'' b ht hft => by
      refine hf (j + 1) m' hj t t' m'' b (ht.trans hgpu) ?_
      rwa [Nat.add_comm j 1, ← Nat.add_assoc]) hms (hb.tail hkeep)
    refine ⟨⟨?_, hall.hashOk, ?_⟩, hgpu'.trans hgpu, ?_⟩
    · refine hall.accounted.congr (fun b _ => ?_) rfl rfl rfl rfl
      simp only [occurrencesAll, List.map_cons, List.sum_cons]
      omega
    · intro m' hm'
      rcases List.mem_cons.mp hm' with rfl | hm'
      · exact hhead.lists
      · exact hall.lists m' hm'
    · simp [hspecs, hkeep.spec]

omit [DecidableEq H] in
/-- Each manager after the loop is the outcome of the round of its index. -/
theorem mapManagers_at {α : Type}
    {f : Nat → BlockPool H → SingleTypeManager H →
      Except Python.Error (BlockPool H × SingleTypeManager H × α)} :
    ∀ (ms : List (SingleTypeManager H)) (i : Nat) {p p' : BlockPool H}
      {ms' : List (SingleTypeManager H)} {as : List α},
      KVCacheCoordinator.mapManagers f i p ms = .ok (p', ms', as) →
      ∀ (j : Nat) m', ms'[j]? = some m' →
        ∃ m q q' a, ms[j]? = some m ∧ f (i + j) q m = .ok (q', m', a) := by
  intro ms
  induction ms with
  | nil =>
    intro i p p' ms' as h j m' hj
    simp only [KVCacheCoordinator.mapManagers, Except.ok.injEq, Prod.mk.injEq] at h
    obtain ⟨-, rfl, -⟩ := h
    cases hj
  | cons m ms ih =>
    intro i p p' ms' as h j m' hj
    simp only [KVCacheCoordinator.mapManagers, Raises.bind_eq_ok, Raises.pure_eq_ok] at h
    obtain ⟨⟨q, m₁, a⟩, hm, ⟨q', ms₁, as₁⟩, hrest, heq⟩ := h
    simp only [Prod.mk.injEq] at heq
    obtain ⟨-, rfl, -⟩ := heq
    cases j with
    | zero =>
      obtain rfl := Option.some.inj hj
      exact ⟨m, p, q, a, rfl, hm⟩
    | succ j =>
      obtain ⟨m₀, t, t', b, hm₀, hround⟩ := ih (i + 1) hrest j m' hj
      refine ⟨m₀, t, t', b, hm₀, ?_⟩
      rw [show i + (j + 1) = i + 1 + j by omega]
      exact hround

omit [DecidableEq H] in
theorem onManagers_at {α : Type} {c' : KVCacheCoordinator H}
    {f : Nat → BlockPool H → SingleTypeManager H → Except Python.Error (BlockPool H × SingleTypeManager H × α)}
    {as : List α} (h : c.onManagers f = .ok (c', as)) {i : Nat} {m' : SingleTypeManager H}
    (hm' : c'.singleTypeManagers[i]? = some m') :
    ∃ m q q' a, c.singleTypeManagers[i]? = some m ∧ f i q m = .ok (q', m', a) := by
  simp only [KVCacheCoordinator.onManagers, Raises.bind_eq_ok, Raises.pure_eq_ok] at h
  obtain ⟨⟨p, ms, as'⟩, hmap, heq⟩ := h
  obtain ⟨rfl, -⟩ := Prod.mk.inj heq
  obtain ⟨m, q, q', a, hm, hround⟩ := mapManagers_at _ 0 hmap i m' hm'
  rw [Nat.zero_add] at hround
  exact ⟨m, q, q', a, hm, hround⟩

/-! ## The coordinator -/

/-- The coordinator's class fits its groups. -/
def KindOk (specs : List KVCacheSpec) : CoordinatorKind → Prop
  | .noPrefixCache => True
  | .unitary spec => specs = [spec]
  | .hybrid c => HybridOk c ∧ c.specs = specs

/-- The invariant of a coordinator over the given groups. -/
structure CoordinatorOk (specs : List KVCacheSpec) (c : KVCacheCoordinator H) : Prop where
  balanced : AllBalanced (fun _ => 0) c.blockPool c.singleTypeManagers
  kind : KindOk specs c.kind
  specs : c.singleTypeManagers.map (·.spec) = specs

/-- What a change of the coordinator keeps. -/
structure CoordinatorStep (specs : List KVCacheSpec) (c c' : KVCacheCoordinator H) : Prop where
  ok : CoordinatorOk specs c'
  kind : c'.kind = c.kind
  numGpuBlocks : c'.blockPool.numGpuBlocks = c.blockPool.numGpuBlocks

theorem CoordinatorStep.trans {c' c'' : KVCacheCoordinator H} (h : CoordinatorStep specs c c')
    (h' : CoordinatorStep specs c' c'') : CoordinatorStep specs c c'' :=
  ⟨h'.ok, h'.kind.trans h.kind, h'.numGpuBlocks.trans h.numGpuBlocks⟩

section Coordinator

variable {specs : List KVCacheSpec} {c c' : KVCacheCoordinator H}

theorem CoordinatorOk.manager_spec (h : CoordinatorOk specs c) {j : Nat} {m : SingleTypeManager H}
    (hm : c.singleTypeManagers[j]? = some m) : specs[j]? = some m.spec := by
  rw [← h.specs, List.getElem?_map, hm]
  rfl

theorem onManagers_step {α : Type}
    {f : Nat → BlockPool H → SingleTypeManager H →
      Except Python.Error (BlockPool H × SingleTypeManager H × α)} {as : List α}
    (hok : CoordinatorOk specs c)
    (hf : ∀ j m, c.singleTypeManagers[j]? = some m → ∀ q q' m' a,
      q.numGpuBlocks = c.blockPool.numGpuBlocks → f j q m = .ok (q', m', a) → Keeps q m q' m')
    (h : c.onManagers f = .ok (c', as)) : CoordinatorStep specs c c' := by
  simp only [KVCacheCoordinator.onManagers, Raises.bind_eq_ok, Raises.pure_eq_ok] at h
  obtain ⟨⟨p, ms, as'⟩, hmap, heq⟩ := h
  obtain ⟨rfl, -⟩ := Prod.mk.inj heq
  obtain ⟨hall, hgpu, hspecs⟩ := mapManagers_keeps _ 0 _
    (fun j m hj q q' m' a hq hfj => hf j m hj q q' m' a hq (by rwa [Nat.zero_add] at hfj))
    hmap hok.balanced
  exact ⟨⟨hall, hok.kind, hspecs.trans hok.specs⟩, rfl, hgpu⟩

theorem CoordinatorOk.plain (hplain : ∀ s ∈ specs, s.isPlainAttention = true)
    (hok : CoordinatorOk specs c) {j : Nat} {m : SingleTypeManager H}
    (hm : c.singleTypeManagers[j]? = some m) : m.spec.isPlainAttention = true :=
  hplain _ (List.mem_of_getElem? (hok.manager_spec hm))

theorem coordinator_free (hok : CoordinatorOk specs c) {reqId : ReqId}
    (h : c.free reqId = .ok c') : CoordinatorStep specs c c' := by
  simp only [KVCacheCoordinator.free, Raises.bind_eq_ok, Raises.pure_eq_ok] at h
  obtain ⟨⟨c₁, as⟩, hon, rfl⟩ := h
  refine onManagers_step hok (fun j m hj q q' m' a _ hf => ?_) hon
  simp only [Except.ok.injEq, Prod.mk.injEq] at hf
  obtain ⟨rfl, rfl, -⟩ := hf
  exact manager_free_keeps q m reqId

theorem coordinator_removeSkippedBlocks (hok : CoordinatorOk specs c) {reqId : ReqId} {n : Int}
    (h : c.removeSkippedBlocks reqId n = .ok c') : CoordinatorStep specs c c' := by
  simp only [KVCacheCoordinator.removeSkippedBlocks, Raises.bind_eq_ok, Raises.pure_eq_ok] at h
  obtain ⟨⟨c₁, as⟩, hon, rfl⟩ := h
  refine onManagers_step hok (fun j m hj q q' m' a _ hf => ?_) hon
  simp only [Except.ok.injEq, Prod.mk.injEq] at hf
  obtain ⟨rfl, rfl, -⟩ := hf
  exact manager_removeSkippedBlocks_keeps q m reqId n

theorem coordinator_cacheBlocks (hok : CoordinatorOk specs c) {r : Request H} {n : Int}
    (h : c.cacheBlocks r n = .ok c') : CoordinatorStep specs c c' := by
  simp only [KVCacheCoordinator.cacheBlocks, Raises.bind_eq_ok, Raises.pure_eq_ok] at h
  obtain ⟨⟨c₁, as⟩, hon, rfl⟩ := h
  refine onManagers_step hok (fun j m hj q q' m' a _ hf => ?_) hon
  simp only [Raises.bind_eq_ok, Raises.pure_eq_ok] at hf
  obtain ⟨⟨q₁, m₁⟩, hcache, heq⟩ := hf
  simp only [Prod.mk.injEq] at heq
  obtain ⟨rfl, rfl, -⟩ := heq
  exact manager_cacheBlocks_keeps hcache

theorem coordinator_allocateNewBlocks (hok : CoordinatorOk specs c) {reqId : ReqId}
    {n n' e : Int} {new : List (List BlockId)}
    (h : c.allocateNewBlocks reqId n n' e = .ok (c', new)) : CoordinatorStep specs c c' :=
  onManagers_step hok (fun _ _ _ _ _ _ _ _ hf => manager_allocateNewBlocks_keeps hf) h

theorem coordinator_allocateNewComputedBlocks (hok : CoordinatorOk specs c)
    (hpos : ∀ s ∈ specs, 0 < s.blockSize) {reqId : ReqId} {hits : List (List BlockId)}
    {loc ext : Int} (hhits : ∀ i, HitsValid c.blockPool.numGpuBlocks (hits.getD i []))
    (hfit : ext ≤ 0 ∨ ∀ i spec, specs[i]? = some spec →
      ((hits.getD i []).length : Int) ≤ Python.cdiv (loc + ext) spec.blockSize)
    (h : c.allocateNewComputedBlocks reqId hits loc ext = .ok c') : CoordinatorStep specs c c' := by
  simp only [KVCacheCoordinator.allocateNewComputedBlocks, Raises.bind_eq_ok,
    Raises.pure_eq_ok] at h
  obtain ⟨⟨c₁, as⟩, hon, rfl⟩ := h
  refine onManagers_step hok (fun j m hj q q' m' a hq hf => ?_) hon
  simp only [Raises.bind_eq_ok, Raises.pure_eq_ok] at hf
  obtain ⟨⟨q₁, m₁⟩, halloc, heq⟩ := hf
  simp only [Prod.mk.injEq] at heq
  obtain ⟨rfl, rfl, -⟩ := heq
  have hspec := hok.manager_spec hj
  exact manager_allocateNewComputedBlocks_keeps (hpos _ (List.mem_of_getElem? hspec)) (hq ▸ hhits j)
    (hfit.imp_right fun hall => hall j m.spec hspec) halloc

end Coordinator

/-! ## Hit lists -/

/-- The entries of a hit list are null or cached under the hash of their
index. -/
def EntriesOk (p : BlockPool H) (hashes : List (List H)) (g : GroupId) (blocks : List BlockId) :
    Prop :=
  ∀ (i : Nat) b, blocks[i]? = some b →
    b = nullBlock ∨ ∃ h, hashes[i]? = some h ∧ p.getOneBlock (h, g) = some b

theorem blockHash_of_getOneBlock (hh : p.HashOk) {k : BlockKey H} {b : BlockId}
    (h : p.getOneBlock k = some b) : p.blockHash b = some k := by
  rw [hh.filed, BlockPool.filedIn]
  unfold BlockPool.getOneBlock at h
  cases hk : p.cachedBlockHashToBlock.get? k with
  | none => rw [hk] at h; cases h
  | some bs =>
    rw [hk] at h
    exact List.mem_of_mem_head? h

/-- At most one entry satisfies `P`, if all that do have one index. -/
theorem countP_le_one_of_index {α : Type} {P : α → Bool} {l : List α}
    (h : ∀ (i j : Nat) x y, l[i]? = some x → l[j]? = some y → P x = true → P y = true → i = j) :
    l.countP P ≤ 1 := by
  induction l with
  | nil => exact Nat.zero_le 1
  | cons x l ih =>
    rw [List.countP_cons]
    by_cases hx : P x = true
    · have hnot : l.countP P = 0 := by
        rw [List.countP_eq_zero]
        intro y hy hP
        obtain ⟨j, hj⟩ := List.getElem?_of_mem hy
        have := h 0 (j + 1) x y rfl hj hx hP
        omega
      rw [hnot, if_pos hx]
    · rw [if_neg hx]
      refine ih fun i j x y hi hj hPx hPy => ?_
      have := h (i + 1) (j + 1) x y hi hj hPx hPy
      omega

theorem count_le_one_of_index {l : List BlockId} {b : BlockId}
    (h : ∀ i j : Nat, l[i]? = some b → l[j]? = some b → i = j) : l.count b ≤ 1 := by
  refine countP_le_one_of_index fun i j x y hi hj hx hy => ?_
  rw [eq_of_beq hx] at hi
  rw [eq_of_beq hy] at hj
  exact h i j hi hj

/-- A block is filed under one key, so a list under distinct hashes holds it at
most once. -/
theorem hitsValid_of_entries (hh : p.HashOk) {hashes : List (List H)} (hn : hashes.Nodup)
    {g : GroupId} {blocks : List BlockId} (he : EntriesOk p hashes g blocks) :
    HitsValid p.numGpuBlocks blocks := by
  constructor
  · intro b hb
    obtain ⟨i, hi⟩ := List.getElem?_of_mem hb
    refine (he i b hi).imp_right ?_
    rintro ⟨h, -, hone⟩
    exact (hh.live b _ (blockHash_of_getOneBlock hh hone)).2
  · intro b hb
    refine count_le_one_of_index fun i j hi hj => ?_
    obtain ⟨h, hhi, hone⟩ := (he i b hi).resolve_left hb
    obtain ⟨h', hhj, hone'⟩ := (he j b hj).resolve_left hb
    have hkey := (blockHash_of_getOneBlock hh hone).symm.trans (blockHash_of_getOneBlock hh hone')
    rw [Option.some.injEq, Prod.mk.injEq] at hkey
    obtain ⟨hlt, -⟩ := List.getElem?_eq_some_iff.mp hhi
    exact (List.getElem?_inj hlt hn).mp (by rw [hhi, hhj, hkey.1])

omit [DecidableEq H] in
/-- Distinct hashes stay distinct at a coarser granularity. -/
theorem blockHashList_nodup (hn : hashes.Nodup) (hbs bs : Nat) :
    (blockHashList hashes hbs bs).Nodup := by
  unfold blockHashList
  dsimp only
  refine List.nodup_range.map_on fun i hi j hj heq => ?_
  rw [List.mem_range] at hi hj
  obtain ⟨scale, hscale⟩ : ∃ scale, scale = bs / hbs := ⟨_, rfl⟩
  rw [← hscale] at hi hj heq
  have hpos : 0 < scale := by
    by_contra h0
    rw [Nat.eq_zero_of_not_pos h0, Nat.div_zero] at hi
    omega
  -- compare the first hash of each group
  have hlt : ∀ {k}, k < hashes.length / scale → k * scale < hashes.length := by
    intro k hk
    have := Nat.mul_le_of_le_div scale (k + 1) hashes.length hk
    rw [Nat.add_mul] at this
    omega
  have hhead : ∀ k, ((hashes.drop (k * scale)).take scale).head? = hashes[k * scale]? := by
    intro k
    rw [List.head?_take, if_neg (by omega), List.head?_drop]
  have := congrArg List.head? heq
  rw [hhead, hhead] at this
  exact Nat.eq_of_mul_eq_mul_right hpos ((List.getElem?_inj (hlt hi) hn).mp this)

/-- The truncation only shortens lists. -/
theorem truncateFirst_take (c : HybridCoordinator) {hits : HybridCoordinator.Hits} (hit : Nat)
    {g : GroupId} {blocks : List BlockId} (h : hits g = some blocks) :
    ∃ n, c.truncateFirst hits hit g = some (blocks.take n) := by
  have hsame : hits g = some (blocks.take blocks.length) := by rw [List.take_length, h]
  unfold HybridCoordinator.truncateFirst
  cases c.attentionGroups with
  | nil => exact ⟨_, hsame⟩
  | cons a as =>
    dsimp only
    by_cases hfull : a.spec.isFullAttention = true
    · rw [if_pos hfull]
      by_cases hg : g ∈ a.groupIds
      · rw [if_pos hg, h]
        exact ⟨_, rfl⟩
      · rw [if_neg hg]
        exact ⟨_, hsame⟩
    · rw [if_neg hfull]
      exact ⟨_, hsame⟩

theorem hybrid_entries {c : HybridCoordinator} (hok : HybridOk c)
    (h : c.findLongestHit p hashes maxLength = .ok res) (g : GroupId) :
    ∃ spec, EntriesOk p (c.hashesOf hashes spec) g (res.1.getD g []) := by
  simp only [HybridCoordinator.findLongestHit, Raises.bind_eq_ok, Raises.pure_eq_ok] at h
  obtain ⟨⟨hits, hit⟩, hloop, rfl⟩ := h
  have hl := hitLoop_ok hok maxLength _ maxLength (Nat.le_refl _) (Nat.le_refl _)
    (Or.inl fun _ => rfl) hloop
  dsimp only
  by_cases hg : g < c.specs.length
  · obtain ⟨a, ha, hga⟩ := hok.split.cover g hg
    obtain ⟨rows, hheld, hrows, -⟩ := hl.entries a ha
    refine ⟨a.spec, fun i b hb => ?_⟩
    rw [List.getD_eq_getElem?_getD, List.getElem?_map, List.getElem?_range hg, Option.map_some,
      Option.getD_some] at hb
    obtain ⟨n, hn⟩ := truncateFirst_take c hit (hheld g hga)
    rw [hn, Option.getD_some] at hb
    exact column_entry hrows hga (getElem?_of_take hb)
  · refine ⟨fullSpec 1 1, fun i b hb => ?_⟩
    have hnone : ((List.range c.specs.length).map
        fun g => (c.truncateFirst hits hit g).getD [])[g]? = none :=
      List.getElem?_eq_none (by simpa using hg)
    rw [List.getD_eq_getElem?_getD, hnone] at hb
    cases hb

/-- The list of a group has entries of that group. -/
theorem findLongestCacheHit_entries (hok : CoordinatorOk specs c)
    (hpos : ∀ s ∈ specs, 0 < s.blockSize) (h : c.findLongestCacheHit hashes maxLength = .ok res)
    (i : Nat) : ∃ l, (hashes.Nodup → l.Nodup) ∧ EntriesOk c.blockPool l i (res.1.getD i []) := by
  have hempty : ∃ l : List (List H), (hashes.Nodup → l.Nodup) ∧ EntriesOk c.blockPool l i [] :=
    ⟨[], fun _ => List.nodup_nil, fun j b hb => by cases hb⟩
  have hkind := hok.kind
  unfold KVCacheCoordinator.findLongestCacheHit at h
  cases hk : c.kind with
  | noPrefixCache =>
    rw [hk] at h
    obtain rfl := Except.ok.inj h
    rw [List.getD_eq_getElem?_getD, List.getElem?_map]
    cases c.singleTypeManagers[i]? <;> exact hempty
  | unitary spec =>
    rw [hk] at h hkind
    simp only [Raises.bind_eq_ok, Raises.pure_eq_ok] at h
    obtain ⟨rows, hrows, rfl⟩ := h
    cases i with
    | zero =>
      have hspec : spec ∈ specs := by
        rw [show specs = [spec] from hkind]
        exact List.mem_singleton_self spec
      have hhit := findLongestCacheHit_hitOk (hpos spec hspec) hrows
      exact ⟨blockHashList hashes spec.blockSize spec.blockSize, fun hn => blockHashList_nodup hn _ _,
        fun j b hb => column_entry hhit.rows_ok (List.mem_singleton_self 0) hb⟩
    | succ i => exact hempty
  | hybrid hc =>
    rw [hk] at h hkind
    obtain ⟨spec, he⟩ := hybrid_entries hkind.1 h i
    exact ⟨_, fun hn => blockHashList_nodup hn _ _, he⟩

theorem findLongestCacheHit_valid (hok : CoordinatorOk specs c)
    (hpos : ∀ s ∈ specs, 0 < s.blockSize) (hn : hashes.Nodup)
    (h : c.findLongestCacheHit hashes maxLength = .ok res) (i : Nat) :
    HitsValid c.blockPool.numGpuBlocks (res.1.getD i []) := by
  obtain ⟨l, hl, he⟩ := findLongestCacheHit_entries hok hpos h i
  exact hitsValid_of_entries hok.balanced.hashOk (hl hn) he

/-- The coordinator cuts every list to the length of the hit. -/
def CoordinatorKind.Truncates : CoordinatorKind → Prop
  | .noPrefixCache | .unitary _ => True
  | .hybrid c => SingleTruncation c

theorem findLongestCacheHit_fits (hok : CoordinatorOk specs c) (ht : c.kind.Truncates)
    (h : c.findLongestCacheHit hashes maxLength = .ok res) {i : Nat} {spec : KVCacheSpec}
    (hi : specs[i]? = some spec) : (res.1.getD i []).length * spec.blockSize ≤ res.2 := by
  have hkind := hok.kind
  unfold KVCacheCoordinator.findLongestCacheHit at h
  cases hk : c.kind with
  | noPrefixCache =>
    rw [hk] at h
    obtain rfl := Except.ok.inj h
    rw [List.getD_eq_getElem?_getD, List.getElem?_map]
    cases c.singleTypeManagers[i]? <;> simp
  | unitary spec₀ =>
    rw [hk] at h hkind
    simp only [Raises.bind_eq_ok, Raises.pure_eq_ok] at h
    obtain ⟨rows, -, rfl⟩ := h
    rw [show specs = [spec₀] from hkind] at hi
    cases i with
    | zero =>
      obtain rfl := Option.some.inj hi
      simp [column]
    | succ i => cases hi
  | hybrid hc =>
    rw [hk] at h hkind ht
    obtain ⟨hhyb, hspecs⟩ := hkind
    simp only [HybridCoordinator.findLongestHit, Raises.bind_eq_ok, Raises.pure_eq_ok] at h
    obtain ⟨⟨hits, hit⟩, hloop, rfl⟩ := h
    have hcons := consistent_of_loopOk hhyb ht (hitLoop_ok hhyb maxLength _ maxLength
      (Nat.le_refl _) (Nat.le_refl _) (Or.inl fun _ => rfl) hloop)
    obtain ⟨blocks, hb, hlen, -⟩ := hcons.blocks i spec (hspecs ▸ hi)
    rw [List.getD_eq_getElem?_getD, hb, Option.getD_some, hlen]
    exact Nat.div_mul_le_self _ _

/-! ## The calls of the scheduler -/

omit [DecidableEq H] in
theorem emptyKvCacheBlocks_getD (k : KVCacheManager H) (i : Nat) :
    k.emptyKvCacheBlocks.getD i [] = [] := by
  unfold emptyKvCacheBlocks
  rw [List.getD_eq_getElem?_getD, List.getElem?_map]
  cases k.coordinator.singleTypeManagers[i]? with
  | none => rfl
  | some m => rfl

/-- The calls that change the manager. `start` is the admission of a request:
`get_computed_blocks`, then `allocate_slots` with the hits found and with the
external tokens a connector reports. `extend` is `allocate_slots` for a request
that already has its blocks. -/
inductive KvOp (H : Type)
  | getComputedBlocks (r : Request H)
  | start (r : Request H) (numNewTokens : Int)
      (numLookaheadTokens numExternalComputedTokens : Nat) (delayCacheBlocks : Bool)
      (numEncoderTokens : Nat)
  | extend (r : Request H) (numNewTokens : Int) (numLookaheadTokens : Nat) (delayCacheBlocks : Bool)
      (numEncoderTokens : Nat)
  | cacheBlocks (r : Request H) (numComputedTokens : Int)
  | removeSkippedBlocks (reqId : ReqId) (totalComputedTokens : Int)
  | free (reqId : ReqId)
  | evictBlocks (blockIds : List BlockId)
  | resetPrefixCache

def KvOp.step (k : KVCacheManager H) : KvOp H → Except Python.Error (KVCacheManager H)
  | .getComputedBlocks r => do
    let _ ← k.getComputedBlocks r
    return k
  | .start r new lookahead ext delay enc => do
    let (blocks, n) ← k.getComputedBlocks r
    let (k, _) ← k.allocateSlots r
      { numNewTokens := new, numNewComputedTokens := n, newComputedBlocks := blocks
        numLookaheadTokens := lookahead, numExternalComputedTokens := ext
        delayCacheBlocks := delay, numEncoderTokens := enc }
    return k
  | .extend r new lookahead delay enc => do
    let (k, _) ← k.allocateSlots r
      { numNewTokens := new, numNewComputedTokens := 0, newComputedBlocks := k.emptyKvCacheBlocks
        numLookaheadTokens := lookahead, numExternalComputedTokens := 0
        delayCacheBlocks := delay, numEncoderTokens := enc }
    return k
  | .cacheBlocks r n => k.cacheBlocks r n
  | .removeSkippedBlocks reqId n => k.removeSkippedBlocks reqId n
  | .free reqId => k.free reqId
  | .evictBlocks ids => k.evictBlocks ids
  | .resetPrefixCache => .ok k.resetPrefixCache.1

/-- How the scheduler admits a request: nothing of it is computed yet, and its
block hashes are distinct. -/
def KvOp.Issued : KvOp H → Prop
  | .start r .. => r.numComputedTokens = 0 ∧ r.blockHashes.Nodup
  | _ => True

/-- External tokens come only with hit lists that are no longer than the blocks
of the computed tokens. -/
def KvOp.FitsExternal (k : KVCacheManager H) : KvOp H → Prop
  | .start r _ _ ext _ _ => ext = 0 ∨ ∀ res, k.getComputedBlocks r = .ok res →
    ∀ i m, k.coordinator.singleTypeManagers[i]? = some m →
      ((res.1.getD i []).length : Int)
        ≤ Python.cdiv (r.numComputedTokens + res.2 + ext) m.spec.blockSize
  | _ => True

section Steps

variable {specs : List KVCacheSpec} {k k' : KVCacheManager H}
  (hpos : ∀ s ∈ specs, 0 < s.blockSize)
include hpos

theorem adoptComputed_step (hok : CoordinatorOk specs k.coordinator) {r : Request H} {a : SlotArgs}
    (hhits : ∀ i, HitsValid k.blockPool.numGpuBlocks (a.newComputedBlocks.getD i []))
    (hfit : (a.numExternalComputedTokens : Int) ≤ 0 ∨ ∀ i spec, specs[i]? = some spec →
      ((a.newComputedBlocks.getD i []).length : Int)
        ≤ Python.cdiv (a.numLocalComputedTokens r + a.numExternalComputedTokens) spec.blockSize)
    {c : KVCacheCoordinator H} (h : k.adoptComputed r a = .ok c) :
    CoordinatorStep specs k.coordinator c := by
  unfold adoptComputed at h
  split at h
  · exact coordinator_allocateNewComputedBlocks hok hpos hhits hfit h
  · obtain rfl := Except.ok.inj h
    exact ⟨hok, rfl, rfl⟩

theorem allocateSlots_step (hok : CoordinatorOk specs k.coordinator) {r : Request H} {a : SlotArgs}
    (hhits : ∀ i, HitsValid k.blockPool.numGpuBlocks (a.newComputedBlocks.getD i []))
    (hfit : (a.numExternalComputedTokens : Int) ≤ 0 ∨ ∀ i spec, specs[i]? = some spec →
      ((a.newComputedBlocks.getD i []).length : Int)
        ≤ Python.cdiv (a.numLocalComputedTokens r + a.numExternalComputedTokens) spec.blockSize)
    {out : Option (List (List BlockId))} (h : k.allocateSlots r a = .ok (k', out)) :
    CoordinatorStep specs k.coordinator k'.coordinator := by
  unfold allocateSlots at h
  split at h
  · simp at h
  · simp only [Raises.bind_eq_ok] at h
    obtain ⟨c₁, hskip, n, -, h⟩ := h
    have h₁ := coordinator_removeSkippedBlocks hok hskip
    split at h
    · obtain ⟨rfl, -⟩ := Prod.mk.inj (Raises.pure_eq_ok.mp h)
      exact h₁
    · simp only [Raises.bind_eq_ok, Raises.pure_eq_ok, commitSlots] at h
      obtain ⟨⟨k₂, new⟩, ⟨c₂, hadopt, ⟨c₃, new'⟩, hnew, c₄, hpub, heq⟩, heq'⟩ := h
      obtain ⟨rfl, -⟩ := Prod.mk.inj heq
      obtain ⟨rfl, -⟩ := Prod.mk.inj heq'
      have h₂ : CoordinatorStep specs c₁ c₂ := by
        refine adoptComputed_step hpos h₁.ok (fun i => ?_) hfit hadopt
        show HitsValid c₁.blockPool.numGpuBlocks _
        rw [h₁.numGpuBlocks]
        exact hhits i
      have h₃ := coordinator_allocateNewBlocks h₂.ok hnew
      have h₄ : CoordinatorStep specs c₃ c₄ := by
        unfold publishBlocks at hpub
        split at hpub
        · obtain rfl := Except.ok.inj hpub
          exact ⟨h₃.ok, rfl, rfl⟩
        · exact coordinator_cacheBlocks h₃.ok hpub
      exact h₁.trans (h₂.trans (h₃.trans h₄))

theorem getComputedBlocks_valid (hok : CoordinatorOk specs k.coordinator) {r : Request H}
    (hn : r.blockHashes.Nodup) {res : List (List BlockId) × Nat}
    (h : k.getComputedBlocks r = .ok res) (i : Nat) :
    HitsValid k.blockPool.numGpuBlocks (res.1.getD i []) := by
  unfold getComputedBlocks at h
  split at h
  · obtain rfl := Except.ok.inj h
    rw [emptyKvCacheBlocks_getD]
    exact ⟨fun b hb => (List.not_mem_nil hb).elim, fun b _ => Nat.zero_le 1⟩
  · exact findLongestCacheHit_valid hok hpos hn h i

/-- Hits of a truncating coordinator fit whatever external tokens there are. -/
theorem getComputedBlocks_fits (hok : CoordinatorOk specs k.coordinator)
    (ht : k.coordinator.kind.Truncates) {r : Request H} {res : List (List BlockId) × Nat}
    (h : k.getComputedBlocks r = .ok res) {i : Nat} {spec : KVCacheSpec}
    (hi : specs[i]? = some spec) (hz : r.numComputedTokens = 0) (ext : Nat) :
    ((res.1.getD i []).length : Int)
      ≤ Python.cdiv (r.numComputedTokens + res.2 + ext) spec.blockSize := by
  have hle : (res.1.getD i []).length * spec.blockSize ≤ res.2 := by
    unfold getComputedBlocks at h
    split at h
    · obtain rfl := Except.ok.inj h
      refine Nat.le_of_eq ?_
      rw [emptyKvCacheBlocks_getD, List.length_nil, Nat.zero_mul]
    · exact findLongestCacheHit_fits hok ht h hi
  have hbs : 0 < spec.blockSize := hpos spec (List.mem_of_getElem? hi)
  by_contra hlt
  have hcdiv := (Python.cdiv_le_iff (a := r.numComputedTokens + res.2 + ext)
    (n := ((res.1.getD i []).length : Int) - 1) (b := spec.blockSize) (by omega)).mp (by omega)
  rw [Int.sub_mul, Int.one_mul] at hcdiv
  have hcast : ((res.1.getD i []).length : Int) * spec.blockSize ≤ res.2 := by exact_mod_cast hle
  omega

/-- **One call.** -/
theorem kvOp_step (hok : CoordinatorOk specs k.coordinator) {op : KvOp H} (hissued : op.Issued)
    (hfit : k.coordinator.kind.Truncates ∨ op.FitsExternal k) (h : op.step k = .ok k') :
    CoordinatorStep specs k.coordinator k'.coordinator := by
  cases op with
  | getComputedBlocks r =>
    simp only [KvOp.step, Raises.bind_eq_ok, Raises.pure_eq_ok] at h
    obtain ⟨-, -, rfl⟩ := h
    exact ⟨hok, rfl, rfl⟩
  | start r new lookahead ext delay enc =>
    simp only [KvOp.step, Raises.bind_eq_ok, Raises.pure_eq_ok] at h
    obtain ⟨⟨blocks, n⟩, hget, ⟨k₁, out⟩, halloc, rfl⟩ := h
    obtain ⟨hz, hn⟩ := hissued
    refine allocateSlots_step hpos hok (getComputedBlocks_valid hpos hok hn hget) ?_
      halloc
    dsimp only [SlotArgs.numLocalComputedTokens]
    rcases hfit with ht | hfit
    · exact Or.inr fun i spec hi => getComputedBlocks_fits hpos hok ht hget hi hz ext
    · rcases hfit with h0 | hall
      · left
        omega
      · right
        intro i spec hi
        rw [← hok.specs, List.getElem?_map, Option.map_eq_some_iff] at hi
        obtain ⟨m, hm, rfl⟩ := hi
        exact hall _ hget i m hm
  | extend r new lookahead delay enc =>
    simp only [KvOp.step, Raises.bind_eq_ok, Raises.pure_eq_ok] at h
    obtain ⟨⟨k₁, out⟩, halloc, rfl⟩ := h
    refine allocateSlots_step hpos hok (fun i => ?_) (Or.inl (by simp)) halloc
    dsimp only
    rw [emptyKvCacheBlocks_getD]
    exact ⟨fun b hb => (List.not_mem_nil hb).elim, fun b _ => Nat.zero_le 1⟩
  | cacheBlocks r n =>
    simp only [KvOp.step, KVCacheManager.cacheBlocks] at h
    split at h
    · simp only [Raises.bind_eq_ok, Raises.pure_eq_ok] at h
      obtain ⟨c₁, hcache, rfl⟩ := h
      exact coordinator_cacheBlocks hok hcache
    · obtain rfl := Except.ok.inj h
      exact ⟨hok, rfl, rfl⟩
  | removeSkippedBlocks reqId n =>
    simp only [KvOp.step, KVCacheManager.removeSkippedBlocks, Raises.bind_eq_ok,
      Raises.pure_eq_ok] at h
    obtain ⟨c₁, hskip, rfl⟩ := h
    exact coordinator_removeSkippedBlocks hok hskip
  | free reqId =>
    simp only [KvOp.step, KVCacheManager.free, Raises.bind_eq_ok, Raises.pure_eq_ok] at h
    obtain ⟨c₁, hfree, rfl⟩ := h
    exact coordinator_free hok hfree
  | evictBlocks ids =>
    simp only [KvOp.step, KVCacheManager.evictBlocks, Raises.bind_eq_ok, Raises.pure_eq_ok] at h
    obtain ⟨p, hevict, rfl⟩ := h
    have hstep := BlockPool.evictBlocks_hashStep hok.balanced.hashOk hevict
    exact ⟨⟨⟨hstep.accounted hok.balanced.accounted, hstep.hashOk, hok.balanced.lists⟩, hok.kind,
      hok.specs⟩, rfl, hstep.numGpuBlocks⟩
  | resetPrefixCache =>
    obtain rfl := Except.ok.inj h
    have hstep := BlockPool.resetPrefixCache_hashStep hok.balanced.hashOk
    exact ⟨⟨⟨hstep.accounted hok.balanced.accounted, hstep.hashOk, hok.balanced.lists⟩, hok.kind,
      hok.specs⟩, rfl, hstep.numGpuBlocks⟩

end Steps

/-! ## The initial state -/

/-- The manager of a sink spec takes blocks out of the pool for good, the others take none. -/
def KVCacheSpec.isSinkless (s : KVCacheSpec) : Bool :=
  match s.kind with
  | .sinkFullAttention .. => false
  | _ => true

theorem sinkless_of_plain (h : ∀ s ∈ specs, s.isPlainAttention = true) :
    ∀ s ∈ specs, s.isSinkless = true := by
  intro s hs
  have hplain := h s hs
  unfold KVCacheSpec.isPlainAttention at hplain
  unfold KVCacheSpec.isSinkless
  split
  next hk => rw [hk] at hplain; cases hplain
  next => rfl

omit [DecidableEq H] in
theorem initManagers_ok {caching : Bool} :
    ∀ (specs : List KVCacheSpec) (i : GroupId) {p p' : BlockPool H}
      {ms : List (SingleTypeManager H)}, (∀ s ∈ specs, s.isSinkless = true) →
      KVCacheCoordinator.initManagers caching i p specs = .ok (p', ms) →
      p' = p ∧ ms.map (·.spec) = specs ∧ ∀ m ∈ ms, m.reqToBlocks = Dict.empty := by
  intro specs
  induction specs with
  | nil =>
    intro i p p' ms _ h
    simp only [KVCacheCoordinator.initManagers, Except.ok.injEq, Prod.mk.injEq] at h
    obtain ⟨rfl, rfl⟩ := h
    exact ⟨rfl, rfl, by simp⟩
  | cons s specs ih =>
    intro i p p' ms hsink h
    simp only [KVCacheCoordinator.initManagers, Raises.bind_eq_ok, Raises.pure_eq_ok] at h
    obtain ⟨⟨p₁, m⟩, hm, ⟨p₂, ms₁⟩, hms, heq⟩ := h
    obtain ⟨rfl, rfl⟩ := Prod.mk.inj heq
    have hs := hsink s List.mem_cons_self
    have hone : p₁ = p ∧ m.spec = s ∧ m.reqToBlocks = Dict.empty := by
      unfold KVCacheSpec.isSinkless at hs
      unfold SingleTypeManager.init at hm
      dsimp only at hm
      split at hm
      · rename_i hk
        rw [hk] at hs
        cases hs
      · obtain ⟨rfl, rfl⟩ := Prod.mk.inj (Except.ok.inj hm)
        exact ⟨rfl, rfl, rfl⟩
    obtain ⟨rfl, hspec, hempty⟩ := hone
    obtain ⟨rfl, hspecs, hall⟩ := ih (i + 1) (fun s' hs' => hsink s' (List.mem_cons_of_mem s hs')) hms
    refine ⟨rfl, by simp [hspec, hspecs], fun m' hm' => ?_⟩
    rcases List.mem_cons.mp hm' with rfl | hm'
    · exact hempty
    · exact hall m' hm'

theorem init_coordinatorOk {numBlocks maxModelLen hashBlockSize : Nat}
    {enableCaching useEagle : Bool} {k : KVCacheManager H}
    (hsink : ∀ s ∈ specs, s.isSinkless = true) (hpos : ∀ s ∈ specs, 0 < s.blockSize)
    (h : KVCacheManager.init specs numBlocks maxModelLen hashBlockSize enableCaching useEagle = .ok k) :
    CoordinatorOk specs k.coordinator := by
  simp only [KVCacheManager.init, KVCacheCoordinator.init, Raises.bind_eq_ok,
    Raises.pure_eq_ok] at h
  obtain ⟨c, ⟨p, hpool, ⟨p', ms⟩, hms, kind, hkind, rfl⟩, rfl⟩ := h
  obtain ⟨rfl, hspecs, hempty⟩ := initManagers_ok specs 0 hsink hms
  obtain ⟨hacc, hhash⟩ := BlockPool.init_accounted hpool
  refine ⟨⟨hacc.congr (fun b _ => ?_) rfl rfl rfl rfl, hhash, fun m hm reqId blocks hget => ?_⟩,
    ?_, hspecs⟩
  · have hzero : ∀ m ∈ ms, m.occurrences b = 0 := by
      intro m hm
      rw [occurrences, hempty m hm, Dict.total_empty]
    have hmap : ms.map (fun m => m.occurrences b) = ms.map fun _ => 0 :=
      List.map_congr_left hzero
    simp [occurrencesAll, hmap]
  · rw [hempty m hm] at hget
    cases hget
  · unfold KVCacheCoordinator.initKind at hkind
    split at hkind
    · split at hkind
      · simp only [Raises.bind_eq_ok, Raises.pure_eq_ok] at hkind
        obtain ⟨-, -, rfl⟩ := hkind
        rfl
      · simp only [Raises.bind_eq_ok, Raises.pure_eq_ok] at hkind
        obtain ⟨hc, hinit, rfl⟩ := hkind
        exact ⟨init_hybridOk hpos hinit, (init_fields hinit).1⟩
    · obtain rfl := Except.ok.inj hkind
      trivial

/-! ## Runs -/

/-- Counts, lists and free queue agree. -/
structure KvAccounted (k : KVCacheManager H) : Prop where
  refCnt : ∀ b, b ≠ nullBlock →
    k.blockPool.refCnt b = occurrencesAll k.coordinator.singleTypeManagers b
  lists : ∀ m ∈ k.coordinator.singleTypeManagers, ∀ reqId blocks,
    m.reqToBlocks.get? reqId = some blocks → ∀ b, b ≠ nullBlock → blocks.count b ≤ 1
  free_nodup : k.blockPool.freeBlocks.Nodup
  mem_free : ∀ b, b ∈ k.blockPool.freeBlocks ↔
    b ≠ nullBlock ∧ b < k.blockPool.numGpuBlocks ∧ k.blockPool.refCnt b = 0
  num_free : k.blockPool.numFreeBlocks = k.blockPool.freeBlocks.length
  null_not_free : nullBlock ∉ k.blockPool.freeBlocks

theorem CoordinatorOk.kvAccounted {k : KVCacheManager H} (h : CoordinatorOk specs k.coordinator) :
    KvAccounted k := by
  have hacc := h.balanced.accounted
  have hcnt : ∀ b, b ≠ nullBlock →
      k.blockPool.refCnt b = occurrencesAll k.coordinator.singleTypeManagers b := by
    intro b hb
    have := hacc.cnt b hb
    rwa [Nat.zero_add] at this
  refine ⟨hcnt, fun m hm => h.balanced.lists m hm, hacc.nodup, fun b => ?_, hacc.num, ?_⟩
  · have hmem := hacc.mem_free b
    rw [Nat.zero_add] at hmem
    refine hmem.trans ⟨?_, ?_⟩
    · rintro ⟨h1, h2, h3⟩
      exact ⟨h1, h2, by rw [hcnt b h1, h3]; rfl⟩
    · rintro ⟨h1, h2, h3⟩
      rw [hcnt b h1] at h3
      exact ⟨h1, h2, by exact_mod_cast h3⟩
  · intro hnull
    exact ((hacc.mem_free nullBlock).mp hnull).1 rfl

/-- **KV block accounting.** Start from any number of groups of full-attention,
sliding-window and chunked-local layers and make any calls. If the coordinator
truncates all its lists, or if external tokens only come with hit lists that
fit, then counts, lists and free queue agree at the end, hence in every state
of the run. -/
theorem accounting_run {specs : List KVCacheSpec} {numBlocks maxModelLen hashBlockSize : Nat}
    {enableCaching useEagle : Bool} {k₀ k : KVCacheManager H} {ops : List (KvOp H)}
    (hplain : ∀ s ∈ specs, s.isPlainAttention = true) (hpos : ∀ s ∈ specs, 0 < s.blockSize)
    (hinit : KVCacheManager.init specs numBlocks maxModelLen hashBlockSize enableCaching useEagle
      = .ok k₀)
    (hissued : ∀ op ∈ ops, op.Issued)
    (hfit : k₀.coordinator.kind.Truncates ∨ Run.Guarded KvOp.step (fun k op => op.FitsExternal k)
      k₀ ops)
    (hrun : Run.exec KvOp.step k₀ ops = .ok k) : KvAccounted k := by
  have hok := init_coordinatorOk (sinkless_of_plain hplain) hpos hinit
  have hguard : Run.Guarded KvOp.step (fun k op => op.Issued ∧
      (k₀.coordinator.kind.Truncates ∨ op.FitsExternal k)) k₀ ops := by
    refine Run.Guarded.and_mem ops k₀ hissued ?_
    rcases hfit with ht | hg
    · exact Run.Guarded.of_forall (fun _ _ => Or.inl ht) ops k₀
    · exact Run.Guarded.mono (fun _ _ h => Or.inr h) ops k₀ hg
  have hinv := Run.exec_inv
    (I := fun k => CoordinatorOk specs k.coordinator ∧ k.coordinator.kind = k₀.coordinator.kind)
    (fun s op s' hs hg hstep => by
      have h := kvOp_step hpos hs.1 hg.1 (by rw [hs.2]; exact hg.2) hstep
      exact ⟨h.ok, h.kind.trans hs.2⟩) ops k₀ k ⟨hok, rfl⟩ hguard hrun
  exact hinv.1.kvAccounted

/-- A request in blocks of four. -/
def tokensRequest (requestId : ReqId) (tokens : List Token) : Request Digest :=
  Request.updateBlockHashes (some (freeHasher 4))
    (Request.fresh (plainPrompt requestId tokens) tokens.length 16 .waiting)

/-- The fourteenth token of a request moves the window past its first block. A
second request, which ends at once, takes every free block, that one included,
and a third one with the first nine tokens of the first comes with four external
tokens. -/
def externalOps : List (KvOp Digest) :=
  [.start (tokensRequest "a" (List.range 13)) 13 0 0 false 0,
    .extend { tokensRequest "a" (List.range 14) with numComputedTokens := 13 } 1 0 false 0,
    .start (tokensRequest "c" (List.range' 20 9)) 9 0 0 false 0, .free "c",
    .start (tokensRequest "b" (List.range 9)) 5 0 4 false 0]

theorem externalOps_issued : ∀ op ∈ externalOps, op.Issued := by
  simp only [externalOps, List.forall_mem_cons, List.not_mem_nil, false_implies, implies_true,
    and_true]
  exact ⟨⟨rfl, by decide⟩, trivial, ⟨rfl, by decide⟩, trivial, rfl, by decide⟩

/-- The run of `externalOps` over the given groups. -/
def externalRun (specs : List KVCacheSpec) : Except Python.Error (KVCacheManager Digest) := do
  let k ← KVCacheManager.init specs 21 64 4 true false
  Run.exec KvOp.step k externalOps

/-- The second full-attention group takes over two blocks for four tokens, and
the counter ends one above the length of the queue. -/
theorem negative_allocation_breaks_counter :
    ¬ ∀ (specs : List KVCacheSpec) (numBlocks maxModelLen hashBlockSize : Nat)
      (enableCaching useEagle : Bool) (k₀ k : KVCacheManager Digest) (ops : List (KvOp Digest)),
      (∀ s ∈ specs, s.isPlainAttention = true) → (∀ s ∈ specs, 0 < s.blockSize) →
      KVCacheManager.init specs numBlocks maxModelLen hashBlockSize enableCaching useEagle
        = .ok k₀ →
      (∀ op ∈ ops, op.Issued) → Run.exec KvOp.step k₀ ops = .ok k → KvAccounted k := by
  intro hall
  have hval : (externalRun twoFullSpecs).toOption.map
      (fun k => (k.blockPool.numFreeBlocks, k.blockPool.freeBlocks))
      = some (3, [20, 19]) := by decide +kernel
  cases hrun : externalRun twoFullSpecs with
  | error e => rw [hrun] at hval; cases hval
  | ok k =>
    rw [hrun] at hval
    obtain ⟨hnum, hfree⟩ := Prod.mk.inj (Option.some.inj hval)
    simp only [externalRun, Raises.bind_eq_ok] at hrun
    obtain ⟨k₀, hinit, hexec⟩ := hrun
    have hacc := hall twoFullSpecs 21 64 4 true false k₀ k externalOps (by decide) (by decide) hinit
      externalOps_issued hexec
    have := hacc.num_free
    rw [hnum, hfree] at this
    exact absurd this (by decide)

/-- With one full-attention group the same run keeps the accounts. -/
theorem oneFull_accounted : ∃ k₀ k : KVCacheManager Digest,
    KVCacheManager.init oneFullCoordinator.specs 21 64 4 true false = .ok k₀ ∧
      Run.exec KvOp.step k₀ externalOps = .ok k ∧ KvAccounted k := by
  obtain ⟨k, hrun⟩ := Raises.exists_of_isOk (x := externalRun oneFullCoordinator.specs)
    (by decide +kernel)
  simp only [externalRun, Raises.bind_eq_ok] at hrun
  obtain ⟨k₀, hinit, hexec⟩ := hrun
  have hkind : k₀.coordinator.kind = .hybrid oneFullCoordinator := by
    have hval : ((KVCacheManager.init oneFullCoordinator.specs 21 64 4 true false :
        Except Python.Error (KVCacheManager Digest)).toOption.map (·.coordinator.kind))
        = some (.hybrid oneFullCoordinator) := by decide +kernel
    rw [hinit] at hval
    exact Option.some.inj hval
  refine ⟨k₀, k, hinit, hexec, accounting_run (by decide) (by decide) hinit externalOps_issued
    (Or.inl ?_) hexec⟩
  rw [hkind]
  exact Or.inr rfl

end VllmEngine
