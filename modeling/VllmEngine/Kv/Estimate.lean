import VllmEngine.Kv.Solo

/-!
# The allocation estimate

`allocate_slots` asks `get_num_blocks_to_allocate` how many blocks the request
needs and then trusts the answer: nothing is checked again while
`allocate_new_computed_blocks` and `allocate_new_blocks` change the pool. Here
the estimate is compared with the number of blocks that really leave the free
queue.

For one manager they agree. Over several groups they agree only if no group
pops, for external tokens, a block that is a hit of a later group: the hits of
the later group are touched too late.

> `estimate_run`: in every run whose external tokens come with hit lists that
> fit and take no hits of a later group, every call of `allocate_slots` takes
> exactly the estimated number of blocks, and a refused call only frees blocks
> in front of the window,
> `later_hit_popped`: without the condition a hit of the second group is popped
> for the first one.
-/

namespace VllmEngine

open SingleTypeManager KVCacheManager KVCacheCoordinator

variable {H : Type} [DecidableEq H]

/-! ## Blocks in front of the window -/

/-- A sliding window has at least one token. -/
def KVCacheSpec.hasWindow (s : KVCacheSpec) : Bool :=
  match s.kind with
  | .slidingWindow _ w => decide (0 < w)
  | _ => true

variable {m : SingleTypeManager H} {p : BlockPool H} {reqId : ReqId} {k : KVCacheManager H}

omit [DecidableEq H] in
theorem numSkippedBlocks_le (hplain : m.spec.isPlainAttention = true)
    (hwindow : m.spec.hasWindow = true) (hbs : 0 < m.spec.blockSize) (total : Int) :
    m.numSkippedBlocks total ≤ max 0 (m.numRequiredBlocks total) := by
  have hbs' : (0 : Int) < m.spec.blockSize := by exact_mod_cast hbs
  have htokens : m.getNumSkippedTokens total ≤ max 0 total := by
    unfold KVCacheSpec.isPlainAttention at hplain
    unfold KVCacheSpec.hasWindow at hwindow
    unfold getNumSkippedTokens
    cases hk : m.spec.kind with
    | slidingWindow a w =>
      simp only [hk, decide_eq_true_eq] at hwindow
      dsimp only
      omega
    | chunkedLocalAttention a chunk =>
      dsimp only
      by_cases h0 : chunk = 0
      · subst h0
        simp
      · rw [Int.fdiv_eq_ediv_of_nonneg _ (by omega)]
        have := Int.ediv_mul_le total (b := (chunk : Int)) (by omega)
        omega
    | mamba f => simp [hk] at hplain
    | _ => exact Int.le_max_left 0 total
  -- the skipped blocks are whole blocks of skipped tokens
  have hwhole : m.numSkippedBlocks total * m.spec.blockSize ≤ m.getNumSkippedTokens total := by
    unfold numSkippedBlocks
    rw [Int.fdiv_eq_ediv_of_nonneg _ (Int.le_of_lt hbs')]
    exact Int.ediv_mul_le _ (ne_of_gt hbs')
  by_contra hgt
  have h1 : m.numRequiredBlocks total ≤ m.numSkippedBlocks total - 1 := by omega
  have h2 := (Python.cdiv_le_iff hbs').mp h1
  have h3 : (1 : Int) * m.spec.blockSize ≤ m.numSkippedBlocks total * m.spec.blockSize :=
    Int.mul_le_mul_of_nonneg_right (by omega) (Int.le_of_lt hbs')
  rw [Int.sub_mul, Int.one_mul] at h2
  rw [Int.one_mul] at h3
  omega

/-- The request's list after `remove_skipped_blocks`: blocks in front of the
window may have become null blocks, nothing else changed. -/
structure WindowFreed (reqId : ReqId) (total : Int) (m m' : SingleTypeManager H) : Prop where
  spec : m'.spec = m.spec
  enableCaching : m'.enableCaching = m.enableCaching
  numCachedBlock : m'.numCachedBlock = m.numCachedBlock
  others : ∀ id, id ≠ reqId → m'.reqToBlocks.get? id = m.reqToBlocks.get? id
  length : (m'.reqBlocks reqId).length = (m.reqBlocks reqId).length
  entries : ∀ (i : Nat) b, (m'.reqBlocks reqId)[i]? = some b →
    (m.reqBlocks reqId)[i]? = some b ∨ b = nullBlock ∧ (i : Int) < m.numSkippedBlocks total

/-- What freeing blocks leaves alone in the pool. -/
structure OnlyFrees (p p' : BlockPool H) : Prop where
  hashMap : p'.cachedBlockHashToBlock = p.cachedBlockHashToBlock
  blockHash : p'.blockHash = p.blockHash
  queue : p.freeBlocks <+: p'.freeBlocks

omit [DecidableEq H] in
theorem OnlyFrees.trans {p' p'' : BlockPool H} (h : OnlyFrees p p') (h' : OnlyFrees p' p'') :
    OnlyFrees p p'' :=
  ⟨h'.hashMap.trans h.hashMap, h'.blockHash.trans h.blockHash, h.queue.trans h'.queue⟩

omit [DecidableEq H] in
theorem baseRemoveSkippedBlocks_freed (p : BlockPool H) (m : SingleTypeManager H) (reqId : ReqId)
    (total : Int) :
    OnlyFrees p (m.baseRemoveSkippedBlocks p reqId total).1 ∧
      WindowFreed reqId total m (m.baseRemoveSkippedBlocks p reqId total).2 := by
  unfold baseRemoveSkippedBlocks
  split
  · exact ⟨⟨rfl, rfl, List.prefix_refl _⟩,
      ⟨rfl, rfl, rfl, fun _ _ => rfl, rfl, fun i b h => Or.inl h⟩⟩
  · dsimp only
    obtain ⟨hlen, hget⟩ := skipLoop_entries
      (min (m.numSkippedBlocks total) ((m.reqBlocks reqId).length : Int)).toNat (m.reqBlocks reqId)
    refine ⟨⟨rfl, rfl, List.prefix_append _ _⟩, ⟨rfl, rfl, rfl, fun id hid => ?_, ?_, fun i b h => ?_⟩⟩
    · rw [setBlocks, Dict.get?_set, if_neg hid]
    · rw [setBlocks_reqBlocks, hlen]
    · rw [setBlocks_reqBlocks] at h
      exact (hget i b h).imp_right fun hnull => ⟨hnull.1, by omega⟩

omit [DecidableEq H] in
/-- A request without blocks has none to free. -/
theorem baseRemoveSkippedBlocks_empty (p : BlockPool H) (hempty : m.reqBlocks reqId = [])
    (total : Int) : (m.baseRemoveSkippedBlocks p reqId total).1 = p := by
  unfold baseRemoveSkippedBlocks
  split
  · rfl
  · have hn : (min (m.numSkippedBlocks total) (([] : List BlockId).length : Int)).toNat = 0 := by
      rw [List.length_nil]
      omega
    dsimp only
    rw [hempty, hn, skipLoop]
    simp [BlockPool.freeBlocksOf]

omit [DecidableEq H] in
theorem removeSkippedLoop_freed (reqId : ReqId) (total : Int) :
    ∀ (ms : List (SingleTypeManager H)) (i : Nat) (p : BlockPool H),
      (∀ m ∈ ms, m.spec.isPlainAttention = true) →
      ∃ p' ms' as, mapManagers (fun _ p m =>
          (.ok ((m.removeSkippedBlocks p reqId total).1, (m.removeSkippedBlocks p reqId total).2, ()) :
            Except Python.Error _)) i p ms = .ok (p', ms', as) ∧
        OnlyFrees p p' ∧ List.Forall₂ (WindowFreed reqId total) ms ms' ∧
        ((∀ m ∈ ms, m.reqBlocks reqId = []) → p' = p) := by
  intro ms
  induction ms with
  | nil =>
    intro i p _
    exact ⟨p, [], [], rfl, ⟨rfl, rfl, List.prefix_refl _⟩, List.Forall₂.nil, fun _ => rfl⟩
  | cons m ms ih =>
    intro i p hplain
    obtain ⟨p', ms', as, hloop, hfrees, hall, hsame⟩ :=
      ih (i + 1) (m.removeSkippedBlocks p reqId total).1
        fun m' hm' => hplain m' (List.mem_cons_of_mem m hm')
    obtain ⟨hpool, hm⟩ := baseRemoveSkippedBlocks_freed p m reqId total
    rw [← removeSkippedBlocks_eq (hplain m List.mem_cons_self)] at hpool hm
    refine ⟨p', _, _, Raises.bind_eq_ok.mpr ⟨_, rfl, Raises.bind_eq_ok.mpr ⟨_, hloop, rfl⟩⟩,
      hpool.trans hfrees, List.Forall₂.cons hm hall, fun hempty => ?_⟩
    rw [hsame fun m' hm' => hempty m' (List.mem_cons_of_mem m hm'),
      removeSkippedBlocks_eq (hplain m List.mem_cons_self)]
    exact baseRemoveSkippedBlocks_empty p (hempty m List.mem_cons_self) total

/-! ## The estimate of one manager -/

omit [DecidableEq H] in
theorem keptBlocks_eq (m : SingleTypeManager H) (hits : List BlockId) (total : Int) :
    m.keptBlocks hits total = hits.drop (max 0 (m.numSkippedBlocks total)).toNat := by
  unfold keptBlocks
  split
  · rw [max_eq_right (by omega)]
  · rw [max_eq_left (by omega)]
    rfl

omit [DecidableEq H] in
/-- The adopted list reaches to the end of the hits or of the skipped blocks. -/
theorem numAdopted_eq (m : SingleTypeManager H) (hits : List BlockId) (total : Int) :
    m.numAdopted hits total = max (m.numSkippedBlocks total) hits.length := by
  rw [numAdopted, keptBlocks_eq, List.length_append, List.length_replicate, List.length_drop]
  omega

omit [DecidableEq H] in
/-- A request without new hits takes what its list misses. -/
theorem baseNumBlocksToAllocate_running {total : Int}
    (hslots : m.numCachedBlock.contains reqId = true ∨ m.numSkippedBlocks total ≤ (m.reqBlocks reqId).length)
    (numTokens : Int) :
    m.baseNumBlocksToAllocate p reqId numTokens [] total = .ok (m.missingBlocks reqId numTokens) := by
  unfold baseNumBlocksToAllocate missingBlocks
  dsimp only
  by_cases hc : m.numCachedBlock.contains reqId = true
  · rw [if_pos hc]
    exact if_pos List.length_nil
  · have hle := hslots.resolve_left hc
    rw [if_neg hc, List.drop_nil, getNumEvictableBlocks, List.countP_nil, List.length_nil,
      Except.ok.injEq]
    omega

/-- A new request takes its share of the queue and what it misses then. -/
theorem baseNumBlocksToAllocate_new {R : BlockId → Nat} {hits : List BlockId}
    {loc ext numTokens : Int} (hb : Balanced R p m) (hready : ReadyToAdopt p reqId hits loc ext m)
    (hneed : ext ≤ 0 ∨ loc + ext ≤ numTokens) :
    m.baseNumBlocksToAllocate p reqId numTokens hits (loc + ext)
      = .ok (Reserve.demand p.freeBlocks (m.share hits (loc + ext) ext)
          + max (m.numRequiredBlocks numTokens - (m.numAdopted hits (loc + ext)
            + m.externalCount hits (loc + ext) ext)) 0) := by
  have hbs : (0 : Int) < m.spec.blockSize := by exact_mod_cast hready.blockSize_pos
  have hnonneg := hready.external_nonneg
  -- the external blocks are among the blocks of the tokens that need a slot
  have hext : m.externalCount hits (loc + ext) ext = 0 ∨
      m.numAdopted hits (loc + ext) + m.externalCount hits (loc + ext) ext
        ≤ m.numRequiredBlocks numTokens := by
    unfold externalCount
    split
    · rename_i hpos
      right
      have hle : loc + ext ≤ numTokens := hneed.resolve_left fun h => by
        unfold keptExternalTokens at hpos
        split at hpos <;> omega
      have hmono : m.numRequiredBlocks (loc + ext) ≤ m.numRequiredBlocks numTokens := by
        refine (Python.cdiv_le_iff hbs).mpr (Int.le_trans hle ?_)
        exact (Python.cdiv_le_iff hbs).mp (Int.le_refl _)
      omega
    · exact Or.inl rfl
  have hkept : hits.drop (max 0 (m.numSkippedBlocks (loc + ext)
      - ((m.reqBlocks reqId).length : Int))).toNat = m.keptBlocks hits (loc + ext) := by
    rw [hready.empty, keptBlocks_eq, List.length_nil, Int.natCast_zero, Int.sub_zero]
  unfold baseNumBlocksToAllocate
  dsimp only
  rw [hready.fresh, if_neg (by simp), hkept, numEvictable_eq hb (hready.valid.kept m _).1,
    hready.empty, List.length_nil, Int.natCast_zero, Int.add_zero, ← numAdopted_eq]
  unfold Reserve.demand share
  rw [Except.ok.injEq]
  push_cast
  omega

/-! ## The estimate of the coordinator -/

/-- No manager has new hits for the request, and its list reaches to the
window. -/
structure RunningIn (reqId : ReqId) (total : Int) (m : SingleTypeManager H) : Prop where
  plain : m.spec.isPlainAttention = true
  slots : m.numCachedBlock.contains reqId = true ∨
    m.numSkippedBlocks total ≤ (m.reqBlocks reqId).length

theorem estimate_running {hits : List (List BlockId)} {total : Int}
    (hhits : ∀ i, hits.getD i [] = []) (numTokens enc main : Int) :
    ∀ (ms : List (SingleTypeManager H)) (i : Nat), (∀ m ∈ ms, RunningIn reqId total m) →
      sumManagers (blocksToAllocateOf p reqId numTokens hits enc total main) i ms
        = .ok (missingAll ms reqId numTokens) := by
  intro ms
  induction ms with
  | nil => intro i _; rfl
  | cons m ms ih =>
    intro i hms
    have hm := hms m List.mem_cons_self
    have hone : blocksToAllocateOf p reqId numTokens hits enc total main i m
        = .ok (m.missingBlocks reqId numTokens) := by
      unfold blocksToAllocateOf
      rw [isCrossAttention_eq_false hm.plain, if_neg (by simp), hhits,
        getNumBlocksToAllocate_eq hm.plain]
      exact baseNumBlocksToAllocate_running hm.slots numTokens
    rw [sumManagers, hone, ih (i + 1) fun m' hm' => hms m' (List.mem_cons_of_mem m hm')]
    rfl

theorem estimate_new {hits : List (List BlockId)} {loc ext numTokens : Int}
    (hneed : ext ≤ 0 ∨ loc + ext ≤ numTokens) (enc main : Int) :
    ∀ (ms : List (SingleTypeManager H)) (i : Nat) (R : BlockId → Nat), AllBalanced R p ms →
      (∀ j m, ms[j]? = some m → ReadyToAdopt p reqId (hits.getD (i + j) []) loc ext m) →
      sumManagers (blocksToAllocateOf p reqId numTokens hits enc (loc + ext) main) i ms
        = .ok (((shares hits (loc + ext) ext i ms).map (Reserve.demand p.freeBlocks)).sum
          + missingAfter hits (loc + ext) ext numTokens i ms) := by
  intro ms
  induction ms with
  | nil => intro i R _ _; rfl
  | cons m ms ih =>
    intro i R hb hready
    have hm : ReadyToAdopt p reqId (hits.getD i []) loc ext m := hready 0 m rfl
    have hone : blocksToAllocateOf p reqId numTokens hits enc (loc + ext) main i m
        = .ok (Reserve.demand p.freeBlocks (m.share (hits.getD i []) (loc + ext) ext)
          + max (m.numRequiredBlocks numTokens - (m.numAdopted (hits.getD i []) (loc + ext)
            + m.externalCount (hits.getD i []) (loc + ext) ext)) 0) := by
      unfold blocksToAllocateOf
      rw [isCrossAttention_eq_false hm.plain, if_neg (by simp), getNumBlocksToAllocate_eq hm.plain]
      exact baseNumBlocksToAllocate_new hb.head hm hneed
    have hrest := ih (i + 1) _ (hb.tail (Keeps.refl p m)) fun j m' hj => by
      have := hready (j + 1) m' hj
      rwa [← Nat.add_assoc, Nat.add_right_comm] at this
    rw [sumManagers, hone, hrest, shares, missingAfter, List.map_cons, List.sum_cons]
    show Except.ok _ = Except.ok _
    rw [Except.ok.injEq]
    push_cast
    omega

/-! ## One call of `allocate_slots` -/

/-- The computed tokens before the cut at the model length. -/
def KVCacheManager.SlotArgs.computedTokens (a : SlotArgs) (r : Request H) : Int :=
  a.numLocalComputedTokens r + a.numExternalComputedTokens

/-- After the check both allocations return, and exactly `n` blocks leave the
free queue. -/
def Grants (k : KVCacheManager H) (r : Request H) (a : SlotArgs) (n : Int) : Prop :=
  ∃ c₁ c₂ new, k.adoptComputed r a = .ok c₁ ∧
    c₁.allocateNewBlocks r.requestId (a.numTokensNeedSlot r k.maxModelLen)
      (a.numTokensMainModel r k.maxModelLen) a.numEncoderTokens = .ok (c₂, new) ∧
    c₂.blockPool.freeBlocks.Sublist k.blockPool.freeBlocks ∧
    (c₂.blockPool.freeBlocks.length : Int) + n = k.blockPool.freeBlocks.length

/-- The request lost blocks in front of the window, and nothing else changed. -/
structure FreesOnlyWindow (reqId : ReqId) (total : Int) (k k' : KVCacheManager H) : Prop where
  managers : List.Forall₂ (WindowFreed reqId total) k.coordinator.singleTypeManagers
    k'.coordinator.singleTypeManagers
  pool : OnlyFrees k.blockPool k'.blockPool
  accounted : KvAccounted k'
  refCnt : ∀ b, b ≠ nullBlock → k'.blockPool.refCnt b
      + occurrencesAll k.coordinator.singleTypeManagers b
    = k.blockPool.refCnt b + occurrencesAll k'.coordinator.singleTypeManagers b

/-- **An exact estimate and a harmless refusal.** The estimate returns; if it is
at most the number of free blocks, the allocations return and take exactly that
many; no group asks for a negative number of external blocks; and a refused
call only frees blocks in front of the window. -/
def AllocatesExactly (k : KVCacheManager H) (r : Request H) (a : SlotArgs) : Prop :=
  ∃ c n, k.coordinator.removeSkippedBlocks r.requestId (a.totalComputedTokens r k.maxModelLen)
      = .ok c ∧
    c.getNumBlocksToAllocate r.requestId (a.numTokensNeedSlot r k.maxModelLen) a.newComputedBlocks
      a.numEncoderTokens (a.computedTokens r) (a.numTokensMainModel r k.maxModelLen) = .ok n ∧
    (n ≤ c.blockPool.numFreeBlocks → Grants { k with coordinator := c } r a n) ∧
    (∀ (i : Nat) (m : SingleTypeManager H), c.singleTypeManagers[i]? = some m →
      0 ≤ m.externalCount (a.newComputedBlocks.getD i []) (a.computedTokens r)
        a.numExternalComputedTokens) ∧
    ∀ k', k.allocateSlots r a = .ok (k', none) →
      FreesOnlyWindow r.requestId (a.totalComputedTokens r k.maxModelLen) k k'

/-- What the groups take from the free queue in `allocate_new_computed_blocks`. -/
def adoptShares (k : KVCacheManager H) (r : Request H) (a : SlotArgs) : List (List BlockId × Nat) :=
  shares a.newComputedBlocks (a.computedTokens r) a.numExternalComputedTokens 0
    k.coordinator.singleTypeManagers

section Calls

variable {specs : List KVCacheSpec} {k k' : KVCacheManager H} {r : Request H} {a : SlotArgs}
  (hplain : ∀ s ∈ specs, s.isPlainAttention = true)
include hplain

omit [DecidableEq H] hplain in
theorem KvAccounted.refCnt_sub (h : KvAccounted k) (h' : KvAccounted k') (b : BlockId)
    (hb : b ≠ nullBlock) : k'.blockPool.refCnt b + occurrencesAll k.coordinator.singleTypeManagers b
      = k.blockPool.refCnt b + occurrencesAll k'.coordinator.singleTypeManagers b := by
  rw [h.refCnt b hb, h'.refCnt b hb]
  exact Int.add_comm _ _

/-- `remove_skipped_blocks` returns and frees blocks in front of the window. -/
theorem removeSkipped_freed (hok : CoordinatorOk specs k.coordinator) (reqId : ReqId) (total : Int) :
    ∃ c, k.coordinator.removeSkippedBlocks reqId total = .ok c ∧
      CoordinatorStep specs k.coordinator c ∧
      FreesOnlyWindow reqId total k { k with coordinator := c } ∧
      ((∀ m ∈ k.coordinator.singleTypeManagers, m.reqBlocks reqId = []) →
        c.blockPool = k.blockPool) := by
  obtain ⟨p, ms, as, hloop, hfrees, hall, hsame⟩ := removeSkippedLoop_freed reqId total
    k.coordinator.singleTypeManagers 0 k.coordinator.blockPool fun m hm => by
      obtain ⟨j, hj⟩ := List.getElem?_of_mem hm
      exact hok.plain hplain hj
  obtain ⟨c, hc, hstep⟩ : ∃ c, c = { k.coordinator with blockPool := p, singleTypeManagers := ms } ∧
      k.coordinator.removeSkippedBlocks reqId total = .ok c :=
    ⟨_, rfl, Raises.bind_eq_ok.mpr ⟨_, Raises.bind_eq_ok.mpr ⟨_, hloop, rfl⟩, rfl⟩⟩
  have hco := coordinator_removeSkippedBlocks hok hstep
  have hacc : KvAccounted { k with coordinator := c } := hco.ok.kvAccounted
  refine ⟨c, hstep, hco, ⟨hc ▸ hall, ?_, hacc, hok.kvAccounted.refCnt_sub hacc⟩, fun h => ?_⟩
  · show OnlyFrees k.coordinator.blockPool c.blockPool
    rw [hc]
    exact hfrees
  · rw [hc]
    exact hsame h

/-- A refused call stops after `remove_skipped_blocks`. -/
theorem refused_freed (hok : CoordinatorOk specs k.coordinator)
    (h : k.allocateSlots r a = .ok (k', none)) :
    FreesOnlyWindow r.requestId (a.totalComputedTokens r k.maxModelLen) k k' := by
  obtain ⟨c, hskip, -, hfreed, -⟩ := removeSkipped_freed hplain hok r.requestId
    (a.totalComputedTokens r k.maxModelLen)
  unfold allocateSlots at h
  split at h
  · simp at h
  · rw [hskip] at h
    simp only [Raises.bind_eq_ok, Except.ok.injEq] at h
    obtain ⟨_, rfl, n, -, h⟩ := h
    split at h
    · obtain ⟨rfl, -⟩ := Prod.mk.inj (Raises.pure_eq_ok.mp h)
      exact hfreed
    · simp only [Raises.bind_eq_ok, Raises.pure_eq_ok, Prod.mk.injEq] at h
      obtain ⟨_, -, -, hnone⟩ := h
      cases hnone

/-- The new blocks of a coordinator whose queue has enough of them. -/
theorem allocateNewBlocks_grants {c : KVCacheCoordinator H} (hok : CoordinatorOk specs c)
    (reqId : ReqId) (numTokens main enc : Int)
    (hle : missingAll c.singleTypeManagers reqId numTokens ≤ c.blockPool.freeBlocks.length) :
    ∃ c' new, c.allocateNewBlocks reqId numTokens main enc = .ok (c', new) ∧
      c'.blockPool.freeBlocks.Sublist c.blockPool.freeBlocks ∧
      (c'.blockPool.freeBlocks.length : Int) + missingAll c.singleTypeManagers reqId numTokens
        = c.blockPool.freeBlocks.length := by
  obtain ⟨p, ms, new, hloop, hq⟩ := allocateLoop_exact reqId numTokens main enc c.singleTypeManagers
    0 _ hok.balanced (fun m hm => by
      obtain ⟨j, hj⟩ := List.getElem?_of_mem hm
      exact hok.plain hplain hj) hle
  have hnonneg := missingAll_nonneg c.singleTypeManagers reqId numTokens
  refine ⟨_, new, Raises.bind_eq_ok.mpr ⟨_, hloop, rfl⟩, ?_, ?_⟩
  · dsimp only
    rw [hq]
    exact List.drop_sublist _ _
  · dsimp only
    rw [hq, List.length_drop]
    omega

/-- A request without hits and external tokens. -/
theorem grants_running (hok : CoordinatorOk specs k.coordinator) (hnone : a.hasComputed = false)
    (hle : missingAll k.coordinator.singleTypeManagers r.requestId
      (a.numTokensNeedSlot r k.maxModelLen) ≤ k.blockPool.numFreeBlocks) :
    Grants k r a (missingAll k.coordinator.singleTypeManagers r.requestId
      (a.numTokensNeedSlot r k.maxModelLen)) := by
  rw [show k.blockPool.numFreeBlocks = _ from hok.balanced.accounted.num] at hle
  obtain ⟨c', new, hnew, hsub, hlen⟩ := allocateNewBlocks_grants hplain hok r.requestId
    (a.numTokensNeedSlot r k.maxModelLen) (a.numTokensMainModel r k.maxModelLen) a.numEncoderTokens hle
  exact ⟨k.coordinator, c', new, by rw [adoptComputed, hnone, if_neg (by simp)], hnew, hsub, hlen⟩

/-- **A new request with hits or external tokens.** -/
theorem grants_new (hpos : ∀ s ∈ specs, 0 < s.blockSize) (hok : CoordinatorOk specs k.coordinator)
    (hsome : a.hasComputed = true)
    (hready : ∀ j m, k.coordinator.singleTypeManagers[j]? = some m →
      ReadyToAdopt k.blockPool r.requestId (a.newComputedBlocks.getD j [])
        (a.numLocalComputedTokens r) a.numExternalComputedTokens m)
    (hvalid : ∀ i, HitsValid k.blockPool.numGpuBlocks (a.newComputedBlocks.getD i []))
    (hres : Reserve.Reserved k.blockPool.freeBlocks (adoptShares k r a))
    (hnone : Reserve.TakesNone k.blockPool.freeBlocks (adoptShares k r a))
    {n : Int} (hn : n = ((adoptShares k r a).map (Reserve.demand k.blockPool.freeBlocks)).sum
      + missingAfter a.newComputedBlocks (a.computedTokens r) a.numExternalComputedTokens
        (a.numTokensNeedSlot r k.maxModelLen) 0 k.coordinator.singleTypeManagers)
    (hle : n ≤ k.blockPool.numFreeBlocks) : Grants k r a n := by
  rw [show k.blockPool.numFreeBlocks = _ from hok.balanced.accounted.num] at hle
  have hmissing : 0 ≤ missingAfter a.newComputedBlocks (a.computedTokens r)
      a.numExternalComputedTokens (a.numTokensNeedSlot r k.maxModelLen) 0
      k.coordinator.singleTypeManagers := missingAfter_nonneg _ _ _ _ _ _
  have hsum : ((adoptShares k r a).map (Reserve.demand k.blockPool.freeBlocks)).sum
      ≤ k.blockPool.freeBlocks.length := by
    show _ ≤ k.coordinator.blockPool.freeBlocks.length
    omega
  obtain ⟨p, ms, as, hloop, hq, hleft⟩ := adoptLoop_exact k.coordinator.singleTypeManagers 0 _
    hok.balanced (fun j m hj => by rw [Nat.zero_add]; exact hready j m hj) hres hnone hsum
  obtain ⟨c, hc, hadopt⟩ : ∃ c, c = { k.coordinator with blockPool := p, singleTypeManagers := ms } ∧
      k.coordinator.allocateNewComputedBlocks r.requestId a.newComputedBlocks
        (a.numLocalComputedTokens r) a.numExternalComputedTokens = .ok c :=
    ⟨_, rfl, Raises.bind_eq_ok.mpr ⟨_, Raises.bind_eq_ok.mpr ⟨_, hloop, rfl⟩, rfl⟩⟩
  have hstep := coordinator_allocateNewComputedBlocks hok hpos hvalid (by
    by_cases h0 : (a.numExternalComputedTokens : Int) ≤ 0
    · exact Or.inl h0
    · right
      intro i spec hi
      rw [← hok.specs, List.getElem?_map, Option.map_eq_some_iff] at hi
      obtain ⟨m, hm, rfl⟩ := hi
      exact (hready i m hm).fits.resolve_left h0) hadopt
  have hfree : c.blockPool.freeBlocks
      = Reserve.takeAll k.blockPool.freeBlocks (adoptShares k r a) := by
    rw [hc]
    exact hq
  have hlen := Reserve.length_takeAll _ hok.balanced.accounted.nodup hres hnone hsum
  have hall : missingAll c.singleTypeManagers r.requestId (a.numTokensNeedSlot r k.maxModelLen)
      = missingAfter a.newComputedBlocks (a.computedTokens r) a.numExternalComputedTokens
        (a.numTokensNeedSlot r k.maxModelLen) 0 k.coordinator.singleTypeManagers := by
    rw [hc]
    exact hleft _
  have hlen' : c.blockPool.freeBlocks.length
      + ((adoptShares k r a).map (Reserve.demand k.blockPool.freeBlocks)).sum
      = k.coordinator.blockPool.freeBlocks.length := by
    rw [hfree]
    exact hlen
  obtain ⟨c', new, hnew, hsub, hcount⟩ := allocateNewBlocks_grants hplain hstep.ok r.requestId
    (a.numTokensNeedSlot r k.maxModelLen) (a.numTokensMainModel r k.maxModelLen)
    a.numEncoderTokens (by rw [hall]; omega)
  refine ⟨c, c', new, by rw [adoptComputed, hsome, if_pos rfl, hadopt], hnew, ?_, ?_⟩
  · refine hsub.trans ?_
    rw [hfree]
    exact Reserve.takeAll_sublist _ _
  · rw [hall] at hcount
    show _ = (k.coordinator.blockPool.freeBlocks.length : Int)
    omega

end Calls

/-! ## The hits of a new request -/

section Hits

variable {specs : List KVCacheSpec} {k : KVCacheManager H} {r : Request H}
  {res : List (List BlockId) × Nat}

/-- Some list of the hybrid lookup reaches to the hit. -/
theorem findLongestHit_zero {c : HybridCoordinator} (hok : HybridOk c) {p : BlockPool H}
    {hashes : List H} {maxLength : Nat} (h : c.findLongestHit p hashes maxLength = .ok res)
    (hempty : ∀ i, res.1.getD i [] = []) : res.2 = 0 := by
  simp only [HybridCoordinator.findLongestHit, Raises.bind_eq_ok, Raises.pure_eq_ok] at h
  obtain ⟨⟨hits, hit⟩, hloop, rfl⟩ := h
  have hl := hitLoop_ok hok maxLength _ maxLength (Nat.le_refl _) (Nat.le_refl _)
    (Or.inl fun _ => rfl) hloop
  obtain ⟨a, as, hgroups⟩ := List.exists_cons_of_ne_nil
    (List.ne_nil_of_length_pos (Nat.lt_of_lt_of_le Nat.two_pos hok.two_le))
  have ha : a ∈ c.attentionGroups := hgroups ▸ List.mem_cons_self
  obtain ⟨rows, hheld, -, hle, -⟩ := hl.entries a ha
  obtain ⟨g, hg⟩ := List.exists_mem_of_ne_nil _ (hok.split.nonempty a ha)
  have hlist := hempty g
  have hlt : g < c.specs.length := (List.getElem?_eq_some_iff.mp (hok.split.spec_eq a ha g hg).2).1
  dsimp only at hlist ⊢
  rw [List.getD_eq_getElem?_getD, List.getElem?_map, List.getElem?_range hlt, Option.map_some,
    Option.getD_some, HybridCoordinator.truncateFirst, hgroups] at hlist
  dsimp only at hlist
  split at hlist
  · -- the first entry's lists are cut to the hit, which is a multiple of their block size
    dsimp only at hlist
    rw [if_pos hg, hheld g hg, Option.map_some, Option.getD_some, List.take_eq_nil_iff] at hlist
    obtain ⟨d, hd⟩ := Nat.dvd_trans (hok.dvd_lcm a ha) hl.aligned
    rcases hlist with hzero | hnil
    · rw [hd, Nat.mul_div_cancel_left d (hok.blockSize_pos a ha)] at hzero
      rw [hd, hzero, Nat.mul_zero]
    · rw [List.map_eq_nil_iff.mp hnil, List.length_nil, Nat.zero_mul] at hle
      exact Nat.le_zero.mp hle
  · rw [hheld g hg, Option.getD_some] at hlist
    rw [List.map_eq_nil_iff.mp hlist, List.length_nil, Nat.zero_mul] at hle
    exact Nat.le_zero.mp hle

theorem getComputedBlocks_zero (hok : CoordinatorOk specs k.coordinator)
    (h : k.getComputedBlocks r = .ok res) (hempty : ∀ i, res.1.getD i [] = []) : res.2 = 0 := by
  unfold getComputedBlocks at h
  split at h
  · obtain rfl := Except.ok.inj h
    rfl
  · have hkind := hok.kind
    unfold KVCacheCoordinator.findLongestCacheHit at h
    cases hk : k.coordinator.kind with
    | noPrefixCache =>
      rw [hk] at h
      obtain rfl := Except.ok.inj h
      rfl
    | unitary spec =>
      rw [hk] at h
      simp only [Raises.bind_eq_ok, Raises.pure_eq_ok] at h
      obtain ⟨rows, -, rfl⟩ := h
      have hnil : column rows 0 = [] := hempty 0
      simp [List.map_eq_nil_iff.mp hnil]
    | hybrid hc =>
      rw [hk] at h hkind
      exact findLongestHit_zero hkind.1 h hempty

/-- Two groups have no hit in common: a block is filed under the key of one
group. -/
theorem getComputedBlocks_disjoint (hpos : ∀ s ∈ specs, 0 < s.blockSize)
    (hok : CoordinatorOk specs k.coordinator) (h : k.getComputedBlocks r = .ok res) {i j : Nat}
    (hij : i ≠ j) {b : BlockId} (hb : b ≠ nullBlock) (hi : b ∈ res.1.getD i []) :
    b ∉ res.1.getD j [] := by
  unfold getComputedBlocks at h
  split at h
  · obtain rfl := Except.ok.inj h
    rw [emptyKvCacheBlocks_getD] at hi
    cases hi
  · intro hj
    have hkey : ∀ g, b ∈ res.1.getD g [] → ∃ x, k.coordinator.blockPool.blockHash b = some (x, g) := by
      intro g hg
      obtain ⟨l, -, he⟩ := findLongestCacheHit_entries hok hpos h g
      obtain ⟨n, hn⟩ := List.getElem?_of_mem hg
      obtain ⟨x, -, hone⟩ := (he n b hn).resolve_left hb
      exact ⟨x, blockHash_of_getOneBlock hok.balanced.hashOk hone⟩
    obtain ⟨x, hx⟩ := hkey i hi
    obtain ⟨y, hy⟩ := hkey j hj
    rw [hx, Option.some.injEq, Prod.mk.injEq] at hy
    exact hij hy.2

omit [DecidableEq H] in
theorem shares_mem {hits : List (List BlockId)} {total ext : Int} :
    ∀ (ms : List (SingleTypeManager H)) (i : Nat) {s : List BlockId × Nat},
      s ∈ shares hits total ext i ms → ∃ j, i ≤ j ∧ s.1.Sublist (hits.getD j []) := by
  intro ms
  induction ms with
  | nil => intro i s hs; cases hs
  | cons m ms ih =>
    intro i s hs
    rw [shares] at hs
    rcases List.mem_cons.mp hs with rfl | hs
    · refine ⟨i, Nat.le_refl i, ?_⟩
      show (m.keptBlocks _ _).Sublist _
      rw [keptBlocks_eq]
      exact List.drop_sublist _ _
    · obtain ⟨j, hj, hsub⟩ := ih (i + 1) hs
      exact ⟨j, Nat.le_of_succ_le hj, hsub⟩

omit [DecidableEq H] in
/-- Valid hit lists without a common block are reserved once. -/
theorem shares_reserved {q : List BlockId} {hits : List (List BlockId)} {n : Nat} {total ext : Int}
    (hq : nullBlock ∉ q) (hvalid : ∀ i, HitsValid n (hits.getD i []))
    (hdisj : ∀ i j : Nat, i ≠ j → ∀ b, b ≠ nullBlock → b ∈ hits.getD i [] → b ∉ hits.getD j []) :
    ∀ (ms : List (SingleTypeManager H)) (i : Nat),
      Reserve.Reserved q (shares hits total ext i ms) := by
  intro ms
  induction ms with
  | nil => intro i; exact ⟨fun s hs => (by cases hs), List.Pairwise.nil⟩
  | cons m ms ih =>
    intro i
    have hne : ∀ b ∈ q, b ≠ nullBlock := fun b hb h => hq (h ▸ hb)
    have hsub : (m.share (hits.getD i []) total ext).1.Sublist (hits.getD i []) := by
      show (m.keptBlocks _ _).Sublist _
      rw [keptBlocks_eq]
      exact List.drop_sublist _ _
    refine ⟨fun s hs b hb => ?_, List.pairwise_cons.mpr ⟨fun s hs b hb hhead htail => ?_,
      (ih (i + 1)).disjoint⟩⟩
    · obtain ⟨j, -, hj⟩ := shares_mem (m :: ms) i hs
      exact Nat.le_trans (hj.count_le b) ((hvalid j).2 b (hne b hb))
    · obtain ⟨j, hj, hlater⟩ := shares_mem ms (i + 1) hs
      exact hdisj i j (by omega) b (hne b hb) (hsub.mem hhead) (hlater.mem htail)

end Hits

/-! ## The caching flag -/

section Caching

variable {e : Bool} {p p' : BlockPool H} {m m' : SingleTypeManager H} {reqId : ReqId}

omit [DecidableEq H] in
/-- A round that keeps a property of its manager, for all managers. -/
theorem onManagers_forall {α : Type} {P : SingleTypeManager H → Prop}
    {f : Nat → BlockPool H → SingleTypeManager H →
      Except Python.Error (BlockPool H × SingleTypeManager H × α)}
    (hf : ∀ i q m q' m' a, P m → f i q m = .ok (q', m', a) → P m') {c c' : KVCacheCoordinator H}
    {as : List α} (h : c.onManagers f = .ok (c', as)) (hc : ∀ m ∈ c.singleTypeManagers, P m) :
    ∀ m ∈ c'.singleTypeManagers, P m := by
  intro m' hm'
  obtain ⟨i, hi⟩ := List.getElem?_of_mem hm'
  obtain ⟨m, q, q', a, hm, hround⟩ := onManagers_at h hi
  exact hf i q m q' m' a (hc m (List.mem_of_getElem? hm)) hround

/-- The manager's spec and flag are untouched. -/
def SameKind (m m' : SingleTypeManager H) : Prop :=
  m'.spec = m.spec ∧ m'.enableCaching = m.enableCaching

theorem baseAllocateNewComputedBlocks_same {hits : List BlockId} {loc ext : Int}
    (h : m.baseAllocateNewComputedBlocks p reqId hits loc ext = .ok (p', m')) :
    SameKind m m' := by
  unfold baseAllocateNewComputedBlocks at h
  split at h
  · split at h
    · obtain ⟨-, rfl⟩ := Prod.mk.inj (Except.ok.inj h)
      exact ⟨rfl, rfl⟩
    · cases h
  · split at h
    · cases h
    · simp only [Raises.bind_eq_ok, adoptBlocks, Raises.pure_eq_ok] at h
      obtain ⟨⟨q, n⟩, ⟨q₁, -, heq⟩, h⟩ := h
      obtain ⟨rfl, rfl⟩ := Prod.mk.inj heq
      split at h
      · simp only [allocateExternal, Raises.bind_eq_ok, Raises.pure_eq_ok] at h
        obtain ⟨⟨q', new⟩, -, heq⟩ := h
        obtain ⟨-, rfl⟩ := Prod.mk.inj heq
        exact ⟨rfl, rfl⟩
      · obtain ⟨-, rfl⟩ := Prod.mk.inj (Raises.pure_eq_ok.mp h)
        exact ⟨rfl, rfl⟩

theorem baseAllocateNewBlocks_same {n : Int} {new : List BlockId}
    (h : m.baseAllocateNewBlocks p reqId n = .ok (p', m', new)) :
    SameKind m m' := by
  unfold baseAllocateNewBlocks at h
  dsimp only at h
  split at h
  · simp only [Except.ok.injEq, Prod.mk.injEq] at h
    obtain ⟨-, rfl, -⟩ := h
    exact ⟨rfl, rfl⟩
  · simp only [Raises.bind_eq_ok, Raises.pure_eq_ok, Prod.mk.injEq] at h
    obtain ⟨_, -, -, rfl, -⟩ := h
    exact ⟨rfl, rfl⟩

theorem baseCacheBlocks_same {r : Request H} {n : Int}
    (h : m.baseCacheBlocks p r n = .ok (p', m')) : SameKind m m' := by
  unfold baseCacheBlocks at h
  dsimp only at h
  split at h
  · obtain ⟨-, rfl⟩ := Prod.mk.inj (Except.ok.inj h)
    exact ⟨rfl, rfl⟩
  · simp only [Raises.bind_eq_ok, Raises.pure_eq_ok, Prod.mk.injEq] at h
    obtain ⟨_, -, -, rfl⟩ := h
    exact ⟨rfl, rfl⟩

/-- What the calls keep of a manager: a plain type and its caching flag. -/
def PlainCaching (e : Bool) (m : SingleTypeManager H) : Prop :=
  m.spec.isPlainAttention = true ∧ m.enableCaching = e

omit [DecidableEq H] in
theorem PlainCaching.of_same (hm : PlainCaching e m) (h : SameKind m m') : PlainCaching e m' :=
  ⟨h.1 ▸ hm.1, h.2.trans hm.2⟩

variable {c c' : KVCacheCoordinator H} (hc : ∀ m ∈ c.singleTypeManagers, PlainCaching e m)
include hc

omit [DecidableEq H] in
theorem removeSkippedBlocks_caching {n : Int} (h : c.removeSkippedBlocks reqId n = .ok c') :
    ∀ m ∈ c'.singleTypeManagers, PlainCaching e m := by
  simp only [KVCacheCoordinator.removeSkippedBlocks, Raises.bind_eq_ok, Raises.pure_eq_ok] at h
  obtain ⟨⟨c₁, as⟩, hon, rfl⟩ := h
  refine onManagers_forall (fun i q m q' m' a hm hf => ?_) hon hc
  rw [removeSkippedBlocks_eq hm.1] at hf
  simp only [Except.ok.injEq, Prod.mk.injEq] at hf
  obtain ⟨-, rfl, -⟩ := hf
  obtain ⟨-, hfreed⟩ := baseRemoveSkippedBlocks_freed q m reqId n
  exact hm.of_same ⟨hfreed.spec, hfreed.enableCaching⟩

omit [DecidableEq H] in
theorem free_caching (h : c.free reqId = .ok c') :
    ∀ m ∈ c'.singleTypeManagers, PlainCaching e m := by
  simp only [KVCacheCoordinator.free, Raises.bind_eq_ok, Raises.pure_eq_ok] at h
  obtain ⟨⟨c₁, as⟩, hon, rfl⟩ := h
  refine onManagers_forall (fun i q m q' m' a hm hf => ?_) hon hc
  rw [free_eq hm.1] at hf
  simp only [Except.ok.injEq, Prod.mk.injEq] at hf
  obtain ⟨-, rfl, -⟩ := hf
  exact hm

theorem cacheBlocks_caching {r : Request H} {n : Int} (h : c.cacheBlocks r n = .ok c') :
    ∀ m ∈ c'.singleTypeManagers, PlainCaching e m := by
  simp only [KVCacheCoordinator.cacheBlocks, Raises.bind_eq_ok, Raises.pure_eq_ok] at h
  obtain ⟨⟨c₁, as⟩, hon, rfl⟩ := h
  refine onManagers_forall (fun i q m q' m' a hm hf => ?_) hon hc
  simp only [cacheBlocks_eq hm.1, Raises.bind_eq_ok, Raises.pure_eq_ok] at hf
  obtain ⟨⟨q₁, m₁⟩, hcache, heq⟩ := hf
  simp only [Prod.mk.injEq] at heq
  obtain ⟨-, rfl, -⟩ := heq
  exact hm.of_same (baseCacheBlocks_same hcache)

theorem allocateNewBlocks_caching {n main enc : Int} {new : List (List BlockId)}
    (h : c.allocateNewBlocks reqId n main enc = .ok (c', new)) :
    ∀ m ∈ c'.singleTypeManagers, PlainCaching e m := by
  refine onManagers_forall (fun i q m q' m' a hm hf => ?_) h hc
  rw [allocateNewBlocks_eq hm.1] at hf
  exact hm.of_same (baseAllocateNewBlocks_same hf)

theorem allocateNewComputedBlocks_caching {hits : List (List BlockId)} {loc ext : Int}
    (h : c.allocateNewComputedBlocks reqId hits loc ext = .ok c') :
    ∀ m ∈ c'.singleTypeManagers, PlainCaching e m := by
  simp only [KVCacheCoordinator.allocateNewComputedBlocks, Raises.bind_eq_ok,
    Raises.pure_eq_ok] at h
  obtain ⟨⟨c₁, as⟩, hon, rfl⟩ := h
  refine onManagers_forall (fun i q m q' m' a hm hf => ?_) hon hc
  simp only [Raises.bind_eq_ok, Raises.pure_eq_ok] at hf
  obtain ⟨⟨q₁, m₁⟩, halloc, heq⟩ := hf
  simp only [Prod.mk.injEq] at heq
  obtain ⟨-, rfl, -⟩ := heq
  unfold SingleTypeManager.allocateNewComputedBlocks at halloc
  rw [isCrossAttention_eq_false hm.1, if_neg (by simp)] at halloc
  exact hm.of_same (baseAllocateNewComputedBlocks_same halloc)

end Caching

theorem allocateSlots_caching {k' : KVCacheManager H} {r : Request H} {a : SlotArgs}
    {out : Option (List (List BlockId))} (h : k.allocateSlots r a = .ok (k', out))
    (hk : ∀ m ∈ k.coordinator.singleTypeManagers, PlainCaching k.enableCaching m) :
    k'.enableCaching = k.enableCaching ∧
      ∀ m ∈ k'.coordinator.singleTypeManagers, PlainCaching k.enableCaching m := by
  unfold allocateSlots at h
  split at h
  · simp at h
  · simp only [Raises.bind_eq_ok] at h
    obtain ⟨c₁, hskip, n, -, h⟩ := h
    have h₁ := removeSkippedBlocks_caching hk hskip
    split at h
    · obtain ⟨rfl, -⟩ := Prod.mk.inj (Raises.pure_eq_ok.mp h)
      exact ⟨rfl, h₁⟩
    · simp only [Raises.bind_eq_ok, Raises.pure_eq_ok, commitSlots] at h
      obtain ⟨⟨k₂, new⟩, ⟨c₂, hadopt, ⟨c₃, new'⟩, hnew, c₄, hpub, heq⟩, heq'⟩ := h
      obtain ⟨rfl, -⟩ := Prod.mk.inj heq
      obtain ⟨rfl, -⟩ := Prod.mk.inj heq'
      have h₂ : ∀ m ∈ c₂.singleTypeManagers, PlainCaching k.enableCaching m := by
        unfold adoptComputed at hadopt
        split at hadopt
        · exact allocateNewComputedBlocks_caching h₁ hadopt
        · obtain rfl := Except.ok.inj hadopt
          exact h₁
      have h₃ := allocateNewBlocks_caching h₂ hnew
      refine ⟨rfl, ?_⟩
      unfold publishBlocks at hpub
      split at hpub
      · obtain rfl := Except.ok.inj hpub
        exact h₃
      · exact cacheBlocks_caching h₃ hpub

/-- Every call keeps the managers' types and flags. -/
theorem kvOp_caching {k' : KVCacheManager H} {op : KvOp H} (h : op.step k = .ok k')
    (hk : ∀ m ∈ k.coordinator.singleTypeManagers, PlainCaching k.enableCaching m) :
    ∀ m ∈ k'.coordinator.singleTypeManagers, PlainCaching k'.enableCaching m := by
  cases op with
  | getComputedBlocks r =>
    simp only [KvOp.step, Raises.bind_eq_ok, Raises.pure_eq_ok] at h
    obtain ⟨-, -, rfl⟩ := h
    exact hk
  | start r new lookahead ext delay enc =>
    simp only [KvOp.step, Raises.bind_eq_ok, Raises.pure_eq_ok] at h
    obtain ⟨⟨blocks, n⟩, -, ⟨k₁, out⟩, halloc, rfl⟩ := h
    obtain ⟨he, hall⟩ := allocateSlots_caching halloc hk
    exact he ▸ hall
  | extend r new lookahead delay enc =>
    simp only [KvOp.step, Raises.bind_eq_ok, Raises.pure_eq_ok] at h
    obtain ⟨⟨k₁, out⟩, halloc, rfl⟩ := h
    obtain ⟨he, hall⟩ := allocateSlots_caching halloc hk
    exact he ▸ hall
  | cacheBlocks r n =>
    simp only [KvOp.step, KVCacheManager.cacheBlocks] at h
    split at h
    · simp only [Raises.bind_eq_ok, Raises.pure_eq_ok] at h
      obtain ⟨c₁, hcache, rfl⟩ := h
      exact cacheBlocks_caching hk hcache
    · obtain rfl := Except.ok.inj h
      exact hk
  | removeSkippedBlocks reqId n =>
    simp only [KvOp.step, KVCacheManager.removeSkippedBlocks, Raises.bind_eq_ok,
      Raises.pure_eq_ok] at h
    obtain ⟨c₁, hskip, rfl⟩ := h
    exact removeSkippedBlocks_caching hk hskip
  | free reqId =>
    simp only [KvOp.step, KVCacheManager.free, Raises.bind_eq_ok, Raises.pure_eq_ok] at h
    obtain ⟨c₁, hfree, rfl⟩ := h
    exact free_caching hk hfree
  | evictBlocks ids =>
    simp only [KvOp.step, KVCacheManager.evictBlocks, Raises.bind_eq_ok, Raises.pure_eq_ok] at h
    obtain ⟨p, -, rfl⟩ := h
    exact hk
  | resetPrefixCache =>
    obtain rfl := Except.ok.inj h
    exact hk

omit [DecidableEq H] in
theorem initManagers_caching {e : Bool} :
    ∀ (specs : List KVCacheSpec) (i : GroupId) {p p' : BlockPool H}
      {ms : List (SingleTypeManager H)}, (∀ s ∈ specs, s.isPlainAttention = true) →
      initManagers e i p specs = .ok (p', ms) → ∀ m ∈ ms, PlainCaching e m := by
  intro specs
  induction specs with
  | nil =>
    intro i p p' ms _ h
    simp only [initManagers, Except.ok.injEq, Prod.mk.injEq] at h
    obtain ⟨-, rfl⟩ := h
    exact fun m hm => by cases hm
  | cons s specs ih =>
    intro i p p' ms hplain h
    simp only [initManagers, Raises.bind_eq_ok, Raises.pure_eq_ok] at h
    obtain ⟨⟨p₁, m⟩, hm, ⟨p₂, ms₁⟩, hms, heq⟩ := h
    obtain ⟨-, rfl⟩ := Prod.mk.inj heq
    have hs := hplain s List.mem_cons_self
    have hone : m.spec = s ∧ m.enableCaching = e := by
      unfold KVCacheSpec.isPlainAttention at hs
      unfold SingleTypeManager.init at hm
      dsimp only at hm
      split at hm
      · rename_i hk
        rw [hk] at hs
        cases hs
      · obtain ⟨-, rfl⟩ := Prod.mk.inj (Except.ok.inj hm)
        exact ⟨rfl, rfl⟩
    intro m' hm'
    rcases List.mem_cons.mp hm' with rfl | hm'
    · exact ⟨by rw [hone.1]; exact hs, hone.2⟩
    · exact ih (i + 1) (fun s' hs' => hplain s' (List.mem_cons_of_mem s hs')) hms m' hm'

omit [DecidableEq H] in
theorem init_caching {specs : List KVCacheSpec} {numBlocks maxModelLen hashBlockSize : Nat}
    {enableCaching useEagle : Bool} (hplain : ∀ s ∈ specs, s.isPlainAttention = true)
    (h : KVCacheManager.init specs numBlocks maxModelLen hashBlockSize enableCaching useEagle = .ok k) :
    ∀ m ∈ k.coordinator.singleTypeManagers, PlainCaching k.enableCaching m := by
  simp only [KVCacheManager.init, KVCacheCoordinator.init, Raises.bind_eq_ok,
    Raises.pure_eq_ok] at h
  obtain ⟨c, ⟨p, -, ⟨p', ms⟩, hms, kind, -, rfl⟩, rfl⟩ := h
  exact initManagers_caching specs 0 hplain hms

/-! ## The calls of the scheduler -/

/-- The arguments with which `start` calls `allocate_slots`. -/
def startArgs (res : List (List BlockId) × Nat) (new : Int) (lookahead ext : Nat) (delay : Bool)
    (enc : Nat) : SlotArgs where
  numNewTokens := new
  numNewComputedTokens := res.2
  newComputedBlocks := res.1
  numLookaheadTokens := lookahead
  numExternalComputedTokens := ext
  delayCacheBlocks := delay
  numEncoderTokens := enc

/-- What the scheduler promises with a call. A request that starts holds no
block, has at least no new tokens, and its external tokens stay within the
model length; a running request has a slot for each of its computed tokens. -/
def KvOp.Requested (k : KVCacheManager H) : KvOp H → Prop
  | .start r new _ ext _ _ => r.numComputedTokens = 0 ∧ r.blockHashes.Nodup ∧ 0 ≤ new ∧
    (∀ m ∈ k.coordinator.singleTypeManagers,
      m.reqBlocks r.requestId = [] ∧ m.numCachedBlock.contains r.requestId = false) ∧
    (ext = 0 ∨ ∀ res, k.getComputedBlocks r = .ok res → res.2 + ext ≤ k.maxModelLen)
  | .extend r _ _ _ _ => ∀ m ∈ k.coordinator.singleTypeManagers,
    m.numCachedBlock.contains r.requestId = true ∨
      m.numRequiredBlocks r.numComputedTokens ≤ (m.reqBlocks r.requestId).length
  | _ => True

instance (k : KVCacheManager H) (op : KvOp H) : Decidable (op.Requested k) := by
  cases op <;> unfold KvOp.Requested <;> infer_instance

/-- The call needs more blocks than there are free ones. -/
def Refused (k : KVCacheManager H) (r : Request H) (a : SlotArgs) : Prop :=
  ∃ c, k.coordinator.removeSkippedBlocks r.requestId (a.totalComputedTokens r k.maxModelLen)
      = .ok c ∧
    ∃ n, c.getNumBlocksToAllocate r.requestId (a.numTokensNeedSlot r k.maxModelLen)
      a.newComputedBlocks a.numEncoderTokens (a.computedTokens r)
      (a.numTokensMainModel r k.maxModelLen) = .ok n ∧ c.blockPool.numFreeBlocks < n

instance (k : KVCacheManager H) (r : Request H) (a : SlotArgs) : Decidable (Refused k r a) := by
  unfold Refused
  infer_instance

/-- A call that is not refused lets no group pop, for external tokens, a hit of a
later group. -/
def KvOp.TakesNoHits (k : KVCacheManager H) : KvOp H → Prop
  | .start r new lookahead ext delay enc => ∀ res, k.getComputedBlocks r = .ok res →
    Refused k r (startArgs res new lookahead ext delay enc) ∨
    Reserve.TakesNone k.blockPool.freeBlocks
      (adoptShares k r (startArgs res new lookahead ext delay enc))
  | _ => True

instance (k : KVCacheManager H) (op : KvOp H) : Decidable (op.FitsExternal k ∧ op.TakesNoHits k) := by
  cases op <;> unfold KvOp.FitsExternal KvOp.TakesNoHits <;> infer_instance

/-- The call's `allocate_slots` has an exact estimate and a harmless refusal. -/
def KvOp.AllocatesExactly (k : KVCacheManager H) : KvOp H → Prop
  | .start r new lookahead ext delay enc => ∀ res, k.getComputedBlocks r = .ok res →
    VllmEngine.AllocatesExactly k r (startArgs res new lookahead ext delay enc)
  | .extend r new lookahead delay enc =>
    VllmEngine.AllocatesExactly k r (startArgs (k.emptyKvCacheBlocks, 0) new lookahead 0 delay enc)
  | _ => True

section Ops

variable {specs : List KVCacheSpec} {k : KVCacheManager H} {r : Request H} {a : SlotArgs}
  (hplain : ∀ s ∈ specs, s.isPlainAttention = true) (hpos : ∀ s ∈ specs, 0 < s.blockSize)
  (hok : CoordinatorOk specs k.coordinator)

omit [DecidableEq H] in
theorem externalCount_zero (m : SingleTypeManager H) (hits : List BlockId) (total : Int) :
    m.externalCount hits total (0 : Nat) = 0 := by
  unfold externalCount
  refine if_neg fun hpos => ?_
  unfold keptExternalTokens at hpos
  split at hpos <;> omega

include hplain hok in
/-- Without hits and external tokens. -/
theorem allocatesExactly_running (hhits : ∀ i, a.newComputedBlocks.getD i [] = [])
    (hext : a.numExternalComputedTokens = 0)
    (hslots : ∀ m ∈ k.coordinator.singleTypeManagers, m.numCachedBlock.contains r.requestId = true ∨
      m.numSkippedBlocks (a.computedTokens r) ≤ (m.reqBlocks r.requestId).length) :
    AllocatesExactly k r a := by
  obtain ⟨c, hskip, hstep, hfreed, -⟩ := removeSkipped_freed hplain hok r.requestId
    (a.totalComputedTokens r k.maxModelLen)
  have hrunning : ∀ m ∈ c.singleTypeManagers, RunningIn r.requestId (a.computedTokens r) m := by
    intro m' hm'
    obtain ⟨j, hj⟩ := List.getElem?_of_mem hm'
    obtain ⟨m, hm, hw⟩ := Raises.exists_left hfreed.managers hm'
    refine ⟨hstep.ok.plain hplain hj, ?_⟩
    rw [hw.numCachedBlock, hw.length, numSkippedBlocks, getNumSkippedTokens, hw.spec]
    exact hslots m hm
  have hnone : a.hasComputed = false := by
    unfold SlotArgs.hasComputed
    rw [hext, Bool.or_eq_false_iff]
    refine ⟨List.any_eq_false.mpr fun bs hbs => ?_, by simp⟩
    obtain ⟨i, hi⟩ := List.getElem?_of_mem hbs
    have := hhits i
    rw [List.getD_eq_getElem?_getD, hi, Option.getD_some] at this
    simp [this]
  refine ⟨c, _, hskip, estimate_running hhits _ _ _ _ 0 hrunning, fun hle => ?_, fun i m _ => ?_,
    fun k' h => refused_freed hplain hok h⟩
  · have hok' : CoordinatorOk specs ({ k with coordinator := c } : KVCacheManager H).coordinator :=
      hstep.ok
    exact grants_running hplain hok' hnone hle
  · rw [hext, externalCount_zero]

omit [DecidableEq H] in
/-- A share depends on the manager's spec only. -/
theorem share_congr {m m' : SingleTypeManager H} (h : m'.spec = m.spec) (hits : List BlockId)
    (total ext : Int) : m'.share hits total ext = m.share hits total ext := by
  have htokens : m'.getNumSkippedTokens total = m.getNumSkippedTokens total := by
    rw [getNumSkippedTokens, getNumSkippedTokens, h]
  have hskipped : m'.numSkippedBlocks total = m.numSkippedBlocks total := by
    rw [numSkippedBlocks, numSkippedBlocks, htokens, h]
  have hrequired : m'.numRequiredBlocks total = m.numRequiredBlocks total := by
    rw [numRequiredBlocks, numRequiredBlocks, h]
  have hkept : m'.keptBlocks hits total = m.keptBlocks hits total := by
    rw [keptBlocks_eq, keptBlocks_eq, hskipped]
  have hext : m'.keptExternalTokens total ext = m.keptExternalTokens total ext := by
    rw [keptExternalTokens, keptExternalTokens, hskipped, htokens]
  rw [share, share, externalCount, externalCount, numAdopted_eq, numAdopted_eq, hkept, hext,
    hrequired, hskipped]

omit [DecidableEq H] in
theorem shares_congr {R : SingleTypeManager H → SingleTypeManager H → Prop}
    (hR : ∀ m m', R m m' → m'.spec = m.spec) {hits : List (List BlockId)} {total ext : Int}
    {ms ms' : List (SingleTypeManager H)} (h : List.Forall₂ R ms ms') :
    ∀ i : Nat, shares hits total ext i ms' = shares hits total ext i ms := by
  induction h with
  | nil => intro i; rfl
  | cons hm _ ih =>
    intro i
    rw [shares, shares, ih (i + 1), share_congr (hR _ _ hm)]

omit [DecidableEq H] in
/-- The tokens that need a slot include the computed ones. -/
theorem computedTokens_le_need {m : Nat} (hnew : 0 ≤ a.numNewTokens)
    (hlen : a.computedTokens r ≤ m) : a.computedTokens r ≤ a.numTokensNeedSlot r m := by
  unfold SlotArgs.computedTokens at *
  unfold SlotArgs.numTokensNeedSlot SlotArgs.numTokensMainModel SlotArgs.totalComputedTokens
  omega

include hplain hpos hok in
/-- **A new request with hits or external tokens.** -/
theorem allocatesExactly_new (hsome : a.hasComputed = true)
    (hready : ∀ j m, k.coordinator.singleTypeManagers[j]? = some m →
      ReadyToAdopt k.blockPool r.requestId (a.newComputedBlocks.getD j [])
        (a.numLocalComputedTokens r) a.numExternalComputedTokens m)
    (hvalid : ∀ i, HitsValid k.blockPool.numGpuBlocks (a.newComputedBlocks.getD i []))
    (hdisj : ∀ i j : Nat, i ≠ j → ∀ b, b ≠ nullBlock → b ∈ a.newComputedBlocks.getD i [] →
      b ∉ a.newComputedBlocks.getD j [])
    (hneed : (a.numExternalComputedTokens : Int) ≤ 0 ∨
      a.computedTokens r ≤ a.numTokensNeedSlot r k.maxModelLen)
    (hnone : Refused k r a ∨ Reserve.TakesNone k.blockPool.freeBlocks (adoptShares k r a)) :
    AllocatesExactly k r a := by
  obtain ⟨c, hskip, hstep, hfreed, hpool⟩ := removeSkipped_freed hplain hok r.requestId
    (a.totalComputedTokens r k.maxModelLen)
  have hpool : c.blockPool = k.coordinator.blockPool := hpool fun m hm => by
    obtain ⟨j, hj⟩ := List.getElem?_of_mem hm
    exact (hready j m hj).empty
  have hready' : ∀ j m, c.singleTypeManagers[j]? = some m →
      ReadyToAdopt c.blockPool r.requestId (a.newComputedBlocks.getD j [])
        (a.numLocalComputedTokens r) a.numExternalComputedTokens m := by
    intro j m' hj
    obtain ⟨m, hm, hw⟩ := Raises.getElem?_left hfreed.managers hj
    obtain ⟨h1, h2, h3, h4, h5, h6, h7⟩ := hready j m hm
    refine ⟨hw.spec ▸ h1, hw.spec ▸ h2, hw.numCachedBlock ▸ h3, ?_, hw.enableCaching ▸ h5,
      hpool ▸ h6, by rw [numRequiredBlocks, hw.spec]; exact h7⟩
    exact List.eq_nil_of_length_eq_zero (by rw [hw.length, h4, List.length_nil])
  have hshares : adoptShares { k with coordinator := c } r a = adoptShares k r a :=
    shares_congr (fun _ _ h => h.spec) hfreed.managers 0
  have hnull : nullBlock ∉ k.coordinator.blockPool.freeBlocks := fun hmem =>
    ((hok.balanced.accounted.mem_free nullBlock).mp hmem).1 rfl
  have hok' : CoordinatorOk specs ({ k with coordinator := c } : KVCacheManager H).coordinator :=
    hstep.ok
  have hest := estimate_new hneed a.numEncoderTokens (a.numTokensMainModel r k.maxModelLen)
    c.singleTypeManagers 0 _ hok'.balanced
    fun j m hj => by rw [Nat.zero_add]; exact hready' j m hj
  refine ⟨c, _, hskip, hest, fun hle => ?_, fun i m hi => (hready' i m hi).external_nonneg,
    fun k' h => refused_freed hplain hok h⟩
  have hqueue : ({ k with coordinator := c } : KVCacheManager H).blockPool = k.blockPool := hpool
  refine grants_new hplain hpos hok' hsome hready' (fun i => ?_) ?_ ?_ rfl hle
  · rw [hqueue]
    exact hvalid i
  · rw [hqueue, hshares]
    exact shares_reserved hnull hvalid hdisj _ 0
  · rw [hqueue, hshares]
    refine hnone.resolve_left ?_
    rintro ⟨c', hskip', n, hest', hlt⟩
    obtain rfl := Except.ok.inj (hskip.symm.trans hskip')
    obtain rfl := Except.ok.inj (hest.symm.trans hest')
    exact absurd hle (Int.not_le.mpr hlt)

include hplain hpos hok in
/-- **One call.** -/
theorem kvOp_exact (hwindow : ∀ s ∈ specs, s.hasWindow = true)
    (hcaching : ∀ m ∈ k.coordinator.singleTypeManagers, PlainCaching k.enableCaching m)
    {op : KvOp H} (hreq : op.Requested k) (hfit : op.FitsExternal k) (hnone : op.TakesNoHits k) :
    op.AllocatesExactly k := by
  -- the skipped blocks are covered by the blocks of the computed tokens
  have hskipped : ∀ m ∈ k.coordinator.singleTypeManagers, ∀ total,
      m.numSkippedBlocks total ≤ max 0 (m.numRequiredBlocks total) := by
    intro m hm total
    have hmem := hok.spec_mem hm
    exact numSkippedBlocks_le (hplain _ hmem) (hwindow _ hmem) (hpos _ hmem) total
  cases op with
  | start r new lookahead ext delay enc =>
    intro res hres
    obtain ⟨hzero, hn, hnew, hfresh, hlen⟩ := hreq
    by_cases hsome : (startArgs res new lookahead ext delay enc).hasComputed = true
    · refine allocatesExactly_new hplain hpos hok hsome (fun j m hj => ?_)
        (getComputedBlocks_valid hpos hok hn hres)
        (fun i j hij b hb hi => getComputedBlocks_disjoint hpos hok hres hij hb hi) ?_ (hnone res hres)
      · have hmem := List.mem_of_getElem? hj
        have hspec := hok.spec_mem hmem
        refine ⟨hplain _ hspec, hpos _ hspec, (hfresh m hmem).2, (hfresh m hmem).1, ?_,
          getComputedBlocks_valid hpos hok hn hres j, ?_⟩
        · rw [(hcaching m hmem).2]
          by_cases hc : k.enableCaching = true
          · exact Or.inl hc
          · right
            unfold getComputedBlocks at hres
            rw [if_pos (by simp [hc])] at hres
            obtain rfl := Except.ok.inj hres
            exact emptyKvCacheBlocks_getD k j
        · rcases hfit with h0 | hall
          · left
            simp [startArgs, h0]
          · exact Or.inr (hall res hres j m hj)
      · rcases hlen with h0 | hall
        · left
          simp [startArgs, h0]
        · right
          refine computedTokens_le_need hnew ?_
          have := hall res hres
          simp only [SlotArgs.computedTokens, SlotArgs.numLocalComputedTokens, startArgs, hzero]
          omega
    · have hboth : (∀ bs ∈ res.1, bs = []) ∧ ext = 0 := by
        simpa [SlotArgs.hasComputed, startArgs] using hsome
      have hhits : ∀ i, res.1.getD i [] = [] := by
        intro i
        rw [List.getD_eq_getElem?_getD]
        cases hi : res.1[i]? with
        | none => rfl
        | some bs => exact hboth.1 bs (List.mem_of_getElem? hi)
      have hhit := getComputedBlocks_zero hok hres hhits
      refine allocatesExactly_running hplain hok hhits hboth.2 fun m hm => Or.inr ?_
      have htotal : (startArgs res new lookahead ext delay enc).computedTokens r = 0 := by
        simp [SlotArgs.computedTokens, SlotArgs.numLocalComputedTokens, startArgs, hzero, hhit, hboth.2]
      have hrequired : m.numRequiredBlocks 0 ≤ 0 := by
        have hbs : (0 : Int) < m.spec.blockSize := by exact_mod_cast hpos _ (hok.spec_mem hm)
        exact (Python.cdiv_le_iff hbs).mpr (by omega)
      have hle := hskipped m hm 0
      rw [htotal]
      omega
  | extend r new lookahead delay enc =>
    refine allocatesExactly_running hplain hok (emptyKvCacheBlocks_getD k) rfl fun m hm => ?_
    refine (hreq m hm).imp_right fun hslots => ?_
    have hle := hskipped m hm r.numComputedTokens
    have htotal : (startArgs (k.emptyKvCacheBlocks, 0) new lookahead 0 delay enc).computedTokens r
        = r.numComputedTokens := by
      simp [SlotArgs.computedTokens, SlotArgs.numLocalComputedTokens, startArgs]
    rw [htotal]
    omega
  | _ => trivial

end Ops

/-- **The allocation estimate over runs.** If external tokens come only with hit
lists that fit and never take a hit of a later group, then in every state of the
run the estimate of the next call is exact and its refusal harmless. -/
theorem estimate_run {specs : List KVCacheSpec} {numBlocks maxModelLen hashBlockSize : Nat}
    {enableCaching useEagle : Bool} {k₀ k : KVCacheManager H} {ops : List (KvOp H)} {op : KvOp H}
    (hplain : ∀ s ∈ specs, s.isPlainAttention = true) (hpos : ∀ s ∈ specs, 0 < s.blockSize)
    (hwindow : ∀ s ∈ specs, s.hasWindow = true)
    (hinit : KVCacheManager.init specs numBlocks maxModelLen hashBlockSize enableCaching useEagle
      = .ok k₀)
    (hguard : Run.Guarded KvOp.step
      (fun k op => op.Requested k ∧ op.FitsExternal k ∧ op.TakesNoHits k) k₀ (ops ++ [op]))
    (hrun : Run.exec KvOp.step k₀ ops = .ok k) : op.AllocatesExactly k := by
  have hinv := Run.exec_inv
    (I := fun k => CoordinatorOk specs k.coordinator ∧
      ∀ m ∈ k.coordinator.singleTypeManagers, PlainCaching k.enableCaching m)
    (fun s o s' hs hg hstep => by
      have hissued : o.Issued := by
        cases o with
        | start r _ _ _ _ _ => exact ⟨hg.1.1, hg.1.2.1⟩
        | _ => trivial
      exact ⟨(kvOp_step hpos hs.1 hissued (Or.inr hg.2.1) hstep).ok, kvOp_caching hstep hs.2⟩)
    ops k₀ k ⟨init_coordinatorOk (sinkless_of_plain hplain) hpos hinit, init_caching hplain hinit⟩ hguard.init hrun
  obtain ⟨hreq, hfit, hnone⟩ := hguard.after hrun
  exact kvOp_exact hplain hpos hinv.1 hwindow hinv.2 hreq hfit hnone

/-! ## A hit of the second group -/

/-- A full-attention group and one with a wide window. -/
def fullAndWindow : List KVCacheSpec := [fullSpec 4 1, slidingSpec 4 1 64]

/-- Two requests of nine tokens come and go; their blocks are in the free queue
and two blocks of each group are still cached. -/
def servedOps : List (KvOp Digest) :=
  [.start (tokensRequest "a" [1, 2, 3, 4, 5, 6, 7, 8, 9]) 9 0 0 false 0,
    .start (tokensRequest "c" [11, 12, 13, 14, 15, 16, 17, 18, 19]) 9 0 0 false 0,
    .free "a", .free "c"]

/-- The first eight tokens of request `a`, then others. -/
def sharedPrefixTokens : List Token :=
  [1, 2, 3, 4, 5, 6, 7, 8, 21, 22, 23, 24, 25, 26, 27, 28, 29, 30, 31, 32, 33]

/-- A request with these tokens and `ext` external tokens behind its hits. -/
def sharedPrefixStart (ext : Nat) : KvOp Digest :=
  .start (tokensRequest "b" sharedPrefixTokens) 1 0 ext false 0

/-- The manager after the two requests. -/
def servedManager : Except Python.Error (KVCacheManager Digest) := do
  let k ← KVCacheManager.init fullAndWindow 13 64 4 true false
  Run.exec KvOp.step k servedOps

/-- A computable check of the run that ends with `sharedPrefixStart ext`. -/
def servedCheck (g : KVCacheManager Digest → KvOp Digest → Bool) (ext : Nat) : Bool :=
  match KVCacheManager.init fullAndWindow 13 64 4 true false with
  | .ok k₀ => Run.check KvOp.step g k₀ (servedOps ++ [sharedPrefixStart ext])
  | .error _ => false

/-- The estimate for a request, the number of free blocks, and how many of them
are taken. -/
def estimateAndTaken (k : KVCacheManager Digest) (r : Request Digest) (a : SlotArgs) :
    Except Python.Error (Int × Int × Int) := do
  let c ← k.coordinator.removeSkippedBlocks r.requestId (a.totalComputedTokens r k.maxModelLen)
  let n ← c.getNumBlocksToAllocate r.requestId (a.numTokensNeedSlot r k.maxModelLen)
    a.newComputedBlocks a.numEncoderTokens (a.computedTokens r)
    (a.numTokensMainModel r k.maxModelLen)
  let c₁ ← ({ k with coordinator := c } : KVCacheManager Digest).adoptComputed r a
  let (c₂, _) ← c₁.allocateNewBlocks r.requestId (a.numTokensNeedSlot r k.maxModelLen)
    (a.numTokensMainModel r k.maxModelLen) a.numEncoderTokens
  return (n, c.blockPool.numFreeBlocks,
    c.blockPool.freeBlocks.length - c₂.blockPool.freeBlocks.length)

/-- An exact estimate that is not refused is the number of blocks taken. -/
theorem estimateAndTaken_of_exact {k : KVCacheManager Digest} {r : Request Digest} {a : SlotArgs}
    {n free taken : Int} (h : AllocatesExactly k r a)
    (hval : estimateAndTaken k r a = .ok (n, free, taken)) (hle : n ≤ free) : n = taken := by
  obtain ⟨c, n', hskip, hest, hgrants, -, -⟩ := h
  simp only [estimateAndTaken, hskip, Raises.bind_eq_ok, Raises.pure_eq_ok, Prod.mk.injEq,
    Except.ok.injEq] at hval
  obtain ⟨_, rfl, m, hest', c₁, hadopt, ⟨c₂, new⟩, hnew, rfl, rfl, rfl⟩ := hval
  obtain rfl := Except.ok.inj (hest.symm.trans hest')
  obtain ⟨c₁', c₂', new', hadopt', hnew', -, hcount⟩ := hgrants hle
  obtain rfl := Except.ok.inj (hadopt.symm.trans hadopt')
  obtain ⟨rfl, -⟩ := Prod.mk.inj (Except.ok.inj (hnew.symm.trans hnew'))
  have hcount : (c₂.blockPool.freeBlocks.length : Int) + n' = c.blockPool.freeBlocks.length := hcount
  dsimp only
  omega

/-- The request `b` comes with twelve external tokens. -/
def sharedPrefixTaken : Except Python.Error (Int × Int × Int) := do
  let k₀ ← KVCacheManager.init fullAndWindow 13 64 4 true false
  let k ← Run.exec KvOp.step k₀ servedOps
  let res ← k.getComputedBlocks (tokensRequest "b" sharedPrefixTokens)
  estimateAndTaken k (tokensRequest "b" sharedPrefixTokens) (startArgs res 1 0 12 false 0)

/-- The first group pops its fifth block for the external tokens. It is a hit of
the second group: twelve blocks are estimated, eleven leave the queue, and one
is in the lists of both groups. -/
theorem later_hit_popped :
    ¬ ∀ (specs : List KVCacheSpec) (numBlocks maxModelLen hashBlockSize : Nat)
      (enableCaching useEagle : Bool) (k₀ k : KVCacheManager Digest) (ops : List (KvOp Digest))
      (op : KvOp Digest), (∀ s ∈ specs, s.isPlainAttention = true) →
      (∀ s ∈ specs, 0 < s.blockSize) → (∀ s ∈ specs, s.hasWindow = true) →
      KVCacheManager.init specs numBlocks maxModelLen hashBlockSize enableCaching useEagle
        = .ok k₀ →
      Run.Guarded KvOp.step (fun k op => op.Requested k) k₀ (ops ++ [op]) →
      Run.exec KvOp.step k₀ ops = .ok k → op.AllocatesExactly k := by
  intro hall
  have hcheck : servedCheck (fun k op => decide (op.Requested k)) 12 = true := by decide +kernel
  have hval : sharedPrefixTaken.toOption = some (12, 12, 11) := by decide +kernel
  obtain ⟨x, hx⟩ : ∃ x, sharedPrefixTaken = .ok x := by
    cases h : sharedPrefixTaken with
    | error e => rw [h] at hval; cases hval
    | ok x => exact ⟨x, rfl⟩
  rw [hx] at hval
  obtain rfl := Option.some.inj hval
  simp only [sharedPrefixTaken, Raises.bind_eq_ok] at hx
  obtain ⟨k₀, hinit, k, hrun, res, hres, htaken⟩ := hx
  rw [servedCheck, hinit] at hcheck
  have hexact := hall fullAndWindow 13 64 4 true false k₀ k servedOps (sharedPrefixStart 12)
    (by decide) (by decide) (by decide) hinit
    (Run.Guarded.of_decide _ _ hcheck) hrun res hres
  exact absurd (estimateAndTaken_of_exact hexact htaken (by decide)) (by decide)

/-- With four external tokens the hits of the second group are left alone. -/
theorem fourExternal_exact : ∃ k₀ k : KVCacheManager Digest,
    KVCacheManager.init fullAndWindow 13 64 4 true false = .ok k₀ ∧
      Run.exec KvOp.step k₀ servedOps = .ok k ∧ (sharedPrefixStart 4).AllocatesExactly k := by
  have hcheck : servedCheck
      (fun k op => decide (op.Requested k ∧ op.FitsExternal k ∧ op.TakesNoHits k)) 4 = true := by
    decide +kernel
  obtain ⟨k, hk⟩ := Raises.exists_of_isOk (x := servedManager) (by decide +kernel)
  simp only [servedManager, Raises.bind_eq_ok] at hk
  obtain ⟨k₀, hinit, hrun⟩ := hk
  rw [servedCheck, hinit] at hcheck
  refine ⟨k₀, k, hinit, hrun, estimate_run (by decide) (by decide) (by decide) hinit
    (Run.Guarded.of_decide _ _ hcheck) hrun⟩

end VllmEngine
