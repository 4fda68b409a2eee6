import VllmEngine.BlockHash.Chain
import VllmEngine.Kv.Events
import VllmEngine.Kv.SingleType

/-!
# What a `BlockStored` event says

An event of `BlockPool.cache_full_blocks` (`vllm/v1/core/block_pool.py`) has parallel lists: the
hashes of the stored blocks, their extra keys, and their tokens, so many for each block. A consumer
rebuilds the hashes from them, the first one on top of `parent_block_hash`. The loops over the
hashes and over the extra keys skip null blocks; the token range is taken from the block indices
and does not. `SelfConsistent` is what the consumer relies on, and

> `cacheBlocks_events_consistent_iff`: the event of a manager's call is self-consistent if and only
> if there is no null block among the new ones.

A null block there is nothing unusual: in align mode a Mamba manager pads every prompt chunk with
them, up to the block of the state.
-/

namespace VllmEngine

variable {H X : Type}

/-! ## What an event should say -/

/-- Hash `j` of a request at a group's block size. -/
def blockHashAt (r : Request H) (hashBlockSize blockSize j : Nat) : Option (List H) :=
  (blockHashList r.blockHashes hashBlockSize blockSize)[j]?

/-- The joined digests cover the tokens, one after the other. -/
def Covers (hs : BlockHasher H) (h : List H) (tokens : List Token) : Prop :=
  tokens.length = h.length * hs.blockSize ∧
    ∀ i x, h[i]? = some x → DigestOf hs x ((tokens.drop (i * hs.blockSize)).take hs.blockSize)

/-- The lists of an event that stores the blocks `js` of a request. -/
structure StoresBlocks (cfg : EventSettings H X) (r : Request H) (hashBlockSize : Nat)
    (js : List Nat) (blockHashes : List X) (parentBlockHash : Option X) (tokenIds : List Token)
    (blockSize : Nat) (extraKeys : Option (List (Option (List ExtraKey)))) : Prop where
  hashes : blockHashes.map some
    = js.map fun j => (blockHashAt r hashBlockSize blockSize j).map cfg.maybeConvertBlockHash
  numTokens : tokenIds.length = blockHashes.length * blockSize
  /-- Run `i` has the tokens of the block that hash `i` belongs to. -/
  runs : ∀ i j, js[i]? = some j → (tokenIds.drop (i * blockSize)).take blockSize
    = r.blockTokens (j * blockSize) (j * blockSize + blockSize)
  /-- If the request's hashes are those of its tokens, hash `i` was made from run `i`. -/
  covered : HashedTokens cfg.hasher r → ∀ i x, blockHashes[i]? = some x →
    ∃ h, x = cfg.maybeConvertBlockHash h ∧
      Covers cfg.hasher h ((tokenIds.drop (i * blockSize)).take blockSize)
  aligned : (extraKeys.getD []).length = blockHashes.length
  /-- Entry `i` has the keys of the features that overlap the block of hash `i`. -/
  keys : SortedDisjoint r.mmFeatures → extraKeys.getD []
    = js.map fun j => trueExtraKeys cfg.hasher r (j * blockSize) (j * blockSize + blockSize)
  parent : ∀ j, js.head? = some j → parentBlockHash = if j = 0 then none
    else (blockHashAt r hashBlockSize blockSize (j - 1)).map cfg.maybeConvertBlockHash

/-- The event stores some blocks of the request, and says what belongs to each of them. -/
def SelfConsistent (cfg : EventSettings H X) (r : Request H) (hashBlockSize : Nat) :
    KVCacheEvent X → Prop
  | .blockStored blockHashes parentBlockHash tokenIds blockSize _ _ _ extraKeys _ =>
    ∃ js, StoresBlocks cfg r hashBlockSize js blockHashes parentBlockHash tokenIds blockSize
      extraKeys
  | _ => True

/-! ## Managers with an event queue -/

namespace SingleTypeManager

variable [DecidableEq H]

/-- The blocks that `cache_blocks` passes to the pool as new. -/
def newFullBlocks (m : SingleTypeManager H) (r : Request H) (numTokens : Int) : List BlockId :=
  ((m.reqBlocks r.requestId).take (Int.fdiv numTokens m.spec.blockSize).toNat).drop
    ((m.numCachedBlock.get? r.requestId).getD 0)

/-- `SingleTypeKVCacheManager.cache_blocks`, on a pool with its event queue. -/
def baseCacheBlocksEmitting (cfg : EventSettings H X) (p : EventPool H X) (m : SingleTypeManager H)
    (r : Request H) (numTokens : Int) :
    Except Python.Error (EventPool H X × SingleTypeManager H) :=
  let numCachedBlocks := (m.numCachedBlock.get? r.requestId).getD 0
  let numFullBlocks := Int.fdiv numTokens m.spec.blockSize
  if (numCachedBlocks : Int) ≥ numFullBlocks then .ok (p, m)
  else do
    let p ← p.cacheFullBlocks cfg r (m.reqBlocks r.requestId) numCachedBlocks numFullBlocks.toNat
      m.spec.blockSize m.groupId
    return (p, { m.withEntry r.requestId with
      numCachedBlock := m.numCachedBlock.set r.requestId numFullBlocks.toNat })

/-- `cache_blocks`, on a pool with its event queue. -/
def cacheBlocksEmitting (cfg : EventSettings H X) (p : EventPool H X) (m : SingleTypeManager H)
    (r : Request H) (numTokens : Int) :
    Except Python.Error (EventPool H X × SingleTypeManager H) :=
  match m.spec.kind with
  | .crossAttention _ => .error (.value "Should not be called as prefix caching is disabled.")
  | .mamba _ => do
    let before := (m.numCachedBlock.get? r.requestId).getD 0
    let (p, m) ← m.baseCacheBlocksEmitting cfg p r numTokens
    let after := (m.numCachedBlock.get? r.requestId).getD 0
    let keys := keysCachedThisStep p.pool (((m.reqBlocks r.requestId).take after).drop before)
    return (p, { m with cachedBlocksThisStep := m.cachedBlocksThisStep ++ keys })
  | _ => m.baseCacheBlocksEmitting cfg p r numTokens

variable {cfg : EventSettings H X} {p p' : EventPool H X} {m m' : SingleTypeManager H}
  {r : Request H} {n : Int}

/-- With or without events, a manager and its pool do the same. -/
theorem baseCacheBlocksEmitting_pool (h : m.baseCacheBlocksEmitting cfg p r n = .ok (p', m')) :
    m.baseCacheBlocks p.pool r n = .ok (p'.pool, m') := by
  unfold baseCacheBlocksEmitting at h
  unfold baseCacheBlocks
  dsimp only at h ⊢
  split at h
  next hge =>
    obtain ⟨rfl, rfl⟩ := Prod.mk.inj (Except.ok.inj h)
    rw [if_pos hge]
  next hge =>
    simp only [Raises.bind_eq_ok, Raises.pure_eq_ok] at h
    obtain ⟨q, hq, heq⟩ := h
    obtain ⟨rfl, rfl⟩ := Prod.mk.inj heq
    have hstep : p.step cfg (.cacheFullBlocks r (m.reqBlocks r.requestId) _ _ _ m.groupId)
        = .ok q := hq
    rw [if_neg hge]
    simp only [Raises.bind_eq_ok, Raises.pure_eq_ok]
    exact ⟨q.pool, EventPool.step_pool hstep, rfl⟩

theorem cacheBlocksEmitting_pool (h : m.cacheBlocksEmitting cfg p r n = .ok (p', m')) :
    m.cacheBlocks p.pool r n = .ok (p'.pool, m') := by
  unfold cacheBlocksEmitting at h
  unfold cacheBlocks
  cases hkind : m.spec.kind <;> rw [hkind] at h
  case crossAttention => cases h
  case mamba =>
    simp only [Raises.bind_eq_ok, Raises.pure_eq_ok] at h ⊢
    obtain ⟨⟨q, m₁⟩, hbase, heq⟩ := h
    obtain ⟨rfl, rfl⟩ := Prod.mk.inj heq
    exact ⟨(q.pool, m₁), baseCacheBlocksEmitting_pool hbase, rfl⟩
  all_goals exact baseCacheBlocksEmitting_pool h

end SingleTypeManager

/-! ## Runs of tokens -/

/-- A run of a run. -/
theorem blockTokens_run (r : Request H) {start stop offset size : Nat}
    (h : start + offset + size ≤ stop) :
    ((r.blockTokens start stop).drop offset).take size
      = r.blockTokens (start + offset) (start + offset + size) := by
  unfold Request.blockTokens
  rw [List.drop_drop, List.take_drop, List.take_take, Nat.min_eq_left h]

theorem blockTokens_length (r : Request H) {start stop : Nat} (h : stop ≤ r.numTokens) :
    (r.blockTokens start stop).length = stop - start := by
  have hle : stop ≤ r.allTokenIds.length := h
  unfold Request.blockTokens
  rw [List.length_drop, List.length_take, Nat.min_eq_left hle]

section Hashes

variable {hs : BlockHasher H} {r : Request H} {blockSize j : Nat} {h : List H}

/-- A hash at the group's block size joins the digests of its block. -/
theorem blockHashAt_digests {hashBlockSize : Nat}
    (hj : blockHashAt r hashBlockSize blockSize j = some h) :
    h.length = blockSize / hashBlockSize ∧ ∀ i, i < blockSize / hashBlockSize →
      h[i]? = r.blockHashes[j * (blockSize / hashBlockSize) + i]? := by
  obtain ⟨scale, hscale⟩ : ∃ scale, scale = blockSize / hashBlockSize := ⟨_, rfl⟩
  unfold blockHashAt blockHashList at hj
  dsimp only at hj
  rw [← hscale] at hj ⊢
  rw [List.getElem?_map, Option.map_eq_some_iff] at hj
  obtain ⟨j', hj', rfl⟩ := hj
  have hlt := (List.getElem?_eq_some_iff.mp hj').1
  rw [List.getElem?_range (by rwa [List.length_range] at hlt)] at hj'
  obtain rfl := Option.some.inj hj'
  rw [List.length_range] at hlt
  have hroom : (j + 1) * scale ≤ r.blockHashes.length :=
    Nat.le_trans (Nat.mul_le_mul_right scale hlt) (Nat.div_mul_le_self _ _)
  rw [Nat.succ_mul] at hroom
  refine ⟨?_, fun i hi => ?_⟩
  · rw [List.length_take, List.length_drop]
    omega
  · rw [List.getElem?_take_of_lt hi, List.getElem?_drop]

/-- Where the hashes are those of the tokens, the joined hash of block `j` covers the tokens of
block `j`, and they are all there. -/
theorem blockHashAt_covers (hsize : 0 < blockSize) (hmod : blockSize % hs.blockSize = 0)
    (hr : HashedTokens hs r) (hj : blockHashAt r hs.blockSize blockSize j = some h) :
    j * blockSize + blockSize ≤ r.numTokens ∧
      Covers hs h (r.blockTokens (j * blockSize) (j * blockSize + blockSize)) := by
  obtain ⟨hlen, hdigest⟩ := blockHashAt_digests hj
  obtain ⟨scale, hscale⟩ : ∃ scale, scale = blockSize / hs.blockSize := ⟨_, rfl⟩
  have hblock : blockSize = scale * hs.blockSize := by
    rw [hscale, Nat.div_mul_cancel (Nat.dvd_of_mod_eq_zero hmod)]
  rw [← hscale] at hlen hdigest
  have hpos : 0 < scale := by
    rcases Nat.eq_zero_or_pos scale with hzero | hpos
    · rw [hblock, hzero, Nat.zero_mul] at hsize
      omega
    · exact hpos
  -- the start of digest `i` of the block
  have hstart : ∀ i, j * blockSize + i * hs.blockSize = (j * scale + i) * hs.blockSize := by
    intro i
    rw [hblock, Nat.add_mul, Nat.mul_assoc]
  have hroom : j * blockSize + blockSize ≤ r.numTokens := by
    obtain ⟨x, hlast⟩ : ∃ x, h[scale - 1]? = some x :=
      ⟨_, List.getElem?_eq_getElem (show scale - 1 < h.length by omega)⟩
    rw [hdigest (scale - 1) (by omega)] at hlast
    have hle := (hr _ _ hlast).1
    rw [← hstart] at hle
    have hlastEnd : (scale - 1) * hs.blockSize + hs.blockSize = blockSize := by
      rw [← Nat.succ_mul, hblock]
      congr 1
      omega
    omega
  refine ⟨hroom, ?_, fun i x hi => ?_⟩
  · rw [blockTokens_length r hroom, hlen, ← hblock]
    omega
  · have hlt : i < scale := hlen ▸ (List.getElem?_eq_some_iff.mp hi).1
    rw [hdigest i hlt] at hi
    have hrun : i * hs.blockSize + hs.blockSize ≤ blockSize := by
      rw [← Nat.succ_mul, hblock]
      exact Nat.mul_le_mul_right _ hlt
    rw [blockTokens_run r (by omega), hstart]
    exact (hr _ _ hi).2

end Hashes

/-! ## The blocks that an event stores -/

/-- The indices of the blocks that are not null, from index `j` on. -/
def storedIndices : Nat → List BlockId → List Nat
  | _, [] => []
  | j, b :: bs => if b = nullBlock then storedIndices (j + 1) bs else j :: storedIndices (j + 1) bs

theorem storedIndices_length_le (bs : List BlockId) :
    ∀ j, (storedIndices j bs).length ≤ bs.length := by
  induction bs with
  | nil =>
    intro j
    exact Nat.le_refl 0
  | cons b bs ih =>
    intro j
    have := ih (j + 1)
    unfold storedIndices
    split
    · exact Nat.le_succ_of_le this
    · exact Nat.succ_le_succ this

/-- Without a null block, every block is stored. -/
theorem storedIndices_eq {bs : List BlockId} (h : nullBlock ∉ bs) :
    ∀ j, storedIndices j bs = List.range' j bs.length := by
  induction bs with
  | nil =>
    intro j
    rfl
  | cons b bs ih =>
    intro j
    rw [List.mem_cons, not_or] at h
    rw [storedIndices, if_neg fun hb => h.1 hb.symm, ih h.2, List.length_cons, List.range'_succ]

/-- A null block makes the event store fewer. -/
theorem storedIndices_length_lt {bs : List BlockId} (h : nullBlock ∈ bs) :
    ∀ j, (storedIndices j bs).length < bs.length := by
  induction bs with
  | nil => cases h
  | cons b bs ih =>
    intro j
    have hle := storedIndices_length_le bs (j + 1)
    unfold storedIndices
    by_cases hb : b = nullBlock
    · rw [if_pos hb]
      exact Nat.lt_succ_of_le hle
    · rw [if_neg hb]
      rcases List.mem_cons.mp h with rfl | hmem
      · exact absurd rfl hb
      · exact Nat.succ_lt_succ (ih hmem (j + 1))

theorem newHashes_null (convert : List H → X) (hash : Option (List H))
    (entries : List (BlockId × Option (List H))) :
    EventPool.newHashes convert ((nullBlock, hash) :: entries)
      = EventPool.newHashes convert entries := rfl

theorem newHashes_found (convert : List H → X) {b : BlockId} (hb : b ≠ nullBlock) (h : List H)
    (entries : List (BlockId × Option (List H))) :
    EventPool.newHashes convert ((b, some h) :: entries)
      = convert h :: EventPool.newHashes convert entries := by
  unfold EventPool.newHashes
  rw [List.filterMap_cons]
  dsimp only
  rw [if_neg hb]
  rfl

/-- The hashes of an event are those at the stored indices. -/
theorem newHashes_stored (convert : List H → X) (hashes : List (List H)) :
    ∀ (bs : List BlockId) (m : Nat),
      (∀ i b, bs[i]? = some b → b ≠ nullBlock → ∃ h, hashes[m + i]? = some h) →
      (EventPool.newHashes convert
          (bs.mapIdx fun i b => (b, (hashes.drop m)[i]?))).map some
        = (storedIndices m bs).map fun j => hashes[j]?.map convert := by
  intro bs
  induction bs with
  | nil =>
    intro m _
    rfl
  | cons b bs ih =>
    intro m hfound
    have hrest := ih (m + 1) fun i b' hb' hne => by
      rw [Nat.add_right_comm]
      exact hfound (i + 1) b' hb' hne
    have htail : (fun i b => (b, (hashes.drop m)[i + 1]?))
        = fun i (b : BlockId) => (b, (hashes.drop (m + 1))[i]?) := by
      funext i b
      rw [List.getElem?_drop, List.getElem?_drop, Nat.add_assoc, Nat.add_comm 1 i]
    rw [List.mapIdx_cons, htail, storedIndices]
    by_cases hb : b = nullBlock
    · rw [if_pos hb, hb, newHashes_null]
      exact hrest
    · obtain ⟨h, hh⟩ := hfound 0 b rfl hb
      have hhead : (hashes.drop m)[0]? = some h := by
        rw [List.getElem?_drop]
        exact hh
      rw [if_neg hb, hhead, newHashes_found convert hb, List.map_cons, List.map_cons, hrest,
        show hashes[m]? = some h from hh]
      rfl

/-- There are as many extra keys as stored blocks. -/
theorem extraKeysFrom_length (hs : BlockHasher H) (r : Request H) (blockSize : Nat) :
    ∀ (bs : List BlockId) (j : Nat) (idx : Int),
      (EventPool.extraKeysFrom hs r blockSize j idx bs).length = (storedIndices j bs).length := by
  intro bs
  induction bs with
  | nil =>
    intro j idx
    rfl
  | cons b bs ih =>
    intro j idx
    unfold EventPool.extraKeysFrom storedIndices
    split
    · exact ih (j + 1) idx
    · dsimp only
      rw [List.length_cons, List.length_cons, ih]

theorem MmIdxOk.later {fs : List MultiModalFeatureSpec} {s s' stop : Nat} {idx : Int}
    (h : MmIdxOk fs s stop idx) (hle : s ≤ s') : MmIdxOk fs s' stop idx := by
  refine ⟨fun f hf => ?_, h.2⟩
  rcases h.1 f hf with hstop | hoff
  · exact Or.inl (Nat.le_trans hstop hle)
  · exact Or.inr hoff

/-- The extra keys are those of the stored blocks. The index into the features is not moved by a
null block, and so misses nothing behind it. -/
theorem extraKeysFrom_stored {hs : BlockHasher H} {r : Request H} {blockSize stop : Nat} :
    ∀ (bs : List BlockId) (j : Nat) (idx : Int), (j + bs.length) * blockSize ≤ stop →
      MmIdxOk r.mmFeatures (j * blockSize) stop idx →
      EventPool.extraKeysFrom hs r blockSize j idx bs
        = (storedIndices j bs).map fun j =>
            trueExtraKeys hs r (j * blockSize) (j * blockSize + blockSize) := by
  intro bs
  induction bs with
  | nil =>
    intro j idx _ _
    rfl
  | cons b bs ih =>
    intro j idx hstop hok
    have hnext : j * blockSize + blockSize = (j + 1) * blockSize := by rw [Nat.succ_mul]
    have hrest : (j + 1 + bs.length) * blockSize ≤ stop := by
      rw [List.length_cons] at hstop
      rwa [show j + 1 + bs.length = j + (bs.length + 1) by omega]
    rw [EventPool.extraKeysFrom, storedIndices]
    by_cases hb : b = nullBlock
    · rw [if_pos hb, if_pos hb]
      exact ih (j + 1) idx hrest (hok.later (by omega))
    · have hend : j * blockSize + blockSize ≤ stop := by
        rw [hnext]
        exact Nat.le_trans (Nat.mul_le_mul_right _ (Nat.le_add_right _ _)) hrest
      obtain ⟨hkeys, hok'⟩ := @generateBlockHashExtraKeys_spec H hs r _ _ _ _
        (Nat.le_add_right _ _) hend hok
      rw [if_neg hb, if_neg hb]
      dsimp only
      rw [List.map_cons, hkeys]
      rw [hnext] at hok' ⊢
      rw [ih (j + 1) _ hrest hok']

/-! ## One call -/

section Call

variable [DecidableEq H] {cfg : EventSettings H X} {p p' : EventPool H X} {r : Request H}
  {blocks : List BlockId} {numCached numFull blockSize : Nat} {groupId : GroupId}

/-- Every block that is filed had a hash. -/
theorem cacheLoop_found {g : GroupId} :
    ∀ (entries : List (BlockId × Option (List H))) {p p' : BlockPool H},
      entries.foldlM (BlockPool.cacheBlock g) p = .ok p' →
      ∀ e ∈ entries, e.1 ≠ nullBlock → ∃ h, e.2 = some h := by
  intro entries
  induction entries with
  | nil =>
    intro p p' _ e he
    cases he
  | cons entry entries ih =>
    intro p p' h e he hne
    obtain ⟨p₁, h₁, h₂⟩ := Raises.foldlM_cons_ok.mp h
    rcases List.mem_cons.mp he with rfl | hmem
    · obtain ⟨b, hash⟩ := e
      unfold BlockPool.cacheBlock at h₁
      dsimp only at h₁ hne
      rw [if_neg hne] at h₁
      split at h₁
      · cases h₁
      · cases hash with
        | none => cases h₁
        | some x => exact ⟨x, rfl⟩
    · exact ih h₂ e hmem hne

/-- The event of a call that files blocks: its hashes and its extra keys are those of the blocks
that are not null, its tokens those of all blocks. -/
theorem cacheFullBlocks_event (hon : cfg.enableKvCacheEvents = true) (hlt : numCached < numFull)
    (h : p.cacheFullBlocks cfg r blocks numCached numFull blockSize groupId = .ok p') :
    numFull ≤ blocks.length ∧ blockSize % p.pool.hashBlockSize = 0 ∧
    ∃ hashes parent keys,
      p'.kvEventQueue = p.kvEventQueue ++ [.blockStored hashes parent
        (r.blockTokens (numCached * blockSize) (numFull * blockSize)) blockSize
        (r.loraRequest.map (·.loraIntId)) .gpu (r.loraRequest.map (·.loraName)) keys groupId] ∧
      (parent = if numCached = 0 then none
        else (blockHashAt r p.pool.hashBlockSize blockSize (numCached - 1)).map
          cfg.maybeConvertBlockHash) ∧
      hashes.map some = (storedIndices numCached ((blocks.take numFull).drop numCached)).map
        (fun j => (blockHashAt r p.pool.hashBlockSize blockSize j).map
          cfg.maybeConvertBlockHash) ∧
      keys.getD [] = EventPool.extraKeysFrom cfg.hasher r blockSize numCached 0
        ((blocks.take numFull).drop numCached) := by
  unfold EventPool.cacheFullBlocks at h
  simp only [Raises.bind_eq_ok] at h
  obtain ⟨pool, hcache, h⟩ := h
  rw [if_neg (by simp [hon, hlt]), Raises.bind_eq_ok] at h
  obtain ⟨event, hevent, h⟩ := h
  rw [Raises.pure_eq_ok] at h
  subst h
  unfold BlockPool.cacheFullBlocks at hcache
  rw [if_neg (Nat.not_le_of_lt hlt)] at hcache
  simp only [Raises.bind_eq_ok] at hcache
  obtain ⟨_, -, _, hmod, hloop⟩ := hcache
  unfold EventPool.storedEvent at hevent
  simp only [Raises.bind_eq_ok] at hevent
  obtain ⟨parent, hparent, hevent⟩ := hevent
  split at hevent
  · exact absurd hevent Raises.throw_ne_ok
  next hshort =>
    rw [Raises.pure_eq_ok] at hevent
    subst hevent
    refine ⟨Nat.le_of_not_lt hshort, ?_, _, parent, _, EventPool.emit_queue hon _ _, ?_, ?_, ?_⟩
    · rcases of_decide_eq_true (Python.require_eq_ok.mp hmod) with heq | hmod
      · rw [heq, Nat.mod_self]
      · exact hmod
    · unfold EventPool.parentBlockHash at hparent
      by_cases hzero : numCached = 0
      · rw [if_pos hzero] at hparent ⊢
        exact (Except.ok.inj hparent).symm
      · rw [if_neg hzero] at hparent ⊢
        unfold blockHashAt
        split at hparent
        next x hx =>
          rw [hx]
          exact (Except.ok.inj hparent).symm
        · cases hparent
    · refine newHashes_stored _ _ _ _ fun i b hb hne => ?_
      -- the loop filed this block, so that it had a hash
      have hmem : (b, ((blockHashList r.blockHashes p.pool.hashBlockSize blockSize).drop
          numCached)[i]?) ∈ ((blocks.take numFull).drop numCached).mapIdx fun i b => (b,
            ((blockHashList r.blockHashes p.pool.hashBlockSize blockSize).drop numCached)[i]?) := by
        refine List.mem_iff_getElem?.mpr ⟨i, ?_⟩
        rw [List.getElem?_mapIdx, hb]
        rfl
      obtain ⟨x, hx⟩ := cacheLoop_found _ hloop _ hmem hne
      rw [List.getElem?_drop] at hx
      exact ⟨x, hx⟩
    · split
      next hnil => exact hnil.symm
      · rfl

omit [DecidableEq H] in
/-- Blocks `numCached` to `numFull`, none of them null, with the lists of their event. -/
theorem stores_all {hashBlockSize : Nat} {hashes : List X}
    {keys : Option (List (Option (List ExtraKey)))}
    (hsize : cfg.hasher.blockSize = hashBlockSize) (hpos : 0 < blockSize)
    (hmod : blockSize % hashBlockSize = 0) (htokens : numFull * blockSize ≤ r.numTokens)
    (hhashes : hashes.map some = (List.range' numCached (numFull - numCached)).map fun j =>
      (blockHashAt r hashBlockSize blockSize j).map cfg.maybeConvertBlockHash)
    (hcount : (keys.getD []).length = numFull - numCached)
    (hkeys : SortedDisjoint r.mmFeatures → keys.getD []
      = (List.range' numCached (numFull - numCached)).map fun j =>
        trueExtraKeys cfg.hasher r (j * blockSize) (j * blockSize + blockSize)) :
    StoresBlocks cfg r hashBlockSize (List.range' numCached (numFull - numCached)) hashes
      (if numCached = 0 then none
        else (blockHashAt r hashBlockSize blockSize (numCached - 1)).map cfg.maybeConvertBlockHash)
      (r.blockTokens (numCached * blockSize) (numFull * blockSize)) blockSize keys := by
  have hlen : hashes.length = numFull - numCached := by
    have := congrArg List.length hhashes
    rwa [List.length_map, List.length_map, List.length_range'] at this
  -- run `i` is block `numCached + i`
  have hrun : ∀ i, i < numFull - numCached →
      ((r.blockTokens (numCached * blockSize) (numFull * blockSize)).drop (i * blockSize)).take
          blockSize
        = r.blockTokens ((numCached + i) * blockSize)
            ((numCached + i) * blockSize + blockSize) := by
    intro i hi
    have hend : (numCached + i + 1) * blockSize ≤ numFull * blockSize :=
      Nat.mul_le_mul_right _ (by omega)
    rw [Nat.succ_mul, Nat.add_mul] at hend
    rw [blockTokens_run r hend, Nat.add_mul]
  refine ⟨hhashes, ?_, fun i j hj => ?_, fun hr i x hx => ?_, by rw [hcount, hlen], hkeys,
    fun j hj => ?_⟩
  · rw [blockTokens_length r htokens, hlen, Nat.sub_mul]
  · obtain ⟨hi, rfl⟩ := List.getElem?_eq_some_iff.mp hj
    rw [List.length_range'] at hi
    rw [hrun i hi, List.getElem_range', Nat.one_mul]
  · have hi : i < numFull - numCached := hlen ▸ (List.getElem?_eq_some_iff.mp hx).1
    have hat : (blockHashAt r hashBlockSize blockSize (numCached + i)).map
        cfg.maybeConvertBlockHash = some x := by
      have := congrArg (fun l => l[i]?) hhashes
      simp only [List.getElem?_map, hx, Option.map_some] at this
      rw [List.getElem?_range' hi, Nat.one_mul, Option.map_some] at this
      exact (Option.some.inj this).symm
    obtain ⟨h, hh, rfl⟩ := Option.map_eq_some_iff.mp hat
    subst hsize
    refine ⟨h, rfl, ?_⟩
    rw [hrun i hi]
    exact (blockHashAt_covers hpos hmod hr hh).2
  · have hne : 0 < numFull - numCached := by
      rcases Nat.eq_zero_or_pos (numFull - numCached) with hzero | hpos
      · rw [hzero] at hj
        cases hj
      · exact hpos
    obtain ⟨k, hk⟩ := Nat.exists_eq_add_of_lt hne
    rw [hk, Nat.zero_add, List.range'_succ, List.head?_cons] at hj
    rw [Option.some.inj hj]

/-- **The event of one call.** With the tokens of the new blocks there, the event is self-consistent
if and only if none of them is null. -/
theorem cacheFullBlocks_consistent_iff (hon : cfg.enableKvCacheEvents = true)
    (hsize : cfg.hasher.blockSize = p.pool.hashBlockSize) (hpos : 0 < blockSize)
    (hlt : numCached < numFull) (htokens : numFull * blockSize ≤ r.numTokens)
    (h : p.cacheFullBlocks cfg r blocks numCached numFull blockSize groupId = .ok p') :
    ∃ event, p'.kvEventQueue = p.kvEventQueue ++ [event] ∧
      (SelfConsistent cfg r p.pool.hashBlockSize event ↔
        nullBlock ∉ (blocks.take numFull).drop numCached) := by
  obtain ⟨hroom, hmod, hashes, parent, keys, hqueue, rfl, hhashes, hkeys⟩ :=
    cacheFullBlocks_event hon hlt h
  have hnew : ((blocks.take numFull).drop numCached).length = numFull - numCached := by
    rw [List.length_drop, List.length_take, Nat.min_eq_left hroom]
  have hcount : hashes.length
      = (storedIndices numCached ((blocks.take numFull).drop numCached)).length := by
    have := congrArg List.length hhashes
    rwa [List.length_map, List.length_map] at this
  have hlen : (r.blockTokens (numCached * blockSize) (numFull * blockSize)).length
      = (numFull - numCached) * blockSize := by
    rw [blockTokens_length r htokens, Nat.sub_mul]
  refine ⟨_, hqueue, fun ⟨js, hstores⟩ hnull => ?_, fun hnone => ?_⟩
  · -- a null block leaves fewer hashes than runs of tokens
    have hfewer := storedIndices_length_lt hnull numCached
    rw [← hcount, hnew] at hfewer
    have hruns := hstores.numTokens
    rw [hlen] at hruns
    have := Nat.eq_of_mul_eq_mul_right hpos hruns
    omega
  · have hall := storedIndices_eq hnone numCached
    rw [hnew] at hall
    rw [hall] at hhashes
    refine ⟨_, stores_all hsize hpos hmod htokens hhashes ?_ fun hsorted => ?_⟩
    · rw [hkeys, extraKeysFrom_length, hall, List.length_range']
    · rw [hkeys, extraKeysFrom_stored _ _ _ (Nat.le_refl _) (mmIdxOk_zero hsorted _ _), hall]

end Call

/-! ## A manager's call -/

namespace SingleTypeManager

variable [DecidableEq H] {cfg : EventSettings H X} {p p' : EventPool H X}
  {m m' : SingleTypeManager H} {r : Request H} {n : Int}

/-- What a call of the base class adds to the queue. -/
theorem baseCacheBlocks_events (hon : cfg.enableKvCacheEvents = true)
    (hsize : cfg.hasher.blockSize = p.pool.hashBlockSize) (hpos : 0 < m.spec.blockSize)
    (hn : n ≤ r.numTokens) (h : m.baseCacheBlocksEmitting cfg p r n = .ok (p', m')) :
    ∃ events, p'.kvEventQueue = p.kvEventQueue ++ events ∧
      ((∀ e ∈ events, SelfConsistent cfg r p.pool.hashBlockSize e) ↔
        nullBlock ∉ m.newFullBlocks r n) := by
  unfold baseCacheBlocksEmitting at h
  dsimp only at h
  split at h
  next hge =>
    -- nothing is new
    obtain ⟨rfl, rfl⟩ := Prod.mk.inj (Except.ok.inj h)
    refine ⟨[], (List.append_nil _).symm, fun _ => ?_, fun _ e he => by cases he⟩
    unfold newFullBlocks
    rw [List.drop_of_length_le (by rw [List.length_take]; omega)]
    exact List.not_mem_nil
  next hge =>
    simp only [Raises.bind_eq_ok, Raises.pure_eq_ok] at h
    obtain ⟨q, hq, heq⟩ := h
    obtain ⟨rfl, rfl⟩ := Prod.mk.inj heq
    have hbs : (0 : Int) < m.spec.blockSize := by exact_mod_cast hpos
    have hfull : Int.fdiv n m.spec.blockSize * m.spec.blockSize ≤ n := by
      rw [Int.fdiv_eq_ediv_of_nonneg _ (Int.le_of_lt hbs)]
      exact Int.ediv_mul_le n (by omega)
    have htokens : (Int.fdiv n m.spec.blockSize).toNat * m.spec.blockSize ≤ r.numTokens := by
      have hcast : ((Int.fdiv n m.spec.blockSize).toNat : Int) = Int.fdiv n m.spec.blockSize :=
        Int.toNat_of_nonneg (by omega)
      have : (((Int.fdiv n m.spec.blockSize).toNat * m.spec.blockSize : Nat) : Int)
          ≤ r.numTokens := by
        rw [Nat.cast_mul, hcast]
        exact Int.le_trans hfull hn
      exact_mod_cast this
    obtain ⟨event, hqueue, hiff⟩ :=
      cacheFullBlocks_consistent_iff hon hsize hpos (by omega) htokens hq
    refine ⟨[event], hqueue, ?_⟩
    rw [List.forall_mem_singleton, hiff]
    rfl

/-- What any manager's call adds to the queue. -/
theorem cacheBlocks_events (hon : cfg.enableKvCacheEvents = true)
    (hsize : cfg.hasher.blockSize = p.pool.hashBlockSize) (hpos : 0 < m.spec.blockSize)
    (hn : n ≤ r.numTokens) (h : m.cacheBlocksEmitting cfg p r n = .ok (p', m')) :
    ∃ events, p'.kvEventQueue = p.kvEventQueue ++ events ∧
      ((∀ e ∈ events, SelfConsistent cfg r p.pool.hashBlockSize e) ↔
        nullBlock ∉ m.newFullBlocks r n) := by
  unfold cacheBlocksEmitting at h
  cases hkind : m.spec.kind <;> rw [hkind] at h
  case crossAttention => cases h
  case mamba =>
    simp only [Raises.bind_eq_ok, Raises.pure_eq_ok] at h
    obtain ⟨⟨q, m₁⟩, hbase, heq⟩ := h
    obtain ⟨rfl, rfl⟩ := Prod.mk.inj heq
    exact baseCacheBlocks_events hon hsize hpos hn hbase
  all_goals exact baseCacheBlocks_events hon hsize hpos hn h

/-- **When the events are self-consistent.** Any manager, any state of it and of its pool, any
request, and a number of tokens that the request has: what `cache_blocks` adds to the event queue
is self-consistent if and only if none of the blocks that it passes to the pool as new is null. -/
theorem cacheBlocks_events_consistent_iff (hon : cfg.enableKvCacheEvents = true)
    (hsize : cfg.hasher.blockSize = p.pool.hashBlockSize) (hpos : 0 < m.spec.blockSize)
    (hn : n ≤ r.numTokens) (h : m.cacheBlocksEmitting cfg p r n = .ok (p', m')) :
    m.cacheBlocks p.pool r n = .ok (p'.pool, m') ∧
    ∃ events, p'.kvEventQueue = p.kvEventQueue ++ events ∧
      ((∀ e ∈ events, SelfConsistent cfg r p.pool.hashBlockSize e) ↔
        nullBlock ∉ m.newFullBlocks r n) :=
  ⟨cacheBlocksEmitting_pool h, cacheBlocks_events hon hsize hpos hn h⟩

end SingleTypeManager

/-! ## A prompt in one chunk -/

/-- Free digests, published as they are. -/
def freeEvents : EventSettings Digest (List Digest) where
  enableKvCacheEvents := true
  hasher := freeHasher 2
  maybeConvertBlockHash := id

/-- A new request, and the pool and the manager that have allocated blocks for its whole prompt. -/
def promptAllocated (spec : KVCacheSpec) (tokens : List Token) :
    Except Python.Error
      (Request Digest × EventPool Digest (List Digest) × SingleTypeManager Digest) := do
  let r ← Request.fromEngineCoreRequest (some (freeHasher 2)) (plainPrompt "a" tokens)
  let p ← BlockPool.init 8 true 2
  let (p, m) ← SingleTypeManager.init p spec true 0
  let (p, m, _) ← m.allocateNewBlocks p "a" tokens.length tokens.length
  return (r, ⟨p, []⟩, m)

/-- The prompt is cached with a padding block or without, and what
`cacheBlocks_events_consistent_iff` asks for holds. -/
def cachesPrompt (spec : KVCacheSpec) (tokens : List Token) (padded : Bool) : Bool :=
  match promptAllocated spec tokens with
  | .error _ => false
  | .ok (r, p, m) =>
    (m.cacheBlocksEmitting freeEvents p r tokens.length).isOk
      && decide (p.pool.hashBlockSize = 2 ∧ 0 < m.spec.blockSize ∧ tokens.length ≤ r.numTokens)
      && decide (nullBlock ∈ m.newFullBlocks r tokens.length) == padded

/-- What such a prompt gives `cacheBlocks_events_consistent_iff` to work on. -/
theorem promptCached {spec : KVCacheSpec} {tokens : List Token} {padded : Bool}
    (h : cachesPrompt spec tokens padded = true) :
    ∃ r p m p' m', promptAllocated spec tokens = .ok (r, p, m) ∧
      m.cacheBlocksEmitting freeEvents p r tokens.length = .ok (p', m') ∧
      p.pool.hashBlockSize = 2 ∧ 0 < m.spec.blockSize ∧ (tokens.length : Int) ≤ r.numTokens ∧
      (nullBlock ∈ m.newFullBlocks r tokens.length ↔ padded = true) := by
  unfold cachesPrompt at h
  split at h
  · cases h
  next r p m hrun =>
    simp only [Bool.and_eq_true, decide_eq_true_eq, beq_iff_eq] at h
    obtain ⟨⟨hok, hsize, hpos, hn⟩, hnull⟩ := h
    obtain ⟨⟨p', m'⟩, hcache⟩ := Raises.exists_of_isOk hok
    refine ⟨r, p, m, p', m', hrun, hcache, hsize, hpos, by exact_mod_cast hn, ?_⟩
    rw [← hnull, decide_eq_true_eq]

/-- Two blocks of full attention. -/
theorem cacheBlocks_events_consistent_iff_full :
    ∃ r p m p' m' events, promptAllocated (fullSpec 2 1) [1, 2, 3, 4] = .ok (r, p, m) ∧
      m.cacheBlocksEmitting freeEvents p r 4 = .ok (p', m') ∧
      p'.kvEventQueue = p.kvEventQueue ++ events ∧
      ∀ e ∈ events, SelfConsistent freeEvents r p.pool.hashBlockSize e := by
  have hprompt : cachesPrompt (fullSpec 2 1) [1, 2, 3, 4] false = true := by decide +kernel
  obtain ⟨r, p, m, p', m', hrun, hcache, hsize, hpos, hn, hnull⟩ := promptCached hprompt
  have hon : freeEvents.enableKvCacheEvents = true := rfl
  obtain ⟨-, events, hqueue, hiff⟩ :=
    SingleTypeManager.cacheBlocks_events_consistent_iff hon hsize.symm hpos hn hcache
  exact ⟨r, p, m, p', m', events, hrun, hcache, hqueue, hiff.mpr fun h => by
    simpa using hnull.mp h⟩

/-- A Mamba layer in align mode. -/
def alignedLayer : KVCacheSpec where
  blockSize := 2
  kind := .mamba
    { shapes := [[4]]
      dtypes := [.float16]
      pageSizePadded := none
      mambaType := "mamba2"
      mambaCacheMode := .align
      numSpeculativeBlocks := 0 }

/-- The padded block of an aligned chunk: one hash, and the tokens of two blocks. -/
theorem alignedChunk_inconsistent :
    ¬ ∀ (spec : KVCacheSpec) (tokens : List Token) (r : Request Digest)
      (p p' : EventPool Digest (List Digest)) (m m' : SingleTypeManager Digest),
      promptAllocated spec tokens = .ok (r, p, m) →
      m.cacheBlocksEmitting freeEvents p r tokens.length = .ok (p', m') →
      ∀ events, p'.kvEventQueue = p.kvEventQueue ++ events →
        ∀ e ∈ events, SelfConsistent freeEvents r p.pool.hashBlockSize e := by
  intro h
  have hprompt : cachesPrompt alignedLayer [1, 2, 3, 4] true = true := by decide +kernel
  obtain ⟨r, p, m, p', m', hrun, hcache, hsize, hpos, hn, hnull⟩ := promptCached hprompt
  have hon : freeEvents.enableKvCacheEvents = true := rfl
  obtain ⟨events, hqueue, hiff⟩ :=
    SingleTypeManager.cacheBlocks_events hon hsize.symm hpos hn hcache
  have hall := h alignedLayer [1, 2, 3, 4] r p p' m m' hrun hcache events hqueue
  exact hiff.mp hall (hnull.mpr rfl)

end VllmEngine
