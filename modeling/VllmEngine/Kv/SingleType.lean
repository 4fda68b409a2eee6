import VllmEngine.Kv.Lookup

/-!
# The managers of single attention types

`SingleTypeKVCacheManager` and its subclasses
(`vllm/v1/core/single_type_kv_cache_manager.py`): which blocks each request
holds in one KV cache group. All managers share one block pool, so a method
takes the pool and returns it changed.

Mirroring notes:
- `req_to_blocks` is a `defaultdict`: reading it with `[]` creates an empty
  entry, reading it with `.get` does not. `withEntry` is the creating read.
- Block counts are integers: a difference of two counts can be negative, and
  `get_new_blocks` accepts a negative count.
- The fields `cachedBlocksThisStep`, `lastStateBlockIdx` and
  `allocatedBlockReqs` belong to `MambaManager`; the other managers leave them
  empty. The empty entry that `MambaManager.get_num_blocks_to_allocate` creates
  is left out, as nothing counts the entries of that manager.
-/

namespace VllmEngine

variable {H : Type} [DecidableEq H]

structure SingleTypeManager (H : Type) where
  spec : KVCacheSpec
  groupId : GroupId
  enableCaching : Bool
  newBlockIds : List BlockId
  reqToBlocks : Dict ReqId (List BlockId)
  numCachedBlock : Dict ReqId Nat
  cachedBlocksThisStep : List (BlockKey H)
  lastStateBlockIdx : Dict ReqId Int
  allocatedBlockReqs : List ReqId

namespace SingleTypeManager

/-- `get_manager_for_kv_cache_spec`. The manager of a sink spec takes its sink
blocks out of the pool for good. -/
def init (p : BlockPool H) (spec : KVCacheSpec) (enableCaching : Bool) (groupId : GroupId) :
    Except Python.Error (BlockPool H × SingleTypeManager H) :=
  let m : SingleTypeManager H :=
    { spec := spec
      groupId := groupId
      enableCaching := enableCaching
      newBlockIds := []
      reqToBlocks := Dict.empty
      numCachedBlock := Dict.empty
      cachedBlocksThisStep := []
      lastStateBlockIdx := Dict.empty
      allocatedBlockReqs := [] }
  match spec.kind with
  | .sinkFullAttention _ _ sinkLen => do
    let n := sinkLen.getD 0
    Python.require (decide (n > 0 ∧ n % spec.blockSize = 0)) ""
    let (p, _) ← p.popleftN ((n / spec.blockSize : Nat) : Int)
    return (p, m)
  | _ => .ok (p, m)

/-- `req_to_blocks.get(request_id, [])`. -/
def reqBlocks (m : SingleTypeManager H) (reqId : ReqId) : List BlockId :=
  (m.reqToBlocks.get? reqId).getD []

/-- `req_to_blocks[request_id] = blocks`. -/
def setBlocks (m : SingleTypeManager H) (reqId : ReqId) (blocks : List BlockId) :
    SingleTypeManager H :=
  { m with reqToBlocks := m.reqToBlocks.set reqId blocks }

/-- Reading `req_to_blocks[request_id]`. -/
def withEntry (m : SingleTypeManager H) (reqId : ReqId) : SingleTypeManager H :=
  m.setBlocks reqId (m.reqBlocks reqId)

/-- Append newly allocated blocks to a request. Their ids are also recorded for
zeroing when the spec is plain full attention. -/
def appendBlocks (m : SingleTypeManager H) (reqId : ReqId) (blocks : List BlockId) :
    SingleTypeManager H :=
  { m.setBlocks reqId (m.reqBlocks reqId ++ blocks) with
    newBlockIds := if m.spec.isPlainFullAttention then m.newBlockIds ++ blocks else m.newBlockIds }

/-- `get_num_skipped_tokens`. -/
def getNumSkippedTokens (m : SingleTypeManager H) (numComputedTokens : Int) : Int :=
  match m.spec.kind with
  | .slidingWindow _ w => max 0 (numComputedTokens - w + 1)
  | .chunkedLocalAttention _ chunk => Int.fdiv numComputedTokens chunk * chunk
  | .mamba _ => numComputedTokens - 1
  | _ => 0

/-- `num_skipped_tokens // block_size`. -/
def numSkippedBlocks (m : SingleTypeManager H) (numComputedTokens : Int) : Int :=
  Int.fdiv (m.getNumSkippedTokens numComputedTokens) m.spec.blockSize

/-- `cdiv(num_tokens, block_size)`. -/
def numRequiredBlocks (m : SingleTypeManager H) (numTokens : Int) : Int :=
  Python.cdiv numTokens m.spec.blockSize

/-! ## How many blocks an allocation takes -/

/-- `_get_num_evictable_blocks`. -/
def getNumEvictableBlocks (p : BlockPool H) (blocks : List BlockId) : Nat :=
  blocks.countP fun b => decide (p.refCnt b = 0 ∧ b ≠ nullBlock)

/-- `SingleTypeKVCacheManager.get_num_blocks_to_allocate`. -/
def baseNumBlocksToAllocate (p : BlockPool H) (m : SingleTypeManager H) (reqId : ReqId)
    (numTokens : Int) (newComputedBlocks : List BlockId) (totalComputedTokens : Int) :
    Except Python.Error Int :=
  let numReqBlocks : Int := (m.reqBlocks reqId).length
  if m.numCachedBlock.contains reqId then
    -- a running request has no new hits
    if newComputedBlocks.length = 0 then .ok (max (m.numRequiredBlocks numTokens - numReqBlocks) 0)
    else .error (.assertion "")
  else
    let numLocalComputedBlocks : Int := newComputedBlocks.length + numReqBlocks
    let numSkippedBlocks := m.numSkippedBlocks totalComputedTokens
    let numNewBlocks :=
      max (m.numRequiredBlocks numTokens - max numSkippedBlocks numLocalComputedBlocks) 0
    let numSkippedNew := max 0 (numSkippedBlocks - numReqBlocks)
    .ok (numNewBlocks + getNumEvictableBlocks p (newComputedBlocks.drop numSkippedNew.toNat))

/-- `MambaManager.get_num_blocks_to_allocate`. -/
def mambaNumBlocksToAllocate (p : BlockPool H) (m : SingleTypeManager H) (f : MambaFields)
    (reqId : ReqId) (numTokens : Int) (newComputedBlocks : List BlockId)
    (totalComputedTokens numTokensMainModel : Int) : Except Python.Error Int :=
  let hitThisStep : Bool :=
    match newComputedBlocks.getLast?.bind p.blockHash with
    | some key => decide (key ∈ m.cachedBlocksThisStep)
    | none => false
  if hitThisStep then .ok (p.numGpuBlocks + 1)
  else if f.mambaCacheMode ≠ .align then
    m.baseNumBlocksToAllocate p reqId (numTokens + m.spec.blockSize * f.numSpeculativeBlocks)
      newComputedBlocks totalComputedTokens
  else
    let numRequired := m.numRequiredBlocks numTokensMainModel + f.numSpeculativeBlocks
    let numNew := numRequired - newComputedBlocks.length - (m.reqBlocks reqId).length
    let numNew : Int :=
      if numNew > 0 then
        if reqId ∈ m.allocatedBlockReqs then 1 else 1 + f.numSpeculativeBlocks
      else numNew
    .ok (numNew + getNumEvictableBlocks p newComputedBlocks)

/-- `get_num_blocks_to_allocate`. -/
def getNumBlocksToAllocate (p : BlockPool H) (m : SingleTypeManager H) (reqId : ReqId)
    (numTokens : Int) (newComputedBlocks : List BlockId)
    (totalComputedTokens numTokensMainModel : Int) : Except Python.Error Int :=
  match m.spec.kind with
  | .mamba f => m.mambaNumBlocksToAllocate p f reqId numTokens newComputedBlocks
      totalComputedTokens numTokensMainModel
  | _ => m.baseNumBlocksToAllocate p reqId numTokens newComputedBlocks totalComputedTokens

/-! ## Giving blocks to a request -/

/-- The hit blocks a new request takes over: those inside the window. -/
def keptBlocks (m : SingleTypeManager H) (newComputedBlocks : List BlockId)
    (totalComputedTokens : Int) : List BlockId :=
  if m.numSkippedBlocks totalComputedTokens > 0 then
    newComputedBlocks.drop (m.numSkippedBlocks totalComputedTokens).toNat
  else newComputedBlocks

/-- The external tokens that need a block: those inside the window. -/
def keptExternalTokens (m : SingleTypeManager H) (totalComputedTokens : Int)
    (numExternalComputedTokens : Int) : Int :=
  if m.numSkippedBlocks totalComputedTokens > 0 then
    min (totalComputedTokens - m.getNumSkippedTokens totalComputedTokens) numExternalComputedTokens
  else numExternalComputedTokens

/-- Touch the kept hits; without prefix caching there are none. -/
def touchKept (p : BlockPool H) (m : SingleTypeManager H) (kept : List BlockId) :
    Except Python.Error (BlockPool H) :=
  if m.enableCaching then p.touch kept
  else if kept = [] then .ok p
  else .error (.assertion "Computed blocks should be empty when prefix caching is disabled")

/-- Touch the kept hits and make them, after null blocks for what the window
skips, the request's blocks. -/
def adoptBlocks (p : BlockPool H) (m : SingleTypeManager H) (reqId : ReqId) (kept : List BlockId)
    (numSkippedBlocks : Int) : Except Python.Error (BlockPool H × SingleTypeManager H) := do
  let p ← m.touchKept p kept
  let blocks := List.replicate numSkippedBlocks.toNat nullBlock ++ kept
  return (p, { m.setBlocks reqId blocks with
    numCachedBlock := m.numCachedBlock.set reqId blocks.length })

/-- Blocks for the external tokens. -/
def allocateExternal (p : BlockPool H) (m : SingleTypeManager H) (reqId : ReqId)
    (totalComputedTokens : Int) : Except Python.Error (BlockPool H × SingleTypeManager H) := do
  let (p, allocated) ← p.getNewBlocks
    (m.numRequiredBlocks totalComputedTokens - (m.reqBlocks reqId).length)
  return (p, m.appendBlocks reqId allocated)

/-- `SingleTypeKVCacheManager.allocate_new_computed_blocks`. -/
def baseAllocateNewComputedBlocks (p : BlockPool H) (m : SingleTypeManager H) (reqId : ReqId)
    (newComputedBlocks : List BlockId) (numLocalComputedTokens numExternalComputedTokens : Int) :
    Except Python.Error (BlockPool H × SingleTypeManager H) :=
  if m.numCachedBlock.contains reqId then
    if newComputedBlocks.length = 0 then .ok (p, m) else .error (.assertion "")
  else if m.reqBlocks reqId ≠ [] then .error (.assertion "")
  else do
    let total := numLocalComputedTokens + numExternalComputedTokens
    let (p, m) ← m.adoptBlocks p reqId (m.keptBlocks newComputedBlocks total)
      (m.numSkippedBlocks total)
    if m.keptExternalTokens total numExternalComputedTokens > 0 then
      m.allocateExternal p reqId total
    else return (p, m)

/-- `allocate_new_computed_blocks`. -/
def allocateNewComputedBlocks (p : BlockPool H) (m : SingleTypeManager H) (reqId : ReqId)
    (newComputedBlocks : List BlockId) (numLocalComputedTokens numExternalComputedTokens : Int) :
    Except Python.Error (BlockPool H × SingleTypeManager H) :=
  if m.spec.isCrossAttention then
    if newComputedBlocks.length = 0 then .ok (p, m) else .error (.assertion "")
  else m.baseAllocateNewComputedBlocks p reqId newComputedBlocks numLocalComputedTokens
    numExternalComputedTokens

/-- `SingleTypeKVCacheManager.allocate_new_blocks`. -/
def baseAllocateNewBlocks (p : BlockPool H) (m : SingleTypeManager H) (reqId : ReqId)
    (numTokens : Int) : Except Python.Error (BlockPool H × SingleTypeManager H × List BlockId) :=
  let m := m.withEntry reqId
  let numNewBlocks := m.numRequiredBlocks numTokens - (m.reqBlocks reqId).length
  if numNewBlocks ≤ 0 then .ok (p, m, [])
  else do
    let (p, newBlocks) ← p.getNewBlocks numNewBlocks
    return (p, m.appendBlocks reqId newBlocks, newBlocks)

/-- The loop that moves the previous speculative blocks to the end of the list,
over the indices `idx, …, idx + n - 1`. -/
def reuseSpeculative (numSkippedBlocks : Int) : Nat → Nat → List BlockId → List BlockId
  | 0, _, blocks => blocks
  | n + 1, idx, blocks =>
    if (idx : Int) < numSkippedBlocks then
      reuseSpeculative numSkippedBlocks n (idx + 1)
        ((blocks ++ [blocks.getD idx nullBlock]).set idx nullBlock)
    else blocks

/-- `MambaManager.allocate_new_blocks` in align mode. -/
def mambaAllocateNewBlocks (p : BlockPool H) (m : SingleTypeManager H) (f : MambaFields)
    (reqId : ReqId) (numTokensMainModel : Int) :
    Except Python.Error (BlockPool H × SingleTypeManager H × List BlockId) :=
  let m := m.withEntry reqId
  let blocks := m.reqBlocks reqId
  let numRequired := m.numRequiredBlocks numTokensMainModel + f.numSpeculativeBlocks
  if numRequired = blocks.length then .ok (p, m, [])
  else do
    Python.require (decide (numRequired > blocks.length)) "num_required_blocks < len(req_blocks)"
    let prevBlockLen := blocks.length
    let allocated := decide (reqId ∈ m.allocatedBlockReqs)
    let lastStateBlockIdx : Dict ReqId Int :=
      if allocated then
        m.lastStateBlockIdx.set reqId ((prevBlockLen : Int) - 1 - f.numSpeculativeBlocks)
      else if prevBlockLen > 0 then m.lastStateBlockIdx.set reqId ((prevBlockLen : Int) - 1)
      else m.lastStateBlockIdx
    let numSkipped := numRequired - f.numSpeculativeBlocks - 1
    let blocks := blocks ++ List.replicate (numSkipped - prevBlockLen).toNat nullBlock
    -- the previous speculative blocks are moved to the end
    let blocks :=
      if allocated then
        reuseSpeculative numSkipped f.numSpeculativeBlocks (prevBlockLen - f.numSpeculativeBlocks)
          blocks
      else blocks
    let numNew := numRequired - blocks.length
    Python.require
      (decide (numNew ≤ if allocated then 1 else (f.numSpeculativeBlocks : Int) + 1)) ""
    let (p, newBlocks) ← p.getNewBlocks numNew
    let blocks := blocks ++ newBlocks
    return (p, { m.setBlocks reqId blocks with
        lastStateBlockIdx := lastStateBlockIdx
        allocatedBlockReqs :=
          if allocated then m.allocatedBlockReqs else m.allocatedBlockReqs ++ [reqId] },
      blocks.drop prevBlockLen)

/-- `allocate_new_blocks`. -/
def allocateNewBlocks (p : BlockPool H) (m : SingleTypeManager H) (reqId : ReqId)
    (numTokens numTokensMainModel : Int) :
    Except Python.Error (BlockPool H × SingleTypeManager H × List BlockId) :=
  match m.spec.kind with
  | .mamba f =>
    if f.mambaCacheMode = .align then m.mambaAllocateNewBlocks p f reqId numTokensMainModel
    else m.baseAllocateNewBlocks p reqId (numTokens + m.spec.blockSize * f.numSpeculativeBlocks)
  | _ => m.baseAllocateNewBlocks p reqId numTokens

/-! ## Caching and freeing -/

/-- `SingleTypeKVCacheManager.cache_blocks`. -/
def baseCacheBlocks (p : BlockPool H) (m : SingleTypeManager H) (r : Request H) (numTokens : Int) :
    Except Python.Error (BlockPool H × SingleTypeManager H) :=
  let numCachedBlocks := (m.numCachedBlock.get? r.requestId).getD 0
  let numFullBlocks := Int.fdiv numTokens m.spec.blockSize
  if (numCachedBlocks : Int) ≥ numFullBlocks then .ok (p, m)
  else do
    let p ← p.cacheFullBlocks r (m.reqBlocks r.requestId) numCachedBlocks numFullBlocks.toNat
      m.spec.blockSize m.groupId
    return (p, { m.withEntry r.requestId with
      numCachedBlock := m.numCachedBlock.set r.requestId numFullBlocks.toNat })

/-- The keys that `MambaManager.cache_blocks` records as cached in this step. -/
def keysCachedThisStep (p : BlockPool H) (blocks : List BlockId) : List (BlockKey H) :=
  (blocks.filter fun b => decide (b ≠ nullBlock)).filterMap p.blockHash

/-- `cache_blocks`. -/
def cacheBlocks (p : BlockPool H) (m : SingleTypeManager H) (r : Request H) (numTokens : Int) :
    Except Python.Error (BlockPool H × SingleTypeManager H) :=
  match m.spec.kind with
  | .crossAttention _ => .error (.value "Should not be called as prefix caching is disabled.")
  | .mamba _ => do
    let before := (m.numCachedBlock.get? r.requestId).getD 0
    let (p, m) ← m.baseCacheBlocks p r numTokens
    let after := (m.numCachedBlock.get? r.requestId).getD 0
    let keys := keysCachedThisStep p (((m.reqBlocks r.requestId).take after).drop before)
    return (p, { m with cachedBlocksThisStep := m.cachedBlocksThisStep ++ keys })
  | _ => m.baseCacheBlocks p r numTokens

/-- `SingleTypeKVCacheManager.free`. -/
def baseFree (p : BlockPool H) (m : SingleTypeManager H) (reqId : ReqId) :
    BlockPool H × SingleTypeManager H :=
  -- in reverse order, so that the tail blocks are evicted first
  (p.freeBlocksOf (m.reqBlocks reqId).reverse,
    { m with reqToBlocks := m.reqToBlocks.erase reqId
             numCachedBlock := m.numCachedBlock.erase reqId })

/-- `free`. -/
def free (p : BlockPool H) (m : SingleTypeManager H) (reqId : ReqId) :
    BlockPool H × SingleTypeManager H :=
  match m.spec.kind with
  | .mamba f =>
    if f.mambaCacheMode = .align then
      { m with allocatedBlockReqs := m.allocatedBlockReqs.filter fun r => decide (r ≠ reqId)
               lastStateBlockIdx := m.lastStateBlockIdx.erase reqId }.baseFree p reqId
    else m.baseFree p reqId
  | _ => m.baseFree p reqId

/-- The loop of `remove_skipped_blocks`, from index `n - 1` down to the first
null block: the blocks afterwards and the removed ones in order. -/
def skipLoop : Nat → List BlockId → List BlockId × List BlockId
  | 0, blocks => (blocks, [])
  | i + 1, blocks =>
    match blocks[i]? with
    | none => (blocks, [])
    | some b =>
      if b = nullBlock then (blocks, [])
      else
        let (blocks, removed) := skipLoop i (blocks.set i nullBlock)
        (blocks, b :: removed)

/-- `SingleTypeKVCacheManager.remove_skipped_blocks`. -/
def baseRemoveSkippedBlocks (p : BlockPool H) (m : SingleTypeManager H) (reqId : ReqId)
    (totalComputedTokens : Int) : BlockPool H × SingleTypeManager H :=
  if m.getNumSkippedTokens totalComputedTokens ≤ 0 then (p, m)
  else
    let blocks := m.reqBlocks reqId
    let n := min (m.numSkippedBlocks totalComputedTokens) blocks.length
    let (blocks, removed) := skipLoop n.toNat blocks
    (p.freeBlocksOf removed, m.setBlocks reqId blocks)

/-- `MambaManager.remove_skipped_blocks`. -/
def mambaRemoveSkippedBlocks (p : BlockPool H) (m : SingleTypeManager H) (f : MambaFields)
    (reqId : ReqId) (numComputedTokens : Int) : BlockPool H × SingleTypeManager H :=
  -- draft tokens of the previous step may still be rejected
  let numComputedTokens := max 0 (numComputedTokens - f.numSpeculativeBlocks)
  let (p, m) := m.baseRemoveSkippedBlocks p reqId numComputedTokens
  if f.mambaCacheMode = .align then
    match m.lastStateBlockIdx.get? reqId with
    | none => (p, m)
    | some idx =>
      if idx < m.numRequiredBlocks numComputedTokens - 1 then
        let b := (m.reqBlocks reqId).getD idx.toNat nullBlock
        if b ≠ nullBlock then
          (p.freeBlocksOf [b], m.setBlocks reqId ((m.reqBlocks reqId).set idx.toNat nullBlock))
        else (p, m)
      else (p, m)
  else (p, m)

/-- `remove_skipped_blocks`. -/
def removeSkippedBlocks (p : BlockPool H) (m : SingleTypeManager H) (reqId : ReqId)
    (totalComputedTokens : Int) : BlockPool H × SingleTypeManager H :=
  match m.spec.kind with
  | .mamba f => m.mambaRemoveSkippedBlocks p f reqId totalComputedTokens
  | _ => m.baseRemoveSkippedBlocks p reqId totalComputedTokens

/-- `new_step_starts`. -/
def newStepStarts (m : SingleTypeManager H) : SingleTypeManager H :=
  { m with cachedBlocksThisStep := [] }

/-- `take_new_block_ids`: the ids, and the manager with none left. -/
def takeNewBlockIds (m : SingleTypeManager H) : List BlockId × SingleTypeManager H :=
  (m.newBlockIds, { m with newBlockIds := [] })

end SingleTypeManager

end VllmEngine
