import VllmEngine.Kv.SingleType
import VllmEngine.Kv.Hybrid

/-!
# The KV cache manager

`KVCacheCoordinator` with its three subclasses
(`vllm/v1/core/kv_cache_coordinator.py`) and `KVCacheManager`
(`vllm/v1/core/kv_cache_manager.py`), which the scheduler calls. The
coordinator holds one manager per KV cache group and the pool they share.

Mirroring notes:
- `KVCacheBlocks` is the list of the groups' block lists. The source compares
  it by identity with the one empty instance; `create_kv_cache_blocks` returns
  that instance exactly when every list is empty, so the test here is whether
  all lists are empty.
- A request has at least one token, so `num_tokens - 1` is a natural number.
- Statistics, KV events and context parallelism are left out.
-/

namespace VllmEngine

variable {H : Type} [DecidableEq H]

/-- The coordinator class. -/
inductive CoordinatorKind
  | noPrefixCache
  | unitary (spec : KVCacheSpec)
  | hybrid (c : HybridCoordinator)
deriving DecidableEq, Repr

structure KVCacheCoordinator (H : Type) where
  kind : CoordinatorKind
  useEagle : Bool
  blockPool : BlockPool H
  singleTypeManagers : List (SingleTypeManager H)

namespace KVCacheCoordinator

/-- The managers of the groups `i, i + 1, …`, created in order. -/
def initManagers (enableCaching : Bool) : GroupId → BlockPool H → List KVCacheSpec →
    Except Python.Error (BlockPool H × List (SingleTypeManager H))
  | _, p, [] => .ok (p, [])
  | i, p, spec :: specs => do
    let (p, m) ← SingleTypeManager.init p spec enableCaching i
    let (p, ms) ← initManagers enableCaching (i + 1) p specs
    return (p, m :: ms)

/-- The class that `get_kv_cache_coordinator` chooses. -/
def initKind (specs : List KVCacheSpec) (enableCaching useEagle : Bool) (hashBlockSize : Nat) :
    Except Python.Error CoordinatorKind :=
  if enableCaching then
    match specs with
    | [spec] => do
      Python.require (decide (hashBlockSize = spec.blockSize))
        "UnitaryKVCacheCoordinator assumes hash_block_size == block_size"
      return .unitary spec
    | _ => do
      let c ← HybridCoordinator.init specs hashBlockSize useEagle
      return .hybrid c
  else .ok .noPrefixCache

/-- `get_kv_cache_coordinator`. -/
def init (specs : List KVCacheSpec) (numBlocks : Nat) (useEagle enableCaching : Bool)
    (hashBlockSize : Nat) : Except Python.Error (KVCacheCoordinator H) := do
  let pool ← BlockPool.init numBlocks enableCaching hashBlockSize
  let (pool, managers) ← initManagers enableCaching 0 pool specs
  let kind ← initKind specs enableCaching useEagle hashBlockSize
  return { kind := kind
           useEagle := useEagle
           blockPool := pool
           singleTypeManagers := managers }

/-- `for i, manager in enumerate(self.single_type_managers)`, with the shared
pool passed along and the results collected. -/
def mapManagers {α : Type}
    (f : Nat → BlockPool H → SingleTypeManager H →
      Except Python.Error (BlockPool H × SingleTypeManager H × α)) :
    Nat → BlockPool H → List (SingleTypeManager H) →
      Except Python.Error (BlockPool H × List (SingleTypeManager H) × List α)
  | _, p, [] => .ok (p, [], [])
  | i, p, m :: ms => do
    let (p, m, a) ← f i p m
    let (p, ms, as) ← mapManagers f (i + 1) p ms
    return (p, m :: ms, a :: as)

/-- The loop over the managers as a change of the coordinator. -/
def onManagers {α : Type} (c : KVCacheCoordinator H)
    (f : Nat → BlockPool H → SingleTypeManager H →
      Except Python.Error (BlockPool H × SingleTypeManager H × α)) :
    Except Python.Error (KVCacheCoordinator H × List α) := do
  let (p, ms, as) ← mapManagers f 0 c.blockPool c.singleTypeManagers
  return ({ c with blockPool := p, singleTypeManagers := ms }, as)

/-- One round of `get_num_blocks_to_allocate`. -/
def blocksToAllocateOf (p : BlockPool H) (reqId : ReqId) (numTokens : Int)
    (newComputedBlocks : List (List BlockId)) (numEncoderTokens totalComputedTokens
    numTokensMainModel : Int) (i : Nat) (m : SingleTypeManager H) : Except Python.Error Int :=
  if m.spec.isCrossAttention then
    m.getNumBlocksToAllocate p reqId numEncoderTokens [] 0 numEncoderTokens
  else
    m.getNumBlocksToAllocate p reqId numTokens (newComputedBlocks.getD i []) totalComputedTokens
      numTokensMainModel

/-- The sum over the managers `i, i + 1, …`. -/
def sumManagers (f : Nat → SingleTypeManager H → Except Python.Error Int) :
    Nat → List (SingleTypeManager H) → Except Python.Error Int
  | _, [] => .ok 0
  | i, m :: ms => do
    let n ← f i m
    let rest ← sumManagers f (i + 1) ms
    return n + rest

/-- `KVCacheCoordinator.get_num_blocks_to_allocate`. -/
def getNumBlocksToAllocate (c : KVCacheCoordinator H) (reqId : ReqId) (numTokens : Int)
    (newComputedBlocks : List (List BlockId)) (numEncoderTokens totalComputedTokens
    numTokensMainModel : Int) : Except Python.Error Int :=
  sumManagers (blocksToAllocateOf c.blockPool reqId numTokens newComputedBlocks numEncoderTokens
    totalComputedTokens numTokensMainModel) 0 c.singleTypeManagers

/-- `KVCacheCoordinator.allocate_new_computed_blocks`. -/
def allocateNewComputedBlocks (c : KVCacheCoordinator H) (reqId : ReqId)
    (newComputedBlocks : List (List BlockId)) (numLocalComputedTokens
    numExternalComputedTokens : Int) : Except Python.Error (KVCacheCoordinator H) := do
  let (c, _) ← c.onManagers fun i p m => do
    let (p, m) ← m.allocateNewComputedBlocks p reqId (newComputedBlocks.getD i [])
      numLocalComputedTokens numExternalComputedTokens
    return (p, m, ())
  return c

/-- `KVCacheCoordinator.allocate_new_blocks`. -/
def allocateNewBlocks (c : KVCacheCoordinator H) (reqId : ReqId)
    (numTokens numTokensMainModel numEncoderTokens : Int) :
    Except Python.Error (KVCacheCoordinator H × List (List BlockId)) :=
  c.onManagers fun _ p m =>
    m.allocateNewBlocks p reqId (if m.spec.isCrossAttention then numEncoderTokens else numTokens)
      numTokensMainModel

/-- `KVCacheCoordinator.cache_blocks`. -/
def cacheBlocks (c : KVCacheCoordinator H) (r : Request H) (numComputedTokens : Int) :
    Except Python.Error (KVCacheCoordinator H) := do
  let (c, _) ← c.onManagers fun _ p m => do
    let (p, m) ← m.cacheBlocks p r numComputedTokens
    return (p, m, ())
  return c

/-- `KVCacheCoordinator.free`. -/
def free (c : KVCacheCoordinator H) (reqId : ReqId) : Except Python.Error (KVCacheCoordinator H) := do
  let (c, _) ← c.onManagers fun _ p m =>
    let (p, m) := m.free p reqId
    .ok (p, m, ())
  return c

/-- `KVCacheCoordinator.remove_skipped_blocks`. -/
def removeSkippedBlocks (c : KVCacheCoordinator H) (reqId : ReqId) (totalComputedTokens : Int) :
    Except Python.Error (KVCacheCoordinator H) := do
  let (c, _) ← c.onManagers fun _ p m =>
    let (p, m) := m.removeSkippedBlocks p reqId totalComputedTokens
    .ok (p, m, ())
  return c

/-- `get_blocks`. -/
def getBlocks (c : KVCacheCoordinator H) (reqId : ReqId) : List (List BlockId) :=
  c.singleTypeManagers.map (·.reqBlocks reqId)

/-- `find_longest_cache_hit`. -/
def findLongestCacheHit (c : KVCacheCoordinator H) (hashes : List H) (maxCacheHitLength : Nat) :
    Except Python.Error (List (List BlockId) × Nat) :=
  match c.kind with
  | .noPrefixCache => .ok (c.singleTypeManagers.map fun _ => [], 0)
  | .unitary spec => do
    let rows ← VllmEngine.findLongestCacheHit c.blockPool
      (blockHashList hashes spec.blockSize spec.blockSize) maxCacheHitLength [0] spec c.useEagle
      spec.blockSize
    return ([column rows 0], rows.length * spec.blockSize)
  | .hybrid h => h.findLongestHit c.blockPool hashes maxCacheHitLength

/-- `new_step_starts`. -/
def newStepStarts (c : KVCacheCoordinator H) : KVCacheCoordinator H :=
  { c with singleTypeManagers := c.singleTypeManagers.map (·.newStepStarts) }

end KVCacheCoordinator

structure KVCacheManager (H : Type) where
  maxModelLen : Nat
  enableCaching : Bool
  coordinator : KVCacheCoordinator H

namespace KVCacheManager

/-- `KVCacheManager.__init__`. -/
def init (specs : List KVCacheSpec) (numBlocks maxModelLen hashBlockSize : Nat)
    (enableCaching useEagle : Bool) : Except Python.Error (KVCacheManager H) := do
  let c ← KVCacheCoordinator.init specs numBlocks useEagle enableCaching hashBlockSize
  return { maxModelLen := maxModelLen, enableCaching := enableCaching, coordinator := c }

/-- `block_pool`. -/
def blockPool (k : KVCacheManager H) : BlockPool H := k.coordinator.blockPool

/-- `empty_kv_cache_blocks`. -/
def emptyKvCacheBlocks (k : KVCacheManager H) : List (List BlockId) :=
  k.coordinator.singleTypeManagers.map fun _ => []

/-- `get_computed_blocks`. -/
def getComputedBlocks (k : KVCacheManager H) (r : Request H) :
    Except Python.Error (List (List BlockId) × Nat) :=
  if !k.enableCaching || r.skipReadingPrefixCache then .ok (k.emptyKvCacheBlocks, 0)
  else
    -- the last token is always recomputed, to get its logits
    k.coordinator.findLongestCacheHit r.blockHashes (r.numTokens - 1)

/-- The arguments of `allocate_slots` other than the request. -/
structure SlotArgs where
  numNewTokens : Int
  numNewComputedTokens : Nat
  newComputedBlocks : List (List BlockId)
  numLookaheadTokens : Nat
  numExternalComputedTokens : Nat
  delayCacheBlocks : Bool
  numEncoderTokens : Nat
deriving DecidableEq, Repr

namespace SlotArgs

/-- `num_local_computed_tokens`. -/
def numLocalComputedTokens (a : SlotArgs) (r : Request H) : Int :=
  r.numComputedTokens + a.numNewComputedTokens

/-- `total_computed_tokens`. -/
def totalComputedTokens (a : SlotArgs) (r : Request H) (maxModelLen : Nat) : Int :=
  min (a.numLocalComputedTokens r + a.numExternalComputedTokens) maxModelLen

/-- `num_tokens_main_model`. -/
def numTokensMainModel (a : SlotArgs) (r : Request H) (maxModelLen : Nat) : Int :=
  a.totalComputedTokens r maxModelLen + a.numNewTokens

/-- `num_tokens_need_slot`. -/
def numTokensNeedSlot (a : SlotArgs) (r : Request H) (maxModelLen : Nat) : Int :=
  min (a.numTokensMainModel r maxModelLen + a.numLookaheadTokens) maxModelLen

/-- `new_computed_block_list is not self.empty_kv_cache_blocks.blocks or
num_external_computed_tokens > 0`. -/
def hasComputed (a : SlotArgs) : Bool :=
  a.newComputedBlocks.any (· ≠ []) || decide (a.numExternalComputedTokens > 0)

/-- `num_tokens_to_cache`. -/
def numTokensToCache (a : SlotArgs) (r : Request H) (maxModelLen : Nat) : Int :=
  min (a.totalComputedTokens r maxModelLen + a.numNewTokens) r.numTokens

end SlotArgs

/-- `can_fit_full_sequence`. -/
def canFitFullSequence (k : KVCacheManager H) (r : Request H) (a : SlotArgs) :
    Except Python.Error Bool := do
  let fullNumTokens : Int := min r.numTokens k.maxModelLen
  let n ← k.coordinator.getNumBlocksToAllocate r.requestId fullNumTokens a.newComputedBlocks
    a.numEncoderTokens (a.totalComputedTokens r k.maxModelLen) fullNumTokens
  return decide (n ≤ k.blockPool.numFreeBlocks)

/-- Take over the hit blocks, if there are any. -/
def adoptComputed (k : KVCacheManager H) (r : Request H) (a : SlotArgs) :
    Except Python.Error (KVCacheCoordinator H) :=
  if a.hasComputed then
    k.coordinator.allocateNewComputedBlocks r.requestId a.newComputedBlocks
      (a.numLocalComputedTokens r) a.numExternalComputedTokens
  else .ok k.coordinator

/-- Publish the hashes of the full blocks, unless a transfer is still to fill
them. -/
def publishBlocks (k : KVCacheManager H) (c : KVCacheCoordinator H) (r : Request H) (a : SlotArgs) :
    Except Python.Error (KVCacheCoordinator H) :=
  if !k.enableCaching || a.delayCacheBlocks then .ok c
  else c.cacheBlocks r (a.numTokensToCache r k.maxModelLen)

/-- The part of `allocate_slots` after the check: take over the hits, allocate
the new blocks and publish the hashes of the full ones. -/
def commitSlots (k : KVCacheManager H) (r : Request H) (a : SlotArgs) :
    Except Python.Error (KVCacheManager H × List (List BlockId)) := do
  let c ← k.adoptComputed r a
  let (c, newBlocks) ← c.allocateNewBlocks r.requestId (a.numTokensNeedSlot r k.maxModelLen)
    (a.numTokensMainModel r k.maxModelLen) a.numEncoderTokens
  let c ← k.publishBlocks c r a
  return ({ k with coordinator := c }, newBlocks)

/-- `allocate_slots`: `none` if there are not enough free blocks; the blocks
outside the attention window are freed even then. -/
def allocateSlots (k : KVCacheManager H) (r : Request H) (a : SlotArgs) :
    Except Python.Error (KVCacheManager H × Option (List (List BlockId))) := do
  if a.numNewTokens = 0 ∧ a.numExternalComputedTokens = 0 then
    throw (.value ("num_new_tokens must be greater than 0 when there are no "
      ++ "external computed tokens"))
  let c ← k.coordinator.removeSkippedBlocks r.requestId (a.totalComputedTokens r k.maxModelLen)
  let k := { k with coordinator := c }
  let n ← c.getNumBlocksToAllocate r.requestId (a.numTokensNeedSlot r k.maxModelLen)
    a.newComputedBlocks a.numEncoderTokens
    (a.numLocalComputedTokens r + a.numExternalComputedTokens)
    (a.numTokensMainModel r k.maxModelLen)
  if n > k.blockPool.numFreeBlocks then return (k, none)
  else do
    let (k, newBlocks) ← k.commitSlots r a
    return (k, some newBlocks)

/-- `free`. -/
def free (k : KVCacheManager H) (reqId : ReqId) : Except Python.Error (KVCacheManager H) := do
  let c ← k.coordinator.free reqId
  return { k with coordinator := c }

/-- `remove_skipped_blocks`. -/
def removeSkippedBlocks (k : KVCacheManager H) (reqId : ReqId) (totalComputedTokens : Int) :
    Except Python.Error (KVCacheManager H) := do
  let c ← k.coordinator.removeSkippedBlocks reqId totalComputedTokens
  return { k with coordinator := c }

/-- `evict_blocks`. -/
def evictBlocks (k : KVCacheManager H) (blockIds : List BlockId) :
    Except Python.Error (KVCacheManager H) := do
  let p ← k.blockPool.evictBlocks blockIds
  return { k with coordinator := { k.coordinator with blockPool := p } }

/-- `reset_prefix_cache`. -/
def resetPrefixCache (k : KVCacheManager H) : KVCacheManager H × Bool :=
  let (p, done) := k.blockPool.resetPrefixCache
  ({ k with coordinator := { k.coordinator with blockPool := p } }, done)

/-- `cache_blocks`. -/
def cacheBlocks (k : KVCacheManager H) (r : Request H) (numComputedTokens : Int) :
    Except Python.Error (KVCacheManager H) :=
  if k.enableCaching then do
    let c ← k.coordinator.cacheBlocks r numComputedTokens
    return { k with coordinator := c }
  else .ok k

/-- `get_blocks`. -/
def getBlocks (k : KVCacheManager H) (reqId : ReqId) : List (List BlockId) :=
  k.coordinator.getBlocks reqId

/-- `take_new_block_ids`: the ids, and the manager with none left. -/
def takeNewBlockIds (k : KVCacheManager H) : KVCacheManager H × List BlockId :=
  let taken := k.coordinator.singleTypeManagers.map (·.takeNewBlockIds)
  ({ k with coordinator := { k.coordinator with singleTypeManagers := taken.map Prod.snd } },
    (taken.map Prod.fst).flatten)

/-- `new_step_starts`. -/
def newStepStarts (k : KVCacheManager H) : KVCacheManager H :=
  { k with coordinator := k.coordinator.newStepStarts }

end KVCacheManager

end VllmEngine
