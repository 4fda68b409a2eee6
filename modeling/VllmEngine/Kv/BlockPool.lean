import VllmEngine.Lib.Dict
import VllmEngine.BlockHash.Hasher

/-!
# The block pool

`BlockPool` (`vllm/v1/core/block_pool.py`) with its free queue and its hash map
(`vllm/v1/core/kv_cache_utils.py`). A block is its id; the fields of
`KVCacheBlock` that change are functions of the id, and block `0` is the null
block.

Mirroring notes:
- The free queue is a doubly linked list threaded through the blocks together
  with a counter. The list is `freeBlocks`; the counter `numFreeBlocks` is kept
  apart from it, as in the source, where `popleft_n` subtracts its argument
  from the counter whatever the argument is. Where the counter is ahead of the
  list and `n` is one more than its length, the source hands out the tail
  sentinel as a block; `popleftN` fails there, as for every larger `n`.
- The hash key of a block is the byte string of one or several concatenated
  block hashes, followed by the group id. Hashes have one fixed length, so the
  key is the list of hashes and the group id.
- KV events, metrics and usage statistics are left out.
-/

namespace VllmEngine

abbrev BlockId := Nat
abbrev GroupId := Nat

/-- `BlockPool.null_block`: the first block of the initial free queue. -/
def nullBlock : BlockId := 0

/-- `BlockHashWithGroupId`. -/
abbrev BlockKey (H : Type) := List H × GroupId

/-- A value of `BlockHashToBlockMap`: one block, or a dict keyed by block id
(its keys, in insertion order). -/
inductive CachedBlocks
  | one (b : BlockId)
  | many (bs : List BlockId)
deriving DecidableEq, Repr

/-- The blocks filed under a key. -/
def CachedBlocks.toList : CachedBlocks → List BlockId
  | .one b => [b]
  | .many bs => bs

structure BlockPool (H : Type) where
  numGpuBlocks : Nat
  enableCaching : Bool
  hashBlockSize : Nat
  refCnt : BlockId → Int
  blockHash : BlockId → Option (BlockKey H)
  freeBlocks : List BlockId
  numFreeBlocks : Int
  cachedBlockHashToBlock : Dict (BlockKey H) CachedBlocks

namespace BlockPool

variable {H : Type} [DecidableEq H]

/-- `BlockPool.__init__`: all blocks free, then the null block taken out. -/
def init (numGpuBlocks : Nat) (enableCaching : Bool) (hashBlockSize : Nat) :
    Except Python.Error (BlockPool H) :=
  if numGpuBlocks = 0 then .error (.assertion "")
  else .ok
    { numGpuBlocks := numGpuBlocks
      enableCaching := enableCaching
      hashBlockSize := hashBlockSize
      refCnt := fun _ => 0
      blockHash := fun _ => none
      freeBlocks := (List.range numGpuBlocks).tail
      numFreeBlocks := (numGpuBlocks : Int) - 1
      cachedBlockHashToBlock := Dict.empty }

/-! ## The hash map -/

/-- `BlockHashToBlockMap.get_one_block`. -/
def getOneBlock (p : BlockPool H) (key : BlockKey H) : Option BlockId :=
  match p.cachedBlockHashToBlock.get? key with
  | none => none
  | some bs => bs.toList.head?

/-- `BlockHashToBlockMap.insert`. -/
def insertCached (m : Dict (BlockKey H) CachedBlocks) (key : BlockKey H) (b : BlockId) :
    Dict (BlockKey H) CachedBlocks :=
  match m.get? key with
  | none => m.set key (.one b)
  | some (.one b') => m.set key (.many (if b' = b then [b] else [b', b]))
  | some (.many bs) => m.set key (.many (if b ∈ bs then bs else bs ++ [b]))

/-- `BlockHashToBlockMap.pop`: the map afterwards, and whether the block was
there. -/
def popCached (m : Dict (BlockKey H) CachedBlocks) (key : BlockKey H) (b : BlockId) :
    Dict (BlockKey H) CachedBlocks × Bool :=
  match m.get? key with
  | none => (m, false)
  | some (.one b') =>
    -- a single block with another id is put back
    if b' = b then (m.erase key, true) else ((m.erase key).set key (.one b'), false)
  | some (.many bs) =>
    let rest := bs.filter fun b' => decide (b' ≠ b)
    (if rest = [] then m.erase key else (m.erase key).set key (.many rest), decide (b ∈ bs))

/-- `BlockPool.get_cached_block`: one block per group, or a miss. -/
def getCachedBlock (p : BlockPool H) (h : List H) (groupIds : List GroupId) :
    Option (List BlockId) :=
  groupIds.mapM fun g => p.getOneBlock (h, g)

/-! ## Allocation -/

/-- `FreeKVCacheBlockQueue.popleft_n`. A negative `n` pops nothing but is
subtracted from the counter all the same. -/
def popleftN (p : BlockPool H) (n : Int) : Except Python.Error (BlockPool H × List BlockId) :=
  if n = 0 then .ok (p, [])
  else if p.numFreeBlocks ≥ n then
    if n.toNat ≤ p.freeBlocks.length then
      .ok ({ p with numFreeBlocks := p.numFreeBlocks - n
                    freeBlocks := p.freeBlocks.drop n.toNat }, p.freeBlocks.take n.toNat)
    else .error (.assertion "")
  else .error (.assertion "")

/-- `BlockPool._maybe_evict_cached_block`. -/
def maybeEvictCachedBlock (p : BlockPool H) (b : BlockId) : BlockPool H :=
  match p.blockHash b with
  | none => p
  | some key =>
    match popCached p.cachedBlockHashToBlock key b with
    | (_, false) => p
    | (m, true) => { p with cachedBlockHashToBlock := m
                            blockHash := Function.update p.blockHash b none }

/-- One round of the loop in `get_new_blocks`. -/
def claimBlock (p : BlockPool H) (b : BlockId) : Except Python.Error (BlockPool H) :=
  let p := if p.enableCaching then p.maybeEvictCachedBlock b else p
  if p.refCnt b = 0 then .ok { p with refCnt := Function.update p.refCnt b (p.refCnt b + 1) }
  else .error (.assertion "")

/-- `BlockPool.get_new_blocks`. -/
def getNewBlocks (p : BlockPool H) (numBlocks : Int) :
    Except Python.Error (BlockPool H × List BlockId) := do
  if numBlocks > p.numFreeBlocks then
    throw (.value "Cannot get free blocks from the pool")
  let (p, ret) ← p.popleftN numBlocks
  let p ← ret.foldlM claimBlock p
  return (p, ret)

/-- `FreeKVCacheBlockQueue.remove`. -/
def removeFree (p : BlockPool H) (b : BlockId) : Except Python.Error (BlockPool H) :=
  if b ∈ p.freeBlocks then
    .ok { p with freeBlocks := p.freeBlocks.erase b, numFreeBlocks := p.numFreeBlocks - 1 }
  else .error (.runtime "remove() called on an invalid block")

/-- One round of the loop in `touch`. -/
def touchBlock (p : BlockPool H) (b : BlockId) : Except Python.Error (BlockPool H) := do
  let p ← if p.refCnt b = 0 ∧ b ≠ nullBlock then p.removeFree b else .ok p
  return { p with refCnt := Function.update p.refCnt b (p.refCnt b + 1) }

/-- `BlockPool.touch`. -/
def touch (p : BlockPool H) (blocks : List BlockId) : Except Python.Error (BlockPool H) :=
  blocks.foldlM touchBlock p

/-- `BlockPool.free_blocks`: all counts first, then one append to the queue. -/
def freeBlocksOf (p : BlockPool H) (orderedBlocks : List BlockId) : BlockPool H :=
  let refCnt := orderedBlocks.foldl (fun rc b => Function.update rc b (rc b - 1)) p.refCnt
  let freed := orderedBlocks.filter fun b => decide (refCnt b = 0 ∧ b ≠ nullBlock)
  { p with refCnt := refCnt
           freeBlocks := p.freeBlocks ++ freed
           numFreeBlocks := p.numFreeBlocks + freed.length }

/-- `BlockPool.evict_blocks`. -/
def evictBlocks (p : BlockPool H) (blockIds : List BlockId) : Except Python.Error (BlockPool H) :=
  blockIds.foldlM (fun p b =>
    if b < p.numGpuBlocks then .ok (p.maybeEvictCachedBlock b)
    else .error (.assertion "Invalid block_id")) p

/-- `BlockPool.reset_prefix_cache`. -/
def resetPrefixCache (p : BlockPool H) : BlockPool H × Bool :=
  let numUsedBlocks := (p.numGpuBlocks : Int) - p.numFreeBlocks
  if numUsedBlocks ≠ 1 then (p, false)
  else ({ p with cachedBlockHashToBlock := Dict.empty, blockHash := fun _ => none }, true)

end BlockPool

/-! ## Hashes at a group's granularity -/

/-- The block hashes at block size `blockSize`: `block_hashes` itself when it is
`hash_block_size`, else `BlockHashListWithBlockSize`, which joins
`blockSize / hashBlockSize` consecutive hashes. -/
def blockHashList {H : Type} (hashes : List H) (hashBlockSize blockSize : Nat) : List (List H) :=
  let scale := blockSize / hashBlockSize
  (List.range (hashes.length / scale)).map fun i => (hashes.drop (i * scale)).take scale

/-- One round of the loop in `cache_full_blocks`. -/
def BlockPool.cacheBlock {H : Type} [DecidableEq H] (groupId : GroupId) (p : BlockPool H)
    (entry : BlockId × Option (List H)) : Except Python.Error (BlockPool H) :=
  let (b, hash) := entry
  if b = nullBlock then .ok p
  else if p.blockHash b ≠ none then .error (.assertion "")
  else
    match hash with
    | none => .error (.index "list index out of range")
    | some h =>
      .ok { p with blockHash := Function.update p.blockHash b (some (h, groupId))
                   cachedBlockHashToBlock :=
                     BlockPool.insertCached p.cachedBlockHashToBlock (h, groupId) b }

/-- `BlockPool.cache_full_blocks`. -/
def BlockPool.cacheFullBlocks {H : Type} [DecidableEq H] (p : BlockPool H) (r : Request H)
    (blocks : List BlockId) (numCachedBlocks numFullBlocks : Nat) (blockSize : Nat)
    (groupId : GroupId) : Except Python.Error (BlockPool H) := do
  if numCachedBlocks ≥ numFullBlocks then return p
  let newFullBlocks := (blocks.take numFullBlocks).drop numCachedBlocks
  Python.require (decide (r.blockHashes.length ≥ numFullBlocks)) ""
  Python.require (decide (blockSize = p.hashBlockSize ∨ blockSize % p.hashBlockSize = 0)) ""
  let newBlockHashes := (blockHashList r.blockHashes p.hashBlockSize blockSize).drop numCachedBlocks
  let entries := newFullBlocks.mapIdx fun i b => (b, newBlockHashes[i]?)
  entries.foldlM (BlockPool.cacheBlock groupId) p

end VllmEngine
