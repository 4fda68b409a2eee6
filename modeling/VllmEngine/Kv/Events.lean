import Mathlib.Algebra.Order.Group.Multiset
import VllmEngine.Kv.HashMap

/-!
# KV cache events

With `enable_kv_cache_events` a pool records what enters and leaves its hash map
(`vllm/v1/core/block_pool.py`, `vllm/distributed/kv_events.py`), for routers
that keep a mirror of the cache from these events alone. The operations here
are those of `BlockPool` with the event queue beside the pool; `replay` is the
router's side.

> `poolStep_follows`: the events of any call on a pool turn the mirror of its
> map before the call into the mirror of its map after it.

Mirroring notes:
- `maybe_convert_block_hash` may cut a hash down to 64 bits. It is a parameter,
  and nothing is assumed about it.
- The pool names the medium `GPU` whatever memory its blocks are in.
-/

namespace VllmEngine

/-- The memory that holds a block: `"GPU"` or `"CPU"`. -/
inductive Medium
  | gpu
  | cpu
deriving DecidableEq, Repr

/-- `KVCacheEvent`. `X` is the type of hashes in events (`ExternalBlockHash`). -/
inductive KVCacheEvent (X : Type)
  | blockStored (blockHashes : List X) (parentBlockHash : Option X) (tokenIds : List Token)
      (blockSize : Nat) (loraId : Option Nat) (medium : Medium) (loraName : Option String)
      (extraKeys : Option (List (Option (List ExtraKey)))) (groupIdx : GroupId)
  | blockRemoved (blockHashes : List X) (medium : Medium) (groupIdx : GroupId)
  | allBlocksCleared

/-- What events are made with. -/
structure EventSettings (H X : Type) where
  enableKvCacheEvents : Bool
  hasher : BlockHasher H
  maybeConvertBlockHash : List H → X

/-- A pool with its `kv_event_queue`. -/
structure EventPool (H X : Type) where
  pool : BlockPool H
  kvEventQueue : List (KVCacheEvent X)

namespace EventPool

variable {H X : Type} [DecidableEq H]

/-- `kv_event_queue.append`, if events are enabled. -/
def emit (cfg : EventSettings H X) (p : EventPool H X) (events : List (KVCacheEvent X)) :
    EventPool H X :=
  if cfg.enableKvCacheEvents then { p with kvEventQueue := p.kvEventQueue ++ events } else p

/-- The event of `_maybe_evict_cached_block`. -/
def evictionEvents (cfg : EventSettings H X) (p : BlockPool H) (b : BlockId) :
    List (KVCacheEvent X) :=
  match p.blockHash b with
  | none => []
  | some key =>
    if (BlockPool.popCached p.cachedBlockHashToBlock key b).2 then
      [.blockRemoved [cfg.maybeConvertBlockHash key.1] .gpu key.2]
    else []

/-- `_maybe_evict_cached_block`. -/
def maybeEvictCachedBlock (cfg : EventSettings H X) (p : EventPool H X) (b : BlockId) :
    EventPool H X :=
  emit cfg { p with pool := p.pool.maybeEvictCachedBlock b } (evictionEvents cfg p.pool b)

/-- One round of the loop in `get_new_blocks`. -/
def claimBlock (cfg : EventSettings H X) (p : EventPool H X) (b : BlockId) :
    Except Python.Error (EventPool H X) :=
  let p := if p.pool.enableCaching then p.maybeEvictCachedBlock cfg b else p
  if p.pool.refCnt b = 0 then
    .ok { p with pool := { p.pool with
            refCnt := Function.update p.pool.refCnt b (p.pool.refCnt b + 1) } }
  else .error (.assertion "")

/-- `get_new_blocks`. -/
def getNewBlocks (cfg : EventSettings H X) (p : EventPool H X) (numBlocks : Int) :
    Except Python.Error (EventPool H X × List BlockId) := do
  if numBlocks > p.pool.numFreeBlocks then
    throw (.value "Cannot get free blocks from the pool")
  let (pool, ret) ← p.pool.popleftN numBlocks
  let p ← ret.foldlM (claimBlock cfg) { p with pool := pool }
  return (p, ret)

/-- `touch`. -/
def touch (p : EventPool H X) (blocks : List BlockId) : Except Python.Error (EventPool H X) := do
  let pool ← p.pool.touch blocks
  return { p with pool := pool }

/-- `free_blocks`. -/
def freeBlocksOf (p : EventPool H X) (orderedBlocks : List BlockId) : EventPool H X :=
  { p with pool := p.pool.freeBlocksOf orderedBlocks }

/-- `evict_blocks`. -/
def evictBlocks (cfg : EventSettings H X) (p : EventPool H X) (blockIds : List BlockId) :
    Except Python.Error (EventPool H X) :=
  blockIds.foldlM (fun p b =>
    if b < p.pool.numGpuBlocks then .ok (p.maybeEvictCachedBlock cfg b)
    else .error (.assertion "Invalid block_id")) p

/-- `reset_prefix_cache`. -/
def resetPrefixCache (cfg : EventSettings H X) (p : EventPool H X) : EventPool H X × Bool :=
  let (pool, done) := p.pool.resetPrefixCache
  (if done then emit cfg { p with pool := pool } [.allBlocksCleared] else p, done)

/-- `take_events`. -/
def takeEvents (p : EventPool H X) : EventPool H X × List (KVCacheEvent X) :=
  ({ p with kvEventQueue := [] }, p.kvEventQueue)

/-! ## Storing -/

/-- The loop that collects `extra_keys_list`, over the blocks from index `i` on. -/
def extraKeysFrom (hs : BlockHasher H) (r : Request H) (blockSize : Nat) :
    Nat → Int → List BlockId → List (Option (List ExtraKey))
  | _, _, [] => []
  | i, currMmIdx, b :: bs =>
    if b = nullBlock then extraKeysFrom hs r blockSize (i + 1) currMmIdx bs
    else
      let keys := generateBlockHashExtraKeys hs r (i * blockSize) (i * blockSize + blockSize)
        currMmIdx
      keys.1 :: extraKeysFrom hs r blockSize (i + 1) keys.2 bs

/-- `new_hashes`: the hashes of the blocks that are not null. -/
def newHashes (convert : List H → X) (entries : List (BlockId × Option (List H))) : List X :=
  entries.filterMap fun e => if e.1 = nullBlock then none else e.2.map convert

/-- `parent_block_hash`: the hash of the block before the first new one. -/
def parentBlockHash (convert : List H → X) (blockHashes : List (List H)) (numCachedBlocks : Nat) :
    Except Python.Error (Option X) :=
  if numCachedBlocks = 0 then .ok none
  else
    match blockHashes[numCachedBlocks - 1]? with
    | some h => .ok (some (convert h))
    | none => .error (.index "list index out of range")

/-- The event of `cache_full_blocks`. -/
def storedEvent (cfg : EventSettings H X) (p : BlockPool H) (r : Request H) (blocks : List BlockId)
    (numCachedBlocks numFullBlocks blockSize : Nat) (groupId : GroupId) :
    Except Python.Error (KVCacheEvent X) := do
  let blockHashes := blockHashList r.blockHashes p.hashBlockSize blockSize
  let newFullBlocks := (blocks.take numFullBlocks).drop numCachedBlocks
  let entries := newFullBlocks.mapIdx fun i b => (b, (blockHashes.drop numCachedBlocks)[i]?)
  let parent ← parentBlockHash cfg.maybeConvertBlockHash blockHashes numCachedBlocks
  -- `blocks[i]` in the loop over the extra keys
  if blocks.length < numFullBlocks then throw (.index "list index out of range")
  let extraKeysList := extraKeysFrom cfg.hasher r blockSize numCachedBlocks 0 newFullBlocks
  return .blockStored (newHashes cfg.maybeConvertBlockHash entries) parent
    (r.blockTokens (numCachedBlocks * blockSize) (numFullBlocks * blockSize)) blockSize
    (r.loraRequest.map (·.loraIntId)) .gpu (r.loraRequest.map (·.loraName))
    (if extraKeysList = [] then none else some extraKeysList) groupId

/-- `cache_full_blocks`. -/
def cacheFullBlocks (cfg : EventSettings H X) (p : EventPool H X) (r : Request H)
    (blocks : List BlockId) (numCachedBlocks numFullBlocks blockSize : Nat) (groupId : GroupId) :
    Except Python.Error (EventPool H X) := do
  let pool ← p.pool.cacheFullBlocks r blocks numCachedBlocks numFullBlocks blockSize groupId
  if numCachedBlocks ≥ numFullBlocks ∨ cfg.enableKvCacheEvents = false then
    return { p with pool := pool }
  else
    let event ← storedEvent cfg p.pool r blocks numCachedBlocks numFullBlocks blockSize groupId
    return emit cfg { p with pool := pool } [event]

/-- One call on a pool. -/
def step (cfg : EventSettings H X) (p : EventPool H X) :
    PoolOp H → Except Python.Error (EventPool H X)
  | .cacheFullBlocks r blocks numCached numFull blockSize groupId =>
    p.cacheFullBlocks cfg r blocks numCached numFull blockSize groupId
  | .getNewBlocks n => do
    let (p, _) ← p.getNewBlocks cfg n
    return p
  | .touch blocks => p.touch blocks
  | .freeBlocks orderedBlocks => .ok (p.freeBlocksOf orderedBlocks)
  | .evictBlocks blockIds => p.evictBlocks cfg blockIds
  | .resetPrefixCache => .ok (p.resetPrefixCache cfg).1

end EventPool

namespace EventPool

variable {H X : Type} [DecidableEq H] {cfg : EventSettings H X}

omit [DecidableEq H] in
theorem emit_pool (p : EventPool H X) (events : List (KVCacheEvent X)) :
    (emit cfg p events).pool = p.pool := by
  unfold emit
  split <;> rfl

theorem claimBlock_pool {p p' : EventPool H X} {b : BlockId} (h : p.claimBlock cfg b = .ok p') :
    p.pool.claimBlock b = .ok p'.pool := by
  obtain ⟨q, hq, hevict⟩ : ∃ q, q = (if p.pool.enableCaching then p.maybeEvictCachedBlock cfg b
      else p) ∧ q.pool = if p.pool.enableCaching then p.pool.maybeEvictCachedBlock b
        else p.pool := by
    refine ⟨_, rfl, ?_⟩
    split
    · rw [maybeEvictCachedBlock, emit_pool]
    · rfl
  unfold claimBlock at h
  unfold BlockPool.claimBlock
  dsimp only at h ⊢
  rw [← hq] at h
  rw [← hevict]
  split at h
  next hzero =>
    obtain rfl := Except.ok.inj h
    rw [if_pos hzero]
  · cases h

/-- With or without events, a call does the same to the pool. -/
theorem step_pool {p p' : EventPool H X} {op : PoolOp H} (h : p.step cfg op = .ok p') :
    op.step p.pool = .ok p'.pool := by
  cases op with
  | cacheFullBlocks r blocks numCached numFull blockSize groupId =>
    simp only [step, cacheFullBlocks, Raises.bind_eq_ok] at h
    obtain ⟨pool, hcache, h⟩ := h
    split at h
    · rw [Raises.pure_eq_ok] at h
      subst h
      exact hcache
    · simp only [Raises.bind_eq_ok, Raises.pure_eq_ok] at h
      obtain ⟨event, -, rfl⟩ := h
      rw [emit_pool]
      exact hcache
  | getNewBlocks n =>
    simp only [step, Raises.bind_eq_ok, Raises.pure_eq_ok] at h
    obtain ⟨⟨q, bs⟩, hnew, rfl⟩ := h
    unfold getNewBlocks at hnew
    simp only [PoolOp.step]
    unfold BlockPool.getNewBlocks
    split at hnew
    · exact absurd hnew Raises.throw_ne_ok
    next hle =>
      simp only [Raises.bind_eq_ok, Raises.pure_eq_ok] at hnew
      obtain ⟨⟨pool, ret⟩, hpop, p₁, hclaim, heq⟩ := hnew
      obtain ⟨rfl, rfl⟩ := Prod.mk.inj heq
      have hloop := Raises.foldlM_project (π := EventPool.pool)
        (fun t t' b ht => claimBlock_pool ht) ret _ _ hclaim
      rw [if_neg hle]
      simp only [Raises.bind_eq_ok, Raises.pure_eq_ok]
      exact ⟨_, ⟨_, hpop, _, hloop, rfl⟩, rfl⟩
  | touch blocks =>
    simp only [step, touch, Raises.bind_eq_ok, Raises.pure_eq_ok] at h
    obtain ⟨pool, htouch, rfl⟩ := h
    exact htouch
  | freeBlocks orderedBlocks =>
    obtain rfl := Except.ok.inj h
    rfl
  | evictBlocks blockIds =>
    refine Raises.foldlM_project (π := EventPool.pool) (fun t t' b ht => ?_) blockIds _ _ h
    split at ht
    next hlt =>
      obtain rfl := Except.ok.inj ht
      rw [if_pos hlt, maybeEvictCachedBlock, emit_pool]
    · cases ht
  | resetPrefixCache =>
    obtain rfl := Except.ok.inj h
    unfold resetPrefixCache
    simp only [PoolOp.step]
    unfold BlockPool.resetPrefixCache
    dsimp only
    split
    · rfl
    · simp only [if_true]
      rw [emit_pool]

end EventPool

/-! ## The router's mirror -/

/-- What a router knows: how many copies of a hash there are in each group and
medium. -/
abbrev Mirror (X : Type) := Multiset (X × GroupId × Medium)

namespace Mirror

variable {X : Type} [DecidableEq X]

/-- One removed copy; `none` if there is none. -/
def remove (medium : Medium) (groupIdx : GroupId) (m : Mirror X) (h : X) : Option (Mirror X) :=
  if (h, groupIdx, medium) ∈ m then some (m.erase (h, groupIdx, medium)) else none

/-- One event. -/
def apply (m : Mirror X) : KVCacheEvent X → Option (Mirror X)
  | .blockStored blockHashes _ _ _ _ medium _ _ groupIdx =>
    some (m + (blockHashes.map fun h => (h, groupIdx, medium) : List (X × GroupId × Medium)))
  | .blockRemoved blockHashes medium groupIdx => blockHashes.foldlM (remove medium groupIdx) m
  | .allBlocksCleared => some 0

/-- The published events in order; `none` if one removes an absent entry. -/
def replay (m : Mirror X) (events : List (KVCacheEvent X)) : Option (Mirror X) :=
  events.foldlM apply m

theorem replay_append (m : Mirror X) (es es' : List (KVCacheEvent X)) :
    replay m (es ++ es') = (replay m es).bind fun m' => replay m' es' := by
  unfold replay
  rw [List.foldlM_append]
  rfl

end Mirror

/-- The entries of a hash map, one for each block filed in it. -/
def registeredIn {H X : Type} (convert : List H → X) (medium : Medium)
    (m : Dict (BlockKey H) CachedBlocks) : Mirror X :=
  m.sumOver fun key bs => Multiset.replicate bs.toList.length (convert key.1, key.2, medium)

namespace BlockPool

variable {H X : Type} [DecidableEq H] (convert : List H → X) (medium : Medium)

theorem registeredIn_set (m : Dict (BlockKey H) CachedBlocks) (k : BlockKey H) (v : CachedBlocks) :
    registeredIn convert medium (m.set k v)
        + Multiset.replicate (filedIn m k).length (convert k.1, k.2, medium)
      = registeredIn convert medium m
        + Multiset.replicate v.toList.length (convert k.1, k.2, medium) := by
  have h := Dict.sumOver_set (fun (key : BlockKey H) (bs : CachedBlocks) =>
    Multiset.replicate bs.toList.length (convert key.1, key.2, medium)) m k v
  rw [filedIn]
  cases hm : m.get? k with
  | none => rw [hm] at h; exact h
  | some v => rw [hm] at h; exact h

theorem registeredIn_erase (m : Dict (BlockKey H) CachedBlocks) (k : BlockKey H) :
    registeredIn convert medium (m.erase k)
        + Multiset.replicate (filedIn m k).length (convert k.1, k.2, medium)
      = registeredIn convert medium m := by
  have h := Dict.sumOver_erase (fun (key : BlockKey H) (bs : CachedBlocks) =>
    Multiset.replicate bs.toList.length (convert key.1, key.2, medium)) m k
  rw [filedIn]
  cases hm : m.get? k with
  | none => rw [hm] at h; exact h
  | some v => rw [hm] at h; exact h

/-- One more copy under a key. -/
theorem registeredIn_set_succ {m : Dict (BlockKey H) CachedBlocks} {k : BlockKey H}
    {v : CachedBlocks} (hlen : v.toList.length = (filedIn m k).length + 1) :
    registeredIn convert medium (m.set k v)
      = registeredIn convert medium m + {(convert k.1, k.2, medium)} := by
  have h := registeredIn_set convert medium m k v
  rw [hlen, Nat.add_comm, Multiset.replicate_add, Multiset.replicate_one, ← add_assoc] at h
  exact add_right_cancel h

/-- Filing a block under a key where it is not adds one copy. -/
theorem registeredIn_insertCached {m : Dict (BlockKey H) CachedBlocks} {k : BlockKey H}
    {b : BlockId} (hb : b ∉ filedIn m k) :
    registeredIn convert medium (insertCached m k b)
      = registeredIn convert medium m + {(convert k.1, k.2, medium)} := by
  unfold insertCached
  cases hm : m.get? k with
  | none =>
    refine registeredIn_set_succ convert medium ?_
    rw [filedIn_of_get? hm]
    rfl
  | some v =>
    have hfiled := filedIn_of_get? hm
    cases v with
    | one b₀ =>
      have hne : b₀ ≠ b := fun heq => hb (by rw [hfiled, heq]; exact List.mem_singleton_self b)
      refine registeredIn_set_succ convert medium ?_
      rw [hfiled, if_neg hne]
      rfl
    | many bs =>
      have hnot : b ∉ bs := fun hmem => hb (by rw [hfiled]; exact hmem)
      refine registeredIn_set_succ convert medium ?_
      rw [hfiled, if_neg hnot]
      simp [CachedBlocks.toList]

/-- Popping a block that is filed once removes one copy. -/
theorem registeredIn_popCached {m : Dict (BlockKey H) CachedBlocks} {k : BlockKey H} {b : BlockId}
    (hb : b ∈ filedIn m k) (hn : (filedIn m k).Nodup) :
    registeredIn convert medium (popCached m k b).1 + {(convert k.1, k.2, medium)}
      = registeredIn convert medium m := by
  have herase := registeredIn_erase convert medium m k
  unfold popCached
  cases hm : m.get? k with
  | none =>
    rw [filedIn_of_get? hm] at hb
    cases hb
  | some v =>
    rw [filedIn_of_get? hm] at hb hn herase
    cases v with
    | one b₀ =>
      obtain rfl : b = b₀ := List.mem_singleton.mp hb
      simp only [if_true]
      exact herase
    | many bs =>
      change b ∈ bs at hb
      change bs.Nodup at hn
      obtain ⟨rest, hrest⟩ : ∃ rest, rest = bs.filter fun b' => decide (b' ≠ b) := ⟨_, rfl⟩
      have hlen : bs.length = rest.length + 1 := by
        have heq : bs.erase b = rest := by
          rw [hrest, List.Nodup.erase_eq_filter hn]
          congr 1
          funext b'
          simp [bne, beq_eq_decide]
        rw [← heq, List.length_erase_of_mem hb]
        have := List.length_pos_of_mem hb
        omega
      change _ + Multiset.replicate bs.length _ = _ at herase
      rw [hlen, Multiset.replicate_add, Multiset.replicate_one, ← add_assoc] at herase
      simp only [← hrest]
      split
      next hnil =>
        rw [hnil, List.length_nil, Multiset.replicate_zero, add_zero] at herase
        exact herase
      next hne =>
        have hset := registeredIn_set convert medium (m.erase k) k
          (.many rest)
        rw [filedIn, Dict.get?_erase_self, Option.elim_none, List.length_nil,
          Multiset.replicate_zero, add_zero] at hset
        rw [hset]
        exact herase

end BlockPool

/-! ## The events follow the map -/

namespace EventPool

variable {H X : Type} [DecidableEq H] [DecidableEq X] {cfg : EventSettings H X}

/-- The entries that the mirror of a pool has. -/
def registered (cfg : EventSettings H X) (medium : Medium) (p : BlockPool H) : Mirror X :=
  registeredIn cfg.maybeConvertBlockHash medium p.cachedBlockHashToBlock

/-- The call keeps map and blocks consistent, and its events bring the mirror
up to date. -/
def Follows (cfg : EventSettings H X) (p p' : EventPool H X) : Prop :=
  p.pool.Consistent → p'.pool.Consistent ∧ ∃ events,
    p'.kvEventQueue = p.kvEventQueue ++ events ∧
      Mirror.replay (registered cfg .gpu p.pool) events = some (registered cfg .gpu p'.pool)

/-- A call that leaves map and blocks alone and emits nothing. -/
theorem Follows.silent {p p' : EventPool H X} (hhash : p'.pool.blockHash = p.pool.blockHash)
    (hmap : p'.pool.cachedBlockHashToBlock = p.pool.cachedBlockHashToBlock)
    (hqueue : p'.kvEventQueue = p.kvEventQueue) : Follows cfg p p' := by
  intro hok
  refine ⟨?_, [], by rw [hqueue, List.append_nil], ?_⟩
  · unfold BlockPool.Consistent
    rw [hhash, hmap]
    exact hok
  · show some (registered cfg .gpu p.pool) = _
    rw [registered, registered, hmap]

theorem Follows.trans {p p' p'' : EventPool H X} (h : Follows cfg p p') (h' : Follows cfg p' p'') :
    Follows cfg p p'' := by
  intro hok
  obtain ⟨hok', es, hes, hreplay⟩ := h hok
  obtain ⟨hok'', es', hes', hreplay'⟩ := h' hok'
  refine ⟨hok'', es ++ es', by rw [hes', hes, List.append_assoc], ?_⟩
  rw [Mirror.replay_append, hreplay]
  exact hreplay'

omit [DecidableEq H] [DecidableEq X] in
theorem emit_queue (hon : cfg.enableKvCacheEvents = true) (p : EventPool H X)
    (events : List (KVCacheEvent X)) :
    (emit cfg p events).kvEventQueue = p.kvEventQueue ++ events := by
  rw [emit, if_pos hon]

theorem evictionEvents_replay {p : BlockPool H} (hok : p.Consistent) (b : BlockId) :
    Mirror.replay (registered cfg .gpu p) (evictionEvents cfg p b)
      = some (registered cfg .gpu (p.maybeEvictCachedBlock b)) := by
  unfold evictionEvents BlockPool.maybeEvictCachedBlock
  cases hb : p.blockHash b with
  | none => rfl
  | some key =>
    have hmem := (hok.filed b key).mp hb
    have hfound := (BlockPool.popCached_found p.cachedBlockHashToBlock key b).mpr hmem
    have hpop := BlockPool.registeredIn_popCached cfg.maybeConvertBlockHash .gpu
      hmem (hok.nodup key)
    dsimp only
    rw [if_pos hfound]
    cases hres : BlockPool.popCached p.cachedBlockHashToBlock key b with
    | mk m found =>
      rw [hres] at hfound hpop
      dsimp only at hfound hpop
      subst hfound
      show (([cfg.maybeConvertBlockHash key.1].foldlM (Mirror.remove .gpu key.2)
        (registered cfg .gpu p)).bind fun m => some m) = _
      unfold registered
      rw [← hpop, List.foldlM_cons]
      unfold Mirror.remove
      rw [if_pos (by simp), add_comm, Multiset.singleton_add, Multiset.erase_cons_head]
      rfl

theorem maybeEvict_follows (hon : cfg.enableKvCacheEvents = true) (p : EventPool H X)
    (b : BlockId) : Follows cfg p (p.maybeEvictCachedBlock cfg b) := by
  intro hok
  unfold maybeEvictCachedBlock
  rw [emit_pool, emit_queue hon]
  exact ⟨BlockPool.maybeEvict_consistent hok b, _, rfl, evictionEvents_replay hok b⟩

theorem claimBlock_follows (hon : cfg.enableKvCacheEvents = true) {p p' : EventPool H X}
    {b : BlockId} (h : p.claimBlock cfg b = .ok p') : Follows cfg p p' := by
  obtain ⟨q, hq, hfollows⟩ : ∃ q, q = (if p.pool.enableCaching then p.maybeEvictCachedBlock cfg b
      else p) ∧ Follows cfg p q := by
    refine ⟨_, rfl, ?_⟩
    split
    · exact maybeEvict_follows hon p b
    · exact Follows.silent rfl rfl rfl
  unfold claimBlock at h
  dsimp only at h
  rw [← hq] at h
  split at h
  · obtain rfl := Except.ok.inj h
    exact hfollows.trans (Follows.silent rfl rfl rfl)
  · cases h

theorem getNewBlocks_follows (hon : cfg.enableKvCacheEvents = true) {p p' : EventPool H X} {n : Int}
    {bs : List BlockId} (h : p.getNewBlocks cfg n = .ok (p', bs)) : Follows cfg p p' := by
  unfold getNewBlocks at h
  split at h
  · exact absurd h Raises.throw_ne_ok
  · simp only [Raises.bind_eq_ok, Raises.pure_eq_ok] at h
    obtain ⟨⟨pool, ret⟩, hpop, p₁, hclaim, heq⟩ := h
    obtain ⟨rfl, rfl⟩ := Prod.mk.inj heq
    obtain ⟨hhash, hmap⟩ := BlockPool.popleftN_hashes hpop
    have hfirst : Follows cfg p { p with pool := pool } := Follows.silent hhash hmap rfl
    exact Raises.foldlM_inv (I := Follows cfg p) ret _ p₁
      (fun b _ t t' ht hstep => ht.trans (claimBlock_follows hon hstep)) hfirst hclaim

theorem evictBlocks_follows (hon : cfg.enableKvCacheEvents = true) {p p' : EventPool H X}
    {bs : List BlockId} (h : p.evictBlocks cfg bs = .ok p') : Follows cfg p p' := by
  refine Raises.foldlM_inv (I := Follows cfg p) bs p p' ?_ (Follows.silent rfl rfl rfl) h
  intro b _ q q' hq hstep
  split at hstep
  · obtain rfl := Except.ok.inj hstep
    exact hq.trans (maybeEvict_follows hon q b)
  · cases hstep

theorem resetPrefixCache_follows (hon : cfg.enableKvCacheEvents = true) (p : EventPool H X) :
    Follows cfg p (p.resetPrefixCache cfg).1 := by
  intro hok
  have hconsistent := BlockPool.resetPrefixCache_consistent hok
  unfold resetPrefixCache
  unfold BlockPool.resetPrefixCache at hconsistent ⊢
  dsimp only at hconsistent ⊢
  split
  · exact Follows.silent rfl rfl rfl hok
  next hused =>
    rw [if_neg hused] at hconsistent
    simp only [if_true]
    rw [emit_pool, emit_queue hon]
    exact ⟨hconsistent, _, rfl, rfl⟩

/-! ## Storing -/

omit [DecidableEq X] in
/-- One filed block is one more copy of its hash. -/
theorem cacheBlock_registered (cfg : EventSettings H X) {p p' : BlockPool H} {g : GroupId}
    {entry : BlockId × Option (List H)} (hok : p.Consistent)
    (h : BlockPool.cacheBlock g p entry = .ok p') :
    registered cfg .gpu p' = registered cfg .gpu p
      + ((newHashes cfg.maybeConvertBlockHash [entry]).map fun x => (x, g, Medium.gpu) :
        List (X × GroupId × Medium)) := by
  obtain ⟨b, hash⟩ := entry
  unfold BlockPool.cacheBlock at h
  dsimp only at h
  split at h
  next hnull =>
    obtain rfl := Except.ok.inj h
    simp [newHashes, hnull]
  next hnull =>
    split at h
    · cases h
    next hset =>
      cases hash with
      | none => cases h
      | some x =>
        obtain rfl := Except.ok.inj h
        have hfresh : b ∉ BlockPool.filedIn p.cachedBlockHashToBlock (x, g) := by
          intro hmem
          exact hset (by rw [(hok.filed b (x, g)).mpr hmem]; simp)
        simp only [registered, BlockPool.registeredIn_insertCached _ _ hfresh]
        simp [newHashes, hnull]

omit [DecidableEq X] in
/-- The induction is on the entries; each round files one block. -/
theorem cacheLoop_registered (cfg : EventSettings H X) {g : GroupId} :
    ∀ (entries : List (BlockId × Option (List H))) {p p' : BlockPool H}, p.Consistent →
      entries.foldlM (BlockPool.cacheBlock g) p = .ok p' →
      registered cfg .gpu p' = registered cfg .gpu p
        + ((newHashes cfg.maybeConvertBlockHash entries).map fun x => (x, g, Medium.gpu) :
          List (X × GroupId × Medium)) := by
  intro entries
  induction entries with
  | nil =>
    intro p p' _ h
    obtain rfl := Raises.foldlM_nil_ok.mp h
    simp [newHashes]
  | cons e entries ih =>
    intro p p' hok h
    obtain ⟨p₁, h₁, h₂⟩ := Raises.foldlM_cons_ok.mp h
    have hone := cacheBlock_registered cfg hok h₁
    have hrest := ih (BlockPool.cacheBlock_consistent hok h₁) h₂
    have hsplit : newHashes cfg.maybeConvertBlockHash (e :: entries)
        = newHashes cfg.maybeConvertBlockHash [e] ++ newHashes cfg.maybeConvertBlockHash entries := by
      rw [newHashes, newHashes, newHashes, ← List.filterMap_append]
      rfl
    rw [hrest, hone, hsplit, List.map_append, add_assoc, Multiset.coe_add]

theorem cacheFullBlocks_follows (hon : cfg.enableKvCacheEvents = true) {p p' : EventPool H X}
    {r : Request H} {blocks : List BlockId} {numCached numFull size : Nat} {g : GroupId}
    (h : p.cacheFullBlocks cfg r blocks numCached numFull size g = .ok p') : Follows cfg p p' := by
  intro hok
  unfold cacheFullBlocks at h
  simp only [Raises.bind_eq_ok] at h
  obtain ⟨pool, hcache, h⟩ := h
  have hpool := BlockPool.cacheFullBlocks_consistent hok hcache
  unfold BlockPool.cacheFullBlocks at hcache
  by_cases hfull : numCached ≥ numFull
  · rw [if_pos hfull, Raises.pure_eq_ok] at hcache
    rw [if_pos (Or.inl hfull), Raises.pure_eq_ok] at h
    subst hcache h
    exact Follows.silent rfl rfl rfl hok
  · rw [if_neg hfull] at hcache
    simp only [Raises.bind_eq_ok] at hcache
    obtain ⟨-, -, -, -, hloop⟩ := hcache
    rw [if_neg (by simp [hon, Nat.lt_of_not_ge hfull])] at h
    simp only [Raises.bind_eq_ok, Raises.pure_eq_ok] at h
    obtain ⟨event, hevent, rfl⟩ := h
    rw [emit_pool, emit_queue hon]
    refine ⟨hpool, _, rfl, ?_⟩
    have hreg := cacheLoop_registered cfg _ hok hloop
    unfold storedEvent at hevent
    simp only [Raises.bind_eq_ok] at hevent
    obtain ⟨parent, -, hevent⟩ := hevent
    split at hevent
    · exact absurd hevent Raises.throw_ne_ok
    · rw [Raises.pure_eq_ok] at hevent
      subst hevent
      show some _ = some _
      rw [hreg]

/-- **One call on a pool.** -/
theorem poolStep_follows (hon : cfg.enableKvCacheEvents = true) {p p' : EventPool H X}
    {op : PoolOp H} (h : p.step cfg op = .ok p') : Follows cfg p p' := by
  cases op with
  | cacheFullBlocks r blocks numCached numFull blockSize groupId =>
    exact cacheFullBlocks_follows hon h
  | getNewBlocks n =>
    simp only [step, Raises.bind_eq_ok, Raises.pure_eq_ok] at h
    obtain ⟨⟨q, bs⟩, hnew, rfl⟩ := h
    exact getNewBlocks_follows hon hnew
  | touch blocks =>
    simp only [step, touch, Raises.bind_eq_ok, Raises.pure_eq_ok] at h
    obtain ⟨pool, htouch, rfl⟩ := h
    obtain ⟨hhash, hmap⟩ := BlockPool.touch_hashes htouch
    exact Follows.silent hhash hmap rfl
  | freeBlocks orderedBlocks =>
    obtain rfl := Except.ok.inj h
    exact Follows.silent rfl rfl rfl
  | evictBlocks blockIds => exact evictBlocks_follows hon h
  | resetPrefixCache =>
    obtain rfl := Except.ok.inj h
    exact resetPrefixCache_follows hon p

end EventPool

end VllmEngine
