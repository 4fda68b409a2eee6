import VllmEngine.Kv.Events
import VllmEngine.Sched.State

/-!
# Offloading to CPU memory

`SimpleCPUOffloadScheduler` (`vllm/v1/simple_kv_offload/manager.py`), the
scheduler's side of `SimpleCPUOffloadConnector`. It keeps a second block pool
for CPU memory, stores cached GPU blocks there and loads them back. Blocks that
a transfer reads or writes are kept from being freed by one more reference each,
in both pools.

A method returns the changed GPU pool beside the changed state, as the GPU pool
belongs to the KV cache manager.

Mirroring notes:
- `req_to_store` and the load states keep references to `Request` objects; the
  current contents are passed as `obj`.
- `store_events` is a set; here a list without repetitions.
- The request of a load state, the worker's side and log messages are left out.
-/

namespace VllmEngine

structure TransferMeta where
  gpuBlockIds : List BlockId
  cpuBlockIds : List BlockId
deriving DecidableEq, Repr

structure LoadRequestState where
  transferMeta : TransferMeta
  loadEvent : Option Nat
  finished : Bool
deriving DecidableEq, Repr

structure StoreRequestState where
  request : ReqRef
  blockIds : List (List BlockId)
  numStoredBlocks : List Nat
  storeEvents : List Nat
  finished : Bool
deriving DecidableEq, Repr

/-- What the worker reports to `update_connector_output`. -/
structure OffloadConnectorOutput where
  finishedRecving : List ReqId
  completedStoreEvents : Dict Nat Nat

/-- `SimpleCPUOffloadMetadata`. -/
structure OffloadMetadata where
  loadEvent : Option Nat
  loadGpuBlocks : List BlockId
  loadCpuBlocks : List BlockId
  loadEventToReqs : Dict Nat (List ReqId)
  storeEvent : Option Nat
  storeGpuBlocks : List BlockId
  storeCpuBlocks : List BlockId
  needFlush : Bool

structure SimpleCPUOffloadScheduler (H X : Type) where
  events : EventSettings H X
  blockSize : Nat
  coordinator : KVCacheCoordinator H
  cpuBlockPool : EventPool H X
  faGidx : Nat
  lazyMode : Bool
  cursor : Option BlockId
  targetFree : Nat
  expectedWorkerCount : Nat
  reqsToLoad : Dict ReqId LoadRequestState
  loadEventToReqs : Dict Nat (List ReqId)
  storeEventToBlocks : Dict Nat TransferMeta
  reqsToStore : Dict ReqId StoreRequestState
  storeEventToReqs : Dict Nat (List ReqId)
  loadEventCounter : Nat
  storeEventCounter : Nat
  storeEventPendingCounts : Dict Nat Nat

namespace SimpleCPUOffloadScheduler

variable {H X : Type} [DecidableEq H]

/-- `_estimate_lazy_target_blocks`; the watermark doubles the sum. -/
def estimateLazyTargetBlocks (specs : List KVCacheSpec) (maxNumBatchedTokens : Nat) : Nat :=
  2 * (specs.map fun spec =>
    match spec.kind with
    | .mamba _ => 2
    | .slidingWindow _ w => (Python.cdiv w spec.blockSize + 1).toNat
    | _ => (Python.cdiv maxNumBatchedTokens spec.blockSize).toNat).sum

/-- The number of CPU blocks in `_derive_cpu_config`. -/
def numCpuBlocks (numGpuBlocks cpuCapacityBytes gpuTotalBytes : Nat) : Nat :=
  max 1 (numGpuBlocks * cpuCapacityBytes / gpuTotalBytes)

/-- `__init__`. -/
def init (events : EventSettings H X) (specs : List KVCacheSpec)
    (numGpuBlocks cpuCapacityBytes gpuTotalBytes blockSize maxNumBatchedTokens
    worldSize : Nat) (lazyOffload : Bool) :
    Except Python.Error (SimpleCPUOffloadScheduler H X) := do
  let faGidx := specs.findIdx (·.isFullAttention)
  Python.require (decide (faGidx < specs.length)) ""
  let c ← KVCacheCoordinator.init specs (numCpuBlocks numGpuBlocks cpuCapacityBytes gpuTotalBytes)
    false true blockSize
  return { events := events
           blockSize := blockSize
           coordinator := c
           cpuBlockPool := ⟨c.blockPool, []⟩
           faGidx := faGidx
           lazyMode := lazyOffload
           cursor := none
           targetFree :=
             if lazyOffload then estimateLazyTargetBlocks specs maxNumBatchedTokens else 0
           expectedWorkerCount := worldSize
           reqsToLoad := Dict.empty
           loadEventToReqs := Dict.empty
           storeEventToBlocks := Dict.empty
           reqsToStore := Dict.empty
           storeEventToReqs := Dict.empty
           loadEventCounter := 0
           storeEventCounter := 0
           storeEventPendingCounts := Dict.empty }

/-- `cpu_coordinator`, over the current CPU pool. -/
def cpuCoordinator (s : SimpleCPUOffloadScheduler H X) : KVCacheCoordinator H :=
  { s.coordinator with blockPool := s.cpuBlockPool.pool }

/-- The block sizes of the groups. -/
def groupBlockSizes (s : SimpleCPUOffloadScheduler H X) : List Nat :=
  s.coordinator.singleTypeManagers.map (·.spec.blockSize)

/-- The CPU pool after a change that emits no event. -/
def setCpuPool (s : SimpleCPUOffloadScheduler H X) (p : BlockPool H) :
    SimpleCPUOffloadScheduler H X :=
  { s with cpuBlockPool := { s.cpuBlockPool with pool := p } }

/-! ## Loads -/

/-- The registration of a request for stores. -/
def registerStore (s : SimpleCPUOffloadScheduler H X) (ref : ReqRef) (reqId : ReqId)
    (numGroups : Nat) : SimpleCPUOffloadScheduler H X :=
  if !s.lazyMode && !s.reqsToStore.contains reqId then
    let st : StoreRequestState :=
      { request := ref
        blockIds := List.replicate numGroups []
        numStoredBlocks := List.replicate numGroups 0
        storeEvents := []
        finished := false }
    { s with reqsToStore := s.reqsToStore.set reqId st }
  else s

/-- The transfer pairs of one group: the CPU blocks that are not null, with the
GPU blocks at the end of the computed range. -/
def transferPairs (cpuBlocks gpuIds : List BlockId) (gpuExtStart : Int) :
    Except Python.Error (List (BlockId × BlockId)) := do
  let pairs ← cpuBlocks.zipIdx.mapM fun (b, i) =>
    if b = nullBlock then .ok none
    else do
      let g ← Python.getItem gpuIds (gpuExtStart + i)
      return some (g, b)
  return pairs.filterMap id

/-- The transfer pairs of all groups `g, g + 1, …`. -/
def transferPairsFrom (cpuHitBlocks blockIds : List (List BlockId)) (totalComputedTokens : Int) :
    Nat → List Nat → Except Python.Error (List (BlockId × BlockId))
  | _, [] => .ok []
  | g, size :: sizes => do
    let cpuBlocks := cpuHitBlocks.getD g []
    let start := Python.cdiv totalComputedTokens size - cpuBlocks.length
    let pairs ← transferPairs cpuBlocks (blockIds.getD g []) start
    let rest ← transferPairsFrom cpuHitBlocks blockIds totalComputedTokens (g + 1) sizes
    return pairs ++ rest

/-- The load of `update_state_after_alloc`. -/
def startLoad (s : SimpleCPUOffloadScheduler H X) (gpu : BlockPool H) (r : Request H)
    (blocks : List (List BlockId)) (numExternalTokens : Nat) :
    Except Python.Error (SimpleCPUOffloadScheduler H X × BlockPool H) := do
  let numBlocksToLoad := numExternalTokens / s.blockSize
  Python.require (decide (numBlocksToLoad > 0)) ""
  let skipped := (blocks.getD s.faGidx []).countP fun b => (gpu.blockHash b).isSome
  let hashesToLoad := (r.blockHashes.drop skipped).take numBlocksToLoad
  let (cpuHitBlocks, hitLength) ← s.cpuCoordinator.findLongestCacheHit hashesToLoad
    (hashesToLoad.length * s.blockSize)
  Python.require (decide (hitLength = numExternalTokens)) "Expected hit tokens"
  let pairs ← transferPairsFrom cpuHitBlocks blocks (skipped * s.blockSize + numExternalTokens) 0
    (s.groupBlockSizes.take blocks.length)
  -- kept from eviction on both sides while the load runs
  let cpu ← s.cpuBlockPool.pool.touch (pairs.map Prod.snd)
  let gpu ← gpu.touch (pairs.map Prod.fst)
  Python.require (!s.reqsToLoad.contains r.requestId) ""
  let st : LoadRequestState :=
    { transferMeta := ⟨pairs.map Prod.fst, pairs.map Prod.snd⟩
      loadEvent := none
      finished := false }
  return ({ s.setCpuPool cpu with reqsToLoad := s.reqsToLoad.set r.requestId st }, gpu)

/-- `update_state_after_alloc`. -/
def updateStateAfterAlloc (s : SimpleCPUOffloadScheduler H X) (gpu : BlockPool H)
    (obj : ReqRef → Request H) (ref : ReqRef) (blocks : List (List BlockId))
    (numExternalTokens : Nat) : Except Python.Error (SimpleCPUOffloadScheduler H X × BlockPool H) :=
  let s := s.registerStore ref (obj ref).requestId blocks.length
  if numExternalTokens = 0 then .ok (s, gpu)
  else s.startLoad gpu (obj ref) blocks numExternalTokens

/-! ## Stores -/

/-- `cpu_blk._block_hash = bhash`, without the check of the setter. -/
def stamp (p : BlockPool H) (b : BlockId) (key : BlockKey H) : BlockPool H :=
  { p with blockHash := Function.update p.blockHash b (some key) }

/-- Take CPU blocks, stamp them with the hashes, and touch the GPU blocks. -/
def allocateStores (s : SimpleCPUOffloadScheduler H X) (gpu : BlockPool H)
    (stores : List (BlockId × BlockKey H)) :
    Except Python.Error (SimpleCPUOffloadScheduler H X × BlockPool H × List BlockId) := do
  let (cpu, cpuIds) ← s.cpuBlockPool.getNewBlocks s.events stores.length
  let pool := (cpuIds.zip (stores.map Prod.snd)).foldl (fun p e => stamp p e.1 e.2) cpu.pool
  let gpu ← gpu.touch (stores.map Prod.fst)
  return ({ s with cpuBlockPool := { cpu with pool := pool } }, gpu, cpuIds)

/-- The loop of `_prepare_lazy_store_specs`: at most `n` more nodes of the free
queue, the stores so far and the last node visited. -/
def lazyScan (gpu cpu : BlockPool H) :
    Nat → List BlockId → List (BlockId × BlockKey H) → Option BlockId →
      List (BlockId × BlockKey H) × Option BlockId
  | 0, _, stores, last => (stores, last)
  | _, [], stores, last => (stores, last)
  | n + 1, b :: rest, stores, last =>
    if (stores.length : Int) < cpu.numFreeBlocks then
      let stores :=
        match gpu.blockHash b with
        | some key =>
          if b ≠ nullBlock ∧ cpu.getOneBlock key = none then stores ++ [(b, key)] else stores
        | none => stores
      lazyScan gpu cpu n rest stores (some b)
    else (stores, last)

/-- The nodes after the cursor; a cursor that has left the queue is dropped. -/
def nodesAfter (gpu : BlockPool H) (cursor : Option BlockId) : List BlockId :=
  match cursor with
  | none => gpu.freeBlocks
  | some c => (gpu.freeBlocks.dropWhile fun b => decide (b ≠ c)).tail

/-- `_prepare_lazy_store_specs`. -/
def prepareLazyStoreSpecs (s : SimpleCPUOffloadScheduler H X) (gpu : BlockPool H) :
    Except Python.Error
      (SimpleCPUOffloadScheduler H X × BlockPool H × List BlockId × List BlockId × List ReqId) :=
  if s.targetFree = 0 then .ok (s, gpu, [], [], [])
  else do
    let cursor := s.cursor.filter fun c => decide (¬ gpu.refCnt c > 0)
    let (stores, last) := lazyScan gpu s.cpuBlockPool.pool s.targetFree (nodesAfter gpu cursor) []
      cursor
    let s := { s with cursor := last }
    if stores = [] then return (s, gpu, [], [], [])
    else
      let (s, gpu, cpuIds) ← s.allocateStores gpu stores
      return (s, gpu, stores.map Prod.fst, cpuIds, [])

/-- The scan of one group: how far it got, the stores, the CPU blocks left, and
whether they ran out. -/
structure GroupScan (H : Type) where
  advanced : Nat
  stores : List (BlockId × BlockKey H)
  numFree : Int
  outOfSpace : Bool

/-- The inner loop of phase 1. -/
def scanGroup (gpu cpu : BlockPool H) (gpuBlocksThisStep : List BlockId) :
    List BlockId → GroupScan H → GroupScan H
  | [], acc => acc
  | b :: rest, acc =>
    if b = nullBlock then
      scanGroup gpu cpu gpuBlocksThisStep rest { acc with advanced := acc.advanced + 1 }
    else
      match gpu.blockHash b with
      | none => acc
      | some key =>
        if b ∈ gpuBlocksThisStep ∨ (cpu.getOneBlock key).isSome then
          scanGroup gpu cpu gpuBlocksThisStep rest { acc with advanced := acc.advanced + 1 }
        else if acc.numFree ≤ 0 then { acc with outOfSpace := true }
        else
          scanGroup gpu cpu gpuBlocksThisStep rest
            { acc with advanced := acc.advanced + 1
                       stores := acc.stores ++ [(b, key)]
                       numFree := acc.numFree - 1 }

/-- Phase 1: the groups in order, up to the one that runs out of space. The
result also has the cursors' advances. -/
def scanGroups (gpu cpu : BlockPool H) (gpuBlocksThisStep : List BlockId) (confirmedTokens : Int) :
    List (Nat × Nat × List BlockId) → List (BlockId × BlockKey H) → Int →
      List (BlockId × BlockKey H) × Int × List Nat
  | [], stores, numFree => (stores, numFree, [])
  | (size, stored, ids) :: groups, stores, numFree =>
    let scannable := Python.slice ids stored (Int.fdiv confirmedTokens size)
    let scan := scanGroup gpu cpu gpuBlocksThisStep scannable
      { advanced := 0, stores := stores, numFree := numFree, outOfSpace := false }
    if scan.outOfSpace then
      (scan.stores, scan.numFree, scan.advanced :: groups.map fun _ => 0)
    else
      let (stores, numFree, advanced) := scanGroups gpu cpu gpuBlocksThisStep confirmedTokens groups
        scan.stores scan.numFree
      (stores, numFree, scan.advanced :: advanced)

/-- What the loop of `_prepare_eager_store_specs` carries. -/
structure EagerAcc (H X : Type) where
  sched : SimpleCPUOffloadScheduler H X
  gpu : BlockPool H
  numFree : Int
  gpuBlockIds : List BlockId
  cpuBlockIds : List BlockId
  reqIds : List ReqId

/-- New block ids are appended; a resumed request starts over. -/
def accumulateBlocks (st : StoreRequestState) (numGroups : Nat)
    (newBlockIds : Option (List (List BlockId))) (preempted : Bool) : StoreRequestState :=
  let st := if preempted then
      { st with blockIds := List.replicate numGroups []
                numStoredBlocks := List.replicate numGroups 0 }
    else st
  match newBlockIds with
  | none => st
  | some new => { st with blockIds := st.blockIds.mapIdx fun g ids => ids ++ new.getD g [] }

/-- One round of `_prepare_eager_store_specs`. -/
def eagerRound (obj : ReqRef → Request H) (numScheduledTokens : Dict ReqId Int)
    (acc : EagerAcc H X) (entry : ReqId × Option (List (List BlockId)) × Bool) :
    Except Python.Error (EagerAcc H X) :=
  let (reqId, newBlockIds, preempted) := entry
  match acc.sched.reqsToStore.get? reqId with
  | none => .ok acc
  | some st =>
    if st.finished then .ok acc
    else
      let sizes := acc.sched.groupBlockSizes
      let st := accumulateBlocks st sizes.length newBlockIds preempted
      let setState (s : SimpleCPUOffloadScheduler H X) (st : StoreRequestState) :=
        { s with reqsToStore := s.reqsToStore.set reqId st }
      let acc := { acc with sched := setState acc.sched st }
      if (numScheduledTokens.get? reqId).getD 0 = 0 ∨ st.blockIds = [] then .ok acc
      else do
        let r := obj st.request
        -- tokens whose KV data is written
        let confirmedTokens := r.numComputedTokens - r.numOutputPlaceholders
        let (stores, numFree, advanced) := scanGroups acc.gpu acc.sched.cpuBlockPool.pool
          acc.gpuBlockIds confirmedTokens (sizes.zip (st.numStoredBlocks.zip st.blockIds)) []
          acc.numFree
        let st := { st with numStoredBlocks := st.numStoredBlocks.zipWith (· + ·) advanced }
        if stores = [] then
          return { acc with sched := setState acc.sched st, numFree := numFree }
        else
          let (s, gpu, cpuIds) ← acc.sched.allocateStores acc.gpu stores
          return { sched := setState s st
                   gpu := gpu
                   numFree := numFree
                   gpuBlockIds := acc.gpuBlockIds ++ stores.map Prod.fst
                   cpuBlockIds := acc.cpuBlockIds ++ cpuIds
                   reqIds := acc.reqIds ++ [reqId] }

/-- `yield_req_data`. -/
def yieldReqData (out : SchedulerOutput) : List (ReqId × Option (List (List BlockId)) × Bool) :=
  out.scheduledNewReqs.map (fun d => (d.reqId, some d.blockIds, false))
    ++ (out.scheduledCachedReqs.reqIds.zip out.scheduledCachedReqs.newBlockIds).map fun e =>
      (e.1, e.2, decide (e.1 ∈ out.scheduledCachedReqs.resumedReqIds))

/-- `_prepare_eager_store_specs`. -/
def prepareEagerStoreSpecs (s : SimpleCPUOffloadScheduler H X) (gpu : BlockPool H)
    (obj : ReqRef → Request H) (out : SchedulerOutput) :
    Except Python.Error
      (SimpleCPUOffloadScheduler H X × BlockPool H × List BlockId × List BlockId × List ReqId) := do
  let acc ← (yieldReqData out).foldlM (eagerRound obj out.numScheduledTokens)
    { sched := s
      gpu := gpu
      numFree := s.cpuBlockPool.pool.numFreeBlocks
      gpuBlockIds := []
      cpuBlockIds := []
      reqIds := [] }
  return (acc.sched, acc.gpu, acc.gpuBlockIds, acc.cpuBlockIds, acc.reqIds)

/-- `prepare_store_specs`. -/
def prepareStoreSpecs (s : SimpleCPUOffloadScheduler H X) (gpu : BlockPool H)
    (obj : ReqRef → Request H) (out : SchedulerOutput) :
    Except Python.Error
      (SimpleCPUOffloadScheduler H X × BlockPool H × List BlockId × List BlockId × List ReqId) :=
  if s.lazyMode then s.prepareLazyStoreSpecs gpu else s.prepareEagerStoreSpecs gpu obj out

/-- `store_state.store_events.add(store_event)` for a request. -/
def addStoreEvent (event : Nat) (d : Dict ReqId StoreRequestState) (reqId : ReqId) :
    Dict ReqId StoreRequestState :=
  match d.get? reqId with
  | none => d
  | some st =>
    d.set reqId { st with storeEvents :=
      if event ∈ st.storeEvents then st.storeEvents else st.storeEvents ++ [event] }

/-- The store half of `build_connector_meta`: a new event for what is stored. -/
def recordStore (s : SimpleCPUOffloadScheduler H X) (storeGpu storeCpu : List BlockId)
    (storeReqIds : List ReqId) : SimpleCPUOffloadScheduler H X × Option Nat :=
  if storeGpu = [] then (s, none)
  else
    let event := s.storeEventCounter
    ({ s with
        storeEventCounter := event + 1
        storeEventToBlocks := s.storeEventToBlocks.set event ⟨storeGpu, storeCpu⟩
        storeEventToReqs :=
          if storeReqIds = [] then s.storeEventToReqs else s.storeEventToReqs.set event storeReqIds
        reqsToStore := storeReqIds.foldl (addStoreEvent event) s.reqsToStore }, some event)

/-- The load half of `build_connector_meta`: a new event for the loads that have
none. -/
def recordLoads (s : SimpleCPUOffloadScheduler H X) :
    SimpleCPUOffloadScheduler H X × Option Nat × List TransferMeta :=
  let new := s.reqsToLoad.entries.filter fun e => decide (e.2.loadEvent = none)
  if new = [] then (s, none, [])
  else
    let event := s.loadEventCounter
    ({ s with
        loadEventCounter := event + 1
        reqsToLoad := new.foldl (fun d e => d.set e.1 { e.2 with loadEvent := some event })
          s.reqsToLoad
        loadEventToReqs := s.loadEventToReqs.set event (new.map Prod.fst) },
      some event, new.map (·.2.transferMeta))

/-- `build_connector_meta`. -/
def buildConnectorMeta (s : SimpleCPUOffloadScheduler H X) (gpu : BlockPool H)
    (obj : ReqRef → Request H) (out : SchedulerOutput) :
    Except Python.Error (SimpleCPUOffloadScheduler H X × BlockPool H × OffloadMetadata) := do
  let (s, gpu, storeGpu, storeCpu, storeReqIds) ← s.prepareStoreSpecs gpu obj out
  let (s, storeEvent) := s.recordStore storeGpu storeCpu storeReqIds
  let (s, loadEvent, loads) := s.recordLoads
  return (s, gpu,
    { loadEvent := loadEvent
      loadGpuBlocks := (loads.map (·.gpuBlockIds)).flatten
      loadCpuBlocks := (loads.map (·.cpuBlockIds)).flatten
      loadEventToReqs := s.loadEventToReqs
      storeEvent := storeEvent
      storeGpuBlocks := storeGpu
      storeCpuBlocks := storeCpu
      needFlush := !out.preemptedReqIds.isEmpty })

/-! ## Completions -/

/-- `reqs.remove(req_id)`, and the entry popped once it is empty. -/
def removeReq (d : Dict Nat (List ReqId)) (event : Nat) (reqId : ReqId) : Dict Nat (List ReqId) :=
  match d.get? event with
  | none => d
  | some reqs =>
    let rest := reqs.erase reqId
    if rest = [] then d.erase event else d.set event rest

/-- `_cleanup_load_request`. -/
def cleanupLoadRequest (s : SimpleCPUOffloadScheduler H X) (gpu : BlockPool H) (reqId : ReqId) :
    SimpleCPUOffloadScheduler H X × BlockPool H :=
  match s.reqsToLoad.get? reqId with
  | none => (s, gpu)
  | some st =>
    ({ s.setCpuPool (s.cpuBlockPool.pool.freeBlocksOf st.transferMeta.cpuBlockIds) with
        reqsToLoad := s.reqsToLoad.erase reqId
        loadEventToReqs :=
          match st.loadEvent with
          | none => s.loadEventToReqs
          | some event => removeReq s.loadEventToReqs event reqId },
      gpu.freeBlocksOf st.transferMeta.gpuBlockIds)

/-- `_cleanup_store_request`. -/
def cleanupStoreRequest (s : SimpleCPUOffloadScheduler H X) (reqId : ReqId) :
    SimpleCPUOffloadScheduler H X :=
  match s.reqsToStore.get? reqId with
  | none => s
  | some st =>
    { s with
      reqsToStore := s.reqsToStore.erase reqId
      storeEventToReqs :=
        st.storeEvents.foldl (fun d event => removeReq d event reqId) s.storeEventToReqs }

/-- The registration of one stored block in the CPU pool's hash map. -/
def registerStored (p : BlockPool H) (b : BlockId) : Except Python.Error (BlockPool H) :=
  match p.blockHash b with
  | none => .error (.assertion "")
  | some key =>
    .ok { p with cachedBlockHashToBlock := BlockPool.insertCached p.cachedBlockHashToBlock key b }

/-- `_process_store_completion`. -/
def processStoreCompletion (s : SimpleCPUOffloadScheduler H X) (gpu : BlockPool H)
    (t : TransferMeta) : Except Python.Error (SimpleCPUOffloadScheduler H X × BlockPool H) := do
  Python.require (decide (t.cpuBlockIds.length = t.gpuBlockIds.length)) ""
  let cpu ← t.cpuBlockIds.foldlM registerStored s.cpuBlockPool.pool
  return (s.setCpuPool (cpu.freeBlocksOf t.cpuBlockIds), gpu.freeBlocksOf t.gpuBlockIds)

/-- The end of a store for one of its requests. -/
def endStore (event : Nat) (s : SimpleCPUOffloadScheduler H X) (reqId : ReqId) :
    SimpleCPUOffloadScheduler H X :=
  match s.reqsToStore.get? reqId with
  | none => s
  | some st =>
    let st := { st with storeEvents := st.storeEvents.erase event }
    let s := { s with reqsToStore := s.reqsToStore.set reqId st }
    if st.finished && st.storeEvents.isEmpty then s.cleanupStoreRequest reqId else s

/-- `_process_store_event`. -/
def processStoreEvent (s : SimpleCPUOffloadScheduler H X) (gpu : BlockPool H) (event : Nat) :
    Except Python.Error (SimpleCPUOffloadScheduler H X × BlockPool H) := do
  match s.storeEventToBlocks.get? event with
  | none => throw (.key "")
  | some t =>
    let s := { s with storeEventToBlocks := s.storeEventToBlocks.erase event }
    let (s, gpu) ← s.processStoreCompletion gpu t
    if s.lazyMode then return (s, gpu)
    else
      let reqs := (s.storeEventToReqs.get? event).getD []
      let s := { s with storeEventToReqs := s.storeEventToReqs.erase event }
      return (reqs.foldl (endStore event) s, gpu)

/-- One entry of `completed_store_events`: an event is processed when all
workers have reported it. -/
def completeStore (acc : SimpleCPUOffloadScheduler H X × BlockPool H) (entry : Nat × Nat) :
    Except Python.Error (SimpleCPUOffloadScheduler H X × BlockPool H) :=
  let (s, gpu) := acc
  let (event, count) := entry
  let total := (s.storeEventPendingCounts.get? event).getD 0 + count
  if total ≥ s.expectedWorkerCount then
    { s with storeEventPendingCounts := s.storeEventPendingCounts.erase event }.processStoreEvent
      gpu event
  else
    .ok ({ s with storeEventPendingCounts := s.storeEventPendingCounts.set event total }, gpu)

/-- `update_connector_output`. -/
def updateConnectorOutput (s : SimpleCPUOffloadScheduler H X) (gpu : BlockPool H)
    (out : OffloadConnectorOutput) :
    Except Python.Error (SimpleCPUOffloadScheduler H X × BlockPool H) :=
  let acc := out.finishedRecving.foldl (fun acc reqId => acc.1.cleanupLoadRequest acc.2 reqId)
    (s, gpu)
  out.completedStoreEvents.entries.foldlM completeStore acc

/-- The end of a request's load; one in flight is cleaned up when it completes. -/
def finishLoad (s : SimpleCPUOffloadScheduler H X) (gpu : BlockPool H) (reqId : ReqId) :
    SimpleCPUOffloadScheduler H X × BlockPool H :=
  match s.reqsToLoad.get? reqId with
  | none => (s, gpu)
  | some st =>
    if st.loadEvent.isSome then
      ({ s with reqsToLoad := s.reqsToLoad.set reqId { st with finished := true } }, gpu)
    else s.cleanupLoadRequest gpu reqId

/-- The end of a request's stores. -/
def finishStore (s : SimpleCPUOffloadScheduler H X) (reqId : ReqId) :
    SimpleCPUOffloadScheduler H X :=
  if s.lazyMode then s
  else
    match s.reqsToStore.get? reqId with
    | none => s
    | some st =>
      if st.storeEvents.isEmpty then s.cleanupStoreRequest reqId
      else { s with reqsToStore := s.reqsToStore.set reqId { st with finished := true } }

/-- `request_finished`. -/
def requestFinished (s : SimpleCPUOffloadScheduler H X) (gpu : BlockPool H) (reqId : ReqId) :
    SimpleCPUOffloadScheduler H X × BlockPool H :=
  let (s, gpu) := s.finishLoad gpu reqId
  (s.finishStore reqId, gpu)

end SimpleCPUOffloadScheduler

end VllmEngine
