import VllmEngine.Offload.Simple

/-!
# Replaying the events of both pools

The engine publishes the events of the GPU pool and, with
`SimpleCPUOffloadConnector`, those of the CPU pool (`update_from_output` joins
what `take_events` returns for each). A router folds the stream into a mirror,
by hash, group and medium.

The CPU pool says nothing when a store completes: its blocks are put into the
hash map directly. As long as no store completes, the stream is right:

> `replay_run`: in a run where no store completes, the stream removes no absent
> entry and is up to date whenever the events are taken;
> `completed_store_unpublished`: a completed store is missing from the mirror.
-/

namespace VllmEngine

open SimpleCPUOffloadScheduler

variable {H X : Type} [DecidableEq H]

/-- Both pools, and the events published so far. -/
structure PoolsState (H X : Type) where
  gpu : EventPool H X
  offload : SimpleCPUOffloadScheduler H X
  published : List (KVCacheEvent X)

/-- The calls on the pools: those of the KV cache managers on the GPU pool, those
of the scheduler on the offload scheduler, and the publication of events. -/
inductive PoolsOp (H : Type)
  | gpuCall (op : PoolOp H)
  | updateStateAfterAlloc (obj : ReqRef → Request H) (ref : ReqRef) (blocks : List (List BlockId))
      (numExternalTokens : Nat)
  | buildConnectorMeta (obj : ReqRef → Request H) (out : SchedulerOutput)
  | updateConnectorOutput (out : OffloadConnectorOutput)
  | requestFinished (reqId : ReqId)
  | takeEvents

namespace PoolsState

/-- The GPU pool is that of a coordinator, and the CPU pool that of another one
for the same groups. -/
def init (cfg : EventSettings H X) (specs : List KVCacheSpec)
    (numGpuBlocks cpuCapacityBytes gpuTotalBytes blockSize maxNumBatchedTokens worldSize : Nat)
    (useEagle lazyOffload : Bool) : Except Python.Error (PoolsState H X) := do
  let c ← KVCacheCoordinator.init specs numGpuBlocks useEagle true blockSize
  let o ← SimpleCPUOffloadScheduler.init cfg specs numGpuBlocks cpuCapacityBytes gpuTotalBytes
    blockSize maxNumBatchedTokens worldSize lazyOffload
  return { gpu := ⟨c.blockPool, []⟩, offload := o, published := [] }

/-- The result of an offload call put back. -/
def setOffload (s : PoolsState H X) (res : SimpleCPUOffloadScheduler H X × BlockPool H) :
    PoolsState H X :=
  { s with offload := res.1, gpu := { s.gpu with pool := res.2 } }

def step (s : PoolsState H X) : PoolsOp H → Except Python.Error (PoolsState H X)
  | .gpuCall op => do
    let gpu ← s.gpu.step s.offload.events op
    return { s with gpu := gpu }
  | .updateStateAfterAlloc obj ref blocks numExternalTokens => do
    let res ← s.offload.updateStateAfterAlloc s.gpu.pool obj ref blocks numExternalTokens
    return s.setOffload res
  | .buildConnectorMeta obj out => do
    let (o, gpu, _) ← s.offload.buildConnectorMeta s.gpu.pool obj out
    return s.setOffload (o, gpu)
  | .updateConnectorOutput out => do
    let res ← s.offload.updateConnectorOutput s.gpu.pool out
    return s.setOffload res
  | .requestFinished reqId => .ok (s.setOffload (s.offload.requestFinished s.gpu.pool reqId))
  | .takeEvents =>
    let (gpu, gpuEvents) := s.gpu.takeEvents
    let (cpu, cpuEvents) := s.offload.cpuBlockPool.takeEvents
    .ok { gpu := gpu
          offload := { s.offload with cpuBlockPool := cpu }
          published := s.published ++ gpuEvents ++ cpuEvents }

/-- The blocks in the hash maps, with the medium they are in. -/
def registered (s : PoolsState H X) : Mirror X :=
  EventPool.registered s.offload.events .gpu s.gpu.pool
    + EventPool.registered s.offload.events .cpu s.offload.cpuBlockPool.pool

end PoolsState

/-- No event of the report has now been reported by all workers. -/
def CompletesNoStore (s : PoolsState H X) : PoolsOp H → Prop
  | .updateConnectorOutput out => ∀ event count, (event, count) ∈ out.completedStoreEvents.entries →
      (s.offload.storeEventPendingCounts.get? event).getD 0 + count < s.offload.expectedWorkerCount
  | _ => True

/-! ## What the offload scheduler does to the pools -/

/-- The CPU pool has neither entries nor events. -/
def Silent (p : EventPool H X) : Prop :=
  p.kvEventQueue = [] ∧ p.pool.cachedBlockHashToBlock = Dict.empty

/-- A call that stores nothing in the CPU pool's map and leaves the hashes of
the GPU pool alone. -/
structure Quiet (s : SimpleCPUOffloadScheduler H X) (gpu : BlockPool H)
    (s' : SimpleCPUOffloadScheduler H X) (gpu' : BlockPool H) : Prop where
  events : s'.events = s.events
  gpuHash : gpu'.blockHash = gpu.blockHash
  gpuMap : gpu'.cachedBlockHashToBlock = gpu.cachedBlockHashToBlock
  silent : Silent s.cpuBlockPool → Silent s'.cpuBlockPool

omit [DecidableEq H] in
theorem Quiet.refl (s : SimpleCPUOffloadScheduler H X) (gpu : BlockPool H) : Quiet s gpu s gpu :=
  ⟨rfl, rfl, rfl, id⟩

variable {s s' : SimpleCPUOffloadScheduler H X} {gpu gpu' : BlockPool H} {obj : ReqRef → Request H}

omit [DecidableEq H] in
theorem Quiet.trans {s'' : SimpleCPUOffloadScheduler H X} {gpu'' : BlockPool H}
    (h : Quiet s gpu s' gpu') (h' : Quiet s' gpu' s'' gpu'') : Quiet s gpu s'' gpu'' :=
  ⟨h'.events.trans h.events, h'.gpuHash.trans h.gpuHash, h'.gpuMap.trans h.gpuMap,
    fun hs => h'.silent (h.silent hs)⟩

omit [DecidableEq H] in
/-- Only the bookkeeping changes. -/
theorem Quiet.of_pools (hevents : s'.events = s.events)
    (hqueue : s'.cpuBlockPool.kvEventQueue = s.cpuBlockPool.kvEventQueue)
    (hmap : s'.cpuBlockPool.pool.cachedBlockHashToBlock = s.cpuBlockPool.pool.cachedBlockHashToBlock)
    (hgpu : gpu'.blockHash = gpu.blockHash ∧ gpu'.cachedBlockHashToBlock = gpu.cachedBlockHashToBlock) :
    Quiet s gpu s' gpu' :=
  ⟨hevents, hgpu.1, hgpu.2, fun h => ⟨hqueue.trans h.1, hmap.trans h.2⟩⟩

theorem claimBlock_silent {cfg : EventSettings H X} {p p' : EventPool H X} {b : BlockId}
    (hs : Silent p) (h : p.claimBlock cfg b = .ok p') : Silent p' := by
  have hevict : Silent (if p.pool.enableCaching then p.maybeEvictCachedBlock cfg b else p) := by
    split
    · -- nothing is filed, so nothing is popped
      have hpop : ∀ key : BlockKey H,
          BlockPool.popCached p.pool.cachedBlockHashToBlock key b = (Dict.empty, false) := by
        intro key
        rw [hs.2]
        rfl
      have hnone : EventPool.evictionEvents cfg p.pool b = [] := by
        unfold EventPool.evictionEvents
        cases p.pool.blockHash b with
        | none => rfl
        | some key => simp [hpop]
      have hmap : (p.pool.maybeEvictCachedBlock b).cachedBlockHashToBlock = Dict.empty := by
        unfold BlockPool.maybeEvictCachedBlock
        cases p.pool.blockHash b with
        | none => exact hs.2
        | some key =>
          dsimp only
          rw [hpop]
          exact hs.2
      unfold EventPool.maybeEvictCachedBlock
      rw [hnone]
      refine ⟨?_, by rw [EventPool.emit_pool]; exact hmap⟩
      unfold EventPool.emit
      split
      · exact (List.append_nil _).trans hs.1
      · exact hs.1
    · exact hs
  unfold EventPool.claimBlock at h
  dsimp only at h
  generalize (if p.pool.enableCaching then p.maybeEvictCachedBlock cfg b else p) = q at h hevict
  split at h
  · obtain rfl := Except.ok.inj h
    exact hevict
  · cases h

theorem getNewBlocks_silent {cfg : EventSettings H X} {p p' : EventPool H X} {n : Int}
    {bs : List BlockId} (hs : Silent p) (h : p.getNewBlocks cfg n = .ok (p', bs)) : Silent p' := by
  unfold EventPool.getNewBlocks at h
  split at h
  · exact absurd h Raises.throw_ne_ok
  · simp only [Raises.bind_eq_ok, Raises.pure_eq_ok] at h
    obtain ⟨⟨pool, ret⟩, hpop, p₁, hclaim, heq⟩ := h
    obtain ⟨rfl, rfl⟩ := Prod.mk.inj heq
    have hfirst : Silent { p with pool := pool } :=
      ⟨hs.1, (BlockPool.popleftN_hashes hpop).2.trans hs.2⟩
    exact Raises.foldlM_inv (I := Silent) ret _ p₁
      (fun b _ t t' ht hstep => claimBlock_silent ht hstep) hfirst hclaim

omit [DecidableEq H] in
theorem stamps_map (entries : List (BlockId × BlockKey H)) (p : BlockPool H) :
    (entries.foldl (fun p e => stamp p e.1 e.2) p).cachedBlockHashToBlock
      = p.cachedBlockHashToBlock := by
  induction entries generalizing p with
  | nil => rfl
  | cons e entries ih => exact ih (stamp p e.1 e.2)

theorem allocateStores_quiet {stores : List (BlockId × BlockKey H)} {cpuIds : List BlockId}
    (h : s.allocateStores gpu stores = .ok (s', gpu', cpuIds)) : Quiet s gpu s' gpu' := by
  simp only [allocateStores, Raises.bind_eq_ok, Raises.pure_eq_ok, Prod.mk.injEq] at h
  obtain ⟨⟨cpu, ids⟩, hnew, gpu₁, htouch, rfl, rfl, -⟩ := h
  obtain ⟨hhash, hmap⟩ := BlockPool.touch_hashes htouch
  refine ⟨rfl, hhash, hmap, fun hs => ?_⟩
  have hcpu := getNewBlocks_silent hs hnew
  exact ⟨hcpu.1, (stamps_map _ _).trans hcpu.2⟩

theorem prepareLazyStoreSpecs_quiet {storeGpu storeCpu : List BlockId} {reqIds : List ReqId}
    (h : s.prepareLazyStoreSpecs gpu = .ok (s', gpu', storeGpu, storeCpu, reqIds)) :
    Quiet s gpu s' gpu' := by
  unfold prepareLazyStoreSpecs at h
  split at h
  · obtain ⟨rfl, heq⟩ := Prod.mk.inj (Except.ok.inj h)
    obtain ⟨rfl, -⟩ := Prod.mk.inj heq
    exact Quiet.refl s gpu
  · dsimp only at h
    split at h
    · simp only [Raises.pure_eq_ok, Prod.mk.injEq] at h
      obtain ⟨rfl, rfl, -⟩ := h
      exact Quiet.of_pools rfl rfl rfl ⟨rfl, rfl⟩
    · simp only [Raises.bind_eq_ok, Raises.pure_eq_ok, Prod.mk.injEq] at h
      obtain ⟨⟨s₁, gpu₁, ids⟩, hstore, rfl, rfl, -⟩ := h
      refine Quiet.trans ?_ (allocateStores_quiet hstore)
      exact Quiet.of_pools rfl rfl rfl ⟨rfl, rfl⟩

theorem eagerRound_quiet {scheduled : Dict ReqId Int} {acc acc' : EagerAcc H X}
    {entry : ReqId × Option (List (List BlockId)) × Bool}
    (h : eagerRound obj scheduled acc entry = .ok acc') :
    Quiet acc.sched acc.gpu acc'.sched acc'.gpu := by
  obtain ⟨reqId, newBlockIds, preempted⟩ := entry
  unfold eagerRound at h
  dsimp only at h
  cases hst : acc.sched.reqsToStore.get? reqId with
  | none =>
    rw [hst] at h
    obtain rfl := Except.ok.inj h
    exact Quiet.refl _ _
  | some st =>
    rw [hst] at h
    dsimp only at h
    split at h
    · obtain rfl := Except.ok.inj h
      exact Quiet.refl _ _
    · split at h
      · obtain rfl := Except.ok.inj h
        exact Quiet.of_pools rfl rfl rfl ⟨rfl, rfl⟩
      · split at h
        · obtain rfl := Raises.pure_eq_ok.mp h
          exact Quiet.of_pools rfl rfl rfl ⟨rfl, rfl⟩
        · simp only [Raises.bind_eq_ok, Raises.pure_eq_ok] at h
          obtain ⟨⟨s₁, gpu₁, ids⟩, hstore, rfl⟩ := h
          refine Quiet.trans ?_ ((allocateStores_quiet hstore).trans ?_)
          · exact Quiet.of_pools rfl rfl rfl ⟨rfl, rfl⟩
          · exact Quiet.of_pools rfl rfl rfl ⟨rfl, rfl⟩

theorem prepareStoreSpecs_quiet {out : SchedulerOutput} {storeGpu storeCpu : List BlockId}
    {reqIds : List ReqId}
    (h : s.prepareStoreSpecs gpu obj out = .ok (s', gpu', storeGpu, storeCpu, reqIds)) :
    Quiet s gpu s' gpu' := by
  unfold prepareStoreSpecs at h
  split at h
  · exact prepareLazyStoreSpecs_quiet h
  · simp only [prepareEagerStoreSpecs, Raises.bind_eq_ok, Raises.pure_eq_ok, Prod.mk.injEq] at h
    obtain ⟨acc, hloop, rfl, rfl, -⟩ := h
    exact Raises.foldlM_inv (I := fun a : EagerAcc H X => Quiet s gpu a.sched a.gpu) _ _ acc
      (fun e _ t t' ht hstep => ht.trans (eagerRound_quiet hstep)) (Quiet.refl s gpu) hloop

theorem buildConnectorMeta_quiet {out : SchedulerOutput} {data : OffloadMetadata}
    (h : s.buildConnectorMeta gpu obj out = .ok (s', gpu', data)) : Quiet s gpu s' gpu' := by
  simp only [buildConnectorMeta, Raises.bind_eq_ok, Raises.pure_eq_ok, Prod.mk.injEq] at h
  obtain ⟨⟨s₁, gpu₁, storeGpu, storeCpu, ids⟩, hprep, rfl, rfl, -⟩ := h
  refine (prepareStoreSpecs_quiet hprep).trans ?_
  have hstore : Quiet s₁ gpu₁ (s₁.recordStore storeGpu storeCpu ids).1 gpu₁ := by
    unfold recordStore
    split
    · exact Quiet.refl _ _
    · exact Quiet.of_pools rfl rfl rfl ⟨rfl, rfl⟩
  refine hstore.trans ?_
  unfold recordLoads
  dsimp only
  split
  · exact Quiet.refl _ _
  · exact Quiet.of_pools rfl rfl rfl ⟨rfl, rfl⟩

theorem updateStateAfterAlloc_quiet {ref : ReqRef} {blocks : List (List BlockId)} {n : Nat}
    (h : s.updateStateAfterAlloc gpu obj ref blocks n = .ok (s', gpu')) : Quiet s gpu s' gpu' := by
  unfold updateStateAfterAlloc at h
  dsimp only at h
  have hregister : ∀ reqId k, Quiet s gpu (s.registerStore ref reqId k) gpu := by
    intro reqId k
    unfold registerStore
    split
    · exact Quiet.of_pools rfl rfl rfl ⟨rfl, rfl⟩
    · exact Quiet.refl _ _
  refine (hregister (obj ref).requestId blocks.length).trans ?_
  split at h
  · obtain ⟨rfl, rfl⟩ := Prod.mk.inj (Except.ok.inj h)
    exact Quiet.refl _ _
  · simp only [startLoad, Raises.bind_eq_ok, Raises.pure_eq_ok, Prod.mk.injEq] at h
    obtain ⟨_, _, _, _, _, _, _, _, cpu, hcpu, gpu₁, hgpu, _, _, rfl, rfl⟩ := h
    exact Quiet.of_pools rfl rfl (BlockPool.touch_hashes hcpu).2 (BlockPool.touch_hashes hgpu)

omit [DecidableEq H] in
theorem cleanupLoadRequest_quiet (s : SimpleCPUOffloadScheduler H X) (gpu : BlockPool H)
    (reqId : ReqId) :
    Quiet s gpu (s.cleanupLoadRequest gpu reqId).1 (s.cleanupLoadRequest gpu reqId).2 := by
  unfold cleanupLoadRequest
  split
  · exact Quiet.refl _ _
  · exact Quiet.of_pools rfl rfl rfl ⟨rfl, rfl⟩

omit [DecidableEq H] in
theorem cleanupStoreRequest_quiet (s : SimpleCPUOffloadScheduler H X) (gpu : BlockPool H)
    (reqId : ReqId) : Quiet s gpu (s.cleanupStoreRequest reqId) gpu := by
  unfold cleanupStoreRequest
  split
  · exact Quiet.refl _ _
  · exact Quiet.of_pools rfl rfl rfl ⟨rfl, rfl⟩

omit [DecidableEq H] in
theorem requestFinished_quiet (s : SimpleCPUOffloadScheduler H X) (gpu : BlockPool H)
    (reqId : ReqId) :
    Quiet s gpu (s.requestFinished gpu reqId).1 (s.requestFinished gpu reqId).2 := by
  have hload : Quiet s gpu (s.finishLoad gpu reqId).1 (s.finishLoad gpu reqId).2 := by
    unfold finishLoad
    split
    · exact Quiet.refl _ _
    · split
      · exact Quiet.of_pools rfl rfl rfl ⟨rfl, rfl⟩
      · exact cleanupLoadRequest_quiet s gpu reqId
  refine hload.trans ?_
  show Quiet _ _ ((s.finishLoad gpu reqId).1.finishStore reqId) _
  unfold finishStore
  split
  · exact Quiet.refl _ _
  · split
    · exact Quiet.refl _ _
    · split
      · exact cleanupStoreRequest_quiet _ _ _
      · exact Quiet.of_pools rfl rfl rfl ⟨rfl, rfl⟩

/-- Reports that complete no store are only counted. The induction is on the
entries of the report, which have distinct keys. -/
theorem completeStores_quiet :
    ∀ (entries : List (Nat × Nat)) (s s' : SimpleCPUOffloadScheduler H X) (gpu gpu' : BlockPool H),
      (entries.map Prod.fst).Nodup →
      (∀ event count, (event, count) ∈ entries →
        (s.storeEventPendingCounts.get? event).getD 0 + count < s.expectedWorkerCount) →
      entries.foldlM completeStore (s, gpu) = .ok (s', gpu') → Quiet s gpu s' gpu' := by
  intro entries
  induction entries with
  | nil =>
    intro s s' gpu gpu' _ _ h
    obtain ⟨rfl, rfl⟩ := Prod.mk.inj (Raises.foldlM_nil_ok.mp h)
    exact Quiet.refl s gpu
  | cons e entries ih =>
    intro s s' gpu gpu' hnodup hlt h
    obtain ⟨event, count⟩ := e
    obtain ⟨⟨s₁, gpu₁⟩, h₁, h₂⟩ := Raises.foldlM_cons_ok.mp h
    rw [List.map_cons, List.nodup_cons] at hnodup
    have hfirst := hlt event count List.mem_cons_self
    unfold completeStore at h₁
    dsimp only at h₁
    rw [if_neg (by omega)] at h₁
    obtain ⟨rfl, rfl⟩ := Prod.mk.inj (Except.ok.inj h₁)
    refine Quiet.trans ?_ (ih _ s' _ gpu' hnodup.2 ?_ h₂)
    · exact Quiet.of_pools rfl rfl rfl ⟨rfl, rfl⟩
    intro event' count' hmem
    have hne : event' ≠ event := by
      intro heq
      exact hnodup.1 (List.mem_map.mpr ⟨(event', count'), hmem, heq⟩)
    show ((s.storeEventPendingCounts.set event _).get? event').getD 0 + count' < _
    rw [Dict.get?_set_ne _ _ hne]
    exact hlt event' count' (List.mem_cons_of_mem _ hmem)

omit [DecidableEq H] in
/-- The loads that ended leave the pending stores alone. -/
theorem cleanupLoads_spec (reqIds : List ReqId) :
    ∀ (s : SimpleCPUOffloadScheduler H X) (gpu : BlockPool H) {acc},
      reqIds.foldl (fun acc reqId => acc.1.cleanupLoadRequest acc.2 reqId) (s, gpu) = acc →
      Quiet s gpu acc.1 acc.2 ∧ acc.1.storeEventPendingCounts = s.storeEventPendingCounts ∧
        acc.1.expectedWorkerCount = s.expectedWorkerCount := by
  induction reqIds with
  | nil =>
    intro s gpu acc h
    subst h
    exact ⟨Quiet.refl s gpu, rfl, rfl⟩
  | cons reqId reqIds ih =>
    intro s gpu acc h
    obtain ⟨hquiet, hpending, hworkers⟩ := ih _ _ h
    have hfields : (s.cleanupLoadRequest gpu reqId).1.storeEventPendingCounts
          = s.storeEventPendingCounts ∧
        (s.cleanupLoadRequest gpu reqId).1.expectedWorkerCount = s.expectedWorkerCount := by
      unfold cleanupLoadRequest
      split
      · exact ⟨rfl, rfl⟩
      · exact ⟨rfl, rfl⟩
    exact ⟨(cleanupLoadRequest_quiet s gpu reqId).trans hquiet, hpending.trans hfields.1,
      hworkers.trans hfields.2⟩

theorem updateConnectorOutput_quiet {out : OffloadConnectorOutput}
    (hlt : ∀ event count, (event, count) ∈ out.completedStoreEvents.entries → (s.storeEventPendingCounts.get? event).getD 0 + count < s.expectedWorkerCount)
    (h : s.updateConnectorOutput gpu out = .ok (s', gpu')) : Quiet s gpu s' gpu' := by
  unfold updateConnectorOutput at h
  dsimp only at h
  generalize hacc : out.finishedRecving.foldl
    (fun acc reqId => acc.1.cleanupLoadRequest acc.2 reqId) (s, gpu) = acc at h
  obtain ⟨hquiet, hpending, hworkers⟩ := cleanupLoads_spec out.finishedRecving s gpu hacc
  obtain ⟨s₁, gpu₁⟩ := acc
  refine hquiet.trans (completeStores_quiet _ s₁ s' gpu₁ gpu' out.completedStoreEvents.nodup ?_ h)
  dsimp only at hpending hworkers
  rw [hpending, hworkers]
  exact hlt

/-! ## Runs -/

section Runs

variable [DecidableEq X]

/-- The stream is up to date but for what the GPU pool has queued, and the CPU
pool has neither entries nor events. -/
structure Tracked (s : PoolsState H X) : Prop where
  enabled : s.offload.events.enableKvCacheEvents = true
  consistent : s.gpu.pool.Consistent
  silent : Silent s.offload.cpuBlockPool
  stream : Mirror.replay 0 (s.published ++ s.gpu.kvEventQueue)
    = some (EventPool.registered s.offload.events .gpu s.gpu.pool)

/-- A quiet call of the offload scheduler. -/
theorem Tracked.offload {s : PoolsState H X} (h : Tracked s)
    (res : SimpleCPUOffloadScheduler H X × BlockPool H)
    (hq : Quiet s.offload s.gpu.pool res.1 res.2) : Tracked (s.setOffload res) := by
  refine ⟨?_, h.consistent.congr ⟨hq.gpuHash, hq.gpuMap⟩, hq.silent h.silent, ?_⟩
  · show res.1.events.enableKvCacheEvents = true
    rw [hq.events]
    exact h.enabled
  · show Mirror.replay 0 (s.published ++ s.gpu.kvEventQueue)
      = some (EventPool.registered res.1.events .gpu res.2)
    rw [h.stream, hq.events, EventPool.registered, EventPool.registered, hq.gpuMap]

theorem Tracked.published {s : PoolsState H X} (h : Tracked s) :
    s.published ++ s.gpu.takeEvents.2 ++ s.offload.cpuBlockPool.takeEvents.2
      = s.published ++ s.gpu.kvEventQueue := by
  show s.published ++ s.gpu.kvEventQueue ++ s.offload.cpuBlockPool.kvEventQueue = _
  rw [h.silent.1, List.append_nil]

/-- **One step.** -/
theorem tracked_step {s s' : PoolsState H X} {op : PoolsOp H} (h : Tracked s)
    (hguard : CompletesNoStore s op) (hstep : s.step op = .ok s') : Tracked s' := by
  cases op with
  | gpuCall op =>
    simp only [PoolsState.step, Raises.bind_eq_ok, Raises.pure_eq_ok] at hstep
    obtain ⟨gpu, hgpu, rfl⟩ := hstep
    obtain ⟨hok, events, hqueue, hreplay⟩ := EventPool.poolStep_follows h.enabled hgpu h.consistent
    refine ⟨h.enabled, hok, h.silent, ?_⟩
    show Mirror.replay 0 (s.published ++ gpu.kvEventQueue) = _
    rw [hqueue, ← List.append_assoc, Mirror.replay_append, h.stream]
    exact hreplay
  | updateStateAfterAlloc obj ref blocks n =>
    simp only [PoolsState.step, Raises.bind_eq_ok, Raises.pure_eq_ok] at hstep
    obtain ⟨res, hres, rfl⟩ := hstep
    exact h.offload res (updateStateAfterAlloc_quiet hres)
  | buildConnectorMeta obj out =>
    simp only [PoolsState.step, Raises.bind_eq_ok, Raises.pure_eq_ok] at hstep
    obtain ⟨⟨o, gpu, data⟩, hres, rfl⟩ := hstep
    exact h.offload (o, gpu) (buildConnectorMeta_quiet hres)
  | updateConnectorOutput out =>
    simp only [PoolsState.step, Raises.bind_eq_ok, Raises.pure_eq_ok] at hstep
    obtain ⟨res, hres, rfl⟩ := hstep
    exact h.offload res (updateConnectorOutput_quiet hguard hres)
  | requestFinished reqId =>
    obtain rfl := Except.ok.inj hstep
    exact h.offload _ (requestFinished_quiet _ _ _)
  | takeEvents =>
    obtain rfl := Except.ok.inj hstep
    refine ⟨h.enabled, h.consistent, ⟨rfl, h.silent.2⟩, ?_⟩
    show Mirror.replay 0 (s.published ++ s.gpu.takeEvents.2 ++ s.offload.cpuBlockPool.takeEvents.2
      ++ []) = _
    rw [List.append_nil, h.published]
    exact h.stream

/-- The stream removes no absent entry, and once the events are taken it has
exactly the blocks in the hash maps. -/
def Replays (s : PoolsState H X) : Prop :=
  (∃ m, Mirror.replay 0 s.published = some m) ∧
    ∀ s', s.step .takeEvents = .ok s' → Mirror.replay 0 s'.published = some s'.registered

theorem Tracked.replays {s : PoolsState H X} (h : Tracked s) : Replays s := by
  constructor
  · have hstream := h.stream
    rw [Mirror.replay_append] at hstream
    cases hm : Mirror.replay 0 s.published with
    | none => rw [hm] at hstream; cases hstream
    | some m => exact ⟨m, rfl⟩
  · intro s' hstep
    have hguard : CompletesNoStore s .takeEvents := trivial
    have h' := tracked_step h hguard hstep
    obtain rfl := Except.ok.inj hstep
    have hcpu : EventPool.registered s.offload.events .cpu s.offload.cpuBlockPool.pool = 0 := by
      rw [EventPool.registered, h.silent.2]
      rfl
    show _ = some (EventPool.registered s.offload.events .gpu s.gpu.pool
      + EventPool.registered s.offload.events .cpu s.offload.cpuBlockPool.pool)
    rw [hcpu, add_zero]
    have hstream := h'.stream
    dsimp only at hstream
    rw [List.append_nil] at hstream
    exact hstream

omit [DecidableEq H] in
theorem initManagers_hashes {caching : Bool} :
    ∀ (specs : List KVCacheSpec) (i : GroupId) {p p' : BlockPool H}
      {ms : List (SingleTypeManager H)},
      KVCacheCoordinator.initManagers caching i p specs = .ok (p', ms) →
      p'.blockHash = p.blockHash ∧ p'.cachedBlockHashToBlock = p.cachedBlockHashToBlock := by
  intro specs
  induction specs with
  | nil =>
    intro i p p' ms h
    obtain ⟨rfl, -⟩ := Prod.mk.inj (Except.ok.inj h)
    exact ⟨rfl, rfl⟩
  | cons spec specs ih =>
    intro i p p' ms h
    simp only [KVCacheCoordinator.initManagers, Raises.bind_eq_ok, Raises.pure_eq_ok,
      Prod.mk.injEq] at h
    obtain ⟨⟨p₁, m⟩, hm, ⟨p₂, ms₁⟩, hms, rfl, -⟩ := h
    obtain ⟨hhash, hmap⟩ := ih (i + 1) hms
    have hone : p₁.blockHash = p.blockHash ∧
        p₁.cachedBlockHashToBlock = p.cachedBlockHashToBlock := by
      unfold SingleTypeManager.init at hm
      dsimp only at hm
      split at hm
      · simp only [Raises.bind_eq_ok, Raises.pure_eq_ok, Prod.mk.injEq] at hm
        obtain ⟨_, _, ⟨q, bs⟩, hpop, rfl, -⟩ := hm
        exact BlockPool.popleftN_hashes hpop
      · obtain ⟨rfl, -⟩ := Prod.mk.inj (Except.ok.inj hm)
        exact ⟨rfl, rfl⟩
    exact ⟨hhash.trans hone.1, hmap.trans hone.2⟩

omit [DecidableEq H] in
/-- A new coordinator's pool has no hashes. -/
theorem coordinator_init_hashes {specs : List KVCacheSpec} {numBlocks size : Nat}
    {useEagle caching : Bool} {c : KVCacheCoordinator H}
    (h : KVCacheCoordinator.init specs numBlocks useEagle caching size = .ok c) :
    c.blockPool.blockHash = (fun _ => none) ∧ c.blockPool.cachedBlockHashToBlock = Dict.empty := by
  simp only [KVCacheCoordinator.init, Raises.bind_eq_ok, Raises.pure_eq_ok] at h
  obtain ⟨pool, hpool, ⟨pool', ms⟩, hms, kind, -, rfl⟩ := h
  obtain ⟨hhash, hmap⟩ := initManagers_hashes specs 0 hms
  unfold BlockPool.init at hpool
  split at hpool
  · cases hpool
  · obtain rfl := Except.ok.inj hpool
    exact ⟨hhash, hmap⟩

theorem init_tracked {cfg : EventSettings H X} {specs : List KVCacheSpec}
    {numGpuBlocks cpuCapacityBytes gpuTotalBytes blockSize maxNumBatchedTokens worldSize : Nat}
    {useEagle lazyOffload : Bool} {s : PoolsState H X} (hon : cfg.enableKvCacheEvents = true)
    (h : PoolsState.init cfg specs numGpuBlocks cpuCapacityBytes gpuTotalBytes blockSize
      maxNumBatchedTokens worldSize useEagle lazyOffload = .ok s) : Tracked s := by
  simp only [PoolsState.init, SimpleCPUOffloadScheduler.init, Raises.bind_eq_ok,
    Raises.pure_eq_ok] at h
  obtain ⟨c, hc, o, ⟨_, _, c', hc', rfl⟩, rfl⟩ := h
  obtain ⟨hhash, hmap⟩ := coordinator_init_hashes hc
  refine ⟨hon, ?_, ⟨rfl, (coordinator_init_hashes hc').2⟩, ?_⟩
  · show BlockPool.MapOk c.blockPool.blockHash c.blockPool.cachedBlockHashToBlock
    rw [hhash, hmap]
    exact BlockPool.MapOk.empty
  · show some 0 = some (registeredIn cfg.maybeConvertBlockHash .gpu
      c.blockPool.cachedBlockHashToBlock)
    rw [hmap]
    rfl

/-- **Event replay.** In every run of the two pools in which no store into CPU
memory completes, the published stream removes no absent entry, and whenever
the events are taken the mirror has exactly the blocks in the hash maps. -/
theorem replay_run {cfg : EventSettings H X} {specs : List KVCacheSpec}
    {numGpuBlocks cpuCapacityBytes gpuTotalBytes blockSize maxNumBatchedTokens worldSize : Nat}
    {useEagle lazyOffload : Bool} {s₀ s : PoolsState H X} {ops : List (PoolsOp H)}
    (hon : cfg.enableKvCacheEvents = true)
    (hinit : PoolsState.init cfg specs numGpuBlocks cpuCapacityBytes gpuTotalBytes blockSize
      maxNumBatchedTokens worldSize useEagle lazyOffload = .ok s₀)
    (hguard : Run.Guarded PoolsState.step CompletesNoStore s₀ ops)
    (hrun : Run.exec PoolsState.step s₀ ops = .ok s) : Replays s :=
  (Run.exec_inv (fun _ _ _ hs hg hstep => tracked_step hs hg hstep) ops s₀ s
    (init_tracked hon hinit) hguard hrun).replays

end Runs

/-! ## One store -/

/-- Events with the digests themselves. -/
def digestEvents : EventSettings Digest (List Digest) where
  enableKvCacheEvents := true
  hasher := freeHasher 4
  maybeConvertBlockHash := id

/-- A step that scheduled nothing. -/
def idleOutput : SchedulerOutput where
  scheduledNewReqs := []
  scheduledCachedReqs := ⟨[], [], [], Dict.empty, [], [], []⟩
  numScheduledTokens := Dict.empty
  totalNumScheduledTokens := 0
  scheduledSpecDecodeTokens := Dict.empty
  scheduledEncoderInputs := Dict.empty
  preemptedReqIds := []
  finishedReqIds := []
  freeEncoderMmHashes := []
  newBlockIdsToZero := none
  hasStructuredOutputRequests := false
  pendingStructuredOutputTokens := false

/-- A request of five tokens, in blocks of four. -/
def fiveTokens : Request Digest :=
  Request.updateBlockHashes (some (freeHasher 4))
    (Request.fresh (plainPrompt "a" [1, 2, 3, 4, 5]) 5 16 .waiting)

/-- A request fills a block, which is cached and freed, and the next step stores
it in CPU memory. -/
def storeOps : List (PoolsOp Digest) :=
  [.gpuCall (.getNewBlocks 1), .gpuCall (.cacheFullBlocks fiveTokens [1] 0 1 4 0),
    .gpuCall (.freeBlocks [1]), .buildConnectorMeta (fun _ => fiveTokens) idleOutput]

/-- All workers report the store. -/
def storeCompletes : PoolsOp Digest :=
  .updateConnectorOutput ⟨[], Dict.empty.set 0 1⟩

/-- One full-attention group, four blocks on each side, in lazy mode. -/
def lazyPools : Except Python.Error (PoolsState Digest (List Digest)) :=
  PoolsState.init digestEvents [fullSpec 4 1] 4 4 4 4 8 1 false true

theorem storeOps_replay : ∃ s₀ s, lazyPools = .ok s₀ ∧
    Run.exec PoolsState.step s₀ storeOps = .ok s ∧ Replays s := by
  obtain ⟨s, hrun⟩ := Raises.exists_of_isOk
    (x := lazyPools >>= fun s₀ => Run.exec PoolsState.step s₀ storeOps) (by decide +kernel)
  obtain ⟨s₀, hinit, hexec⟩ := Raises.bind_eq_ok.mp hrun
  refine ⟨s₀, s, hinit, hexec, replay_run rfl hinit ?_ hexec⟩
  have hmem : Run.Guarded PoolsState.step (fun _ op => op ∈ storeOps ∧ True) s₀ storeOps :=
    Run.Guarded.and_mem storeOps s₀ (fun op hop => hop)
      (Run.Guarded.of_forall (fun _ _ => trivial) storeOps s₀)
  refine Run.Guarded.mono (fun s op hop => ?_) _ _ hmem
  -- none of the calls reports a store
  have hop' := hop.1
  simp only [storeOps, List.mem_cons, List.not_mem_nil, or_false] at hop'
  rcases hop' with rfl | rfl | rfl | rfl <;> trivial

/-- Once the store completes the CPU pool has a block of which the stream says
nothing. -/
theorem completed_store_unpublished :
    ¬ ∀ (cfg : EventSettings Digest (List Digest)) (specs : List KVCacheSpec)
      (numGpuBlocks cpuCapacityBytes gpuTotalBytes blockSize maxNumBatchedTokens worldSize : Nat)
      (useEagle lazyOffload : Bool) (s₀ s : PoolsState Digest (List Digest))
      (ops : List (PoolsOp Digest)), cfg.enableKvCacheEvents = true →
      PoolsState.init cfg specs numGpuBlocks cpuCapacityBytes gpuTotalBytes blockSize
        maxNumBatchedTokens worldSize useEagle lazyOffload = .ok s₀ →
      Run.exec PoolsState.step s₀ ops = .ok s → Replays s := by
  intro hall
  have hval : (lazyPools >>= fun s₀ => Run.exec PoolsState.step s₀ (storeOps ++ [storeCompletes])
      >>= fun s => s.step .takeEvents).toOption.map
        (fun s => ((Mirror.replay 0 s.published).map Multiset.card, Multiset.card s.registered))
      = some (some 1, 2) := by decide +kernel
  cases hrun : (lazyPools >>= fun s₀ => Run.exec PoolsState.step s₀ (storeOps ++ [storeCompletes])
      >>= fun s => s.step .takeEvents) with
  | error e => rw [hrun] at hval; cases hval
  | ok s' =>
    rw [hrun] at hval
    obtain ⟨hstream, hmaps⟩ := Prod.mk.inj (Option.some.inj hval)
    obtain ⟨s₀, hinit, hrest⟩ := Raises.bind_eq_ok.mp hrun
    obtain ⟨s, hexec, htake⟩ := Raises.bind_eq_ok.mp hrest
    have hreplays := hall digestEvents [fullSpec 4 1] 4 4 4 4 8 1 false true s₀ s
      (storeOps ++ [storeCompletes]) rfl hinit hexec
    rw [hreplays.2 s' htake, Option.map_some, hmaps] at hstream
    exact absurd hstream (by decide)

end VllmEngine
