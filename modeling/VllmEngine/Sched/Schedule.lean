import VllmEngine.Sched.Running

/-!
# Scheduling the waiting requests

The second half of `Scheduler.schedule` (`vllm/v1/core/sched/scheduler.py`): the
waiting requests, unless something was preempted, then the `SchedulerOutput`
and `_update_after_schedule`.

Mirroring notes:
- A round of the waiting loop is cut into stages. `continue` and `break` are the
  values `skip` and `stop` of a stage's `Verdict`.
- The assertion of the prefill statistics is left out with them.
-/

namespace VllmEngine

variable {H : Type} [DecidableEq H]

/-- What a stage of the waiting loop decides: go on, skip the request, or stop
the loop. -/
inductive Verdict (α : Type)
  | proceed (a : α)
  | skip
  | stop

/-- The two queues that the waiting loop draws from. -/
inductive WaitingQueue
  | waiting
  | skippedWaiting
deriving DecidableEq, Repr

namespace Scheduler

/-- The contents of a queue. -/
def queue (s : Scheduler H) : WaitingQueue → RequestQueue
  | .waiting => s.waiting
  | .skippedWaiting => s.skippedWaiting

def setQueue (s : Scheduler H) (q : RequestQueue) : WaitingQueue → Scheduler H
  | .waiting => { s with waiting := q }
  | .skippedWaiting => { s with skippedWaiting := q }

/-- `_select_waiting_queue_for_scheduling`. -/
def selectWaitingQueueForScheduling (cfg : SchedulerConfig H) (s : Scheduler H) :
    Option WaitingQueue :=
  match cfg.policy, s.waiting.head?, s.skippedWaiting.head? with
  | _, none, none => none
  | _, some _, none => some .waiting
  | _, none, some _ => some .skippedWaiting
  | .fcfs, some _, some _ => some .skippedWaiting
  | .priority, some waitingReq, some skippedReq =>
    some (if s.lt cfg waitingReq skippedReq then .waiting else .skippedWaiting)

/-! ## Blocked requests -/

/-- Cache the blocks that a finished transfer has filled, or release them if
none of it is valid. -/
def settleRecvedBlocks (s : Scheduler H) (ref : ReqRef) : Except Python.Error (Scheduler H) :=
  let r := s.obj ref
  if r.requestId ∈ s.failedRecvingKvReqIds then do
    let kv ← (if r.numComputedTokens ≠ 0 then s.kvCacheManager.cacheBlocks r r.numComputedTokens
      else s.kvCacheManager.free r.requestId)
    return { s with
      kvCacheManager := kv
      failedRecvingKvReqIds := s.failedRecvingKvReqIds.filter fun id => decide (id ≠ r.requestId) }
  else do
    let kv ← s.kvCacheManager.cacheBlocks r r.numComputedTokens
    let s := { s with kvCacheManager := kv }
    -- on a full prompt hit the last token is recomputed
    return if r.numComputedTokens = r.numTokens then
      s.modify ref fun r => { r with numComputedTokens := (r.numTokens : Int) - 1 }
    else s

/-- `_update_waiting_for_remote_kv`. -/
def updateWaitingForRemoteKv (cfg : SchedulerConfig H) (s : Scheduler H) (ref : ReqRef) :
    Except Python.Error (Scheduler H) := do
  Python.require cfg.connector.isSome ""
  let s ← s.settleRecvedBlocks ref
  return { s with finishedRecvingKvReqIds :=
    s.finishedRecvingKvReqIds.filter fun id => decide (id ≠ (s.obj ref).requestId) }

/-- `_try_promote_blocked_waiting_request`. -/
def tryPromoteBlockedWaitingRequest (cfg : SchedulerConfig H) (env : ScheduleEnv) (round : Nat)
    (s : Scheduler H) (ref : ReqRef) : Except Python.Error (Scheduler H × Bool) :=
  match (s.obj ref).status with
  | .waitingForRemoteKvs =>
    if (s.obj ref).requestId ∈ s.finishedRecvingKvReqIds then do
      let s ← s.updateWaitingForRemoteKv cfg ref
      return (s.modify ref fun r =>
        { r with status := if r.numPreemptions ≠ 0 then .preempted else .waiting }, true)
    else .ok (s, false)
  | .waitingForStructuredOutputGrammar =>
    if env.grammarReady round then .ok (s.modify ref fun r => { r with status := .waiting }, true)
    else .ok (s, false)
  | .waitingForStreamingReq => do
    Python.require (decide ((s.obj ref).streamingQueue.getD [] = [])) ""
    return (s, false)
  | _ => .error (.assertion "Unexpected blocked waiting status in promotion")

/-- Scheduling the request would exceed `max_loras`. -/
def exceedsMaxLoras (cfg : SchedulerConfig H) (p : Pass) (r : Request H) : Bool :=
  match cfg.maxLoras, r.loraRequest with
  | some maxLoras, some lora =>
    decide (p.scheduledLoras.length = maxLoras ∧ lora.loraIntId ∉ p.scheduledLoras)
  | _, _ => false

/-! ## How many tokens a waiting request gets -/

/-- The tokens of a waiting request that are computed already. -/
structure ComputedTokens where
  newComputedBlocks : List (List BlockId)
  numNewLocalComputedTokens : Nat
  numExternalComputedTokens : Nat
  loadKvAsync : Bool
  numComputedTokens : Int

/-- Local and external hits together. -/
def totalComputed (r : Request H) (blocks : List (List BlockId)) (numLocal numExternal : Nat)
    (loadKvAsync : Bool) : Except Python.Error (Verdict ComputedTokens) := do
  Python.require (decide (numLocal + numExternal ≤ r.numTokens)) ""
  return .proceed
    { newComputedBlocks := blocks
      numNewLocalComputedTokens := numLocal
      numExternalComputedTokens := numExternal
      loadKvAsync := loadKvAsync
      numComputedTokens := (numLocal : Int) + numExternal }

/-- Look up the cached tokens, locally and in the connector. A request that has
computed tokens (after a transfer, or as a session) keeps them. -/
def findComputedTokens (cfg : SchedulerConfig H) (env : ScheduleEnv) (round : Nat)
    (s : Scheduler H) (ref : ReqRef) : Except Python.Error (Verdict ComputedTokens) :=
  let r := s.obj ref
  if r.numComputedTokens = 0 then do
    let (blocks, numLocal) ← s.kvCacheManager.getComputedBlocks r
    match cfg.connector with
    | none => totalComputed r blocks numLocal 0 false
    | some _ =>
      match env.getNumNewMatchedTokens round numLocal with
      | (none, _) => return .skip
      | (some extTokens, loadKvAsync) => totalComputed r blocks numLocal extTokens loadKvAsync
  else
    .ok (.proceed
      { newComputedBlocks := s.kvCacheManager.emptyKvCacheBlocks
        numNewLocalComputedTokens := 0
        numExternalComputedTokens := 0
        loadKvAsync := false
        numComputedTokens := r.numComputedTokens })

/-- `num_new_tokens` and the encoder inputs; `none` stops the loop. -/
def planWaiting (cfg : SchedulerConfig H) (env : ScheduleEnv) (s : Scheduler H) (p : Pass)
    (ref : ReqRef) (c : ComputedTokens) :
    Except Python.Error (Scheduler H × Option EncoderPlan) :=
  let r := s.obj ref
  if c.loadKvAsync then do
    Python.require (decide (c.numExternalComputedTokens > 0)) ""
    return (s, some (.nothing s.encoderCacheManager 0 p.encoderComputeBudget))
  else
    let numNewTokens := capPrefill cfg (r.numTokens - c.numComputedTokens)
    if !cfg.enableChunkedPrefill ∧ numNewTokens > p.tokenBudget then .ok (s, none)
    else do
      let numNewTokens := min numNewTokens p.tokenBudget
      Python.require (decide (numNewTokens > 0)) ""
      let plan ← s.tryScheduleEncoderInputs cfg env ref c.numComputedTokens numNewTokens
        p.encoderComputeBudget
      let s := { s with encoderCacheManager := plan.manager }
      return (s, if r.hasEncoderInputs && decide (plan.numNewTokens = 0) then none else some plan)

/-- The block-aligned split for a waiting request; `none` stops the loop. -/
def alignWaiting (cfg : SchedulerConfig H) (r : Request H) (c : ComputedTokens)
    (numNewTokens : Int) : Except Python.Error (Option Int) :=
  if cfg.needMambaBlockAlignedSplit then do
    let n ← mambaBlockAlignedSplit cfg r numNewTokens c.numNewLocalComputedTokens
      c.numExternalComputedTokens
    return if n = 0 then none else some n
  else .ok (some numNewTokens)

/-- The arguments of `allocate_slots` for a waiting request. -/
def waitingSlotArgs (cfg : SchedulerConfig H) (r : Request H) (c : ComputedTokens)
    (numNewTokens : Int) (plan : EncoderPlan) : KVCacheManager.SlotArgs :=
  { numNewTokens := numNewTokens
    numNewComputedTokens := c.numNewLocalComputedTokens
    newComputedBlocks := c.newComputedBlocks
    numLookaheadTokens := if r.numComputedTokens = 0 then 0 else cfg.numLookaheadTokens
    numExternalComputedTokens := c.numExternalComputedTokens
    delayCacheBlocks := c.loadKvAsync
    numEncoderTokens :=
      if cfg.isEncoderDecoder ∧ r.hasEncoderInputs then
        (plan.encoderInputsToSchedule.map r.getNumEncoderEmbeds).sum
      else 0 }

/-- `scheduler_reserve_full_isl and not can_fit_full_sequence(...)`. -/
def cannotFit (cfg : SchedulerConfig H) (s : Scheduler H) (ref : ReqRef)
    (a : KVCacheManager.SlotArgs) : Except Python.Error Bool :=
  if cfg.schedulerReserveFullIsl then do
    let fits ← s.kvCacheManager.canFitFullSequence (s.obj ref) a
    return !fits
  else .ok false

/-- Give up on the request's encoder inputs. -/
def dropEncoder (cfg : SchedulerConfig H) (s : Scheduler H) (ref : ReqRef) : Scheduler H :=
  if (s.obj ref).hasEncoderInputs then s.freeEncoder cfg ref else s

/-- Reserve the blocks; `false` stops the loop. -/
def reserveWaiting (cfg : SchedulerConfig H) (s : Scheduler H) (ref : ReqRef)
    (a : KVCacheManager.SlotArgs) : Except Python.Error (Scheduler H × Bool) := do
  let tooLong ← s.cannotFit cfg ref a
  if tooLong then return (s.dropEncoder cfg ref, false)
  else
    let (kv, newBlocks) ← s.kvCacheManager.allocateSlots (s.obj ref) a
    let s := { s with kvCacheManager := kv }
    match newBlocks with
    | none => return (s.dropEncoder cfg ref, false)
    | some _ => return (s, true)

/-! ## One round -/

/-- `request_queue.pop_request(); step_skipped_waiting.prepend_request(request)`. -/
def skipRequest (cfg : SchedulerConfig H) (s : Scheduler H) (p : Pass) (q : WaitingQueue)
    (ref : ReqRef) : Except Python.Error (Scheduler H × Pass) := do
  let (_, rest) ← RequestQueue.popRequest cfg.policy (s.lt cfg) (s.queue q)
  let skipped := RequestQueue.prependRequest cfg.policy (s.lt cfg) p.stepSkippedWaiting ref
  return (s.setQueue rest q, { p with stepSkippedWaiting := skipped })

/-- Whether the request may be scheduled in this round. -/
def examineWaiting (cfg : SchedulerConfig H) (env : ScheduleEnv) (round : Nat) (s : Scheduler H)
    (p : Pass) (ref : ReqRef) : Except Python.Error (Scheduler H × Verdict ComputedTokens) := do
  let (s, promoted) ← (if isBlockedWaitingStatus (s.obj ref).status then
      s.tryPromoteBlockedWaitingRequest cfg env round ref
    else .ok (s, true))
  if !promoted then return (s, .skip)
  else if exceedsMaxLoras cfg p (s.obj ref) then return (s, .skip)
  else do
    let v ← s.findComputedTokens cfg env round ref
    return (s, v)

/-- The new tokens and encoder inputs of a request, its blocks reserved; `none`
stops the loop. -/
def prepareWaiting (cfg : SchedulerConfig H) (env : ScheduleEnv) (s : Scheduler H) (p : Pass)
    (ref : ReqRef) (c : ComputedTokens) :
    Except Python.Error (Scheduler H × Option (Int × EncoderPlan)) := do
  let (s, plan) ← s.planWaiting cfg env p ref c
  match plan with
  | none => return (s, none)
  | some plan =>
    let aligned ← alignWaiting cfg (s.obj ref) c plan.numNewTokens
    match aligned with
    | none => return (s, none)
    | some numNewTokens =>
      let (s, reserved) ← s.reserveWaiting cfg ref
        (waitingSlotArgs cfg (s.obj ref) c numNewTokens plan)
      return (s, if reserved then some (numNewTokens, plan) else none)

/-- Leave a request to an asynchronous transfer. -/
def awaitRemoteKvs (cfg : SchedulerConfig H) (s : Scheduler H) (p : Pass) (ref : ReqRef)
    (c : ComputedTokens) : Scheduler H × Pass :=
  let s := s.modify ref fun r => { r with status := .waitingForRemoteKvs }
  let skipped := RequestQueue.prependRequest cfg.policy (s.lt cfg) p.stepSkippedWaiting ref
  (s.modify ref fun r => { r with numComputedTokens := c.numComputedTokens },
    { p with stepSkippedWaiting := skipped })

/-- File the request under the new or the resumed ones. -/
def fileScheduled (p : Pass) (ref : ReqRef) (status : RequestStatus) : Except Python.Error Pass :=
  match status with
  | .waiting => .ok { p with scheduledNewReqs := p.scheduledNewReqs ++ [ref] }
  | .preempted => .ok { p with scheduledResumedReqs := p.scheduledResumedReqs ++ [ref] }
  | _ => .error (.runtime "Invalid request status")

/-- `scheduled_loras.add(request.lora_request.lora_int_id)`. -/
def addLora (cfg : SchedulerConfig H) (p : Pass) (r : Request H) : Pass :=
  match cfg.maxLoras, r.loraRequest with
  | some _, some lora =>
    { p with scheduledLoras :=
        if lora.loraIntId ∈ p.scheduledLoras then p.scheduledLoras
        else p.scheduledLoras ++ [lora.loraIntId] }
  | _, _ => p

/-- Move the request to the running list and into the output. -/
def commitWaiting (cfg : SchedulerConfig H) (s : Scheduler H) (p : Pass) (ref : ReqRef)
    (c : ComputedTokens) (numNewTokens : Int) (plan : EncoderPlan) :
    Except Python.Error (Scheduler H × Pass) := do
  let reqId := (s.obj ref).requestId
  let s := { s with running := s.running ++ [ref] }
  let p ← fileScheduled p ref (s.obj ref).status
  let p := addLora cfg p (s.obj ref)
  let p := { p with
    reqToNewBlocks := p.reqToNewBlocks.set reqId (s.kvCacheManager.getBlocks reqId)
    numScheduledTokens := p.numScheduledTokens.set reqId numNewTokens
    tokenBudget := p.tokenBudget - numNewTokens }
  let s := s.modify ref fun r =>
    { r with status := .running, numComputedTokens := c.numComputedTokens }
  let (s, p) ← s.commitEncoderInputs p ref plan
  let s ← s.allocateEncoderInputs ref plan.externalLoadEncoderInput
  return (s, p)

/-- The end of a round: pop the request, and schedule it or leave it to the
transfer. -/
def takeWaiting (cfg : SchedulerConfig H) (s : Scheduler H) (p : Pass) (q : WaitingQueue)
    (c : ComputedTokens) (numNewTokens : Int) (plan : EncoderPlan) :
    Except Python.Error (Scheduler H × Pass) := do
  let (ref, rest) ← RequestQueue.popRequest cfg.policy (s.lt cfg) (s.queue q)
  let s := s.setQueue rest q
  if c.loadKvAsync then return s.awaitRemoteKvs cfg p ref c
  else s.commitWaiting cfg p ref c numNewTokens plan

/-- One round of the waiting loop; the Boolean says whether it goes on. -/
def scheduleWaiting (cfg : SchedulerConfig H) (env : ScheduleEnv) (round : Nat) (s : Scheduler H)
    (p : Pass) (q : WaitingQueue) : Except Python.Error (Scheduler H × Pass × Bool) := do
  let ref ← RequestQueue.peekRequest cfg.policy (s.queue q)
  let (s, v) ← s.examineWaiting cfg env round p ref
  match v with
  | .stop => return (s, p, false)
  | .skip =>
    let (s, p) ← s.skipRequest cfg p q ref
    return (s, p, true)
  | .proceed c =>
    let (s, prepared) ← s.prepareWaiting cfg env p ref c
    match prepared with
    | none => return (s, p, false)
    | some (numNewTokens, plan) =>
      let (s, p) ← s.takeWaiting cfg p q c numNewTokens plan
      return (s, p, true)

/-- The loop over the waiting requests. Every round that does not end it pops
one request. -/
def waitingLoop (cfg : SchedulerConfig H) (env : ScheduleEnv) :
    Nat → Scheduler H → Pass → Except Python.Error (Scheduler H × Pass)
  | 0, s, p => .ok (s, p)
  | bound + 1, s, p =>
    match s.selectWaitingQueueForScheduling cfg with
    | none => .ok (s, p)
    | some q =>
      if p.tokenBudget > 0 ∧ s.running.length ≠ cfg.maxNumRunningReqs then do
        let (s, p, go) ← s.scheduleWaiting cfg env bound p q
        if go then waitingLoop cfg env bound s p else return (s, p)
      else .ok (s, p)

/-- The waiting pass, with the skipped requests put back at its end. -/
def waitingPass (cfg : SchedulerConfig H) (env : ScheduleEnv) (s : Scheduler H) (p : Pass) :
    Except Python.Error (Scheduler H × Pass) :=
  if p.preemptedReqs = [] ∧ s.pauseState = .unpaused then do
    let (s, p) ← waitingLoop cfg env (s.waiting.length + s.skippedWaiting.length) s p
    let skipped :=
      RequestQueue.prependRequests cfg.policy (s.lt cfg) s.skippedWaiting p.stepSkippedWaiting
    return ({ s with skippedWaiting := skipped }, p)
  else .ok (s, p)

/-! ## The output -/

/-- `req_to_new_blocks[req_id]`. -/
def newBlocksOf (p : Pass) (reqId : ReqId) : Except Python.Error (List (List BlockId)) :=
  match p.reqToNewBlocks.get? reqId with
  | some blocks => .ok blocks
  | none => .error (.key reqId)

/-- `NewRequestData.from_request`. -/
def newRequestData (cfg : SchedulerConfig H) (s : Scheduler H) (p : Pass) (ref : ReqRef) :
    Except Python.Error NewRequestData := do
  let r := s.obj ref
  let blockIds ← newBlocksOf p r.requestId
  return { reqId := r.requestId
           promptTokenIds := r.promptTokenIds
           mmFeatures := r.mmFeatures
           blockIds := blockIds
           numComputedTokens := r.numComputedTokens
           prefillTokenIds := if cfg.useV2ModelRunner then some r.allTokenIds else none }

/-- One round of `_make_cached_request_data`; `resumed` says whether the request
stands behind the running ones. -/
def addCachedRequest (cfg : SchedulerConfig H) (s : Scheduler H) (p : Pass)
    (d : CachedRequestData) (entry : ReqRef × Bool) : Except Python.Error CachedRequestData := do
  let (ref, resumed) := entry
  let r := s.obj ref
  let numTokens : Int := (p.numScheduledTokens.get? r.requestId).getD 0 -
    ((p.scheduledSpecDecodeTokens.get? r.requestId).getD []).length
  let newTokenIds :=
    if cfg.usePp && !cfg.asyncScheduling then
      d.newTokenIds ++ [Python.slice r.allTokenIds r.numComputedTokens
        (r.numComputedTokens + numTokens)]
    else d.newTokenIds
  let scheduledInPrevStep := decide (r.requestId ∈ s.prevStepScheduledReqIds)
  Python.require (!(resumed && scheduledInPrevStep)) ""
  let blocks ← newBlocksOf p r.requestId
  return { reqIds := d.reqIds ++ [r.requestId]
           resumedReqIds := if resumed then d.resumedReqIds ++ [r.requestId] else d.resumedReqIds
           newTokenIds := newTokenIds
           allTokenIds := if scheduledInPrevStep then d.allTokenIds
             else d.allTokenIds.set r.requestId r.allTokenIds
           -- `get_block_ids(allow_none=True)`
           newBlockIds := d.newBlockIds ++ [if blocks.all (· = []) then none else some blocks]
           numComputedTokens := d.numComputedTokens ++ [r.numComputedTokens]
           numOutputTokens := d.numOutputTokens ++
             [(r.numOutputTokens : Int) + r.numOutputPlaceholders] }

/-- `_make_cached_request_data`. -/
def makeCachedRequestData (cfg : SchedulerConfig H) (s : Scheduler H) (p : Pass)
    (runningReqs resumedReqs : List ReqRef) : Except Python.Error CachedRequestData :=
  (runningReqs.map (·, false) ++ resumedReqs.map (·, true)).foldlM (s.addCachedRequest cfg p)
    { reqIds := [], resumedReqIds := [], newTokenIds := [], allTokenIds := Dict.empty,
      newBlockIds := [], numComputedTokens := [], numOutputTokens := [] }

/-- `sum(num_scheduled_tokens.values())`. -/
def totalScheduled (p : Pass) : Int := p.numScheduledTokens.values.sum

/-- The constraints that `schedule` asserts at the end of the passes. -/
def constraintsOk (cfg : SchedulerConfig H) (s : Scheduler H) (p : Pass) : Bool :=
  decide (totalScheduled p ≤ cfg.maxNumScheduledTokens ∧ 0 ≤ p.tokenBudget ∧
    s.running.length ≤ cfg.maxNumRunningReqs ∧
    p.scheduledNewReqs.length + p.scheduledResumedReqs.length + p.scheduledRunningReqs.length
      ≤ s.running.length)

/-- `take_new_block_ids() or None`, where the model needs zeroed blocks. -/
def takeNewBlockIds (cfg : SchedulerConfig H) (s : Scheduler H) :
    Scheduler H × Option (List BlockId) :=
  if cfg.needsKvCacheZeroing then
    let (kv, ids) := s.kvCacheManager.takeNewBlockIds
    ({ s with kvCacheManager := kv }, if ids = [] then none else some ids)
  else (s, none)

/-- The `SchedulerOutput` of the passes. -/
def makeOutput (cfg : SchedulerConfig H) (s : Scheduler H) (p : Pass) :
    Except Python.Error (Scheduler H × SchedulerOutput) := do
  let (newReqs, resumedReqs) :=
    if cfg.useV2ModelRunner then (p.scheduledNewReqs ++ p.scheduledResumedReqs, [])
    else (p.scheduledNewReqs, p.scheduledResumedReqs)
  let newReqsData ← newReqs.mapM (s.newRequestData cfg p)
  let cachedReqsData ← s.makeCachedRequestData cfg p p.scheduledRunningReqs resumedReqs
  let s := { s with prevStepScheduledReqIds := p.numScheduledTokens.keys }
  let (s, newBlockIdsToZero) := s.takeNewBlockIds cfg
  let (freed, m) := s.encoderCacheManager.getFreedMmHashes
  let s := { s with encoderCacheManager := m }
  return (s,
    { scheduledNewReqs := newReqsData
      scheduledCachedReqs := cachedReqsData
      numScheduledTokens := p.numScheduledTokens
      totalNumScheduledTokens := totalScheduled p
      scheduledSpecDecodeTokens := p.scheduledSpecDecodeTokens
      scheduledEncoderInputs := p.scheduledEncoderInputs
      preemptedReqIds := p.preemptedReqs.map fun r => (s.obj r).requestId
      finishedReqIds := s.finishedReqIds
      freeEncoderMmHashes := freed
      newBlockIdsToZero := newBlockIdsToZero
      hasStructuredOutputRequests := false
      pendingStructuredOutputTokens := false })

/-- One round of `Scheduler._update_after_schedule`. -/
def advanceComputed (st : Scheduler H × SchedulerOutput) (entry : ReqId × Int) :
    Except Python.Error (Scheduler H × SchedulerOutput) := do
  let (s, out) := st
  let ref ← s.getRequest entry.1
  let s := s.modify ref fun r =>
    let numComputedTokens := r.numComputedTokens + entry.2
    { r with numComputedTokens := numComputedTokens
             isPrefillChunk := decide (numComputedTokens < r.numTokens + r.numOutputPlaceholders) }
  return (s, { out with hasStructuredOutputRequests := out.hasStructuredOutputRequests ||
    ((s.obj ref).useStructuredOutput && !(s.obj ref).isPrefillChunk) })

/-- One round of `AsyncScheduler._update_after_schedule`. -/
def addPlaceholders (cfg : SchedulerConfig H) (st : Scheduler H × SchedulerOutput)
    (entry : ReqId × Int) : Except Python.Error (Scheduler H × SchedulerOutput) := do
  let (s, out) := st
  let ref ← s.getRequest entry.1
  let r := s.obj ref
  if r.isPrefillChunk then return (s, out)
  else
    let curNumSpecTokens := ((out.scheduledSpecDecodeTokens.get? entry.1).getD []).length
    let out := { out with pendingStructuredOutputTokens := out.pendingStructuredOutputTokens ||
      (r.useStructuredOutput && decide (r.numOutputPlaceholders > 0)) }
    return (s.modify ref fun r =>
      { r with numOutputPlaceholders := r.numOutputPlaceholders + 1 + curNumSpecTokens
               specTokenIds := List.replicate cfg.numSpecTokens (-1) }, out)

/-- `_update_after_schedule`. -/
def updateAfterSchedule (cfg : SchedulerConfig H) (s : Scheduler H) (out : SchedulerOutput) :
    Except Python.Error (Scheduler H × SchedulerOutput) := do
  let (s, out) ← out.numScheduledTokens.entries.foldlM advanceComputed (s, out)
  let s := { s with finishedReqIds := [] }
  if cfg.asyncScheduling then out.numScheduledTokens.entries.foldlM (addPlaceholders cfg) (s, out)
  else return (s, out)

/-- The variables at the start of `schedule`. -/
def startPass (cfg : SchedulerConfig H) (s : Scheduler H) : Pass :=
  { scheduledNewReqs := []
    scheduledResumedReqs := []
    scheduledRunningReqs := []
    preemptedReqs := []
    reqToNewBlocks := Dict.empty
    numScheduledTokens := Dict.empty
    tokenBudget := if s.pauseState = .pausedAll then 0 else cfg.maxNumScheduledTokens
    scheduledEncoderInputs := Dict.empty
    encoderComputeBudget := cfg.maxNumEncoderInputTokens
    scheduledSpecDecodeTokens := Dict.empty
    scheduledLoras := []
    stepSkippedWaiting := []
    reqIndex := 0
    revoked := [] }

/-- The two passes of `schedule`. -/
def schedulePasses (cfg : SchedulerConfig H) (env : ScheduleEnv) (s : Scheduler H) :
    Except Python.Error (Scheduler H × Pass) := do
  let p := s.startPass cfg
  let s := { s with kvCacheManager := s.kvCacheManager.newStepStarts }
  let (s, p) ← runningPass cfg env s.running.length s p
  let p ← s.recordLoras cfg p
  s.waitingPass cfg env p

/-- `schedule`. -/
def schedule (cfg : SchedulerConfig H) (env : ScheduleEnv) (s : Scheduler H) :
    Except Python.Error (Scheduler H × SchedulerOutput) := do
  let (s, p) ← s.schedulePasses cfg env
  Python.require (s.constraintsOk cfg p) ""
  let (s, out) ← s.makeOutput cfg p
  s.updateAfterSchedule cfg out

end Scheduler

end VllmEngine

/-!
## Invariants of the two passes

The loops of `schedule` taken apart once. A property of the state and the local
variables holds at the end of a pass if every way in which a round can end
keeps it; `RunningRule` and `WaitingRule` list these ways.

> `runningPass_rule`: `I` holds between the rounds of the running pass, and
> `J ref n plan` while blocks are sought for `n` tokens of `ref`,
> `waitingPass_rule`: `I` holds between the rounds of the waiting pass.

What `schedule` never changes of a request is its `fixed` part.
-/

namespace VllmEngine

variable {H : Type} [DecidableEq H]

namespace Scheduler

/-! ## The running pass -/

/-- The ways in which a round of the running pass can go on. -/
structure RunningRule (cfg : SchedulerConfig H) (env : ScheduleEnv)
    (I : Scheduler H → Pass → Prop)
    (J : ReqRef → Int → EncoderPlan → Scheduler H → Pass → Prop) : Prop where
  /-- all its tokens are in flight -/
  reached : ∀ s p ref, I s p → s.running[p.reqIndex]? = some ref → p.tokenBudget > 0 →
    reachedMaxTokens (s.obj ref) = true → I s { p with reqIndex := p.reqIndex + 1 }
  /-- no tokens for it -/
  zero : ∀ s p ref s' plan, I s p → s.running[p.reqIndex]? = some ref → p.tokenBudget > 0 →
    reachedMaxTokens (s.obj ref) = false → s.planRunning cfg env p ref = .ok (s', 0, plan) →
    I s' { p with reqIndex := p.reqIndex + 1 }
  plan : ∀ s p ref s' n plan, I s p → s.running[p.reqIndex]? = some ref → p.tokenBudget > 0 →
    reachedMaxTokens (s.obj ref) = false → s.planRunning cfg env p ref = .ok (s', n, plan) →
    n ≠ 0 → J ref n plan s' p
  /-- another request makes room -/
  preempt : ∀ ref n plan s p kv s' p' victim, J ref n plan s p →
    s.kvCacheManager.allocateSlots (s.obj ref) (runningSlotArgs cfg s n) = .ok (kv, none) →
    preemptVictim cfg { s with kvCacheManager := kv } p = .ok (s', p', victim) → victim ≠ ref →
    J ref n plan s' p'
  /-- the request itself makes room, which ends the pass -/
  preemptSelf : ∀ ref n plan s p kv s' p', J ref n plan s p →
    s.kvCacheManager.allocateSlots (s.obj ref) (runningSlotArgs cfg s n) = .ok (kv, none) →
    preemptVictim cfg { s with kvCacheManager := kv } p = .ok (s', p', ref) → I s' p'
  commit : ∀ ref n plan s p kv blocks s' p', J ref n plan s p →
    s.kvCacheManager.allocateSlots (s.obj ref) (runningSlotArgs cfg s n) = .ok (kv, some blocks) →
    commitRunning { s with kvCacheManager := kv } p ref n plan blocks = .ok (s', p') → I s' p'

variable {cfg : SchedulerConfig H} {env : ScheduleEnv} {I : Scheduler H → Pass → Prop}
  {J : ReqRef → Int → EncoderPlan → Scheduler H → Pass → Prop}

/-- The search for blocks, up to the commit. The induction is on its rounds. -/
theorem RunningRule.allocate (hr : RunningRule cfg env I J) {ref : ReqRef} {n : Int}
    {plan : EncoderPlan} :
    ∀ (bound : Nat) (s s' : Scheduler H) (p p' : Pass) (blocks : Option (List (List BlockId))),
      J ref n plan s p → allocateRunning cfg ref n bound s p = .ok (s', p', blocks) →
      (blocks = none ∧ I s' p') ∨
        ∃ s₀ kv b, blocks = some b ∧ J ref n plan s₀ p' ∧
          s₀.kvCacheManager.allocateSlots (s₀.obj ref) (runningSlotArgs cfg s₀ n)
            = .ok (kv, some b) ∧
          s' = { s₀ with kvCacheManager := kv } := by
  intro bound
  induction bound with
  | zero => intro s s' p p' blocks _ h; cases h
  | succ bound ih =>
    intro s s' p p' blocks hJ h
    rw [allocateRunning, Raises.bind_eq_ok] at h
    obtain ⟨⟨kv, newBlocks⟩, halloc, h⟩ := h
    cases newBlocks with
    | some b =>
      have heq := Except.ok.inj h
      simp only [Prod.mk.injEq] at heq
      obtain ⟨rfl, rfl, rfl⟩ := heq
      exact Or.inr ⟨s, kv, b, rfl, hJ, halloc, rfl⟩
    | none =>
      dsimp only at h
      rw [Raises.bind_eq_ok] at h
      obtain ⟨⟨s₁, p₁, victim⟩, hpre, h⟩ := h
      dsimp only at h
      split at h
      next hv =>
        have heq := Except.ok.inj h
        simp only [Prod.mk.injEq] at heq
        obtain ⟨rfl, rfl, rfl⟩ := heq
        rw [hv] at hpre
        exact Or.inl ⟨rfl, hr.preemptSelf ref n plan s p kv s₁ p₁ hJ halloc hpre⟩
      next hv =>
        exact ih s₁ s' p₁ p' blocks (hr.preempt ref n plan s p kv s₁ p₁ victim hJ halloc hpre hv) h

theorem RunningRule.round (hr : RunningRule cfg env I J) {s s' : Scheduler H} {p p' : Pass}
    {ref : ReqRef} {go : Bool} (hI : I s p) (href : s.running[p.reqIndex]? = some ref)
    (hb : p.tokenBudget > 0) (h : s.scheduleRunning cfg env p ref = .ok (s', p', go)) : I s' p' := by
  unfold scheduleRunning at h
  split at h
  next hreached =>
    have heq := Except.ok.inj h
    simp only [Prod.mk.injEq] at heq
    obtain ⟨rfl, rfl, -⟩ := heq
    exact hr.reached s p ref hI href hb hreached
  next hreached =>
    rw [Bool.not_eq_true] at hreached
    rw [Raises.bind_eq_ok] at h
    obtain ⟨⟨s₁, n, plan⟩, hplan, h⟩ := h
    dsimp only at h
    split at h
    next hn =>
      have heq := Except.ok.inj h
      simp only [Prod.mk.injEq] at heq
      obtain ⟨rfl, rfl, -⟩ := heq
      rw [hn] at hplan
      exact hr.zero s p ref s₁ plan hI href hb hreached hplan
    next hn =>
      rw [Raises.bind_eq_ok] at h
      obtain ⟨⟨s₂, p₂, blocks⟩, halloc, h⟩ := h
      have hJ := hr.plan s p ref s₁ n plan hI href hb hreached hplan hn
      obtain ⟨rfl, hI₂⟩ | ⟨s₀, kv, b, rfl, hJ₀, hslots, rfl⟩ :=
        hr.allocate _ _ _ _ _ _ hJ halloc
      · have heq := Except.ok.inj h
        simp only [Prod.mk.injEq] at heq
        obtain ⟨rfl, rfl, -⟩ := heq
        exact hI₂
      · simp only [Raises.bind_eq_ok, Raises.pure_eq_ok] at h
        obtain ⟨⟨s₃, p₃⟩, hcommit, heq⟩ := h
        simp only [Prod.mk.injEq] at heq
        obtain ⟨rfl, rfl, -⟩ := heq
        exact hr.commit ref n plan s₀ p₂ kv b s₃ p₃ hJ₀ hslots hcommit

/-- **The running pass** keeps what its rounds keep. -/
theorem runningPass_rule (hr : RunningRule cfg env I J) :
    ∀ (bound : Nat) (s s' : Scheduler H) (p p' : Pass), I s p →
      runningPass cfg env bound s p = .ok (s', p') → I s' p' := by
  intro bound
  induction bound with
  | zero =>
    intro s s' p p' hI h
    obtain ⟨rfl, rfl⟩ := Prod.mk.inj (Except.ok.inj h)
    exact hI
  | succ bound ih =>
    intro s s' p p' hI h
    rw [runningPass] at h
    split at h
    · obtain ⟨rfl, rfl⟩ := Prod.mk.inj (Except.ok.inj h)
      exact hI
    next ref href =>
      split at h
      next hb =>
        rw [Raises.bind_eq_ok] at h
        obtain ⟨⟨s₁, p₁, go⟩, hround, h⟩ := h
        have hI₁ := hr.round hI href hb hround
        dsimp only at h
        split at h
        · exact ih s₁ s' p₁ p' hI₁ h
        · obtain ⟨rfl, rfl⟩ := Prod.mk.inj (Except.ok.inj h)
          exact hI₁
      · obtain ⟨rfl, rfl⟩ := Prod.mk.inj (Except.ok.inj h)
        exact hI

/-! ## The waiting pass -/

/-- A request at the head of a queue that the waiting pass looks at, in a round
that the budget and the number of running requests allow. -/
structure Peeked (cfg : SchedulerConfig H) (s : Scheduler H) (p : Pass) (q : WaitingQueue)
    (ref : ReqRef) : Prop where
  budget : p.tokenBudget > 0
  room : s.running.length ≠ cfg.maxNumRunningReqs
  peek : RequestQueue.peekRequest cfg.policy (s.queue q) = .ok ref

/-- The ways in which a round of the waiting pass can end. -/
structure WaitingRule (cfg : SchedulerConfig H) (env : ScheduleEnv)
    (I : Scheduler H → Pass → Prop) : Prop where
  skip : ∀ s p q ref round s₁ s' p', I s p → Peeked cfg s p q ref →
    s.examineWaiting cfg env round p ref = .ok (s₁, .skip) →
    s₁.skipRequest cfg p q ref = .ok (s', p') → I s' p'
  stop : ∀ s p q ref round s₁ c s', I s p → Peeked cfg s p q ref →
    s.examineWaiting cfg env round p ref = .ok (s₁, .proceed c) →
    s₁.prepareWaiting cfg env p ref c = .ok (s', none) → I s' p
  take : ∀ s p q ref round s₁ c s₂ n plan s' p', I s p → Peeked cfg s p q ref →
    s.examineWaiting cfg env round p ref = .ok (s₁, .proceed c) →
    s₁.prepareWaiting cfg env p ref c = .ok (s₂, some (n, plan)) →
    s₂.takeWaiting cfg p q c n plan = .ok (s', p') → I s' p'

theorem findComputedTokens_ne_stop {round : Nat} {s : Scheduler H} {ref : ReqRef} :
    s.findComputedTokens cfg env round ref ≠ .ok .stop := by
  have htotal : ∀ (r : Request H) b n m a, totalComputed r b n m a ≠ .ok .stop := by
    intro r b n m a h
    simp only [totalComputed, Raises.bind_eq_ok, Raises.pure_eq_ok] at h
    obtain ⟨⟨⟩, -, heq⟩ := h
    cases heq
  intro h
  unfold findComputedTokens at h
  dsimp only at h
  split at h
  · rw [Raises.bind_eq_ok] at h
    obtain ⟨⟨blocks, numLocal⟩, -, h⟩ := h
    dsimp only at h
    split at h
    · exact htotal _ _ _ _ _ h
    · split at h
      · cases h
      · exact htotal _ _ _ _ _ h
  · cases h

theorem examineWaiting_ne_stop {round : Nat} {s s' : Scheduler H} {p : Pass} {ref : ReqRef} :
    s.examineWaiting cfg env round p ref ≠ .ok (s', .stop) := by
  intro h
  unfold examineWaiting at h
  rw [Raises.bind_eq_ok] at h
  obtain ⟨⟨s₁, promoted⟩, -, h⟩ := h
  dsimp only at h
  split at h
  · cases h
  · split at h
    · cases h
    · simp only [Raises.bind_eq_ok, Raises.pure_eq_ok] at h
      obtain ⟨v, hv, heq⟩ := h
      obtain ⟨-, rfl⟩ := Prod.mk.inj heq
      exact findComputedTokens_ne_stop hv

theorem WaitingRule.round (hw : WaitingRule cfg env I) {round : Nat} {s s' : Scheduler H}
    {p p' : Pass} {q : WaitingQueue} {go : Bool} (hI : I s p) (hb : p.tokenBudget > 0)
    (hroom : s.running.length ≠ cfg.maxNumRunningReqs)
    (h : s.scheduleWaiting cfg env round p q = .ok (s', p', go)) : I s' p' := by
  unfold scheduleWaiting at h
  rw [Raises.bind_eq_ok] at h
  obtain ⟨ref, hpeek, h⟩ := h
  rw [Raises.bind_eq_ok] at h
  obtain ⟨⟨s₁, v⟩, hex, h⟩ := h
  have hp : Peeked cfg s p q ref := ⟨hb, hroom, hpeek⟩
  cases v with
  | stop => exact absurd hex examineWaiting_ne_stop
  | skip =>
    simp only [Raises.bind_eq_ok, Raises.pure_eq_ok] at h
    obtain ⟨⟨s₂, p₂⟩, hskip, heq⟩ := h
    simp only [Prod.mk.injEq] at heq
    obtain ⟨rfl, rfl, -⟩ := heq
    exact hw.skip s p q ref round s₁ s₂ p₂ hI hp hex hskip
  | proceed c =>
    dsimp only at h
    rw [Raises.bind_eq_ok] at h
    obtain ⟨⟨s₂, prepared⟩, hprep, h⟩ := h
    cases prepared with
    | none =>
      have heq := Except.ok.inj h
      simp only [Prod.mk.injEq] at heq
      obtain ⟨rfl, rfl, -⟩ := heq
      exact hw.stop s p q ref round s₁ c s₂ hI hp hex hprep
    | some np =>
      obtain ⟨n, plan⟩ := np
      simp only [Raises.bind_eq_ok, Raises.pure_eq_ok] at h
      obtain ⟨⟨s₃, p₃⟩, htake, heq⟩ := h
      simp only [Prod.mk.injEq] at heq
      obtain ⟨rfl, rfl, -⟩ := heq
      exact hw.take s p q ref round s₁ c s₂ n plan s₃ p₃ hI hp hex hprep htake

theorem waitingLoop_rule (hw : WaitingRule cfg env I) :
    ∀ (bound : Nat) (s s' : Scheduler H) (p p' : Pass), I s p →
      waitingLoop cfg env bound s p = .ok (s', p') → I s' p' := by
  intro bound
  induction bound with
  | zero =>
    intro s s' p p' hI h
    obtain ⟨rfl, rfl⟩ := Prod.mk.inj (Except.ok.inj h)
    exact hI
  | succ bound ih =>
    intro s s' p p' hI h
    rw [waitingLoop] at h
    split at h
    · obtain ⟨rfl, rfl⟩ := Prod.mk.inj (Except.ok.inj h)
      exact hI
    · split at h
      next hround =>
        rw [Raises.bind_eq_ok] at h
        obtain ⟨⟨s₁, p₁, go⟩, hr, h⟩ := h
        have hI₁ := hw.round hI hround.1 hround.2 hr
        dsimp only at h
        split at h
        · exact ih s₁ s' p₁ p' hI₁ h
        · obtain ⟨rfl, rfl⟩ := Prod.mk.inj (Except.ok.inj h)
          exact hI₁
      · obtain ⟨rfl, rfl⟩ := Prod.mk.inj (Except.ok.inj h)
        exact hI

/-- **The waiting pass** keeps what its rounds keep and what does not depend on
the skipped queue. -/
theorem waitingPass_rule (hw : WaitingRule cfg env I)
    (hmerge : ∀ s p q, I s p → I { s with skippedWaiting := q } p) {s s' : Scheduler H}
    {p p' : Pass} (hI : I s p) (h : s.waitingPass cfg env p = .ok (s', p')) : I s' p' := by
  unfold waitingPass at h
  split at h
  · rw [Raises.bind_eq_ok] at h
    obtain ⟨⟨s₁, p₁⟩, hloop, h⟩ := h
    obtain ⟨rfl, rfl⟩ := Prod.mk.inj (Except.ok.inj h)
    exact hmerge s₁ p₁ _ (waitingLoop_rule hw _ _ _ _ _ hI hloop)
  · obtain ⟨rfl, rfl⟩ := Prod.mk.inj (Except.ok.inj h)
    exact hI

end Scheduler

end VllmEngine
