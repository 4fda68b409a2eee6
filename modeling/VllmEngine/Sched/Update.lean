import VllmEngine.Sched.Schedule

/-!
# The scheduler between two scheduling passes

`add_request`, `finish_requests`, `update_from_output` and the functions they
call (`vllm/v1/core/sched/scheduler.py`, `async_scheduler.py`, `utils.py`).

Mirroring notes:
- What a sampled token does to its request is kept apart from what it does to
  the scheduler: `receiveOutput` and `checkGrammar` change the object only.
- The counts of affected tokens in the handling of invalid blocks are logged
  and nothing else; they are left out.
-/

namespace VllmEngine

variable {H : Type} [DecidableEq H]

/-! ## Stop conditions -/

/-- `_has_repeating_pattern`: the last `patternLen` tokens equal each of the
`minCount - 1` stretches of that length before them. -/
def hasRepeatingPattern (tokenIds : List Token) (patternLen minCount : Nat) : Bool :=
  (List.range patternLen).all fun n => (List.range (minCount - 1)).all fun m =>
    tokenIds.reverse[patternLen * (m + 1) + n]? = tokenIds.reverse[n]?

/-- `check_sequence_repetition`. A pattern that does not fit ends the search, as
longer ones do not fit either. -/
def checkSequenceRepetition (tokenIds : List Token) (params : RepetitionDetectionParams) : Bool :=
  let minPatternSize := if params.minPatternSize ≤ 0 then 1 else params.minPatternSize
  if params.maxPatternSize ≤ 0 ∨ params.minCount < 2 ∨ minPatternSize > params.maxPatternSize then
    false
  else
    (List.range' minPatternSize.toNat (params.maxPatternSize - minPatternSize + 1).toNat).any
      fun patternLen => decide (patternLen * params.minCount ≤ tokenIds.length) &&
        hasRepeatingPattern tokenIds patternLen params.minCount.toNat

/-- `check_stop`. -/
def checkStop (r : Request H) (maxModelLen : Nat) : Except Python.Error (Request H × Bool) :=
  match r.poolingParams, r.samplingParams, r.outputTokenIds.getLast? with
  | some _, _, _ => .error (.assertion "")
  | none, none, _ => .error (.assertion "")
  | none, some params, last =>
    if (r.numOutputTokens : Int) < params.minTokens then .ok (r, false)
    else
      match last with
      | none => .error (.index "list index out of range")
      | some lastTokenId =>
        if params.eosTokenId = some lastTokenId then
          .ok ({ r with status := .finishedStopped }, true)
        else if lastTokenId ∈ params.stopTokenIds then
          .ok ({ r with status := .finishedStopped
                        stopReason := some (.token lastTokenId) }, true)
        else if r.numTokens ≥ maxModelLen ∨ (r.numOutputTokens : Int) ≥ r.maxTokens then
          .ok ({ r with status := .finishedLengthCapped }, true)
        else
          match params.repetitionDetection with
          | none => .ok (r, false)
          | some detection =>
            if checkSequenceRepetition r.outputTokenIds detection then
              .ok ({ r with status := .finishedRepetition
                            stopReason := some (.text "repetition_detected") }, true)
            else .ok (r, false)

/-! ## What an output does to its request -/

/-- `Scheduler._update_request_with_output`: the tokens up to a stop. -/
def appendUntilStop (cfg : SchedulerConfig H) : Request H → List Token →
    Except Python.Error (Request H × List Token × Bool)
  | r, [] => .ok (r, [], false)
  | r, t :: ts => do
    let (r, stopped) ← checkStop (r.appendOutputTokenIds cfg.blockHasher [t]) cfg.maxModelLen
    if stopped then return (r, [t], true)
    else do
      let (r, kept, stopped) ← appendUntilStop cfg r ts
      return (r, t :: kept, stopped)

/-- `_update_request_with_output` on the object, for both schedulers. -/
def receiveTokens (cfg : SchedulerConfig H) (r : Request H) (newTokenIds : List Token) :
    Except Python.Error (Request H × List Token × Bool) :=
  if cfg.asyncScheduling then
    -- a forced preemption discards the tokens in flight
    if r.discardLatestAsyncTokens then .ok ({ r with discardLatestAsyncTokens := false }, [], false)
    else do
      let (r, kept, stopped) ← appendUntilStop cfg r newTokenIds
      let numOutputPlaceholders := r.numOutputPlaceholders - kept.length
      Python.require (decide (numOutputPlaceholders ≥ 0)) ""
      return ({ r with numOutputPlaceholders := numOutputPlaceholders }, kept, stopped)
  else appendUntilStop cfg r newTokenIds

/-- The correction for rejected drafts. -/
def rejectDrafts (out : SchedulerOutput) (mro : ModelRunnerOutput) (r : Request H) : Request H :=
  let scheduledSpecTokenIds := (out.scheduledSpecDecodeTokens.get? r.requestId).getD []
  let generatedTokenIds := mro.sampledTokenIds r.requestId
  if scheduledSpecTokenIds ≠ [] ∧ generatedTokenIds ≠ [] then
    let numAccepted : Int := (generatedTokenIds.length : Int) - 1
    let numRejected : Int := scheduledSpecTokenIds.length - numAccepted
    { r with
      numComputedTokens :=
        if r.numComputedTokens > 0 then r.numComputedTokens - numRejected else r.numComputedTokens
      numOutputPlaceholders :=
        if r.numOutputPlaceholders > 0 then r.numOutputPlaceholders - numRejected
        else r.numOutputPlaceholders }
  else r

/-- The sampled tokens or the pooler output: the request, the tokens it keeps
and whether it stopped. -/
def receiveOutput (cfg : SchedulerConfig H) (mro : ModelRunnerOutput) (r : Request H) :
    Except Python.Error (Request H × List Token × Bool) :=
  let newTokenIds := mro.sampledTokenIds r.requestId
  if newTokenIds ≠ [] then receiveTokens cfg r newTokenIds
  else if r.poolingParams.isSome && mro.poolerOutput r.requestId then
    .ok ({ r with status := .finishedStopped }, [], true)
  else .ok (r, [], false)

/-- The grammar may reject the tokens, which ends the request. -/
def checkGrammar (mro : ModelRunnerOutput) (r : Request H) (newTokenIds : List Token)
    (stopped : Bool) : Request H × Bool :=
  if newTokenIds ≠ [] ∧ (r.useStructuredOutput && mro.shouldAdvance r.requestId &&
      !mro.acceptTokens r.requestId newTokenIds) then
    ({ r with status := .finishedError, resumable := false }, true)
  else (r, stopped)

namespace Scheduler

/-! ## Freeing -/

/-- `_connector_finished`: whether the connector still needs the blocks. -/
def connectorFinished (cfg : SchedulerConfig H) (replies : FreeReplies) (s : Scheduler H)
    (ref : ReqRef) : Except Python.Error (Scheduler H × Bool) :=
  match cfg.connector with
  | none => .ok (s, false)
  | some c => do
    let r := s.obj ref
    let kv ← s.kvCacheManager.removeSkippedBlocks r.requestId r.numTokens
    Python.require (c.supportsHMA || decide (kv.coordinator.singleTypeManagers.length = 1)) ""
    return ({ s with kvCacheManager := kv }, replies r.requestId)

/-- `_free_blocks`. -/
def freeBlocks (s : Scheduler H) (ref : ReqRef) : Except Python.Error (Scheduler H) := do
  let r := s.obj ref
  Python.require r.isFinished ""
  let kv ← s.kvCacheManager.free r.requestId
  let _ ← s.getRequest r.requestId
  return { s with kvCacheManager := kv, requests := s.requests.erase r.requestId }

/-- `_free_request`. -/
def freeRequest (cfg : SchedulerConfig H) (replies : FreeReplies) (s : Scheduler H) (ref : ReqRef)
    (delayFreeBlocks : Bool) : Except Python.Error (Scheduler H) := do
  Python.require (s.obj ref).isFinished ""
  let (s, connectorDelay) ← s.connectorFinished cfg replies ref
  let s := s.freeEncoder cfg ref
  let reqId := (s.obj ref).requestId
  let s := { s with finishedReqIds :=
    if reqId ∈ s.finishedReqIds then s.finishedReqIds else s.finishedReqIds ++ [reqId] }
  if delayFreeBlocks || connectorDelay then return s else s.freeBlocks ref

/-! ## `finish_requests` -/

/-- The requests that a finish signal applies to. -/
def validRequests (s : Scheduler H) (requestIds : List ReqId) : List ReqRef :=
  (requestIds.filterMap s.requests.get?).filter fun r => !(s.obj r).isFinished

/-- Take the requests off the queues. -/
def removeFromQueues (cfg : SchedulerConfig H) (s : Scheduler H) (refs : List ReqRef) :
    Scheduler H :=
  let runningRefs := refs.filter fun r => decide ((s.obj r).status = .running)
  let waitingRefs := refs.filter fun r => decide ((s.obj r).status ≠ .running)
  let streaming := waitingRefs.filter fun r => decide ((s.obj r).status = .waitingForStreamingReq)
  { s with
    running := removeAll s.running runningRefs
    waiting := if waitingRefs = [] then s.waiting
      else RequestQueue.removeRequests cfg.policy (s.lt cfg) s.waiting waitingRefs
    skippedWaiting := if waitingRefs = [] then s.skippedWaiting
      else RequestQueue.removeRequests cfg.policy (s.lt cfg) s.skippedWaiting waitingRefs
    numWaitingForStreamingInput := s.numWaitingForStreamingInput - streaming.length }

/-- The second pass of `finish_requests`, for one request. -/
def finishRequest (cfg : SchedulerConfig H) (replies : FreeReplies) (status : RequestStatus)
    (s : Scheduler H) (ref : ReqRef) : Except Python.Error (Scheduler H) := do
  let r := s.obj ref
  let remote := decide (r.status = .waitingForRemoteKvs)
  let delayFreeBlocks := remote && decide (r.requestId ∉ s.finishedRecvingKvReqIds)
  let s := if remote then
    { s with
      finishedRecvingKvReqIds :=
        s.finishedRecvingKvReqIds.filter fun id => decide (id ≠ r.requestId)
      failedRecvingKvReqIds := s.failedRecvingKvReqIds.filter fun id => decide (id ≠ r.requestId) }
    else s
  let s := s.modify ref fun r => { r with status := status }
  s.freeRequest cfg replies ref delayFreeBlocks

/-- `finish_requests`; `none` stands for all requests. A list stands for a set
of ids, in the order of the walk over it. -/
def finishRequests (cfg : SchedulerConfig H) (replies : FreeReplies) (s : Scheduler H)
    (requestIds : Option (List ReqId)) (status : RequestStatus) :
    Except Python.Error (Scheduler H) := do
  Python.require status.isFinished ""
  let ids := match requestIds with
    | some ids => ids.dedup
    | none => s.requests.keys
  let refs := s.validRequests ids
  let s := s.removeFromQueues cfg refs
  refs.foldlM (finishRequest cfg replies status) s

/-! ## Streaming sessions and `add_request` -/

/-- `_update_request_as_session`. -/
def updateSession (cfg : SchedulerConfig H) (s : Scheduler H) (ref : ReqRef)
    (update : StreamingUpdate) : Except Python.Error (Scheduler H) := do
  let r := s.obj ref
  let session ← updateRequestAsSession cfg.blockHasher r update
  let s := s.modify ref fun _ => session
  return if r.status = .waitingForStreamingReq then
    { s with numWaitingForStreamingInput := s.numWaitingForStreamingInput - 1 }
  else s

/-- `add_request` for an id that is known already. -/
def addUpdate (cfg : SchedulerConfig H) (replies : FreeReplies) (s : Scheduler H)
    (existing : ReqRef) (request : Request H) : Except Python.Error (Scheduler H) :=
  let update := StreamingUpdate.fromRequest request
  if (s.obj existing).status ≠ .waitingForStreamingReq then
    match (s.obj existing).streamingQueue with
    | none => .error (.assertion "duplicate request id")
    | some queue =>
      .ok (s.modify existing fun r => { r with streamingQueue := some (queue ++ [update]) })
  else
    match update with
    | some u => s.updateSession cfg existing u
    | none => s.finishRequests cfg replies (some [request.requestId]) .finishedAborted

/-- `add_request` for a new id. -/
def addNew (cfg : SchedulerConfig H) (s : Scheduler H) (request : Request H) : Scheduler H :=
  let request := if request.resumable then { request with streamingQueue := some [] } else request
  let ref := s.numObjs
  let s := { s with obj := Function.update s.obj ref request, numObjs := ref + 1 }
  let s := s.enqueueWaitingRequest cfg ref
  { s with requests := s.requests.set request.requestId ref }

/-- `add_request`, with the creation of the `Request` object. -/
def addRequest (cfg : SchedulerConfig H) (replies : FreeReplies) (s : Scheduler H)
    (e : EngineCoreRequest) : Except Python.Error (Scheduler H) := do
  let request ← Request.fromEngineCoreRequest cfg.blockHasher e
  match s.requests.get? request.requestId with
  | some existing => s.addUpdate cfg replies existing request
  | none => return s.addNew cfg request

/-! ## `update_from_output` -/

/-- `_free_encoder_inputs`: the inputs that are in the decoder's KV cache. -/
def freeEncoderInputs (cfg : SchedulerConfig H) (s : Scheduler H) (ref : ReqRef) : Scheduler H :=
  let r := s.obj ref
  let cachedIds := cfg.inputIdOrder.walk (s.encoderCacheManager.getCachedInputIds r)
  let doneIds := cachedIds.filter fun i =>
    match r.mmFeatures[i]? with
    | none => false
    | some f => decide ((cfg.isEncoderDecoder ∧ r.numComputedTokens > 0) ∨
        (f.stop : Int) ≤ r.numComputedTokens)
  { s with encoderCacheManager := s.encoderCacheManager.freeInputs r doneIds }

/-- `_handle_stopped_request`: whether the request is finished. -/
def handleStoppedRequest (cfg : SchedulerConfig H) (s : Scheduler H) (ref : ReqRef) :
    Except Python.Error (Scheduler H × Bool) :=
  if !(s.obj ref).resumable then .ok (s, true)
  else
    match (s.obj ref).streamingQueue with
    | some (update :: rest) =>
      let s := s.modify ref fun r => { r with streamingQueue := some rest }
      match update with
      | none => .ok (s, true)
      | some u => do
        let s ← s.updateSession cfg ref u
        return (s.enqueueWaitingRequest cfg ref, false)
    | _ =>
      let s := s.modify ref fun r => { r with status := .waitingForStreamingReq }
      let s := { s with numWaitingForStreamingInput := s.numWaitingForStreamingInput + 1 }
      .ok (s.enqueueWaitingRequest cfg ref, false)

/-- The variables of the loop of `update_from_output`. -/
structure UpdateAcc where
  stoppedRunningReqs : List ReqRef
  stoppedPreemptedReqs : List ReqRef
  outputs : List EngineCoreOutput

/-- A request stopped: free it if it is finished, and note which queue to take
it off. -/
def handleStop (cfg : SchedulerConfig H) (mro : ModelRunnerOutput) (s : Scheduler H)
    (acc : UpdateAcc) (ref : ReqRef) (statusBeforeStop : RequestStatus) :
    Except Python.Error (Scheduler H × UpdateAcc) := do
  let (s, finished) ← s.handleStoppedRequest cfg ref
  let s ← (if finished then s.freeRequest cfg mro.requestFinished ref false else .ok s)
  return (s,
    if statusBeforeStop = .running then
      { acc with stoppedRunningReqs := acc.stoppedRunningReqs ++ [ref] }
    else { acc with stoppedPreemptedReqs := acc.stoppedPreemptedReqs ++ [ref] })

/-- `AsyncScheduler` caches the blocks of the new tokens of a running request. -/
def cacheNewTokens (cfg : SchedulerConfig H) (mro : ModelRunnerOutput) (before : Request H)
    (s : Scheduler H) (ref : ReqRef) : Except Python.Error (Scheduler H) :=
  if cfg.asyncScheduling ∧ mro.sampledTokenIds before.requestId ≠ [] ∧
      ¬ before.discardLatestAsyncTokens ∧ before.status = .running then do
    let r := s.obj ref
    let kv ← s.kvCacheManager.cacheBlocks r (r.numComputedTokens - r.numOutputPlaceholders)
    return { s with kvCacheManager := kv }
  else .ok s

/-- Take over the output of a step for one unfinished request. -/
def updateRequest (cfg : SchedulerConfig H) (out : SchedulerOutput) (mro : ModelRunnerOutput)
    (s : Scheduler H) (acc : UpdateAcc) (ref : ReqRef) :
    Except Python.Error (Scheduler H × UpdateAcc) := do
  let s := s.modify ref (rejectDrafts out mro)
  let s := if (s.obj ref).hasEncoderInputs then s.freeEncoderInputs cfg ref else s
  let before := s.obj ref
  let (r, newTokenIds, stopped) ← receiveOutput cfg mro before
  let s := s.modify ref fun _ => r
  let s ← s.cacheNewTokens cfg mro before ref
  let (r, stopped) := checkGrammar mro r newTokenIds stopped
  let s := s.modify ref fun _ => r
  let finishReason := if stopped then r.status.getFinishedReason else none
  let (s, acc) ← (if stopped then s.handleStop cfg mro acc ref before.status else .ok (s, acc))
  let emits := decide (newTokenIds ≠ []) || mro.poolerOutput before.requestId || stopped
  let output : EngineCoreOutput :=
    { requestId := before.requestId
      newTokenIds := newTokenIds
      finishReason := finishReason
      stopReason := (s.obj ref).stopReason }
  return (s, if emits then { acc with outputs := acc.outputs ++ [output] } else acc)

/-- The body of the loop of `update_from_output`. -/
def updateEntry (cfg : SchedulerConfig H) (out : SchedulerOutput) (mro : ModelRunnerOutput)
    (failedKvLoadReqIds : List ReqId) (st : Scheduler H × UpdateAcc) (entry : ReqId × Int) :
    Except Python.Error (Scheduler H × UpdateAcc) := do
  Python.require (decide (entry.2 > 0)) ""
  if entry.1 ∈ failedKvLoadReqIds then return st
  else
    match st.1.requests.get? entry.1 with
    | none => return st
    | some ref =>
      if (st.1.obj ref).isFinished then return st
      else st.1.updateRequest cfg out mro st.2 ref

/-! ## KV load failures -/

/-- The variables of `_update_requests_with_invalid_blocks`. -/
structure InvalidScan where
  affectedReqIds : List ReqId
  blocksToEvict : List BlockId
  markedInvalidBlockIds : List BlockId

/-- The inner loop over a request's blocks: whether it is affected, where its
first newly marked block is, and the blocks marked so far. -/
def scanBlocks (invalidBlockIds : List BlockId) :
    Nat → List BlockId → Bool × Option Nat × List BlockId → Bool × Option Nat × List BlockId
  | _, [], st => st
  | idx, b :: bs, (isAffected, firstMarked, marked) =>
    if b ∉ invalidBlockIds then scanBlocks invalidBlockIds (idx + 1) bs (isAffected, firstMarked, marked)
    else if b ∈ marked then scanBlocks invalidBlockIds (idx + 1) bs (true, firstMarked, marked)
    else scanBlocks invalidBlockIds (idx + 1) bs (true, firstMarked.orElse fun _ => some idx, marked ++ [b])

/-- The body of the loop of `_update_requests_with_invalid_blocks`. -/
def scanRequest (cfg : SchedulerConfig H) (invalidBlockIds : List BlockId)
    (numScheduledTokens : Dict ReqId Int) (evictBlocks : Bool) (st : Scheduler H × InvalidScan)
    (ref : ReqRef) : Except Python.Error (Scheduler H × InvalidScan) :=
  let (s, scan) := st
  let r := s.obj ref
  match s.kvCacheManager.getBlocks r.requestId with
  | [reqBlockIds] =>
    let reqNumComputedTokens :=
      r.numComputedTokens - (numScheduledTokens.get? r.requestId).getD 0
    let reqNumComputedBlocks :=
      Int.fdiv (reqNumComputedTokens + cfg.blockSize - 1) cfg.blockSize
    let (isAffected, firstMarked, marked) := scanBlocks invalidBlockIds 0
      (reqBlockIds.take reqNumComputedBlocks.toNat) (false, none, scan.markedInvalidBlockIds)
    let scan := { scan with markedInvalidBlockIds := marked }
    if isAffected then
      let numComputedTokens : Int :=
        match firstMarked with
        | some idx => (idx * cfg.blockSize : Nat)
        | none => reqNumComputedTokens
      let evicted :=
        match firstMarked with
        | some idx => if evictBlocks then reqBlockIds.drop idx else []
        | none => []
      .ok (s.modify ref fun r => { r with numComputedTokens := numComputedTokens },
        { scan with blocksToEvict := scan.blocksToEvict ++ evicted
                    affectedReqIds := scan.affectedReqIds ++ [r.requestId] })
    else .ok (s, scan)
  | _ => .error (.value "too many values to unpack (expected 1)")

/-- `_update_requests_with_invalid_blocks`. -/
def updateRequestsWithInvalidBlocks (cfg : SchedulerConfig H) (s : Scheduler H)
    (requests : List ReqRef) (invalidBlockIds : List BlockId)
    (numScheduledTokens : Dict ReqId Int) (evictBlocks : Bool) :
    Except Python.Error (Scheduler H × InvalidScan) :=
  requests.foldlM (scanRequest cfg invalidBlockIds numScheduledTokens evictBlocks)
    (s, { affectedReqIds := [], blocksToEvict := [], markedInvalidBlockIds := [] })

/-- Evict the invalid blocks, unless they will be recomputed. -/
def evictInvalid (cfg : SchedulerConfig H) (s : Scheduler H) (blocks : List BlockId) :
    Except Python.Error (Scheduler H) :=
  if blocks ≠ [] ∧ !cfg.recomputeKvLoadFailures then do
    let kv ← s.kvCacheManager.evictBlocks blocks.dedup
    return { s with kvCacheManager := kv }
  else .ok s

/-- `_handle_invalid_blocks`: the ids to skip in the main loop. -/
def handleInvalidBlocks (cfg : SchedulerConfig H) (s : Scheduler H)
    (invalidBlockIds : List BlockId) (numScheduledTokens : Dict ReqId Int) :
    Except Python.Error (Scheduler H × List ReqId) := do
  let asyncLoadReqs := (RequestQueue.iter cfg.policy (s.lt cfg) s.skippedWaiting).filter fun r =>
    decide ((s.obj r).status = .waitingForRemoteKvs)
  let (s, asyncScan) ← s.updateRequestsWithInvalidBlocks cfg asyncLoadReqs invalidBlockIds
    numScheduledTokens false
  let (s, syncScan) ← s.updateRequestsWithInvalidBlocks cfg s.running invalidBlockIds
    numScheduledTokens true
  if asyncScan.affectedReqIds = [] ∧ syncScan.affectedReqIds = [] then return (s, [])
  else
    let s ← s.evictInvalid cfg syncScan.blocksToEvict
    if cfg.recomputeKvLoadFailures then
      return ({ s with
        failedRecvingKvReqIds := (s.failedRecvingKvReqIds ++ asyncScan.affectedReqIds).dedup },
        syncScan.affectedReqIds)
    else
      return (s, cfg.requestIdOrder.walk (asyncScan.affectedReqIds ++ syncScan.affectedReqIds).dedup)

/-- The failures that a step's output reports. -/
def reportedFailures (cfg : SchedulerConfig H) (s : Scheduler H) (out : SchedulerOutput)
    (mro : ModelRunnerOutput) : Except Python.Error (Scheduler H × List ReqId) :=
  match mro.kvConnectorOutput with
  | none => .ok (s, [])
  | some kvOut =>
    if kvOut.invalidBlockIds ≠ [] then
      s.handleInvalidBlocks cfg kvOut.invalidBlockIds out.numScheduledTokens
    else .ok (s, [])

/-- A finished receive, in `_update_from_kv_xfer_finished`. -/
def finishRecving (s : Scheduler H) (reqId : ReqId) : Except Python.Error (Scheduler H) := do
  Python.require (s.requests.contains reqId) ""
  let ref ← s.getRequest reqId
  if (s.obj ref).status = .waitingForRemoteKvs then
    return { s with finishedRecvingKvReqIds :=
      if reqId ∈ s.finishedRecvingKvReqIds then s.finishedRecvingKvReqIds
      else s.finishedRecvingKvReqIds ++ [reqId] }
  else do
    Python.require (s.obj ref).isFinished ""
    s.freeBlocks ref

/-- A finished send, in `_update_from_kv_xfer_finished`. -/
def finishSending (s : Scheduler H) (reqId : ReqId) : Except Python.Error (Scheduler H) := do
  Python.require (s.requests.contains reqId) ""
  let ref ← s.getRequest reqId
  s.freeBlocks ref

/-- `_update_from_kv_xfer_finished`. -/
def updateFromKvXferFinished (s : Scheduler H) (mro : ModelRunnerOutput) :
    Except Python.Error (Scheduler H) :=
  match mro.kvConnectorOutput with
  | none => .ok s
  | some kvOut => do
    let s ← kvOut.finishedRecving.foldlM finishRecving s
    kvOut.finishedSending.foldlM finishSending s

/-- Take the stopped requests off the running and waiting queues. -/
def removeStopped (cfg : SchedulerConfig H) (s : Scheduler H) (acc : UpdateAcc) : Scheduler H :=
  { s with
    running := removeAll s.running acc.stoppedRunningReqs
    waiting := if acc.stoppedPreemptedReqs = [] then s.waiting
      else RequestQueue.removeRequests cfg.policy (s.lt cfg) s.waiting acc.stoppedPreemptedReqs }

/-- Requests whose loads failed end, under the failure policy. -/
def failRequests (cfg : SchedulerConfig H) (mro : ModelRunnerOutput) (s : Scheduler H)
    (failedKvLoadReqIds : List ReqId) : Except Python.Error (Scheduler H × List EngineCoreOutput) :=
  if failedKvLoadReqIds ≠ [] ∧ !cfg.recomputeKvLoadFailures then do
    let refs ← failedKvLoadReqIds.mapM s.getRequest
    let s ← s.finishRequests cfg mro.requestFinished (some failedKvLoadReqIds) .finishedError
    return (s, refs.map fun r =>
      { requestId := (s.obj r).requestId
        newTokenIds := []
        finishReason := (s.obj r).status.getFinishedReason
        stopReason := none })
  else .ok (s, [])

/-- `update_from_output`. -/
def updateFromOutput (cfg : SchedulerConfig H) (s : Scheduler H) (out : SchedulerOutput)
    (mro : ModelRunnerOutput) : Except Python.Error (Scheduler H × List EngineCoreOutput) := do
  let (s, failedKvLoadReqIds) ← s.reportedFailures cfg out mro
  let (s, acc) ← out.numScheduledTokens.entries.foldlM
    (updateEntry cfg out mro failedKvLoadReqIds)
    (s, { stoppedRunningReqs := [], stoppedPreemptedReqs := [], outputs := [] })
  let s := s.removeStopped cfg acc
  let (s, failures) ← s.failRequests cfg mro failedKvLoadReqIds
  let s ← s.updateFromKvXferFinished mro
  return (s, acc.outputs ++ failures)

/-! ## The remaining entry points -/

/-- One round of `update_draft_token_ids`; `validateTokens` is the grammar's
filter. -/
def updateDraft (validateTokens : ReqId → List Token → List Token) (s : Scheduler H)
    (entry : ReqId × List Token) : Scheduler H :=
  match s.requests.get? entry.1 with
  | none => s
  | some ref =>
    let r := s.obj ref
    if r.isFinished then s
    else if r.isPrefillChunk then s.modify ref fun r => { r with specTokenIds := [] }
    else s.modify ref fun r => { r with specTokenIds := validateTokens entry.1 entry.2 }

/-- `update_draft_token_ids`. -/
def updateDraftTokenIds (validateTokens : ReqId → List Token → List Token) (s : Scheduler H)
    (drafts : List (ReqId × List Token)) : Scheduler H :=
  drafts.foldl (updateDraft validateTokens) s

/-- One round of `update_draft_token_ids_in_output`: the drafts take the places
of the scheduled placeholders. -/
def updateDraftInOutput (validateTokens : ReqId → List Token → List Token) (s : Scheduler H)
    (out : SchedulerOutput) (entry : ReqId × List Token) : SchedulerOutput :=
  match s.requests.get? entry.1 with
  | none => out
  | some ref =>
    let placeholders := (out.scheduledSpecDecodeTokens.get? entry.1).getD []
    if (s.obj ref).isFinished ∨ placeholders = [] then out
    else
      let drafts := validateTokens entry.1 (entry.2.take placeholders.length)
      let padding := List.replicate (placeholders.length - drafts.length) (-1)
      { out with scheduledSpecDecodeTokens :=
          out.scheduledSpecDecodeTokens.set entry.1 (drafts ++ padding) }

/-- `update_draft_token_ids_in_output`. -/
def updateDraftTokenIdsInOutput (validateTokens : ReqId → List Token → List Token)
    (s : Scheduler H) (drafts : List (ReqId × List Token)) (out : SchedulerOutput) :
    SchedulerOutput :=
  drafts.foldl (s.updateDraftInOutput validateTokens) out

/-- The forced preemption of all running requests, last one first. -/
def preemptAll (cfg : SchedulerConfig H) : Nat → Scheduler H → Except Python.Error (Scheduler H)
  | 0, s => .ok s
  | bound + 1, s =>
    match s.running.getLast? with
    | none => .ok s
    | some ref => do
      let s ← preemptRequest cfg { s with running := s.running.dropLast } ref
      preemptAll cfg bound (s.modify ref fun r =>
        { r with numOutputPlaceholders := 0, discardLatestAsyncTokens := true })

/-- `reset_prefix_cache`, without the connector's own cache. -/
def resetPrefixCache (cfg : SchedulerConfig H) (s : Scheduler H) (resetRunningRequests : Bool) :
    Except Python.Error (Scheduler H × Bool) := do
  let s ← (if resetRunningRequests then preemptAll cfg s.running.length s else .ok s)
  let s := if resetRunningRequests then { s with prevStepScheduledReqIds := [] } else s
  let (kv, resetSuccessful) := s.kvCacheManager.resetPrefixCache
  if resetRunningRequests ∧ !resetSuccessful then
    throw (.runtime "Failed to reset KV cache even when all the running requests are preempted")
  return ({ s with kvCacheManager := kv }, resetSuccessful)

end Scheduler

end VllmEngine

/-!
## The scheduler as a state machine

The engine core calls the scheduler's entry points in any order; several
`schedule` calls may precede the `update_from_output` of the first of them
(`EngineCore.step_with_batch_queue` in `vllm/v1/engine/core.py`). The outputs
not yet answered wait in a queue and are answered in order.
-/

namespace VllmEngine

variable {H : Type} [DecidableEq H]

/-- The scheduler and the steps in flight, oldest first. -/
structure Engine (H : Type) where
  scheduler : Scheduler H
  inFlight : List SchedulerOutput

/-- A call of one of the scheduler's entry points. -/
inductive SchedOp
  | addRequest (e : EngineCoreRequest) (replies : FreeReplies)
  | schedule (env : ScheduleEnv)
  | updateFromOutput (mro : ModelRunnerOutput)
  | finishRequests (requestIds : Option (List ReqId)) (status : RequestStatus)
      (replies : FreeReplies)
  | updateDraftTokenIds (drafts : List (ReqId × List Token))
      (validateTokens : ReqId → List Token → List Token)
  | updateDraftTokenIdsInOutput (drafts : List (ReqId × List Token))
      (validateTokens : ReqId → List Token → List Token)
  | setPauseState (pauseState : PauseState)
  | resetPrefixCache (resetRunningRequests : Bool)

namespace Engine

/-- A new scheduler with nothing in flight. -/
def init (cfg : SchedulerConfig H) (specs : List KVCacheSpec) (numBlocks : Nat)
    (enableCaching : Bool) : Except Python.Error (Engine H) := do
  let s ← Scheduler.init cfg specs numBlocks enableCaching
  return { scheduler := s, inFlight := [] }

/-- One call. The newest output in flight is the one whose drafts are filled
in. -/
def step (cfg : SchedulerConfig H) (e : Engine H) : SchedOp → Except Python.Error (Engine H)
  | .addRequest req replies => do
    let s ← e.scheduler.addRequest cfg replies req
    return { e with scheduler := s }
  | .schedule env => do
    let (s, out) ← e.scheduler.schedule cfg env
    return { scheduler := s, inFlight := e.inFlight ++ [out] }
  | .updateFromOutput mro =>
    match e.inFlight with
    | [] => .error (.index "pop from an empty deque")
    | out :: rest => do
      let (s, _) ← e.scheduler.updateFromOutput cfg out mro
      return { scheduler := s, inFlight := rest }
  | .finishRequests requestIds status replies => do
    let s ← e.scheduler.finishRequests cfg replies requestIds status
    return { e with scheduler := s }
  | .updateDraftTokenIds drafts validateTokens =>
    .ok { e with scheduler := e.scheduler.updateDraftTokenIds validateTokens drafts }
  | .updateDraftTokenIdsInOutput drafts validateTokens =>
    match e.inFlight.getLast? with
    | none => .error (.index "deque index out of range")
    | some out =>
      let out := e.scheduler.updateDraftTokenIdsInOutput validateTokens drafts out
      .ok { e with inFlight := e.inFlight.dropLast ++ [out] }
  | .setPauseState pauseState => .ok { e with scheduler := { e.scheduler with pauseState := pauseState } }
  | .resetPrefixCache resetRunningRequests => do
    let (s, _) ← e.scheduler.resetPrefixCache cfg resetRunningRequests
    return { e with scheduler := s }

/-- A sequence of calls. -/
def run (cfg : SchedulerConfig H) (e : Engine H) (ops : List SchedOp) :
    Except Python.Error (Engine H) :=
  Run.exec (step cfg) e ops

end Engine

/-! ## A small engine

The configuration and the answers that the concrete runs of later modules start
from. -/

/-- A scheduler for prompts of a few tokens, in blocks of four. -/
def smallConfig : SchedulerConfig Digest where
  policy := .fcfs
  maxNumRunningReqs := 4
  maxNumScheduledTokens := 16
  maxModelLen := 32
  longPrefillTokenThreshold := 0
  enableChunkedPrefill := true
  disableChunkedMmInput := false
  schedulerReserveFullIsl := true
  maxNumEncoderInputTokens := 8
  encoderCacheSize := 8
  isEncoderDecoder := false
  useEagle := false
  numSpecTokens := 0
  numLookaheadTokens := 0
  maxLoras := none
  asyncScheduling := false
  usePp := false
  useV2ModelRunner := false
  needMambaBlockAlignedSplit := false
  needsKvCacheZeroing := false
  blockSize := 4
  cacheBlockSize := 4
  connector := none
  ecConnector := false
  blockHasher := some (freeHasher 4)
  idLt := fun a b => decide (a < b)
  inputIdOrder := .insertion Nat
  requestIdOrder := .insertion ReqId

/-- Nothing external is matched, and every grammar is ready. -/
def quietEnv : ScheduleEnv where
  getNumNewMatchedTokens := fun _ _ => (some 0, false)
  grammarReady := fun _ => true
  hasCacheItem := fun _ _ => false

/-- The sampled tokens and nothing else. -/
def sampled (tokens : ReqId → List Token) : ModelRunnerOutput where
  sampledTokenIds := tokens
  poolerOutput := fun _ => false
  kvConnectorOutput := none
  shouldAdvance := fun _ => false
  acceptTokens := fun _ _ => true
  requestFinished := fun _ => false

/-- A request of a prompt, as the engine receives it. -/
def addPrompt (e : EngineCoreRequest) : SchedOp := .addRequest e fun _ => false

end VllmEngine
