import VllmEngine.Sched.State

/-!
# Scheduling the running requests

The first half of `Scheduler.schedule` (`vllm/v1/core/sched/scheduler.py`): the
running requests in order, with their encoder inputs, preempting others while
blocks are missing.

Mirroring notes:
- The local variables of `schedule` are the fields of `Pass`. `revoked` is not a
  variable of the source: it records the requests that were scheduled in this
  call and then preempted by it.
- A `while` loop takes a bound on its rounds, which its callers choose so that
  it is never what ends the loop.
-/

namespace VllmEngine

variable {H : Type} [DecidableEq H]

/-- The local variables of `schedule`. -/
structure Pass where
  scheduledNewReqs : List ReqRef
  scheduledResumedReqs : List ReqRef
  scheduledRunningReqs : List ReqRef
  preemptedReqs : List ReqRef
  reqToNewBlocks : Dict ReqId (List (List BlockId))
  numScheduledTokens : Dict ReqId Int
  tokenBudget : Int
  scheduledEncoderInputs : Dict ReqId (List Nat)
  encoderComputeBudget : Int
  scheduledSpecDecodeTokens : Dict ReqId (List Token)
  scheduledLoras : List Nat
  stepSkippedWaiting : RequestQueue
  reqIndex : Nat
  revoked : List ReqRef

namespace Scheduler

/-- `_mamba_block_aligned_split`. -/
def mambaBlockAlignedSplit (cfg : SchedulerConfig H) (r : Request H) (numNewTokens : Int)
    (numNewLocalComputedTokens numExternalComputedTokens : Nat) : Except Python.Error Int := do
  Python.require (decide (numExternalComputedTokens = 0)) "External KV connector is not verified yet"
  let numComputedTokens : Int :=
    r.numComputedTokens + numNewLocalComputedTokens + numExternalComputedTokens
  if numComputedTokens < max (r.numPromptTokens : Int) ((r.numTokens : Int) - 1) then
    let blockSize : Int := cfg.cacheBlockSize
    let lastCachePosition : Int := r.numTokens - Int.fmod r.numTokens blockSize
    let lastCachePosition :=
      if cfg.useEagle then max (lastCachePosition - blockSize) 0 else lastCachePosition
    let numComputedTokensAfterSched := numComputedTokens + numNewTokens
    if numComputedTokensAfterSched < lastCachePosition then
      return Int.fdiv numNewTokens blockSize * blockSize
    else if numComputedTokens < lastCachePosition ∧
        lastCachePosition < numComputedTokensAfterSched then
      return lastCachePosition - numComputedTokens
    else return numNewTokens
  else return numNewTokens

/-- The split, where the configuration asks for it. -/
def alignSplit (cfg : SchedulerConfig H) (r : Request H) (numNewTokens : Int)
    (numNewLocalComputedTokens numExternalComputedTokens : Nat) : Except Python.Error Int :=
  if cfg.needMambaBlockAlignedSplit then
    mambaBlockAlignedSplit cfg r numNewTokens numNewLocalComputedTokens numExternalComputedTokens
  else .ok numNewTokens

/-! ## Encoder inputs -/

/-- The local variables of `_try_schedule_encoder_inputs`, with the manager it
changes. -/
structure EncoderPlan where
  manager : EncoderCacheManager
  encoderInputsToSchedule : List Nat
  numNewTokens : Int
  encoderComputeBudget : Int
  externalLoadEncoderInput : List Nat
  mmHashesToSchedule : List String
  numEmbedsToSchedule : Nat

/-- `shift_computed_tokens=1 if self.use_eagle else 0`. -/
def shiftComputedTokens (cfg : SchedulerConfig H) : Int := if cfg.useEagle then 1 else 0

/-- Whether the input needs no scheduling because it is scheduled already in
this call, or cached. -/
def encoderInputReady (cfg : SchedulerConfig H) (r : Request H) (i : Nat)
    (f : MultiModalFeatureSpec) (plan : EncoderPlan) :
    Except Python.Error (EncoderCacheManager × Bool) :=
  if cfg.isEncoderDecoder then .ok (plan.manager, false)
  else if f.identifier ∈ plan.mmHashesToSchedule then .ok (plan.manager, true)
  else plan.manager.checkAndUpdateCache r i

/-- The indices of the item's embeddings inside the scheduled range. The first
test of the loop makes the end nonnegative. -/
def embedsInRange (f : MultiModalFeatureSpec) (numComputedTokens numNewTokens : Int) : Nat × Nat :=
  let startIdxRel := max 0 (numComputedTokens - f.offset)
  let endIdxRel := min (f.mmPosition.length : Int) (numComputedTokens + numNewTokens - f.offset)
  f.mmPosition.getEmbedsIndicesInRange startIdxRel.toNat endIdxRel.toNat

/-- The end of the loop body, for an input that is not ready; the Boolean says
whether the loop breaks. -/
def scheduleEncoderInput (cfg : SchedulerConfig H) (env : ScheduleEnv) (ref : ReqRef)
    (r : Request H) (numComputedTokens : Int) (i : Nat) (f : MultiModalFeatureSpec)
    (plan : EncoderPlan) : Except Python.Error (EncoderPlan × Bool) := do
  let startPos : Int := f.offset
  let shift := shiftComputedTokens cfg
  let (m, fits) ← plan.manager.canAllocate r i plan.encoderComputeBudget plan.numEmbedsToSchedule
  let plan := { plan with manager := m }
  if !fits then
    if numComputedTokens + shift < startPos then
      return ({ plan with numNewTokens := startPos - (numComputedTokens + shift) }, true)
    else return ({ plan with numNewTokens := 0 }, true)
  else
    let (currEmbedsStart, currEmbedsEnd) := embedsInRange f numComputedTokens plan.numNewTokens
    let numEncoderEmbeds := f.mmPosition.getNumEmbeds
    if currEmbedsEnd = currEmbedsStart then return (plan, false)
    else if cfg.ecConnector && env.hasCacheItem ref i then
      return ({ plan with
        mmHashesToSchedule := plan.mmHashesToSchedule ++ [f.identifier]
        externalLoadEncoderInput := plan.externalLoadEncoderInput ++ [i]
        numEmbedsToSchedule := plan.numEmbedsToSchedule + numEncoderEmbeds }, false)
    else
      return ({ plan with
        numEmbedsToSchedule := plan.numEmbedsToSchedule + numEncoderEmbeds
        encoderComputeBudget := plan.encoderComputeBudget - numEncoderEmbeds
        mmHashesToSchedule := plan.mmHashesToSchedule ++ [f.identifier]
        encoderInputsToSchedule := plan.encoderInputsToSchedule ++ [i] }, false)

/-- The body of the loop over the request's features. -/
def visitEncoderInput (cfg : SchedulerConfig H) (env : ScheduleEnv) (ref : ReqRef) (r : Request H)
    (numComputedTokens : Int) (i : Nat) (f : MultiModalFeatureSpec) (plan : EncoderPlan) :
    Except Python.Error (EncoderPlan × Bool) :=
  let startPos : Int := f.offset
  let numEncoderTokens : Int := f.mmPosition.length
  let shift := shiftComputedTokens cfg
  if startPos ≥ numComputedTokens + plan.numNewTokens + shift then .ok (plan, true)
  else if cfg.isEncoderDecoder ∧ numComputedTokens > 0 then do
    Python.require (decide (startPos = 0))
      ("Encoder input should be processed at the beginning of "
        ++ "the sequence when encoder-decoder models are used.")
    return (plan, false)
  else if startPos + numEncoderTokens ≤ numComputedTokens then .ok (plan, false)
  else do
    let (m, ready) ← encoderInputReady cfg r i f plan
    let plan := { plan with manager := m }
    if ready then return (plan, false)
    else if cfg.disableChunkedMmInput ∧ numComputedTokens < startPos ∧
        numComputedTokens + plan.numNewTokens < startPos + numEncoderTokens then
      -- roll back to before the item
      return ({ plan with numNewTokens := max 0 (startPos - (numComputedTokens + shift)) }, true)
    else scheduleEncoderInput cfg env ref r numComputedTokens i f plan

/-- The loop over the features `i, i + 1, …`. -/
def encoderInputLoop (cfg : SchedulerConfig H) (env : ScheduleEnv) (ref : ReqRef) (r : Request H)
    (numComputedTokens : Int) :
    Nat → List MultiModalFeatureSpec → EncoderPlan → Except Python.Error EncoderPlan
  | _, [], plan => .ok plan
  | i, f :: fs, plan => do
    let (plan, stop) ← visitEncoderInput cfg env ref r numComputedTokens i f plan
    if stop then return plan
    else encoderInputLoop cfg env ref r numComputedTokens (i + 1) fs plan

/-- No encoder inputs. -/
def EncoderPlan.nothing (m : EncoderCacheManager) (numNewTokens encoderComputeBudget : Int) :
    EncoderPlan :=
  { manager := m
    encoderInputsToSchedule := []
    numNewTokens := numNewTokens
    encoderComputeBudget := encoderComputeBudget
    externalLoadEncoderInput := []
    mmHashesToSchedule := []
    numEmbedsToSchedule := 0 }

/-- `_try_schedule_encoder_inputs`, called for requests with encoder inputs. -/
def tryScheduleEncoderInputs (cfg : SchedulerConfig H) (env : ScheduleEnv) (s : Scheduler H)
    (ref : ReqRef) (numComputedTokens numNewTokens encoderComputeBudget : Int) :
    Except Python.Error EncoderPlan :=
  let r := s.obj ref
  let plan := EncoderPlan.nothing s.encoderCacheManager numNewTokens encoderComputeBudget
  if numNewTokens = 0 ∨ !r.hasEncoderInputs then .ok plan
  else encoderInputLoop cfg env ref r numComputedTokens 0 r.mmFeatures plan

/-- `encoder_cache_manager.allocate` for each of the inputs. -/
def allocateEncoderInputs (s : Scheduler H) (ref : ReqRef) (inputs : List Nat) :
    Except Python.Error (Scheduler H) := do
  let m ← inputs.foldlM (fun m i => m.allocate (s.obj ref) i) s.encoderCacheManager
  return { s with encoderCacheManager := m }

/-- `encoder_cache_manager.free(request)`. -/
def freeEncoder (cfg : SchedulerConfig H) (s : Scheduler H) (ref : ReqRef) : Scheduler H :=
  { s with encoderCacheManager :=
      s.encoderCacheManager.free cfg.inputIdOrder.walk (s.obj ref) }

/-- Put the scheduled encoder inputs into the output and allocate them. -/
def commitEncoderInputs (s : Scheduler H) (p : Pass) (ref : ReqRef) (plan : EncoderPlan) :
    Except Python.Error (Scheduler H × Pass) :=
  let reqId := (s.obj ref).requestId
  if plan.encoderInputsToSchedule ≠ [] then do
    let s ← s.allocateEncoderInputs ref plan.encoderInputsToSchedule
    return (s, { p with
      scheduledEncoderInputs := p.scheduledEncoderInputs.set reqId plan.encoderInputsToSchedule
      encoderComputeBudget := plan.encoderComputeBudget })
  else .ok (s, p)

/-! ## Running requests -/

/-- The assignments of `_preempt_request`. -/
def resetForPreemption (r : Request H) : Request H :=
  { r with status := .preempted
           numComputedTokens := 0
           specTokenIds := []
           numPreemptions := r.numPreemptions + 1 }

/-- `_preempt_request`. -/
def preemptRequest (cfg : SchedulerConfig H) (s : Scheduler H) (ref : ReqRef) :
    Except Python.Error (Scheduler H) := do
  Python.require (decide ((s.obj ref).status = .running)) "Only running requests can be preempted"
  let kv ← s.kvCacheManager.free (s.obj ref).requestId
  let s := { s with kvCacheManager := kv }
  let s := s.freeEncoder cfg ref
  let s := s.modify ref resetForPreemption
  return { s with waiting := RequestQueue.prependRequest cfg.policy (s.lt cfg) s.waiting ref }

/-- One comparison of `max` by `(r.priority, r.arrival_time)`. -/
def lowerPriority (s : Scheduler H) (best r : ReqRef) : ReqRef :=
  if (s.obj best).priority < (s.obj r).priority ∨ ((s.obj best).priority = (s.obj r).priority ∧
      (s.obj best).arrivalTime < (s.obj r).arrivalTime) then r
  else best

/-- `max(self.running, key=lambda r: (r.priority, r.arrival_time))`: the first of
the maximal requests. -/
def lowestPriority (s : Scheduler H) : List ReqRef → Option ReqRef
  | [] => none
  | r :: rs => some (rs.foldl s.lowerPriority r)

/-- The victim of a preemption, and the running list without it. -/
def popVictim (cfg : SchedulerConfig H) (s : Scheduler H) :
    Except Python.Error (ReqRef × List ReqRef) :=
  match cfg.policy with
  | .priority =>
    match s.lowestPriority s.running with
    | none => .error (.value "max() iterable argument is empty")
    | some victim => .ok (victim, s.running.erase victim)
  | .fcfs =>
    match s.running.getLast? with
    | none => .error (.index "pop from empty list")
    | some victim => .ok (victim, s.running.dropLast)

/-- Under the priority policy a victim that was scheduled in this call is taken
out of the output again. -/
def revoke (cfg : SchedulerConfig H) (s : Scheduler H) (p : Pass) (victim : ReqRef) :
    Except Python.Error Pass :=
  if cfg.policy = .priority ∧ victim ∈ p.scheduledRunningReqs then
    let r := s.obj victim
    match p.numScheduledTokens.get? r.requestId, p.reqToNewBlocks.get? r.requestId with
    | some numTokens, some _ =>
      let preemptedEncoderInputs := (p.scheduledEncoderInputs.get? r.requestId).getD []
      let numEmbedsToRestore := (preemptedEncoderInputs.map r.getNumEncoderEmbeds).sum
      .ok { p with
        scheduledRunningReqs := p.scheduledRunningReqs.erase victim
        tokenBudget := p.tokenBudget + numTokens
        numScheduledTokens := p.numScheduledTokens.erase r.requestId
        reqToNewBlocks := p.reqToNewBlocks.erase r.requestId
        scheduledSpecDecodeTokens := p.scheduledSpecDecodeTokens.erase r.requestId
        scheduledEncoderInputs := p.scheduledEncoderInputs.erase r.requestId
        encoderComputeBudget := p.encoderComputeBudget + numEmbedsToRestore
        reqIndex := p.reqIndex - 1 }
    | _, _ => .error (.key r.requestId)
  else .ok p

/-- Preempt one running request. -/
def preemptVictim (cfg : SchedulerConfig H) (s : Scheduler H) (p : Pass) :
    Except Python.Error (Scheduler H × Pass × ReqRef) := do
  let (victim, running) ← s.popVictim cfg
  let s := { s with running := running }
  let revoked := if victim ∈ p.scheduledRunningReqs then p.revoked ++ [victim] else p.revoked
  let p ← s.revoke cfg p victim
  let s ← s.preemptRequest cfg victim
  return (s, { p with preemptedReqs := p.preemptedReqs ++ [victim], revoked := revoked }, victim)

/-- The arguments of `allocate_slots` for a running request. -/
def runningSlotArgs (cfg : SchedulerConfig H) (s : Scheduler H) (numNewTokens : Int) :
    KVCacheManager.SlotArgs :=
  { numNewTokens := numNewTokens
    numNewComputedTokens := 0
    newComputedBlocks := s.kvCacheManager.emptyKvCacheBlocks
    numLookaheadTokens := cfg.numLookaheadTokens
    numExternalComputedTokens := 0
    delayCacheBlocks := false
    numEncoderTokens := 0 }

/-- The `while True` loop around `allocate_slots`: preempt until the blocks
suffice or the request itself is the victim. Every round but the last takes one
request off the running list. -/
def allocateRunning (cfg : SchedulerConfig H) (ref : ReqRef) (numNewTokens : Int) :
    Nat → Scheduler H → Pass →
      Except Python.Error (Scheduler H × Pass × Option (List (List BlockId)))
  | 0, _, _ => .error (.index "pop from empty list")
  | bound + 1, s, p => do
    let (kv, newBlocks) ← s.kvCacheManager.allocateSlots (s.obj ref)
      (runningSlotArgs cfg s numNewTokens)
    let s := { s with kvCacheManager := kv }
    match newBlocks with
    | some blocks => return (s, p, some blocks)
    | none =>
      let (s, p, victim) ← s.preemptVictim cfg p
      if victim = ref then return (s, p, none)
      else allocateRunning cfg ref numNewTokens bound s p

/-- The request has reached `max_tokens` in the steps already in flight. -/
def reachedMaxTokens (r : Request H) : Bool :=
  decide (r.numOutputPlaceholders > 0 ∧
    r.numComputedTokens + 2 - r.numOutputPlaceholders ≥ r.numPromptTokens + r.maxTokens)

/-- `if 0 < long_prefill_token_threshold < num_new_tokens`. -/
def capPrefill (cfg : SchedulerConfig H) (numNewTokens : Int) : Int :=
  if 0 < cfg.longPrefillTokenThreshold ∧ cfg.longPrefillTokenThreshold < numNewTokens then
    cfg.longPrefillTokenThreshold
  else numNewTokens

/-- `num_new_tokens` of a running request, before its encoder inputs. -/
def runningNewTokens (cfg : SchedulerConfig H) (r : Request H) (tokenBudget : Int) : Int :=
  min (min (capPrefill cfg (r.numTokensWithSpec + r.numOutputPlaceholders - r.numComputedTokens))
    tokenBudget) ((cfg.maxModelLen : Int) - 1 - r.numComputedTokens)

/-- How many tokens a running request gets, and its encoder inputs. -/
def planRunning (cfg : SchedulerConfig H) (env : ScheduleEnv) (s : Scheduler H) (p : Pass)
    (ref : ReqRef) : Except Python.Error (Scheduler H × Int × EncoderPlan) := do
  let r := s.obj ref
  let plan ← s.tryScheduleEncoderInputs cfg env ref r.numComputedTokens
    (runningNewTokens cfg r p.tokenBudget) p.encoderComputeBudget
  let numNewTokens ← alignSplit cfg r plan.numNewTokens 0 0
  return ({ s with encoderCacheManager := plan.manager }, numNewTokens, plan)

/-- The scheduled draft tokens of a running request. -/
def commitSpecTokens (s : Scheduler H) (p : Pass) (ref : ReqRef) (numNewTokens : Int) :
    Scheduler H × Pass :=
  let r := s.obj ref
  if r.specTokenIds = [] then (s, p)
  else
    let numScheduledSpecTokens :=
      numNewTokens + r.numComputedTokens - r.numTokens - r.numOutputPlaceholders
    let s := s.modify ref fun r => { r with specTokenIds := [] }
    let specTokenIds := r.specTokenIds.take numScheduledSpecTokens.toNat
    if numScheduledSpecTokens > 0 then
      (s, { p with
        scheduledSpecDecodeTokens := p.scheduledSpecDecodeTokens.set r.requestId specTokenIds })
    else (s, p)

/-- Schedule a running request that has its blocks. -/
def commitRunning (s : Scheduler H) (p : Pass) (ref : ReqRef) (numNewTokens : Int)
    (plan : EncoderPlan) (newBlocks : List (List BlockId)) :
    Except Python.Error (Scheduler H × Pass) := do
  let reqId := (s.obj ref).requestId
  let p := { p with
    scheduledRunningReqs := p.scheduledRunningReqs ++ [ref]
    reqToNewBlocks := p.reqToNewBlocks.set reqId newBlocks
    numScheduledTokens := p.numScheduledTokens.set reqId numNewTokens
    tokenBudget := p.tokenBudget - numNewTokens
    reqIndex := p.reqIndex + 1 }
  let (s, p) := s.commitSpecTokens p ref numNewTokens
  let (s, p) ← s.commitEncoderInputs p ref plan
  let s ← s.allocateEncoderInputs ref plan.externalLoadEncoderInput
  return (s, p)

/-- One round of the running loop; the Boolean says whether it goes on. -/
def scheduleRunning (cfg : SchedulerConfig H) (env : ScheduleEnv) (s : Scheduler H) (p : Pass)
    (ref : ReqRef) : Except Python.Error (Scheduler H × Pass × Bool) :=
  if reachedMaxTokens (s.obj ref) then .ok (s, { p with reqIndex := p.reqIndex + 1 }, true)
  else do
    let (s, numNewTokens, plan) ← s.planRunning cfg env p ref
    if numNewTokens = 0 then return (s, { p with reqIndex := p.reqIndex + 1 }, true)
    else do
      let (s, p, newBlocks) ← allocateRunning cfg ref numNewTokens (s.running.length + 1) s p
      match newBlocks with
      | none => return (s, p, false)
      | some blocks =>
        let (s, p) ← s.commitRunning p ref numNewTokens plan blocks
        return (s, p, true)

/-- The loop over the running requests. A round either moves `req_index` on or
shortens the list. -/
def runningPass (cfg : SchedulerConfig H) (env : ScheduleEnv) :
    Nat → Scheduler H → Pass → Except Python.Error (Scheduler H × Pass)
  | 0, s, p => .ok (s, p)
  | bound + 1, s, p =>
    match s.running[p.reqIndex]? with
    | none => .ok (s, p)
    | some ref =>
      if p.tokenBudget > 0 then do
        let (s, p, go) ← s.scheduleRunning cfg env p ref
        if go then runningPass cfg env bound s p else return (s, p)
      else .ok (s, p)

/-- The LoRAs of the scheduled running requests. -/
def recordLoras (cfg : SchedulerConfig H) (s : Scheduler H) (p : Pass) :
    Except Python.Error Pass :=
  match cfg.maxLoras with
  | none => .ok p
  | some maxLoras => do
    let loras := (p.scheduledRunningReqs.filterMap fun r =>
      ((s.obj r).loraRequest.map (·.loraIntId)).filter (0 < ·)).dedup
    Python.require (decide (loras.length ≤ maxLoras)) ""
    return { p with scheduledLoras := loras }

end Scheduler

end VllmEngine
