import VllmEngine.BlockHash.Session
import VllmEngine.Kv.Manager
import VllmEngine.Lib.Heapq
import VllmEngine.Sched.EncoderCache

/-!
# Request queues

`FCFSRequestQueue` and `PriorityRequestQueue`
(`vllm/v1/core/sched/request_queue.py`). A queue holds references to request
objects; under the priority policy it is a heap ordered by `lt`, the order of
the objects at the time of the call.

Whatever the order is, an operation keeps the queue's elements, up to what it
adds or removes:

> `addRequest_perm`, `prependRequest_perm`, `popRequest_ok`.
-/

namespace VllmEngine

/-- `SchedulingPolicy`. -/
inductive SchedulingPolicy
  | fcfs
  | priority
deriving DecidableEq, Repr

/-- A `Request` object, as opposed to its current contents. -/
abbrev ReqRef := Nat

/-- The contents of a `RequestQueue`: a deque, or a heap. -/
abbrev RequestQueue := List ReqRef

namespace RequestQueue

/-- `add_request`. -/
def addRequest (policy : SchedulingPolicy) (lt : ReqRef → ReqRef → Bool) (q : RequestQueue)
    (r : ReqRef) : RequestQueue :=
  match policy with
  | .fcfs => q ++ [r]
  | .priority => Heapq.heappush lt q r

/-- `pop_request`. -/
def popRequest (policy : SchedulingPolicy) (lt : ReqRef → ReqRef → Bool) (q : RequestQueue) :
    Except Python.Error (ReqRef × RequestQueue) :=
  match policy with
  | .fcfs =>
    match q with
    | [] => .error (.index "pop from an empty deque")
    | r :: rest => .ok (r, rest)
  | .priority =>
    match Heapq.heappop lt q with
    | none => .error (.index "pop from empty heap")
    | some res => .ok res

/-- `peek_request`. -/
def peekRequest (policy : SchedulingPolicy) (q : RequestQueue) : Except Python.Error ReqRef :=
  match q with
  | [] =>
    .error (.index (match policy with
      | .fcfs => "peek from an empty queue"
      | .priority => "peek from empty heap"))
  | r :: _ => .ok r

/-- `prepend_request`; a heap has no front. -/
def prependRequest (policy : SchedulingPolicy) (lt : ReqRef → ReqRef → Bool) (q : RequestQueue)
    (r : ReqRef) : RequestQueue :=
  match policy with
  | .fcfs => r :: q
  | .priority => addRequest .priority lt q r

/-- Iteration over the queue; a heap is copied and popped until it is empty. -/
def iter (policy : SchedulingPolicy) (lt : ReqRef → ReqRef → Bool) (q : RequestQueue) :
    List ReqRef :=
  match policy with
  | .fcfs => q
  | .priority => Heapq.popAll lt q.length q

/-- `prepend_requests`: one by one, so that a deque receives them in reverse. -/
def prependRequests (policy : SchedulingPolicy) (lt : ReqRef → ReqRef → Bool)
    (q requests : RequestQueue) : RequestQueue :=
  (iter policy lt requests).foldl (prependRequest policy lt) q

/-- `remove_requests`. -/
def removeRequests (policy : SchedulingPolicy) (lt : ReqRef → ReqRef → Bool) (q : RequestQueue)
    (requests : List ReqRef) : RequestQueue :=
  let rest := q.filter fun r => decide (r ∉ requests)
  match policy with
  | .fcfs => rest
  | .priority => Heapq.heapify lt rest

/-! ## The elements -/

variable {policy : SchedulingPolicy} {lt : ReqRef → ReqRef → Bool}

theorem addRequest_perm (q : RequestQueue) (r : ReqRef) :
    (addRequest policy lt q r).Perm (r :: q) := by
  cases policy with
  | fcfs => exact List.perm_append_singleton r q
  | priority => exact Heapq.heappush_perm q r

theorem prependRequest_perm (q : RequestQueue) (r : ReqRef) :
    (prependRequest policy lt q r).Perm (r :: q) := by
  cases policy with
  | fcfs => exact List.Perm.refl _
  | priority =>
    show (addRequest .priority lt q r).Perm (r :: q)
    exact addRequest_perm q r

/-- A pop returns the element that a peek shows and leaves the others. -/
theorem popRequest_ok {q rest : RequestQueue} {r : ReqRef}
    (h : popRequest policy lt q = .ok (r, rest)) :
    peekRequest policy q = .ok r ∧ q.Perm (r :: rest) := by
  unfold popRequest at h
  cases policy with
  | fcfs =>
    cases q with
    | nil => cases h
    | cons a q =>
      obtain ⟨rfl, rfl⟩ := Prod.mk.inj (Except.ok.inj h)
      exact ⟨rfl, List.Perm.refl _⟩
  | priority =>
    dsimp only at h
    cases hpop : Heapq.heappop lt q with
    | none => rw [hpop] at h; cases h
    | some res =>
      rw [hpop] at h
      obtain rfl := Except.ok.inj h
      obtain ⟨hhead, hperm⟩ := Heapq.heappop_perm hpop
      refine ⟨?_, hperm⟩
      cases q with
      | nil => cases hhead
      | cons a q =>
        obtain rfl := Option.some.inj hhead
        rfl

end RequestQueue

end VllmEngine

/-!
## The scheduler's state

The fields of `Scheduler` (`vllm/v1/core/sched/scheduler.py`) and
`AsyncScheduler`, the options it reads from its configuration, the
`SchedulerOutput` it hands to the workers (`vllm/v1/core/sched/output.py`) and
what it is told from outside.

Mirroring notes:
- The queues and `requests` hold references to `Request` objects, which several
  of them can share and which are compared by identity. A reference is a number
  and `obj` gives the object's current contents.
- What lies outside (the KV and EC connectors, the grammar backend, the model
  runner) answers through `ScheduleEnv`, `ModelRunnerOutput` and `FreeReplies`;
  nothing is assumed about the answers.
- A set is a list whose order nothing reads. Where the source walks over a set,
  a `SetOrder` gives the order of the walk.
- Timestamps, statistics, events, the grammar bitmask and the common-prefix
  count are left out.
-/

namespace VllmEngine

variable {H : Type}

instance : Inhabited (Request H) :=
  ⟨{ requestId := "", priority := 0, arrivalTime := 0, samplingParams := none,
     poolingParams := none, loraRequest := none, useStructuredOutput := false, status := .waiting,
     stopReason := none, maxTokens := 0, promptTokenIds := none, promptEmbeds := none,
     numPromptTokens := 0, outputTokenIds := [], allTokenIds := [], numOutputPlaceholders := 0,
     discardLatestAsyncTokens := false, specTokenIds := [], numComputedTokens := 0,
     cacheSalt := none, mmFeatures := [], isPrefillChunk := false, numPreemptions := 0,
     blockHashes := [], skipReadingPrefixCache := false, resumable := false,
     streamingQueue := none }⟩

/-! ## Configuration -/

/-- A configured KV connector: whether it supports hybrid memory allocation, and
`kv_load_failure_policy == "recompute"`. -/
structure ConnectorConfig where
  supportsHMA : Bool
  recomputeKvLoadFailures : Bool
deriving DecidableEq, Repr

/-- The order of a walk over a Python set. -/
structure SetOrder (α : Type) where
  walk : List α → List α
  perm : ∀ l, (walk l).Perm l

/-- The walk in the order of insertion. -/
def SetOrder.insertion (α : Type) : SetOrder α := ⟨id, fun l => List.Perm.refl l⟩

structure SchedulerConfig (H : Type) where
  policy : SchedulingPolicy
  maxNumRunningReqs : Nat
  maxNumScheduledTokens : Nat
  maxModelLen : Nat
  longPrefillTokenThreshold : Int
  enableChunkedPrefill : Bool
  disableChunkedMmInput : Bool
  schedulerReserveFullIsl : Bool
  maxNumEncoderInputTokens : Nat
  encoderCacheSize : Nat
  isEncoderDecoder : Bool
  useEagle : Bool
  numSpecTokens : Nat
  numLookaheadTokens : Nat
  maxLoras : Option Nat
  asyncScheduling : Bool
  usePp : Bool
  useV2ModelRunner : Bool
  needMambaBlockAlignedSplit : Bool
  needsKvCacheZeroing : Bool
  blockSize : Nat
  cacheBlockSize : Nat
  connector : Option ConnectorConfig
  ecConnector : Bool
  blockHasher : Option (BlockHasher H)
  /-- `id(a) < id(b)`: nothing fixes the order of addresses. -/
  idLt : ReqRef → ReqRef → Bool
  inputIdOrder : SetOrder Nat
  requestIdOrder : SetOrder ReqId

/-- `self.recompute_kv_load_failures`. -/
def SchedulerConfig.recomputeKvLoadFailures (cfg : SchedulerConfig H) : Bool :=
  match cfg.connector with
  | some c => c.recomputeKvLoadFailures
  | none => true

/-! ## Outputs and replies -/

/-- `NewRequestData`, less the parameters copied from the request. -/
structure NewRequestData where
  reqId : ReqId
  promptTokenIds : Option (List Token)
  mmFeatures : List MultiModalFeatureSpec
  blockIds : List (List BlockId)
  numComputedTokens : Int
  prefillTokenIds : Option (List Token)
deriving DecidableEq

structure CachedRequestData where
  reqIds : List ReqId
  resumedReqIds : List ReqId
  newTokenIds : List (List Token)
  allTokenIds : Dict ReqId (List Token)
  newBlockIds : List (Option (List (List BlockId)))
  numComputedTokens : List Int
  numOutputTokens : List Int
deriving DecidableEq

structure SchedulerOutput where
  scheduledNewReqs : List NewRequestData
  scheduledCachedReqs : CachedRequestData
  numScheduledTokens : Dict ReqId Int
  totalNumScheduledTokens : Int
  scheduledSpecDecodeTokens : Dict ReqId (List Token)
  scheduledEncoderInputs : Dict ReqId (List Nat)
  preemptedReqIds : List ReqId
  finishedReqIds : List ReqId
  freeEncoderMmHashes : List String
  newBlockIdsToZero : Option (List BlockId)
  hasStructuredOutputRequests : Bool
  pendingStructuredOutputTokens : Bool
deriving DecidableEq

/-- What `schedule` is told from outside. The first argument of a reply is the
number of rounds left in the waiting pass, so that no two rounds share one. -/
structure ScheduleEnv where
  getNumNewMatchedTokens : Nat → Nat → Option Nat × Bool
  grammarReady : Nat → Bool
  hasCacheItem : ReqRef → Nat → Bool

/-- `connector.request_finished`: whether the blocks are still needed. -/
abbrev FreeReplies := ReqId → Bool

structure KVConnectorOutput where
  finishedSending : List ReqId
  finishedRecving : List ReqId
  invalidBlockIds : List BlockId
deriving DecidableEq, Repr

/-- `ModelRunnerOutput`, with the replies of the grammar backend and the
connector while it is processed. -/
structure ModelRunnerOutput where
  sampledTokenIds : ReqId → List Token
  poolerOutput : ReqId → Bool
  kvConnectorOutput : Option KVConnectorOutput
  shouldAdvance : ReqId → Bool
  acceptTokens : ReqId → List Token → Bool
  requestFinished : FreeReplies

/-- `FinishReason`. -/
inductive FinishReason
  | stop
  | length
  | abort
  | error
  | repetition
deriving DecidableEq, Repr

/-- `RequestStatus.get_finished_reason`. -/
def RequestStatus.getFinishedReason : RequestStatus → Option FinishReason
  | .finishedStopped => some .stop
  | .finishedLengthCapped => some .length
  | .finishedAborted => some .abort
  | .finishedIgnored => some .length
  | .finishedError => some .error
  | .waitingForStreamingReq => some .stop
  | .finishedRepetition => some .repetition
  | .waiting | .waitingForStructuredOutputGrammar | .waitingForRemoteKvs | .running
  | .preempted => none

/-- `EngineCoreOutput`, as far as the scheduler decides it. -/
structure EngineCoreOutput where
  requestId : ReqId
  newTokenIds : List Token
  finishReason : Option FinishReason
  stopReason : Option StopReason
deriving DecidableEq, Repr

/-- `PauseState`. -/
inductive PauseState
  | unpaused
  | pausedNew
  | pausedAll
deriving DecidableEq, Repr

/-! ## The scheduler -/

structure Scheduler (H : Type) where
  obj : ReqRef → Request H
  numObjs : Nat
  requests : Dict ReqId ReqRef
  waiting : RequestQueue
  skippedWaiting : RequestQueue
  running : List ReqRef
  finishedReqIds : List ReqId
  numWaitingForStreamingInput : Int
  finishedRecvingKvReqIds : List ReqId
  failedRecvingKvReqIds : List ReqId
  prevStepScheduledReqIds : List ReqId
  encoderCacheManager : EncoderCacheManager
  kvCacheManager : KVCacheManager H
  pauseState : PauseState

namespace Scheduler

/-- `Scheduler.__init__`. -/
def init [DecidableEq H] (cfg : SchedulerConfig H) (specs : List KVCacheSpec) (numBlocks : Nat)
    (enableCaching : Bool) : Except Python.Error (Scheduler H) := do
  let kv ← KVCacheManager.init specs numBlocks cfg.maxModelLen cfg.blockSize enableCaching
    cfg.useEagle
  return { obj := fun _ => default
           numObjs := 0
           requests := Dict.empty
           waiting := []
           skippedWaiting := []
           running := []
           finishedReqIds := []
           numWaitingForStreamingInput := 0
           finishedRecvingKvReqIds := []
           failedRecvingKvReqIds := []
           prevStepScheduledReqIds := []
           encoderCacheManager := EncoderCacheManager.init cfg.isEncoderDecoder cfg.encoderCacheSize
           kvCacheManager := kv
           pauseState := .unpaused }

/-- Assignments to fields of one object. -/
def modify (s : Scheduler H) (r : ReqRef) (f : Request H → Request H) : Scheduler H :=
  { s with obj := Function.update s.obj r (f (s.obj r)) }

/-- `self.requests[req_id]`. -/
def getRequest (s : Scheduler H) (reqId : ReqId) : Except Python.Error ReqRef :=
  match s.requests.get? reqId with
  | some r => .ok r
  | none => .error (.key reqId)

/-- `Request.__lt__` on the current contents of two objects. -/
def lt (cfg : SchedulerConfig H) (s : Scheduler H) (a b : ReqRef) : Bool :=
  if (s.obj a).priority = (s.obj b).priority ∧ (s.obj a).arrivalTime = (s.obj b).arrivalTime ∧
      (s.obj a).requestId = (s.obj b).requestId then cfg.idLt a b
  else (s.obj a).lt (s.obj b)

/-- `_is_blocked_waiting_status`. -/
def isBlockedWaitingStatus : RequestStatus → Bool
  | .waitingForStructuredOutputGrammar | .waitingForRemoteKvs | .waitingForStreamingReq => true
  | _ => false

/-- `_enqueue_waiting_request`. -/
def enqueueWaitingRequest (cfg : SchedulerConfig H) (s : Scheduler H) (r : ReqRef) : Scheduler H :=
  if isBlockedWaitingStatus (s.obj r).status then
    { s with skippedWaiting := RequestQueue.addRequest cfg.policy (s.lt cfg) s.skippedWaiting r }
  else { s with waiting := RequestQueue.addRequest cfg.policy (s.lt cfg) s.waiting r }

/-- `remove_all`: with a single item only its first occurrence goes. -/
def removeAll (l items : List ReqRef) : List ReqRef :=
  match items with
  | [] => l
  | [item] => l.erase item
  | _ => l.filter fun r => decide (r ∉ items)

@[simp] theorem modify_obj_self (s : Scheduler H) (r : ReqRef) (f : Request H → Request H) :
    (s.modify r f).obj r = f (s.obj r) := Function.update_self _ _ _

theorem modify_obj_ne (s : Scheduler H) {r r' : ReqRef} (f : Request H → Request H) (h : r' ≠ r) :
    (s.modify r f).obj r' = s.obj r' := Function.update_of_ne h _ _

end Scheduler

end VllmEngine
