import VllmEngine.Lib.Python

/-!
# Requests

The scheduler's record of one request (`vllm/v1/request.py`), the multimodal
placeholder ranges it carries (`vllm/multimodal/inputs.py`) and the parameter
objects it reads. Only the fields some modelled function reads or writes are
kept: timing events, trace headers, transfer parameters and statistics are
left out.

Request ids, multimodal identifiers, LoRA names and cache salts are strings, as
in the source. Clock readings (`arrival_time`) are only compared, so they are
integers here. Token counts that the scheduler adjusts in both directions are
integers, because the source does not clamp them.
-/

namespace VllmEngine

abbrev ReqId := String
abbrev Token := Int

/-- `RequestStatus`, in declaration order: everything after `preempted` is a
finished status. -/
inductive RequestStatus
  | waiting
  | waitingForStructuredOutputGrammar
  | waitingForRemoteKvs
  | waitingForStreamingReq
  | running
  | preempted
  | finishedStopped
  | finishedLengthCapped
  | finishedAborted
  | finishedIgnored
  | finishedError
  | finishedRepetition
deriving DecidableEq, Repr

/-- `RequestStatus.is_finished`: `status > RequestStatus.PREEMPTED`. -/
def RequestStatus.isFinished : RequestStatus → Bool
  | .waiting | .waitingForStructuredOutputGrammar | .waitingForRemoteKvs
  | .waitingForStreamingReq | .running | .preempted => false
  | .finishedStopped | .finishedLengthCapped | .finishedAborted | .finishedIgnored
  | .finishedError | .finishedRepetition => true

/-- `PlaceholderRange`: where a multimodal item sits in the prompt, and which of
its positions receive an embedding (`none`: all of them). -/
structure PlaceholderRange where
  offset : Nat
  length : Nat
  isEmbed : Option (List Bool)
deriving DecidableEq, Repr

/-- `embeds_cumsum[i - 1]`, with `0` for `i = 0`: how many of the first `i`
positions receive an embedding. -/
def embedsBefore (mask : List Bool) (i : Nat) : Nat := (mask.take i).count true

/-- `PlaceholderRange.get_num_embeds`. -/
def PlaceholderRange.getNumEmbeds (p : PlaceholderRange) : Nat :=
  match p.isEmbed with
  | none => p.length
  | some mask => mask.count true

/-- `PlaceholderRange.get_embeds_indices_in_range`: the indices, among the
item's embeddings, of those inside `[startIdx, endIdx)` of the placeholder. -/
def PlaceholderRange.getEmbedsIndicesInRange (p : PlaceholderRange) (startIdx endIdx : Nat) :
    Nat × Nat :=
  match p.isEmbed with
  | none => (startIdx, endIdx)
  | some mask => (embedsBefore mask startIdx, embedsBefore mask endIdx)

/-- `MultiModalFeatureSpec`: an item's identifier and position. -/
structure MultiModalFeatureSpec where
  identifier : String
  mmPosition : PlaceholderRange
deriving DecidableEq, Repr

def MultiModalFeatureSpec.offset (f : MultiModalFeatureSpec) : Nat := f.mmPosition.offset

/-- One past the last placeholder position. -/
def MultiModalFeatureSpec.stop (f : MultiModalFeatureSpec) : Nat :=
  f.mmPosition.offset + f.mmPosition.length

/-- `LoRARequest`: the adapter's name and id. -/
structure LoRARequest where
  loraName : String
  loraIntId : Nat
deriving DecidableEq, Repr

/-- `RepetitionDetectionParams`. -/
structure RepetitionDetectionParams where
  maxPatternSize : Int
  minPatternSize : Int
  minCount : Int
deriving DecidableEq, Repr

/-- The fields of `SamplingParams` that the scheduler reads. -/
structure SamplingParams where
  maxTokens : Int
  minTokens : Int
  eosTokenId : Option Token
  stopTokenIds : List Token
  repetitionDetection : Option RepetitionDetectionParams
  structuredOutputs : Bool
  skipReadingPrefixCache : Option Bool
deriving DecidableEq, Repr

/-- The field of `PoolingParams` that the scheduler reads. -/
structure PoolingParams where
  skipReadingPrefixCache : Option Bool
deriving DecidableEq, Repr

/-- `stop_reason`: a stop token, or a text. -/
inductive StopReason
  | token (t : Token)
  | text (s : String)
deriving DecidableEq, Repr

/-- `StreamingUpdate`: the next input chunk of a streaming session. -/
structure StreamingUpdate where
  mmFeatures : Option (List MultiModalFeatureSpec)
  promptTokenIds : Option (List Token)
  maxTokens : Int
  arrivalTime : Int
  samplingParams : Option SamplingParams
deriving DecidableEq, Repr

/-- The element types that `safe_load_prompt_embeds` accepts. -/
inductive EmbedDtype
  | float32
  | bfloat16
  | float16
deriving DecidableEq, Repr

/-- A tensor of prompt embeddings: its element type, which is kept as given, and
the raw data of each position's row. -/
structure PromptEmbeds where
  dtype : EmbedDtype
  rows : List (List UInt8)
deriving DecidableEq, Repr

/-- `prompt_embeds[s:e]`. -/
def PromptEmbeds.slice (t : PromptEmbeds) (s e : Nat) : PromptEmbeds :=
  { t with rows := (t.rows.take e).drop s }

/-- `tensor_data` (`vllm/v1/utils.py`): the data as bytes, without type and
shape. -/
def PromptEmbeds.tensorData (t : PromptEmbeds) : List UInt8 := t.rows.flatten

/-- `Request`. `H` is the type of block hashes. -/
structure Request (H : Type) where
  requestId : ReqId
  priority : Int
  arrivalTime : Int
  samplingParams : Option SamplingParams
  poolingParams : Option PoolingParams
  loraRequest : Option LoRARequest
  useStructuredOutput : Bool
  status : RequestStatus
  stopReason : Option StopReason
  maxTokens : Int
  promptTokenIds : Option (List Token)
  promptEmbeds : Option PromptEmbeds
  numPromptTokens : Nat
  outputTokenIds : List Token
  allTokenIds : List Token
  numOutputPlaceholders : Int
  discardLatestAsyncTokens : Bool
  specTokenIds : List Token
  numComputedTokens : Int
  cacheSalt : Option String
  mmFeatures : List MultiModalFeatureSpec
  isPrefillChunk : Bool
  numPreemptions : Nat
  blockHashes : List H
  skipReadingPrefixCache : Bool
  resumable : Bool
  streamingQueue : Option (List (Option StreamingUpdate))
deriving DecidableEq, Repr

namespace Request

variable {H : Type}

/-- `Request.num_tokens`. -/
def numTokens (r : Request H) : Nat := r.allTokenIds.length

/-- `Request.num_tokens_with_spec`. -/
def numTokensWithSpec (r : Request H) : Nat := r.allTokenIds.length + r.specTokenIds.length

/-- `Request.num_output_tokens`. -/
def numOutputTokens (r : Request H) : Nat := r.outputTokenIds.length

/-- `Request.has_encoder_inputs`. -/
def hasEncoderInputs (r : Request H) : Bool := !r.mmFeatures.isEmpty

/-- `Request.is_finished`. -/
def isFinished (r : Request H) : Bool := r.status.isFinished

/-- `Request.get_num_encoder_embeds`. -/
def getNumEncoderEmbeds (r : Request H) (inputId : Nat) : Nat :=
  match r.mmFeatures[inputId]? with
  | some f => f.mmPosition.getNumEmbeds
  | none => 0

/-- `Request.__lt__`: priority, then arrival time, then request id. The final
tie-break on object identity only compares a request with itself. -/
def lt (a b : Request H) : Bool :=
  if a.priority ≠ b.priority then a.priority < b.priority
  else if a.arrivalTime ≠ b.arrivalTime then a.arrivalTime < b.arrivalTime
  else a.requestId < b.requestId

end Request

/-- `StreamingUpdate.from_request`: `None` for a request that is not resumable. -/
def StreamingUpdate.fromRequest {H : Type} (r : Request H) : Option StreamingUpdate :=
  if r.resumable then
    some { mmFeatures := some r.mmFeatures
           promptTokenIds := r.promptTokenIds
           maxTokens := r.maxTokens
           arrivalTime := r.arrivalTime
           samplingParams := r.samplingParams }
  else none

end VllmEngine
