import VllmEngine.Engine.Detokenizer

/-!
# The front-end's state of a request

`RequestState` with its detokenizer and `LogprobsProcessor`, and the completions it
makes of what the engine core returns (`make_request_output`).

Everything that a tokenizer does is in `Codec`. A request is generating when it
has a detokenizer and a logprobs processor; a pooling request has neither.
-/

namespace VllmEngine.Engine

open Python

/-- The parts of the front-end that a tokenizer decides: `prime` and `decodeNext` are
a decoder before the first token and `decode_next`, `nextPosition` makes the logprobs
entry of the next position out of the entries before it and a row of logprobs, and
`addLogprob` adds the sampled logprob of a row. -/
structure Codec (δ P R F : Type) where
  prime : List Token → δ
  decodeNext : δ → List Token → Token → Text × δ
  nextPosition : Int → List P → R → P
  zeroLogprob : F
  addLogprob : F → R → F

/-- `RequestOutputKind`. -/
inductive OutputKind
  | cumulative
  | delta
  | finalOnly
deriving DecidableEq, Repr

/-- `EngineCoreOutput`: `R` is a row of logprobs, `D` a pooled tensor. -/
structure EngineCoreOutput (R X K D : Type) where
  requestId : ReqId
  newTokenIds : List Token
  newLogprobs : Option (List R)
  poolingOutput : Option D
  finishReason : Option FinishReason
  stopReason : Option StopReason
  kvTransferParams : Option K
  routedExperts : Option X
deriving DecidableEq

/-- `LogprobsProcessor`, without the logprobs of the prompt. -/
structure LogprobsProcessor (P F : Type) where
  logprobs : Option (List P)
  cumulativeLogprob : Option F
  numLogprobs : Option Int
deriving DecidableEq

variable {δ P R X F K D : Type}

namespace LogprobsProcessor

/-- `_update_sample_logprobs`. -/
def updateSampleLogprobs (p : LogprobsProcessor P F) (codec : Codec δ P R F) (rows : List R) :
    Except Error (LogprobsProcessor P F) :=
  match p.numLogprobs, p.logprobs, p.cumulativeLogprob with
  | some numLogprobs, some logprobs, some cumulativeLogprob =>
    let s := rows.foldl (fun s row =>
      (s.1 ++ [codec.nextPosition numLogprobs s.1 row], codec.addLogprob s.2 row))
      (logprobs, cumulativeLogprob)
    .ok { p with logprobs := some s.1, cumulativeLogprob := some s.2 }
  | _, _, _ => .error (.assertion "")

/-- `update_from_output`. -/
def updateFromOutput (p : LogprobsProcessor P F) (codec : Codec δ P R F)
    (newLogprobs : Option (List R)) : Except Error (LogprobsProcessor P F) :=
  match newLogprobs with
  | some rows => p.updateSampleLogprobs codec rows
  | none => .ok p

end LogprobsProcessor

/-- `RequestState`; `parentReq` and `queue` stand for references to the parent and to
the consumer's collector. -/
structure RequestState (δ P F : Type) where
  requestId : ReqId
  externalReqId : ReqId
  parentReq : Option ReqId
  requestIndex : Nat
  outputKind : OutputKind
  logprobsProcessor : Option (LogprobsProcessor P F)
  detokenizer : Option (Detokenizer δ)
  queue : Option Nat
  streamInterval : Nat
  sentTokensOffset : Nat
deriving DecidableEq

/-- The finish and stop reasons after the detokenizer looked for a stop string. -/
def EngineCoreOutput.reasons (output : EngineCoreOutput R X K D) (stopString : Option Text) :
    Option FinishReason × Option StopReason :=
  match stopString with
  | some (c :: cs) => (some .stop, some (.string (c :: cs)))
  | _ => (output.finishReason, output.stopReason)

namespace RequestState

/-- Steps 2 and 3 of `process_outputs`: the new tokens are decoded, and a stop
string finishes the request. -/
def absorb (s : RequestState δ P F) (codec : Codec δ P R F) (output : EngineCoreOutput R X K D) :
    Except Error ((Option FinishReason × Option StopReason) × RequestState δ P F) :=
  match output.poolingOutput with
  | some _ => .ok ((output.finishReason, output.stopReason), s)
  | none =>
    match s.detokenizer, s.logprobsProcessor with
    | some detokenizer, some logprobsProcessor => do
      let (stopString, detokenizer) := detokenizer.update codec.decodeNext output.newTokenIds
        (output.finishReason = some .stop)
      let logprobsProcessor ← logprobsProcessor.updateFromOutput codec output.newLogprobs
      return (output.reasons stopString, { s with
        detokenizer := some detokenizer
        logprobsProcessor := some logprobsProcessor })
    | _, _ => .error (.assertion "")

/-- Whether an output is due when the stream interval is above one. -/
def due (s : RequestState δ P F) (detokenizer : Detokenizer δ) (finished : Bool) : Bool :=
  finished || s.sentTokensOffset = 0
    || s.streamInterval ≤ detokenizer.numOutputTokens - s.sentTokensOffset

/-- The first part of `make_request_output`: the tokens of the output, `none` when
no output is made. -/
def tokensToSend (s : RequestState δ P F) (newTokenIds : List Token) (finished : Bool) :
    Except Error (Option (List Token) × RequestState δ P F) :=
  if finished = false ∧ s.outputKind = .finalOnly then .ok (none, s)
  else if 1 < s.streamInterval then
    match s.detokenizer with
    | none => .error (.assertion "")
    | some detokenizer =>
      if s.due detokenizer finished = false then .ok (none, s)
      else if s.outputKind = .delta then
        -- the tokens from the offset on, otherwise all tokens are sent
        .ok (some (detokenizer.outputTokenIds.drop s.sentTokensOffset),
          { s with sentTokensOffset := detokenizer.numOutputTokens })
      else .ok (some newTokenIds, s)
  else .ok (some newTokenIds, s)

/-- The logprobs of an output that carries `tokenIds`. -/
def logprobsToSend (logprobs : Option (List P)) (delta : Bool) (tokenIds : List Token) :
    Option (List P) :=
  match logprobs with
  | some (p :: ps) =>
    if delta then some (sliceFrom (p :: ps) (-(tokenIds.length : Int))) else some (p :: ps)
  | logprobs => logprobs

/-- `_new_completion_output`. -/
def newCompletionOutput (s : RequestState δ P F) (tokenIds : List Token)
    (finishReason : Option FinishReason) (stopReason : Option StopReason)
    (routedExperts : Option X) : Except Error (CompletionOutput P X F × RequestState δ P F) :=
  match s.detokenizer, s.logprobsProcessor with
  | some detokenizer, some logprobsProcessor =>
    let finished := finishReason.isSome
    let delta := decide (s.outputKind = .delta)
    let (text, detokenizer) := detokenizer.getNextOutputText finished delta
    let tokenIds := if delta then tokenIds else detokenizer.outputTokenIds
    .ok ({
      index := s.requestIndex
      text
      tokenIds
      cumulativeLogprob := logprobsProcessor.cumulativeLogprob
      logprobs := logprobsToSend logprobsProcessor.logprobs delta tokenIds
      routedExperts
      finishReason
      stopReason := if finished then stopReason else none },
      { s with detokenizer := some detokenizer })
  | _, _ => .error (.assertion "")

/-- What `make_request_output` makes of a generating request: its completion, `none`
when none is due. -/
def nextCompletion (s : RequestState δ P F) (newTokenIds : List Token)
    (finishReason : Option FinishReason) (stopReason : Option StopReason)
    (routedExperts : Option X) :
    Except Error (Option (CompletionOutput P X F) × RequestState δ P F) := do
  let (tokenIds, s) ← s.tokensToSend newTokenIds finishReason.isSome
  match tokenIds with
  | none => return (none, s)
  | some tokenIds =>
    let (completion, s) ← s.newCompletionOutput tokenIds finishReason stopReason routedExperts
    return (some completion, s)

end RequestState

end VllmEngine.Engine
