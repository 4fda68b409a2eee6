import VllmEngine.Sched.State

/-!
# Request outputs

`CompletionOutput` and `RequestOutput`, as far as the front-end fills and merges
them, and `RequestOutput.add`, which merges a later output into a pending one.
A logprob entry, a routed-experts array and the transfer parameters are values
that are only passed on, so their types are parameters.
-/

namespace VllmEngine.Engine

open Python

/-- A Python string, as the list of its characters. -/
abbrev Text := List Char

/-- `int | str`. -/
inductive StopReason
  | token (id : Token)
  | string (s : Text)
deriving DecidableEq, Repr

/-- `CompletionOutput`; `P` is a position's logprobs, `X` an array of routed
experts, and `F` a float. -/
structure CompletionOutput (P X F : Type) where
  index : Nat
  text : Text
  tokenIds : List Token
  cumulativeLogprob : Option F
  logprobs : Option (List P)
  routedExperts : Option X
  finishReason : Option FinishReason
  stopReason : Option StopReason
deriving DecidableEq, Repr

/-- `RequestOutput`; `K` are transfer parameters. -/
structure RequestOutput (P X F K : Type) where
  requestId : String
  outputs : List (CompletionOutput P X F)
  finished : Bool
  kvTransferParams : Option K
deriving DecidableEq, Repr

variable {P X F K : Type}

/-- The branch of `RequestOutput.add` for two completions of one index, with
`aggregate`. -/
def CompletionOutput.merge (completion nextCompletion : CompletionOutput P X F) :
    Except Error (CompletionOutput P X F) := do
  let logprobs ← match nextCompletion.logprobs with
    | some (p :: ps) =>
      match completion.logprobs with
      | some logprobs => .ok (some (logprobs ++ (p :: ps)))
      | none => .error (.assertion "")
    | _ => .ok completion.logprobs
  return { completion with
    text := completion.text ++ nextCompletion.text
    tokenIds := completion.tokenIds ++ nextCompletion.tokenIds
    logprobs
    cumulativeLogprob := nextCompletion.cumulativeLogprob
    finishReason := nextCompletion.finishReason
    stopReason := nextCompletion.stopReason }

/-- The inner loop of `RequestOutput.add`: the first completion of the same index
takes the next one in; without one it is appended. -/
def mergeInto (aggregate : Bool) (nextCompletion : CompletionOutput P X F) :
    List (CompletionOutput P X F) → Except Error (List (CompletionOutput P X F))
  | [] => .ok [nextCompletion]
  | completion :: rest =>
    if completion.index = nextCompletion.index then
      if aggregate then do
        let merged ← completion.merge nextCompletion
        return merged :: rest
      else .ok (nextCompletion :: rest)
    else do
      let rest ← mergeInto aggregate nextCompletion rest
      return completion :: rest

/-- `RequestOutput.add`. -/
def RequestOutput.add (output nextOutput : RequestOutput P X F K) (aggregate : Bool) :
    Except Error (RequestOutput P X F K) := do
  let outputs ← nextOutput.outputs.foldlM
    (fun outputs nextCompletion => mergeInto aggregate nextCompletion outputs) output.outputs
  return { output with
    outputs
    finished := output.finished || nextOutput.finished
    kvTransferParams := nextOutput.kvTransferParams }

end VllmEngine.Engine
