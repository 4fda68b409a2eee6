import VllmEngine.Lib.Dict
import VllmEngine.Request

/-!
# The encoder cache managers

`EncoderCacheManager` and `EncoderDecoderCacheManager`
(`vllm/v1/core/encoder_cache_manager.py`): which encoder outputs the workers
hold, decided by the scheduler without asking them.

Mirroring notes:
- The two classes are one record with a flag; `allocated` and `toFree` belong
  to the second class, `numFreeableSlots`, `cached`, `freeable` and `freed` to
  the first.
- A set of request ids is a list without order; only membership and emptiness
  are read.
- `free` walks over a Python set of input ids, whose order nothing fixes. The
  walks take the ids as a list, so that a caller chooses the order.
-/

namespace VllmEngine

variable {H : Type}

structure EncoderCacheManager where
  isEncoderDecoder : Bool
  cacheSize : Nat
  numFreeSlots : Int
  numFreeableSlots : Int
  cached : Dict String (List ReqId)
  freeable : Dict String Nat
  freed : List String
  allocated : List String
  toFree : List String
deriving DecidableEq

/-- `request.mm_features[input_id].identifier`. -/
def Request.mmHash (r : Request H) (inputId : Nat) : Except Python.Error String :=
  match r.mmFeatures[inputId]? with
  | some f => .ok f.identifier
  | none => .error (.index "list index out of range")

namespace EncoderCacheManager

/-- `EncoderCacheManager(cache_size)` or `EncoderDecoderCacheManager(cache_size)`. -/
def init (isEncoderDecoder : Bool) (cacheSize : Nat) : EncoderCacheManager :=
  { isEncoderDecoder := isEncoderDecoder
    cacheSize := cacheSize
    numFreeSlots := cacheSize
    numFreeableSlots := cacheSize
    cached := Dict.empty
    freeable := Dict.empty
    freed := []
    allocated := []
    toFree := [] }

/-- `reset`. -/
def reset (m : EncoderCacheManager) : EncoderCacheManager := init m.isEncoderDecoder m.cacheSize

/-- Record that a request refers to a cached entry. -/
def addReference (m : EncoderCacheManager) (mmHash : String) (reqId : ReqId) : EncoderCacheManager :=
  let refs := (m.cached.get? mmHash).getD []
  { m with cached := m.cached.set mmHash (if reqId ∈ refs then refs else refs ++ [reqId]) }

/-- `check_and_update_cache`: whether the entry is cached, with the reference
added if it is. -/
def checkAndUpdateCache (m : EncoderCacheManager) (r : Request H) (inputId : Nat) :
    Except Python.Error (EncoderCacheManager × Bool) :=
  if m.isEncoderDecoder then .ok (m, false)
  else do
    let mmHash ← r.mmHash inputId
    match m.cached.get? mmHash with
    | none => return (m, false)
    | some [] =>
      -- cached, but no request refers to it: no longer freeable
      match m.freeable.get? mmHash with
      | none => throw (.key mmHash)
      | some numEncoderEmbeds =>
        let m := { m with freeable := m.freeable.erase mmHash
                          numFreeableSlots := m.numFreeableSlots - numEncoderEmbeds }
        return (m.addReference mmHash r.requestId, true)
    | some (_ :: _) => return (m.addReference mmHash r.requestId, true)

/-- The eviction loop of `can_allocate`, oldest freeable entry first. -/
def evictUntil (numEmbeds : Int) : Nat → EncoderCacheManager → Except Python.Error EncoderCacheManager
  | 0, m =>
    if numEmbeds > m.numFreeSlots then .error (.key "dictionary is empty") else .ok m
  | bound + 1, m =>
    if numEmbeds > m.numFreeSlots then
      match m.freeable.entries with
      | [] => .error (.key "dictionary is empty")
      | (mmHash, numFreeEmbeds) :: _ =>
        if m.cached.contains mmHash then
          evictUntil numEmbeds bound
            { m with freeable := m.freeable.erase mmHash
                     cached := m.cached.erase mmHash
                     freed := m.freed ++ [mmHash]
                     numFreeSlots := m.numFreeSlots + numFreeEmbeds }
        else .error (.key mmHash)
    else .ok m

/-- `can_allocate`: evicts when only freeable entries stand in the way. -/
def canAllocate (m : EncoderCacheManager) (r : Request H) (inputId : Nat)
    (encoderComputeBudget : Int) (numEmbedsToSchedule : Nat) :
    Except Python.Error (EncoderCacheManager × Bool) :=
  let numEmbeds := r.getNumEncoderEmbeds inputId
  if (numEmbeds : Int) > encoderComputeBudget then .ok (m, false)
  else
    let numEmbeds : Int := numEmbeds + numEmbedsToSchedule
    if m.isEncoderDecoder then .ok (m, decide (numEmbeds ≤ m.numFreeSlots))
    else if numEmbeds ≤ m.numFreeSlots then .ok (m, true)
    else if numEmbeds > m.numFreeableSlots then .ok (m, false)
    else do
      let m ← evictUntil numEmbeds m.freeable.size m
      return (m, true)

/-- `allocate`. -/
def allocate (m : EncoderCacheManager) (r : Request H) (inputId : Nat) :
    Except Python.Error EncoderCacheManager := do
  let mmHash ← r.mmHash inputId
  let numEncoderEmbeds : Int := r.getNumEncoderEmbeds inputId
  if m.isEncoderDecoder then
    return { m with numFreeSlots := m.numFreeSlots - numEncoderEmbeds
                    allocated := m.allocated ++ [mmHash] }
  else do
    Python.require (decide (m.numFreeSlots ≥ numEncoderEmbeds)) ""
    Python.require (decide (m.numFreeableSlots ≥ numEncoderEmbeds)) ""
    let m := m.addReference mmHash r.requestId
    return { m with numFreeSlots := m.numFreeSlots - numEncoderEmbeds
                    numFreeableSlots := m.numFreeableSlots - numEncoderEmbeds }

/-- `get_cached_input_ids`, in ascending order. -/
def getCachedInputIds (m : EncoderCacheManager) (r : Request H) : List Nat :=
  (List.range r.mmFeatures.length).filter fun inputId =>
    m.isEncoderDecoder ||
      match r.mmFeatures[inputId]? with
      | some f => m.cached.contains f.identifier
      | none => false

/-- `free_encoder_input`: drop the request's reference; an entry that loses its
last one becomes freeable. -/
def freeEncoderInput (m : EncoderCacheManager) (r : Request H) (inputId : Nat) :
    EncoderCacheManager :=
  let numEncoderEmbeds := r.getNumEncoderEmbeds inputId
  if m.isEncoderDecoder then { m with numFreeSlots := m.numFreeSlots + numEncoderEmbeds }
  else
    match r.mmFeatures[inputId]? with
    | none => m
    | some f =>
      match m.cached.get? f.identifier with
      | none => m
      | some [] => m
      | some refs =>
        let refs := refs.filter fun id => decide (id ≠ r.requestId)
        let m := { m with cached := m.cached.set f.identifier refs }
        if refs = [] then
          { m with freeable := m.freeable.set f.identifier numEncoderEmbeds
                   numFreeableSlots := m.numFreeableSlots + numEncoderEmbeds }
        else m

/-- The loop of `free` over the given input ids. -/
def freeInputs (m : EncoderCacheManager) (r : Request H) (inputIds : List Nat) :
    EncoderCacheManager :=
  inputIds.foldl (fun m inputId => m.freeEncoderInput r inputId) m

/-- `free`; `order` is the order in which the set of input ids is walked. -/
def free (order : List Nat → List Nat) (m : EncoderCacheManager) (r : Request H) :
    EncoderCacheManager :=
  if m.isEncoderDecoder then m.freeInputs r (List.range r.mmFeatures.length)
  else m.freeInputs r (order (m.getCachedInputIds r))

/-- `get_freed_mm_hashes`: the list, and the manager with the list cleared. -/
def getFreedMmHashes (m : EncoderCacheManager) : List String × EncoderCacheManager :=
  if m.isEncoderDecoder then (m.toFree, { m with toFree := m.allocated, allocated := [] })
  else (m.freed, { m with freed := [] })

end EncoderCacheManager

end VllmEngine
