import VllmEngine.Cache.LruOrder

/-!
# The LoRA adapters of a worker

`LoRAModelManager` and `LRUCacheLoRAModelManager` (`vllm/lora/model_manager.py`), and the
`LRUCacheWorkerLoRAManager` on top (`vllm/lora/worker_manager.py`): which adapters are registered in
CPU memory, which are active in one of the slots on the device, what was last written to each slot,
and the slot of each token that the punica wrapper was last told.

Mirroring notes:
- Functions that can raise return the manager as the exception leaves it, with the result.
- What `_load_adapter` returns is an argument; `none` is an exception. Weights are an arbitrary type:
  the writes to the layers of a slot are one write.
- `_deactivate_adapter` is `deactivateSlot` here.
- A wrapper is what its properties return: the index tensors as far as they were last written. The
  run lengths for prefill, computed from these, are left out, and so is pinning.
-/

namespace VllmEngine.Lora

open Cache

/-- `LoRAConfig`, the parts of the module mapping that choose a wrapper, and the vocabulary size. -/
structure LoRAConfig where
  maxLoras : Nat
  maxCpuLoras : Nat
  /-- `mm_mapping`, when `supports_mm`: names of the language model, tower and connector modules. -/
  mmMapping : Option (String × List String × List String) := none
  supportsTowerConnectorLora : Bool := false
  vocabSize : Nat := 0
  maxLoras_pos : 0 < maxLoras
  capacity : maxLoras ≤ maxCpuLoras

structure LoRARequest where
  loraName : String
  loraIntId : Nat
  loadInplace : Bool := false
  pos : 1 ≤ loraIntId
deriving DecidableEq

inductive LoRAMappingType
  | language
  | tower
  | connector
deriving DecidableEq, Repr

/-- Adapter of each token and of each prompt, zero for none. -/
structure LoRAMapping where
  indexMapping : List Nat
  promptMapping : List Nat
  isPrefill : Bool := false
  type : LoRAMappingType := .language
deriving DecidableEq, Repr

/-- What a punica wrapper was last told. -/
structure PunicaMetadata where
  tokenLoraIndices : List Int
  samplerIndices : List Int
  samplerIndicesPadded : List Int
  embeddingsIndices : List Int × List Int
  isPrefill : Bool
deriving DecidableEq, Repr

inductive LoRAError
  | noFreeSlots
  | notRegistered (loraId : Nat)
  | tooManyLoras (requested slots : Nat)
  | loadFailed (loraId : Nat)
  | notInTable (loraId : Nat)
  | cache (e : LruError)
deriving DecidableEq, Repr

/-- `LoRAModelManager`; the two caches are those of the LRU subclass. -/
structure LoRAModelManager (W : Type) where
  registered : LruCache Nat W
  active : LruCache Nat Unit
  loraIndexToId : List (Option Nat)
  /-- The weights last written to each slot. -/
  slotWeights : List (Option W)
  lastMapping : Option LoRAMapping
  punica : String → Option PunicaMetadata
  /-- Every load that succeeded, the latest first; nothing reads it. -/
  loads : List (Nat × W)

/-- The outcome of a call: the manager afterwards, and a value or an exception. -/
abbrev Outcome (W α : Type) : Type := LoRAModelManager W × Except LoRAError α

variable {W : Type}

/-- The next statement, unless the one before it raised. -/
def Outcome.andThen {α β : Type} (o : Outcome W α) (f : LoRAModelManager W → α → Outcome W β) : Outcome W β :=
  match o with
  | (m, .error e) => (m, .error e)
  | (m, .ok a) => f m a

@[simp] theorem Outcome.andThen_ok {α β : Type} (m : LoRAModelManager W) (a : α)
    (f : LoRAModelManager W → α → Outcome W β) : Outcome.andThen (m, .ok a) f = f m a := rfl

/-! ## The index tensors -/

/-- `lora_index_to_id.index(x) if x > 0 else -1`. -/
def slotIndex (loraIndexToId : List (Option Nat)) (x : Nat) : Except LoRAError Int :=
  if 0 < x then
    if some x ∈ loraIndexToId then .ok (loraIndexToId.idxOf (some x)) else .error (.notInTable x)
  else .ok (-1)

/-- `convert_mapping`, with the arguments that `update_metadata` gives it. -/
def convertMapping (mapping : LoRAMapping) (loraIndexToId : List (Option Nat)) (maxLoras vocabSize : Nat) :
    Except LoRAError PunicaMetadata := do
  let extraVocabSize : Int := 0
  let promptMapping ← mapping.promptMapping.mapM (slotIndex loraIndexToId)
  let loraIndices ← mapping.indexMapping.mapM (slotIndex loraIndexToId)
  let embeddingIndices := loraIndices.map fun i => if i = -1 then 0 else i
  let pad (i : Int) : Int := if i = -1 then (maxLoras : Int) - 1 else i
  .ok {
    tokenLoraIndices := loraIndices
    samplerIndices := promptMapping
    samplerIndicesPadded :=
      (promptMapping.map pad).zipIdx.map fun e => (e.2 : Int) + e.1 * (promptMapping.length : Int)
    embeddingsIndices :=
      (embeddingIndices.map fun i => pad (i * extraVocabSize),
        embeddingIndices.map fun i => pad (i * (vocabSize + extraVocabSize)))
    isPrefill := mapping.isPrefill }

/-- The wrapper that `_set_adapter_mapping` writes to. -/
def LoRAConfig.targetPrefix (cfg : LoRAConfig) (type : LoRAMappingType) : String :=
  match cfg.mmMapping with
  | none => "language_model"
  | some (languageModel, towerModel, connector) =>
    if !cfg.supportsTowerConnectorLora then languageModel
    else
      match type with
      | .tower => towerModel.headD languageModel
      | .connector => connector.headD languageModel
      | .language => languageModel

/-! ## `LoRAModelManager` -/

/-- `_deactivate_adapter`: the first slot that holds the adapter is free, if there is one. -/
def deactivateSlot (loraIndexToId : List (Option Nat)) (loraId : Nat) : List (Option Nat) :=
  if some loraId ∈ loraIndexToId then loraIndexToId.set (loraIndexToId.idxOf (some loraId)) none
  else loraIndexToId

namespace LoRAModelManager

def init (cfg : LoRAConfig) : LoRAModelManager W where
  registered := .empty cfg.maxCpuLoras
  active := .empty cfg.maxLoras
  loraIndexToId := List.replicate cfg.maxLoras none
  slotWeights := List.replicate cfg.maxLoras none
  lastMapping := none
  punica := fun _ => none
  loads := []

/-- `_active_adapters.pop`, and the callback that frees the slot. -/
def popActive (m : LoRAModelManager W) (loraId : Nat) : LoRAModelManager W :=
  if m.active.contains loraId then
    { m with
      active := m.active.pop countOne loraId
      loraIndexToId := deactivateSlot m.loraIndexToId loraId }
  else m

def deactivateAdapter (m : LoRAModelManager W) (adapterId : Nat) : LoRAModelManager W :=
  if !m.active.contains adapterId then m
  else
    { m with loraIndexToId := deactivateSlot m.loraIndexToId adapterId }.popActive adapterId

/-- `_registered_adapters.pop`, and the callback that deactivates the adapter. -/
def popRegistered (m : LoRAModelManager W) (adapterId : Nat) : LoRAModelManager W :=
  if m.registered.contains adapterId then
    { m with registered := m.registered.pop countOne adapterId }.deactivateAdapter adapterId
  else m

def removeAdapter (m : LoRAModelManager W) (adapterId : Nat) : LoRAModelManager W :=
  (m.deactivateAdapter adapterId).popRegistered adapterId

/-- `_active_adapters[lora_id] = None`, and the callback for what is evicted. -/
def setActive (m : LoRAModelManager W) (loraId : Nat) : Outcome W Unit :=
  match m.active.setItem countOne loraId () with
  | .error e => (m, .error (.cache e))
  | .ok (evicted, active) =>
    ({ m with
        active
        loraIndexToId := evicted.foldl deactivateSlot m.loraIndexToId }, .ok ())

/-- `_add_adapter`: `_registered_adapters[lora.id] = lora`, and the callback for what is evicted. -/
def setRegistered (m : LoRAModelManager W) (loraId : Nat) (lora : W) : Outcome W Unit :=
  match m.registered.setItem countOne loraId lora with
  | .error e => (m, .error (.cache e))
  | .ok (evicted, registered) => (evicted.foldl deactivateAdapter { m with registered }, .ok ())

/-- `activate_adapter`: into the first free slot. -/
def activateAdapter (m : LoRAModelManager W) (loraId : Nat) : Outcome W Bool :=
  if m.active.contains loraId then (m, .ok false)
  else if none ∉ m.loraIndexToId then (m, .error .noFreeSlots)
  else
    let index := m.loraIndexToId.idxOf none
    (m.setActive loraId).andThen fun m _ =>
      match m.registered.get loraId with
      | (none, _) => (m, .error (.notRegistered loraId))
      | (some loraModel, registered) =>
        ({ m with
            registered
            loraIndexToId := m.loraIndexToId.set index (some loraId)
            slotWeights := m.slotWeights.set index (some loraModel) }, .ok true)

/-- `_set_adapter_mapping`. -/
def updateMetadata (cfg : LoRAConfig) (m : LoRAModelManager W) (mapping : LoRAMapping) : Outcome W Unit :=
  match convertMapping mapping m.loraIndexToId (cfg.maxLoras + 1) cfg.vocabSize with
  | .error e => (m, .error e)
  | .ok metadata =>
    ({ m with punica := Function.update m.punica (cfg.targetPrefix mapping.type) (some metadata) }, .ok ())

def setAdapterMapping (cfg : LoRAConfig) (m : LoRAModelManager W) (mapping : LoRAMapping) : Outcome W Unit :=
  if m.lastMapping ≠ some mapping then
    (m.updateMetadata cfg mapping).andThen fun m _ => ({ m with lastMapping := some mapping }, .ok ())
  else (m, .ok ())

end LoRAModelManager

/-! ## `LRUCacheLoRAModelManager` -/

namespace LRUCacheLoRAModelManager

/-- `_active_adapters.remove_oldest`, and the callback. -/
def removeOldestActive (m : LoRAModelManager W) : Outcome W Unit :=
  match m.active.removeOldest countOne with
  | .error e => (m, .error (.cache e))
  | .ok (none, _) => (m, .ok ())
  | .ok (some loraId, _) => (m.popActive loraId, .ok ())

def addAdapter (m : LoRAModelManager W) (loraId : Nat) (lora : W) : Outcome W Bool :=
  if !m.registered.contains loraId then
    (m.setRegistered loraId lora).andThen fun m _ => (m, .ok true)
  else
    -- Always touched to update the order.
    ({ m with registered := m.registered.touch loraId }, .ok false)

def activateAdapter (cfg : LoRAConfig) (m : LoRAModelManager W) (loraId : Nat) : Outcome W Bool :=
  Outcome.andThen
    (if m.active.contains loraId = false ∧ cfg.maxLoras ≤ m.active.length then removeOldestActive m
      else (m, .ok ()))
    fun m _ =>
      (m.activateAdapter loraId).andThen fun m result =>
        ({ m with active := m.active.touch loraId }, .ok result)

def removeOldestAdapter (m : LoRAModelManager W) : Outcome W Bool :=
  if 0 < m.registered.length then
    match m.registered.removeOldest countOne with
    | .error e => (m, .error (.cache e))
    | .ok (none, _) => (m, .ok true)
    | .ok (some adapterId, _) => (m.popRegistered adapterId, .ok true)
  else (m, .ok false)

end LRUCacheLoRAModelManager

/-! ## `LRUCacheWorkerLoRAManager` -/

namespace LRUCacheWorkerLoRAManager

open LRUCacheLoRAModelManager (removeOldestAdapter)

def addAdapter (cfg : LoRAConfig) (load : LoRARequest → Option W) (m : LoRAModelManager W)
    (loraRequest : LoRARequest) : Outcome W Bool :=
  let loraId := loraRequest.loraIntId
  Outcome.andThen
    (if m.registered.contains loraId = false ∨ loraRequest.loadInplace = true then
      -- The adapter is loaded before any other is evicted.
      match load loraRequest with
      | none => (m, .error (.loadFailed loraId))
      | some lora =>
        let m := { m with loads := (loraId, lora) :: m.loads }.removeAdapter loraId
        Outcome.andThen
          (if cfg.maxCpuLoras < m.registered.length + 1 then removeOldestAdapter m else (m, .ok false))
          fun m _ => LRUCacheLoRAModelManager.addAdapter m loraId lora
    else
      let got := m.registered.get loraId
      ({ m with registered := got.2 }, .ok got.1.isSome))
    fun m loaded =>
      (LRUCacheLoRAModelManager.activateAdapter cfg m loraId).andThen fun m _ => (m, .ok loaded)

/-- `{lora_request.lora_int_id: lora_request for lora_request in lora_requests}`, in the order in
which the set of requests is iterated. -/
def lorasMap (loraRequests : List LoRARequest) : Dict Nat LoRARequest :=
  loraRequests.foldl (fun d r => d.set r.loraIntId r) Dict.empty

def addAdapters (cfg : LoRAConfig) (load : LoRARequest → Option W) :
    List LoRARequest → LoRAModelManager W → Outcome W Unit
  | [], m => (m, .ok ())
  | lora :: loras, m => (addAdapter cfg load m lora).andThen fun m _ => addAdapters cfg load loras m

def applyAdapters (cfg : LoRAConfig) (load : LoRARequest → Option W) (m : LoRAModelManager W)
    (loraRequests : List LoRARequest) : Outcome W Unit :=
  let loras := lorasMap loraRequests
  if cfg.maxLoras < loras.size then (m, .error (.tooManyLoras loras.size cfg.maxLoras))
  else addAdapters cfg load loras.values m

def setActiveAdapters (cfg : LoRAConfig) (load : LoRARequest → Option W) (m : LoRAModelManager W)
    (requests : List LoRARequest) (mapping : Option LoRAMapping) : Outcome W Unit :=
  (applyAdapters cfg load m requests).andThen fun m _ =>
    match mapping with
    | none => (m, .ok ())
    | some mapping => m.setAdapterMapping cfg mapping

end LRUCacheWorkerLoRAManager

/-! ## Operations -/

open LRUCacheWorkerLoRAManager in
/-- A call of the worker's manager, and what `_load_adapter` returns during it. -/
inductive Op (W : Type)
  | setActiveAdapters (requests : List LoRARequest) (mapping : Option LoRAMapping)
      (load : LoRARequest → Option W)
  | addAdapter (request : LoRARequest) (load : LoRARequest → Option W)
  | removeAdapter (adapterId : Nat)

def LoRAModelManager.step (cfg : LoRAConfig) (m : LoRAModelManager W) : Op W → Outcome W Unit
  | .setActiveAdapters requests mapping load =>
    LRUCacheWorkerLoRAManager.setActiveAdapters cfg load m requests mapping
  | .addAdapter request load =>
    (LRUCacheWorkerLoRAManager.addAdapter cfg load m request).andThen fun m _ => (m, .ok ())
  | .removeAdapter adapterId => (m.removeAdapter adapterId, .ok ())

/-- The manager after some calls; one that raises leaves what it has changed. -/
def LoRAModelManager.run (cfg : LoRAConfig) (m : LoRAModelManager W) : List (Op W) → LoRAModelManager W
  | [] => m
  | op :: ops => (m.step cfg op).1.run cfg ops

end VllmEngine.Lora
