import VllmEngine.Offload.CachePolicy

/-!
# The CPU offloading manager

`CPUOffloadingManager` hands the slots of a CPU buffer to keys. A slot is free,
because it was never handed out or because it is back in the free list, or the
policy holds it for a key. A store takes slots (`prepare_store`), which become
readable when it succeeds and free when it fails (`complete_store`); a load
counts as a reader of its slots (`prepare_load`, `complete_load`).

`Jobs` is the outside view: the loads and stores that were prepared and not
completed, and what each slot holds according to the completed stores.
-/

namespace VllmEngine

/-- `PrepareStoreOutput`, its spec reduced to the block ids. -/
structure PrepareStoreOutput (K : Type) where
  keysToStore : List K
  storeSpec : List Nat
  evictedKeys : List K
deriving Repr, DecidableEq

structure OffloadingEvent (K : Type) where
  keys : List K
  medium : String
  removed : Bool
deriving Repr, DecidableEq

/-- `CPUOffloadingManager` over a policy with state `P`. -/
structure CPUOffloadingManager (K P : Type) where
  numBlocks : Nat
  numAllocatedBlocks : Nat
  freeList : List Nat
  events : Option (List (OffloadingEvent K))
  policy : P
  allocated_le : numAllocatedBlocks ≤ numBlocks

namespace CPUOffloadingManager

variable {K P : Type}

def medium : String := "CPU"

/-- `__init__`, with the policy it creates. -/
def init (numBlocks : Nat) (policy : P) (enableEvents : Bool) : CPUOffloadingManager K P where
  numBlocks := numBlocks
  numAllocatedBlocks := 0
  freeList := []
  events := if enableEvents then some [] else none
  policy := policy
  allocated_le := Nat.zero_le _

/-! ## The pool of blocks -/

def getNumFreeBlocks (m : CPUOffloadingManager K P) : Nat :=
  m.freeList.length + m.numBlocks - m.numAllocatedBlocks

/-- `_allocate_blocks`: new slots first, then the ones that were freed last. -/
def allocateBlocks (m : CPUOffloadingManager K P) (keys : List K) :
    Except Python.Error (CPUOffloadingManager K P × List BlockStatus) :=
  let numFresh := min keys.length (m.numBlocks - m.numAllocatedBlocks)
  let numReused := keys.length - numFresh
  if m.freeList.length < numReused then
    .error (.assertion "len(self._free_list) >= num_reused")
  else
    .ok
      ({ m with
          numAllocatedBlocks := m.numAllocatedBlocks + numFresh
          freeList := m.freeList.take (m.freeList.length - numReused)
          allocated_le := by have := m.allocated_le; omega },
        (List.range' m.numAllocatedBlocks numFresh
          ++ (m.freeList.drop (m.freeList.length - numReused)).reverse).map BlockStatus.new)

def freeBlock (m : CPUOffloadingManager K P) (block : BlockStatus) : CPUOffloadingManager K P :=
  { m with freeList := m.freeList ++ [block.blockId] }

/-- Record an event, if events are enabled and it has keys. -/
def recordEvent (m : CPUOffloadingManager K P) (keys : List K) (removed : Bool) :
    CPUOffloadingManager K P :=
  if keys.isEmpty then m
  else { m with events := m.events.map (· ++ [⟨keys, medium, removed⟩]) }

/-! ## The calls -/

variable [DecidableEq K] (C : CachePolicy K P)

def lookup (m : CPUOffloadingManager K P) (key : K) : Bool :=
  match C.get m.policy key with
  | some block => block.isReady
  | none => false

/-- Change the block of a key. -/
def updateBlock (m : CPUOffloadingManager K P) (key : K) (f : BlockStatus → BlockStatus) :
    CPUOffloadingManager K P :=
  { m with policy := C.update m.policy key f }

/-- `prepare_load`, with the block ids so far; what it changed before it raised
stays changed. -/
def prepareLoad (m : CPUOffloadingManager K P) :
    List K → List Nat → CPUOffloadingManager K P × Except Python.Error (List Nat)
  | [], blocks => (m, .ok blocks)
  | key :: keys, blocks =>
    match C.get m.policy key with
    | none => (m, .error (.assertion "Block not found in cache"))
    | some block =>
      if block.isReady then
        prepareLoad (m.updateBlock C key fun b => { b with refCnt := cInt32 (b.refCnt + 1) }) keys
          (blocks ++ [block.blockId])
      else (m, .error (.assertion "Block is not ready for reading"))

def touch (m : CPUOffloadingManager K P) (keys : List K) : CPUOffloadingManager K P :=
  { m with policy := C.touch m.policy keys }

def completeLoad (m : CPUOffloadingManager K P) :
    List K → CPUOffloadingManager K P × Except Python.Error Unit
  | [] => (m, .ok ())
  | key :: keys =>
    match C.get m.policy key with
    | none => (m, .error (.assertion "Block not found"))
    | some block =>
      if 0 < block.refCnt then
        completeLoad (m.updateBlock C key fun b => { b with refCnt := cInt32 (b.refCnt - 1) }) keys
      else (m, .error (.assertion "Block ref_cnt is already 0"))

/-- The eviction of `prepare_store`, when the new keys need more blocks than are
free; the keys of the call are protected. -/
def makeRoom (m : CPUOffloadingManager K P) (keysToStore keys : List K) :
    Option (CPUOffloadingManager K P × List K) :=
  let numBlocksToEvict : Int := keysToStore.length - m.getNumFreeBlocks
  if 0 < numBlocksToEvict then
    match C.evict m.policy numBlocksToEvict.toNat keys with
    | none => none
    | some (policy, evicted) =>
      some (evicted.foldl (fun m e => m.freeBlock e.2) { m with policy := policy },
        evicted.map Prod.fst)
  else some (m, [])

def insertBlocks (m : CPUOffloadingManager K P) (blocks : List (K × BlockStatus)) :
    CPUOffloadingManager K P :=
  { m with policy := blocks.foldl (fun p e => C.insert p e.1 e.2) m.policy }

def prepareStore (m : CPUOffloadingManager K P) (keys : List K) :
    CPUOffloadingManager K P × Except Python.Error (Option (PrepareStoreOutput K)) :=
  let keysToStore := keys.filter fun k => (C.get m.policy k).isNone
  if keysToStore.isEmpty then (m, .ok (some ⟨[], [], []⟩))
  else
    match m.makeRoom C keysToStore keys with
    | none => (m, .ok none)
    | some (m, toEvict) =>
      let m := m.recordEvent toEvict true
      match m.allocateBlocks keysToStore with
      | .error e => (m, .error e)
      | .ok (m, blocks) =>
        if blocks.length = keysToStore.length then
          (m.insertBlocks C (keysToStore.zip blocks),
            .ok (some ⟨keysToStore, blocks.map BlockStatus.blockId, toEvict⟩))
        else
          (m, .error (.assertion "Block pool did not allocate the expected number of blocks"))

/-- The rounds of `complete_store` after a success, with the stored keys so far. -/
def storeSucceeded (m : CPUOffloadingManager K P) :
    List K → List K → CPUOffloadingManager K P × List K
  | [], storedKeys => (m, storedKeys)
  | key :: keys, storedKeys =>
    match C.get m.policy key with
    | some block =>
      if block.isReady then storeSucceeded m keys storedKeys
      else storeSucceeded (m.updateBlock C key fun b => { b with refCnt := 0 }) keys
        (storedKeys ++ [key])
    | none => storeSucceeded m keys storedKeys

/-- The rounds of `complete_store` after a failure. -/
def storeFailed (m : CPUOffloadingManager K P) :
    List K → CPUOffloadingManager K P × Except Python.Error Unit
  | [] => (m, .ok ())
  | key :: keys =>
    match C.get m.policy key with
    | some block =>
      if block.isReady then storeFailed m keys
      else
        match C.remove m.policy key with
        | .error e => (m, .error e)
        | .ok policy => storeFailed ({ m with policy := policy }.freeBlock block) keys
    | none => storeFailed m keys

def completeStore (m : CPUOffloadingManager K P) (keys : List K) (success : Bool) :
    CPUOffloadingManager K P × Except Python.Error Unit :=
  if success then
    let (m, storedKeys) := m.storeSucceeded C keys []
    (m.recordEvent storedKeys false, .ok ())
  else m.storeFailed C keys

def takeEvents (m : CPUOffloadingManager K P) :
    CPUOffloadingManager K P × List (OffloadingEvent K) :=
  ({ m with events := m.events.map fun _ => [] }, m.events.getD [])

/-- A call of the manager's interface. -/
inductive Call (K : Type)
  | lookup (key : K)
  | prepareLoad (keys : List K)
  | completeLoad (keys : List K)
  | prepareStore (keys : List K)
  | completeStore (keys : List K) (success : Bool)
  | touch (keys : List K)
  | takeEvents
deriving Repr, DecidableEq

/-- What a call returns. -/
inductive Reply (K : Type)
  | hit (found : Bool)
  | loadSpec (blockIds : List Nat)
  | storeOutput (out : Option (PrepareStoreOutput K))
  | events (events : List (OffloadingEvent K))
  | done
deriving Repr, DecidableEq

/-- One call, with the manager it leaves behind also when it raises. -/
def call (m : CPUOffloadingManager K P) :
    Call K → CPUOffloadingManager K P × Except Python.Error (Reply K)
  | .lookup key => (m, .ok (.hit (m.lookup C key)))
  | .prepareLoad keys => (m.prepareLoad C keys []).map id fun r => r.map .loadSpec
  | .completeLoad keys => (m.completeLoad C keys).map id fun r => r.map fun _ => .done
  | .prepareStore keys => (m.prepareStore C keys).map id fun r => r.map .storeOutput
  | .completeStore keys success =>
    (m.completeStore C keys success).map id fun r => r.map fun _ => .done
  | .touch keys => (m.touch C keys, .ok .done)
  | .takeEvents => (m.takeEvents.1, .ok (.events m.takeEvents.2))

/-! ## The outside view -/

/-- The transfers that were prepared and not completed, with their blocks, and
the key whose data each block holds by the completed stores. -/
structure Jobs (K : Type) where
  loads : List (K × Nat)
  stores : List (K × Nat)
  contents : Nat → Option K

namespace Jobs

def none : Jobs K := ⟨[], [], fun _ => .none⟩

/-- A completion matches transfers that were prepared, and the keys of a call
that takes or gives back blocks or readers are distinct. -/
def Allows (j : Jobs K) : Call K → Prop
  | .completeLoad keys => keys.Nodup ∧ ∀ k ∈ keys, k ∈ j.loads.map Prod.fst
  | .completeStore keys _ => keys.Nodup ∧ ∀ k ∈ keys, k ∈ j.stores.map Prod.fst
  | .prepareStore keys => keys.Nodup
  | .lookup _ | .prepareLoad _ | .touch _ | .takeEvents => True

instance (j : Jobs K) (c : Call K) : Decidable (j.Allows c) := by
  cases c with
  | completeLoad keys => exact inferInstanceAs (Decidable (_ ∧ _))
  | completeStore keys success => exact inferInstanceAs (Decidable (_ ∧ _))
  | prepareStore keys => exact inferInstanceAs (Decidable keys.Nodup)
  | lookup | prepareLoad | touch | takeEvents => exact isTrue trivial

/-- One load of the key is over. -/
def endLoad (j : Jobs K) (key : K) : Jobs K :=
  { j with loads := j.loads.eraseP fun e => e.1 = key }

/-- The stores of the keys begin: their blocks will be overwritten. -/
def beginStores (j : Jobs K) (keys : List K) (blockIds : List Nat) : Jobs K :=
  { j with
    stores := j.stores ++ keys.zip blockIds
    contents := fun id => if id ∈ blockIds then .none else j.contents id }

/-- The store of the key is over; after a success its block holds its data. -/
def endStore (success : Bool) (j : Jobs K) (key : K) : Jobs K :=
  { j with
    stores := j.stores.filter fun e => e.1 ≠ key
    contents := fun id =>
      if success ∧ (key, id) ∈ j.stores then some key else j.contents id }

/-- The view after a call. A completion ends the transfers also if it raises. -/
def after (j : Jobs K) (c : Call K) (r : Except Python.Error (Reply K)) : Jobs K :=
  match c, r with
  | .prepareLoad keys, .ok (.loadSpec blockIds) => { j with loads := j.loads ++ keys.zip blockIds }
  | .prepareStore _, .ok (.storeOutput (some out)) => j.beginStores out.keysToStore out.storeSpec
  | .completeLoad keys, _ => keys.foldl endLoad j
  | .completeStore keys success, _ => keys.foldl (endStore success) j
  | _, _ => j

end Jobs

/-- The managers, with the outside view, that some sequence of calls reaches. -/
inductive Reached (numBlocks : Nat) (policy : P) :
    CPUOffloadingManager K P → Jobs K → Prop
  | init (enableEvents : Bool) :
    Reached numBlocks policy (CPUOffloadingManager.init numBlocks policy enableEvents) Jobs.none
  | call {m j} (c : Call K) : Reached numBlocks policy m j → j.Allows c →
    Reached numBlocks policy (m.call C c).1 (j.after c (m.call C c).2)

end CPUOffloadingManager

end VllmEngine
