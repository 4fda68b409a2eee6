import VllmEngine.Lib.Run
import VllmEngine.Lib.Dict
import VllmEngine.Lib.Python

/-!
# Receiving from a remote prefill

The receiving side of `NixlConnectorWorker` (`kv_connector/v1/nixl/worker.py`): a request given to
`start_load_kv` waits for the handshake with its remote engine, is read from one or more remote ranks, and is
reported by `get_finished`. `RecvLog` has what the caller and the transfer library know of it: the requests
given, the transfers that run, the failures, the requests reported.

Mirroring notes:
- There are no hybrid groups, and post-processing of the received blocks is left out.
- The callbacks of a handshake run in the thread of the executor, without a lock, and the loops of
  `start_load_kv` and the two parts of `get_finished` in that of the worker; between any two of these steps the
  other thread may run. `get_finished` is cut where it matters, between the update of `done_recving` and the
  clearing of `_failed_recv_reqs`: the statements within a step touch nothing that a callback touches, or in a
  way that commutes with it. A callback catches what it raises.
- What a call of the transfer library does is an input: whether a read is started, and with which handle, and
  the state of each handle when it is asked for; a state that is neither `DONE` nor `PROC` and an exception do
  the same.
- Sets are lists without duplicates; no result depends on their order.

> `RecvingRight`: what the worker promises of every request.
-/

namespace VllmEngine.Distributed.Nixl

structure RecvMeta where
  remoteEngineId : String
  localBlockIds : List (List Nat)
deriving DecidableEq, Repr

/-- What becomes of one read. -/
inductive ReadOutcome
  | started (handle : Nat)
  | failed
deriving DecidableEq, Repr

/-- `check_xfer_state`. -/
inductive XferState
  | done
  | proc
  | failed
deriving DecidableEq, Repr

/-- What becomes of a handshake; one that fails may have registered the engine before. -/
inductive HandshakeOutcome
  | succeeded
  | failed (registered : Bool)
deriving DecidableEq, Repr

structure RecvWorker where
  /-- The keys of `transfer_topo._engines`. -/
  engines : List String
  remoteAgents : List String
  /-- Each future with the requests that have a callback on it. -/
  handshakeFutures : Dict String (List (String × RecvMeta))
  /-- The calls of `request_ready` that are due, and whether the handshake succeeded. -/
  callbacks : List ((String × RecvMeta) × Bool)
  readyRequests : List (String × RecvMeta)
  recvingMetadata : Dict String RecvMeta
  recvingTransfers : Dict String (List Nat)
  failedRecvReqs : List String
  invalidBlockIds : List Nat
  /-- `done_recving` of a `get_finished` that has not cleared `_failed_recv_reqs` yet. -/
  doneRecving : Option (List String)
deriving DecidableEq

structure RecvLog where
  given : List (String × RecvMeta)
  running : List (String × Nat)
  /-- Since the invalid blocks were last asked for. -/
  failures : List String
  done : List String
deriving DecidableEq

structure RecvState where
  worker : RecvWorker
  log : RecvLog
deriving DecidableEq

def RecvState.init : RecvState :=
  ⟨⟨[], [], Dict.empty, [], [], Dict.empty, Dict.empty, [], [], none⟩, ⟨[], [], [], []⟩⟩

/-! ## Reads -/

/-- `self._recving_transfers[req_id]`, an empty list by default. -/
def RecvWorker.handles (w : RecvWorker) (reqId : String) : List Nat := (w.recvingTransfers.get? reqId).getD []

/-- `self._invalid_block_ids.update(meta.local_block_ids[0])`, if there is metadata. -/
def RecvWorker.markInvalid (w : RecvWorker) (reqId : String) : Except Python.Error RecvWorker :=
  match w.recvingMetadata.get? reqId with
  | none => .ok w
  | some info => match info.localBlockIds with
    | [] => .error (.index "tuple index out of range")
    | group :: _ => .ok { w with invalidBlockIds := group ∪ w.invalidBlockIds }

/-- `_read_blocks`. -/
def RecvState.readBlocks (s : RecvState) (reqId : String) (info : RecvMeta) (outcome : ReadOutcome) :
    Except Python.Error RecvState :=
  if info.localBlockIds.length = 0 then .ok s
  else match outcome with
    | .started handle =>
      let handles := s.worker.handles reqId ++ [handle]
      .ok {
        worker := { s.worker with recvingTransfers := s.worker.recvingTransfers.set reqId handles }
        log := { s.log with running := s.log.running ++ [(reqId, handle)] } }
    | .failed => do
      let w ← s.worker.markInvalid reqId
      return {
        worker := { w with failedRecvReqs := w.failedRecvReqs.insert reqId }
        log := { s.log with failures := s.log.failures ++ [reqId] } }

/-- `_read_blocks_for_req`: one read for every remote rank. -/
def RecvState.readBlocksForReq (s : RecvState) (reqId : String) (info : RecvMeta) (outcomes : List ReadOutcome) :
    Except Python.Error RecvState :=
  if info.remoteEngineId ∈ s.worker.engines then
    outcomes.foldlM (fun s outcome => s.readBlocks reqId info outcome) s
  else .error (.key info.remoteEngineId)

/-! ## Handshakes -/

/-- `_background_nixl_handshake`. -/
def RecvState.backgroundHandshake (s : RecvState) (reqId : String) (info : RecvMeta) : RecvState :=
  { s with worker := { s.worker with
      handshakeFutures := s.worker.handshakeFutures.set info.remoteEngineId
        ((s.worker.handshakeFutures.get? info.remoteEngineId).getD [] ++ [(reqId, info)]) } }

/-- `done_callback` of a handshake that ends. The requests that wait for it have their callbacks due. -/
def RecvState.handshakeDone (s : RecvState) (engineId : String) (outcome : HandshakeOutcome) : RecvState :=
  match s.worker.handshakeFutures.get? engineId with
  | none => s
  | some entries => { s with worker := { s.worker with
      handshakeFutures := s.worker.handshakeFutures.erase engineId
      engines := if outcome = .failed false then s.worker.engines else s.worker.engines.insert engineId
      remoteAgents := if outcome = .succeeded then s.worker.remoteAgents.insert engineId else s.worker.remoteAgents
      callbacks := s.worker.callbacks ++ entries.map fun e => (e, decide (outcome = .succeeded)) } }

/-- `request_ready`, after a handshake that failed. -/
def RecvState.requestFailed (s : RecvState) (reqId : String) : RecvState :=
  let w := match s.worker.markInvalid reqId with
    | .ok w => { w with failedRecvReqs := w.failedRecvReqs.insert reqId }
    | .error _ => s.worker
  { worker := w, log := { s.log with failures := s.log.failures ++ [reqId] } }

/-- The `i`-th of the callbacks that are due. -/
def RecvState.requestReady (s : RecvState) (i : Nat) : RecvState :=
  match s.worker.callbacks[i]? with
  | none => s
  | some (entry, succeeded) =>
    let w := { s.worker with callbacks := s.worker.callbacks.eraseIdx i }
    if succeeded then { s with worker := { w with readyRequests := w.readyRequests ++ [entry] } }
    else RecvState.requestFailed { s with worker := w } entry.1

/-! ## Steps -/

/-- The first loop of `start_load_kv`, for one request. -/
def RecvState.loadRequest (s : RecvState) (reqId : String) (info : RecvMeta) (outcomes : List ReadOutcome) :
    Except Python.Error RecvState :=
  let s : RecvState :=
    { worker := { s.worker with recvingMetadata := s.worker.recvingMetadata.set reqId info },
      log := { s.log with given := s.log.given ++ [(reqId, info)] } }
  if info.remoteEngineId ∈ s.worker.remoteAgents then s.readBlocksForReq reqId info outcomes
  else .ok (s.backgroundHandshake reqId info)

/-- The second loop of `start_load_kv`, for the next request whose handshake has finished. -/
def RecvState.readReady (s : RecvState) (outcomes : List ReadOutcome) : Except Python.Error RecvState :=
  match s.worker.readyRequests with
  | [] => .ok s
  | e :: rest =>
    RecvState.readBlocksForReq { s with worker := { s.worker with readyRequests := rest } } e.1 e.2 outcomes

/-- One handle in `_pop_done_transfers`. -/
def checkXfer (xferState : Nat → XferState) (reqId : String) (acc : RecvWorker × List Nat) (handle : Nat) :
    Except Python.Error (RecvWorker × List Nat) :=
  match xferState handle with
  | .done => .ok acc
  | .proc => .ok (acc.1, acc.2 ++ [handle])
  | .failed => do
    let w ← acc.1.markInvalid reqId
    return (w, acc.2)

/-- One request in `_pop_done_transfers`. -/
def popRequest (xferState : Nat → XferState) (acc : List String × RecvWorker) (e : String × List Nat) :
    Except Python.Error (List String × RecvWorker) := do
  let checked ← e.2.foldlM (checkXfer xferState e.1) (acc.2, [])
  return if checked.2.isEmpty then
      (acc.1 ++ [e.1], { checked.1 with recvingTransfers := checked.1.recvingTransfers.erase e.1 })
    else (acc.1, { checked.1 with recvingTransfers := checked.1.recvingTransfers.set e.1 checked.2 })

def RecvWorker.popDoneTransfers (w : RecvWorker) (xferState : Nat → XferState) :
    Except Python.Error (List String × RecvWorker) :=
  w.recvingTransfers.entries.foldlM (popRequest xferState) ([], w)

/-- The metadata of a request that is done. -/
def RecvWorker.popMetadata (w : RecvWorker) (reqId : String) : Except Python.Error RecvWorker :=
  match w.recvingMetadata.get? reqId with
  | none => .error (.assertion s!"{reqId} not found in recving_metadata list")
  | some info =>
    if info.remoteEngineId ∈ w.engines then .ok { w with recvingMetadata := w.recvingMetadata.erase reqId }
    else .error (.key info.remoteEngineId)

/-- The receiving part of `get_finished`, up to the update of `done_recving`. -/
def RecvWorker.getFinished (w : RecvWorker) (xferState : Nat → XferState) : Except Python.Error RecvWorker := do
  let popped ← w.popDoneTransfers xferState
  return { popped.2 with
    doneRecving := some (popped.1 ++ popped.2.failedRecvReqs.filter (· ∉ popped.1)) }

/-- From the clearing of `_failed_recv_reqs` on. -/
def RecvWorker.reportFinished (w : RecvWorker) (doneRecving : List String) : Except Python.Error RecvWorker :=
  doneRecving.foldlM RecvWorker.popMetadata { w with failedRecvReqs := [], doneRecving := none }

inductive RecvOp
  | loadRequest (reqId : String) (info : RecvMeta) (outcomes : List ReadOutcome)
  | readReady (outcomes : List ReadOutcome)
  | handshakeDone (engineId : String) (outcome : HandshakeOutcome)
  | requestReady (i : Nat)
  | getFinished (xferState : Nat → XferState)
  | reportFinished
  | getBlockIdsWithLoadErrors

def RecvState.step (s : RecvState) : RecvOp → Except Python.Error RecvState
  | .loadRequest reqId info outcomes => s.loadRequest reqId info outcomes
  | .readReady outcomes => s.readReady outcomes
  | .handshakeDone engineId outcome => .ok (s.handshakeDone engineId outcome)
  | .requestReady i => .ok (s.requestReady i)
  | .getFinished xferState => do
    let w ← s.worker.getFinished xferState
    return {
      worker := w
      log := { s.log with
        running := s.log.running.filter fun e => xferState e.2 = .proc
        failures := s.log.failures ++ (s.log.running.filter fun e => xferState e.2 = .failed).map Prod.fst } }
  | .reportFinished => match s.worker.doneRecving with
    | none => .ok s
    | some doneRecving => do
      let w ← s.worker.reportFinished doneRecving
      return { worker := w, log := { s.log with done := s.log.done ++ doneRecving } }
  | .getBlockIdsWithLoadErrors => .ok
      { worker := { s.worker with invalidBlockIds := [] }, log := { s.log with failures := [] } }

/-! ## What the worker promises -/

/-- The caller gives a request once, there is a remote rank to read from, and the worker has one thread. -/
def Promised (s : RecvState) : RecvOp → Prop
  | .loadRequest reqId _ outcomes => s.worker.doneRecving = none ∧ reqId ∉ s.log.given.map Prod.fst ∧ outcomes ≠ []
  | .readReady outcomes => s.worker.doneRecving = none ∧ outcomes ≠ []
  | .getFinished _ | .getBlockIdsWithLoadErrors => s.worker.doneRecving = none
  | .handshakeDone _ _ | .requestReady _ | .reportFinished => True

/-- No request is a full prefix-cache hit; a handshake fails only after the engine is registered; the failure
is not noted while `get_finished` is about to clear the failures; and a request with a read that could not be
started has no read that is still running. -/
def Undisturbed (s : RecvState) : RecvOp → Prop
  | .loadRequest _ info _ => info.localBlockIds ≠ []
  | .handshakeDone engineId outcome => outcome = .failed false → engineId ∈ s.worker.engines
  | .requestReady i => s.worker.doneRecving = none ∨ s.worker.callbacks[i]?.map Prod.snd ≠ some false
  | .getFinished xferState => ∀ reqId ∈ s.worker.failedRecvReqs,
      ∀ handle ∈ s.worker.handles reqId, xferState handle ≠ .proc
  | .readReady _ | .reportFinished | .getBlockIdsWithLoadErrors => True

end VllmEngine.Distributed.Nixl
