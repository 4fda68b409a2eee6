import Mathlib.Data.Fin.Basic

/-!
# Data-parallel waves

The front-ends (`DPAsyncMPClient`), the coordinator and the engines (`DPEngineCoreProc`) of a
data-parallel deployment. The engines move from paused to running together and back together;
the wave number counts how often they did. A party's code is a function on its own state, the
network is a queue for every pair of parties, and an action is one round of one party.

Mirroring notes:
- The index that an engine is compared with in `START_DP_WAVE` is an integer where an engine
  caused the start, and the bytes of an engine identity where a front-end did: an identity is
  never equal to an index, so such a message excludes nobody.
- A collective step is one iteration of `run_busy_loop` on every engine: no engine leaves the
  forward pass, real or dummy, before all have entered it.
- Request counts are left out of what is published: they only choose engines, and here any
  engine may be chosen. Schedulers are unpaused, the set of engines is fixed.
-/

namespace VllmEngine.Distributed

/-- The engine that a start message excludes, as `exclude_eng_index` holds it. -/
inductive ExcludeEngine (n : Nat)
  | none
  | identity (engine : Fin n)
  | index (engine : Fin n)
deriving DecidableEq, Repr

/-- `exclude_eng_index == self.engine_index`. -/
def ExcludeEngine.excludes {n : Nat} (engineIndex : Fin n) : ExcludeEngine n → Bool
  | .index engine => engine == engineIndex
  | _ => false

/-- What an engine tells the coordinator. -/
inductive WaveNotice
  | startWave (wave : Nat)
  | waveComplete (wave : Nat)
deriving DecidableEq, Repr

/-! ## Engines -/

structure WaveEngine where
  currentWave : Nat
  enginesRunning : Bool
  unfinished : Nat
  stepCounter : Nat
deriving DecidableEq, Repr

namespace WaveEngine

/-- `DPEngineCoreProc.add_request`. -/
def addRequest (engine : WaveEngine) (requestWave : Nat) : WaveEngine × List WaveNotice :=
  let engine := { engine with unfinished := engine.unfinished + 1 }
  if requestWave ≠ engine.currentWave then
    if engine.currentWave < requestWave then ({ engine with currentWave := requestWave }, [])
    else if !engine.enginesRunning then
      -- The request was meant for a wave that is complete: the next one is to start.
      ({ engine with enginesRunning := true }, [.startWave engine.currentWave])
    else (engine, [])
  else (engine, [])

/-- `_handle_client_request` for `START_DP_WAVE`. -/
def startDpWave {n : Nat} (engine : WaveEngine) (engineIndex : Fin n) (newWave : Nat)
    (exclude : ExcludeEngine n) : WaveEngine :=
  if !exclude.excludes engineIndex && decide (engine.currentWave ≤ newWave) then
    { engine with currentWave := newWave, enginesRunning := true }
  else engine

/-- A request of the current wave or an earlier one: for an earlier one the engine runs, and a
paused engine asks for a start. -/
theorem addRequest_spec (engine : WaveEngine) {w : Nat} (hw : w ≤ engine.currentWave) :
    (engine.addRequest w).1.currentWave = engine.currentWave
      ∧ (engine.addRequest w).1.stepCounter = engine.stepCounter
      ∧ (engine.enginesRunning = true → (engine.addRequest w).1.enginesRunning = true)
      ∧ (∀ notice ∈ (engine.addRequest w).2, notice = .startWave engine.currentWave
        ∧ (engine.addRequest w).1.enginesRunning = true)
      ∧ ((engine.addRequest w).1.enginesRunning = true → engine.enginesRunning = true
        ∨ .startWave engine.currentWave ∈ (engine.addRequest w).2)
      ∧ (w = engine.currentWave ∨ (engine.addRequest w).1.enginesRunning = true) := by
  unfold addRequest
  dsimp only
  by_cases hcurrent : w = engine.currentWave
  · rw [if_neg (not_not.mpr hcurrent)]
    exact ⟨rfl, rfl, id, fun _ hn => (by cases hn), Or.inl, Or.inl hcurrent⟩
  · rw [if_pos hcurrent, if_neg (Nat.not_lt.mpr hw)]
    cases hrunning : engine.enginesRunning with
    | true => exact ⟨rfl, rfl, id, fun _ hn => (by cases hn), Or.inl, Or.inr rfl⟩
    | false =>
      exact ⟨rfl, rfl, fun _ => rfl, fun _ hn => ⟨List.mem_singleton.mp hn, rfl⟩,
        fun _ => Or.inr (List.mem_singleton_self _), Or.inr rfl⟩

/-- A start message of the current wave or an earlier one. -/
theorem startDpWave_spec {n : Nat} (engine : WaveEngine) (i : Fin n) {w : Nat} (exclude : ExcludeEngine n)
    (hw : w ≤ engine.currentWave) :
    (engine.startDpWave i w exclude).currentWave = engine.currentWave
      ∧ (engine.startDpWave i w exclude).stepCounter = engine.stepCounter
      ∧ (engine.startDpWave i w exclude).unfinished = engine.unfinished
      ∧ (engine.enginesRunning = true → (engine.startDpWave i w exclude).enginesRunning = true)
      ∧ ((engine.startDpWave i w exclude).enginesRunning = true →
        engine.enginesRunning = true ∨ w = engine.currentWave)
      ∧ (w = engine.currentWave → exclude.excludes i = false →
        (engine.startDpWave i w exclude).enginesRunning = true) := by
  unfold startDpWave
  by_cases hon : exclude.excludes i = false ∧ engine.currentWave ≤ w
  · have hsame : w = engine.currentWave := Nat.le_antisymm hw hon.2
    rw [if_pos (by simp [hon.1, hon.2])]
    exact ⟨hsame, rfl, rfl, fun _ => rfl, fun _ => Or.inr hsame, fun _ _ => rfl⟩
  · rw [if_neg (by simpa using hon)]
    exact ⟨rfl, rfl, rfl, id, Or.inl,
      fun hsame hincluded => absurd ⟨hincluded, Nat.le_of_eq hsame.symm⟩ hon⟩

/-- Whether the engine goes through the loop instead of waiting for input. -/
def hasWork (engine : WaveEngine) : Bool := engine.enginesRunning || decide (0 < engine.unfinished)

/-- The forward pass, after which some requests are finished. -/
def engineStep (engine : WaveEngine) (finished : Nat) : WaveEngine :=
  { engine with unfinished := engine.unfinished - finished }

/-- The rest of an iteration of `run_busy_loop`, with `_has_global_unfinished_reqs`: the engines
ask each other in every 32nd step only. -/
def finishSync (engine : WaveEngine) (rankZero globalUnfinished : Bool) : WaveEngine × List WaveNotice :=
  let stepCounter := engine.stepCounter + 1
  let enginesRunning := if stepCounter % 32 ≠ 0 then true else globalUnfinished
  if !enginesRunning then
    ({ engine with enginesRunning := false, currentWave := engine.currentWave + 1, stepCounter := 0 },
      if rankZero then [.waveComplete engine.currentWave] else [])
  else ({ engine with enginesRunning := true, stepCounter }, [])

end WaveEngine

/-! ## The coordinator -/

structure WaveCoordinator where
  currentWave : Nat
  enginesRunning : Bool
deriving DecidableEq, Repr

namespace WaveCoordinator

/-- A notification of a front-end: the new state, and what `_send_start_wave` broadcasts when
the wave state changed. -/
def handleFront {n : Nat} (c : WaveCoordinator) (engineToExclude : Fin n) (wave : Nat) :
    WaveCoordinator × Option (Nat × ExcludeEngine n) :=
  if !c.enginesRunning then
    let exclude := if wave < c.currentWave then .none else .identity engineToExclude
    ({ c with enginesRunning := true }, some (c.currentWave, exclude))
  else (c, none)

/-- A notice of an engine: the new state, whether the wave state changed, and the broadcast. -/
def handleNotice {n : Nat} (c : WaveCoordinator) (engIndex : Fin n) :
    WaveNotice → WaveCoordinator × Bool × Option (Nat × ExcludeEngine n)
  | .waveComplete wave =>
    if c.currentWave ≤ wave then ({ currentWave := wave + 1, enginesRunning := false }, true, none)
    else (c, false, none)
  | .startWave wave =>
    if c.currentWave < wave ∨ (wave = c.currentWave ∧ c.enginesRunning = false) then
      ({ currentWave := wave, enginesRunning := true }, true, some (wave, .index engIndex))
    else (c, false, none)

end WaveCoordinator

/-! ## Front-ends -/

/-- `firstReqs` is the inner socket from `add_request_async` to the stats task. -/
structure WaveClient (n : Nat) where
  currentWave : Nat
  enginesRunning : Bool
  firstReqs : List (Fin n)
deriving DecidableEq, Repr

/-! ## The system -/

/-- The parties and what is in flight between them: requests with their wave (`adds`), the
notifications of front-ends (`wakeUps`), start messages, notices of engines, and what the
coordinator has published. -/
structure WaveSystem (n : Nat) (F : Type) where
  engines : Fin n → WaveEngine
  coordinator : WaveCoordinator
  clients : F → WaveClient n
  adds : F → Fin n → List Nat
  wakeUps : F → List (Fin n × Nat)
  starts : Fin n → List (Nat × ExcludeEngine n)
  notices : Fin n → List WaveNotice
  published : F → List (Nat × Bool)

/-- What can happen. In a round of the stats task, `socketReady` and `firstReady` are the events
of the poll and `arrived` counts the publications that are drained; in a round of the
coordinator, at most one message of a front-end and one of an engine are handled. -/
inductive WaveAction (n : Nat) (F : Type)
  | addRequest (f : F) (chosenEngine : Fin n)
  | statsTask (f : F) (socketReady firstReady : Bool) (arrived : Nat)
  | coordinate (front : Option F) (back : Option (Fin n))
  | publishStats
  | receiveAdd (f : F) (i : Fin n)
  | receiveStart (i : Fin n)
  | abort (i : Fin n)
  | collective (finished : Fin n → Nat)

namespace WaveSystem

variable {n : Nat} {F : Type} [DecidableEq F]

def init (n : Nat) (F : Type) : WaveSystem n F where
  engines _ := { currentWave := 0, enginesRunning := false, unfinished := 0, stepCounter := 0 }
  coordinator := { currentWave := 0, enginesRunning := false }
  clients _ := { currentWave := 0, enginesRunning := false, firstReqs := [] }
  adds _ _ := []
  wakeUps _ := []
  starts _ := []
  notices _ := []
  published _ := []

/-- `DPAsyncMPClient.add_request_async`. -/
def addRequestAsync (s : WaveSystem n F) (f : F) (chosenEngine : Fin n) : WaveSystem n F :=
  let client := s.clients f
  let adds := Function.update s.adds f
    (Function.update (s.adds f) chosenEngine (s.adds f chosenEngine ++ [client.currentWave]))
  if !client.enginesRunning then
    { s with
      adds
      clients := Function.update s.clients f
        { client with firstReqs := client.firstReqs ++ [chosenEngine] } }
  else { s with adds }

/-- The first notification in the inner socket goes to the coordinator. -/
def sendFirstReq (s : WaveSystem n F) (f : F) : WaveSystem n F :=
  match (s.clients f).firstReqs with
  | [] => s
  | target :: rest =>
    { s with
      clients := Function.update s.clients f
        { s.clients f with enginesRunning := true, firstReqs := rest }
      wakeUps := Function.update s.wakeUps f (s.wakeUps f ++ [(target, (s.clients f).currentWave)]) }

/-- Of the publications that have arrived the last one counts. -/
def drain (s : WaveSystem n F) (f : F) (arrived : Nat) : WaveSystem n F :=
  match ((s.published f).take arrived).getLast? with
  | none => s
  | some (wave, running) =>
    { s with
      clients := Function.update s.clients f
        { s.clients f with currentWave := wave, enginesRunning := running }
      published := Function.update s.published f ((s.published f).drop arrived) }

/-- A round of `run_engine_stats_update_task`. -/
def statsTask (s : WaveSystem n F) (f : F) (socketReady firstReady : Bool) (arrived : Nat) :
    Option (WaveSystem n F) :=
  let client := s.clients f
  if (socketReady || firstReady)
      && (!socketReady || (decide (0 < arrived) && !(s.published f).isEmpty))
      && (!firstReady || !client.firstReqs.isEmpty) then
    let takesFirst := firstReady && (!socketReady || !client.enginesRunning)
    some ((if takesFirst then s.sendFirstReq f else s).drain f arrived)
  else none

/-- `_send_start_wave`. -/
def broadcast (s : WaveSystem n F) : Option (Nat × ExcludeEngine n) → WaveSystem n F
  | none => s
  | some m => { s with starts := fun i => s.starts i ++ [m] }

/-- `publish_front.send`. -/
def publish (s : WaveSystem n F) : WaveSystem n F :=
  { s with published := fun f =>
      s.published f ++ [(s.coordinator.currentWave, s.coordinator.enginesRunning)] }

/-- The coordinator handles a message of a front-end. -/
def handleFront (s : WaveSystem n F) (f : F) : Option (WaveSystem n F × Bool) :=
  match s.wakeUps f with
  | [] => none
  | (target, wave) :: rest =>
    let r := s.coordinator.handleFront target wave
    some (({ s with
      coordinator := r.1
      wakeUps := Function.update s.wakeUps f rest } : WaveSystem n F).broadcast r.2, r.2.isSome)

/-- The coordinator handles a message of an engine. -/
def handleBack (s : WaveSystem n F) (i : Fin n) : Option (WaveSystem n F × Bool) :=
  match s.notices i with
  | [] => none
  | notice :: rest =>
    let r := s.coordinator.handleNotice i notice
    some (({ s with
      coordinator := r.1
      notices := Function.update s.notices i rest } : WaveSystem n F).broadcast r.2.2, r.2.1)

/-- A round of `process_input_socket`. -/
def coordinate (s : WaveSystem n F) (front : Option F) (back : Option (Fin n)) : Option (WaveSystem n F) := do
  let (s, frontChanged) ← front.elim (some (s, false)) s.handleFront
  let (s, backChanged) ← back.elim (some (s, false)) s.handleBack
  some (if frontChanged || backChanged then s.publish else s)

/-- An engine takes a request from its input queue. -/
def receiveAdd (s : WaveSystem n F) (f : F) (i : Fin n) : Option (WaveSystem n F) :=
  match s.adds f i with
  | [] => none
  | wave :: rest =>
    let r := (s.engines i).addRequest wave
    some { s with
      engines := Function.update s.engines i r.1
      adds := Function.update s.adds f (Function.update (s.adds f) i rest)
      notices := Function.update s.notices i (s.notices i ++ r.2) }

/-- An engine takes a start message from its input queue. -/
def receiveStart (s : WaveSystem n F) (i : Fin n) : Option (WaveSystem n F) :=
  match s.starts i with
  | [] => none
  | (wave, exclude) :: rest =>
    some { s with
      engines := Function.update s.engines i ((s.engines i).startDpWave i wave exclude)
      starts := Function.update s.starts i rest }

/-- A request is finished outside a step. -/
def abort (s : WaveSystem n F) (i : Fin n) : WaveSystem n F :=
  { s with engines := Function.update s.engines i ((s.engines i).engineStep 1) }

/-- All engines go through one iteration of `run_busy_loop`. -/
def collective (s : WaveSystem n F) (finished : Fin n → Nat) : Option (WaveSystem n F) :=
  if ∀ i, (s.engines i).hasWork = true then
    let stepped := fun i => (s.engines i).engineStep (finished i)
    let globalUnfinished := decide (∃ i, 0 < (stepped i).unfinished)
    let r := fun i => (stepped i).finishSync (decide (i.val = 0)) globalUnfinished
    some { s with
      engines := fun i => (r i).1
      notices := fun i => s.notices i ++ (r i).2 }
  else none

def step (s : WaveSystem n F) : WaveAction n F → Option (WaveSystem n F)
  | .addRequest f chosenEngine => some (s.addRequestAsync f chosenEngine)
  | .statsTask f socketReady firstReady arrived => s.statsTask f socketReady firstReady arrived
  | .coordinate front back => s.coordinate front back
  | .publishStats => some s.publish
  | .receiveAdd f i => s.receiveAdd f i
  | .receiveStart i => s.receiveStart i
  | .abort i => some (s.abort i)
  | .collective finished => s.collective finished

/-- The reachable states. -/
inductive Reached : WaveSystem n F → Prop
  | init : Reached (init n F)
  | step {s s' : WaveSystem n F} (a : WaveAction n F) : Reached s → s.step a = some s' → Reached s'

/-- No message is in flight. -/
structure Quiet (s : WaveSystem n F) : Prop where
  firstReqs : ∀ f, (s.clients f).firstReqs = []
  adds : ∀ f i, s.adds f i = []
  wakeUps : ∀ f, s.wakeUps f = []
  starts : ∀ i, s.starts i = []
  notices : ∀ i, s.notices i = []
  published : ∀ f, s.published f = []

end WaveSystem

end VllmEngine.Distributed
