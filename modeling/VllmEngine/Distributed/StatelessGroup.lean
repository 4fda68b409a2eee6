import Mathlib.Data.Finset.Card
import VllmEngine.Lib.Run

/-!
# The barrier of a stateless process group

`StatelessProcessGroup.broadcast_obj` and `barrier` (`vllm/distributed/utils.py`) over a
shared store. Every rank goes through the same list of calls; a step of a rank is what it
does up to and with its next operation on the store.

Mirroring notes:
- Keys are the parts of the strings. `get` of a key that is not there does not return: a
  receiving rank stays where it is, a polling loop goes on with its next index.
- `deleted` and `barrierIds` are there for statements: the keys that have been deleted, and
  the `barrier_id` of each call.
- The `uuid4` of a barrier comes with the step, as does the reading of the clock.
-/

namespace VllmEngine.Distributed.Stateless

/-- `broadcast_obj` and `broadcast`, which share their counters. -/
inductive Kind
  | obj
  | tensor
deriving DecidableEq, Repr

inductive Key (V : Type)
  | broadcastFrom (kind : Kind) (src n : Nat)
  | arrival (barrierId : V) (rank : Nat)
  | departure (barrierId : V) (rank : Nat)
deriving DecidableEq, Repr

inductive Val (V : Type)
  | pickled (obj : V)
  | one
deriving DecidableEq, Repr

structure Store (V : Type) where
  data : Key V → Option (Val V)
  deleted : List (Key V)

variable {V : Type} [DecidableEq V]

namespace Store

def set (s : Store V) (key : Key V) (val : Val V) : Store V :=
  { s with data := Function.update s.data key (some val) }

def deleteKey (s : Store V) (key : Key V) : Store V :=
  { data := Function.update s.data key none, deleted := key :: s.deleted }

theorem set_data_self (s : Store V) (key : Key V) (val : Val V) :
    (s.set key val).data key = some val := Function.update_self _ _ _

theorem set_data_ne (s : Store V) {key key' : Key V} (val : Val V) (h : key' ≠ key) :
    (s.set key val).data key' = s.data key' := Function.update_of_ne h _ _

theorem deleteKey_data_self (s : Store V) (key : Key V) :
    (s.deleteKey key).data key = none := Function.update_self _ _ _

theorem deleteKey_data_ne (s : Store V) {key key' : Key V} (h : key' ≠ key) :
    (s.deleteKey key).data key' = s.data key' := Function.update_of_ne h _ _

/-- A deleted key is not there, the others are what they were. -/
theorem of_deleteKey_data {s : Store V} {key key' : Key V} {val : Val V}
    (h : (s.deleteKey key).data key' = some val) : key' ≠ key ∧ s.data key' = some val := by
  by_cases heq : key' = key
  · rw [heq, deleteKey_data_self] at h
    exact absurd h (by simp)
  · rw [deleteKey_data_ne s heq] at h
    exact ⟨heq, h⟩

/-- What is there was there or is what was set. -/
theorem of_set_data {s : Store V} {key key' : Key V} {val val' : Val V}
    (h : (s.set key val).data key' = some val') :
    (key' = key ∧ val' = val) ∨ s.data key' = some val' := by
  by_cases heq : key' = key
  · rw [heq, set_data_self] at h
    left
    exact ⟨heq, (Option.some.inj h).symm⟩
  · rw [set_data_ne s val heq] at h
    right
    exact h

end Store

/-! ## The group of a rank -/

/-- `StatelessProcessGroup`, without its rank and size. -/
structure Group (V : Type) where
  dataExpirationSeconds : Nat
  broadcastSendCounter : Nat
  broadcastRecvSrcCounter : Nat → Nat
  entries : List (Key V × Nat)

namespace Group

/-- The loop of `expire_data`. -/
def expireEntries (dataExpirationSeconds now : Nat) :
    List (Key V × Nat) → Store V → List (Key V × Nat) × Store V
  | [], s => ([], s)
  | (key, timestamp) :: entries, s =>
    if dataExpirationSeconds < now - timestamp then
      expireEntries dataExpirationSeconds now entries (s.deleteKey key)
    else ((key, timestamp) :: entries, s)

/-- `broadcast_obj` at the source. -/
def send (g : Group V) (kind : Kind) (src : Nat) (obj : V) (now : Nat) (s : Store V) :
    Group V × Store V :=
  let (entries, s) := expireEntries g.dataExpirationSeconds now g.entries s
  let key := Key.broadcastFrom kind src g.broadcastSendCounter
  ({ g with
      broadcastSendCounter := g.broadcastSendCounter + 1
      entries := entries ++ [(key, now)] },
    s.set key (.pickled obj))

/-- `broadcast_obj` at the other ranks, when the key is there. -/
def recv (g : Group V) (kind : Kind) (src : Nat) (s : Store V) : Option (V × Group V) :=
  match s.data (.broadcastFrom kind src (g.broadcastRecvSrcCounter src)) with
  | some (.pickled obj) =>
    some (obj,
      { g with
        broadcastRecvSrcCounter :=
          Function.update g.broadcastRecvSrcCounter src (g.broadcastRecvSrcCounter src + 1) })
  | _ => none

end Group

/-! ## The polling loops -/

/-- A `while` loop of `barrier`, at an index of its `for` loop. -/
structure Poll where
  startTime : Nat
  seen : Finset Nat
  i : Nat
deriving DecidableEq

/-- Where an index of the loop leads. -/
inductive PollResult
  | timedOut
  | going (poll : Poll)
  | complete

namespace Poll

def start (now : Nat) : Poll := { startTime := now, seen := ∅, i := 0 }

/-- One index of the `for` loop, and what is around it. -/
def look (poll : Poll) (worldSize timeout now : Nat) (present : Nat → Bool) : PollResult :=
  if poll.i < worldSize then
    if poll.i = 0 ∧ timeout < now - poll.startTime then .timedOut
    else if poll.i ∈ poll.seen then .going { poll with i := poll.i + 1 }
    else if present poll.i then
      .going { poll with seen := insert poll.i poll.seen, i := poll.i + 1 }
    else .going { poll with i := poll.i + 1 }
  else if poll.seen.card < worldSize then .going { poll with i := 0 }
  else .complete

end Poll

/-! ## The ranks -/

/-- A call that all ranks make; only the source's object is used. -/
inductive Call (V : Type)
  | broadcast (kind : Kind) (src : Nat) (obj : V)
  | barrier (timeout : Nat)

def Call.timeout : Call V → Nat
  | .broadcast _ _ _ => 0
  | .barrier timeout => timeout

/-- Where a rank is in its call. -/
inductive Phase (V : Type)
  | idle
  | called
  | entered (barrierId : V)
  | arriving (barrierId : V) (poll : Poll)
  | arrived (barrierId : V)
  | departing (barrierId : V) (poll : Poll)
  | deleting (barrierId : V) (keys : List (Key V))
  | raised

/-- A rank; `pc` is the index of the call it is in or makes next. -/
structure Proc (V : Type) where
  group : Group V
  pc : Nat
  phase : Phase V
  barrierIds : Nat → Option V

/-- The keys that rank 0 deletes in the end. -/
def cleanupKeys (worldSize : Nat) (barrierId : V) : List (Key V) :=
  (List.range worldSize).flatMap fun i => [.arrival barrierId i, .departure barrierId i]

namespace Proc

/-- The call returns. -/
def finish (p : Proc V) : Proc V := { p with pc := p.pc + 1, phase := .idle }

/-- `barrier_id` is known. -/
def enter (p : Proc V) (barrierId : V) (group : Group V) : Proc V :=
  { p with
    group := group
    phase := .entered barrierId
    barrierIds := Function.update p.barrierIds p.pc (some barrierId) }

/-- The next step of a rank in `broadcast_obj` and `barrier`. -/
def advance (worldSize rank : Nat) (call : Call V) (now : Nat) (uuid : V) (p : Proc V)
    (s : Store V) : Option (Proc V × Store V) :=
  match p.phase with
  | .idle => some ({ p with phase := .called }, s)
  | .called =>
    match call with
    | .broadcast kind src obj =>
      if rank = src then
        let (group, s) := p.group.send kind src obj now s
        some (finish { p with group := group }, s)
      else (p.group.recv kind src s).map fun received =>
        (finish { p with group := received.2 }, s)
    | .barrier _ =>
      if rank = 0 then
        let (group, s) := p.group.send .obj 0 uuid now s
        some (p.enter uuid group, s)
      else (p.group.recv .obj 0 s).map fun received => (p.enter received.1 received.2, s)
  | .entered barrierId =>
    some ({ p with phase := .arriving barrierId (Poll.start now) },
      s.set (.arrival barrierId rank) .one)
  | .arriving barrierId poll =>
    match poll.look worldSize call.timeout now fun i => (s.data (.arrival barrierId i)).isSome with
    | .timedOut => some ({ p with phase := .raised }, s)
    | .going poll => some ({ p with phase := .arriving barrierId poll }, s)
    | .complete => some ({ p with phase := .arrived barrierId }, s)
  | .arrived barrierId =>
    let s := s.set (.departure barrierId rank) .one
    if rank ≠ 0 then some (p.finish, s)
    else some ({ p with phase := .departing barrierId (Poll.start now) }, s)
  | .departing barrierId poll =>
    match poll.look worldSize call.timeout now fun i =>
      (s.data (.departure barrierId i)).isSome with
    | .timedOut => some ({ p with phase := .raised }, s)
    | .going poll => some ({ p with phase := .departing barrierId poll }, s)
    | .complete => some ({ p with phase := .deleting barrierId (cleanupKeys worldSize barrierId) }, s)
  | .deleting barrierId keys =>
    match keys with
    | [] => some (p.finish, s)
    | key :: keys => some ({ p with phase := .deleting barrierId keys }, s.deleteKey key)
  | .raised => none

end Proc

/-! ## The ranks together -/

structure World (V : Type) where
  procs : Nat → Proc V
  store : Store V

/-- The rank that goes on, with the clock it reads and the id it would draw. -/
structure Event (V : Type) where
  rank : Nat
  now : Nat
  uuid : V

/-- There is no such rank, or it cannot go on. -/
inductive Blocked
  | blocked
deriving DecidableEq, Repr

namespace World

/-- A rank and the store change. -/
def put (w : World V) (rank : Nat) (p : Proc V) (s : Store V) : World V :=
  { procs := Function.update w.procs rank p, store := s }

def step (worldSize : Nat) (calls : List (Call V)) (w : World V) (e : Event V) :
    Except Blocked (World V) :=
  if e.rank < worldSize then
    match calls[(w.procs e.rank).pc]? with
    | some call =>
      match (w.procs e.rank).advance worldSize e.rank call e.now e.uuid w.store with
      | some (p, s) => .ok (w.put e.rank p s)
      | none => .error .blocked
    | none => .error .blocked
  else .error .blocked

/-- An empty store, and ranks that have called nothing yet. -/
def start (dataExpirationSeconds : Nat) : World V :=
  { procs := fun _ =>
      { group :=
          { dataExpirationSeconds := dataExpirationSeconds
            broadcastSendCounter := 0
            broadcastRecvSrcCounter := fun _ => 0
            entries := [] }
        pc := 0
        phase := .idle
        barrierIds := fun _ => none }
    store := { data := fun _ => none, deleted := [] } }

end World
end VllmEngine.Distributed.Stateless

/-!
## What a step of a rank can do

`Moves` lists the steps of a rank in a run without time-outs, and `step_moves` says that
there are no others. How far a rank has come is its call and a stage inside the call
(`Proc.Reached`); no step takes it back. What a step puts into the store, takes out of it
and decides about the progress of its rank is read off the list once, here.
-/

namespace VllmEngine.Distributed.Stateless

variable {V : Type}

/-! ## Progress -/

/-- How far a call has come. -/
def Phase.stage : Phase V → Nat
  | .idle => 0
  | .called => 1
  | .entered _ => 2
  | .arriving _ _ => 3
  | .arrived _ => 4
  | .departing _ _ => 5
  | .deleting _ _ => 6
  | .raised => 0

/-- The rank has come to the stage in the call `k`, or is past the call. -/
def Proc.Reached (p : Proc V) (k stage : Nat) : Prop :=
  k < p.pc ∨ (p.pc = k ∧ stage ≤ p.phase.stage)

/-- The keys that are still to be deleted. -/
def Phase.remaining : Phase V → List (Key V)
  | .deleting _ keys => keys
  | _ => []

theorem Proc.Reached.mono {p p' : Proc V} {k s : Nat} (h : p.Reached k s)
    (hle : p.pc < p'.pc ∨ (p.pc = p'.pc ∧ p.phase.stage ≤ p'.phase.stage)) : p'.Reached k s := by
  unfold Proc.Reached at *
  omega

theorem Proc.reached_pc {p : Proc V} {s : Nat} : p.Reached p.pc s ↔ s ≤ p.phase.stage := by
  unfold Proc.Reached
  omega

/-! ## The numbers of the broadcasts -/

def Call.src : Call V → Nat
  | .broadcast _ src _ => src
  | .barrier _ => 0

/-- How many of the first `k` calls broadcast from `src`. -/
def sends (calls : List (Call V)) (src k : Nat) : Nat :=
  (calls.take k).countP fun call => call.src = src

theorem sends_zero (calls : List (Call V)) (src : Nat) : sends calls src 0 = 0 := rfl

theorem sends_succ {calls : List (Call V)} {k : Nat} (src : Nat) {call : Call V}
    (hcall : calls[k]? = some call) :
    sends calls src (k + 1) = sends calls src k + if call.src = src then 1 else 0 := by
  unfold sends
  rw [List.take_add_one, hcall, List.countP_append]
  by_cases hsrc : call.src = src
  · rw [if_pos hsrc]
    simp [hsrc]
  · rw [if_neg hsrc]
    simp [hsrc]

theorem sends_le (calls : List (Call V)) (src : Nat) {k k' : Nat} (hle : k ≤ k') :
    sends calls src k ≤ sends calls src k' := by
  unfold sends
  apply List.Sublist.countP_le
  rw [show calls.take k = (calls.take k').take k by rw [List.take_take, Nat.min_eq_left hle]]
  exact List.take_sublist _ _

/-- Two broadcasts from one rank have different numbers. -/
theorem sends_inj {calls : List (Call V)} {k k' src : Nat} {call call' : Call V}
    (hcall : calls[k]? = some call) (hsrc : call.src = src) (hcall' : calls[k']? = some call')
    (hsrc' : call'.src = src) (heq : sends calls src k = sends calls src k') : k = k' := by
  have hsucc := sends_succ src hcall
  have hsucc' := sends_succ src hcall'
  rw [if_pos hsrc] at hsucc
  rw [if_pos hsrc'] at hsucc'
  rcases Nat.lt_trichotomy k k' with hlt | hkk | hgt
  · have hle := sends_le calls src (Nat.succ_le_of_lt hlt)
    rw [Nat.succ_eq_add_one] at hle
    omega
  · exact hkk
  · have hle := sends_le calls src (Nat.succ_le_of_lt hgt)
    rw [Nat.succ_eq_add_one] at hle
    omega

/-! ## Without time-outs -/

variable [DecidableEq V]

/-- No data of the rank are old, and no loop of it has gone on for too long. -/
def Timely (calls : List (Call V)) (w : World V) (e : Event V) : Prop :=
  (∀ entry ∈ (w.procs e.rank).group.entries,
    e.now - entry.2 ≤ (w.procs e.rank).group.dataExpirationSeconds) ∧
  ∀ barrierId poll call, calls[(w.procs e.rank).pc]? = some call →
    (w.procs e.rank).phase = .arriving barrierId poll ∨
      (w.procs e.rank).phase = .departing barrierId poll →
    e.now - poll.startTime ≤ call.timeout

/-- An id that is drawn has not been drawn before. -/
def Fresh (w : World V) (e : Event V) : Prop :=
  e.rank = 0 → (w.procs 0).phase = .called →
    ∀ k < (w.procs 0).pc, (w.procs 0).barrierIds k ≠ some e.uuid

/-- The group after a broadcast with nothing to expire. -/
def Group.posted (g : Group V) (key : Key V) (now : Nat) : Group V :=
  { g with
    broadcastSendCounter := g.broadcastSendCounter + 1
    entries := g.entries ++ [(key, now)] }

theorem Group.expireEntries_of_recent {limit now : Nat} (s : Store V) :
    ∀ {entries : List (Key V × Nat)}, (∀ entry ∈ entries, now - entry.2 ≤ limit) →
      Group.expireEntries limit now entries s = (entries, s) := by
  intro entries
  cases entries with
  | nil => intro _; rfl
  | cons entry entries =>
    intro h
    obtain ⟨key, timestamp⟩ := entry
    rw [Group.expireEntries, if_neg]
    have := h (key, timestamp) List.mem_cons_self
    exact Nat.not_lt.mpr this

theorem Group.send_of_recent {g : Group V} {now : Nat} (kind : Kind) (src : Nat) (obj : V)
    (s : Store V) (h : ∀ entry ∈ g.entries, now - entry.2 ≤ g.dataExpirationSeconds) :
    g.send kind src obj now s =
      (g.posted (.broadcastFrom kind src g.broadcastSendCounter) now,
        s.set (.broadcastFrom kind src g.broadcastSendCounter) (.pickled obj)) := by
  unfold Group.send
  rw [Group.expireEntries_of_recent s h]
  rfl

omit [DecidableEq V] in
/-- What a receiving rank finds. -/
theorem Group.recv_eq_some {g g' : Group V} {kind : Kind} {src : Nat} {s : Store V} {obj : V}
    (h : g.recv kind src s = some (obj, g')) :
    s.data (.broadcastFrom kind src (g.broadcastRecvSrcCounter src)) = some (.pickled obj) ∧
      g' = { g with
        broadcastRecvSrcCounter :=
          Function.update g.broadcastRecvSrcCounter src (g.broadcastRecvSrcCounter src + 1) } := by
  unfold Group.recv at h
  split at h
  · rename_i obj' hdata
    cases h
    exact ⟨hdata, rfl⟩
  · exact absurd h (by simp)

/-- The indices that a loop has seen were there, and it is over when it has seen them all. -/
theorem Poll.look_spec {poll : Poll} {timeout now : Nat} (worldSize : Nat)
    (present : Nat → Bool) (h : now - poll.startTime ≤ timeout) :
    (∃ poll', poll.look worldSize timeout now present = .going poll' ∧
      ∀ j ∈ poll'.seen, j ∈ poll.seen ∨ (j < worldSize ∧ present j = true)) ∨
    (poll.look worldSize timeout now present = .complete ∧ worldSize ≤ poll.seen.card) := by
  unfold Poll.look
  split
  · rename_i hi
    left
    rw [if_neg (by omega)]
    split
    · exact ⟨_, rfl, fun j hj => Or.inl hj⟩
    · split
      · rename_i hpresent
        refine ⟨_, rfl, fun j hj => ?_⟩
        rcases Finset.mem_insert.mp hj with rfl | hj
        · right
          exact ⟨hi, hpresent⟩
        · left
          exact hj
      · exact ⟨_, rfl, fun j hj => Or.inl hj⟩
  · split
    · left
      exact ⟨_, rfl, fun j hj => Or.inl hj⟩
    · rename_i hcard
      right
      exact ⟨rfl, Nat.not_lt.mp hcard⟩

/-- The steps of the rank `r`, with what it and the store are afterwards. -/
inductive Moves (worldSize : Nat) (calls : List (Call V)) (w : World V) (r : Nat) :
    Proc V → Store V → Prop
  | call (hphase : (w.procs r).phase = .idle) :
      Moves worldSize calls w r { w.procs r with phase := .called } w.store
  | send (kind : Kind) (obj : V) (now : Nat) (key : Key V)
      (hkey : key = .broadcastFrom kind r (w.procs r).group.broadcastSendCounter)
      (hcall : calls[(w.procs r).pc]? = some (.broadcast kind r obj))
      (hphase : (w.procs r).phase = .called) :
      Moves worldSize calls w r
        (Proc.finish { w.procs r with group := (w.procs r).group.posted key now })
        (w.store.set key (.pickled obj))
  | recv (kind : Kind) (src : Nat) (obj obj' : V) (group : Group V) (hr : r ≠ src)
      (hcall : calls[(w.procs r).pc]? = some (.broadcast kind src obj))
      (hphase : (w.procs r).phase = .called)
      (hrecv : (w.procs r).group.recv kind src w.store = some (obj', group)) :
      Moves worldSize calls w r (Proc.finish { w.procs r with group := group }) w.store
  | issue (timeout now : Nat) (uuid : V) (key : Key V) (hr : r = 0)
      (hkey : key = .broadcastFrom .obj 0 (w.procs r).group.broadcastSendCounter)
      (hcall : calls[(w.procs r).pc]? = some (.barrier timeout))
      (hphase : (w.procs r).phase = .called)
      (hfresh : ∀ k < (w.procs r).pc, (w.procs r).barrierIds k ≠ some uuid) :
      Moves worldSize calls w r
        ((w.procs r).enter uuid ((w.procs r).group.posted key now))
        (w.store.set key (.pickled uuid))
  | learn (timeout : Nat) (barrierId : V) (group : Group V) (hr : r ≠ 0)
      (hcall : calls[(w.procs r).pc]? = some (.barrier timeout))
      (hphase : (w.procs r).phase = .called)
      (hrecv : (w.procs r).group.recv .obj 0 w.store = some (barrierId, group)) :
      Moves worldSize calls w r ((w.procs r).enter barrierId group) w.store
  | signal (barrierId : V) (now : Nat) (hphase : (w.procs r).phase = .entered barrierId) :
      Moves worldSize calls w r
        { w.procs r with phase := .arriving barrierId (Poll.start now) }
        (w.store.set (.arrival barrierId r) .one)
  | look (barrierId : V) (poll poll' : Poll)
      (hphase : (w.procs r).phase = .arriving barrierId poll)
      (hseen : ∀ j ∈ poll'.seen, j ∈ poll.seen ∨
        (j < worldSize ∧ (w.store.data (.arrival barrierId j)).isSome = true)) :
      Moves worldSize calls w r { w.procs r with phase := .arriving barrierId poll' } w.store
  | arrive (barrierId : V) (poll : Poll)
      (hphase : (w.procs r).phase = .arriving barrierId poll)
      (hcard : worldSize ≤ poll.seen.card) :
      Moves worldSize calls w r { w.procs r with phase := .arrived barrierId } w.store
  | leave (barrierId : V) (hr : r ≠ 0) (hphase : (w.procs r).phase = .arrived barrierId) :
      Moves worldSize calls w r (w.procs r).finish
        (w.store.set (.departure barrierId r) .one)
  | stay (barrierId : V) (now : Nat) (hr : r = 0)
      (hphase : (w.procs r).phase = .arrived barrierId) :
      Moves worldSize calls w r
        { w.procs r with phase := .departing barrierId (Poll.start now) }
        (w.store.set (.departure barrierId r) .one)
  | lookAgain (barrierId : V) (poll poll' : Poll)
      (hphase : (w.procs r).phase = .departing barrierId poll)
      (hseen : ∀ j ∈ poll'.seen, j ∈ poll.seen ∨
        (j < worldSize ∧ (w.store.data (.departure barrierId j)).isSome = true)) :
      Moves worldSize calls w r { w.procs r with phase := .departing barrierId poll' } w.store
  | depart (barrierId : V) (poll : Poll)
      (hphase : (w.procs r).phase = .departing barrierId poll)
      (hcard : worldSize ≤ poll.seen.card) :
      Moves worldSize calls w r
        { w.procs r with phase := .deleting barrierId (cleanupKeys worldSize barrierId) } w.store
  | delete (barrierId : V) (key : Key V) (keys : List (Key V))
      (hphase : (w.procs r).phase = .deleting barrierId (key :: keys)) :
      Moves worldSize calls w r { w.procs r with phase := .deleting barrierId keys }
        (w.store.deleteKey key)
  | ret (barrierId : V) (hphase : (w.procs r).phase = .deleting barrierId []) :
      Moves worldSize calls w r (w.procs r).finish w.store

variable {worldSize : Nat} {calls : List (Call V)} {w w' : World V} {e : Event V}

/-- A step of a run without time-outs is one of the list. -/
theorem step_moves (htimely : Timely calls w e) (hfresh : Fresh w e)
    (hstep : w.step worldSize calls e = .ok w') :
    e.rank < worldSize ∧ ∃ p s, Moves worldSize calls w e.rank p s ∧ w' = w.put e.rank p s := by
  unfold World.step at hstep
  split at hstep
  · rename_i hr
    refine ⟨hr, ?_⟩
    split at hstep
    · rename_i call hcall
      split at hstep
      · rename_i p s hadvance
        cases hstep
        refine ⟨p, s, ?_, rfl⟩
        unfold Proc.advance at hadvance
        cases hphase : (w.procs e.rank).phase with
        | idle =>
          rw [hphase] at hadvance
          cases hadvance
          exact .call hphase
        | called =>
          rw [hphase] at hadvance
          cases call with
          | broadcast kind src obj =>
            dsimp only at hadvance
            split at hadvance
            · rename_i hsrc
              rw [Group.send_of_recent kind src obj w.store htimely.1] at hadvance
              cases hadvance
              subst hsrc
              exact .send kind obj e.now _ rfl hcall hphase
            · rename_i hsrc
              obtain ⟨⟨obj', group⟩, hrecv, heq⟩ := Option.map_eq_some_iff.mp hadvance
              cases heq
              exact .recv kind src obj obj' group hsrc hcall hphase hrecv
          | barrier timeout =>
            dsimp only at hadvance
            split at hadvance
            · rename_i hzero
              rw [Group.send_of_recent .obj 0 e.uuid w.store htimely.1] at hadvance
              cases hadvance
              refine .issue timeout e.now e.uuid _ hzero rfl hcall hphase ?_
              rw [hzero] at hphase ⊢
              exact hfresh hzero hphase
            · rename_i hzero
              obtain ⟨⟨barrierId, group⟩, hrecv, heq⟩ := Option.map_eq_some_iff.mp hadvance
              cases heq
              exact .learn timeout barrierId group hzero hcall hphase hrecv
        | entered barrierId =>
          rw [hphase] at hadvance
          cases hadvance
          exact .signal barrierId e.now hphase
        | arriving barrierId poll =>
          rw [hphase] at hadvance
          dsimp only at hadvance
          rcases Poll.look_spec worldSize (fun i => (w.store.data (.arrival barrierId i)).isSome)
              (htimely.2 barrierId poll call hcall (Or.inl hphase)) with
            ⟨poll', hlook, hseen⟩ | ⟨hlook, hcard⟩
          · rw [hlook] at hadvance
            cases hadvance
            exact .look barrierId poll poll' hphase hseen
          · rw [hlook] at hadvance
            cases hadvance
            exact .arrive barrierId poll hphase hcard
        | arrived barrierId =>
          rw [hphase] at hadvance
          dsimp only at hadvance
          split at hadvance
          · rename_i hzero
            cases hadvance
            exact .leave barrierId hzero hphase
          · rename_i hzero
            cases hadvance
            exact .stay barrierId e.now (not_not.mp hzero) hphase
        | departing barrierId poll =>
          rw [hphase] at hadvance
          dsimp only at hadvance
          rcases Poll.look_spec worldSize (fun i => (w.store.data (.departure barrierId i)).isSome)
              (htimely.2 barrierId poll call hcall (Or.inr hphase)) with
            ⟨poll', hlook, hseen⟩ | ⟨hlook, hcard⟩
          · rw [hlook] at hadvance
            cases hadvance
            exact .lookAgain barrierId poll poll' hphase hseen
          · rw [hlook] at hadvance
            cases hadvance
            exact .depart barrierId poll hphase hcard
        | deleting barrierId keys =>
          rw [hphase] at hadvance
          cases keys with
          | nil =>
            cases hadvance
            exact .ret barrierId hphase
          | cons key keys =>
            cases hadvance
            exact .delete barrierId key keys hphase
        | raised =>
          rw [hphase] at hadvance
          cases hadvance
      · cases hstep
    · cases hstep
  · cases hstep

/-! ## What a step changes -/

variable {r : Nat} {p : Proc V} {s : Store V}

/-- No step takes a rank back. -/
theorem Moves.progress (h : Moves worldSize calls w r p s) :
    (w.procs r).pc < p.pc ∨
      ((w.procs r).pc = p.pc ∧ (w.procs r).phase.stage ≤ p.phase.stage) := by
  have hfinish : ∀ q : Proc V, q.pc < q.finish.pc := fun q => Nat.lt_succ_self q.pc
  cases h with
  | call hphase => right; rw [hphase]; exact ⟨rfl, Nat.zero_le _⟩
  | send kind obj now key hkey hcall hphase => left; exact hfinish _
  | recv kind src obj obj' group hr hcall hphase hrecv => left; exact hfinish _
  | issue timeout now uuid key hr hkey hcall hphase hfresh =>
    right; rw [hphase]; exact ⟨rfl, Nat.le_succ 1⟩
  | learn timeout barrierId group hr hcall hphase hrecv =>
    right; rw [hphase]; exact ⟨rfl, Nat.le_succ 1⟩
  | signal barrierId now hphase => right; rw [hphase]; exact ⟨rfl, Nat.le_succ 2⟩
  | look barrierId poll poll' hphase hseen => right; rw [hphase]; exact ⟨rfl, Nat.le_refl 3⟩
  | arrive barrierId poll hphase hcard => right; rw [hphase]; exact ⟨rfl, Nat.le_succ 3⟩
  | leave barrierId hr hphase => left; exact hfinish _
  | stay barrierId now hr hphase => right; rw [hphase]; exact ⟨rfl, Nat.le_succ 4⟩
  | lookAgain barrierId poll poll' hphase hseen =>
    right; rw [hphase]; exact ⟨rfl, Nat.le_refl 5⟩
  | depart barrierId poll hphase hcard => right; rw [hphase]; exact ⟨rfl, Nat.le_succ 5⟩
  | delete barrierId key keys hphase => right; rw [hphase]; exact ⟨rfl, Nat.le_refl 6⟩
  | ret barrierId hphase => left; exact hfinish _

/-- The ids of a rank stay, and a new one is that of a barrier it has just entered. -/
theorem Moves.barrierIds_eq (h : Moves worldSize calls w r p s) :
    p.barrierIds = (w.procs r).barrierIds ∨
      ∃ timeout u, (w.procs r).phase = .called ∧
        calls[(w.procs r).pc]? = some (.barrier timeout) ∧
        p.pc = (w.procs r).pc ∧ p.phase = .entered u ∧
        p.barrierIds = Function.update (w.procs r).barrierIds (w.procs r).pc (some u) ∧
        (r = 0 → ∀ k < (w.procs r).pc, (w.procs r).barrierIds k ≠ some u) := by
  cases h with
  | issue timeout now uuid key hr hkey hcall hphase hfresh =>
    right
    exact ⟨timeout, uuid, hphase, hcall, rfl, rfl, rfl, fun _ => hfresh⟩
  | learn timeout barrierId group hr hcall hphase hrecv =>
    right
    exact ⟨timeout, barrierId, hphase, hcall, rfl, rfl, rfl, fun hzero => absurd hzero hr⟩
  | _ => exact Or.inl rfl

/-- What a step puts into the store. -/
theorem Moves.data {key : Key V} {val : Val V} (h : Moves worldSize calls w r p s)
    (hval : s.data key = some val) :
    w.store.data key = some val ∨
    (∃ kind call, key = .broadcastFrom kind r (w.procs r).group.broadcastSendCounter ∧
      (w.procs r).phase = .called ∧ calls[(w.procs r).pc]? = some call ∧ call.src = r ∧
      ∀ timeout, call = .barrier timeout →
        ∃ u, val = .pickled u ∧ p.barrierIds (w.procs r).pc = some u) ∨
    (∃ u, key = .arrival u r ∧ (w.procs r).phase = .entered u ∧ p.Reached (w.procs r).pc 3) ∨
    (∃ u, key = .departure u r ∧ (w.procs r).phase = .arrived u ∧
      p.Reached (w.procs r).pc 5) := by
  cases h with
  | send kind obj now key' hkey hcall hphase =>
    rcases Store.of_set_data hval with ⟨heq, -⟩ | hold
    · right; left
      exact ⟨kind, _, heq.trans hkey, hphase, hcall, rfl, fun timeout hfalse => by cases hfalse⟩
    · exact Or.inl hold
  | issue timeout now uuid key' hr hkey hcall hphase hfresh =>
    rcases Store.of_set_data hval with ⟨heq, hval⟩ | hold
    · right; left
      refine ⟨.obj, _, ?_, hphase, hcall, hr.symm, fun _ _ => ⟨uuid, hval, ?_⟩⟩
      · rw [heq, hkey, hr]
      · exact Function.update_self _ _ _
    · exact Or.inl hold
  | signal barrierId now hphase =>
    rcases Store.of_set_data hval with ⟨heq, -⟩ | hold
    · right; right; left
      exact ⟨barrierId, heq, hphase, Or.inr ⟨rfl, Nat.le_refl 3⟩⟩
    · exact Or.inl hold
  | leave barrierId hr hphase =>
    rcases Store.of_set_data hval with ⟨heq, -⟩ | hold
    · right; right; right
      exact ⟨barrierId, heq, hphase, Or.inl (Nat.lt_succ_self _)⟩
    · exact Or.inl hold
  | stay barrierId now hr hphase =>
    rcases Store.of_set_data hval with ⟨heq, -⟩ | hold
    · right; right; right
      exact ⟨barrierId, heq, hphase, Or.inr ⟨rfl, Nat.le_refl 5⟩⟩
    · exact Or.inl hold
  | delete barrierId key' keys hphase => exact Or.inl (Store.of_deleteKey_data hval).2
  | _ => exact Or.inl hval

/-- What a step takes out of the store. -/
theorem Moves.deleted {key : Key V} (h : Moves worldSize calls w r p s)
    (hkey : key ∈ s.deleted) :
    key ∈ w.store.deleted ∨ ∃ u keys, (w.procs r).phase = .deleting u (key :: keys) := by
  cases h with
  | delete barrierId key' keys hphase =>
    rcases List.mem_cons.mp hkey with rfl | hold
    · right
      exact ⟨barrierId, keys, hphase⟩
    · exact Or.inl hold
  | _ => exact Or.inl hkey

/-- A key that is to be deleted is deleted or still to be deleted. -/
theorem Moves.remaining {key : Key V} (h : Moves worldSize calls w r p s)
    (hkey : key ∈ (w.procs r).phase.remaining) (hval : s.data key ≠ none) :
    key ∈ p.phase.remaining := by
  cases h with
  | delete barrierId key' keys hphase =>
    rw [hphase] at hkey
    rcases List.mem_cons.mp hkey with rfl | hold
    · exact absurd (Store.deleteKey_data_self _ _) hval
    · exact hold
  | ret barrierId hphase => rw [hphase] at hkey; exact absurd hkey List.not_mem_nil
  | call hphase => rw [hphase] at hkey; exact absurd hkey List.not_mem_nil
  | send kind obj now key' hkey' hcall hphase =>
    rw [hphase] at hkey; exact absurd hkey List.not_mem_nil
  | recv kind src obj obj' group hr hcall hphase hrecv =>
    rw [hphase] at hkey; exact absurd hkey List.not_mem_nil
  | issue timeout now uuid key' hr hkey' hcall hphase hfresh =>
    rw [hphase] at hkey; exact absurd hkey List.not_mem_nil
  | learn timeout barrierId group hr hcall hphase hrecv =>
    rw [hphase] at hkey; exact absurd hkey List.not_mem_nil
  | signal barrierId now hphase => rw [hphase] at hkey; exact absurd hkey List.not_mem_nil
  | look barrierId poll poll' hphase hseen =>
    rw [hphase] at hkey; exact absurd hkey List.not_mem_nil
  | arrive barrierId poll hphase hcard => rw [hphase] at hkey; exact absurd hkey List.not_mem_nil
  | leave barrierId hr hphase => rw [hphase] at hkey; exact absurd hkey List.not_mem_nil
  | stay barrierId now hr hphase => rw [hphase] at hkey; exact absurd hkey List.not_mem_nil
  | lookAgain barrierId poll poll' hphase hseen =>
    rw [hphase] at hkey; exact absurd hkey List.not_mem_nil
  | depart barrierId poll hphase hcard => rw [hphase] at hkey; exact absurd hkey List.not_mem_nil

/-- Rank 0 comes to delete the keys of a barrier by the end of its second loop only. -/
theorem Moves.reached_six {k timeout : Nat} (h : Moves worldSize calls w r p s)
    (hzero : r = 0) (hcall : calls[k]? = some (.barrier timeout)) (hreach : p.Reached k 6) :
    (w.procs r).Reached k 6 ∨ ∃ u poll, (w.procs r).phase = .departing u poll ∧
      k = (w.procs r).pc ∧ p.phase = .deleting u (cleanupKeys worldSize u) ∧ s = w.store := by
  rcases hreach with hlt | ⟨hpc, hsix⟩
  · -- the rank is past the call
    rcases Nat.lt_or_ge k (w.procs r).pc with hold | hge
    · left
      exact Or.inl hold
    · have hback : ∀ q : Proc V, q.pc = (w.procs r).pc → k < q.finish.pc → k = (w.procs r).pc := by
        intro q hq hlt
        have : k < q.pc + 1 := hlt
        omega
      have hsame : ∀ {q : Proc V}, q.pc = (w.procs r).pc → ¬ k < q.pc := by
        intro q hq hlt
        omega
      cases h with
      | send kind obj now key hkey hcall' hphase =>
        rw [hback _ rfl hlt, hcall'] at hcall
        cases hcall
      | recv kind src obj obj' group hr hcall' hphase hrecv =>
        rw [hback _ rfl hlt, hcall'] at hcall
        cases hcall
      | leave barrierId hr hphase => exact absurd hzero hr
      | ret barrierId hphase =>
        left
        refine Or.inr ⟨(hback _ rfl hlt).symm, ?_⟩
        rw [hphase]
        exact Nat.le_refl 6
      | _ => exact absurd hlt (hsame rfl)
  · cases h with
    | depart barrierId poll hphase hcard =>
      right
      exact ⟨barrierId, poll, hphase, hpc.symm, rfl, rfl⟩
    | delete barrierId key keys hphase =>
      left
      refine Or.inr ⟨hpc, ?_⟩
      rw [hphase]
      exact Nat.le_refl 6
    | call hphase => exact absurd hsix (by simp [Phase.stage])
    | send kind obj now key hkey hcall' hphase =>
      exact absurd hsix (by simp [Phase.stage, Proc.finish])
    | recv kind src obj obj' group hr hcall' hphase hrecv =>
      exact absurd hsix (by simp [Phase.stage, Proc.finish])
    | issue timeout' now uuid key hr hkey hcall' hphase hfresh =>
      exact absurd hsix (by simp [Phase.stage, Proc.enter])
    | learn timeout' barrierId group hr hcall' hphase hrecv =>
      exact absurd hsix (by simp [Phase.stage, Proc.enter])
    | leave barrierId hr hphase => exact absurd hzero hr
    | ret barrierId hphase => exact absurd hsix (by simp [Phase.stage, Proc.finish])
    | _ => exact absurd hsix (by simp [Phase.stage])

end VllmEngine.Distributed.Stateless
