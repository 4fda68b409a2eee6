import Mathlib

/-!
# The store-based process group

`StatelessProcessGroup`: objects between processes through a store that all of them share. A
message is an entry under a key made of ranks and of a counter that sender and receiver advance
each on its own; `get` blocks until the key is there, so here the operation is not enabled
before.

Mirroring notes:
- An entry also holds the rank that set it last. No operation returns it: it is what the
  conditions on a run are about.
- `all_gather_obj` is a loop of broadcasts. Its call and each of its iterations are steps of
  their own, any other rank may act in between.
- No data expires, so `expire_data` and the entries it looks at are left out.
-/

namespace VllmEngine.Distributed

variable {n : Nat} {Obj : Type*}

/-! ## Keys -/

def sendKey (dst counter : Nat) : String := s!"send_to/{dst}/{counter}"

def broadcastKey (src counter : Nat) : String := s!"broadcast_from/{src}/{counter}"

theorem sendKey_toList (dst counter : Nat) :
    (sendKey dst counter).toList
      = "send_to/".toList ++ (dst.repr.toList ++ '/' :: counter.repr.toList) := by
  simp [sendKey, String.toList_append, ToString.toString]

theorem broadcastKey_toList (src counter : Nat) :
    (broadcastKey src counter).toList
      = "broadcast_from/".toList ++ (src.repr.toList ++ '/' :: counter.repr.toList) := by
  simp [broadcastKey, String.toList_append, ToString.toString]

theorem slash_not_mem_repr (k : Nat) : '/' ∉ k.repr.toList := by
  intro hmem
  have hdigit := Nat.isDigit_of_mem_toDigits (b := 10) (by omega) (by omega)
    (c := '/') (n := k) (by simpa [Nat.repr] using hmem)
  simp [Char.isDigit] at hdigit

/-- Two numbers with a slash between them can be told apart. -/
theorem numbers_inj {a b a' b' : Nat}
    (h : a.repr.toList ++ '/' :: b.repr.toList = a'.repr.toList ++ '/' :: b'.repr.toList) :
    a = a' ∧ b = b' := by
  obtain ⟨ha, -, hb⟩ := (List.append_cons_inj_of_notMem (slash_not_mem_repr a)
    (slash_not_mem_repr b)).mp h
  exact ⟨Nat.repr_injective (String.toList_injective ha),
    Nat.repr_injective (String.toList_injective hb)⟩

theorem sendKey_inj {dst counter dst' counter' : Nat} :
    sendKey dst counter = sendKey dst' counter' ↔ dst = dst' ∧ counter = counter' := by
  constructor
  · intro h
    have htext := congrArg String.toList h
    rw [sendKey_toList, sendKey_toList] at htext
    exact numbers_inj (List.append_cancel_left htext)
  · intro ⟨hdst, hcounter⟩
    rw [hdst, hcounter]

theorem broadcastKey_inj {src counter src' counter' : Nat} :
    broadcastKey src counter = broadcastKey src' counter' ↔ src = src' ∧ counter = counter' := by
  constructor
  · intro h
    have htext := congrArg String.toList h
    rw [broadcastKey_toList, broadcastKey_toList] at htext
    exact numbers_inj (List.append_cancel_left htext)
  · intro ⟨hsrc, hcounter⟩
    rw [hsrc, hcounter]

/-- The two families of keys have nothing in common. -/
theorem sendKey_ne_broadcastKey (dst counter src counter' : Nat) :
    sendKey dst counter ≠ broadcastKey src counter' := by
  intro h
  have htext := congrArg String.toList h
  rw [sendKey_toList, broadcastKey_toList] at htext
  exact absurd (congrArg List.head? htext) (by simp)

/-! ## One process -/

structure StatelessProcessGroup (n : Nat) where
  sendDstCounter : Fin n → Nat
  recvSrcCounter : Fin n → Nat
  broadcastSendCounter : Nat
  broadcastRecvSrcCounter : Fin n → Nat

/-- The locals of an `all_gather_obj` that has not returned. -/
structure AllGather (Obj : Type*) where
  obj : Obj
  gatheredObjs : List Obj

/-- All processes and the store. -/
structure GroupWorld (n : Nat) (Obj : Type*) where
  group : Fin n → StatelessProcessGroup n
  store : String → Option (Fin n × Obj)
  gathering : Fin n → Option (AllGather Obj)

inductive CollectiveCall (n : Nat) (Obj : Type*)
  | broadcast (src : Fin n) (obj : Obj)
  | allGather (obj : Obj)
deriving DecidableEq

/-- What happened, as the callers see it. An `all_gather_obj` is `called` when it begins and
`gathered` when it returns; in between it is seen to broadcast and to receive. -/
inductive GroupEvent (n : Nat) (Obj : Type*)
  | sent (src dst : Fin n) (obj : Obj)
  | received (dst src : Fin n) (obj : Obj)
  | called (rank : Fin n) (call : CollectiveCall n Obj)
  | broadcast (src : Fin n) (obj : Obj)
  | broadcastReceived (rank src : Fin n) (obj : Obj)
  | gathered (rank : Fin n) (objs : List Obj)
deriving DecidableEq

/-- What a broadcast looks like on `rank`. -/
def broadcastEvent (rank src : Fin n) (obj : Obj) : GroupEvent n Obj :=
  if rank = src then .broadcast src obj else .broadcastReceived rank src obj

inductive GroupAction (n : Nat) (Obj : Type*)
  | sendObj (rank : Fin n) (obj : Obj) (dst : Fin n)
  | recvObj (rank src : Fin n)
  | broadcastObj (rank : Fin n) (obj : Obj) (src : Fin n)
  | allGatherObj (rank : Fin n) (obj : Obj)
  | gatherNext (rank : Fin n)

namespace GroupWorld

def init (n : Nat) (Obj : Type*) : GroupWorld n Obj where
  group _ :=
    { sendDstCounter := fun _ => 0
      recvSrcCounter := fun _ => 0
      broadcastSendCounter := 0
      broadcastRecvSrcCounter := fun _ => 0 }
  store _ := none
  gathering _ := none

def sendObj (w : GroupWorld n Obj) (rank : Fin n) (obj : Obj) (dst : Fin n) : GroupWorld n Obj :=
  let g := w.group rank
  { w with
    store := Function.update w.store (sendKey dst (g.sendDstCounter dst)) (some (rank, obj))
    group := Function.update w.group rank
      { g with sendDstCounter := Function.update g.sendDstCounter dst (g.sendDstCounter dst + 1) } }

def recvObj (w : GroupWorld n Obj) (rank src : Fin n) : Option (GroupWorld n Obj × Obj) :=
  let g := w.group rank
  (w.store (sendKey rank (g.recvSrcCounter src))).map fun entry =>
    ({ w with
      group := Function.update w.group rank
        { g with recvSrcCounter := Function.update g.recvSrcCounter src (g.recvSrcCounter src + 1) } },
     entry.2)

/-- `broadcast_obj`: what the source returns is its own object. -/
def broadcastObj (w : GroupWorld n Obj) (rank : Fin n) (obj : Obj) (src : Fin n) :
    Option (GroupWorld n Obj × Obj) :=
  let g := w.group rank
  if rank = src then
    some ({ w with
      store := Function.update w.store (broadcastKey src g.broadcastSendCounter) (some (rank, obj))
      group := Function.update w.group rank
        { g with broadcastSendCounter := g.broadcastSendCounter + 1 } }, obj)
  else
    (w.store (broadcastKey src (g.broadcastRecvSrcCounter src))).map fun entry =>
      ({ w with
        group := Function.update w.group rank
          { g with
            broadcastRecvSrcCounter := Function.update g.broadcastRecvSrcCounter src
              (g.broadcastRecvSrcCounter src + 1) } },
       entry.2)

/-- The call of `all_gather_obj`, up to its loop. A group without ranks has no caller. -/
def allGatherObj (w : GroupWorld n Obj) (rank : Fin n) (obj : Obj) : GroupWorld n Obj :=
  { w with gathering := Function.update w.gathering rank (some { obj, gatheredObjs := [] }) }

/-- An iteration of the loop of `all_gather_obj`, and the return after the last one. What a
receiver passes to `broadcast_obj` is not looked at. -/
def gatherNext (w : GroupWorld n Obj) (rank : Fin n) : Option (GroupWorld n Obj × List (GroupEvent n Obj)) :=
  match w.gathering rank with
  | none => none
  | some ag =>
    if hi : ag.gatheredObjs.length < n then
      (w.broadcastObj rank ag.obj ⟨ag.gatheredObjs.length, hi⟩).map fun r =>
        let objs := ag.gatheredObjs ++ [r.2]
        if objs.length < n then
          ({ r.1 with
            gathering := Function.update w.gathering rank (some { obj := ag.obj, gatheredObjs := objs }) },
           [broadcastEvent rank ⟨ag.gatheredObjs.length, hi⟩ r.2])
        else
          ({ r.1 with gathering := Function.update w.gathering rank none },
           [broadcastEvent rank ⟨ag.gatheredObjs.length, hi⟩ r.2, .gathered rank objs])
    else none

/-- One store operation of one rank. A rank inside an `all_gather_obj` makes no other call. -/
def step (w : GroupWorld n Obj) : GroupAction n Obj → Option (GroupWorld n Obj × List (GroupEvent n Obj))
  | .sendObj rank obj dst =>
    if (w.gathering rank).isNone then some (w.sendObj rank obj dst, [.sent rank dst obj]) else none
  | .recvObj rank src =>
    if (w.gathering rank).isNone then
      (w.recvObj rank src).map fun r => (r.1, [.received rank src r.2])
    else none
  | .broadcastObj rank obj src =>
    if (w.gathering rank).isNone then
      (w.broadcastObj rank obj src).map fun r =>
        (r.1, [.called rank (.broadcast src obj), broadcastEvent rank src r.2])
    else none
  | .allGatherObj rank obj =>
    if (w.gathering rank).isNone then
      some (w.allGatherObj rank obj, [.called rank (.allGather obj)])
    else none
  | .gatherNext rank => w.gatherNext rank

end GroupWorld

/-! ## What the callers see -/

section Logs

variable (events : List (GroupEvent n Obj))

/-- The objects that `src` has sent to `dst`, in order. -/
def sentObjs (src dst : Fin n) : List Obj :=
  events.filterMap fun
    | .sent s d obj => if s = src ∧ d = dst then some obj else none
    | _ => none

/-- What `recv_obj(src)` has returned on `dst`, in order. -/
def receivedObjs (dst src : Fin n) : List Obj :=
  events.filterMap fun
    | .received d s obj => if d = dst ∧ s = src then some obj else none
    | _ => none

def broadcastObjs (src : Fin n) : List Obj :=
  events.filterMap fun
    | .broadcast s obj => if s = src then some obj else none
    | _ => none

def broadcastReceivedObjs (rank src : Fin n) : List Obj :=
  events.filterMap fun
    | .broadcastReceived r s obj => if r = rank ∧ s = src then some obj else none
    | _ => none

/-- The collective calls of a rank. -/
def collectiveCalls (rank : Fin n) : List (CollectiveCall n Obj) :=
  events.filterMap fun
    | .called r call => if r = rank then some call else none
    | _ => none

/-- What `all_gather_obj` has returned on `rank`, in order. -/
def gatherResults (rank : Fin n) : List (List Obj) :=
  events.filterMap fun
    | .gathered r objs => if r = rank then some objs else none
    | _ => none

end Logs

namespace CollectiveCall

def obj : CollectiveCall n Obj → Obj
  | broadcast _ obj => obj
  | allGather obj => obj

def isGather : CollectiveCall n Obj → Bool
  | broadcast _ _ => false
  | allGather _ => true

/-- Whether `src` broadcasts in this call. -/
def involves (src : Fin n) : CollectiveCall n Obj → Bool
  | broadcast s _ => decide (s = src)
  | allGather _ => true

/-- The object of an `all_gather_obj`. -/
def gatherObj : CollectiveCall n Obj → Option Obj
  | broadcast _ _ => none
  | allGather obj => some obj

end CollectiveCall

/-- The calls of `rank` in which `src` broadcasts. -/
def callsFrom (events : List (GroupEvent n Obj)) (src rank : Fin n) : List (CollectiveCall n Obj) :=
  (collectiveCalls events rank).filter (·.involves src)

/-- The objects that a rank has passed to `all_gather_obj`, in order. -/
def gatherObjs (events : List (GroupEvent n Obj)) (rank : Fin n) : List Obj :=
  (collectiveCalls events rank).filterMap (·.gatherObj)

/-- Of the calls in which `src` broadcasts, every rank makes the same ones as `src`, in the same
order, as far as it has come. -/
def InStep (events : List (GroupEvent n Obj)) : Prop :=
  ∀ rank src : Fin n,
    (callsFrom events src rank).map (·.isGather) <+: (callsFrom events src src).map (·.isGather)
      ∨ (callsFrom events src src).map (·.isGather) <+: (callsFrom events src rank).map (·.isGather)

/-- Messages reach the right receiver: what was received is an initial part of what was sent,
and the k-th `all_gather_obj` of a rank returned what each rank passed to its own k-th. -/
structure Delivered (events : List (GroupEvent n Obj)) : Prop where
  received : ∀ dst src, receivedObjs events dst src <+: sentObjs events src dst
  broadcast : ∀ rank src, broadcastReceivedObjs events rank src <+: broadcastObjs events src
  gathered : ∀ (rank : Fin n) (k : Nat) (objs : List Obj), (gatherResults events rank)[k]? = some objs →
    ∃ passed : Fin n → Obj, objs = List.ofFn passed
      ∧ ∀ i : Fin n, (gatherObjs events i)[k]? = some (passed i)

/-- What a step must meet for the messages to be delivered: a `recv_obj` finds an entry that its
source has set last, and a collective call keeps the ranks in step. -/
def GroupGuard (w : GroupWorld n Obj) (events : List (GroupEvent n Obj)) : GroupAction n Obj → Prop
  | .recvObj rank src => ∀ writer obj,
    w.store (sendKey rank ((w.group rank).recvSrcCounter src)) = some (writer, obj) → writer = src
  | .broadcastObj rank obj src => InStep (events ++ [.called rank (.broadcast src obj)])
  | .allGatherObj rank obj => InStep (events ++ [.called rank (.allGather obj)])
  | _ => True

/-- The states that the ranks come to when every step meets `guard`, with what happened. -/
inductive GroupReached (guard : GroupWorld n Obj → List (GroupEvent n Obj) → GroupAction n Obj → Prop) :
    GroupWorld n Obj → List (GroupEvent n Obj) → Prop
  | init : GroupReached guard (GroupWorld.init n Obj) []
  | step {w w' : GroupWorld n Obj} {events new : List (GroupEvent n Obj)} {a : GroupAction n Obj} :
    GroupReached guard w events → guard w events a → w.step a = some (w', new) →
      GroupReached guard w' (events ++ new)

end VllmEngine.Distributed

/-!
## Delivery through the store

What holds in every state of a run of the store-based group whose steps meet `GroupGuard`. Sends
and broadcasts use keys of their own, so each has its own invariant (`SendInv`, `BroadcastInv`):
the counters are the lengths of what was sent and received, and the entry under a key is the
object with that number. `GatherInv` relates broadcasts to the calls they belong to.
-/

namespace VllmEngine.Distributed

variable {n : Nat} {Obj : Type*}

/-! ## Logs grow at their end -/

section LogLemmas

variable (events new : List (GroupEvent n Obj))

@[simp] theorem sentObjs_append (src dst : Fin n) :
    sentObjs (events ++ new) src dst = sentObjs events src dst ++ sentObjs new src dst :=
  List.filterMap_append

@[simp] theorem receivedObjs_append (dst src : Fin n) :
    receivedObjs (events ++ new) dst src = receivedObjs events dst src ++ receivedObjs new dst src :=
  List.filterMap_append

@[simp] theorem broadcastObjs_append (src : Fin n) :
    broadcastObjs (events ++ new) src = broadcastObjs events src ++ broadcastObjs new src :=
  List.filterMap_append

@[simp] theorem broadcastReceivedObjs_append (rank src : Fin n) :
    broadcastReceivedObjs (events ++ new) rank src
      = broadcastReceivedObjs events rank src ++ broadcastReceivedObjs new rank src :=
  List.filterMap_append

@[simp] theorem collectiveCalls_append (rank : Fin n) :
    collectiveCalls (events ++ new) rank = collectiveCalls events rank ++ collectiveCalls new rank :=
  List.filterMap_append

@[simp] theorem gatherResults_append (rank : Fin n) :
    gatherResults (events ++ new) rank = gatherResults events rank ++ gatherResults new rank :=
  List.filterMap_append

@[simp] theorem callsFrom_append (src rank : Fin n) :
    callsFrom (events ++ new) src rank = callsFrom events src rank ++ callsFrom new src rank := by
  simp [callsFrom]

@[simp] theorem gatherObjs_append (rank : Fin n) :
    gatherObjs (events ++ new) rank = gatherObjs events rank ++ gatherObjs new rank := by
  simp [gatherObjs]

end LogLemmas

/-- What comes next in a list continues an initial part of it. -/
theorem prefix_concat {α : Type*} {xs ys : List α} {y : α} (h : xs <+: ys) (hy : ys[xs.length]? = some y) :
    xs ++ [y] <+: ys := by
  obtain ⟨rest, hrest⟩ := h
  subst hrest
  rw [List.getElem?_append_right (Nat.le_refl _), Nat.sub_self] at hy
  cases rest with
  | nil => cases hy
  | cons z zs =>
    cases hy
    exact ⟨zs, by rw [List.append_assoc, List.singleton_append]⟩

/-- Neither a message nor a result of a collective call is a call. -/
@[simp] theorem collectiveCalls_broadcastEvent (rank src r : Fin n) (obj : Obj) :
    collectiveCalls [broadcastEvent rank src obj] r = [] := by
  unfold broadcastEvent
  split <;> rfl

@[simp] theorem gatherResults_broadcastEvent (rank src r : Fin n) (obj : Obj) :
    gatherResults [broadcastEvent rank src obj] r = [] := by
  unfold broadcastEvent
  split <;> rfl

@[simp] theorem sentObjs_broadcastEvent (rank src s d : Fin n) (obj : Obj) :
    sentObjs [broadcastEvent rank src obj] s d = [] := by
  unfold broadcastEvent
  split <;> rfl

@[simp] theorem receivedObjs_broadcastEvent (rank src d s : Fin n) (obj : Obj) :
    receivedObjs [broadcastEvent rank src obj] d s = [] := by
  unfold broadcastEvent
  split <;> rfl

theorem broadcastObjs_broadcastEvent (rank src s : Fin n) (obj : Obj) :
    broadcastObjs [broadcastEvent rank src obj] s = if rank = src ∧ src = s then [obj] else [] := by
  unfold broadcastEvent
  by_cases hrank : rank = src
  · rw [if_pos hrank]
    by_cases hs : src = s <;> simp [broadcastObjs, hrank, hs]
  · simp [broadcastObjs, hrank]

theorem broadcastReceivedObjs_broadcastEvent (rank src r s : Fin n) (obj : Obj) :
    broadcastReceivedObjs [broadcastEvent rank src obj] r s
      = if rank ≠ src ∧ rank = r ∧ src = s then [obj] else [] := by
  unfold broadcastEvent
  by_cases hrank : rank = src
  · simp [broadcastReceivedObjs, hrank]
  · rw [if_neg hrank]
    by_cases hs : rank = r ∧ src = s
    · have hne : ¬ r = s := fun he => hrank (hs.1.trans (he.trans hs.2.symm))
      simp [broadcastReceivedObjs, hs, hne]
    · simp [broadcastReceivedObjs, hrank, hs]

/-! ## What the operations do -/

variable {w w' : GroupWorld n Obj} {rank : Fin n} {new events : List (GroupEvent n Obj)}

/-- The source of a broadcast sets the entry, another rank reads it. Sends and loops are left
alone. -/
theorem GroupWorld.broadcastObj_frame {src : Fin n} {obj o : Obj}
    (h : w.broadcastObj rank obj src = some (w', o)) :
    (∀ r, (w'.group r).sendDstCounter = (w.group r).sendDstCounter
        ∧ (w'.group r).recvSrcCounter = (w.group r).recvSrcCounter)
      ∧ (∀ dst k, w'.store (sendKey dst k) = w.store (sendKey dst k))
      ∧ w'.gathering = w.gathering := by
  unfold broadcastObj at h
  split at h
  · cases h
    refine ⟨fun r => ?_, fun dst k => ?_, rfl⟩
    · by_cases hr : r = rank
      · subst hr
        simp
      · simp [Function.update_of_ne hr]
    · exact Function.update_of_ne (sendKey_ne_broadcastKey dst k src (w.group rank).broadcastSendCounter)
        (some (rank, obj)) w.store
  · obtain ⟨entry, -, hw⟩ := Option.map_eq_some_iff.mp h
    cases hw
    refine ⟨fun r => ?_, fun dst k => rfl, rfl⟩
    by_cases hr : r = rank
    · subst hr
      simp
    · simp [Function.update_of_ne hr]

/-- An iteration of `all_gather_obj` is a broadcast of the next rank. After the last one the call
returns. -/
theorem GroupWorld.gatherNext_cases (h : w.gatherNext rank = some (w', new)) :
    ∃ ag w₁ o, ∃ hi : ag.gatheredObjs.length < n, w.gathering rank = some ag
      ∧ w.broadcastObj rank ag.obj ⟨ag.gatheredObjs.length, hi⟩ = some (w₁, o)
      ∧ ((ag.gatheredObjs.length + 1 < n
          ∧ w' = { w₁ with
            gathering := Function.update w.gathering rank
              (some { obj := ag.obj, gatheredObjs := ag.gatheredObjs ++ [o] }) }
          ∧ new = [broadcastEvent rank ⟨ag.gatheredObjs.length, hi⟩ o])
        ∨ (ag.gatheredObjs.length + 1 = n
          ∧ w' = { w₁ with gathering := Function.update w.gathering rank none }
          ∧ new = [broadcastEvent rank ⟨ag.gatheredObjs.length, hi⟩ o]
              ++ [.gathered rank (ag.gatheredObjs ++ [o])])) := by
  unfold gatherNext at h
  cases hag : w.gathering rank with
  | none =>
    rw [hag] at h
    cases h
  | some ag =>
    rw [hag] at h
    dsimp only at h
    split at h
    next hi =>
      obtain ⟨r, hr, hw⟩ := Option.map_eq_some_iff.mp h
      refine ⟨ag, r.1, r.2, hi, rfl, hr, ?_⟩
      rw [List.length_append, List.length_singleton] at hw
      split at hw
      next hlt =>
        cases hw
        exact Or.inl ⟨hlt, rfl, rfl⟩
      next hlast =>
        cases hw
        exact Or.inr ⟨by omega, rfl, rfl⟩
    next => cases h

/-! ## Sends -/

/-- Counters and entries of the sends. -/
structure SendInv (w : GroupWorld n Obj) (events : List (GroupEvent n Obj)) : Prop where
  sendCounter : ∀ src dst, (w.group src).sendDstCounter dst = (sentObjs events src dst).length
  recvCounter : ∀ dst src, (w.group dst).recvSrcCounter src = (receivedObjs events dst src).length
  stored : ∀ (dst : Fin n) (k : Nat) (src : Fin n) (obj : Obj),
    w.store (sendKey dst k) = some (src, obj) → (sentObjs events src dst)[k]? = some obj
  received : ∀ dst src, receivedObjs events dst src <+: sentObjs events src dst

/-- What does not touch the sends keeps their invariant. -/
theorem SendInv.frame (hinv : SendInv w events)
    (hgroup : ∀ r, (w'.group r).sendDstCounter = (w.group r).sendDstCounter ∧ (w'.group r).recvSrcCounter = (w.group r).recvSrcCounter)
    (hstore : ∀ dst k, w'.store (sendKey dst k) = w.store (sendKey dst k))
    (hsent : ∀ src dst, sentObjs new src dst = [])
    (hreceived : ∀ dst src, receivedObjs new dst src = []) :
    SendInv w' (events ++ new) where
  sendCounter src dst := by
    rw [(hgroup src).1, hinv.sendCounter, sentObjs_append, hsent, List.append_nil]
  recvCounter dst src := by
    rw [(hgroup dst).2, hinv.recvCounter, receivedObjs_append, hreceived, List.append_nil]
  stored dst k src obj h := by
    rw [hstore] at h
    rw [sentObjs_append, hsent, List.append_nil]
    exact hinv.stored dst k src obj h
  received dst src := by
    rw [sentObjs_append, receivedObjs_append, hsent, hreceived, List.append_nil, List.append_nil]
    exact hinv.received dst src

theorem SendInv.sendObj (hinv : SendInv w events) (rank : Fin n) (obj : Obj) (dst : Fin n) :
    SendInv (w.sendObj rank obj dst) (events ++ [.sent rank dst obj]) where
  sendCounter s d := by
    by_cases hs : s = rank
    · subst hs
      by_cases hd : d = dst
      · subst hd
        simp [GroupWorld.sendObj, hinv.sendCounter, sentObjs]
      · simp [GroupWorld.sendObj, hinv.sendCounter, sentObjs, hd, Ne.symm hd]
    · simp [GroupWorld.sendObj, hinv.sendCounter, sentObjs, hs, Ne.symm hs]
  recvCounter d s := by
    by_cases hd : d = rank
    · subst hd
      simp [GroupWorld.sendObj, hinv.recvCounter, receivedObjs]
    · simp [GroupWorld.sendObj, hinv.recvCounter, receivedObjs, hd]
  stored d k s o h := by
    rw [sentObjs_append]
    by_cases hkey : sendKey d k = sendKey dst ((w.group rank).sendDstCounter dst)
    · -- The new entry: its number is how many objects were sent before.
      have hnew : (rank, obj) = (s, o) := by
        have h' : Function.update w.store _ _ _ = _ := h
        rw [hkey, Function.update_self] at h'
        exact Option.some.inj h'
      obtain ⟨hd, hk⟩ := sendKey_inj.mp hkey
      cases hnew
      cases Fin.ext hd
      rw [hk, hinv.sendCounter, List.getElem?_append_right (Nat.le_refl _), Nat.sub_self]
      simp [sentObjs]
    · have hold : w.store (sendKey d k) = some (s, o) := by
        have h' : Function.update w.store _ _ _ = _ := h
        rwa [Function.update_of_ne hkey] at h'
      have hget := hinv.stored d k s o hold
      exact List.getElem?_append_left (List.getElem?_eq_some_iff.mp hget).1 ▸ hget
  received d s := by
    rw [sentObjs_append, receivedObjs_append]
    have hnone : receivedObjs [GroupEvent.sent rank dst obj] d s = [] := rfl
    rw [hnone, List.append_nil]
    exact (hinv.received d s).trans (List.prefix_append _ _)

/-- The reader finds the object with the number that it has come to. -/
theorem SendInv.recvObj {src : Fin n} {o : Obj} (hinv : SendInv w events)
    (hwriter : ∀ writer obj, w.store (sendKey rank ((w.group rank).recvSrcCounter src)) = some (writer, obj) → writer = src)
    (h : w.recvObj rank src = some (w', o)) : SendInv w' (events ++ [.received rank src o]) := by
  obtain ⟨⟨writer, obj⟩, hentry, hw⟩ := Option.map_eq_some_iff.mp h
  cases hwriter writer obj hentry
  cases hw
  have hsent : ∀ s d, sentObjs [GroupEvent.received rank src obj] s d = [] := fun _ _ => rfl
  have hnext := hinv.stored rank _ _ _ hentry
  rw [hinv.recvCounter] at hnext
  constructor
  case sendCounter =>
    intro s d
    rw [sentObjs_append, hsent, List.append_nil, ← hinv.sendCounter]
    by_cases hs : s = rank
    · subst hs
      simp
    · simp [hs]
  case recvCounter =>
    intro d s
    by_cases hd : d = rank
    · subst hd
      by_cases hs : s = src
      · subst hs
        simp [hinv.recvCounter, receivedObjs]
      · simp [hinv.recvCounter, receivedObjs, hs, Ne.symm hs]
    · simp [hinv.recvCounter, receivedObjs, hd, Ne.symm hd]
  case stored =>
    intro d k s o' hstore
    rw [sentObjs_append, hsent, List.append_nil]
    exact hinv.stored d k s o' hstore
  case received =>
    intro d s
    rw [sentObjs_append, receivedObjs_append, hsent, List.append_nil]
    by_cases hds : d = rank ∧ s = src
    · obtain ⟨hd, hs⟩ := hds
      subst hd hs
      have hone : receivedObjs [GroupEvent.received d s obj] d s = [obj] := by simp [receivedObjs]
      rw [hone]
      exact prefix_concat (hinv.received d s) hnext
    · have hnone : receivedObjs [GroupEvent.received rank src obj] d s = [] := by
        simp only [receivedObjs, List.filterMap_cons, List.filterMap_nil]
        rw [if_neg (fun heq => hds ⟨heq.1.symm, heq.2.symm⟩)]
      rw [hnone, List.append_nil]
      exact hinv.received d s

/-! ## Broadcasts -/

/-- Counters and entries of the broadcasts. -/
structure BroadcastInv (w : GroupWorld n Obj) (events : List (GroupEvent n Obj)) : Prop where
  sendCounter : ∀ src, (w.group src).broadcastSendCounter = (broadcastObjs events src).length
  recvCounter : ∀ rank src,
    (w.group rank).broadcastRecvSrcCounter src = (broadcastReceivedObjs events rank src).length
  stored : ∀ (src : Fin n) (k : Nat),
    (w.store (broadcastKey src k)).map Prod.snd = (broadcastObjs events src)[k]?
  received : ∀ rank src, broadcastReceivedObjs events rank src <+: broadcastObjs events src

theorem BroadcastInv.frame (hinv : BroadcastInv w events)
    (hgroup : ∀ r, (w'.group r).broadcastSendCounter = (w.group r).broadcastSendCounter ∧ (w'.group r).broadcastRecvSrcCounter = (w.group r).broadcastRecvSrcCounter)
    (hstore : ∀ src k, w'.store (broadcastKey src k) = w.store (broadcastKey src k))
    (hsent : ∀ src, broadcastObjs new src = [])
    (hreceived : ∀ rank src, broadcastReceivedObjs new rank src = []) :
    BroadcastInv w' (events ++ new) where
  sendCounter src := by
    rw [(hgroup src).1, hinv.sendCounter, broadcastObjs_append, hsent, List.append_nil]
  recvCounter rank src := by
    rw [(hgroup rank).2, hinv.recvCounter, broadcastReceivedObjs_append, hreceived, List.append_nil]
  stored src k := by
    rw [hstore, hinv.stored, broadcastObjs_append, hsent, List.append_nil]
  received rank src := by
    rw [broadcastObjs_append, broadcastReceivedObjs_append, hsent, hreceived, List.append_nil,
      List.append_nil]
    exact hinv.received rank src

/-- What a receiver of a broadcast finds: the first object of the source that it has not had. -/
theorem BroadcastInv.next {src : Fin n} {obj o : Obj} (hinv : BroadcastInv w events)
    (hne : rank ≠ src) (h : w.broadcastObj rank obj src = some (w', o)) :
    (broadcastObjs events src)[(broadcastReceivedObjs events rank src).length]? = some o := by
  unfold GroupWorld.broadcastObj at h
  rw [if_neg hne] at h
  obtain ⟨entry, hentry, hw⟩ := Option.map_eq_some_iff.mp h
  cases hw
  rw [← hinv.recvCounter, ← hinv.stored, hentry]
  rfl

/-- The source of a broadcast gets its own object back. -/
theorem GroupWorld.broadcastObj_own {obj o : Obj} (h : w.broadcastObj rank obj rank = some (w', o)) :
    o = obj := by
  unfold broadcastObj at h
  rw [if_pos rfl] at h
  cases h
  rfl

theorem BroadcastInv.broadcastObj {src : Fin n} {obj o : Obj} (hinv : BroadcastInv w events)
    (h : w.broadcastObj rank obj src = some (w', o)) :
    BroadcastInv w' (events ++ [broadcastEvent rank src o]) := by
  by_cases hrank : rank = src
  · subst hrank
    cases GroupWorld.broadcastObj_own h
    unfold GroupWorld.broadcastObj at h
    rw [if_pos rfl] at h
    cases h
    constructor
    case sendCounter =>
      intro s
      rw [broadcastObjs_append, broadcastObjs_broadcastEvent]
      by_cases hs : s = rank
      · subst hs
        simp [hinv.sendCounter]
      · simp [hinv.sendCounter, hs, Ne.symm hs]
    case recvCounter =>
      intro r s
      rw [broadcastReceivedObjs_append, broadcastReceivedObjs_broadcastEvent, if_neg (fun hc => hc.1 rfl),
        List.append_nil, ← hinv.recvCounter]
      by_cases hr : r = rank
      · subst hr
        simp
      · simp [hr]
    case stored =>
      intro s k
      rw [broadcastObjs_append, broadcastObjs_broadcastEvent]
      by_cases hkey : broadcastKey s k = broadcastKey rank (w.group rank).broadcastSendCounter
      · obtain ⟨hs, hk⟩ := broadcastKey_inj.mp hkey
        cases Fin.ext hs
        rw [hkey, hk, hinv.sendCounter]
        simp
      · show (Function.update w.store (broadcastKey rank (w.group rank).broadcastSendCounter)
            (some (rank, obj)) (broadcastKey s k)).map Prod.snd = _
        rw [Function.update_of_ne hkey, hinv.stored]
        by_cases hs : rank = s
        · -- The number is not the one that the new object gets.
          subst hs
          rw [if_pos ⟨rfl, rfl⟩, List.getElem?_append]
          have hk : k ≠ (broadcastObjs events rank).length :=
            fun hk => hkey (by rw [hk, hinv.sendCounter])
          split
          next => rfl
          next hlen =>
            rw [List.getElem?_eq_none (Nat.not_lt.mp hlen), List.getElem?_eq_none]
            rw [List.length_singleton]
            omega
        · rw [if_neg (fun hc => hs hc.2), List.append_nil]
    case received =>
      intro r s
      rw [broadcastReceivedObjs_append, broadcastReceivedObjs_broadcastEvent, if_neg (fun hc => hc.1 rfl),
        List.append_nil, broadcastObjs_append]
      exact (hinv.received r s).trans (List.prefix_append _ _)
  · have hnext := hinv.next hrank h
    unfold GroupWorld.broadcastObj at h
    rw [if_neg hrank] at h
    obtain ⟨entry, -, hw⟩ := Option.map_eq_some_iff.mp h
    cases hw
    have hsent : ∀ s, broadcastObjs [broadcastEvent rank src entry.2] s = [] := by
      intro s
      rw [broadcastObjs_broadcastEvent, if_neg (fun hc => hrank hc.1)]
    constructor
    case sendCounter =>
      intro s
      rw [broadcastObjs_append, hsent, List.append_nil, ← hinv.sendCounter]
      by_cases hs : s = rank
      · subst hs
        simp
      · simp [hs]
    case recvCounter =>
      intro r s
      rw [broadcastReceivedObjs_append, broadcastReceivedObjs_broadcastEvent]
      by_cases hr : r = rank
      · subst hr
        by_cases hs : s = src
        · subst hs
          simp [hinv.recvCounter, hrank]
        · simp [hinv.recvCounter, hs, Ne.symm hs]
      · simp [hinv.recvCounter, hr, Ne.symm hr]
    case stored =>
      intro s k
      rw [broadcastObjs_append, hsent, List.append_nil]
      exact hinv.stored s k
    case received =>
      intro r s
      rw [broadcastObjs_append, hsent, List.append_nil, broadcastReceivedObjs_append,
        broadcastReceivedObjs_broadcastEvent]
      by_cases hrs : rank = r ∧ src = s
      · obtain ⟨hr, hs⟩ := hrs
        subst hr hs
        rw [if_pos ⟨hrank, rfl, rfl⟩]
        exact prefix_concat (hinv.received rank src) hnext
      · rw [if_neg (fun hc => hrs hc.2), List.append_nil]
        exact hinv.received r s

end VllmEngine.Distributed
