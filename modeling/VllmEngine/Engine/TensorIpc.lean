import VllmEngine.Lib.Dict

/-!
# Tensors outside the message

Large tensors of a request do not travel in its message: the encoder puts them in a
`multiprocessing` queue and the message has a handle. `TensorIpcSender` numbers messages and
tensors; `TensorIpcReceiver` takes from the queue what there is until the tensor of a handle is
among it, and keeps the rest by sender, message and tensor.

Mirroring notes:
- The queue keeps the order of each sender; which sender's tensor comes next is free. `queue.get`
  waits, so it is a step of its own: other parties may act while the receiver waits.
- An encoding can fail after some of its tensors were put: then no message is sent. A decoding
  can be given up at any tensor.
- A message knows its number through its handles only; here it has it as a field.
- A tensor that travels in the message arrives with it.
-/

namespace VllmEngine.Engine

variable {Sid T : Type} [DecidableEq Sid]

/-- The metadata of a tensor in the queue. -/
structure TensorHandle (Sid : Type) where
  senderId : Sid
  messageId : Nat
  tensorId : Nat
deriving DecidableEq, Repr

structure TensorIpcData (Sid T : Type) extends TensorHandle Sid where
  tensor : T
deriving DecidableEq, Repr

/-! ## The sender -/

structure TensorIpcSender where
  messageCounter : Nat
  tensorIdCounter : Nat
deriving DecidableEq, Repr

/-- What becomes of a tensor in `_encode_tensor`: it is small enough to travel inline, moving it
to shared memory raises, `queue.put` raises, or it is queued. -/
inductive TensorFate
  | inline
  | shareFails
  | putFails
  | queued
deriving DecidableEq, Repr

/-- A tensor as the message has it. -/
inductive EncodedTensor (Sid T : Type)
  | inBand (tensor : T)
  | handle (handle : TensorHandle Sid)
deriving DecidableEq, Repr

namespace TensorIpcSender

def newMessage (s : TensorIpcSender) : TensorIpcSender :=
  { messageCounter := s.messageCounter + 1, tensorIdCounter := 0 }

/-- The data that `__call__` makes for a tensor. -/
def data (s : TensorIpcSender) (senderId : Sid) (tensor : T) : TensorIpcData Sid T :=
  { senderId, messageId := s.messageCounter, tensorId := s.tensorIdCounter, tensor }

/-- `_encode_tensor`, with `__call__` of the consumer: the sender, what was put in the queue, and
the encoded tensor. The number of a tensor is taken before the put can fail. -/
def encodeTensor (s : TensorIpcSender) (senderId : Sid) (tensor : T) :
    TensorFate → TensorIpcSender × Option (TensorIpcData Sid T) × EncodedTensor Sid T
  | .inline => (s, none, .inBand tensor)
  | .shareFails => (s, none, .inBand tensor)
  | .putFails => ({ s with tensorIdCounter := s.tensorIdCounter + 1 }, none, .inBand tensor)
  | .queued => ({ s with tensorIdCounter := s.tensorIdCounter + 1 },
      some (s.data senderId tensor), .handle (s.data senderId tensor).toTensorHandle)

/-- The tensors of one message, in order. -/
def encodeTensors (senderId : Sid) : TensorIpcSender → List (T × TensorFate) →
    TensorIpcSender × List (TensorIpcData Sid T) × List (EncodedTensor Sid T)
  | s, [] => (s, [], [])
  | s, (tensor, fate) :: rest =>
    let first := s.encodeTensor senderId tensor fate
    let others := encodeTensors senderId first.1 rest
    (others.1, first.2.1.toList ++ others.2.1, first.2.2 :: others.2.2)

end TensorIpcSender

/-! ## The receiver -/

/-- `_Sender`: what is kept for one sender. -/
structure SenderBuffer (T : Type) where
  currentMessageId : Int
  tensors : Dict Nat (Dict Nat T)

def SenderBuffer.init : SenderBuffer T := { currentMessageId := -1, tensors := Dict.empty }

/-- Entries at the front for messages before `messageId` are dropped. -/
def SenderBuffer.advance (sender : SenderBuffer T) (messageId : Nat) : SenderBuffer T :=
  if sender.currentMessageId ≠ messageId then
    { currentMessageId := messageId, tensors := sender.tensors.dropWhile (· < messageId) }
  else sender

/-- `_tensor_buffers`, a `defaultdict`. -/
abbrev TensorBuffers (Sid T : Type) := Sid → Option (SenderBuffer T)

namespace TensorBuffers

/-- The part of the loop of `TensorIpcReceiver.__call__` before `queue.get`: the tensor, when it is
there. -/
def pop (r : TensorBuffers Sid T) (h : TensorHandle Sid) : Option (T × TensorBuffers Sid T) :=
  (r h.senderId).bind fun sender =>
    (sender.tensors.get? h.messageId).bind fun tensors =>
      (tensors.get? h.tensorId).map fun tensor =>
        let popped := { sender with tensors := sender.tensors.set h.messageId (tensors.erase h.tensorId) }
        (tensor, Function.update r h.senderId (some (popped.advance h.messageId)))

/-- The part of the loop after `queue.get`. -/
def store (r : TensorBuffers Sid T) (d : TensorIpcData Sid T) : TensorBuffers Sid T :=
  let sender := (r d.senderId).getD SenderBuffer.init
  if (d.messageId : Int) < sender.currentMessageId then Function.update r d.senderId (some sender)
  else
    let tensors := (sender.tensors.get? d.messageId).getD Dict.empty
    Function.update r d.senderId
      (some { sender with tensors := sender.tensors.set d.messageId (tensors.set d.tensorId d.tensor) })

/-- The tensor that is kept under a handle. -/
def kept (r : TensorBuffers Sid T) (h : TensorHandle Sid) : Option T :=
  (r h.senderId).bind fun sender =>
    (sender.tensors.get? h.messageId).bind fun tensors => tensors.get? h.tensorId

end TensorBuffers

/-! ## Senders, queue and receiver -/

structure TensorMessage (Sid T : Type) where
  messageId : Nat
  encoded : List (EncodedTensor Sid T)

/-- A decoding that is under way: what is left of the message, and what it got. -/
structure TensorDecoding (Sid T : Type) where
  senderId : Sid
  messageId : Nat
  remaining : List (EncodedTensor Sid T)
  tensors : List T

structure IpcWorld (Sid T : Type) where
  senders : Sid → TensorIpcSender
  queue : Sid → List (TensorIpcData Sid T)
  messages : Sid → List (TensorMessage Sid T)
  buffers : TensorBuffers Sid T
  decoding : Option (TensorDecoding Sid T)

/-- What happened: a tensor was put in the queue, the decoding of a message began, the receiver
returned a tensor for a handle. -/
inductive IpcEvent (Sid T : Type)
  | queued (data : TensorIpcData Sid T)
  | began (senderId : Sid) (messageId : Nat)
  | returned (data : TensorIpcData Sid T)

inductive IpcAction (Sid T : Type)
  | encode (senderId : Sid) (tensors : List (T × TensorFate)) (sent : Bool)
  | beginDecode (senderId : Sid)
  | decodeTensor
  | get (senderId : Sid)
  | endDecode

namespace IpcWorld

def init (Sid T : Type) : IpcWorld Sid T where
  senders _ := { messageCounter := 0, tensorIdCounter := 0 }
  queue _ := []
  messages _ := []
  buffers _ := none
  decoding := none

/-- `MsgpackEncoder.encode`. -/
def encode (w : IpcWorld Sid T) (senderId : Sid) (tensors : List (T × TensorFate)) (sent : Bool) :
    IpcWorld Sid T × List (IpcEvent Sid T) :=
  let sender := (w.senders senderId).newMessage
  let r := sender.encodeTensors senderId tensors
  ({ w with
      senders := Function.update w.senders senderId r.1
      queue := Function.update w.queue senderId (w.queue senderId ++ r.2.1)
      messages := if sent then Function.update w.messages senderId
          (w.messages senderId ++ [{ messageId := sender.messageCounter, encoded := r.2.2 }])
        else w.messages },
   r.2.1.map .queued)

/-- The decoder takes the next message of a sender. -/
def beginDecode (w : IpcWorld Sid T) (senderId : Sid) : Option (IpcWorld Sid T × List (IpcEvent Sid T)) :=
  match w.decoding, w.messages senderId with
  | none, m :: rest => some
    ({ w with
        messages := Function.update w.messages senderId rest
        decoding := some
          { senderId, messageId := m.messageId, remaining := m.encoded, tensors := [] } },
     [.began senderId m.messageId])
  | _, _ => none

/-- `_decode_tensor` for the next tensor of the message, when the receiver need not wait. -/
def decodeTensor (w : IpcWorld Sid T) : Option (IpcWorld Sid T × List (IpcEvent Sid T)) :=
  w.decoding.bind fun dec =>
    match dec.remaining with
    | [] => none
    | .inBand tensor :: rest => some
      ({ w with decoding := some { dec with remaining := rest, tensors := dec.tensors ++ [tensor] } }, [])
    | .handle h :: rest => (w.buffers.pop h).map fun r =>
      ({ w with
          buffers := r.2
          decoding := some { dec with remaining := rest, tensors := dec.tensors ++ [r.1] } },
       [.returned { h with tensor := r.1 }])

/-- The receiver waits for a tensor, and one of `senderId` comes. -/
def get (w : IpcWorld Sid T) (senderId : Sid) : Option (IpcWorld Sid T × List (IpcEvent Sid T)) :=
  w.decoding.bind fun dec =>
    match dec.remaining, w.queue senderId with
    | .handle h :: _, d :: rest =>
      if (w.buffers.pop h).isNone then some
        ({ w with buffers := w.buffers.store d, queue := Function.update w.queue senderId rest }, [])
      else none
    | _, _ => none

def step (w : IpcWorld Sid T) : IpcAction Sid T → Option (IpcWorld Sid T × List (IpcEvent Sid T))
  | .encode senderId tensors sent => some (w.encode senderId tensors sent)
  | .beginDecode senderId => w.beginDecode senderId
  | .decodeTensor => w.decodeTensor
  | .get senderId => w.get senderId
  | .endDecode => some ({ w with decoding := none }, [])

end IpcWorld

/-- The states that senders and receiver come to, with what happened. -/
inductive IpcReached : IpcWorld Sid T → List (IpcEvent Sid T) → Prop
  | init : IpcReached (IpcWorld.init Sid T) []
  | step {w w' : IpcWorld Sid T} {events new : List (IpcEvent Sid T)} {a : IpcAction Sid T} :
    IpcReached w events → w.step a = some (w', new) → IpcReached w' (events ++ new)

end VllmEngine.Engine

/-!
## What the receiver keeps

Specifications of the sender's and the receiver's operations. Numbers grow along everything a sender
makes, so the entries the receiver keeps for it stand in the order of its messages, and dropping
entries at the front drops just those of earlier messages.
-/

namespace VllmEngine.Engine

variable {Sid T : Type} [DecidableEq Sid]

/-! ## What an encoding makes -/

/-- The handles of a message, in order. -/
def handles (encoded : List (EncodedTensor Sid T)) : List (TensorHandle Sid) :=
  encoded.filterMap fun
    | .inBand _ => none
    | .handle h => some h

omit [DecidableEq Sid] in
/-- Tensors of one message: numbered in order, each put tensor with a handle. -/
theorem encodeTensors_spec (senderId : Sid) : ∀ (tensors : List (T × TensorFate)) (s : TensorIpcSender),
    (s.encodeTensors senderId tensors).1.messageCounter = s.messageCounter
      ∧ (∀ d ∈ (s.encodeTensors senderId tensors).2.1,
        d.senderId = senderId ∧ d.messageId = s.messageCounter ∧ s.tensorIdCounter ≤ d.tensorId)
      ∧ (s.encodeTensors senderId tensors).2.1.Pairwise (fun a b => a.tensorId < b.tensorId)
      ∧ handles (s.encodeTensors senderId tensors).2.2
        = (s.encodeTensors senderId tensors).2.1.map (·.toTensorHandle) := by
  intro tensors
  induction tensors with
  | nil =>
    intro s
    exact ⟨rfl, fun d hd => (by cases hd), List.Pairwise.nil, rfl⟩
  | cons first rest ih =>
    obtain ⟨tensor, fate⟩ := first
    intro s
    cases fate with
    | inline => exact ih s
    | shareFails => exact ih s
    | putFails =>
      obtain ⟨hcount, hdata, horder, hhandles⟩ := ih { s with tensorIdCounter := s.tensorIdCounter + 1 }
      refine ⟨hcount, fun d hd => ?_, horder, hhandles⟩
      obtain ⟨hsender, hmessage, hid⟩ := hdata d hd
      exact ⟨hsender, hmessage, Nat.le_of_succ_le hid⟩
    | queued =>
      obtain ⟨hcount, hdata, horder, hhandles⟩ := ih { s with tensorIdCounter := s.tensorIdCounter + 1 }
      refine ⟨hcount, fun d hd => ?_, List.pairwise_cons.mpr ⟨fun d hd => (hdata d hd).2.2, horder⟩,
        congrArg (List.cons (s.data senderId tensor).toTensorHandle) hhandles⟩
      obtain hd | hd := List.mem_cons.mp hd
      · rw [hd]
        exact ⟨rfl, rfl, Nat.le_refl _⟩
      · obtain ⟨hsender, hmessage, hid⟩ := hdata d hd
        exact ⟨hsender, hmessage, Nat.le_of_succ_le hid⟩

/-! ## What the receiver keeps -/

/-- The entries of a sender stand in the order of its messages, none before the current one. -/
structure SenderBuffer.Ordered (sender : SenderBuffer T) : Prop where
  keys : sender.tensors.keys.Pairwise (· < ·)
  current : ∀ k ∈ sender.tensors.keys, sender.currentMessageId ≤ (k : Int)

theorem SenderBuffer.advance_spec (sender : SenderBuffer T) (m : Nat)
    (hkeys : sender.tensors.keys.Pairwise (· < ·))
    (hcurrent : ∀ k ∈ sender.tensors.keys, sender.currentMessageId ≤ (k : Int)) :
    (sender.advance m).Ordered ∧ (sender.advance m).currentMessageId = m
      ∧ (∀ k ∈ (sender.advance m).tensors.keys, k ∈ sender.tensors.keys)
      ∧ (∀ k v, (sender.advance m).tensors.get? k = some v → sender.tensors.get? k = some v)
      ∧ ∀ k, m ≤ k → (sender.advance m).tensors.get? k = sender.tensors.get? k := by
  unfold SenderBuffer.advance
  by_cases hsame : sender.currentMessageId = m
  · rw [if_neg (not_not.mpr hsame)]
    exact ⟨⟨hkeys, hcurrent⟩, hsame, fun _ hk => hk, fun _ _ hv => hv, fun _ _ => rfl⟩
  · rw [if_pos hsame]
    have hmono : sender.tensors.keys.Pairwise
        fun a b => decide (b < m) = true → decide (a < m) = true := by
      refine hkeys.imp fun {a b} hab hb => ?_
      rw [decide_eq_true_eq] at hb ⊢
      exact Nat.lt_trans hab hb
    have hget := Dict.get?_dropWhile hmono
    have hsub : (sender.tensors.dropWhile (· < m)).keys.Sublist sender.tensors.keys :=
      (List.dropWhile_sublist _).map Prod.fst
    refine ⟨⟨hkeys.sublist hsub, fun k hk => ?_⟩, rfl, fun k hk => hsub.subset hk, fun k v hv => ?_,
      fun k hk => ?_⟩
    · -- A key that is still there does not come before `m`.
      show (m : Int) ≤ k
      by_contra hlt
      have hcontains := Dict.mem_keys_iff _ |>.mp hk
      rw [Dict.contains, hget k, if_pos (decide_eq_true (by omega))] at hcontains
      cases hcontains
    · rw [hget k] at hv
      split at hv
      next => cases hv
      next => exact hv
    · rw [hget k, if_neg (by simpa using hk)]

/-- What is kept for a sender; for one that is not known yet, nothing. -/
def TensorBuffers.sender (r : TensorBuffers Sid T) (senderId : Sid) : SenderBuffer T :=
  (r senderId).getD SenderBuffer.init

/-- All that is kept is in order. -/
def TensorBuffers.Ordered (r : TensorBuffers Sid T) : Prop :=
  ∀ senderId sender, r senderId = some sender → sender.Ordered

/-- Popping: the tensor was kept, and nothing else of its message or a later one changes. -/
theorem TensorBuffers.pop_spec {r r' : TensorBuffers Sid T} {h : TensorHandle Sid} {x : T}
    (hordered : r.Ordered) (hpop : r.pop h = some (x, r')) :
    r.kept h = some x ∧ r'.Ordered
      ∧ (r'.sender h.senderId).currentMessageId = h.messageId
      ∧ (∀ k ∈ (r'.sender h.senderId).tensors.keys, k ∈ (r.sender h.senderId).tensors.keys)
      ∧ (∀ senderId, senderId ≠ h.senderId → r'.sender senderId = r.sender senderId)
      ∧ (∀ h' y, r'.kept h' = some y → r.kept h' = some y)
      ∧ ∀ h' : TensorHandle Sid, h' ≠ h → (h'.senderId = h.senderId → h.messageId ≤ h'.messageId) →
        r'.kept h' = r.kept h' := by
  unfold pop at hpop
  obtain ⟨sender, hsender, hpop⟩ := Option.bind_eq_some_iff.mp hpop
  obtain ⟨tensors, htensors, hpop⟩ := Option.bind_eq_some_iff.mp hpop
  obtain ⟨tensor, htensor, hpop⟩ := Option.map_eq_some_iff.mp hpop
  cases hpop
  have hmem : h.messageId ∈ sender.tensors.keys := by
    rw [Dict.mem_keys_iff, Dict.contains, htensors]
    rfl
  have hkeys : (sender.tensors.set h.messageId (tensors.erase h.tensorId)).keys = sender.tensors.keys := by
    rw [Dict.keys_set, if_pos hmem]
  obtain ⟨hadvanced, hcurrent, hsub, hold, hlate⟩ := SenderBuffer.advance_spec
    { sender with tensors := sender.tensors.set h.messageId (tensors.erase h.tensorId) } h.messageId
    (by rw [hkeys]; exact (hordered _ _ hsender).keys)
    (by rw [hkeys]; exact (hordered _ _ hsender).current)
  have hkept : r.kept h = some x := by
    unfold kept
    rw [hsender]
    show (sender.tensors.get? h.messageId).bind _ = _
    rw [htensors]
    exact htensor
  refine ⟨hkept, ?_, ?_, ?_, fun s hs => congrArg (Option.getD · _) (Function.update_of_ne hs _ _), ?_, ?_⟩
  · intro s sender' hs
    by_cases hsid : s = h.senderId
    · rw [hsid, Function.update_self] at hs
      cases hs
      exact hadvanced
    · rw [Function.update_of_ne hsid] at hs
      exact hordered s sender' hs
  · unfold TensorBuffers.sender
    rw [Function.update_self]
    exact hcurrent
  · unfold TensorBuffers.sender
    rw [Function.update_self, hsender]
    intro k hk
    have hk' := hsub k hk
    rw [hkeys] at hk'
    exact hk'
  · intro h' y hy
    unfold kept at hy ⊢
    by_cases hsid : h'.senderId = h.senderId
    · rw [hsid, Function.update_self] at hy
      rw [hsid, hsender]
      replace hy : ((SenderBuffer.advance _ _).tensors.get? h'.messageId).bind
        (fun tensors => tensors.get? h'.tensorId) = some y := hy
      obtain ⟨tensors', htensors', hy⟩ := Option.bind_eq_some_iff.mp hy
      have hbefore := hold h'.messageId tensors' htensors'
      dsimp only at hbefore
      rw [Dict.get?_set] at hbefore
      show (sender.tensors.get? h'.messageId).bind _ = some y
      split at hbefore
      next hmid =>
        cases hbefore
        rw [Dict.get?_erase] at hy
        split at hy
        next => cases hy
        next =>
          rw [hmid, htensors]
          exact hy
      next =>
        rw [hbefore]
        exact hy
    · rw [Function.update_of_ne hsid] at hy
      exact hy
  · intro h' hne hle
    unfold kept
    by_cases hsid : h'.senderId = h.senderId
    · rw [hsid, Function.update_self, hsender]
      show ((SenderBuffer.advance _ _).tensors.get? h'.messageId).bind _
        = (sender.tensors.get? h'.messageId).bind _
      rw [hlate h'.messageId (hle hsid), Dict.get?_set]
      by_cases hmid : h'.messageId = h.messageId
      · rw [if_pos hmid, hmid, htensors]
        refine Dict.get?_erase_ne _ fun htid => hne ?_
        cases h
        cases h'
        cases hsid
        cases hmid
        cases htid
        rfl
      · rw [if_neg hmid]
    · rw [Function.update_of_ne hsid]

/-- The receiver waits for a handle exactly when it does not have its tensor. -/
theorem TensorBuffers.pop_eq_none_iff {r : TensorBuffers Sid T} {h : TensorHandle Sid} :
    r.pop h = none ↔ r.kept h = none := by
  unfold pop kept
  cases r h.senderId with
  | none => exact ⟨fun _ => rfl, fun _ => rfl⟩
  | some sender =>
    show (sender.tensors.get? h.messageId).bind _ = none ↔ (sender.tensors.get? h.messageId).bind _ = none
    cases sender.tensors.get? h.messageId with
    | none => exact ⟨fun _ => rfl, fun _ => rfl⟩
    | some tensors => exact Option.map_eq_none_iff

/-- Storing: a tensor of a message before the current one is ignored, any other is kept. The
entries stay in order when no later message has come before. -/
theorem TensorBuffers.store_spec {r : TensorBuffers Sid T} {d : TensorIpcData Sid T}
    (hordered : r.Ordered)
    (hlast : ∀ k ∈ (r.sender d.senderId).tensors.keys, k ≤ d.messageId) :
    (r.store d).Ordered
      ∧ ((r.store d).sender d.senderId).currentMessageId = (r.sender d.senderId).currentMessageId
      ∧ (∀ k ∈ ((r.store d).sender d.senderId).tensors.keys,
        k ∈ (r.sender d.senderId).tensors.keys ∨ k = d.messageId)
      ∧ (∀ senderId, senderId ≠ d.senderId → (r.store d).sender senderId = r.sender senderId)
      ∧ ∀ h : TensorHandle Sid, (r.store d).kept h
        = if h = d.toTensorHandle ∧ (r.sender d.senderId).currentMessageId ≤ (d.messageId : Int)
          then some d.tensor else r.kept h := by
  have hfresh : (SenderBuffer.init : SenderBuffer T).Ordered :=
    ⟨List.Pairwise.nil, fun k hk => (by cases hk)⟩
  have hbeforeOrdered : (r.sender d.senderId).Ordered := by
    unfold TensorBuffers.sender
    cases hs : r d.senderId with
    | none => exact hfresh
    | some sender => exact hordered d.senderId sender hs
  generalize hbefore : r.sender d.senderId = before at hbeforeOrdered hlast ⊢
  have hkept : ∀ h : TensorHandle Sid, h.senderId = d.senderId →
      r.kept h = (before.tensors.get? h.messageId).bind (·.get? h.tensorId) := by
    intro h hsid
    unfold kept
    rw [hsid, ← hbefore, TensorBuffers.sender]
    cases r d.senderId with
    | none => rfl
    | some sender => rfl
  have hne : ∀ (h : TensorHandle Sid) (new : SenderBuffer T), h.senderId ≠ d.senderId →
      TensorBuffers.kept (Function.update r d.senderId (some new)) h = r.kept h := by
    intro h new hsid
    unfold kept
    rw [Function.update_of_ne hsid]
  have hothers : ∀ (new : SenderBuffer T) (s : Sid), s ≠ d.senderId →
      TensorBuffers.sender (Function.update r d.senderId (some new)) s = r.sender s :=
    fun new s hs => congrArg (Option.getD · _) (Function.update_of_ne hs _ _)
  have hself : ∀ new : SenderBuffer T,
      TensorBuffers.sender (Function.update r d.senderId (some new)) d.senderId = new := by
    intro new
    unfold TensorBuffers.sender
    rw [Function.update_self]
    rfl
  unfold store
  rw [show (r d.senderId).getD SenderBuffer.init = before from hbefore]
  dsimp only
  by_cases hstale : (d.messageId : Int) < before.currentMessageId
  · rw [if_pos hstale, hself]
    refine ⟨fun s sender hs => ?_, rfl, fun k hk => Or.inl hk, hothers before, fun h => ?_⟩
    · by_cases hsid : s = d.senderId
      · rw [hsid, Function.update_self] at hs
        cases hs
        exact hbeforeOrdered
      · rw [Function.update_of_ne hsid] at hs
        exact hordered s sender hs
    · rw [if_neg (fun hc => absurd hstale (Int.not_lt.mpr hc.2))]
      by_cases hsid : h.senderId = d.senderId
      · rw [hkept h hsid]
        unfold kept
        rw [hsid, Function.update_self]
        rfl
      · exact hne h before hsid
  · rw [if_neg hstale, hself]
    have hkeys := Dict.keys_set before.tensors d.messageId
      (((before.tensors.get? d.messageId).getD Dict.empty).set d.tensorId d.tensor)
    refine ⟨fun s sender hs => ?_, rfl, fun k hk => ?_, hothers _, fun h => ?_⟩
    · by_cases hsid : s = d.senderId
      · rw [hsid, Function.update_self] at hs
        cases hs
        constructor
        case keys =>
          show (before.tensors.set _ _).keys.Pairwise (· < ·)
          rw [hkeys]
          split
          next => exact hbeforeOrdered.keys
          next hnew =>
            refine List.pairwise_append.mpr ⟨hbeforeOrdered.keys, List.pairwise_singleton _ _, ?_⟩
            intro a ha b hb
            rw [List.mem_singleton.mp hb]
            refine Nat.lt_of_le_of_ne (hlast a ha) fun he => hnew ?_
            rw [← he]
            exact ha
        case current =>
          intro k hk
          replace hk : k ∈ (before.tensors.set _ _).keys := hk
          rw [hkeys] at hk
          split at hk
          next => exact hbeforeOrdered.current k hk
          next =>
            obtain hk | hk := List.mem_append.mp hk
            · exact hbeforeOrdered.current k hk
            · rw [List.mem_singleton.mp hk]
              exact Int.not_lt.mp hstale
      · rw [Function.update_of_ne hsid] at hs
        exact hordered s sender hs
    · replace hk : k ∈ (before.tensors.set _ _).keys := hk
      rw [hkeys] at hk
      split at hk
      next => exact Or.inl hk
      next =>
        obtain hk | hk := List.mem_append.mp hk
        · exact Or.inl hk
        · exact Or.inr (List.mem_singleton.mp hk)
    · by_cases hsid : h.senderId = d.senderId
      · rw [hkept h hsid]
        unfold kept
        rw [hsid, Function.update_self]
        show ((before.tensors.set _ _).get? h.messageId).bind _ = _
        rw [Dict.get?_set]
        by_cases hmid : h.messageId = d.messageId
        · rw [if_pos hmid]
          show (Dict.set _ _ _).get? h.tensorId = _
          rw [Dict.get?_set]
          by_cases htid : h.tensorId = d.tensorId
          · have heq : h = d.toTensorHandle := by
              cases h
              cases hsid
              cases hmid
              cases htid
              rfl
            rw [if_pos htid, if_pos ⟨heq, Int.not_lt.mp hstale⟩]
          · rw [if_neg htid, if_neg (fun hc => htid (by rw [hc.1])), hmid]
            cases before.tensors.get? d.messageId with
            | none => rfl
            | some tensors => rfl
        · rw [if_neg hmid, if_neg (fun hc => hmid (by rw [hc.1]))]
      · rw [if_neg (fun hc => hsid (by rw [hc.1]))]
        exact hne h _ hsid

end VllmEngine.Engine
