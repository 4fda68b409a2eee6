import VllmEngine.Engine.TensorIpc

/-!
# Tensors meet their messages

The invariant of senders, queue and receiver (`IpcInv`). A tensor is in the queue, kept, returned, or
it belongs to a message before the one being decoded; what a handle names is in the queue or kept
until it is asked for.
-/

namespace VllmEngine.Engine

variable {Sid T : Type} [DecidableEq Sid]

/-! ## The invariant -/

/-- Each handle of a message names a tensor that was put under it, and they are numbered in order. -/
structure Announced (events : List (IpcEvent Sid T)) (senderId : Sid) (messageId : Nat)
    (encoded : List (EncodedTensor Sid T)) : Prop where
  put : ∀ h ∈ handles encoded, h.senderId = senderId ∧ h.messageId = messageId
    ∧ ∃ x, .queued { h with tensor := x } ∈ events
  order : (handles encoded).Pairwise fun a b => a.tensorId < b.tensorId

/-- The messages of a sender: those whose decoding has begun come before those that wait, and
nothing has a number that the sender has not given yet. -/
structure MessagesInv (w : IpcWorld Sid T) (events : List (IpcEvent Sid T)) : Prop where
  counter : ∀ d, .queued d ∈ events → d.messageId ≤ (w.senders d.senderId).messageCounter
  unique : ∀ d d', .queued d ∈ events → .queued d' ∈ events →
    d.toTensorHandle = d'.toTensorHandle → d = d'
  began : ∀ senderId m, .began senderId m ∈ events →
    m ≤ (w.senders senderId).messageCounter ∧ ∀ message ∈ w.messages senderId, m < message.messageId
  order : ∀ senderId, (w.messages senderId).Pairwise fun a b => a.messageId < b.messageId
  message : ∀ senderId, ∀ message ∈ w.messages senderId,
    message.messageId ≤ (w.senders senderId).messageCounter
      ∧ Announced events senderId message.messageId message.encoded
  decoding : ∀ dec, w.decoding = some dec → .began dec.senderId dec.messageId ∈ events
    ∧ (∀ m, .began dec.senderId m ∈ events → m ≤ dec.messageId)
    ∧ Announced events dec.senderId dec.messageId dec.remaining
    ∧ ∀ d, .returned d ∈ events → d.senderId = dec.senderId → d.messageId = dec.messageId →
      ∀ h ∈ handles dec.remaining, d.tensorId < h.tensorId

/-- Where the tensors are: in the queue, kept, returned, or dropped because they belong to a
message before the current one. -/
structure TensorsInv (w : IpcWorld Sid T) (events : List (IpcEvent Sid T)) : Prop where
  queue : ∀ senderId, ∀ d ∈ w.queue senderId, d.senderId = senderId ∧ .queued d ∈ events
  queueOrder : ∀ senderId, (w.queue senderId).Pairwise fun a b => a.messageId ≤ b.messageId
  ordered : w.buffers.Ordered
  keys : ∀ senderId, ∀ k ∈ (w.buffers.sender senderId).tensors.keys,
    k ≤ (w.senders senderId).messageCounter ∧ ∀ d ∈ w.queue senderId, k ≤ d.messageId
  kept : ∀ h x, w.buffers.kept h = some x → .queued { h with tensor := x } ∈ events
  current : ∀ senderId, (w.buffers.sender senderId).currentMessageId = -1
    ∨ ∃ m : Nat, (w.buffers.sender senderId).currentMessageId = m ∧ .began senderId m ∈ events
  returned : ∀ d, .returned d ∈ events → .queued d ∈ events
    ∧ (d.messageId : Int) ≤ (w.buffers.sender d.senderId).currentMessageId
  located : ∀ d, .queued d ∈ events → d ∈ w.queue d.senderId
    ∨ w.buffers.kept d.toTensorHandle = some d.tensor ∨ .returned d ∈ events
    ∨ (d.messageId : Int) < (w.buffers.sender d.senderId).currentMessageId

variable {events new : List (IpcEvent Sid T)} {senderId : Sid} {w : IpcWorld Sid T}

omit [DecidableEq Sid] in
theorem Announced.mono {m : Nat} {encoded : List (EncodedTensor Sid T)}
    (h : Announced events senderId m encoded) :
    Announced (events ++ new) senderId m encoded where
  put := by
    intro handle hmem
    obtain ⟨hsender, hmessage, x, hx⟩ := h.put handle hmem
    exact ⟨hsender, hmessage, x, List.mem_append_left new hx⟩
  order := h.order

omit [DecidableEq Sid] in
/-- The current message of a sender has begun to be decoded. -/
theorem TensorsInv.current_le (hinv : TensorsInv w events) {m : Nat}
    (hbegan : ∀ m', .began senderId m' ∈ events → m' ≤ m) :
    (w.buffers.sender senderId).currentMessageId ≤ (m : Int) := by
  obtain hcurrent | ⟨m', hcurrent, hm'⟩ := hinv.current senderId
  · rw [hcurrent]
    omega
  · rw [hcurrent]
    exact Int.ofNat_le.mpr (hbegan m' hm')

/-! ## Steps -/

omit [DecidableEq Sid] in
/-- What an encoding adds to the events. -/
theorem mem_encode_events (events : List (IpcEvent Sid T)) (data : List (TensorIpcData Sid T)) :
    (∀ d, .queued d ∈ events ++ data.map .queued ↔ .queued d ∈ events ∨ d ∈ data)
      ∧ (∀ senderId m, IpcEvent.began senderId m ∈ events ++ data.map .queued
        ↔ .began senderId m ∈ events)
      ∧ ∀ d, IpcEvent.returned d ∈ events ++ data.map .queued ↔ .returned d ∈ events := by
  refine ⟨fun d => ?_, fun senderId m => ?_, fun d => ?_⟩
  · simp
  · simp
  · simp

theorem MessagesInv.encode (hinv : MessagesInv w events) (senderId : Sid)
    (tensors : List (T × TensorFate)) (sent : Bool) :
    MessagesInv (w.encode senderId tensors sent).1 (events ++ (w.encode senderId tensors sent).2) := by
  obtain ⟨hcounter, hdata, horder, hhandles⟩ :=
    encodeTensors_spec senderId tensors (w.senders senderId).newMessage
  unfold IpcWorld.encode
  dsimp only
  generalize (w.senders senderId).newMessage.encodeTensors senderId tensors = r
    at hcounter hdata horder hhandles ⊢
  obtain ⟨hqueued, hbegan, hreturned⟩ := mem_encode_events events r.2.1
  have hnumber : r.1.messageCounter = (w.senders senderId).messageCounter + 1 := hcounter
  have hgrows : ∀ s, (w.senders s).messageCounter
      ≤ (Function.update w.senders senderId r.1 s).messageCounter := by
    intro s
    by_cases hs : s = senderId
    · subst hs
      rw [Function.update_self, hnumber]
      exact Nat.le_succ _
    · rw [Function.update_of_ne hs]
  -- The messages that wait afterwards.
  have hmessages : ∀ s, ∀ message ∈ (if sent then Function.update w.messages senderId
        (w.messages senderId
          ++ [{ messageId := (w.senders senderId).newMessage.messageCounter, encoded := r.2.2 }])
      else w.messages) s,
      message ∈ w.messages s ∨ (s = senderId ∧ message
        = { messageId := (w.senders senderId).newMessage.messageCounter, encoded := r.2.2 }) := by
    intro s message hmem
    split at hmem
    next =>
      by_cases hs : s = senderId
      · subst hs
        rw [Function.update_self] at hmem
        obtain hmem | hmem := List.mem_append.mp hmem
        · exact Or.inl hmem
        · exact Or.inr ⟨rfl, List.mem_singleton.mp hmem⟩
      · rw [Function.update_of_ne hs] at hmem
        exact Or.inl hmem
    next => exact Or.inl hmem
  constructor
  case counter =>
    intro d hd
    obtain hd | hd := (hqueued d).mp hd
    · exact Nat.le_trans (hinv.counter d hd) (hgrows d.senderId)
    · obtain ⟨hsender, hmessage, -⟩ := hdata d hd
      show _ ≤ (Function.update w.senders senderId r.1 d.senderId).messageCounter
      rw [hsender, Function.update_self, hmessage, hcounter]
  case unique =>
    -- An old tensor has an earlier message number, two new ones have different tensor numbers.
    have hold : ∀ d d', .queued d ∈ events → d' ∈ r.2.1 → d.toTensorHandle ≠ d'.toTensorHandle := by
      intro d d' hd hd' he
      obtain ⟨hsender, hmessage, -⟩ := hdata d' hd'
      have hle := hinv.counter d hd
      have hs : d.senderId = senderId := by
        rw [show d.senderId = d'.senderId from congrArg (·.senderId) he, hsender]
      have hm : d.messageId = d'.messageId := congrArg (·.messageId) he
      rw [hs, hm, hmessage] at hle
      exact absurd hle (Nat.not_succ_le_self _)
    intro d d' hd hd' he
    obtain hd | hd := (hqueued d).mp hd
    · obtain hd' | hd' := (hqueued d').mp hd'
      · exact hinv.unique d d' hd hd' he
      · exact absurd he (hold d d' hd hd')
    · obtain hd' | hd' := (hqueued d').mp hd'
      · exact absurd he.symm (hold d' d hd' hd)
      · have hid : d.tensorId = d'.tensorId := congrArg (·.tensorId) he
        have hnodup : (r.2.1.map (·.tensorId)).Nodup :=
          (List.pairwise_map.mpr horder).imp fun hlt => Nat.ne_of_lt hlt
        exact List.inj_on_of_nodup_map hnodup hd hd' hid
  case began =>
    intro s m hm
    obtain ⟨hle, hwait⟩ := hinv.began s m ((hbegan s m).mp hm)
    refine ⟨Nat.le_trans hle (hgrows s), fun message hmem => ?_⟩
    obtain hmem | ⟨hs, hmem⟩ := hmessages s message hmem
    · exact hwait message hmem
    · rw [hmem]
      subst hs
      exact Nat.lt_succ_of_le hle
  case order =>
    intro s
    show List.Pairwise _ ((if sent then _ else w.messages) s)
    split
    next =>
      by_cases hs : s = senderId
      · subst hs
        rw [Function.update_self]
        refine List.pairwise_append.mpr ⟨hinv.order s, List.pairwise_singleton _ _, fun a ha b hb => ?_⟩
        rw [List.mem_singleton.mp hb]
        exact Nat.lt_succ_of_le (hinv.message s a ha).1
      · rw [Function.update_of_ne hs]
        exact hinv.order s
    next => exact hinv.order s
  case message =>
    intro s message hmem
    obtain hmem | ⟨hs, hmem⟩ := hmessages s message hmem
    · obtain ⟨hle, hannounced⟩ := hinv.message s message hmem
      exact ⟨Nat.le_trans hle (hgrows s), hannounced.mono⟩
    · subst hs
      rw [hmem]
      refine ⟨?_, ⟨fun h hh => ?_, ?_⟩⟩
      · show (w.senders s).messageCounter + 1 ≤ (Function.update w.senders s r.1 s).messageCounter
        rw [Function.update_self, hnumber]
      · rw [hhandles] at hh
        obtain ⟨d, hd, he⟩ := List.mem_map.mp hh
        obtain ⟨hsender, hmessage, -⟩ := hdata d hd
        subst he
        exact ⟨hsender, hmessage, d.tensor, (hqueued d).mpr (Or.inr hd)⟩
      · rw [hhandles]
        exact List.pairwise_map.mpr horder
  case decoding =>
    intro dec hdec
    obtain ⟨hbegun, hlast, hannounced, hdone⟩ := hinv.decoding dec hdec
    exact ⟨(hbegan _ _).mpr hbegun, fun m hm => hlast m ((hbegan _ _).mp hm), hannounced.mono,
      fun d hd => hdone d ((hreturned d).mp hd)⟩

theorem TensorsInv.encode (hmessages : MessagesInv w events) (hinv : TensorsInv w events)
    (senderId : Sid) (tensors : List (T × TensorFate)) (sent : Bool) :
    TensorsInv (w.encode senderId tensors sent).1 (events ++ (w.encode senderId tensors sent).2) := by
  obtain ⟨hcounter, hdata, -, -⟩ := encodeTensors_spec senderId tensors (w.senders senderId).newMessage
  unfold IpcWorld.encode
  dsimp only
  generalize (w.senders senderId).newMessage.encodeTensors senderId tensors = r at hcounter hdata ⊢
  obtain ⟨hqueued, hbegan, hreturned⟩ := mem_encode_events events r.2.1
  have hnumber : r.1.messageCounter = (w.senders senderId).messageCounter + 1 := hcounter
  constructor
  case queue =>
    intro s d hd
    dsimp only at hd
    by_cases hs : s = senderId
    · subst hs
      rw [Function.update_self] at hd
      obtain hd | hd := List.mem_append.mp hd
      · obtain ⟨hsender, hd⟩ := hinv.queue s d hd
        exact ⟨hsender, (hqueued d).mpr (Or.inl hd)⟩
      · exact ⟨(hdata d hd).1, (hqueued d).mpr (Or.inr hd)⟩
    · rw [Function.update_of_ne hs] at hd
      obtain ⟨hsender, hd⟩ := hinv.queue s d hd
      exact ⟨hsender, (hqueued d).mpr (Or.inl hd)⟩
  case queueOrder =>
    intro s
    dsimp only
    by_cases hs : s = senderId
    · subst hs
      rw [Function.update_self]
      refine List.pairwise_append.mpr ⟨hinv.queueOrder s, ?_, fun a ha b hb => ?_⟩
      · refine List.Pairwise.imp_of_mem (R := fun _ _ => True) (fun {a b} ha hb _ => ?_)
          (List.pairwise_of_forall fun _ _ => trivial)
        rw [(hdata a ha).2.1, (hdata b hb).2.1]
      · obtain ⟨hsender, hqueuedA⟩ := hinv.queue s a ha
        have hle := hmessages.counter a hqueuedA
        rw [hsender] at hle
        rw [(hdata b hb).2.1]
        exact Nat.le_succ_of_le hle
    · rw [Function.update_of_ne hs]
      exact hinv.queueOrder s
  case ordered => exact hinv.ordered
  case keys =>
    intro s k hk
    obtain ⟨hle, hqueue⟩ := hinv.keys s k hk
    dsimp only
    by_cases hs : s = senderId
    · subst hs
      rw [Function.update_self, Function.update_self, hnumber]
      refine ⟨Nat.le_succ_of_le hle, fun d hd => ?_⟩
      obtain hd | hd := List.mem_append.mp hd
      · exact hqueue d hd
      · rw [(hdata d hd).2.1]
        exact Nat.le_succ_of_le hle
    · rw [Function.update_of_ne hs, Function.update_of_ne hs]
      exact ⟨hle, hqueue⟩
  case kept =>
    intro h x hx
    exact (hqueued _).mpr (Or.inl (hinv.kept h x hx))
  case current =>
    intro s
    obtain hcurrent | ⟨m, hcurrent, hm⟩ := hinv.current s
    · exact Or.inl hcurrent
    · exact Or.inr ⟨m, hcurrent, (hbegan s m).mpr hm⟩
  case returned =>
    intro d hd
    obtain ⟨hput, hle⟩ := hinv.returned d ((hreturned d).mp hd)
    exact ⟨(hqueued d).mpr (Or.inl hput), hle⟩
  case located =>
    intro d hd
    dsimp only
    obtain hd | hd := (hqueued d).mp hd
    · obtain hq | hk | hr | hlt := hinv.located d hd
      · refine Or.inl ?_
        by_cases hs : d.senderId = senderId
        · rw [hs, Function.update_self]
          exact List.mem_append_left _ (hs ▸ hq)
        · rw [Function.update_of_ne hs]
          exact hq
      · exact Or.inr (Or.inl hk)
      · exact Or.inr (Or.inr (Or.inl ((hreturned d).mpr hr)))
      · exact Or.inr (Or.inr (Or.inr hlt))
    · refine Or.inl ?_
      rw [(hdata d hd).1, Function.update_self]
      exact List.mem_append_right _ hd

/-- The decoding of the next message begins. -/
theorem MessagesInv.beginDecode {w' : IpcWorld Sid T} (hinv : MessagesInv w events)
    (htensors : TensorsInv w events) (h : w.beginDecode senderId = some (w', new)) :
    MessagesInv w' (events ++ new) ∧ TensorsInv w' (events ++ new) := by
  unfold IpcWorld.beginDecode at h
  split at h
  next m rest hdecoding hmessages =>
    cases h
    have hfirst : m ∈ w.messages senderId := by
      rw [hmessages]
      exact List.mem_cons_self
    have hsub : ∀ s, (Function.update w.messages senderId rest s).Sublist (w.messages s) := by
      intro s
      by_cases hs : s = senderId
      · subst hs
        rw [Function.update_self, hmessages]
        exact List.sublist_cons_self m rest
      · rw [Function.update_of_ne hs]
    have hqueued : ∀ d, .queued d ∈ events ++ [IpcEvent.began senderId m.messageId]
        ↔ .queued d ∈ events := fun d => by simp
    have hreturned : ∀ d, .returned d ∈ events ++ [IpcEvent.began senderId m.messageId]
        ↔ .returned d ∈ events := fun d => by simp
    have hbegan : ∀ s k, .began s k ∈ events ++ [IpcEvent.began senderId m.messageId (T := T)]
        ↔ .began s k ∈ events ∨ (s = senderId ∧ k = m.messageId) := fun s k => by simp
    constructor
    · constructor
      case counter => exact fun d hd => hinv.counter d ((hqueued d).mp hd)
      case unique =>
        exact fun d d' hd hd' => hinv.unique d d' ((hqueued d).mp hd) ((hqueued d').mp hd')
      case began =>
        intro s k hk
        obtain hk | ⟨hs, hkm⟩ := (hbegan s k).mp hk
        · obtain ⟨hle, hwait⟩ := hinv.began s k hk
          exact ⟨hle, fun message hmem => hwait message ((hsub s).subset hmem)⟩
        · subst hs
          rw [hkm]
          refine ⟨(hinv.message s m hfirst).1, fun message hmem => ?_⟩
          dsimp only at hmem
          rw [Function.update_self] at hmem
          have horder := hinv.order s
          rw [hmessages] at horder
          exact (List.pairwise_cons.mp horder).1 message hmem
      case order => exact fun s => (hinv.order s).sublist (hsub s)
      case message =>
        intro s message hmem
        obtain ⟨hle, hannounced⟩ := hinv.message s message ((hsub s).subset hmem)
        exact ⟨hle, hannounced.mono⟩
      case decoding =>
        intro dec hdec
        cases hdec
        refine ⟨(hbegan _ _).mpr (Or.inr ⟨rfl, rfl⟩), fun k hk => ?_,
          (hinv.message senderId m hfirst).2.mono, fun d hd hsender hmessage => ?_⟩
        · obtain hk | ⟨-, hk⟩ := (hbegan senderId k).mp hk
          · exact Nat.le_of_lt ((hinv.began senderId k hk).2 m hfirst)
          · exact Nat.le_of_eq hk
        · -- Nothing of this message has been returned: what was returned had begun before.
          have hle := (htensors.returned d ((hreturned d).mp hd)).2
          rw [hmessage, hsender] at hle
          obtain hcurrent | ⟨k, hcurrent, hk⟩ := htensors.current senderId
          · rw [hcurrent] at hle
            exact absurd hle (by omega)
          · rw [hcurrent] at hle
            have hlt := (hinv.began senderId k hk).2 m hfirst
            exact absurd (Int.ofNat_le.mp hle) (Nat.not_le.mpr hlt)
    · constructor
      case queue =>
        intro s d hd
        obtain ⟨hsender, hput⟩ := htensors.queue s d hd
        exact ⟨hsender, (hqueued d).mpr hput⟩
      case queueOrder => exact htensors.queueOrder
      case ordered => exact htensors.ordered
      case keys => exact htensors.keys
      case kept => exact fun hd x hx => (hqueued _).mpr (htensors.kept hd x hx)
      case current =>
        intro s
        obtain hcurrent | ⟨k, hcurrent, hk⟩ := htensors.current s
        · exact Or.inl hcurrent
        · exact Or.inr ⟨k, hcurrent, (hbegan s k).mpr (Or.inl hk)⟩
      case returned =>
        intro d hd
        obtain ⟨hput, hle⟩ := htensors.returned d ((hreturned d).mp hd)
        exact ⟨(hqueued d).mpr hput, hle⟩
      case located =>
        intro d hd
        obtain hq | hk | hr | hlt := htensors.located d ((hqueued d).mp hd)
        · exact Or.inl hq
        · exact Or.inr (Or.inl hk)
        · exact Or.inr (Or.inr (Or.inl ((hreturned d).mpr hr)))
        · exact Or.inr (Or.inr (Or.inr hlt))
  next => cases h

/-- A tensor comes from the queue while the receiver waits. -/
theorem TensorsInv.get {d : TensorIpcData Sid T} {rest : List (TensorIpcData Sid T)}
    (hinv : TensorsInv w events) (hmessages : MessagesInv w events)
    (hqueue : w.queue senderId = d :: rest) :
    TensorsInv { w with
      buffers := w.buffers.store d, queue := Function.update w.queue senderId rest } events := by
  have hfirst : d ∈ w.queue senderId := by
    rw [hqueue]
    exact List.mem_cons_self
  obtain ⟨hsender, hput⟩ := hinv.queue senderId d hfirst
  subst hsender
  have hsub : ∀ s, (Function.update w.queue d.senderId rest s).Sublist (w.queue s) := by
    intro s
    by_cases hs : s = d.senderId
    · rw [hs, Function.update_self, hqueue]
      exact List.sublist_cons_self d rest
    · rw [Function.update_of_ne hs]
  have horder := hinv.queueOrder d.senderId
  rw [hqueue] at horder
  obtain ⟨hordered, hcurrent, hkeys, hothers, hkept⟩ := TensorBuffers.store_spec (d := d) hinv.ordered
    fun k hk => (hinv.keys d.senderId k hk).2 d hfirst
  have hsameCurrent : ∀ s, ((w.buffers.store d).sender s).currentMessageId
      = (w.buffers.sender s).currentMessageId := by
    intro s
    by_cases hs : s = d.senderId
    · rw [hs, hcurrent]
    · rw [hothers s hs]
  constructor
  case queue => exact fun s x hx => hinv.queue s x ((hsub s).subset hx)
  case queueOrder => exact fun s => (hinv.queueOrder s).sublist (hsub s)
  case ordered => exact hordered
  case keys =>
    intro s k hk
    dsimp only at hk ⊢
    by_cases hs : s = d.senderId
    · subst hs
      rw [Function.update_self]
      obtain hk | hk := hkeys k hk
      · obtain ⟨hle, hlast⟩ := hinv.keys d.senderId k hk
        refine ⟨hle, fun x hx => hlast x ?_⟩
        rw [hqueue]
        exact List.mem_cons_of_mem d hx
      · rw [hk]
        exact ⟨hmessages.counter d hput, fun x hx => (List.pairwise_cons.mp horder).1 x hx⟩
    · rw [hothers s hs] at hk
      rw [Function.update_of_ne hs]
      exact hinv.keys s k hk
  case kept =>
    intro h x hx
    dsimp only at hx
    rw [hkept] at hx
    split at hx
    next hnew =>
      cases hx
      rw [hnew.1]
      exact hput
    next => exact hinv.kept h x hx
  case current =>
    intro s
    rw [hsameCurrent]
    exact hinv.current s
  case returned =>
    intro x hx
    rw [hsameCurrent]
    exact hinv.returned x hx
  case located =>
    intro x hx
    dsimp only
    rw [hsameCurrent, hkept]
    obtain hq | hk | hr | hlt := hinv.located x hx
    · by_cases hs : x.senderId = d.senderId
      · rw [hs, hqueue] at hq
        obtain hxd | hq := List.mem_cons.mp hq
        · -- It is the one that has come: kept, or ignored as one of an earlier message.
          subst hxd
          by_cases hstale : (w.buffers.sender x.senderId).currentMessageId ≤ (x.messageId : Int)
          · rw [if_pos ⟨rfl, hstale⟩]
            exact Or.inr (Or.inl rfl)
          · exact Or.inr (Or.inr (Or.inr (Int.not_le.mp hstale)))
        · rw [hs, Function.update_self]
          exact Or.inl hq
      · rw [Function.update_of_ne hs]
        exact Or.inl hq
    · refine Or.inr (Or.inl ?_)
      split
      next hnew => rw [hmessages.unique x d hx hput hnew.1]
      next => exact hk
    · exact Or.inr (Or.inr (Or.inl hr))
    · exact Or.inr (Or.inr (Or.inr hlt))

/-- The receiver returns a tensor for the next handle of the message. -/
theorem MessagesInv.returnTensor {dec : TensorDecoding Sid T} {h : TensorHandle Sid}
    {rest : List (EncodedTensor Sid T)} {x : T} {r : TensorBuffers Sid T}
    (hinv : MessagesInv w events) (htensors : TensorsInv w events) (hdec : w.decoding = some dec)
    (hnext : dec.remaining = .handle h :: rest) (hpop : w.buffers.pop h = some (x, r)) :
    MessagesInv { w with
        buffers := r
        decoding := some { dec with remaining := rest, tensors := dec.tensors ++ [x] } }
        (events ++ [.returned { h with tensor := x }])
      ∧ TensorsInv { w with
        buffers := r
        decoding := some { dec with remaining := rest, tensors := dec.tensors ++ [x] } }
        (events ++ [.returned { h with tensor := x }]) := by
  obtain ⟨hbegun, hlast, hannounced, hdone⟩ := hinv.decoding dec hdec
  have hhandles : handles dec.remaining = h :: handles rest := by
    rw [hnext]
    rfl
  obtain ⟨hsender, hmessage, -⟩ := hannounced.put h (by rw [hhandles]; exact List.mem_cons_self)
  have horder := hannounced.order
  rw [hhandles] at horder
  obtain ⟨hkept, hordered, hcurrent, hkeys, hothers, hold, hrest⟩ :=
    TensorBuffers.pop_spec htensors.ordered hpop
  have hqueued : ∀ d, .queued d ∈ events ++ [IpcEvent.returned { h with tensor := x }]
      ↔ .queued d ∈ events := fun d => by simp
  have hbegan : ∀ s k, .began s k ∈ events ++ [IpcEvent.returned { h with tensor := x }]
      ↔ .began s k ∈ events := fun s k => by simp
  have hreturned : ∀ d, .returned d ∈ events ++ [IpcEvent.returned { h with tensor := x }]
      ↔ .returned d ∈ events ∨ d = { h with tensor := x } := fun d => by simp
  -- The current message of a sender only moves on.
  have hmoves : ∀ s, (w.buffers.sender s).currentMessageId ≤ (r.sender s).currentMessageId := by
    intro s
    by_cases hs : s = h.senderId
    · rw [hs, hcurrent, hmessage]
      refine htensors.current_le ?_
      rw [hsender]
      exact hlast
    · exact Int.le_of_eq (by rw [hothers s hs])
  constructor
  · constructor
    case counter => exact fun d hd => hinv.counter d ((hqueued d).mp hd)
    case unique =>
      exact fun d d' hd hd' => hinv.unique d d' ((hqueued d).mp hd) ((hqueued d').mp hd')
    case began => exact fun s k hk => hinv.began s k ((hbegan s k).mp hk)
    case order => exact hinv.order
    case message =>
      intro s message hmem
      obtain ⟨hle, hsent⟩ := hinv.message s message hmem
      exact ⟨hle, hsent.mono⟩
    case decoding =>
      intro dec' hdec'
      cases hdec'
      refine ⟨(hbegan _ _).mpr hbegun, fun k hk => hlast k ((hbegan _ k).mp hk), ?_, ?_⟩
      · refine ⟨fun h' hh' => hannounced.mono.put h' ?_, (List.pairwise_cons.mp horder).2⟩
        rw [hhandles]
        exact List.mem_cons_of_mem h hh'
      · intro d hd hs hm h' hh'
        obtain hd | hd := (hreturned d).mp hd
        · refine hdone d hd hs hm h' ?_
          rw [hhandles]
          exact List.mem_cons_of_mem h hh'
        · rw [hd]
          exact (List.pairwise_cons.mp horder).1 h' hh'
  · constructor
    case queue =>
      intro s d hd
      obtain ⟨hs, hput⟩ := htensors.queue s d hd
      exact ⟨hs, (hqueued d).mpr hput⟩
    case queueOrder => exact htensors.queueOrder
    case ordered => exact hordered
    case keys =>
      intro s k hk
      refine htensors.keys s k ?_
      by_cases hs : s = h.senderId
      · rw [hs]
        exact hkeys k (hs ▸ hk)
      · rw [← hothers s hs]
        exact hk
    case kept =>
      intro h' x' hx'
      exact (hqueued _).mpr (htensors.kept h' x' (hold h' x' hx'))
    case current =>
      intro s
      by_cases hs : s = h.senderId
      · refine Or.inr ⟨h.messageId, ?_, (hbegan _ _).mpr ?_⟩
        · rw [hs]
          exact hcurrent
        · rw [hs, hsender, hmessage]
          exact hbegun
      · show (r.sender s).currentMessageId = -1 ∨ _
        rw [hothers s hs]
        obtain hc | ⟨k, hc, hk⟩ := htensors.current s
        · exact Or.inl hc
        · exact Or.inr ⟨k, hc, (hbegan s k).mpr hk⟩
    case returned =>
      intro d hd
      obtain hd | hd := (hreturned d).mp hd
      · obtain ⟨hput, hle⟩ := htensors.returned d hd
        exact ⟨(hqueued d).mpr hput, Int.le_trans hle (hmoves d.senderId)⟩
      · rw [hd]
        exact ⟨(hqueued _).mpr (htensors.kept h x hkept), Int.le_of_eq hcurrent.symm⟩
    case located =>
      intro d hd
      obtain hq | hk | hr | hlt := htensors.located d ((hqueued d).mp hd)
      · exact Or.inl hq
      · by_cases hd : d.toTensorHandle = h
        · refine Or.inr (Or.inr (Or.inl ((hreturned d).mpr (Or.inr ?_))))
          rw [hd, hkept] at hk
          cases d
          cases hd
          cases hk
          rfl
        · by_cases hearly : d.senderId = h.senderId → h.messageId ≤ d.messageId
          · exact Or.inr (Or.inl ((hrest d.toTensorHandle hd hearly).trans hk))
          · -- Dropped, with a message before the current one.
            obtain ⟨hs, hlt⟩ := Classical.not_imp.mp hearly
            refine Or.inr (Or.inr (Or.inr ?_))
            show _ < (r.sender d.senderId).currentMessageId
            rw [hs, hcurrent]
            exact Int.ofNat_lt.mpr (Nat.lt_of_not_le hlt)
      · exact Or.inr (Or.inr (Or.inl ((hreturned d).mpr (Or.inl hr))))
      · exact Or.inr (Or.inr (Or.inr (Int.lt_of_lt_of_le hlt (hmoves d.senderId))))

/-! ## Runs -/

/-- All that is known of a state that senders and receiver come to. -/
structure IpcInv (w : IpcWorld Sid T) (events : List (IpcEvent Sid T)) : Prop where
  messages : MessagesInv w events
  tensors : TensorsInv w events

omit [DecidableEq Sid] in
theorem IpcInv.init : IpcInv (IpcWorld.init Sid T) [] where
  messages :=
    { counter := fun d hd => (by cases hd)
      unique := fun d d' hd => (by cases hd)
      began := fun s m hm => (by cases hm)
      order := fun s => List.Pairwise.nil
      message := fun s message hmem => (by cases hmem)
      decoding := fun dec hdec => (by cases hdec) }
  tensors :=
    { queue := fun s d hd => (by cases hd)
      queueOrder := fun s => List.Pairwise.nil
      ordered := fun s sender hs => (by cases hs)
      keys := fun s k hk => (by cases hk)
      kept := fun h x hx => (by cases hx)
      current := fun s => Or.inl rfl
      returned := fun d hd => (by cases hd)
      located := fun d hd => (by cases hd) }

omit [DecidableEq Sid] in
/-- The decoding alone changes, and asks for no more than before. -/
theorem IpcInv.decoding (hinv : IpcInv w events) (decoding : Option (TensorDecoding Sid T))
    (hdec : ∀ dec', decoding = some dec' → ∃ dec, w.decoding = some dec ∧ dec'.senderId = dec.senderId ∧ dec'.messageId = dec.messageId ∧ handles dec'.remaining = handles dec.remaining) :
    IpcInv { w with decoding } events where
  messages :=
    { hinv.messages with
      decoding := by
        intro dec' hdec'
        obtain ⟨dec, hold, hs, hm, hh⟩ := hdec dec' hdec'
        obtain ⟨hbegun, hlast, hannounced, hdone⟩ := hinv.messages.decoding dec hold
        rw [hs, hm, hh]
        refine ⟨hbegun, hlast, ⟨fun h hmem => ?_, ?_⟩, hdone⟩
        · rw [hh] at hmem
          exact hannounced.put h hmem
        · rw [hh]
          exact hannounced.order }
  tensors := { hinv.tensors with }

/-- The step lemma, one case for each action. -/
theorem IpcInv.step {w' : IpcWorld Sid T} {a : IpcAction Sid T} (hinv : IpcInv w events)
    (h : w.step a = some (w', new)) : IpcInv w' (events ++ new) := by
  cases a with
  | encode senderId tensors sent =>
    cases h
    exact ⟨hinv.messages.encode senderId tensors sent, hinv.tensors.encode hinv.messages senderId tensors sent⟩
  | beginDecode senderId =>
    obtain ⟨hmessages, htensors⟩ := hinv.messages.beginDecode hinv.tensors h
    exact ⟨hmessages, htensors⟩
  | decodeTensor =>
    obtain ⟨dec, hdec, h⟩ := Option.bind_eq_some_iff.mp h
    cases hnext : dec.remaining with
    | nil =>
      rw [hnext] at h
      cases h
    | cons first rest =>
      rw [hnext] at h
      cases first with
      | inBand tensor =>
        cases h
        rw [List.append_nil]
        refine hinv.decoding _ fun dec' hdec' => ⟨dec, hdec, ?_⟩
        cases hdec'
        refine ⟨rfl, rfl, ?_⟩
        rw [hnext]
        rfl
      | handle handle =>
        obtain ⟨⟨x, r⟩, hpop, h⟩ := Option.map_eq_some_iff.mp h
        cases h
        obtain ⟨hmessages, htensors⟩ := hinv.messages.returnTensor hinv.tensors hdec hnext hpop
        exact ⟨hmessages, htensors⟩
  | get senderId =>
    obtain ⟨dec, -, h⟩ := Option.bind_eq_some_iff.mp h
    split at h
    next h₀ _ d rest _ hqueue =>
      split at h
      next =>
        cases h
        rw [List.append_nil]
        exact ⟨{ hinv.messages with }, hinv.tensors.get hinv.messages hqueue⟩
      next => cases h
    next => cases h
  | endDecode =>
    cases h
    rw [List.append_nil]
    exact hinv.decoding none fun dec' hdec' => (by cases hdec')

/-- The run lemma. -/
theorem IpcReached.inv (h : IpcReached w events) : IpcInv w events := by
  induction h with
  | init => exact IpcInv.init
  | step _ hstep ih => exact ih.step hstep

/-- Tensors meet their messages. The receiver may be asked only for what is kept or in the queue
of the sender, and then it returns it or has something to take from that queue. -/
structure TensorsMatched (w : IpcWorld Sid T) (events : List (IpcEvent Sid T)) : Prop where
  exact_tensor : ∀ d, .returned d ∈ events → .queued d ∈ events
    ∧ ∀ d', .queued d' ∈ events → d'.toTensorHandle = d.toTensorHandle → d' = d
  resolves : ∀ dec h rest, w.decoding = some dec → dec.remaining = .handle h :: rest →
    ∃ d, .queued d ∈ events ∧ d.toTensorHandle = h
      ∧ ((w.step .decodeTensor).isSome
        ∨ d ∈ w.queue h.senderId ∧ (w.step (.get h.senderId)).isSome)
  not_dropped : ∀ d, .queued d ∈ events →
    ((∀ m, .began d.senderId m ∈ events → m < d.messageId)
      ∨ ∃ dec, w.decoding = some dec ∧ d.toTensorHandle ∈ handles dec.remaining) →
    d ∈ w.queue d.senderId ∨ w.buffers.kept d.toTensorHandle = some d.tensor
  no_earlier : ∀ d, .returned d ∈ events →
    ∀ k ∈ (w.buffers.sender d.senderId).tensors.keys, d.messageId ≤ k

omit [DecidableEq Sid] in
/-- What a message still asks for has neither been returned nor dropped. -/
theorem IpcInv.remaining (hinv : IpcInv w events) {dec : TensorDecoding Sid T}
    (hdec : w.decoding = some dec) {d : TensorIpcData Sid T} (hput : .queued d ∈ events)
    (hmem : d.toTensorHandle ∈ handles dec.remaining) :
    d ∈ w.queue d.senderId ∨ w.buffers.kept d.toTensorHandle = some d.tensor := by
  obtain ⟨-, hlast, hannounced, hdone⟩ := hinv.messages.decoding dec hdec
  obtain ⟨hsender, hmessage, -⟩ := hannounced.put _ hmem
  obtain hq | hk | hr | hlt := hinv.tensors.located d hput
  · exact Or.inl hq
  · exact Or.inr hk
  · exact absurd (hdone d hr hsender hmessage _ hmem) (Nat.lt_irrefl _)
  · rw [← hsender, ← hmessage] at hlast
    exact absurd (hinv.tensors.current_le hlast) (Int.not_le.mpr hlt)

/-- Every handle is resolved to the tensor that was queued under it, nothing of a message that is
still to be decoded is dropped, and nothing of an earlier message is left. -/
theorem tensors_matched {w : IpcWorld Sid T} {events : List (IpcEvent Sid T)} (h : IpcReached w events) :
    TensorsMatched w events := by
  have hinv := h.inv
  constructor
  case exact_tensor =>
    intro d hd
    have hput := (hinv.tensors.returned d hd).1
    exact ⟨hput, fun d' hd' he => hinv.messages.unique d' d hd' hput he⟩
  case resolves =>
    intro dec handle rest hdec hnext
    have hmem : handle ∈ handles dec.remaining := by
      rw [hnext]
      exact List.mem_cons_self
    obtain ⟨-, -, x, hput⟩ := (hinv.messages.decoding dec hdec).2.2.1.put handle hmem
    refine ⟨_, hput, rfl, ?_⟩
    show (w.decodeTensor).isSome ∨ _ ∧ (w.get handle.senderId).isSome
    unfold IpcWorld.decodeTensor IpcWorld.get
    rw [hdec]
    dsimp only [Option.bind_some]
    rw [hnext]
    dsimp only
    cases hpop : w.buffers.pop handle with
    | some r => exact Or.inl rfl
    | none =>
      have hkept := TensorBuffers.pop_eq_none_iff.mp hpop
      obtain hq | hk := hinv.remaining hdec hput hmem
      · refine Or.inr ⟨hq, ?_⟩
        replace hq : _ ∈ w.queue handle.senderId := hq
        cases hqueue : w.queue handle.senderId with
        | nil =>
          rw [hqueue] at hq
          cases hq
        | cons d others =>
          dsimp only
          rw [hpop]
          rfl
      · rw [show w.buffers.kept handle = some x from hk] at hkept
        cases hkept
  case not_dropped =>
    intro d hd hearly
    obtain hearly | ⟨dec, hdec, hmem⟩ := hearly
    · obtain hq | hk | hr | hlt := hinv.tensors.located d hd
      · exact Or.inl hq
      · exact Or.inr hk
      · have hle := (hinv.tensors.returned d hr).2
        obtain hcurrent | ⟨m, hcurrent, hm⟩ := hinv.tensors.current d.senderId
        · rw [hcurrent] at hle
          exact absurd hle (by omega)
        · rw [hcurrent] at hle
          exact absurd (Int.ofNat_le.mp hle) (Nat.not_le.mpr (hearly m hm))
      · exact absurd (hinv.tensors.current_le fun m hm => Nat.le_of_lt (hearly m hm)) (Int.not_le.mpr hlt)
    · exact hinv.remaining hdec hd hmem
  case no_earlier =>
    intro d hd k hk
    have hle := (hinv.tensors.returned d hd).2
    unfold TensorBuffers.sender at hk hle
    cases hs : w.buffers d.senderId with
    | none =>
      rw [hs] at hk
      cases hk
    | some sender =>
      rw [hs] at hk hle
      exact Int.ofNat_le.mp (Int.le_trans hle ((hinv.tensors.ordered _ _ hs).current k hk))

/-- Two senders: the tensor of the other one comes first and is kept. -/
theorem image_before_audio : ∃ w : IpcWorld Bool String,
    TensorsMatched w [.queued ⟨⟨false, 1, 0⟩, "image"⟩, .queued ⟨⟨true, 1, 0⟩, "audio"⟩,
      .began false 1, .returned ⟨⟨false, 1, 0⟩, "image"⟩] := by
  obtain ⟨w₁, h₁⟩ : ∃ w₁, (IpcWorld.init Bool String).step (.encode false [("image", .queued)] true)
      = some (w₁, [.queued ⟨⟨false, 1, 0⟩, "image"⟩]) := ⟨_, rfl⟩
  obtain ⟨w₂, h₂⟩ : ∃ w₂, w₁.step (.encode true [("audio", .queued)] true)
      = some (w₂, [.queued ⟨⟨true, 1, 0⟩, "audio"⟩]) := by
    cases h₁
    exact ⟨_, rfl⟩
  obtain ⟨w₃, h₃⟩ : ∃ w₃, w₂.step (.beginDecode false) = some (w₃, [.began false 1]) := by
    cases h₁
    cases h₂
    exact ⟨_, rfl⟩
  obtain ⟨w₄, h₄⟩ : ∃ w₄, w₃.step (.get true) = some (w₄, []) := by
    cases h₁
    cases h₂
    cases h₃
    exact ⟨_, rfl⟩
  obtain ⟨w₅, h₅⟩ : ∃ w₅, w₄.step (.get false) = some (w₅, []) := by
    cases h₁
    cases h₂
    cases h₃
    cases h₄
    exact ⟨_, rfl⟩
  obtain ⟨w₆, h₆⟩ : ∃ w₆, w₅.step .decodeTensor
      = some (w₆, [.returned ⟨⟨false, 1, 0⟩, "image"⟩]) := by
    cases h₁
    cases h₂
    cases h₃
    cases h₄
    cases h₅
    exact ⟨_, rfl⟩
  exact ⟨w₆, tensors_matched (.step (.step (.step (.step (.step (.step .init h₁) h₂) h₃) h₄) h₅) h₆)⟩

end VllmEngine.Engine
