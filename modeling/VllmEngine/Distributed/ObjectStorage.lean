import VllmEngine.Distributed.ObjectRing

/-!
# The shared-memory object storage

`SingleWriterShmObjectStorage`: the writer puts objects under keys and hands out
references to them, an address and an id; the readers touch and get what they were
handed. `writer_flag` counts for every object, its reader count the touches and gets of
all readers, and the object is free when the second has caught up with the first, times
the number of readers.

`Accounts` says by how much every object is behind: `owes` is what its readers still have
to count. Each operation keeps the accounts for the `owes` that goes with it.

> `Accounts.isFree_iff`: an object is free exactly if nothing is owed for it,
> `Accounts.freeUnused`, `Accounts.put`: what is freed was not owed anything.
-/

namespace VllmEngine.Distributed

open Python

/-- The maps of the writer are over the object keys. -/
structure SingleWriterShmObjectStorage (Key : Type) where
  maxObjectSize : Nat
  nReaders : Nat
  ringBuffer : SingleWriterShmRingBuffer
  keyIndex : Dict Key (Nat × Nat)
  idIndex : Dict Nat Key
  writerFlag : Dict Nat Nat

/-- `flag_bytes`. -/
def flagBytes : Nat := 4

namespace SingleWriterShmObjectStorage

variable {Key : Type} [DecidableEq Key] (s : SingleWriterShmObjectStorage Key)

/-- `increment_writer_flag`. -/
def incrementWriterFlag (id : Nat) : SingleWriterShmObjectStorage Key :=
  { s with writerFlag := s.writerFlag.set id ((s.writerFlag.get? id).getD 0 + 1) }

/-- `increment_reader_flag`, on the object at an address. -/
def incrementReaderFlag (address : Nat) (header : Header) :
    Except Error (SingleWriterShmObjectStorage Key) :=
  if 2 ^ 31 ≤ header.readerCount + 1 then .error (.runtime "int too big to convert")
  else .ok { s with ringBuffer := { s.ringBuffer with
    memory := Function.update s.ringBuffer.memory (address % s.ringBuffer.dataBufferSize)
      (some { header with readerCount := header.readerCount + 1 }) } }

/-- `default_is_free_check`. -/
def defaultIsFreeCheck (id : Nat) (header : Header) : Except Error Bool :=
  match s.writerFlag.get? id with
  | some writerCount => .ok (decide (writerCount * s.nReaders ≤ header.readerCount))
  | none => .error (.key (toString id))

/-- A freed id leaves the writer's maps. -/
def forget (freedId : Nat) : Except Error (SingleWriterShmObjectStorage Key) :=
  match s.idIndex.get? freedId with
  | none => .error (.key (toString freedId))
  | some keyToFree => .ok { s with
      keyIndex := s.keyIndex.erase keyToFree
      idIndex := s.idIndex.erase freedId
      writerFlag := s.writerFlag.erase freedId }

/-- `free_unused`. -/
def freeUnused : Except Error (SingleWriterShmObjectStorage Key) := do
  let (freedIds, ringBuffer) ← s.ringBuffer.freeBuf s.defaultIsFreeCheck (2 * s.maxObjectSize)
  freedIds.foldlM forget { s with ringBuffer }

/-- The object has been written: it gets its first reference and its key. -/
def record (key : Key) (reference : Nat × Nat) (ringBuffer : SingleWriterShmRingBuffer) :
    SingleWriterShmObjectStorage Key :=
  let s := { s with ringBuffer }.incrementWriterFlag reference.2
  { s with
    keyIndex := s.keyIndex.set key reference
    idIndex := s.idIndex.set reference.2 key }

/-- The object goes into the buffer as it stands, if there is room. -/
def allocate (key : Key) (bufferSize : Nat) :
    Except Error (Option (Nat × Nat) × SingleWriterShmObjectStorage Key) := do
  match ← s.ringBuffer.allocateBuf bufferSize with
  | some (reference, ringBuffer) => return (some reference, s.record key reference ringBuffer)
  | none => return (none, s)

/-- `put`, for an object of the given serialized size; there is no reference when the call
ends in `ValueError` or `MemoryError`. -/
def put (key : Key) (objectSize : Nat) :
    Except Error (Option (Nat × Nat) × SingleWriterShmObjectStorage Key) :=
  let bufferSize := flagBytes + objectSize
  if s.keyIndex.contains key = true then .ok (none, s)
  else if s.maxObjectSize < bufferSize then .ok (none, s)
  else do
    match ← s.allocate key bufferSize with
    | (some reference, s) => return (some reference, s)
    | (none, s) =>
      -- try again after freeing up space
      let s ← s.freeUnused
      s.allocate key bufferSize

/-- `ShmObjectStoreSenderCache.get_and_update_item`: the reference that is handed out, if
there is one. -/
def getAndUpdateItem (key : Key) (objectSize : Nat) :
    Except Error (Option (Nat × Nat) × SingleWriterShmObjectStorage Key) :=
  match s.keyIndex.get? key with
  -- `get_cached`
  | some (address, id) => .ok (some (address, id), s.incrementWriterFlag id)
  | none => s.put key objectSize

/-- `touch` of the writer. -/
def touchWriter (key : Key) : SingleWriterShmObjectStorage Key :=
  match s.keyIndex.get? key with
  | none => s
  | some (_, id) => s.incrementWriterFlag id

/-- `touch` of a reader: nothing happens to a newly added item. -/
def touchReader (address : Nat) : Except Error (SingleWriterShmObjectStorage Key) := do
  let header ← s.ringBuffer.accessBuf address
  if s.nReaders ≤ header.readerCount then s.incrementReaderFlag address header else return s

/-- `get` of a reader. -/
def get (address monotonicId : Nat) : Except Error (SingleWriterShmObjectStorage Key) := do
  let header ← s.ringBuffer.accessBuf address
  if header.id ≠ monotonicId then
    .error (.value "has been modified or is invalid")
  else s.incrementReaderFlag address header

/-! ## The accounts of the objects -/

/-- The live chunks with their keys, and for every object the writer's count times the
number of readers, which is the reader count and what the readers still owe. -/
structure Accounts (owes : Nat → Nat) (chunks : List SingleWriterShmRingBuffer.Chunk) : Prop where
  layout : s.ringBuffer.Layout chunks
  keyed : ∀ c ∈ chunks, ∃ key, s.idIndex.get? c.id = some key ∧
    s.keyIndex.get? key = some (c.address, c.id)
  indexed : ∀ key address id, s.keyIndex.get? key = some (address, id) →
    s.idIndex.get? id = some key ∧ ∃ c ∈ chunks, c.id = id ∧ c.address = address
  balance : ∀ c ∈ chunks, ∃ flag count, s.writerFlag.get? c.id = some flag ∧
    s.ringBuffer.memory (c.address % s.ringBuffer.dataBufferSize) = some ⟨c.id, c.size, count⟩ ∧
    flag * s.nReaders = count + owes c.id
  -- what is gone has no count and owes nothing
  settled : ∀ id, (∀ c ∈ chunks, c.id ≠ id) → s.writerFlag.get? id = none ∧ owes id = 0

open SingleWriterShmRingBuffer (Chunk)

variable {s} {owes owes' : Nat → Nat} {chunks : List Chunk}

theorem Accounts.same_id (h : s.Accounts owes chunks) {c d : Chunk} (hc : c ∈ chunks)
    (hd : d ∈ chunks) (hid : c.id = d.id) : c = d :=
  List.inj_on_of_nodup_map (h.layout.numbered.nodup h.layout.start_lt h.layout.length_lt.le)
    hc hd hid

theorem Accounts.same_place (h : s.Accounts owes chunks) {c d : Chunk} (hc : c ∈ chunks)
    (hd : d ∈ chunks) (hplace : c.address % s.ringBuffer.dataBufferSize
      = d.address % s.ringBuffer.dataBufferSize) : c = d := by
  obtain ⟨n, hn⟩ := h.layout.memory c hc
  obtain ⟨m, hm⟩ := h.layout.memory d hd
  rw [hplace, hm] at hn
  exact h.same_id hc hd (congrArg Header.id (Option.some.inj hn)).symm

/-- One more reference for every reader. -/
theorem Accounts.incrementWriterFlag (h : s.Accounts owes chunks) {id : Nat}
    (hlive : ∃ c ∈ chunks, c.id = id) (hother : ∀ i, i ≠ id → owes' i = owes i)
    (hself : owes' id = owes id + s.nReaders) :
    (s.incrementWriterFlag id).Accounts owes' chunks := by
  refine ⟨h.layout, h.keyed, h.indexed, ?_, ?_⟩
  · intro c hc
    obtain ⟨flag, count, hflag, hcount, hbalance⟩ := h.balance c hc
    show ∃ flag' count', (s.writerFlag.set id ((s.writerFlag.get? id).getD 0 + 1)).get? c.id
      = some flag' ∧ _ ∧ _
    rw [Dict.get?_set]
    by_cases hid : c.id = id
    · rw [if_pos hid, ← hid, hflag]
      refine ⟨flag + 1, count, rfl, hcount, ?_⟩
      show (flag + 1) * s.nReaders = count + owes' c.id
      rw [hid, hself, ← hid, Nat.add_mul, hbalance, Nat.one_mul, Nat.add_assoc]
    · rw [if_neg hid, hother _ hid]
      exact ⟨flag, count, hflag, hcount, hbalance⟩
  · intro i hi
    obtain ⟨c, hc, hid⟩ := hlive
    have hne : i ≠ id := fun heq => hi c hc (hid.trans heq.symm)
    obtain ⟨hflag, howes⟩ := h.settled i hi
    exact ⟨(Dict.get?_set_ne _ _ hne).trans hflag, (hother i hne).trans howes⟩

/-- One touch or get that a reader owed. -/
theorem Accounts.incrementReaderFlag (h : s.Accounts owes chunks) {c : Chunk} (hc : c ∈ chunks)
    {count : Nat} (hcount : s.ringBuffer.accessBuf c.address = .ok ⟨c.id, c.size, count⟩)
    (hfit : count + 1 < 2 ^ 31) (hother : ∀ i, i ≠ c.id → owes' i = owes i)
    (hself : owes' c.id + 1 = owes c.id) :
    ∃ s', s.incrementReaderFlag c.address ⟨c.id, c.size, count⟩ = .ok s' ∧
      s'.Accounts owes' chunks ∧ s'.nReaders = s.nReaders := by
  have hmemory : s.ringBuffer.memory (c.address % s.ringBuffer.dataBufferSize)
      = some ⟨c.id, c.size, count⟩ := SingleWriterShmRingBuffer.accessBuf_ok hcount
  unfold SingleWriterShmObjectStorage.incrementReaderFlag
  rw [if_neg (Nat.not_le.mpr hfit)]
  refine ⟨_, rfl, ⟨?_, h.keyed, h.indexed, ?_, ?_⟩, rfl⟩
  · refine ⟨h.layout.size_pos, h.layout.numbered, h.layout.start_lt, h.layout.length_lt,
      h.layout.laid, h.layout.fits, h.layout.sizes, h.layout.metadata, ?_⟩
    intro d hd
    show ∃ n, Function.update s.ringBuffer.memory (c.address % s.ringBuffer.dataBufferSize) _
      (d.address % s.ringBuffer.dataBufferSize) = some ⟨d.id, d.size, n⟩
    by_cases hplace : d.address % s.ringBuffer.dataBufferSize
        = c.address % s.ringBuffer.dataBufferSize
    · rw [h.same_place hd hc hplace, Function.update_self]
      exact ⟨_, rfl⟩
    · rw [Function.update_of_ne hplace]
      exact h.layout.memory d hd
  · intro d hd
    obtain ⟨flag, count', hflag, hcount', hbalance⟩ := h.balance d hd
    show ∃ flag' count'', s.writerFlag.get? d.id = some flag' ∧
      Function.update s.ringBuffer.memory (c.address % s.ringBuffer.dataBufferSize) _
        (d.address % s.ringBuffer.dataBufferSize) = some ⟨d.id, d.size, count''⟩ ∧
      flag' * s.nReaders = count'' + owes' d.id
    by_cases hplace : d.address % s.ringBuffer.dataBufferSize
        = c.address % s.ringBuffer.dataBufferSize
    · have hdc := h.same_place hd hc hplace
      subst hdc
      rw [Function.update_self]
      refine ⟨flag, count + 1, hflag, rfl, ?_⟩
      rw [hmemory] at hcount'
      cases hcount'
      omega
    · rw [Function.update_of_ne hplace]
      refine ⟨flag, count', hflag, hcount', ?_⟩
      rw [hbalance, hother]
      intro hid
      exact hplace (congrArg (fun e => e.address % _) (h.same_id hd hc hid))
  · intro i hi
    rw [hother i (fun heq => hi c hc heq.symm)]
    exact h.settled i hi

/-- A key that was not there gets the chunk of an allocation. -/
theorem Accounts.record (h : s.Accounts owes chunks) {key : Key} (hkey : s.keyIndex.get? key = none)
    (hroom : chunks.length + 1 < idMax) {size address id : Nat}
    {ringBuffer : SingleWriterShmRingBuffer}
    (hallocate : s.ringBuffer.allocateBuf size = .ok (some ((address, id), ringBuffer)))
    (hother : ∀ i, i ≠ id → owes' i = owes i) (hself : owes' id = s.nReaders) :
    ∃ c, c.id = id ∧ c.address = address ∧
      (s.record key (address, id) ringBuffer).Accounts owes' (chunks ++ [c]) := by
  obtain ⟨hlayout, hfresh, hnew, hsize, hold⟩ :=
    SingleWriterShmRingBuffer.allocateBuf_layout h.layout hroom hallocate
  refine ⟨⟨id, address, size + mdSize⟩, rfl, rfl, ?_⟩
  refine ⟨hlayout, ?_, ?_, ?_, ?_⟩
  · intro c hc
    show ∃ k, (s.idIndex.set id key).get? c.id = some k ∧
      (s.keyIndex.set key (address, id)).get? k = some (c.address, c.id)
    rcases List.mem_append.mp hc with hc | hc
    · obtain ⟨k, hk, hindex⟩ := h.keyed c hc
      refine ⟨k, ?_, ?_⟩
      · rw [Dict.get?_set_ne _ _ (hfresh c hc)]
        exact hk
      · rw [Dict.get?_set_ne]
        · exact hindex
        · intro heq
          rw [heq, hkey] at hindex
          cases hindex
    · rw [List.mem_singleton.mp hc]
      exact ⟨key, Dict.get?_set_self _ _ _, Dict.get?_set_self _ _ _⟩
  · intro k a i hk
    change (s.keyIndex.set key (address, id)).get? k = some (a, i) at hk
    show (s.idIndex.set id key).get? i = some k ∧ _
    rw [Dict.get?_set] at hk
    by_cases hkk : k = key
    · rw [if_pos hkk] at hk
      cases hk
      rw [hkk]
      exact ⟨Dict.get?_set_self _ _ _, _, List.mem_append_right _ (List.mem_singleton_self _), rfl,
        rfl⟩
    · rw [if_neg hkk] at hk
      obtain ⟨hindex, c, hc, hcid, hca⟩ := h.indexed k a i hk
      refine ⟨?_, c, List.mem_append_left _ hc, hcid, hca⟩
      rw [Dict.get?_set_ne _ _ (fun heq => hfresh c hc (hcid.trans heq))]
      exact hindex
  · intro c hc
    show ∃ flag count,
      (s.writerFlag.set id ((s.writerFlag.get? id).getD 0 + 1)).get? c.id = some flag ∧
      ringBuffer.memory (c.address % ringBuffer.dataBufferSize) = some ⟨c.id, c.size, count⟩ ∧
      flag * s.nReaders = count + owes' c.id
    rw [hsize]
    rcases List.mem_append.mp hc with hc | hc
    · obtain ⟨flag, count, hflag, hcount, hbalance⟩ := h.balance c hc
      refine ⟨flag, count, ?_, ?_, ?_⟩
      · rw [Dict.get?_set_ne _ _ (hfresh c hc)]
        exact hflag
      · rw [(hold c hc).2]
        exact hcount
      · rw [hother _ (hfresh c hc)]
        exact hbalance
    · rw [List.mem_singleton.mp hc, (h.settled id hfresh).1]
      refine ⟨1, 0, Dict.get?_set_self _ _ _, hnew, ?_⟩
      show 1 * s.nReaders = 0 + owes' id
      rw [hself, Nat.one_mul, Nat.zero_add]
  · intro i hi
    have hne : i ≠ id := fun heq =>
      hi _ (List.mem_append_right _ (List.mem_singleton_self _)) heq.symm
    obtain ⟨hflag, howes⟩ := h.settled i fun c hc => hi c (List.mem_append_left _ hc)
    exact ⟨(Dict.get?_set_ne _ _ hne).trans hflag, (hother i hne).trans howes⟩

/-- What is known of the accounts while the freed ids leave the maps: the buffer has let
go of the chunks, the maps not yet. -/
structure Leaving (s : SingleWriterShmObjectStorage Key) (owes : Nat → Nat)
    (leaving rest : List Chunk) : Prop where
  layout : s.ringBuffer.Layout rest
  nodup : ((leaving ++ rest).map (·.id)).Nodup
  keyed : ∀ c ∈ leaving ++ rest, ∃ key, s.idIndex.get? c.id = some key ∧
    s.keyIndex.get? key = some (c.address, c.id)
  indexed : ∀ key address id, s.keyIndex.get? key = some (address, id) →
    s.idIndex.get? id = some key ∧ ∃ c ∈ leaving ++ rest, c.id = id ∧ c.address = address
  balance : ∀ c ∈ rest, ∃ flag count, s.writerFlag.get? c.id = some flag ∧
    s.ringBuffer.memory (c.address % s.ringBuffer.dataBufferSize) = some ⟨c.id, c.size, count⟩ ∧
    flag * s.nReaders = count + owes c.id
  settled : ∀ id, (∀ c ∈ leaving ++ rest, c.id ≠ id) → s.writerFlag.get? id = none ∧ owes id = 0
  paid : ∀ c ∈ leaving, owes c.id = 0

theorem Leaving.forget {s : SingleWriterShmObjectStorage Key} {c : Chunk}
    {leaving rest : List Chunk} (h : Leaving s owes (c :: leaving) rest) :
    ∃ s', s.forget c.id = .ok s' ∧ Leaving s' owes leaving rest ∧ s'.nReaders = s.nReaders ∧
      ∀ key, s.keyIndex.get? key = none → s'.keyIndex.get? key = none := by
  obtain ⟨key, hkey, hindex⟩ := h.keyed c List.mem_cons_self
  have hnodup := h.nodup
  rw [List.cons_append, List.map_cons, List.nodup_cons] at hnodup
  have hne : ∀ d ∈ leaving ++ rest, d.id ≠ c.id := by
    intro d hd heq
    exact hnodup.1 (heq ▸ List.mem_map_of_mem hd)
  unfold SingleWriterShmObjectStorage.forget
  rw [hkey]
  refine ⟨_, rfl, ⟨h.layout, hnodup.2, ?_, ?_, ?_, ?_, ?_⟩, rfl, ?_⟩
  · intro d hd
    obtain ⟨k, hk, hkindex⟩ := h.keyed d (List.mem_cons_of_mem _ hd)
    refine ⟨k, (Dict.get?_erase_ne _ (hne d hd)).trans hk, (Dict.get?_erase_ne _ ?_).trans hkindex⟩
    intro heq
    rw [heq, hindex] at hkindex
    exact hne d hd (congrArg Prod.snd (Option.some.inj hkindex)).symm
  · intro k address id hk
    change (s.keyIndex.erase key).get? k = some (address, id) at hk
    show (s.idIndex.erase c.id).get? id = some k ∧ _
    rw [Dict.get?_erase] at hk
    by_cases hkk : k = key
    · rw [if_pos hkk] at hk
      cases hk
    · rw [if_neg hkk] at hk
      obtain ⟨hid, d, hd, hdid, hda⟩ := h.indexed k address id hk
      have hidc : id ≠ c.id := by
        intro heq
        rw [heq, hkey] at hid
        exact hkk (Option.some.inj hid).symm
      refine ⟨(Dict.get?_erase_ne _ hidc).trans hid, d, ?_, hdid, hda⟩
      rcases List.mem_cons.mp hd with hdc | hd
      · exact absurd (hdid.symm.trans (congrArg Chunk.id hdc)) hidc
      · exact hd
  · intro d hd
    obtain ⟨flag, count, hflag, hcount, hbalance⟩ := h.balance d hd
    exact ⟨flag, count, (Dict.get?_erase_ne _ (hne d (List.mem_append_right _ hd))).trans hflag,
      hcount, hbalance⟩
  · intro id hid
    show (s.writerFlag.erase c.id).get? id = none ∧ owes id = 0
    rw [Dict.get?_erase]
    by_cases hidc : id = c.id
    · rw [if_pos hidc, hidc]
      exact ⟨rfl, h.paid c List.mem_cons_self⟩
    · rw [if_neg hidc]
      refine h.settled id fun d hd => ?_
      rcases List.mem_cons.mp hd with hdc | hd
      · rw [hdc]
        exact fun heq => hidc heq.symm
      · exact hid d hd
  · intro d hd
    exact h.paid d (List.mem_cons_of_mem _ hd)
  · intro k hk
    show (s.keyIndex.erase key).get? k = none
    rw [Dict.get?_erase, hk, ite_self]

theorem Leaving.forgetAll : ∀ {leaving : List Chunk} {s : SingleWriterShmObjectStorage Key}
    {rest : List Chunk}, Leaving s owes leaving rest →
    ∃ s', (leaving.map (·.id)).foldlM SingleWriterShmObjectStorage.forget s = .ok s' ∧
      s'.Accounts owes rest ∧ s'.nReaders = s.nReaders ∧
      ∀ key, s.keyIndex.get? key = none → s'.keyIndex.get? key = none := by
  intro leaving
  induction leaving with
  | nil =>
    intro s rest h
    exact ⟨s, rfl, ⟨h.layout, h.keyed, h.indexed, h.balance, h.settled⟩, rfl, fun _ hk => hk⟩
  | cons c cs ih =>
    intro s rest h
    obtain ⟨s₁, hforget, hleaving, hreaders, hkeys⟩ := h.forget
    obtain ⟨s₂, hrun, hdone, hreaders', hkeys'⟩ := ih hleaving
    refine ⟨s₂, ?_, hdone, hreaders'.trans hreaders, fun k hk => hkeys' k (hkeys k hk)⟩
    rw [List.map_cons, List.foldlM_cons, hforget]
    exact hrun

/-- An object passes the check if and only if nothing is owed for it. -/
theorem Accounts.isFree_iff (h : s.Accounts owes chunks) {c : Chunk} (hc : c ∈ chunks)
    {header : Header} (hheader : s.ringBuffer.accessBuf c.address = .ok header) :
    ∃ free, s.defaultIsFreeCheck c.id header = .ok free ∧ (free = true ↔ owes c.id = 0) := by
  obtain ⟨flag, count, hflag, hcount, hbalance⟩ := h.balance c hc
  have hmemory := SingleWriterShmRingBuffer.accessBuf_ok hheader
  rw [hcount] at hmemory
  cases hmemory
  unfold defaultIsFreeCheck
  rw [hflag]
  refine ⟨_, rfl, ?_⟩
  rw [decide_eq_true_iff, hbalance]
  show count + owes c.id ≤ count ↔ _
  omega

/-- `free_unused` frees a first part of the chunks, for which nothing is owed. -/
theorem Accounts.freeUnused (h : s.Accounts owes chunks) :
    ∃ s' freed rest, s.freeUnused = .ok s' ∧ chunks = freed ++ rest ∧ s'.Accounts owes rest ∧
      (∀ c ∈ freed, owes c.id = 0) ∧ s'.nReaders = s.nReaders ∧
      ∀ key, s.keyIndex.get? key = none → s'.keyIndex.get? key = none := by
  obtain ⟨r', freed, rest, hfreeBuf, hsplit, hfreed⟩ := SingleWriterShmRingBuffer.freeBuf_freed
    s.defaultIsFreeCheck h.layout (2 * s.maxObjectSize) (by
      intro c hc header hheader
      obtain ⟨free, hfree, -⟩ := h.isFree_iff hc hheader
      exact ⟨free, hfree⟩)
  have hmem : ∀ c ∈ freed, c ∈ chunks := by
    intro c hc
    rw [hsplit]
    exact List.mem_append_left _ hc
  have hpaid : ∀ c ∈ freed, owes c.id = 0 := by
    intro c hc
    obtain ⟨header, hheader, hfree⟩ := hfreed.passed c hc
    obtain ⟨free, hfree', hiff⟩ := h.isFree_iff (hmem c hc) hheader
    rw [hfree] at hfree'
    cases hfree'
    exact hiff.mp rfl
  have hleaving : Leaving { s with ringBuffer := r' } owes freed rest := by
    refine ⟨hfreed.layout, ?_, ?_, ?_, ?_, ?_, hpaid⟩
    · rw [← hsplit]
      exact h.layout.numbered.nodup h.layout.start_lt h.layout.length_lt.le
    · rw [← hsplit]
      exact h.keyed
    · rw [← hsplit]
      exact h.indexed
    · intro c hc
      show ∃ flag count, s.writerFlag.get? c.id = some flag ∧
        r'.memory (c.address % r'.dataBufferSize) = some ⟨c.id, c.size, count⟩ ∧ _
      rw [hfreed.memory, hfreed.size]
      refine h.balance c ?_
      rw [hsplit]
      exact List.mem_append_right _ hc
    · rw [← hsplit]
      exact h.settled
  obtain ⟨s', hforget, haccounts, hreaders, hkeys⟩ := hleaving.forgetAll
  refine ⟨s', freed, rest, ?_, hsplit, haccounts, hpaid, hreaders, hkeys⟩
  unfold SingleWriterShmObjectStorage.freeUnused
  rw [hfreeBuf]
  exact hforget

/-- The outcome of `put`: an object that every reader owes its first get, or nothing new. -/
def Placed (s : SingleWriterShmObjectStorage Key) (owes : Nat → Nat) (chunks : List Chunk) :
    Option (Nat × Nat) → Prop
  | none => s.Accounts owes chunks
  | some (address, id) => owes id = 0 ∧ ∀ owes' : Nat → Nat, (∀ i, i ≠ id → owes' i = owes i) →
      owes' id = s.nReaders →
      ∃ c, c.id = id ∧ c.address = address ∧ s.Accounts owes' (chunks ++ [c])

theorem Accounts.allocate (h : s.Accounts owes chunks) {key : Key}
    (hkey : s.keyIndex.get? key = none) (hroom : chunks.length + 1 < idMax) {bufferSize : Nat}
    (hfit : bufferSize + mdSize < 2 ^ 31) :
    ∃ reference s', s.allocate key bufferSize = .ok (reference, s') ∧ s'.nReaders = s.nReaders ∧
      s'.Placed owes chunks reference ∧ (reference = none → s' = s) := by
  unfold SingleWriterShmObjectStorage.allocate
  cases hallocate : s.ringBuffer.allocateBuf bufferSize with
  | error e =>
    unfold SingleWriterShmRingBuffer.allocateBuf at hallocate
    dsimp only at hallocate
    split at hallocate
    · cases hallocate
    · rw [if_neg (Nat.not_le.mpr hfit)] at hallocate
      cases hallocate
  | ok result =>
    rw [Raises.ok_bind]
    cases result with
    | none => exact ⟨none, s, rfl, rfl, h, fun _ => rfl⟩
    | some placed =>
      obtain ⟨⟨address, id⟩, ringBuffer⟩ := placed
      refine ⟨some (address, id), _, rfl, rfl, ⟨?_, ?_⟩, fun hnone => (by cases hnone)⟩
      · exact (h.settled id
          (SingleWriterShmRingBuffer.allocateBuf_layout h.layout hroom hallocate).2.1).2
      · intro owes' hother hself
        exact h.record hkey hroom hallocate hother hself

theorem Accounts.put (h : s.Accounts owes chunks) {key : Key} (hkey : s.keyIndex.get? key = none)
    (hroom : chunks.length + 1 < idMax) {objectSize : Nat}
    (hfit : flagBytes + objectSize + mdSize < 2 ^ 31) :
    ∃ reference s' freed rest, s.put key objectSize = .ok (reference, s') ∧
      s'.nReaders = s.nReaders ∧ chunks = freed ++ rest ∧ (∀ c ∈ freed, owes c.id = 0) ∧
      s'.Placed owes rest reference := by
  have hnothing : ∀ c ∈ ([] : List Chunk), owes c.id = 0 := fun c hc => absurd hc List.not_mem_nil
  unfold SingleWriterShmObjectStorage.put
  dsimp only
  rw [if_neg (by rw [Dict.contains, hkey]; exact Bool.false_ne_true)]
  by_cases hlarge : s.maxObjectSize < flagBytes + objectSize
  · rw [if_pos hlarge]
    exact ⟨none, s, [], chunks, rfl, rfl, rfl, hnothing, h⟩
  · rw [if_neg hlarge]
    obtain ⟨reference, s', hallocate, hreaders, hplaced, hsame⟩ := h.allocate hkey hroom hfit
    rw [hallocate, Raises.ok_bind]
    cases reference with
    | some reference =>
      exact ⟨some reference, s', [], chunks, rfl, hreaders, rfl, hnothing, hplaced⟩
    | none =>
      rw [hsame rfl]
      obtain ⟨s₁, freed, rest, hfree, hsplit, haccounts, hpaid, hreaders₁, hkeys⟩ := h.freeUnused
      have hroom₁ : rest.length + 1 < idMax := by
        rw [hsplit, List.length_append] at hroom
        omega
      obtain ⟨reference, s₂, hallocate₂, hreaders₂, hplaced₂, -⟩ :=
        haccounts.allocate (hkeys key hkey) hroom₁ hfit
      refine ⟨reference, s₂, freed, rest, ?_, hreaders₂.trans hreaders₁, hsplit, hpaid, hplaced₂⟩
      dsimp only
      rw [hfree, Raises.ok_bind, hallocate₂]

end SingleWriterShmObjectStorage

end VllmEngine.Distributed
