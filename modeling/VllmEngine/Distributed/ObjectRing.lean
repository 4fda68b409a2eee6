import VllmEngine.Lib.Dict
import VllmEngine.Lib.Python

/-!
# The ring buffer of the object storage

`SingleWriterShmRingBuffer`: one writer allocates chunks of a shared buffer in order
and frees the oldest ones; readers find a chunk by its address. Of the shared memory
only the chunk headers are kept, with the reader count that the object storage writes
behind them; a chunk that is written over another one erases its header.

`Layout` lists the live chunks: their ids count up modulo `ID_MAX`, and their places
do not overlap, so that every live chunk is still there.

> `allocateBuf_layout`: a new chunk overlaps no live one,
> `freeBuf_freed`: the chunks that are freed are the first ones, and pass the check.
-/

namespace VllmEngine.Distributed

open Python

/-- The id and size of a chunk, and the reader count of the object in it. -/
structure Header where
  id : Nat
  size : Nat
  readerCount : Nat
deriving DecidableEq, Repr

structure SingleWriterShmRingBuffer where
  dataBufferSize : Nat
  monotonicIdStart : Nat
  monotonicIdEnd : Nat
  dataBufferStart : Nat
  dataBufferEnd : Nat
  metadata : Dict Nat Nat
  memory : Nat → Option Header

/-- `ID_MAX`. -/
def idMax : Nat := 2 ^ 31

/-- `MD_SIZE`. -/
def mdSize : Nat := 8

namespace SingleWriterShmRingBuffer

variable (r : SingleWriterShmRingBuffer)

/-- The start of a chunk of the given size: past the end of the buffer it starts over. -/
def bufferEndReset (size : Nat) : Nat :=
  if r.dataBufferSize < r.dataBufferEnd % r.dataBufferSize + size then
    (r.dataBufferEnd / r.dataBufferSize + 1) * r.dataBufferSize
  else r.dataBufferEnd

/-- The memory after a header was written; its chunk erases those it covers. -/
def write (bufIdx : Nat) (header : Header) : Nat → Option Header := fun i =>
  if i = bufIdx then some header
  else if bufIdx ≤ i ∧ i < bufIdx + header.size then none
  else r.memory i

/-- `allocate_buf`, with a reader count of zero: the address and id of the new chunk,
`none` for `MemoryError`. -/
def allocateBuf (size : Nat) :
    Except Error (Option ((Nat × Nat) × SingleWriterShmRingBuffer)) :=
  let size := size + mdSize
  let bufferEnd := r.bufferEndReset size
  if r.dataBufferSize < bufferEnd + size - r.dataBufferStart then .ok none
  else if 2 ^ 31 ≤ size then .error (.runtime "int too big to convert")
  else .ok (some ((bufferEnd, r.monotonicIdEnd), { r with
    memory := r.write (bufferEnd % r.dataBufferSize) ⟨r.monotonicIdEnd, size, 0⟩
    metadata := r.metadata.set (r.monotonicIdEnd % idMax) bufferEnd
    dataBufferEnd := bufferEnd + size
    monotonicIdEnd := (r.monotonicIdEnd + 1) % idMax }))

/-- `access_buf`: the header at an address; there is none where another chunk was
written. -/
def accessBuf (address : Nat) : Except Error Header :=
  match r.memory (address % r.dataBufferSize) with
  | some header => .ok header
  | none => .error (.value "has been modified or is invalid")

/-- The first chunk leaves, in the loop of `free_buf`. -/
def dropFirst : SingleWriterShmRingBuffer :=
  let metadata := r.metadata.erase r.monotonicIdStart
  let monotonicIdStart := (r.monotonicIdStart + 1) % idMax
  match metadata.get? monotonicIdStart with
  | some next => { r with
      metadata, monotonicIdStart
      -- the start of the next allocation
      dataBufferStart := r.dataBufferStart
        + (((next : Int) - r.dataBufferStart) % r.dataBufferSize).toNat }
  | none => { r with metadata, monotonicIdStart, dataBufferStart := 0, dataBufferEnd := 0 }

/-- The loop of `free_buf`; every round removes an entry of `metadata`. -/
def freeLoop (isFree : Nat → Header → Except Error Bool) (nbytes : Nat) :
    Nat → SingleWriterShmRingBuffer → Nat → Except Error SingleWriterShmRingBuffer
  | 0, r, _ => .ok r
  | fuel + 1, r, freedBytes =>
    match r.metadata.get? r.monotonicIdStart with
    | none => .ok r
    | some address =>
      if nbytes ≤ freedBytes then .ok r
      else do
        let header ← r.accessBuf address
        let free ← isFree r.monotonicIdStart header
        if free then freeLoop isFree nbytes fuel r.dropFirst (freedBytes + header.size)
        else return r

/-- The ids from one up to another, around `ID_MAX`. -/
def idRange (before after : Nat) : List Nat :=
  if before ≤ after then List.range' before (after - before)
  else List.range' before (idMax - before) ++ List.range after

/-- `free_buf`: the freed ids, and the buffer after it. -/
def freeBuf (isFree : Nat → Header → Except Error Bool) (nbytes : Nat) :
    Except Error (List Nat × SingleWriterShmRingBuffer) := do
  let r' ← freeLoop isFree nbytes r.metadata.size r 0
  let r' := if r'.dataBufferSize ≤ r'.dataBufferStart then
      { r' with
        dataBufferStart := r'.dataBufferStart - r'.dataBufferSize
        dataBufferEnd := r'.dataBufferEnd - r'.dataBufferSize }
    else r'
  return (idRange r.monotonicIdStart r'.monotonicIdStart, r')

/-- The number of ids in use. -/
def liveCount : Nat := (r.monotonicIdEnd + idMax - r.monotonicIdStart) % idMax

/-! ## The live chunks -/

/-- A live chunk. -/
structure Chunk where
  id : Nat
  address : Nat
  size : Nat
deriving DecidableEq, Repr

/-- Ids that count up from `start` to `stop`. -/
def Numbered : Nat → List Chunk → Nat → Prop
  | start, [], stop => stop = start
  | start, c :: cs, stop => c.id = start ∧ Numbered ((start + 1) % idMax) cs stop

/-- Chunks one after the other between two places of the endless buffer, of which each
lies in one round. -/
def Laid (size : Nat) : Nat → List Chunk → Nat → Prop
  | start, [], stop => start ≤ stop
  | start, c :: cs, stop => ∃ place, start ≤ place ∧ place % size = c.address % size ∧
    place % size + c.size ≤ size ∧ Laid size (place + c.size) cs stop

/-- The chunks are the live ones of the buffer. -/
structure Layout (chunks : List Chunk) : Prop where
  size_pos : 0 < r.dataBufferSize
  numbered : Numbered r.monotonicIdStart chunks r.monotonicIdEnd
  start_lt : r.monotonicIdStart < idMax
  length_lt : chunks.length < idMax
  laid : Laid r.dataBufferSize r.dataBufferStart chunks r.dataBufferEnd
  fits : r.dataBufferEnd ≤ r.dataBufferStart + r.dataBufferSize
  sizes : ∀ c ∈ chunks, 0 < c.size
  metadata : ∀ id address, r.metadata.get? id = some address ↔
    ∃ c ∈ chunks, c.id = id ∧ c.address = address
  memory : ∀ c ∈ chunks, ∃ n, r.memory (c.address % r.dataBufferSize) = some ⟨c.id, c.size, n⟩

theorem Numbered.id_eq : ∀ {chunks : List Chunk} {start stop : Nat}, start < idMax →
    Numbered start chunks stop → stop = (start + chunks.length) % idMax ∧
      chunks.map (·.id) = (List.range chunks.length).map fun i => (start + i) % idMax := by
  intro chunks
  induction chunks with
  | nil =>
    intro start stop hstart h
    exact ⟨h.trans (Nat.mod_eq_of_lt hstart).symm, rfl⟩
  | cons c cs ih =>
    intro start stop hstart h
    obtain ⟨hid, hrest⟩ := h
    obtain ⟨hstop, hids⟩ := ih (Nat.mod_lt _ (Nat.two_pow_pos 31)) hrest
    constructor
    · rw [hstop, List.length_cons, Nat.mod_add_mod, Nat.add_assoc, Nat.add_comm 1]
    · rw [List.map_cons, hid, hids, List.length_cons, List.range_succ_eq_map, List.map_cons,
        List.map_map]
      refine congrArg₂ _ (Nat.mod_eq_of_lt hstart).symm (List.map_congr_left fun i _ => ?_)
      show ((start + 1) % idMax + i) % idMax = (start + (i + 1)) % idMax
      rw [Nat.mod_add_mod, Nat.add_assoc, Nat.add_comm 1]

theorem mod_inj {start i j : Nat} (hi : i < idMax) (hj : j < idMax)
    (h : (start + i) % idMax = (start + j) % idMax) : i = j := by
  unfold idMax at *
  omega

variable {r r' : SingleWriterShmRingBuffer} {chunks : List Chunk} {c : Chunk} {size : Nat}
  {isFree : Nat → Header → Except Error Bool}

theorem Layout.liveCount_eq (h : r.Layout chunks) : r.liveCount = chunks.length := by
  have hstart := h.start_lt
  have hlen := h.length_lt
  have hmax : idMax = 2147483648 := rfl
  unfold liveCount
  rw [(h.numbered.id_eq h.start_lt).1]
  rw [hmax] at hstart hlen ⊢
  omega

theorem Numbered.nodup {start stop : Nat} (hstart : start < idMax) (h : Numbered start chunks stop)
    (hlen : chunks.length ≤ idMax) : (chunks.map (·.id)).Nodup := by
  rw [(h.id_eq hstart).2]
  refine List.Nodup.map_on ?_ List.nodup_range
  intro i hi j hj hij
  rw [List.mem_range] at hi hj
  exact mod_inj (by omega) (by omega) hij

theorem Numbered.stop_fresh {start stop : Nat} (hstart : start < idMax)
    (h : Numbered start chunks stop) (hlen : chunks.length < idMax) :
    ∀ c ∈ chunks, c.id ≠ stop := by
  intro c hc heq
  obtain ⟨hstop, hids⟩ := h.id_eq hstart
  have hmem : c.id ∈ chunks.map (·.id) := List.mem_map_of_mem hc
  rw [hids] at hmem
  obtain ⟨i, hi, hid⟩ := List.mem_map.mp hmem
  rw [List.mem_range] at hi
  have hlast : i = chunks.length := mod_inj (by omega) hlen (hid.trans (heq.trans hstop))
  omega

theorem Numbered.snoc : ∀ {chunks : List Chunk} {start stop : Nat},
    Numbered start chunks stop → c.id = stop →
      Numbered start (chunks ++ [c]) ((stop + 1) % idMax) := by
  intro chunks
  induction chunks with
  | nil =>
    intro start stop h hc
    refine ⟨hc.trans h, ?_⟩
    rw [h]
    rfl
  | cons d ds ih =>
    intro start stop h hc
    exact ⟨h.1, ih h.2 hc⟩

theorem idRange_eq {freed : List Chunk} {before after : Nat} (hbefore : before < idMax)
    (hlen : freed.length < idMax) (h : Numbered before freed after) :
    idRange before after = freed.map (·.id) := by
  obtain ⟨hafter, hids⟩ := h.id_eq hbefore
  rw [hids]
  have hmax : idMax = 2147483648 := rfl
  unfold idRange
  by_cases hwrap : before + freed.length < idMax
  · rw [Nat.mod_eq_of_lt hwrap] at hafter
    rw [if_pos (by omega), show after - before = freed.length by omega, List.range'_eq_map_range]
    refine List.map_congr_left fun i hi => ?_
    rw [List.mem_range] at hi
    exact (Nat.mod_eq_of_lt (by omega)).symm
  · have hround : after = before + freed.length - idMax := by
      rw [hmax] at hbefore hlen hwrap hafter ⊢
      omega
    have hsplit : freed.length = (idMax - before) + after := by omega
    rw [if_neg (by omega), hsplit, List.range_add, List.map_append, List.map_map,
      List.range'_eq_map_range]
    refine congrArg₂ _ (List.map_congr_left fun i hi => ?_) ?_
    · rw [List.mem_range] at hi
      exact (Nat.mod_eq_of_lt (by omega)).symm
    · have hself : ∀ i ∈ List.range after, i = (before + (idMax - before + i)) % idMax := by
        intro i hi
        rw [List.mem_range] at hi
        rw [show before + (idMax - before + i) = idMax + i by omega, Nat.add_mod_left]
        exact (Nat.mod_eq_of_lt (by omega)).symm
      exact (List.map_id _).symm.trans (List.map_congr_left hself)

/-! ## Allocation -/

theorem Laid.le : ∀ {chunks : List Chunk} {start stop : Nat},
    Laid size start chunks stop → start ≤ stop := by
  intro chunks
  induction chunks with
  | nil =>
    intro start stop h
    exact h
  | cons c cs ih =>
    intro start stop h
    obtain ⟨place, hplace, -, -, hrest⟩ := h
    have hstop := ih hrest
    omega

/-- Every chunk has its place before the end. -/
theorem Laid.place : ∀ {chunks : List Chunk} {start stop : Nat},
    Laid size start chunks stop → ∀ c ∈ chunks, ∃ place, start ≤ place ∧
      place % size = c.address % size ∧ place % size + c.size ≤ size ∧ place + c.size ≤ stop := by
  intro chunks
  induction chunks with
  | nil =>
    intro start stop _ c hc
    cases hc
  | cons d ds ih =>
    intro start stop h c hc
    obtain ⟨place, hplace, haddr, hround, hrest⟩ := h
    rcases List.mem_cons.mp hc with hd | hds
    · subst hd
      exact ⟨place, hplace, haddr, hround, hrest.le⟩
    · obtain ⟨place', hplace', hc'⟩ := ih hrest c hds
      exact ⟨place', by omega, hc'⟩

theorem Laid.snoc : ∀ {chunks : List Chunk} {start stop : Nat},
    Laid size start chunks stop → stop ≤ c.address → c.address % size + c.size ≤ size →
      Laid size start (chunks ++ [c]) (c.address + c.size) := by
  intro chunks
  induction chunks with
  | nil =>
    intro start stop h hplace hround
    have hstart : start ≤ stop := h
    exact ⟨c.address, by omega, rfl, hround, Nat.le_refl _⟩
  | cons d ds ih =>
    intro start stop h hplace hround
    obtain ⟨place, hstart, haddr, hd, hrest⟩ := h
    exact ⟨place, hstart, haddr, hd, ih hrest hplace hround⟩

/-- Two places of one window do not meet, taken around the buffer. -/
theorem disjoint_around {p q dsize csize : Nat} (hsize : 0 < size) (hpq : p + dsize ≤ q)
    (hwindow : q + csize ≤ p + size) (hd : 0 < dsize) :
    ¬ (q % size ≤ p % size ∧ p % size < q % size + csize) := by
  intro h
  have hp := Nat.div_add_mod p size
  have hq := Nat.div_add_mod q size
  rcases Nat.lt_trichotomy (p / size) (q / size) with hlt | heq | hgt
  · have hmul : size * (p / size + 1) ≤ size * (q / size) := Nat.mul_le_mul_left _ hlt
    rw [Nat.mul_add] at hmul
    omega
  · rw [heq] at hp
    omega
  · have hmul : size * (q / size + 1) ≤ size * (p / size) := Nat.mul_le_mul_left _ hgt
    rw [Nat.mul_add] at hmul
    have hlt := Nat.mod_lt q hsize
    omega

/-- The new chunk starts no earlier than the end. -/
theorem le_bufferEndReset (hsize : 0 < r.dataBufferSize) (size : Nat) :
    r.dataBufferEnd ≤ r.bufferEndReset size := by
  unfold bufferEndReset
  have hend := Nat.div_add_mod r.dataBufferEnd r.dataBufferSize
  have hlt := Nat.mod_lt r.dataBufferEnd hsize
  split
  · rw [Nat.add_mul, Nat.mul_comm (r.dataBufferEnd / r.dataBufferSize)]
    omega
  · exact Nat.le_refl _

/-- The new chunk does not go around. -/
theorem bufferEndReset_round (hle : size ≤ r.dataBufferSize) :
    r.bufferEndReset size % r.dataBufferSize + size ≤ r.dataBufferSize := by
  unfold bufferEndReset
  by_cases hover : r.dataBufferSize < r.dataBufferEnd % r.dataBufferSize + size
  · rw [if_pos hover, Nat.mul_mod_left]
    omega
  · rw [if_neg hover]
    omega

/-- What a successful allocation did. -/
theorem allocateBuf_ok {address id : Nat} (h : r.allocateBuf size = .ok (some ((address, id), r'))) :
    address = r.bufferEndReset (size + mdSize) ∧ id = r.monotonicIdEnd ∧
      address + (size + mdSize) - r.dataBufferStart ≤ r.dataBufferSize ∧
      r' = { r with
        memory := r.write (address % r.dataBufferSize) ⟨id, size + mdSize, 0⟩
        metadata := r.metadata.set (id % idMax) address
        dataBufferEnd := address + (size + mdSize)
        monotonicIdEnd := (id + 1) % idMax } := by
  unfold allocateBuf at h
  dsimp only at h
  split at h
  · cases h
  · split at h
    · cases h
    · rename_i hroom _
      cases h
      exact ⟨rfl, rfl, by omega, rfl⟩

theorem write_self (bufIdx : Nat) (header : Header) : r.write bufIdx header bufIdx = some header :=
  if_pos rfl

theorem write_outside {bufIdx i : Nat} (header : Header) (hi : i ≠ bufIdx)
    (h : ¬ (bufIdx ≤ i ∧ i < bufIdx + header.size)) : r.write bufIdx header i = r.memory i := by
  unfold write
  rw [if_neg hi, if_neg h]

/-- The chunk of an allocation is a live one after it, and erased none. -/
theorem allocateBuf_layout {address id : Nat} (hlay : r.Layout chunks)
    (hroom : chunks.length + 1 < idMax) (h : r.allocateBuf size = .ok (some ((address, id), r'))) :
    r'.Layout (chunks ++ [⟨id, address, size + mdSize⟩]) ∧ (∀ c ∈ chunks, c.id ≠ id) ∧
      r'.memory (address % r.dataBufferSize) = some ⟨id, size + mdSize, 0⟩ ∧
      r'.dataBufferSize = r.dataBufferSize ∧
      ∀ c ∈ chunks, c.address % r.dataBufferSize ≠ address % r.dataBufferSize ∧
        r'.memory (c.address % r.dataBufferSize) = r.memory (c.address % r.dataBufferSize) := by
  obtain ⟨haddress, hid, hfits, hr'⟩ := allocateBuf_ok h
  have hfresh : ∀ c ∈ chunks, c.id ≠ id := by
    rw [hid]
    exact hlay.numbered.stop_fresh hlay.start_lt (by omega)
  have hidlt : id < idMax := by
    rw [hid, (hlay.numbered.id_eq hlay.start_lt).1]
    exact Nat.mod_lt _ (Nat.two_pow_pos 31)
  have hstart := hlay.laid.le
  have hpos := hlay.size_pos
  have hend : r.dataBufferEnd ≤ address := by
    rw [haddress]
    exact r.le_bufferEndReset hpos _
  have hround : address % r.dataBufferSize + (size + mdSize) ≤ r.dataBufferSize := by
    rw [haddress]
    exact r.bufferEndReset_round (by omega)
  have hmd : 0 < size + mdSize := Nat.add_pos_right _ (by decide)
  have hapart : ∀ c ∈ chunks, ¬ (address % r.dataBufferSize ≤ c.address % r.dataBufferSize ∧
      c.address % r.dataBufferSize < address % r.dataBufferSize + (size + mdSize)) := by
    intro c hc
    obtain ⟨place, hplace, haddr, -, hbefore⟩ := hlay.laid.place c hc
    rw [← haddr]
    exact disjoint_around hpos (hbefore.trans hend) (by omega) (hlay.sizes c hc)
  have hother : ∀ c ∈ chunks, c.address % r.dataBufferSize ≠ address % r.dataBufferSize ∧
      r'.memory (c.address % r.dataBufferSize) = r.memory (c.address % r.dataBufferSize) := by
    intro c hc
    have hne : c.address % r.dataBufferSize ≠ address % r.dataBufferSize := by
      intro heq
      exact hapart c hc ⟨by omega, by omega⟩
    rw [hr']
    exact ⟨hne, r.write_outside _ hne (hapart c hc)⟩
  have hself : r'.memory (address % r.dataBufferSize) = some ⟨id, size + mdSize, 0⟩ := by
    rw [hr']
    exact r.write_self _ _
  have hsize : r'.dataBufferSize = r.dataBufferSize := by rw [hr']
  refine ⟨?_, hfresh, hself, hsize, hother⟩
  refine ⟨?_, ?_, ?_, ?_, ?_, ?_, ?_, ?_, ?_⟩
  · rw [hsize]
    exact hpos
  · rw [hr']
    exact hid ▸ hlay.numbered.snoc rfl
  · rw [hr']
    exact hlay.start_lt
  · rw [List.length_append]
    exact hroom
  · rw [hr']
    exact hlay.laid.snoc hend hround
  · rw [hr']
    show address + (size + mdSize) ≤ r.dataBufferStart + r.dataBufferSize
    omega
  · intro c hc
    rcases List.mem_append.mp hc with hold | hnew
    · exact hlay.sizes c hold
    · rw [List.mem_singleton.mp hnew]
      exact hmd
  · intro i a
    rw [hr']
    show (r.metadata.set (id % idMax) address).get? i = some a ↔ _
    rw [Nat.mod_eq_of_lt hidlt, Dict.get?_set]
    by_cases hi : i = id
    · rw [if_pos hi]
      constructor
      · intro ha
        cases ha
        exact ⟨_, List.mem_append_right _ (List.mem_singleton_self _), hi.symm, rfl⟩
      · intro hc
        obtain ⟨c, hc, hcid, hca⟩ := hc
        rcases List.mem_append.mp hc with hold | hnew
        · exact absurd (hcid.trans hi) (hfresh c hold)
        · rw [List.mem_singleton.mp hnew] at hca
          exact congrArg some hca
    · rw [if_neg hi, hlay.metadata]
      constructor
      · intro hc
        obtain ⟨c, hc, hca⟩ := hc
        exact ⟨c, List.mem_append_left _ hc, hca⟩
      · intro hc
        obtain ⟨c, hc, hca⟩ := hc
        rcases List.mem_append.mp hc with hold | hnew
        · exact ⟨c, hold, hca⟩
        · rw [List.mem_singleton.mp hnew] at hca
          exact absurd hca.1.symm hi
  · intro c hc
    rw [hsize]
    rcases List.mem_append.mp hc with hold | hnew
    · rw [(hother c hold).2]
      exact hlay.memory c hold
    · rw [List.mem_singleton.mp hnew]
      exact ⟨0, hself⟩

theorem accessBuf_ok {address : Nat} {header : Header} (h : r.accessBuf address = .ok header) :
    r.memory (address % r.dataBufferSize) = some header := by
  unfold accessBuf at h
  split at h
  · rename_i header' hmemory
    cases h
    exact hmemory
  · cases h

/-! ## Freeing -/

theorem Layout.accessBuf (hlay : r.Layout chunks) (hc : c ∈ chunks) :
    ∃ n, r.accessBuf c.address = .ok ⟨c.id, c.size, n⟩ := by
  obtain ⟨n, hn⟩ := hlay.memory c hc
  refine ⟨n, ?_⟩
  unfold SingleWriterShmRingBuffer.accessBuf
  rw [hn]

/-- The first chunk leaves, and the others stay where they are. -/
theorem dropFirst_layout {cs : List Chunk} (hlay : r.Layout (c :: cs)) :
    r.dropFirst.Layout cs ∧ r.dropFirst.memory = r.memory ∧
      r.dropFirst.dataBufferSize = r.dataBufferSize ∧
      r.dropFirst.monotonicIdStart = (r.monotonicIdStart + 1) % idMax := by
  have hnodup := hlay.numbered.nodup hlay.start_lt hlay.length_lt.le
  rw [List.map_cons, List.nodup_cons] at hnodup
  obtain ⟨hid, hnumbered⟩ := hlay.numbered
  obtain ⟨place, hplace, haddr, hround, hlaid⟩ := hlay.laid
  have hlen := hlay.length_lt
  rw [List.length_cons] at hlen
  have hmetadata : ∀ id address, (r.metadata.erase r.monotonicIdStart).get? id = some address ↔
      ∃ d ∈ cs, d.id = id ∧ d.address = address := by
    intro id address
    rw [Dict.get?_erase]
    by_cases hi : id = r.monotonicIdStart
    · rw [if_pos hi]
      constructor
      · intro h
        cases h
      · intro h
        obtain ⟨d, hd, hdid, -⟩ := h
        exact absurd (hid.trans (hi.symm.trans hdid.symm) ▸ List.mem_map_of_mem hd) hnodup.1
    · rw [if_neg hi, hlay.metadata]
      constructor
      · intro h
        obtain ⟨d, hd, hdid, hda⟩ := h
        rcases List.mem_cons.mp hd with hfirst | hrest
        · rw [hfirst] at hdid
          exact absurd (hdid.symm.trans hid) hi
        · exact ⟨d, hrest, hdid, hda⟩
      · intro h
        obtain ⟨d, hd, hda⟩ := h
        exact ⟨d, List.mem_cons_of_mem _ hd, hda⟩
  -- what is left lies between the next chunk's place and the end
  obtain ⟨start, stop, hdrop, hrest, hfits⟩ : ∃ start stop, r.dropFirst = { r with
      metadata := r.metadata.erase r.monotonicIdStart
      monotonicIdStart := (r.monotonicIdStart + 1) % idMax
      dataBufferStart := start, dataBufferEnd := stop } ∧
      Laid r.dataBufferSize start cs stop ∧ stop ≤ start + r.dataBufferSize := by
    unfold dropFirst
    dsimp only
    cases cs with
    | nil =>
      have hnone : (r.metadata.erase r.monotonicIdStart).get? ((r.monotonicIdStart + 1) % idMax)
          = none := by
        rw [Option.eq_none_iff_forall_not_mem]
        intro address h
        obtain ⟨d, hd, -⟩ := (hmetadata _ _).mp h
        cases hd
      rw [hnone]
      exact ⟨0, 0, rfl, Nat.le_refl 0, by omega⟩
    | cons d ds =>
      obtain ⟨hdid, -⟩ := hnumbered
      rw [(hmetadata _ d.address).mpr ⟨d, List.mem_cons_self, hdid, rfl⟩]
      obtain ⟨next, hnext, hdaddr, hdround, hds⟩ := hlaid
      have hdsize := hlay.sizes d (List.mem_cons_of_mem _ List.mem_cons_self)
      have hend := hds.le
      have hfits := hlay.fits
      have hstart : r.dataBufferStart
          + (((d.address : Int) - r.dataBufferStart) % r.dataBufferSize).toNat = next := by
        have hmod : ((d.address : Int) - r.dataBufferStart) % r.dataBufferSize
            = ((next : Int) - r.dataBufferStart) % r.dataBufferSize := by
          have hdaddr' : (next : Int) % r.dataBufferSize
              = (d.address : Int) % r.dataBufferSize := by
            exact_mod_cast hdaddr
          rw [Int.sub_emod, ← hdaddr', ← Int.sub_emod]
        rw [hmod, Int.emod_eq_of_lt (by omega) (by omega)]
        omega
      refine ⟨next, r.dataBufferEnd, ?_, ⟨next, Nat.le_refl _, hdaddr, hdround, hds⟩, by omega⟩
      dsimp only
      rw [hstart]
  rw [hdrop]
  refine ⟨⟨hlay.size_pos, hnumbered, Nat.mod_lt _ (Nat.two_pow_pos 31), by omega, hrest, hfits, ?_,
    hmetadata, ?_⟩, rfl, rfl, rfl⟩
  · intro d hd
    exact hlay.sizes d (List.mem_cons_of_mem _ hd)
  · intro d hd
    exact hlay.memory d (List.mem_cons_of_mem _ hd)

/-- What freeing chunks from the first one on leaves, at whatever place it stops. -/
structure Freed (isFree : Nat → Header → Except Error Bool) (r r' : SingleWriterShmRingBuffer)
    (freed rest : List Chunk) : Prop where
  layout : r'.Layout rest
  memory : r'.memory = r.memory
  size : r'.dataBufferSize = r.dataBufferSize
  numbered : Numbered r.monotonicIdStart freed r'.monotonicIdStart
  passed : ∀ c ∈ freed, ∃ header, r.accessBuf c.address = .ok header ∧ isFree c.id header = .ok true

theorem Freed.none (hlay : r.Layout chunks) : Freed isFree r r [] chunks :=
  ⟨hlay, rfl, rfl, rfl, fun _ hc => absurd hc List.not_mem_nil⟩

theorem dropFirst_accessBuf {cs : List Chunk} (hlay : r.Layout (c :: cs)) (address : Nat) :
    r.dropFirst.accessBuf address = r.accessBuf address := by
  obtain ⟨-, hmemory, hsize, -⟩ := dropFirst_layout hlay
  unfold accessBuf
  rw [hmemory, hsize]

theorem Freed.cons {cs freed rest : List Chunk} (hlay : r.Layout (c :: cs)) {header : Header}
    (hheader : r.accessBuf c.address = .ok header) (hfree : isFree c.id header = .ok true)
    (h : Freed isFree r.dropFirst r' freed rest) : Freed isFree r r' (c :: freed) rest := by
  obtain ⟨-, hmemory, hsize, hstart⟩ := dropFirst_layout hlay
  refine ⟨h.layout, h.memory.trans hmemory, h.size.trans hsize, ⟨hlay.numbered.1, ?_⟩, ?_⟩
  · rw [← hstart]
    exact h.numbered
  · intro d hd
    rcases List.mem_cons.mp hd with hdc | hd
    · rw [hdc]
      exact ⟨header, hheader, hfree⟩
    · obtain ⟨header', hheader', hfree'⟩ := h.passed d hd
      rw [dropFirst_accessBuf hlay] at hheader'
      exact ⟨header', hheader', hfree'⟩

/-- The loop frees a first part of the chunks. -/
theorem freeLoop_freed {nbytes : Nat} :
    ∀ (fuel : Nat) {r : SingleWriterShmRingBuffer} {freedBytes : Nat} {chunks : List Chunk},
      r.Layout chunks →
      (∀ c ∈ chunks, ∀ header, r.accessBuf c.address = .ok header →
        ∃ free, isFree c.id header = .ok free) →
      ∃ r' freed rest, freeLoop isFree nbytes fuel r freedBytes = .ok r' ∧ chunks = freed ++ rest ∧
        Freed isFree r r' freed rest := by
  intro fuel
  induction fuel with
  | zero =>
    intro r freedBytes chunks hlay _
    exact ⟨r, [], chunks, rfl, rfl, .none hlay⟩
  | succ fuel ih =>
    intro r freedBytes chunks hlay hcheck
    unfold freeLoop
    cases haddress : r.metadata.get? r.monotonicIdStart with
    | none => exact ⟨r, [], chunks, rfl, rfl, .none hlay⟩
    | some address =>
      dsimp only
      by_cases hbytes : nbytes ≤ freedBytes
      · rw [if_pos hbytes]
        exact ⟨r, [], chunks, rfl, rfl, .none hlay⟩
      · rw [if_neg hbytes]
        -- the chunk of the first id is the first one
        obtain ⟨c, hc, hcid, hca⟩ := (hlay.metadata _ _).mp haddress
        cases chunks with
        | nil => cases hc
        | cons d ds =>
          have hnodup := hlay.numbered.nodup hlay.start_lt hlay.length_lt.le
          have hcd : c = d := List.inj_on_of_nodup_map hnodup hc List.mem_cons_self
            (hcid.trans hlay.numbered.1.symm)
          subst hcd
          obtain ⟨n, hheader⟩ := hlay.accessBuf hc
          obtain ⟨free, hfree⟩ := hcheck c hc _ hheader
          rw [← hca, hheader, Raises.ok_bind, ← hcid, hfree, Raises.ok_bind]
          cases free with
          | false => exact ⟨r, [], c :: ds, rfl, rfl, .none hlay⟩
          | true =>
            obtain ⟨r', freed, rest, hrun, hsplit, hfreed⟩ := ih (dropFirst_layout hlay).1
              (fun d hd header hheader' => hcheck d (List.mem_cons_of_mem _ hd) header
                ((dropFirst_accessBuf hlay _).symm.trans hheader'))
            exact ⟨r', c :: freed, rest, hrun, congrArg (c :: ·) hsplit,
              hfreed.cons hlay hheader hfree⟩

theorem Laid.shift : ∀ {chunks : List Chunk} {start stop : Nat}, size ≤ start →
    Laid size start chunks stop → Laid size (start - size) chunks (stop - size) := by
  intro chunks
  induction chunks with
  | nil =>
    intro start stop hround h
    exact Nat.sub_le_sub_right h size
  | cons c cs ih =>
    intro start stop hround h
    obtain ⟨place, hplace, haddr, hc, hrest⟩ := h
    have hmod : (place - size) % size = place % size := (Nat.mod_eq_sub_mod (by omega)).symm
    have hshift := ih (by omega) hrest
    rw [show place + c.size - size = place - size + c.size by omega] at hshift
    exact ⟨place - size, Nat.sub_le_sub_right hplace size, hmod.trans haddr, by omega, hshift⟩

/-- The freed chunks are the first ones, each passed the check, and the returned ids are
theirs. -/
theorem freeBuf_freed (isFree : Nat → Header → Except Error Bool) (hlay : r.Layout chunks)
    (nbytes : Nat)
    (hcheck : ∀ c ∈ chunks, ∀ header, r.accessBuf c.address = .ok header → ∃ free, isFree c.id header = .ok free) :
    ∃ r' freed rest, r.freeBuf isFree nbytes = .ok (freed.map (·.id), r') ∧ chunks = freed ++ rest ∧
      Freed isFree r r' freed rest := by
  obtain ⟨r', freed, rest, hloop, hsplit, hfreed⟩ :=
    freeLoop_freed r.metadata.size hlay hcheck
  have hlen : freed.length < idMax := by
    have hall := hlay.length_lt
    rw [hsplit, List.length_append] at hall
    omega
  unfold freeBuf
  rw [hloop, Raises.ok_bind]
  have hids := idRange_eq hlay.start_lt hlen hfreed.numbered
  by_cases hwrap : r'.dataBufferSize ≤ r'.dataBufferStart
  · rw [if_pos hwrap]
    refine ⟨_, freed, rest, congrArg (fun ids => Except.ok (ids, _)) hids, hsplit, ?_⟩
    have hrest := hfreed.layout
    have hfits := hrest.fits
    have hend := hrest.laid.le
    refine ⟨⟨hrest.size_pos, hrest.numbered, hrest.start_lt, hrest.length_lt,
      hrest.laid.shift hwrap, ?_, hrest.sizes, hrest.metadata, hrest.memory⟩, hfreed.memory,
      hfreed.size, hfreed.numbered, hfreed.passed⟩
    show r'.dataBufferEnd - r'.dataBufferSize
      ≤ r'.dataBufferStart - r'.dataBufferSize + r'.dataBufferSize
    omega
  · rw [if_neg hwrap]
    exact ⟨r', freed, rest, congrArg (fun ids => Except.ok (ids, _)) hids, hsplit, hfreed⟩

end SingleWriterShmRingBuffer

end VllmEngine.Distributed
