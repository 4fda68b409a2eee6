import VllmEngine.Distributed.ObjectRing

/-!
# The live chunks of the ring buffer in every run

Any calls of `allocate_buf` and `free_buf`, one after the other, also when they raise, with
the chunks that have been allocated and not been freed. In a buffer that has not the room for
`ID_MAX` chunks of the least size the chunks stay apart, and what is freed is a first part of
them. In a larger buffer the ids can come around to the first live one, and `free_buf` then
takes all for none (`ring_safe_iff`).
-/

namespace VllmEngine.Distributed

open Python

namespace SingleWriterShmRingBuffer

/-- `__init__` of the writer. -/
def init (dataBufferSize : Nat) : SingleWriterShmRingBuffer where
  dataBufferSize := dataBufferSize
  monotonicIdStart := 0
  monotonicIdEnd := 0
  dataBufferStart := 0
  dataBufferEnd := 0
  metadata := Dict.empty
  memory := fun _ => none

/-- What `allocate_buf` leaves when `int2byte` raises for the size: `data_buffer_end` is at
the start of the chunk, and the id is written there. -/
def afterOverflow (r : SingleWriterShmRingBuffer) (size : Nat) : SingleWriterShmRingBuffer :=
  let bufferEnd := r.bufferEndReset (size + mdSize)
  let bufIdx := bufferEnd % r.dataBufferSize
  { r with
    dataBufferEnd := bufferEnd
    memory := fun i => if bufIdx ≤ i ∧ i < bufIdx + 4 then none else r.memory i }

theorem Laid.mono {size : Nat} : ∀ {chunks : List Chunk} {start stop stop' : Nat},
    Laid size start chunks stop → stop ≤ stop' → Laid size start chunks stop' := by
  intro chunks
  induction chunks with
  | nil => intro start stop stop' h hle; exact Nat.le_trans h hle
  | cons c cs ih =>
    intro start stop stop' h hle
    obtain ⟨place, hplace, haddr, hround, hrest⟩ := h
    exact ⟨place, hplace, haddr, hround, ih hrest hle⟩

/-- Chunks that are laid out take their sizes. -/
theorem Laid.room {size : Nat} : ∀ {chunks : List Chunk} {start stop : Nat},
    Laid size start chunks stop → (∀ c ∈ chunks, mdSize < c.size) →
    start + 9 * chunks.length ≤ stop := by
  intro chunks
  induction chunks with
  | nil => intro start stop h _; exact h
  | cons c cs ih =>
    intro start stop h hsizes
    obtain ⟨place, hplace, -, -, hrest⟩ := h
    have hc : 8 < c.size := hsizes c List.mem_cons_self
    have hcs := ih hrest fun d hd => hsizes d (List.mem_cons_of_mem c hd)
    rw [List.length_cons]
    omega

/-- The bytes of a chunk. -/
def Chunk.Apart (size : Nat) (c d : Chunk) : Prop :=
  c.address % size + c.size ≤ d.address % size ∨ d.address % size + d.size ≤ c.address % size

/-- Chunks that are laid out in one round of the buffer do not overlap. -/
theorem Laid.apart {size : Nat} (hsize : 0 < size) : ∀ {chunks : List Chunk} {start stop : Nat},
    Laid size start chunks stop → stop ≤ start + size → (∀ c ∈ chunks, 0 < c.size) →
    chunks.Pairwise (Chunk.Apart size) := by
  intro chunks
  induction chunks with
  | nil => intro start stop _ _ _; exact List.Pairwise.nil
  | cons c cs ih =>
    intro start stop h hfits hsizes
    obtain ⟨place, hplace, haddr, hround, hrest⟩ := h
    have hpos := hsizes c List.mem_cons_self
    rw [List.pairwise_cons]
    refine ⟨fun d hd => ?_, ih hrest (by omega) fun d hd => hsizes d (List.mem_cons_of_mem c hd)⟩
    obtain ⟨place', hplace', haddr', hround', hstop'⟩ := hrest.place d hd
    have hdpos := hsizes d (List.mem_cons_of_mem c hd)
    unfold Chunk.Apart
    rw [← haddr, ← haddr']
    -- both ways round: neither begins inside the other
    have hfirst := disjoint_around hsize hplace' (by omega : place' + d.size ≤ place + size) hpos
    rcases Nat.lt_or_ge (place % size) (place' % size) with hlt | hge
    · left
      have hp := Nat.div_add_mod place size
      have hq := Nat.div_add_mod place' size
      rcases Nat.lt_trichotomy (place / size) (place' / size) with hd | heq | hgt
      · have hmul : size * (place / size + 1) ≤ size * (place' / size) :=
          Nat.mul_le_mul_left _ hd
        rw [Nat.mul_add] at hmul
        omega
      · rw [heq] at hp
        omega
      · have hmul : size * (place' / size + 1) ≤ size * (place / size) :=
          Nat.mul_le_mul_left _ hgt
        rw [Nat.mul_add] at hmul
        have hlt' := Nat.mod_lt place' hsize
        omega
    · right
      omega

/-- The overflow leaves the live chunks where they are. -/
theorem afterOverflow_layout {r : SingleWriterShmRingBuffer} {chunks : List Chunk} {size : Nat}
    (hlay : r.Layout chunks)
    (hroom : r.bufferEndReset (size + mdSize) + (size + mdSize) - r.dataBufferStart ≤
      r.dataBufferSize) : (r.afterOverflow size).Layout chunks := by
  have hend := r.le_bufferEndReset hlay.size_pos (size + mdSize)
  have hstart := hlay.laid.le
  have hmd : mdSize = 8 := rfl
  have hfits : r.bufferEndReset (size + mdSize) ≤ r.dataBufferStart + r.dataBufferSize := by omega
  refine ⟨hlay.size_pos, hlay.numbered, hlay.start_lt, hlay.length_lt, hlay.laid.mono hend, hfits,
    hlay.sizes, hlay.metadata, fun c hc => ?_⟩
  obtain ⟨n, hn⟩ := hlay.memory c hc
  refine ⟨n, ?_⟩
  obtain ⟨place, hplace, haddr, -, hbefore⟩ := hlay.laid.place c hc
  have hapart := disjoint_around hlay.size_pos (hbefore.trans hend)
    (by omega : r.bufferEndReset (size + mdSize) + 4 ≤ place + r.dataBufferSize)
    (hlay.sizes c hc)
  rw [haddr] at hapart
  show (if r.bufferEndReset (size + mdSize) % r.dataBufferSize ≤ c.address % r.dataBufferSize ∧
      c.address % r.dataBufferSize < r.bufferEndReset (size + mdSize) % r.dataBufferSize + 4
    then none else r.memory (c.address % r.dataBufferSize)) = some ⟨c.id, c.size, n⟩
  rw [if_neg hapart]
  exact hn

end SingleWriterShmRingBuffer

/-! ## Runs -/

open SingleWriterShmRingBuffer

/-- The ring buffer with the chunks that have been allocated and not been freed. -/
structure RingWorld where
  ring : SingleWriterShmRingBuffer
  chunks : List Chunk

inductive RingCall
  | allocate (size : Nat)
  | free (isFree : Nat → Header → Bool) (nbytes : Option Nat)

inductive RingReply
  | address (address id : Nat)
  | memoryError
  | raised
  | freed (ids : List Nat)
deriving DecidableEq, Repr

namespace RingWorld

def start (dataBufferSize : Nat) : RingWorld := ⟨SingleWriterShmRingBuffer.init dataBufferSize, []⟩

/-- One call. A chunk is live as long as its id and address are in `metadata`. -/
def call (w : RingWorld) : RingCall → RingWorld × RingReply
  | .allocate size =>
    if size = 0 then (w, .raised)
    else
      match w.ring.allocateBuf size with
      | .ok (some ((address, id), ring)) =>
        (⟨ring, w.chunks ++ [⟨id, address, size + mdSize⟩]⟩, .address address id)
      | .ok none => (w, .memoryError)
      | .error _ => (⟨w.ring.afterOverflow size, w.chunks⟩, .raised)
  | .free isFree nbytes =>
    match w.ring.freeBuf (fun id header => .ok (isFree id header))
        (nbytes.getD w.ring.dataBufferSize) with
    | .ok (ids, ring) =>
      (⟨ring, w.chunks.filter fun c => decide (ring.metadata.get? c.id = some c.address)⟩,
        .freed ids)
    | .error _ => (w, .raised)

/-- The live chunks lie in the buffer, none across its end, and do not overlap. -/
structure ChunksOk (dataBufferSize : Nat) (w : RingWorld) : Prop where
  inside : ∀ c ∈ w.chunks, c.address % dataBufferSize + c.size ≤ dataBufferSize
  apart : w.chunks.Pairwise (Chunk.Apart dataBufferSize)

/-- What a call answers: `MemoryError` changes nothing, and what is freed is a first part of
the live chunks, told by their ids. -/
def CallOk (w : RingWorld) (c : RingCall) : Prop :=
  match c, (w.call c).2 with
  | .allocate _, .memoryError => (w.call c).1 = w
  | .allocate size, .address address id =>
    (w.call c).1.chunks = w.chunks ++ [⟨id, address, size + mdSize⟩]
  | .free _ _, .freed ids => ∃ freed rest, w.chunks = freed ++ rest ∧
      (w.call c).1.chunks = rest ∧ ids = freed.map (·.id)
  | .free _ _, _ => False
  | _, _ => True

/-- The chunks are as they should be before every call and in the end, and so is every
answer. -/
def Safe (dataBufferSize : Nat) : RingWorld → List RingCall → Prop
  | w, [] => ChunksOk dataBufferSize w
  | w, c :: cs => ChunksOk dataBufferSize w ∧ CallOk w c ∧ Safe dataBufferSize (w.call c).1 cs

/-! ### A buffer with less room than `ID_MAX` chunks take -/

/-- The chunks are the live ones of the ring buffer, each with its header and some data. -/
structure Inv (dataBufferSize : Nat) (w : RingWorld) : Prop where
  size : w.ring.dataBufferSize = dataBufferSize
  layout : w.ring.Layout w.chunks
  sizes : ∀ c ∈ w.chunks, mdSize < c.size

variable {dataBufferSize : Nat} {w : RingWorld}

theorem inv_start (hpos : 0 < dataBufferSize) : Inv dataBufferSize (start dataBufferSize) := by
  refine ⟨rfl, ⟨hpos, rfl, Nat.two_pow_pos 31, Nat.two_pow_pos 31, Nat.le_refl 0, Nat.zero_le _,
    ?_, ?_, ?_⟩, ?_⟩
  · intro c hc
    cases hc
  · intro id address
    constructor
    · intro h
      cases h
    · intro h
      obtain ⟨c, hc, -⟩ := h
      cases hc
  · intro c hc
    cases hc
  · intro c hc
    cases hc

theorem Inv.chunksOk (h : Inv dataBufferSize w) : ChunksOk dataBufferSize w := by
  have hsizes : ∀ c ∈ w.chunks, 0 < c.size := fun c hc => Nat.zero_lt_of_lt (h.sizes c hc)
  rw [← h.size]
  constructor
  · intro c hc
    obtain ⟨place, -, haddr, hround, -⟩ := h.layout.laid.place c hc
    rw [← haddr]
    exact hround
  · exact h.layout.laid.apart h.layout.size_pos h.layout.fits hsizes

/-- A new chunk leaves an id between the last and the first live one. -/
theorem Inv.allocate {size address id : Nat} {ring : SingleWriterShmRingBuffer}
    (h : Inv dataBufferSize w) (hsmall : dataBufferSize < 9 * idMax) (hsize : 0 < size)
    (hok : w.ring.allocateBuf size = .ok (some ((address, id), ring))) :
    Inv dataBufferSize ⟨ring, w.chunks ++ [⟨id, address, size + mdSize⟩]⟩ := by
  obtain ⟨haddress, -, hfits, -⟩ := allocateBuf_ok hok
  have hend := w.ring.le_bufferEndReset h.layout.size_pos (size + mdSize)
  have hroom := h.layout.laid.room h.sizes
  have hmd : mdSize = 8 := rfl
  have hlen : w.chunks.length + 1 < idMax := by
    have hN := h.size
    omega
  obtain ⟨hlay, -, -, hring, -⟩ := allocateBuf_layout h.layout hlen hok
  refine ⟨hring.trans h.size, hlay, fun c hc => ?_⟩
  rcases List.mem_append.mp hc with hold | hnew
  · exact h.sizes c hold
  · rw [List.mem_singleton.mp hnew]
    exact Nat.lt_add_of_pos_left hsize

/-- `free_buf` takes a first part of the chunks, and returns their ids. -/
theorem Inv.free (h : Inv dataBufferSize w) (isFree : Nat → Header → Bool)
    (nbytes : Option Nat) :
    ∃ ring freed rest, w.ring.freeBuf (fun id header => .ok (isFree id header))
        (nbytes.getD w.ring.dataBufferSize) = .ok (freed.map (·.id), ring) ∧
      w.chunks = freed ++ rest ∧
      w.chunks.filter (fun c => decide (ring.metadata.get? c.id = some c.address)) = rest ∧
      Inv dataBufferSize ⟨ring, rest⟩ := by
  obtain ⟨ring, freed, rest, hrun, hsplit, hfreed⟩ :=
    freeBuf_freed (fun id header => .ok (isFree id header)) h.layout
      (nbytes.getD w.ring.dataBufferSize) (fun c _ header _ => ⟨isFree c.id header, rfl⟩)
  have hnodup := h.layout.numbered.nodup h.layout.start_lt h.layout.length_lt.le
  rw [hsplit, List.map_append, List.nodup_append] at hnodup
  have hgone : freed.filter (fun c => decide (ring.metadata.get? c.id = some c.address)) = [] := by
    rw [List.filter_eq_nil_iff]
    intro c hc hmem
    obtain ⟨d, hd, hdc, -⟩ := (hfreed.layout.metadata _ _).mp (of_decide_eq_true hmem)
    exact hnodup.2.2 _ (List.mem_map_of_mem hc) _ (List.mem_map_of_mem hd) hdc.symm
  have hkept : rest.filter (fun c => decide (ring.metadata.get? c.id = some c.address)) = rest := by
    rw [List.filter_eq_self]
    intro c hc
    exact decide_eq_true ((hfreed.layout.metadata _ _).mpr ⟨c, hc, rfl, rfl⟩)
  refine ⟨ring, freed, rest, hrun, hsplit, ?_, hfreed.size.trans h.size, hfreed.layout, ?_⟩
  · rw [hsplit, List.filter_append, hgone, hkept, List.nil_append]
  · intro c hc
    apply h.sizes
    rw [hsplit]
    exact List.mem_append_right _ hc

/-- The step lemma: an answer, and what the call leaves. -/
theorem Inv.call (h : Inv dataBufferSize w) (hsmall : dataBufferSize < 9 * idMax)
    (c : RingCall) : CallOk w c ∧ Inv dataBufferSize (w.call c).1 := by
  cases c with
  | allocate size =>
    have hcall : w.call (.allocate size) = if size = 0 then (w, .raised) else
        match w.ring.allocateBuf size with
        | .ok (some ((address, id), ring)) =>
          (⟨ring, w.chunks ++ [⟨id, address, size + mdSize⟩]⟩, .address address id)
        | .ok none => (w, .memoryError)
        | .error _ => (⟨w.ring.afterOverflow size, w.chunks⟩, .raised) := rfl
    unfold CallOk
    by_cases hsize : size = 0
    · rw [if_pos hsize] at hcall
      rw [hcall]
      exact ⟨trivial, h⟩
    · rw [if_neg hsize] at hcall
      cases hbuf : w.ring.allocateBuf size with
      | error e =>
        rw [hbuf] at hcall
        rw [hcall]
        refine ⟨trivial, h.size, afterOverflow_layout h.layout ?_, h.sizes⟩
        -- the size was only looked at when there was room for the chunk
        unfold allocateBuf at hbuf
        dsimp only at hbuf
        split at hbuf
        · cases hbuf
        · omega
      | ok result =>
        rw [hbuf] at hcall
        rw [hcall]
        cases result with
        | none => exact ⟨rfl, h⟩
        | some allocated =>
          obtain ⟨⟨address, id⟩, ring⟩ := allocated
          exact ⟨rfl, h.allocate hsmall (Nat.pos_of_ne_zero hsize) hbuf⟩
  | free isFree nbytes =>
    obtain ⟨ring, freed, rest, hrun, hsplit, hrest, hinv⟩ := h.free isFree nbytes
    have hcall : w.call (.free isFree nbytes) = (⟨ring, rest⟩, .freed (freed.map (·.id))) := by
      unfold RingWorld.call
      dsimp only
      rw [hrun]
      dsimp only
      rw [hrest]
    unfold CallOk
    rw [hcall]
    exact ⟨⟨freed, rest, hsplit, rfl, rfl⟩, hinv⟩

theorem Inv.safe (hsmall : dataBufferSize < 9 * idMax) : ∀ (calls : List RingCall)
    {w : RingWorld}, Inv dataBufferSize w → Safe dataBufferSize w calls := by
  intro calls
  induction calls with
  | nil => intro w h; exact h.chunksOk
  | cons c cs ih =>
    intro w h
    obtain ⟨hcall, hnext⟩ := h.call hsmall c
    exact ⟨h.chunksOk, hcall, ih hnext⟩

/-! ### A buffer with room for `ID_MAX` chunks -/

/-- The buffer after some allocations of one byte. -/
structure Filled (dataBufferSize count : Nat) (w : RingWorld) : Prop where
  size : w.ring.dataBufferSize = dataBufferSize
  idStart : w.ring.monotonicIdStart = 0
  idEnd : w.ring.monotonicIdEnd = count % idMax
  bufferStart : w.ring.dataBufferStart = 0
  bufferEnd : w.ring.dataBufferEnd = 9 * count
  metadata : ∀ i, w.ring.metadata.get? i = if i < count then some (9 * i) else none
  entries : w.ring.metadata.size = count
  memory : ∀ i < count, w.ring.memory (9 * i) = some ⟨i, 9, 0⟩
  chunks : w.chunks.length = count

theorem filled_start : Filled dataBufferSize 0 (start dataBufferSize) :=
  ⟨rfl, rfl, rfl, rfl, rfl, fun _ => rfl, rfl, fun i hi => absurd hi (Nat.not_lt_zero i), rfl⟩

theorem Filled.allocate {count : Nat} (h : Filled dataBufferSize count w)
    (hroom : 9 * (count + 1) ≤ dataBufferSize) (hcount : count < idMax) :
    Filled dataBufferSize (count + 1) (w.call (.allocate 1)).1 := by
  have hplace : w.ring.bufferEndReset (1 + mdSize) = 9 * count := by
    unfold bufferEndReset
    rw [h.size, h.bufferEnd, Nat.mod_eq_of_lt (by omega), if_neg]
    show ¬ dataBufferSize < 9 * count + 9
    omega
  have hid : w.ring.monotonicIdEnd = count := h.idEnd.trans (Nat.mod_eq_of_lt hcount)
  have hfresh : w.ring.metadata.get? count = none := by
    rw [h.metadata, if_neg (Nat.lt_irrefl count)]
  have hcall : w.ring.allocateBuf 1 = .ok (some ((9 * count, count), { w.ring with
      memory := w.ring.write (9 * count) ⟨count, 9, 0⟩
      metadata := w.ring.metadata.set count (9 * count)
      dataBufferEnd := 9 * count + 9
      monotonicIdEnd := (count + 1) % idMax })) := by
    unfold allocateBuf
    dsimp only
    rw [hplace, h.size, h.bufferStart, hid, Nat.mod_eq_of_lt hcount,
      Nat.mod_eq_of_lt (by omega : 9 * count < dataBufferSize), if_neg, if_neg]
    · rfl
    · exact Nat.not_le.mpr (by decide)
    · show ¬ dataBufferSize < 9 * count + 9 - 0
      omega
  unfold RingWorld.call
  dsimp only
  rw [if_neg Nat.one_ne_zero, hcall]
  refine ⟨h.size, h.idStart, rfl, h.bufferStart, (Nat.mul_add 9 count 1).symm, ?_, ?_, ?_, ?_⟩
  · intro i
    show (w.ring.metadata.set count (9 * count)).get? i = _
    rw [Dict.get?_set, h.metadata]
    rcases Nat.lt_trichotomy i count with hlt | heq | hgt
    · rw [if_neg (by omega), if_pos hlt, if_pos (by omega)]
    · rw [if_pos heq, if_pos (by omega), heq]
    · rw [if_neg (by omega), if_neg (by omega), if_neg (by omega)]
  · show (w.ring.metadata.set count (9 * count)).size = count + 1
    rw [Dict.size_set_of_none _ hfresh, h.entries]
  · intro i hi
    show w.ring.write (9 * count) ⟨count, 9, 0⟩ (9 * i) = _
    rcases Nat.lt_or_eq_of_le (Nat.le_of_lt_succ hi) with hlt | heq
    · rw [w.ring.write_outside _ (by omega) (by omega)]
      exact h.memory i hlt
    · rw [heq]
      exact w.ring.write_self _ _
  · rw [List.length_append, h.chunks]
    rfl

/-- The world after some calls. -/
def after (w : RingWorld) (calls : List RingCall) : RingWorld :=
  calls.foldl (fun w c => (w.call c).1) w

theorem filled_after (hlarge : 9 * idMax ≤ dataBufferSize) : ∀ count ≤ idMax,
    Filled dataBufferSize count
      ((start dataBufferSize).after (List.replicate count (.allocate 1))) := by
  intro count
  induction count with
  | zero => intro _; exact filled_start
  | succ count ih =>
    intro hcount
    have hlast : ((start dataBufferSize).after (List.replicate (count + 1) (.allocate 1)))
        = (((start dataBufferSize).after (List.replicate count (.allocate 1))).call
          (.allocate 1)).1 := by
      unfold after
      rw [List.replicate_succ', List.foldl_append]
      rfl
    rw [hlast]
    exact (ih (by omega)).allocate (by omega) hcount

/-- The chunks from the given one on are still there, in a run of `free_buf`. -/
structure Draining (dataBufferSize next : Nat) (r : SingleWriterShmRingBuffer) : Prop where
  size : r.dataBufferSize = dataBufferSize
  idStart : r.monotonicIdStart = next % idMax
  metadata : ∀ i, r.metadata.get? i = if next ≤ i ∧ i < idMax then some (9 * i) else none
  memory : ∀ i < idMax, r.memory (9 * i) = some ⟨i, 9, 0⟩

theorem Draining.dropFirst {next : Nat} {r : SingleWriterShmRingBuffer}
    (h : Draining dataBufferSize next r) (hnext : next < idMax) :
    Draining dataBufferSize (next + 1) r.dropFirst := by
  have hid : r.monotonicIdStart = next := h.idStart.trans (Nat.mod_eq_of_lt hnext)
  have hmetadata : ∀ i, (r.metadata.erase next).get? i
      = if next + 1 ≤ i ∧ i < idMax then some (9 * i) else none := by
    intro i
    rw [Dict.get?_erase, h.metadata]
    rcases Nat.lt_trichotomy i next with hlt | heq | hgt
    · rw [if_neg (by omega), if_neg (by omega), if_neg (by omega)]
    · rw [if_pos heq, if_neg (by omega)]
    · rw [if_neg (by omega)]
      by_cases hi : i < idMax
      · rw [if_pos ⟨by omega, hi⟩, if_pos ⟨hgt, hi⟩]
      · rw [if_neg (by omega), if_neg (by omega)]
  unfold SingleWriterShmRingBuffer.dropFirst
  dsimp only
  rw [hid]
  split
  · exact ⟨h.size, rfl, hmetadata, h.memory⟩
  · exact ⟨h.size, rfl, hmetadata, h.memory⟩

/-- Every chunk passes the check, so the loop takes them all, up to the first id again. -/
theorem Draining.freeLoop (hlarge : 9 * idMax ≤ dataBufferSize) : ∀ (fuel : Nat) {next : Nat}
    {r : SingleWriterShmRingBuffer}, Draining dataBufferSize next r → next + fuel = idMax →
    ∃ r', SingleWriterShmRingBuffer.freeLoop (fun _ _ => .ok true) dataBufferSize fuel r (9 * next)
      = .ok r' ∧ Draining dataBufferSize idMax r' := by
  intro fuel
  induction fuel with
  | zero =>
    intro next r h hnext
    exact ⟨r, rfl, hnext ▸ h⟩
  | succ fuel ih =>
    intro next r h hnext
    have hlt : next < idMax := by omega
    have haddress : r.metadata.get? r.monotonicIdStart = some (9 * next) := by
      rw [h.idStart, Nat.mod_eq_of_lt hlt, h.metadata, if_pos ⟨Nat.le_refl next, hlt⟩]
    have hheader : r.accessBuf (9 * next) = .ok ⟨next, 9, 0⟩ := by
      unfold accessBuf
      rw [h.size, Nat.mod_eq_of_lt (by omega), h.memory next hlt]
    obtain ⟨r', hrun, hdone⟩ := ih (h.dropFirst hlt) (by omega : next + 1 + fuel = idMax)
    refine ⟨r', ?_, hdone⟩
    rw [← hrun]
    rw [SingleWriterShmRingBuffer.freeLoop, haddress]
    dsimp only
    rw [if_neg (by omega), hheader]
    rfl

/-- With all the ids in use `free_buf` takes every chunk and returns no id. -/
theorem Filled.free_all (hlarge : 9 * idMax ≤ dataBufferSize)
    (h : Filled dataBufferSize idMax w) :
    (w.call (.free (fun _ _ => true) none)).1.chunks = [] ∧
      (w.call (.free (fun _ _ => true) none)).2 = .freed [] := by
  have hdraining : Draining dataBufferSize 0 w.ring := by
    refine ⟨h.size, h.idStart, fun i => ?_, h.memory⟩
    rw [h.metadata]
    by_cases hi : i < idMax
    · rw [if_pos hi, if_pos ⟨Nat.zero_le i, hi⟩]
    · rw [if_neg hi, if_neg (fun hboth => hi hboth.2)]
  obtain ⟨r', hloop, hdone⟩ := hdraining.freeLoop hlarge idMax (Nat.zero_add idMax)
  have hstart : r'.monotonicIdStart = 0 := hdone.idStart.trans (Nat.mod_self idMax)
  have hnone : ∀ i, r'.metadata.get? i = none := by
    intro i
    rw [hdone.metadata, if_neg (by omega)]
  obtain ⟨ring, hfree, hring⟩ : ∃ ring, w.ring.freeBuf (fun _ _ => .ok true) dataBufferSize
      = .ok ([], ring) ∧ ring.metadata = r'.metadata := by
    unfold freeBuf
    rw [h.entries, hloop, Raises.ok_bind, h.idStart]
    split
    · exact ⟨_, congrArg (fun ids => Except.ok (ids, _)) (congrArg (idRange 0) hstart), rfl⟩
    · exact ⟨_, congrArg (fun ids => Except.ok (ids, _)) (congrArg (idRange 0) hstart), rfl⟩
  unfold RingWorld.call
  dsimp only
  rw [Option.getD_none, h.size, hfree]
  refine ⟨?_, rfl⟩
  rw [List.filter_eq_nil_iff]
  intro c _ hc
  have hsome := of_decide_eq_true hc
  rw [hring, hnone] at hsome
  cases hsome

theorem Safe.last : ∀ (calls : List RingCall) {w : RingWorld} {c : RingCall},
    Safe dataBufferSize w (calls ++ [c]) → CallOk (w.after calls) c := by
  intro calls
  induction calls with
  | nil => intro w c h; exact h.2.1
  | cons d ds ih => intro w c h; exact ih h.2.2

/-- All the ids are in use, and then all the chunks are to be freed. -/
theorem Filled.not_safe {calls : List RingCall} (hlarge : 9 * idMax ≤ dataBufferSize)
    (hfilled : Filled dataBufferSize idMax (w.after calls)) :
    ¬ Safe dataBufferSize w (calls ++ [.free (fun _ _ => true) none]) := by
  intro h
  obtain ⟨hchunks, hreply⟩ := hfilled.free_all hlarge
  have hcall := h.last
  unfold CallOk at hcall
  rw [hreply] at hcall
  obtain ⟨freed, rest, hsplit, hrest, hids⟩ := hcall
  -- no id is returned, so that no chunk should have been freed
  have hfreed : freed = [] := List.map_eq_nil_iff.mp hids.symm
  rw [hchunks] at hrest
  rw [hfreed, ← hrest] at hsplit
  have hlen := hfilled.chunks
  rw [hsplit] at hlen
  exact absurd hlen (Nat.two_pow_pos 31).ne

/-- `ID_MAX` chunks of one byte, and then all of them are to be freed. -/
theorem not_safe (hlarge : 9 * idMax ≤ dataBufferSize) :
    ¬ Safe dataBufferSize (start dataBufferSize)
      (List.replicate idMax (.allocate 1) ++ [.free (fun _ _ => true) none]) :=
  (filled_after hlarge idMax (Nat.le_refl idMax)).not_safe hlarge

/-- The ring buffer keeps its chunks apart and frees them in order, in every run, exactly
when it has not the room for `ID_MAX` chunks of one byte. -/
theorem ring_safe_iff (dataBufferSize : Nat) (hpos : 0 < dataBufferSize) :
    (∀ calls, Safe dataBufferSize (start dataBufferSize) calls) ↔ dataBufferSize < 9 * 2 ^ 31 := by
  constructor
  · intro h
    by_contra hlarge
    exact not_safe (Nat.le_of_not_lt hlarge) (h _)
  · intro hsmall calls
    exact (inv_start hpos).safe hsmall calls

theorem ring_safe_iff_hundred :
    (∀ calls, Safe 100 (start 100) calls) ↔ 100 < 9 * 2 ^ 31 :=
  ring_safe_iff 100 (Nat.zero_lt_succ 99)

/-- A buffer of `9 * ID_MAX` bytes, with an object of one byte in each chunk. -/
theorem ring_ids_exhausted :
    ¬ Safe (9 * idMax) (start (9 * idMax))
      (List.replicate idMax (.allocate 1) ++ [.free (fun _ _ => true) none]) :=
  not_safe (Nat.le_refl _)

end RingWorld
end VllmEngine.Distributed
