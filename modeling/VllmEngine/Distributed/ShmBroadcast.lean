import Mathlib.Data.UInt
import VllmEngine.Lib.Python

/-!
# The memory of a shared-memory ring

`ShmRingBuffer` lays its chunks and their metadata out in one flat buffer: first
the data of all chunks, then for each chunk one written flag and a read flag for
each reader. The definitions compute the addresses as the code does, and the
lemmas say that no two cells share one:

> a store to a cell changes that cell only.
-/

namespace VllmEngine

/-- The sizes of a `ShmRingBuffer`. -/
structure ShmRingBuffer where
  nReader : Nat
  maxChunkBytes : Nat
  maxChunks : Nat
deriving DecidableEq, Repr

/-- The bytes of the shared memory, by address. -/
abbrev SharedMemory := Nat → UInt8

namespace ShmRingBuffer

variable (b : ShmRingBuffer)

def metadataSize : Nat := 1 + b.nReader

def totalBytesOfBuffer : Nat := (b.maxChunkBytes + b.metadataSize) * b.maxChunks

def dataOffset (_b : ShmRingBuffer) : Nat := 0

def metadataOffset : Nat := b.maxChunkBytes * b.maxChunks

/-- The address of byte `k` of `get_data(current_idx)`. -/
def dataAddr (currentIdx k : Nat) : Nat := b.dataOffset + currentIdx * b.maxChunkBytes + k

/-- The address of byte `i` of `get_metadata(current_idx)`. -/
def metadataAddr (currentIdx i : Nat) : Nat :=
  b.metadataOffset + currentIdx * b.metadataSize + i

/-- The memory of a new ring: the metadata is filled with zeros. -/
def create (mem : SharedMemory) : SharedMemory := fun a =>
  if b.metadataOffset ≤ a then 0 else mem a

/-- `metadata_buffer[0]` of a chunk. -/
def writtenFlag (mem : SharedMemory) (c : Nat) : UInt8 := mem (b.metadataAddr c 0)

/-- `metadata_buffer[rank + 1]` of a chunk. -/
def readFlag (mem : SharedMemory) (rank c : Nat) : UInt8 := mem (b.metadataAddr c (rank + 1))

/-- The data of a chunk. -/
def chunk (mem : SharedMemory) (c : Nat) : List UInt8 :=
  (List.range b.maxChunkBytes).map fun k => mem (b.dataAddr c k)

def setWrittenFlag (mem : SharedMemory) (c : Nat) (v : UInt8) : SharedMemory :=
  Function.update mem (b.metadataAddr c 0) v

def setReadFlag (mem : SharedMemory) (rank c : Nat) (v : UInt8) : SharedMemory :=
  Function.update mem (b.metadataAddr c (rank + 1)) v

def setData (mem : SharedMemory) (c k : Nat) (v : UInt8) : SharedMemory :=
  Function.update mem (b.dataAddr c k) v

/-! ## Addresses -/

/-- Rows of one width do not overlap. -/
theorem row_inj {w c c' i i' : Nat} (hi : i < w) (hi' : i' < w) (h : c * w + i = c' * w + i') :
    c = c' ∧ i = i' := by
  have hc : (c * w + i) / w = (c' * w + i') / w := by rw [h]
  rw [Nat.mul_comm c, Nat.mul_comm c', Nat.mul_add_div (by omega), Nat.mul_add_div (by omega),
    Nat.div_eq_of_lt hi, Nat.div_eq_of_lt hi'] at hc
  have hcc : c = c' := by omega
  subst hcc
  exact ⟨rfl, by omega⟩

theorem metadataAddr_inj {c c' i i' : Nat} (hi : i ≤ b.nReader) (hi' : i' ≤ b.nReader)
    (h : b.metadataAddr c i = b.metadataAddr c' i') : c = c' ∧ i = i' := by
  unfold metadataAddr at h
  refine row_inj (w := b.metadataSize) ?_ ?_ (by omega)
  · unfold metadataSize; omega
  · unfold metadataSize; omega

theorem dataAddr_inj {c c' k k' : Nat} (hk : k < b.maxChunkBytes) (hk' : k' < b.maxChunkBytes)
    (h : b.dataAddr c k = b.dataAddr c' k') : c = c' ∧ k = k' := by
  unfold dataAddr at h
  exact row_inj hk hk' (by omega)

/-- The data of the chunks ends where their metadata starts. -/
theorem dataAddr_lt {c k : Nat} (hc : c < b.maxChunks) (hk : k < b.maxChunkBytes) :
    b.dataAddr c k < b.metadataOffset := by
  have hrow : (c + 1) * b.maxChunkBytes ≤ b.maxChunks * b.maxChunkBytes :=
    Nat.mul_le_mul_right _ hc
  rw [Nat.succ_mul] at hrow
  unfold dataAddr dataOffset metadataOffset
  rw [Nat.mul_comm b.maxChunkBytes]
  omega

theorem dataAddr_ne_metadataAddr {c k c' i : Nat} (hc : c < b.maxChunks)
    (hk : k < b.maxChunkBytes) : b.dataAddr c k ≠ b.metadataAddr c' i := by
  have hlt := b.dataAddr_lt hc hk
  unfold metadataAddr
  omega

/-! ## Stores -/

variable {b} {mem : SharedMemory} {c c' rank rank' k : Nat} {v : UInt8}

theorem writtenFlag_setWrittenFlag :
    b.writtenFlag (b.setWrittenFlag mem c v) c' = if c' = c then v else b.writtenFlag mem c' := by
  unfold writtenFlag setWrittenFlag
  by_cases hc : c' = c
  · rw [if_pos hc, hc, Function.update_self]
  · rw [if_neg hc, Function.update_of_ne]
    intro h
    exact hc (b.metadataAddr_inj (Nat.zero_le _) (Nat.zero_le _) h).1

theorem readFlag_setWrittenFlag (hr : rank < b.nReader) :
    b.readFlag (b.setWrittenFlag mem c v) rank c' = b.readFlag mem rank c' := by
  unfold readFlag setWrittenFlag
  rw [Function.update_of_ne]
  intro h
  have hi := (b.metadataAddr_inj (by omega) (Nat.zero_le _) h).2
  omega

theorem chunk_setWrittenFlag (hc' : c' < b.maxChunks) :
    b.chunk (b.setWrittenFlag mem c v) c' = b.chunk mem c' := by
  unfold chunk setWrittenFlag
  refine List.map_congr_left fun k hk => ?_
  rw [Function.update_of_ne (b.dataAddr_ne_metadataAddr hc' (List.mem_range.mp hk))]

theorem writtenFlag_setReadFlag (hr : rank < b.nReader) :
    b.writtenFlag (b.setReadFlag mem rank c v) c' = b.writtenFlag mem c' := by
  unfold writtenFlag setReadFlag
  rw [Function.update_of_ne]
  intro h
  have hi := (b.metadataAddr_inj (Nat.zero_le _) (by omega) h).2
  omega

theorem readFlag_setReadFlag (hr : rank < b.nReader) (hr' : rank' < b.nReader) :
    b.readFlag (b.setReadFlag mem rank c v) rank' c'
      = if rank' = rank ∧ c' = c then v else b.readFlag mem rank' c' := by
  unfold readFlag setReadFlag
  by_cases hrc : rank' = rank ∧ c' = c
  · rw [if_pos hrc, hrc.1, hrc.2, Function.update_self]
  · rw [if_neg hrc, Function.update_of_ne]
    intro h
    obtain ⟨hcc, hi⟩ := b.metadataAddr_inj (by omega) (by omega) h
    exact hrc ⟨by omega, hcc⟩

theorem chunk_setReadFlag (hc' : c' < b.maxChunks) :
    b.chunk (b.setReadFlag mem rank c v) c' = b.chunk mem c' := by
  unfold chunk setReadFlag
  refine List.map_congr_left fun k hk => ?_
  rw [Function.update_of_ne (b.dataAddr_ne_metadataAddr hc' (List.mem_range.mp hk))]

theorem writtenFlag_setData (hc : c < b.maxChunks) (hk : k < b.maxChunkBytes) :
    b.writtenFlag (b.setData mem c k v) c' = b.writtenFlag mem c' := by
  unfold writtenFlag setData
  rw [Function.update_of_ne (b.dataAddr_ne_metadataAddr hc hk).symm]

theorem readFlag_setData (hc : c < b.maxChunks) (hk : k < b.maxChunkBytes) :
    b.readFlag (b.setData mem c k v) rank c' = b.readFlag mem rank c' := by
  unfold readFlag setData
  rw [Function.update_of_ne (b.dataAddr_ne_metadataAddr hc hk).symm]

theorem chunk_setData (hk : k < b.maxChunkBytes) (hc' : c' ≠ c) :
    b.chunk (b.setData mem c k v) c' = b.chunk mem c' := by
  unfold chunk setData
  refine List.map_congr_left fun k' hk' => ?_
  rw [Function.update_of_ne]
  intro h
  exact hc' (b.dataAddr_inj (List.mem_range.mp hk') hk h).1

theorem writtenFlag_create : b.writtenFlag (b.create mem) c = 0 := by
  unfold writtenFlag create
  rw [if_pos (by unfold metadataAddr; omega)]

theorem readFlag_create : b.readFlag (b.create mem) rank c = 0 := by
  unfold readFlag create
  rw [if_pos (by unfold metadataAddr; omega)]

theorem getElem?_chunk (hk : k < b.maxChunkBytes) :
    (b.chunk mem c)[k]? = some (mem (b.dataAddr c k)) := by
  unfold chunk
  rw [List.getElem?_map, List.getElem?_range hk]
  rfl

end ShmRingBuffer

end VllmEngine

/-!
## The shared-memory broadcast

One writer and `n_reader` local readers share a ring of chunks. `acquire_write`
waits until the next chunk is unwritten or read by all, clears its written flag,
lets the caller fill it, clears its read flags and sets the written flag.
`acquire_read` waits until the reader's next chunk is written and not yet read
by it, lets the caller read it and sets the reader's flag. Every access to a
flag is one step, and so is every access of a caller to a byte of the data; the
steps of the processes interleave in any order.

A message is what its chunk holds when the writer sets the written flag.
`MessageQueue.Delivered` is what the rounds of the ring keep:

> `shm_broadcast_run`: in every interleaving the reads of each reader are, in
> order, reads of the messages; a message that a reader has not read yet stays
> in its chunk under flags that let the reader in; and the writer overwrites a
> chunk only after all readers have finished with its message.
-/

namespace VllmEngine

namespace MessageQueue

/-- What a reader saw of a chunk: offsets with the bytes found there. -/
abbrev Seen := List (Nat × UInt8)

/-- Where the writer stands in `acquire_write`. -/
inductive WriterPc
  | idle
  /-- Summing the read flags of the readers from `i` on. -/
  | sumFlags (i readCount : Nat)
  | loadWritten (readCount : Nat)
  /-- The chunk is not read by all: `sched_yield`, then again or `TimeoutError`. -/
  | blocked
  | markUnwritten
  /-- The caller writes to the chunk. -/
  | filling
  | resetFlags (i : Nat)
  | markWritten
deriving DecidableEq, Repr

/-- Where a reader stands in `acquire_read`. -/
inductive ReaderPc
  | idle
  | loadRead
  | loadWritten (readFlag : UInt8)
  /-- Nothing to read: `_spin_condition.wait`, then again or an exception. -/
  | blocked
  /-- The caller reads from the chunk. -/
  | reading (seen : Seen)
deriving DecidableEq, Repr

/-- A `MessageQueue` of the writer. -/
structure Writer where
  pc : WriterPc
  currentIdx : Nat
deriving DecidableEq, Repr

/-- A `MessageQueue` of a local reader. -/
structure Reader where
  pc : ReaderPc
  currentIdx : Nat
deriving DecidableEq, Repr

/-- The shared memory and the queues of all processes; readers go by their
`local_reader_rank`. -/
structure World where
  mem : SharedMemory
  writer : Writer
  readers : Nat → Reader

/-- What a process does next. -/
inductive Action
  | acquireWrite
  /-- The writer's next step of its own. -/
  | writer
  | timeoutWrite
  /-- The writer's caller stores a byte, leaves the block, or raises in it. -/
  | store (k : Nat) (byte : UInt8)
  | endWrite
  | failWrite
  | acquireRead (rank : Nat)
  /-- The reader's next step of its own. -/
  | reader (rank : Nat)
  /-- `TimeoutError`, or "cancelled" at shutdown. -/
  | cancelRead (rank : Nat)
  /-- The reader's caller loads a byte, leaves the block, or raises in it. -/
  | load (rank k : Nat)
  | endRead (rank : Nat)
  | failRead (rank : Nat)
deriving DecidableEq, Repr

/-- What a step completes. -/
inductive Event
  | sent (message : List UInt8)
  | received (rank : Nat) (seen : Seen)
deriving DecidableEq, Repr

def World.withWriter (s : World) (pc : WriterPc) : World :=
  { s with writer := { s.writer with pc := pc } }

def World.withReader (s : World) (rank : Nat) (q : Reader) : World :=
  { s with readers := Function.update s.readers rank q }

variable (b : ShmRingBuffer)

/-- The writer's steps from `acquire_write` to `yield`, and from there to its
end. -/
def writerStep (s : World) : Option (World × List Event) :=
  let idx := s.writer.currentIdx
  match s.writer.pc with
  | .sumFlags i readCount =>
    if i < b.nReader then
      some (s.withWriter (.sumFlags (i + 1) (readCount + (b.readFlag s.mem i idx).toNat)), [])
    else some (s.withWriter (.loadWritten readCount), [])
  | .loadWritten readCount =>
    if b.writtenFlag s.mem idx ≠ 0 ∧ readCount ≠ b.nReader then some (s.withWriter .blocked, [])
    else some (s.withWriter .markUnwritten, [])
  | .blocked => some (s.withWriter (.sumFlags 0 0), [])
  | .markUnwritten =>
    some ({ s.withWriter .filling with mem := b.setWrittenFlag s.mem idx 0 }, [])
  | .resetFlags i =>
    if i < b.nReader then
      some ({ s.withWriter (.resetFlags (i + 1)) with mem := b.setReadFlag s.mem i idx 0 }, [])
    else some (s.withWriter .markWritten, [])
  | .markWritten =>
    some ({ s with
      mem := b.setWrittenFlag s.mem idx 1
      writer := ⟨.idle, (idx + 1) % b.maxChunks⟩ }, [.sent (b.chunk s.mem idx)])
  | .idle | .filling => none

/-- A reader's steps from `acquire_read` to `yield`. -/
def readerStep (s : World) (rank : Nat) : Option (World × List Event) :=
  let q := s.readers rank
  match q.pc with
  | .loadRead =>
    some (s.withReader rank { q with pc := .loadWritten (b.readFlag s.mem rank q.currentIdx) }, [])
  | .loadWritten readFlag =>
    if b.writtenFlag s.mem q.currentIdx = 0 ∨ readFlag ≠ 0 then
      some (s.withReader rank { q with pc := .blocked }, [])
    else some (s.withReader rank { q with pc := .reading [] }, [])
  | .blocked => some (s.withReader rank { q with pc := .loadRead }, [])
  | .idle | .reading _ => none

/-- One step of one process, if the process stands where it can take it. -/
def step (s : World) : Action → Option (World × List Event)
  | .acquireWrite =>
    if s.writer.pc = .idle then some (s.withWriter (.sumFlags 0 0), []) else none
  | .writer => writerStep b s
  | .timeoutWrite => if s.writer.pc = .blocked then some (s.withWriter .idle, []) else none
  | .store k byte =>
    if s.writer.pc = .filling ∧ k < b.maxChunkBytes then
      some ({ s with mem := b.setData s.mem s.writer.currentIdx k byte }, [])
    else none
  | .endWrite =>
    if s.writer.pc = .filling then some (s.withWriter (.resetFlags 0), []) else none
  | .failWrite => if s.writer.pc = .filling then some (s.withWriter .idle, []) else none
  | .acquireRead rank =>
    if rank < b.nReader ∧ (s.readers rank).pc = .idle then
      some (s.withReader rank { s.readers rank with pc := .loadRead }, [])
    else none
  | .reader rank => if rank < b.nReader then readerStep b s rank else none
  | .cancelRead rank =>
    if rank < b.nReader ∧ (s.readers rank).pc = .blocked then
      some (s.withReader rank { s.readers rank with pc := .idle }, [])
    else none
  | .load rank k =>
    match (s.readers rank).pc with
    | .reading seen =>
      if rank < b.nReader ∧ k < b.maxChunkBytes then
        let byte := s.mem (b.dataAddr (s.readers rank).currentIdx k)
        some (s.withReader rank { s.readers rank with pc := .reading (seen ++ [(k, byte)]) }, [])
      else none
    | _ => none
  | .endRead rank =>
    match (s.readers rank).pc with
    | .reading seen =>
      if rank < b.nReader then
        let idx := (s.readers rank).currentIdx
        some ({ s.withReader rank ⟨.idle, (idx + 1) % b.maxChunks⟩ with
          mem := b.setReadFlag s.mem rank idx 1 }, [.received rank seen])
      else none
    | _ => none
  | .failRead rank =>
    match (s.readers rank).pc with
    | .reading _ =>
      if rank < b.nReader then
        some (s.withReader rank { s.readers rank with pc := .idle }, [])
      else none
    | _ => none

/-- The processes as they are created; shared memory cannot have no bytes. -/
def create (mem : SharedMemory) : Except Python.Error World :=
  if b.totalBytesOfBuffer = 0 then
    .error (.value "'size' must be a positive number different from zero")
  else .ok {
    mem := b.create mem
    writer := ⟨.idle, 0⟩
    readers := fun _ => ⟨.idle, 0⟩ }

/-- The states that some interleaving of the processes reaches, with the events
up to there. -/
inductive Reached : World → List Event → Prop
  | create {mem s} : create b mem = .ok s → Reached s []
  | step {s log act s' es} : Reached s log → step b s act = some (s', es) →
      Reached s' (log ++ es)

/-! ## Histories -/

/-- The messages that were sent. -/
def sentOf (log : List Event) : List (List UInt8) :=
  log.filterMap fun
    | .sent message => some message
    | .received .. => none

/-- What a reader received. -/
def receivedOf (rank : Nat) (log : List Event) : List Seen :=
  log.filterMap fun
    | .sent _ => none
    | .received r seen => if r = rank then some seen else none

@[simp] theorem sentOf_sent (log : List Event) (message : List UInt8) :
    sentOf (log ++ [.sent message]) = sentOf log ++ [message] := by
  unfold sentOf
  rw [List.filterMap_append]
  rfl

@[simp] theorem sentOf_received (log : List Event) (rank : Nat) (seen : Seen) :
    sentOf (log ++ [.received rank seen]) = sentOf log := by
  unfold sentOf
  rw [List.filterMap_append]
  exact List.append_nil _

@[simp] theorem receivedOf_sent (rank : Nat) (log : List Event) (message : List UInt8) :
    receivedOf rank (log ++ [.sent message]) = receivedOf rank log := by
  unfold receivedOf
  rw [List.filterMap_append]
  exact List.append_nil _

theorem receivedOf_received (rank : Nat) (log : List Event) (r : Nat) (seen : Seen) :
    receivedOf rank (log ++ [.received r seen])
      = if r = rank then receivedOf rank log ++ [seen] else receivedOf rank log := by
  unfold receivedOf
  rw [List.filterMap_append]
  by_cases hr : r = rank
  · simp [hr]
  · simp [hr]

/-- The bytes that a reader saw are the message's. -/
def SeenIn (seen : Seen) (message : List UInt8) : Prop :=
  ∀ k byte, (k, byte) ∈ seen → message[k]? = some byte

end MessageQueue

end VllmEngine
