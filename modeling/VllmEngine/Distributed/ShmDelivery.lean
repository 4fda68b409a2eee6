import VllmEngine.Distributed.ShmBroadcast
import VllmEngine.Lib.Raises

/-!
# Delivery over the ring

The invariant counts messages: `sent` is what the writer has sent, `got r` how
many of them reader `r` has finished. Message `j` lives in chunk
`j % max_chunks`. While it is one of the last `max_chunks` messages and the
writer has not opened its chunk again, the chunk holds it, its written flag is
set, and the flag of each reader tells whether that reader has finished it.
`RingKept` says so of the memory, `WriterKept` and `ReaderKept` say what each
process knows at each point of its code. One lemma for each store shows what it
keeps.
-/

namespace VllmEngine

namespace MessageQueue

variable {b : ShmRingBuffer}

/-! ## Messages and chunks -/

/-- Of the last `m` messages no two share a chunk. -/
theorem chunk_inj {m i j w : Nat} (hi : i < w) (hiw : w ≤ i + m) (hj : j < w) (hjw : w ≤ j + m)
    (h : i % m = j % m) : i = j := by
  obtain hlt | rfl | hlt := Nat.lt_trichotomy i j
  · have hd : m ∣ j - i := (Nat.modEq_iff_dvd' (Nat.le_of_lt hlt)).mp h
    have := Nat.le_of_dvd (by omega) hd
    omega
  · rfl
  · have hd : m ∣ i - j := (Nat.modEq_iff_dvd' (Nat.le_of_lt hlt)).mp h.symm
    have := Nat.le_of_dvd (by omega) hd
    omega

/-- A message that shares its chunk with the next one is `m` messages old. -/
theorem chunk_next {m j w : Nat} (hj : j < w) (hjw : w ≤ j + m) (h : j % m = w % m) :
    w = j + m := by
  have hd : m ∣ w - j := (Nat.modEq_iff_dvd' (Nat.le_of_lt hj)).mp h
  have := Nat.le_of_dvd (by omega) hd
  omega

/-! ## Counting read flags -/

/-- `sum(metadata_buffer[1:])` over the first `i` readers. -/
def flagSum (b : ShmRingBuffer) (mem : SharedMemory) (c i : Nat) : Nat :=
  ((List.range i).map fun r => (b.readFlag mem r c).toNat).sum

theorem flagSum_succ {mem : SharedMemory} {c i : Nat} :
    flagSum b mem c (i + 1) = flagSum b mem c i + (b.readFlag mem i c).toNat := by
  unfold flagSum
  rw [List.range_succ, List.map_append, List.sum_append]
  rfl

theorem flagSum_mono {mem mem' : SharedMemory} {c : Nat} : ∀ {i : Nat},
    (∀ r < i, (b.readFlag mem r c).toNat ≤ (b.readFlag mem' r c).toNat) →
      flagSum b mem c i ≤ flagSum b mem' c i := by
  intro i
  induction i with
  | zero => intro _; exact Nat.le_refl _
  | succ i ih =>
    intro h
    have hinit := ih fun r hr => h r (by omega)
    have hlast := h i (Nat.lt_succ_self i)
    rw [flagSum_succ, flagSum_succ]
    omega

/-- Flags that are at most one and sum up to their number are all set. -/
theorem all_set_of_flagSum {mem : SharedMemory} {c : Nat} : ∀ {i : Nat},
    (∀ r < i, b.readFlag mem r c = 0 ∨ b.readFlag mem r c = 1) → 
      flagSum b mem c i ≤ i ∧
        (i ≤ flagSum b mem c i → ∀ r < i, b.readFlag mem r c = 1) := by
  intro i
  induction i with
  | zero => intro _; exact ⟨Nat.le_refl _, fun _ r hr => absurd hr (Nat.not_lt_zero r)⟩
  | succ i ih =>
    intro h
    obtain ⟨hle, hall⟩ := ih fun r hr => h r (by omega)
    rw [flagSum_succ]
    obtain hzero | hone := h i (Nat.lt_succ_self i)
    · have hz : (b.readFlag mem i c).toNat = 0 := by rw [hzero]; rfl
      exact ⟨by omega, fun hge => absurd hge (by omega)⟩
    · have ho : (b.readFlag mem i c).toNat = 1 := by rw [hone]; rfl
      refine ⟨by omega, fun hge r hr => ?_⟩
      obtain rfl | hlt := Nat.eq_or_lt_of_le (Nat.le_of_lt_succ hr)
      · exact hone
      · exact hall (by omega) r hlt

/-! ## The ring -/

/-- Message `j` is in its chunk, and the read flags tell who has finished it. -/
structure Holds (b : ShmRingBuffer) (mem : SharedMemory) (got : Nat → Nat) (j : Nat)
    (message : List UInt8) : Prop where
  written : b.writtenFlag mem (j % b.maxChunks) = 1
  data : b.chunk mem (j % b.maxChunks) = message
  flags : ∀ r < b.nReader, b.readFlag mem r (j % b.maxChunks) = 1 ↔ j < got r

/-- The memory after the messages `sent`, when reader `r` has finished the first
`got r` of them. -/
structure RingKept (b : ShmRingBuffer) (mem : SharedMemory) (sent : List (List UInt8))
    (got : Nat → Nat) : Prop where
  chunks : 0 < b.maxChunks
  notAhead : ∀ r < b.nReader, got r ≤ sent.length
  window : ∀ r < b.nReader, sent.length ≤ got r + b.maxChunks
  binary : ∀ r < b.nReader, ∀ c, b.readFlag mem r c = 0 ∨ b.readFlag mem r c = 1
  /-- Chunks that no message was written to are unwritten. -/
  fresh : ∀ c, sent.length ≤ c → c < b.maxChunks → b.writtenFlag mem c = 0
  /-- The next chunk is opened only when all readers have finished with it. -/
  opened : b.writtenFlag mem (sent.length % b.maxChunks) = 0 →
    ∀ r < b.nReader, sent.length < got r + b.maxChunks
  holds : ∀ j message, sent[j]? = some message → sent.length ≤ j + b.maxChunks →
    (sent.length = j + b.maxChunks → b.writtenFlag mem (j % b.maxChunks) ≠ 0) →
    Holds b mem got j message

variable {mem : SharedMemory} {sent : List (List UInt8)} {got : Nat → Nat} {pc : WriterPc}

/-- A message that some reader has not finished is in its chunk. -/
theorem RingKept.holds_next (h : RingKept b mem sent got) {r : Nat} (hr : r < b.nReader)
    {message : List UInt8} (hnext : sent[got r]? = some message) :
    Holds b mem got (got r) message := by
  refine h.holds (got r) message hnext (h.window r hr) fun hlen hzero => ?_
  have hchunk : sent.length % b.maxChunks = got r % b.maxChunks := by
    rw [hlen, Nat.add_mod_right]
  have hlt := h.opened (hchunk ▸ hzero) r hr
  omega

/-- Flags that let a reader in are those of its next message. -/
theorem RingKept.behind_of_flags (h : RingKept b mem sent got) {r : Nat} (hr : r < b.nReader)
    (hwritten : b.writtenFlag mem (got r % b.maxChunks) ≠ 0)
    (hread : b.readFlag mem r (got r % b.maxChunks) = 0) : got r < sent.length := by
  refine Nat.lt_of_le_of_ne (h.notAhead r hr) fun heq => ?_
  rw [heq] at hwritten hread
  by_cases hround : sent.length < b.maxChunks
  · rw [Nat.mod_eq_of_lt hround] at hwritten
    exact hwritten (h.fresh _ (Nat.le_refl _) hround)
  · -- the chunk's last message is a round old, and the reader has finished it
    have hwin := h.window r hr
    have hj : sent.length - b.maxChunks + b.maxChunks = sent.length := by omega
    have hchunk : (sent.length - b.maxChunks) % b.maxChunks = sent.length % b.maxChunks := by
      rw [← Nat.add_mod_right, hj]
    have hm := h.chunks
    have hlt : sent.length - b.maxChunks < sent.length := by omega
    have hholds := h.holds (sent.length - b.maxChunks) _ (List.getElem?_eq_getElem hlt)
      (by omega) fun _ => hchunk ▸ hwritten
    have hflag := (hholds.flags r hr).mpr (by omega)
    rw [hchunk, hread] at hflag
    exact absurd hflag (by decide)

/-- When the writer's check lets it pass, all readers have finished with the
chunk. -/
theorem RingKept.free_of_check (h : RingKept b mem sent got)
    (hcheck : b.writtenFlag mem (sent.length % b.maxChunks) = 0 ∨
      b.nReader ≤ flagSum b mem (sent.length % b.maxChunks) b.nReader) :
    ∀ r < b.nReader, sent.length < got r + b.maxChunks := by
  by_cases hzero : b.writtenFlag mem (sent.length % b.maxChunks) = 0
  · exact h.opened hzero
  · have hsum := hcheck.resolve_left hzero
    have hall := (all_set_of_flagSum fun r hr => h.binary r hr _).2 hsum
    intro r hr
    refine Nat.lt_of_le_of_ne (h.window r hr) fun heq => ?_
    -- otherwise the chunk holds the reader's next message, its flag unset
    have hchunk : sent.length % b.maxChunks = got r % b.maxChunks := by
      rw [heq, Nat.add_mod_right]
    have hm := h.chunks
    have hlt : got r < sent.length := by omega
    have hholds := h.holds_next hr (List.getElem?_eq_getElem hlt)
    have hread := (hholds.flags r hr).mp (hchunk ▸ hall r hr)
    omega

/-! ### Stores of the writer -/

theorem RingKept.markUnwritten (h : RingKept b mem sent got)
    (hfree : ∀ r < b.nReader, sent.length < got r + b.maxChunks) :
    RingKept b (b.setWrittenFlag mem (sent.length % b.maxChunks) 0) sent got where
  chunks := h.chunks
  notAhead := h.notAhead
  window := h.window
  binary := by
    intro r hr c
    rw [ShmRingBuffer.readFlag_setWrittenFlag hr]
    exact h.binary r hr c
  fresh := by
    intro c hc hcm
    rw [ShmRingBuffer.writtenFlag_setWrittenFlag]
    split
    · rfl
    · exact h.fresh c hc hcm
  opened := fun _ => hfree
  holds := by
    intro j message hj hjw hopen
    have hlt : j < sent.length := (List.getElem?_eq_some_iff.mp hj).1
    have hne : j % b.maxChunks ≠ sent.length % b.maxChunks := by
      intro hchunk
      have hround := hopen (chunk_next hlt hjw hchunk)
      rw [ShmRingBuffer.writtenFlag_setWrittenFlag, if_pos hchunk] at hround
      exact hround rfl
    have hold := h.holds j message hj hjw fun heq =>
      absurd (by rw [heq, Nat.add_mod_right] : j % b.maxChunks = sent.length % b.maxChunks) hne
    refine ⟨?_, ?_, fun r hr => ?_⟩
    · rw [ShmRingBuffer.writtenFlag_setWrittenFlag, if_neg hne]
      exact hold.written
    · rw [ShmRingBuffer.chunk_setWrittenFlag (Nat.mod_lt _ h.chunks)]
      exact hold.data
    · rw [ShmRingBuffer.readFlag_setWrittenFlag hr]
      exact hold.flags r hr

/-- While the chunk of the next message is open, no message is in it. -/
theorem Holds.not_open {j : Nat} {message : List UInt8} (hholds : Holds b mem got j message)
    (hopen : b.writtenFlag mem (sent.length % b.maxChunks) = 0) : j % b.maxChunks ≠ sent.length % b.maxChunks := by
  intro hchunk
  have hwritten := hholds.written
  rw [hchunk, hopen] at hwritten
  exact absurd hwritten (by decide)

theorem RingKept.setData (h : RingKept b mem sent got)
    (hopen : b.writtenFlag mem (sent.length % b.maxChunks) = 0) {k : Nat}
    (hk : k < b.maxChunkBytes) (byte : UInt8) :
    RingKept b (b.setData mem (sent.length % b.maxChunks) k byte) sent got := by
  have hc : sent.length % b.maxChunks < b.maxChunks := Nat.mod_lt _ h.chunks
  have hwritten : ∀ c, b.writtenFlag (b.setData mem (sent.length % b.maxChunks) k byte) c
      = b.writtenFlag mem c := fun c => ShmRingBuffer.writtenFlag_setData hc hk
  have hread : ∀ r c, b.readFlag (b.setData mem (sent.length % b.maxChunks) k byte) r c
      = b.readFlag mem r c := fun r c => ShmRingBuffer.readFlag_setData hc hk
  refine ⟨h.chunks, h.notAhead, h.window, fun r hr c => ?_, fun c hcw hcm => ?_, fun hz => ?_,
    fun j message hj hjw hround => ?_⟩
  · rw [hread]; exact h.binary r hr c
  · rw [hwritten]; exact h.fresh c hcw hcm
  · rw [hwritten] at hz; exact h.opened hz
  · have hold := h.holds j message hj hjw fun heq => hwritten _ ▸ hround heq
    refine ⟨?_, ?_, fun r hr => ?_⟩
    · rw [hwritten]; exact hold.written
    · rw [ShmRingBuffer.chunk_setData hk (hold.not_open hopen)]; exact hold.data
    · rw [hread]; exact hold.flags r hr

theorem RingKept.resetFlag (h : RingKept b mem sent got)
    (hopen : b.writtenFlag mem (sent.length % b.maxChunks) = 0) {i : Nat} (hi : i < b.nReader) :
    RingKept b (b.setReadFlag mem i (sent.length % b.maxChunks) 0) sent got := by
  have hwritten : ∀ c, b.writtenFlag (b.setReadFlag mem i (sent.length % b.maxChunks) 0) c
      = b.writtenFlag mem c := fun c => ShmRingBuffer.writtenFlag_setReadFlag hi
  refine ⟨h.chunks, h.notAhead, h.window, fun r hr c => ?_, fun c hcw hcm => ?_, fun hz => ?_,
    fun j message hj hjw hround => ?_⟩
  · rw [ShmRingBuffer.readFlag_setReadFlag hi hr]
    split
    · exact Or.inl rfl
    · exact h.binary r hr c
  · rw [hwritten]; exact h.fresh c hcw hcm
  · rw [hwritten] at hz; exact h.opened hz
  · have hold := h.holds j message hj hjw fun heq => hwritten _ ▸ hround heq
    have hne := hold.not_open hopen
    refine ⟨?_, ?_, fun r hr => ?_⟩
    · rw [hwritten]; exact hold.written
    · rw [ShmRingBuffer.chunk_setReadFlag (Nat.mod_lt _ h.chunks)]; exact hold.data
    · rw [ShmRingBuffer.readFlag_setReadFlag hi hr, if_neg fun heq => hne heq.2]
      exact hold.flags r hr

/-- Setting the written flag sends what the chunk holds. -/
theorem RingKept.send (h : RingKept b mem sent got)
    (hopen : b.writtenFlag mem (sent.length % b.maxChunks) = 0)
    (hreset : ∀ r < b.nReader, b.readFlag mem r (sent.length % b.maxChunks) = 0) :
    RingKept b (b.setWrittenFlag mem (sent.length % b.maxChunks) 1)
      (sent ++ [b.chunk mem (sent.length % b.maxChunks)]) got := by
  have hlen : (sent ++ [b.chunk mem (sent.length % b.maxChunks)]).length = sent.length + 1 :=
    List.length_append
  have hnew : b.writtenFlag (b.setWrittenFlag mem (sent.length % b.maxChunks) 1)
      (sent.length % b.maxChunks) = 1 := by
    rw [ShmRingBuffer.writtenFlag_setWrittenFlag, if_pos rfl]
  have hother : ∀ c, c ≠ sent.length % b.maxChunks →
      b.writtenFlag (b.setWrittenFlag mem (sent.length % b.maxChunks) 1) c
        = b.writtenFlag mem c := by
    intro c hc
    rw [ShmRingBuffer.writtenFlag_setWrittenFlag, if_neg hc]
  have hfree := h.opened hopen
  -- the older messages that are still in the window are in other chunks
  have holder : ∀ j message, sent[j]? = some message → sent.length + 1 ≤ j + b.maxChunks →
      Holds b mem got j message ∧ j % b.maxChunks ≠ sent.length % b.maxChunks := by
    intro j message hj hjw
    have hold := h.holds j message hj (by omega) fun heq => absurd heq (by omega)
    exact ⟨hold, hold.not_open hopen⟩
  refine ⟨h.chunks, fun r hr => ?_, fun r hr => ?_, fun r hr c => ?_, fun c hcw hcm => ?_,
    fun hz r hr => ?_, fun j message hj hjw _ => ?_⟩
  · rw [hlen]; exact Nat.le_succ_of_le (h.notAhead r hr)
  · rw [hlen]; exact hfree r hr
  · rw [ShmRingBuffer.readFlag_setWrittenFlag hr]; exact h.binary r hr c
  · rw [hlen] at hcw
    rw [hother]
    · exact h.fresh c (by omega) hcm
    · rw [Nat.mod_eq_of_lt (by omega)]; omega
  · rw [hlen] at hz ⊢
    by_cases hround : sent.length + 1 < b.maxChunks
    · exact Nat.lt_add_left _ hround
    · -- the next chunk was written a round ago and not opened since
      have hj : sent.length + 1 - b.maxChunks + b.maxChunks = sent.length + 1 := by omega
      have hchunk : (sent.length + 1 - b.maxChunks) % b.maxChunks
          = (sent.length + 1) % b.maxChunks := by
        rw [← Nat.add_mod_right, hj]
      obtain hlt | heq := Nat.lt_or_ge (sent.length + 1 - b.maxChunks) sent.length
      · obtain ⟨hold, hne⟩ := holder _ _ (List.getElem?_eq_getElem hlt) (by omega)
        rw [← hchunk, hother _ hne, hold.written] at hz
        exact absurd hz (by decide)
      · have hone : b.maxChunks = 1 := by have := h.chunks; omega
        have hzero : (sent.length + 1) % b.maxChunks = sent.length % b.maxChunks := by
          rw [hone, Nat.mod_one, Nat.mod_one]
        rw [hzero, hnew] at hz
        exact absurd hz (by decide)
  · rw [hlen] at hjw
    obtain hlt | hge := Nat.lt_or_ge j sent.length
    · rw [List.getElem?_append_left hlt] at hj
      obtain ⟨hold, hne⟩ := holder j message hj hjw
      refine ⟨?_, ?_, fun r hr => ?_⟩
      · rw [hother _ hne]; exact hold.written
      · rw [ShmRingBuffer.chunk_setWrittenFlag (Nat.mod_lt _ h.chunks)]; exact hold.data
      · rw [ShmRingBuffer.readFlag_setWrittenFlag hr]; exact hold.flags r hr
    · obtain rfl : j = sent.length := by
        have := (List.getElem?_eq_some_iff.mp hj).1
        omega
      rw [List.getElem?_append_right (Nat.le_refl _), Nat.sub_self] at hj
      obtain rfl := Option.some.inj hj
      refine ⟨hnew, ShmRingBuffer.chunk_setWrittenFlag (Nat.mod_lt _ h.chunks), fun r hr => ?_⟩
      rw [ShmRingBuffer.readFlag_setWrittenFlag hr, hreset r hr]
      have := h.notAhead r hr
      exact ⟨fun hf => absurd hf (by decide), fun hlt => absurd hlt (by omega)⟩

/-! ### The store of a reader -/

/-- A reader's flag says that it has finished one more message. -/
theorem RingKept.markRead (h : RingKept b mem sent got) {r : Nat} (hr : r < b.nReader)
    (hnext : got r < sent.length) :
    RingKept b (b.setReadFlag mem r (got r % b.maxChunks) 1) sent
      (Function.update got r (got r + 1)) := by
  have hwritten : ∀ c, b.writtenFlag (b.setReadFlag mem r (got r % b.maxChunks) 1) c
      = b.writtenFlag mem c := fun c => ShmRingBuffer.writtenFlag_setReadFlag hr
  have hgot : ∀ r', got r' ≤ Function.update got r (got r + 1) r' := by
    intro r'
    by_cases hrr : r' = r
    · rw [hrr, Function.update_self]; omega
    · rw [Function.update_of_ne hrr]
  refine ⟨h.chunks, fun r' hr' => ?_, fun r' hr' => ?_, fun r' hr' c => ?_, fun c hcw hcm => ?_,
    fun hz r' hr' => ?_, fun j message hj hjw hround => ?_⟩
  · by_cases hrr : r' = r
    · rw [hrr, Function.update_self]; exact hnext
    · rw [Function.update_of_ne hrr]; exact h.notAhead r' hr'
  · have := h.window r' hr'
    have := hgot r'
    omega
  · rw [ShmRingBuffer.readFlag_setReadFlag hr hr']
    split
    · exact Or.inr rfl
    · exact h.binary r' hr' c
  · rw [hwritten]; exact h.fresh c hcw hcm
  · rw [hwritten] at hz
    have := h.opened hz r' hr'
    have := hgot r'
    omega
  · have hold := h.holds j message hj hjw fun heq => hwritten _ ▸ hround heq
    refine ⟨?_, ?_, fun r' hr' => ?_⟩
    · rw [hwritten]; exact hold.written
    · rw [ShmRingBuffer.chunk_setReadFlag (Nat.mod_lt _ h.chunks)]; exact hold.data
    · have hlt : j < sent.length := (List.getElem?_eq_some_iff.mp hj).1
      rw [ShmRingBuffer.readFlag_setReadFlag hr hr']
      by_cases hrr : r' = r
      · subst hrr
        rw [Function.update_self]
        by_cases hjr : j = got r'
        · rw [if_pos ⟨rfl, by rw [hjr]⟩, hjr]
          exact ⟨fun _ => Nat.lt_succ_self _, fun _ => rfl⟩
        · have hne : j % b.maxChunks ≠ got r' % b.maxChunks := fun hchunk =>
            hjr (chunk_inj hlt hjw hnext (h.window r' hr) hchunk)
          rw [if_neg fun heq => hne heq.2, hold.flags r' hr']
          exact ⟨fun hlt => by omega, fun hlt => by omega⟩
      · rw [if_neg fun heq => hrr heq.1, Function.update_of_ne hrr]
        exact hold.flags r' hr'

theorem RingKept.create (hm : 0 < b.maxChunks) (mem : SharedMemory) :
    RingKept b (b.create mem) [] fun _ => 0 where
  chunks := hm
  notAhead := fun _ _ => Nat.le_refl _
  window := fun _ _ => Nat.zero_le _
  binary := fun _ _ _ => Or.inl ShmRingBuffer.readFlag_create
  fresh := fun _ _ _ => ShmRingBuffer.writtenFlag_create
  opened := fun _ _ _ => Nat.lt_add_left 0 hm
  holds := fun _ _ hj => (nomatch hj)

/-! ## The processes -/

/-- What the writer knows at each point of `acquire_write`, about the chunk of
the next message. -/
def WriterKept (b : ShmRingBuffer) (mem : SharedMemory) (sent : List (List UInt8))
    (got : Nat → Nat) : WriterPc → Prop
  | .idle | .blocked => True
  | .sumFlags i readCount =>
    i ≤ b.nReader ∧ readCount ≤ flagSum b mem (sent.length % b.maxChunks) i
  | .loadWritten readCount =>
    readCount ≤ flagSum b mem (sent.length % b.maxChunks) b.nReader
  | .markUnwritten => ∀ r < b.nReader, sent.length < got r + b.maxChunks
  | .filling => b.writtenFlag mem (sent.length % b.maxChunks) = 0
  | .resetFlags i => i ≤ b.nReader ∧ b.writtenFlag mem (sent.length % b.maxChunks) = 0 ∧
      ∀ r < i, b.readFlag mem r (sent.length % b.maxChunks) = 0
  | .markWritten => b.writtenFlag mem (sent.length % b.maxChunks) = 0 ∧
      ∀ r < b.nReader, b.readFlag mem r (sent.length % b.maxChunks) = 0

/-- What reader `r` knows at each point of `acquire_read`. -/
def ReaderKept (b : ShmRingBuffer) (mem : SharedMemory) (sent : List (List UInt8)) (r next : Nat) :
    ReaderPc → Prop
  | .idle | .loadRead | .blocked => True
  | .loadWritten readFlag =>
    readFlag = 0 → b.readFlag mem r (next % b.maxChunks) = 0
  | .reading seen => ∃ message, sent[next]? = some message ∧ SeenIn seen message

/-- **The writer's knowledge** survives a reader's store. -/
theorem WriterKept.markRead (h : WriterKept b mem sent got pc)
    (hring : RingKept b mem sent got) {r : Nat} (hr : r < b.nReader) (hnext : got r < sent.length) :
    WriterKept b (b.setReadFlag mem r (got r % b.maxChunks) 1) sent
      (Function.update got r (got r + 1)) pc := by
  have hwritten : ∀ c, b.writtenFlag (b.setReadFlag mem r (got r % b.maxChunks) 1) c
      = b.writtenFlag mem c := fun c => ShmRingBuffer.writtenFlag_setReadFlag hr
  have hsum : ∀ c i, i ≤ b.nReader →
      flagSum b mem c i ≤ flagSum b (b.setReadFlag mem r (got r % b.maxChunks) 1) c i := by
    intro c i hi
    refine flagSum_mono fun r' hr' => ?_
    rw [ShmRingBuffer.readFlag_setReadFlag hr (by omega)]
    split
    · obtain hz | ho := hring.binary r' (by omega) c
      · rw [hz]; decide
      · rw [ho]
    · exact Nat.le_refl _
  -- an open chunk is not the one the reader has just finished
  have hflags : b.writtenFlag mem (sent.length % b.maxChunks) = 0 → ∀ r' < b.nReader,
      b.readFlag (b.setReadFlag mem r (got r % b.maxChunks) 1) r' (sent.length % b.maxChunks)
        = b.readFlag mem r' (sent.length % b.maxChunks) := by
    intro hopen r' hr'
    have hold := hring.holds_next hr (List.getElem?_eq_getElem hnext)
    have hne := hold.not_open hopen
    rw [ShmRingBuffer.readFlag_setReadFlag hr hr', if_neg fun heq => hne heq.2.symm]
  cases pc with
  | idle | blocked => trivial
  | sumFlags i readCount => exact ⟨h.1, Nat.le_trans h.2 (hsum _ i h.1)⟩
  | loadWritten readCount => exact Nat.le_trans h (hsum _ _ (Nat.le_refl _))
  | markUnwritten =>
    intro r' hr'
    have hlt := h r' hr'
    by_cases hrr : r' = r
    · rw [hrr] at hlt ⊢
      rw [Function.update_self]
      omega
    · rw [Function.update_of_ne hrr]
      exact hlt
  | filling => exact (hwritten _).trans h
  | resetFlags i =>
    exact ⟨h.1, (hwritten _).trans h.2.1, fun r' hr' =>
      (hflags h.2.1 r' (Nat.lt_of_lt_of_le hr' h.1)).trans (h.2.2 r' hr')⟩
  | markWritten =>
    exact ⟨(hwritten _).trans h.1, fun r' hr' => (hflags h.1 r' hr').trans (h.2 r' hr')⟩

/-- A reader's knowledge survives stores that set none of its flags and lose no
message. -/
theorem ReaderKept.mono {mem' : SharedMemory} {sent' : List (List UInt8)} {r next : Nat}
    {pc : ReaderPc} (h : ReaderKept b mem sent r next pc)
    (hread : ∀ c, b.readFlag mem r c = 0 → b.readFlag mem' r c = 0)
    (hsent : ∀ message, sent[next]? = some message → sent'[next]? = some message) :
    ReaderKept b mem' sent' r next pc := by
  cases pc with
  | idle | loadRead | blocked => trivial
  | loadWritten readFlag => exact fun hz => hread _ (h hz)
  | reading seen =>
    obtain ⟨message, hm, hseen⟩ := h
    exact ⟨message, hsent message hm, hseen⟩

/-- How many messages a reader has received. -/
def gotOf (log : List Event) (rank : Nat) : Nat := (receivedOf rank log).length

/-- What every interleaving keeps. -/
structure World.Kept (b : ShmRingBuffer) (s : World) (log : List Event) : Prop where
  ring : RingKept b s.mem (sentOf log) (gotOf log)
  writerIdx : s.writer.currentIdx = (sentOf log).length % b.maxChunks
  readerIdx : ∀ r < b.nReader, (s.readers r).currentIdx = gotOf log r % b.maxChunks
  writer : WriterKept b s.mem (sentOf log) (gotOf log) s.writer.pc
  reader : ∀ r < b.nReader, ReaderKept b s.mem (sentOf log) r (gotOf log r) (s.readers r).pc
  inOrder : ∀ r < b.nReader, ∀ (j : Nat) (seen : Seen), (receivedOf r log)[j]? = some seen →
    ∃ message : List UInt8, (sentOf log)[j]? = some message ∧ SeenIn seen message

variable {s s' : World} {log : List Event}

/-- A step of the writer that sends nothing. -/
theorem World.Kept.writerMoves (h : World.Kept b s log) {mem' : SharedMemory} {pc' : WriterPc}
    (hring : RingKept b mem' (sentOf log) (gotOf log))
    (hwriter : WriterKept b mem' (sentOf log) (gotOf log) pc')
    (hread : ∀ r < b.nReader, ∀ c, b.readFlag s.mem r c = 0 → b.readFlag mem' r c = 0) :
    World.Kept b { s.withWriter pc' with mem := mem' } log :=
  ⟨hring, h.writerIdx, h.readerIdx, hwriter,
    fun r hr => (h.reader r hr).mono (hread r hr) fun _ hm => hm, h.inOrder⟩

/-- A step of the writer that stores nothing. -/
theorem World.Kept.writerTurns (h : World.Kept b s log) {pc' : WriterPc}
    (hwriter : WriterKept b s.mem (sentOf log) (gotOf log) pc') :
    World.Kept b (s.withWriter pc') log :=
  h.writerMoves h.ring hwriter fun _ _ _ hz => hz

/-- A step of a reader that stores nothing. -/
theorem World.Kept.readerTurns (h : World.Kept b s log) {rank : Nat} {pc' : ReaderPc}
    (hreader : rank < b.nReader → ReaderKept b s.mem (sentOf log) rank (gotOf log rank) pc') :
    World.Kept b (s.withReader rank { s.readers rank with pc := pc' }) log := by
  refine ⟨h.ring, h.writerIdx, fun r hr => ?_, h.writer, fun r hr => ?_, h.inOrder⟩
  · show (Function.update s.readers rank _ r).currentIdx = _
    by_cases hrr : r = rank
    · subst hrr
      rw [Function.update_self]
      exact h.readerIdx r hr
    · rw [Function.update_of_ne hrr]
      exact h.readerIdx r hr
  · show ReaderKept b _ _ _ _ (Function.update s.readers rank _ r).pc
    by_cases hrr : r = rank
    · subst hrr
      rw [Function.update_self]
      exact hreader hr
    · rw [Function.update_of_ne hrr]
      exact h.reader r hr

/-- Setting the written flag ends `acquire_write`. -/
theorem World.Kept.sends (h : World.Kept b s log) (hpc : s.writer.pc = .markWritten) :
    World.Kept b
      { s with
        mem := b.setWrittenFlag s.mem s.writer.currentIdx 1
        writer := ⟨.idle, (s.writer.currentIdx + 1) % b.maxChunks⟩ }
      (log ++ [.sent (b.chunk s.mem s.writer.currentIdx)]) := by
  have hw := h.writer
  rw [hpc] at hw
  have hgot : gotOf (log ++ [.sent (b.chunk s.mem s.writer.currentIdx)]) = gotOf log := by
    funext r
    unfold gotOf
    rw [receivedOf_sent]
  have hkeep : ∀ (message : List UInt8) (j : Nat), (sentOf log)[j]? = some message →
      (sentOf log ++ [b.chunk s.mem s.writer.currentIdx])[j]? = some message := by
    intro message j hj
    rw [List.getElem?_append_left (List.getElem?_eq_some_iff.mp hj).1]
    exact hj
  refine ⟨?_, ?_, fun r hr => ?_, trivial, fun r hr => ?_, fun r hr j seen hj => ?_⟩
  · rw [hgot, sentOf_sent, h.writerIdx]
    exact h.ring.send hw.1 hw.2
  · rw [sentOf_sent, List.length_append, h.writerIdx]
    exact Nat.mod_add_mod _ _ _
  · rw [hgot]
    exact h.readerIdx r hr
  · rw [hgot, sentOf_sent]
    refine (h.reader r hr).mono (fun c hz => ?_) fun message hm => hkeep message _ hm
    exact (ShmRingBuffer.readFlag_setWrittenFlag hr).trans hz
  · rw [receivedOf_sent] at hj
    rw [sentOf_sent]
    obtain ⟨message, hm, hseen⟩ := h.inOrder r hr j seen hj
    exact ⟨message, hkeep message j hm, hseen⟩

/-- A step of the writer's own keeps the invariant. -/
theorem World.Kept.writerStep {es : List Event} (h : World.Kept b s log)
    (hstep : writerStep b s = some (s', es)) : World.Kept b s' (log ++ es) := by
  have hw := h.writer
  unfold MessageQueue.writerStep at hstep
  rw [h.writerIdx] at hstep
  cases hpc : s.writer.pc with
  | idle | filling => simp only [hpc] at hstep; cases hstep
  | sumFlags i readCount =>
    rw [hpc] at hw
    simp only [hpc] at hstep
    split at hstep
    · rename_i hi
      obtain ⟨rfl, rfl⟩ := Prod.mk.inj (Option.some.inj hstep)
      rw [List.append_nil]
      refine h.writerTurns ⟨hi, ?_⟩
      rw [flagSum_succ]
      exact Nat.add_le_add_right hw.2 _
    · rename_i hi
      obtain ⟨rfl, rfl⟩ := Prod.mk.inj (Option.some.inj hstep)
      rw [List.append_nil]
      obtain rfl : i = b.nReader := Nat.le_antisymm hw.1 (Nat.le_of_not_lt hi)
      exact h.writerTurns hw.2
  | loadWritten readCount =>
    rw [hpc] at hw
    simp only [hpc] at hstep
    split at hstep
    · obtain ⟨rfl, rfl⟩ := Prod.mk.inj (Option.some.inj hstep)
      rw [List.append_nil]
      exact h.writerTurns trivial
    · rename_i hcheck
      obtain ⟨rfl, rfl⟩ := Prod.mk.inj (Option.some.inj hstep)
      rw [List.append_nil]
      refine h.writerTurns (h.ring.free_of_check ?_)
      by_cases hz : b.writtenFlag s.mem ((sentOf log).length % b.maxChunks) = 0
      · exact Or.inl hz
      · have hcount : readCount = b.nReader := by
          by_contra hne
          exact hcheck ⟨hz, hne⟩
        exact Or.inr (Nat.le_trans (Nat.le_of_eq hcount.symm) hw)
  | blocked =>
    simp only [hpc] at hstep
    obtain ⟨rfl, rfl⟩ := Prod.mk.inj (Option.some.inj hstep)
    rw [List.append_nil]
    exact h.writerTurns ⟨Nat.zero_le _, Nat.zero_le _⟩
  | markUnwritten =>
    rw [hpc] at hw
    simp only [hpc] at hstep
    obtain ⟨rfl, rfl⟩ := Prod.mk.inj (Option.some.inj hstep)
    rw [List.append_nil]
    refine h.writerMoves (h.ring.markUnwritten hw) ?_ fun r hr c hz =>
      (ShmRingBuffer.readFlag_setWrittenFlag hr).trans hz
    show b.writtenFlag _ _ = 0
    rw [ShmRingBuffer.writtenFlag_setWrittenFlag, if_pos rfl]
  | resetFlags i =>
    rw [hpc] at hw
    obtain ⟨hi, hopen, hreset⟩ := hw
    simp only [hpc] at hstep
    split at hstep
    · rename_i hlt
      obtain ⟨rfl, rfl⟩ := Prod.mk.inj (Option.some.inj hstep)
      rw [List.append_nil]
      refine h.writerMoves (h.ring.resetFlag hopen hlt) ⟨hlt, ?_, fun r hr => ?_⟩
        fun r hr c hz => ?_
      · rw [ShmRingBuffer.writtenFlag_setReadFlag hlt]
        exact hopen
      · rw [ShmRingBuffer.readFlag_setReadFlag hlt (by omega)]
        split
        · rfl
        · rename_i hne
          exact hreset r (Nat.lt_of_le_of_ne (Nat.le_of_lt_succ hr) fun heq => hne ⟨heq, rfl⟩)
      · rw [ShmRingBuffer.readFlag_setReadFlag hlt hr]
        split
        · rfl
        · exact hz
    · rename_i hlt
      obtain ⟨rfl, rfl⟩ := Prod.mk.inj (Option.some.inj hstep)
      rw [List.append_nil]
      exact h.writerTurns ⟨hopen, fun r hr => hreset r (by omega)⟩
  | markWritten =>
    simp only [hpc] at hstep
    rw [← h.writerIdx] at hstep
    obtain ⟨rfl, rfl⟩ := Prod.mk.inj (Option.some.inj hstep)
    exact h.sends hpc

/-- A step of a reader's own keeps the invariant: the flags it has seen stay as
they are until its own store. -/
theorem World.Kept.readerStep {es : List Event} {rank : Nat} (h : World.Kept b s log)
    (hrank : rank < b.nReader) (hstep : readerStep b s rank = some (s', es)) :
    World.Kept b s' (log ++ es) := by
  have hr := h.reader rank hrank
  have hidx := h.readerIdx rank hrank
  unfold MessageQueue.readerStep at hstep
  cases hpc : (s.readers rank).pc with
  | idle | reading => simp only [hpc] at hstep; cases hstep
  | loadRead =>
    simp only [hpc] at hstep
    obtain ⟨rfl, rfl⟩ := Prod.mk.inj (Option.some.inj hstep)
    rw [List.append_nil]
    exact h.readerTurns fun _ hz => hidx ▸ hz
  | loadWritten readFlag =>
    rw [hpc] at hr
    simp only [hpc] at hstep
    split at hstep
    · obtain ⟨rfl, rfl⟩ := Prod.mk.inj (Option.some.inj hstep)
      rw [List.append_nil]
      exact h.readerTurns fun _ => trivial
    · rename_i hcheck
      obtain ⟨rfl, rfl⟩ := Prod.mk.inj (Option.some.inj hstep)
      rw [List.append_nil]
      rw [hidx] at hcheck
      obtain ⟨hwritten, hread⟩ := not_or.mp hcheck
      have hlt := h.ring.behind_of_flags hrank hwritten (hr (not_not.mp hread))
      refine h.readerTurns fun _ => ⟨_, List.getElem?_eq_getElem hlt, fun k byte hk => ?_⟩
      exact absurd hk List.not_mem_nil
  | blocked =>
    simp only [hpc] at hstep
    obtain ⟨rfl, rfl⟩ := Prod.mk.inj (Option.some.inj hstep)
    rw [List.append_nil]
    exact h.readerTurns fun _ => trivial

/-- A byte that the reader loads is the message's. -/
theorem World.Kept.loads (h : World.Kept b s log) {rank k : Nat} {seen : Seen}
    (hpc : (s.readers rank).pc = .reading seen) (hrank : rank < b.nReader)
    (hk : k < b.maxChunkBytes) :
    World.Kept b (s.withReader rank { s.readers rank with
      pc := .reading (seen ++ [(k, s.mem (b.dataAddr (s.readers rank).currentIdx k))]) }) log := by
  refine h.readerTurns fun _ => ?_
  have hr := h.reader rank hrank
  rw [hpc] at hr
  obtain ⟨message, hm, hseen⟩ := hr
  have hholds := h.ring.holds_next hrank hm
  refine ⟨message, hm, fun k' byte hmem => ?_⟩
  obtain hold | hnew := List.mem_append.mp hmem
  · exact hseen k' byte hold
  · obtain ⟨rfl, rfl⟩ := Prod.mk.inj (List.mem_singleton.mp hnew)
    rw [← hholds.data, h.readerIdx rank hrank]
    exact ShmRingBuffer.getElem?_chunk hk

/-- Setting the read flag ends `acquire_read`. -/
theorem World.Kept.receives (h : World.Kept b s log) {rank : Nat} {seen : Seen}
    (hpc : (s.readers rank).pc = .reading seen) (hrank : rank < b.nReader) :
    World.Kept b
      { s.withReader rank ⟨.idle, ((s.readers rank).currentIdx + 1) % b.maxChunks⟩ with
        mem := b.setReadFlag s.mem rank (s.readers rank).currentIdx 1 }
      (log ++ [.received rank seen]) := by
  have hr := h.reader rank hrank
  rw [hpc] at hr
  obtain ⟨message, hm, hseen⟩ := hr
  have hlt : gotOf log rank < (sentOf log).length := (List.getElem?_eq_some_iff.mp hm).1
  have hgot : gotOf (log ++ [.received rank seen])
      = Function.update (gotOf log) rank (gotOf log rank + 1) := by
    funext r
    unfold gotOf
    rw [receivedOf_received]
    by_cases hrr : r = rank
    · rw [if_pos hrr.symm, hrr, Function.update_self, List.length_append]
      rfl
    · rw [if_neg fun heq => hrr heq.symm, Function.update_of_ne hrr]
  rw [h.readerIdx rank hrank]
  refine ⟨?_, ?_, fun r hr => ?_, ?_, fun r hr => ?_, fun r hr j seen' hj => ?_⟩
  · rw [hgot, sentOf_received]
    exact h.ring.markRead hrank hlt
  · rw [sentOf_received]
    exact h.writerIdx
  · show (Function.update s.readers rank _ r).currentIdx = _
    rw [hgot]
    by_cases hrr : r = rank
    · rw [hrr, Function.update_self, Function.update_self]
      exact Nat.mod_add_mod _ _ _
    · rw [Function.update_of_ne hrr, Function.update_of_ne hrr]
      exact h.readerIdx r hr
  · rw [hgot, sentOf_received]
    exact h.writer.markRead h.ring hrank hlt
  · show ReaderKept b _ _ _ _ (Function.update s.readers rank _ r).pc
    rw [hgot, sentOf_received]
    by_cases hrr : r = rank
    · rw [hrr, Function.update_self, Function.update_self]
      trivial
    · rw [Function.update_of_ne hrr, Function.update_of_ne hrr]
      refine (h.reader r hr).mono (fun c hz => ?_) fun _ hm => hm
      rw [ShmRingBuffer.readFlag_setReadFlag hrank hr, if_neg fun heq => hrr heq.1]
      exact hz
  · rw [receivedOf_received] at hj
    rw [sentOf_received]
    by_cases hrr : rank = r
    · subst hrr
      rw [if_pos rfl] at hj
      obtain hold | hnew := Nat.lt_or_ge j (receivedOf rank log).length
      · rw [List.getElem?_append_left hold] at hj
        exact h.inOrder rank hr j seen' hj
      · obtain rfl : j = (receivedOf rank log).length := by
          have hlen := (List.getElem?_eq_some_iff.mp hj).1
          rw [List.length_append, List.length_singleton] at hlen
          omega
        rw [List.getElem?_append_right (Nat.le_refl _), Nat.sub_self] at hj
        obtain rfl := Option.some.inj hj
        exact ⟨message, hm, hseen⟩
    · rw [if_neg hrr] at hj
      exact h.inOrder r hr j seen' hj

/-- **One step**, of any process, keeps the invariant. -/
theorem World.Kept.step {act : Action} {es : List Event} (h : World.Kept b s log)
    (hstep : step b s act = some (s', es)) : World.Kept b s' (log ++ es) := by
  have hw := h.writer
  cases act with
  | acquireWrite =>
    simp only [MessageQueue.step] at hstep
    split at hstep
    · obtain ⟨rfl, rfl⟩ := Prod.mk.inj (Option.some.inj hstep)
      rw [List.append_nil]
      exact h.writerTurns ⟨Nat.zero_le _, Nat.zero_le _⟩
    · cases hstep
  | writer => exact h.writerStep hstep
  | timeoutWrite =>
    simp only [MessageQueue.step] at hstep
    split at hstep
    · obtain ⟨rfl, rfl⟩ := Prod.mk.inj (Option.some.inj hstep)
      rw [List.append_nil]
      exact h.writerTurns trivial
    · cases hstep
  | store k byte =>
    simp only [MessageQueue.step] at hstep
    split at hstep
    · rename_i hfill
      obtain ⟨rfl, rfl⟩ := Prod.mk.inj (Option.some.inj hstep)
      rw [hfill.1] at hw
      rw [List.append_nil, h.writerIdx]
      have hc : (sentOf log).length % b.maxChunks < b.maxChunks := Nat.mod_lt _ h.ring.chunks
      have hwriter : WriterKept b (b.setData s.mem ((sentOf log).length % b.maxChunks) k byte)
          (sentOf log) (gotOf log) s.writer.pc := by
        rw [hfill.1]
        exact (ShmRingBuffer.writtenFlag_setData hc hfill.2).trans hw
      exact h.writerMoves (h.ring.setData hw hfill.2 byte) hwriter
        fun r hr c hz => (ShmRingBuffer.readFlag_setData hc hfill.2).trans hz
    · cases hstep
  | endWrite =>
    simp only [MessageQueue.step] at hstep
    split at hstep
    · rename_i hfill
      obtain ⟨rfl, rfl⟩ := Prod.mk.inj (Option.some.inj hstep)
      rw [hfill] at hw
      rw [List.append_nil]
      exact h.writerTurns ⟨Nat.zero_le _, hw, fun r hr => absurd hr (Nat.not_lt_zero r)⟩
    · cases hstep
  | failWrite =>
    simp only [MessageQueue.step] at hstep
    split at hstep
    · obtain ⟨rfl, rfl⟩ := Prod.mk.inj (Option.some.inj hstep)
      rw [List.append_nil]
      exact h.writerTurns trivial
    · cases hstep
  | acquireRead rank =>
    simp only [MessageQueue.step] at hstep
    split at hstep
    · obtain ⟨rfl, rfl⟩ := Prod.mk.inj (Option.some.inj hstep)
      rw [List.append_nil]
      exact h.readerTurns fun _ => trivial
    · cases hstep
  | reader rank =>
    simp only [MessageQueue.step] at hstep
    split at hstep
    · rename_i hrank
      exact h.readerStep hrank hstep
    · cases hstep
  | cancelRead rank =>
    simp only [MessageQueue.step] at hstep
    split at hstep
    · obtain ⟨rfl, rfl⟩ := Prod.mk.inj (Option.some.inj hstep)
      rw [List.append_nil]
      exact h.readerTurns fun _ => trivial
    · cases hstep
  | load rank k =>
    simp only [MessageQueue.step] at hstep
    split at hstep
    · rename_i seen hpc
      split at hstep
      · rename_i hk
        obtain ⟨rfl, rfl⟩ := Prod.mk.inj (Option.some.inj hstep)
        rw [List.append_nil]
        exact h.loads hpc hk.1 hk.2
      · cases hstep
    · cases hstep
  | endRead rank =>
    simp only [MessageQueue.step] at hstep
    split at hstep
    · rename_i seen hpc
      split at hstep
      · rename_i hrank
        obtain ⟨rfl, rfl⟩ := Prod.mk.inj (Option.some.inj hstep)
        exact h.receives hpc hrank
      · cases hstep
    · cases hstep
  | failRead rank =>
    simp only [MessageQueue.step] at hstep
    split at hstep
    · split at hstep
      · obtain ⟨rfl, rfl⟩ := Prod.mk.inj (Option.some.inj hstep)
        rw [List.append_nil]
        exact h.readerTurns fun _ => trivial
      · cases hstep
    · cases hstep

/-- **Every interleaving** keeps the invariant. -/
theorem Reached.kept (h : Reached b s log) : World.Kept b s log := by
  induction h with
  | @create mem s h =>
    unfold MessageQueue.create at h
    split at h
    · cases h
    · rename_i hbytes
      obtain rfl := Except.ok.inj h
      have hm : 0 < b.maxChunks := Nat.pos_of_ne_zero fun hzero => hbytes (by
        unfold ShmRingBuffer.totalBytesOfBuffer
        rw [hzero, Nat.mul_zero])
      exact ⟨RingKept.create hm mem, (Nat.zero_mod _).symm, fun _ _ => (Nat.zero_mod _).symm, trivial,
        fun _ _ => trivial, fun _ _ _ _ hj => (nomatch hj)⟩
  | step _ hstep ih => exact ih.step hstep

/-! ## Delivery -/

/-- The writer has decided to overwrite the chunk at its index. -/
def WriterPc.Claimed : WriterPc → Prop
  | .markUnwritten | .filling | .resetFlags _ | .markWritten => True
  | _ => False

/-- What the queue promises its users; message `j` goes through chunk
`j % max_chunks`. -/
structure Delivered (b : ShmRingBuffer) (s : World) (log : List Event) : Prop where
  /-- The reads of a reader are reads of the first messages, in order. -/
  inOrder : ∀ r < b.nReader, (receivedOf r log).length ≤ (sentOf log).length ∧
    ∀ (j : Nat) (seen : Seen), (receivedOf r log)[j]? = some seen →
      ∃ message : List UInt8, (sentOf log)[j]? = some message ∧ SeenIn seen message
  /-- A message that a reader has not received yet is at the reader's index, and
  the reader's two checks let it in. -/
  waiting : ∀ r < b.nReader, ∀ message : List UInt8,
    (sentOf log)[(receivedOf r log).length]? = some message →
      b.readFlag s.mem r (s.readers r).currentIdx = 0 ∧
      b.writtenFlag s.mem (s.readers r).currentIdx ≠ 0 ∧
      b.chunk s.mem (s.readers r).currentIdx = message
  /-- A reader that is in its block has only seen bytes of its next message. -/
  reading : ∀ r < b.nReader, ∀ seen : Seen, (s.readers r).pc = .reading seen →
    ∃ message : List UInt8, (sentOf log)[(receivedOf r log).length]? = some message ∧
      SeenIn seen message
  /-- From the moment the writer decides to overwrite a chunk, all readers have
  finished all messages that were in it, and none is in its block there. -/
  overwritten : s.writer.pc.Claimed → ∀ r < b.nReader,
    (∀ j < (sentOf log).length, j % b.maxChunks = s.writer.currentIdx →
      j < (receivedOf r log).length) ∧
    ∀ seen : Seen, (s.readers r).pc = .reading seen →
      (s.readers r).currentIdx ≠ s.writer.currentIdx

theorem World.Kept.free_of_claimed (h : World.Kept b s log) (hpc : s.writer.pc.Claimed) :
    ∀ r < b.nReader, (sentOf log).length < gotOf log r + b.maxChunks := by
  have hw := h.writer
  cases hpc' : s.writer.pc with
  | idle | sumFlags | loadWritten | blocked => rw [hpc'] at hpc; exact absurd hpc id
  | markUnwritten => rw [hpc'] at hw; exact hw
  | filling => rw [hpc'] at hw; exact h.ring.opened hw
  | resetFlags i => rw [hpc'] at hw; exact h.ring.opened hw.2.1
  | markWritten => rw [hpc'] at hw; exact h.ring.opened hw.1

/-- **Delivery.** In every interleaving of the writer and the readers. -/
theorem shm_broadcast_run (h : Reached b s log) : Delivered b s log := by
  have hk := h.kept
  refine ⟨fun r hr => ⟨hk.ring.notAhead r hr, hk.inOrder r hr⟩, fun r hr message hm => ?_,
    fun r hr seen hpc => ?_, fun hpc r hr => ⟨fun j hj hchunk => ?_, fun seen hread heq => ?_⟩⟩
  · have hholds := hk.ring.holds_next hr hm
    rw [hk.readerIdx r hr]
    refine ⟨(hk.ring.binary r hr _).resolve_right fun hset => ?_, ?_, hholds.data⟩
    · exact absurd ((hholds.flags r hr).mp hset) (Nat.lt_irrefl _)
    · rw [hholds.written]
      decide
  · have hreader := hk.reader r hr
    rw [hpc] at hreader
    exact hreader
  · have hfree := hk.free_of_claimed hpc r hr
    rw [hk.writerIdx] at hchunk
    show j < gotOf log r
    by_contra hge
    have hround := chunk_next hj (by omega) hchunk
    omega
  · have hfree := hk.free_of_claimed hpc r hr
    have hreader := hk.reader r hr
    rw [hread] at hreader
    obtain ⟨message, hm, -⟩ := hreader
    have hlt : gotOf log r < (sentOf log).length := (List.getElem?_eq_some_iff.mp hm).1
    rw [hk.readerIdx r hr, hk.writerIdx] at heq
    have hround := chunk_next hlt (Nat.le_of_lt hfree) heq
    omega

/-! ### A run of one chunk -/

/-- The steps in order, with their events. -/
def runActions (b : ShmRingBuffer) : World × List Event → List Action →
    Option (World × List Event)
  | sl, [] => some sl
  | sl, act :: acts =>
    match MessageQueue.step b sl.1 act with
    | some (s', es) => runActions b (s', sl.2 ++ es) acts
    | none => none

theorem reached_runActions {s s' : World} {log log' : List Event} {acts : List Action}
    (h : Reached b s log) (hrun : runActions b (s, log) acts = some (s', log')) :
    Reached b s' log' := by
  induction acts generalizing s log with
  | nil =>
    obtain ⟨rfl, rfl⟩ := Prod.mk.inj (Option.some.inj hrun)
    exact h
  | cons act acts ih =>
    rw [runActions] at hrun
    split at hrun
    · rename_i s₁ es hstep
      exact ih (h.step hstep) hrun
    · cases hrun

/-- The writer, once it sums the read flags, sends a byte. -/
def sendActions (byte : UInt8) : List Action :=
  List.replicate 5 .writer ++ [.store 0 byte, .endWrite] ++ List.replicate 4 .writer

/-- A reader receives a byte. -/
def receiveActions (rank : Nat) : List Action :=
  [.acquireRead rank, .reader rank, .reader rank, .load rank 0, .endRead rank]

/-- Two readers receive what is sent through the only chunk, one of them while
the writer waits for the other. -/
theorem one_chunk_delivered : ∃ s : World,
    Reached ⟨2, 1, 1⟩ s [.sent [7], .received 1 [(0, 7)], .received 0 [(0, 7)], .sent [8]] ∧
      Delivered ⟨2, 1, 1⟩ s
        [.sent [7], .received 1 [(0, 7)], .received 0 [(0, 7)], .sent [8]] := by
  obtain ⟨s₀, hs₀⟩ := Raises.exists_of_isOk
    (x := MessageQueue.create ⟨2, 1, 1⟩ fun _ => 0) (by decide)
  have hlog : (runActions ⟨2, 1, 1⟩ (s₀, [])
      (.acquireWrite :: sendActions 7 ++ receiveActions 1 ++ [.acquireWrite, .writer, .writer]
        ++ receiveActions 0 ++ List.replicate 3 .writer ++ sendActions 8)).map (·.2)
      = some [.sent [7], .received 1 [(0, 7)], .received 0 [(0, 7)], .sent [8]] := by
    obtain rfl := Except.ok.inj hs₀
    decide +kernel
  obtain ⟨⟨s, log⟩, hrun, hsnd⟩ := Option.map_eq_some_iff.mp hlog
  obtain rfl : log = _ := hsnd
  have hreached := reached_runActions (Reached.create hs₀) hrun
  exact ⟨s, hreached, shm_broadcast_run hreached⟩

end MessageQueue

end VllmEngine
