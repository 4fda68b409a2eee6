import Mathlib.Data.Nat.Size
import VllmEngine.Lib.Dict
import VllmEngine.Lib.Dyadic
import VllmEngine.Lib.Python

/-!
# The pool of pinned host memory

`TensorMemoryPool` hands out blocks of one pinned buffer. A free block stands in
the free list of its size under its address, an allocated one in
`allocated_blocks` under its address. `allocate` splits a larger block until it
has the size that is asked for, `free` merges a block with its buddy as long as
that one is free.

A call gives its outcome and the pool it leaves behind, so a call that raises
after it has changed something is seen to have changed it.
-/

namespace VllmEngine.Distributed

/-- `MemoryBlock`: a size and an address. -/
abbrev MemoryBlock := Dyadic.Block

structure TensorMemoryPool where
  maxBlockSize : Nat
  minBlockSize : Nat
  baseAddress : Int
  freeLists : Dict Nat (Dict Int MemoryBlock)
  allocatedBlocks : Dict Int MemoryBlock

/-- `int.bit_length`. -/
def bitLength (i : Int) : Nat := i.natAbs.size

def roundToPowerOfTwo (size : Int) : Nat := 1 <<< bitLength (size - 1)

/-- The loop of `_initialize_free_lists`. -/
def initializeFreeLists (minBlockSize : Nat) : Nat → Nat → Dict Nat (Dict Int MemoryBlock) →
    Except Python.NoReturn (Dict Nat (Dict Int MemoryBlock))
  | 0, _, _ => .error .forever
  | fuel + 1, size, freeLists =>
    if minBlockSize ≤ size then
      initializeFreeLists minBlockSize fuel (size / 2) (freeLists.set size Dict.empty)
    else .ok freeLists

def keyError (size : Nat) : Python.NoReturn := .raised (.key (toString size))

def valueError (msg : String) : Python.NoReturn := .raised (.value msg)

namespace TensorMemoryPool

/-- `self.free_lists[block.size][block.addr] = block`. -/
def setFree (pool : TensorMemoryPool) (block : MemoryBlock) : Except Python.NoReturn TensorMemoryPool :=
  match pool.freeLists.get? block.size with
  | none => .error (keyError block.size)
  | some blocks =>
    .ok { pool with freeLists := pool.freeLists.set block.size (blocks.set block.addr block) }

/-- `del self.free_lists[block.size][block.addr]`. -/
def delFree (pool : TensorMemoryPool) (block : MemoryBlock) : Except Python.NoReturn TensorMemoryPool :=
  match pool.freeLists.get? block.size with
  | none => .error (keyError block.size)
  | some blocks =>
    if blocks.contains block.addr then
      .ok { pool with freeLists := pool.freeLists.set block.size (blocks.erase block.addr) }
    else .error (.raised (.key (toString block.addr)))

/-- `__init__`; `baseAddress` is where the pinned buffer begins. -/
def new (maxBlockSize minBlockSize baseAddress : Int) : Except Python.NoReturn TensorMemoryPool :=
  if maxBlockSize ≤ 0 ∨ minBlockSize ≤ 0 then .error (valueError "Block sizes must be positive")
  else if maxBlockSize < minBlockSize then
    .error (valueError "Max block size must be greater than min block size")
  else
    let roundedMax := roundToPowerOfTwo maxBlockSize
    let roundedMin := roundToPowerOfTwo minBlockSize
    match initializeFreeLists roundedMin (roundedMax + 1) roundedMax Dict.empty with
    | .error e => .error e
    | .ok freeLists =>
      let pool : TensorMemoryPool :=
        { maxBlockSize := roundedMax
          minBlockSize := roundedMin
          baseAddress := baseAddress
          freeLists := freeLists
          allocatedBlocks := Dict.empty }
      -- `_allocate_pinned_memory`: the whole buffer is one free block
      pool.setFree { size := roundedMax, addr := baseAddress }

/-- `_split_block`: the block that is left, and the pool with its upper halves free. The block is in
no map while it shrinks. -/
def splitBlock (requiredSize : Nat) : Nat → MemoryBlock → TensorMemoryPool →
    Except Python.NoReturn MemoryBlock × TensorMemoryPool
  | 0, _, pool => (.error .forever, pool)
  | fuel + 1, block, pool =>
    if requiredSize < block.size ∧ pool.minBlockSize ≤ block.size / 2 then
      let buddySize := block.size / 2
      let buddy : MemoryBlock := { size := buddySize, addr := block.addr + (buddySize : Int) }
      match pool.setFree buddy with
      | .error e => (.error e, pool)
      | .ok pool' => splitBlock requiredSize fuel { block with size := buddySize } pool'
    else (.ok block, pool)

/-- The loop of `allocate`, from the size it has come to. -/
def allocateFrom (requiredSize : Nat) : Nat → Nat → TensorMemoryPool →
    Except Python.NoReturn Int × TensorMemoryPool
  | 0, _, pool => (.error .forever, pool)
  | fuel + 1, currentSize, pool =>
    if currentSize ≤ pool.maxBlockSize then
      match pool.freeLists.get? currentSize with
      | none => (.error (keyError currentSize), pool)
      | some blocks =>
        match blocks.popitem with
        | some (entry, rest) =>
          let popped := { pool with freeLists := pool.freeLists.set currentSize rest }
          match splitBlock requiredSize entry.2.size entry.2 popped with
          | (.error e, pool') => (.error e, pool')
          | (.ok block, pool') =>
            (.ok block.addr,
              { pool' with allocatedBlocks := pool'.allocatedBlocks.set block.addr block })
        | none => allocateFrom requiredSize fuel (currentSize * 2) pool
    else (.error (valueError "Insufficient memory"), pool)

/-- The size `allocate` looks for. -/
def requiredSize (pool : TensorMemoryPool) (size : Int) : Nat :=
  roundToPowerOfTwo (max size pool.minBlockSize)

def allocate (pool : TensorMemoryPool) (size : Int) : Except Python.NoReturn Int × TensorMemoryPool :=
  if size ≤ 0 then (.error (valueError "Allocation size must be positive"), pool)
  else if pool.maxBlockSize < pool.requiredSize size then
    (.error (valueError "Requested size exceeds maximum block size"), pool)
  else
    allocateFrom (pool.requiredSize size) (pool.maxBlockSize + 1) (pool.requiredSize size) pool

/-- `MAX_MERGE_DEPTH`. -/
def maxMergeDepth : Nat := 30

/-- The end of `_merge_buddies`. -/
def putBack (block : MemoryBlock) (pool : TensorMemoryPool) : Except Python.NoReturn Unit × TensorMemoryPool :=
  match pool.setFree block with
  | .error e => (.error e, pool)
  | .ok pool' => (.ok (), pool')

/-- `_merge_buddies`, with so many rounds left. -/
def mergeBuddies : Nat → MemoryBlock → TensorMemoryPool → Except Python.NoReturn Unit × TensorMemoryPool
  | 0, block, pool => putBack block pool
  | rounds + 1, block, pool =>
    let buddyOffset : Int :=
      if (block.addr - pool.baseAddress) % (2 * block.size) = 0 then block.size else -block.size
    match pool.freeLists.get? block.size with
    | none => (.error (keyError block.size), pool)
    | some blocks =>
      match blocks.get? (block.addr + buddyOffset) with
      | some buddy =>
        match pool.delFree buddy with
        | .error e => (.error e, pool)
        | .ok pool' =>
          mergeBuddies rounds { size := block.size * 2, addr := min block.addr buddy.addr } pool'
      | none => putBack block pool

def free (pool : TensorMemoryPool) (addr : Int) : Except Python.NoReturn Unit × TensorMemoryPool :=
  match pool.allocatedBlocks.get? addr with
  | none => (.error (valueError "Invalid address to free"), pool)
  | some block =>
    mergeBuddies maxMergeDepth block
      { pool with allocatedBlocks := pool.allocatedBlocks.erase addr }

/-! ## Runs -/

/-- A call of the pool. -/
inductive Call
  | allocate (size : Int)
  | free (addr : Int)
deriving DecidableEq, Repr

/-- The pool after a call, whether it returns or raises. -/
def after (pool : TensorMemoryPool) : Call → TensorMemoryPool
  | .allocate size => (pool.allocate size).2
  | .free addr => (pool.free addr).2

def run (pool : TensorMemoryPool) (calls : List Call) : TensorMemoryPool := calls.foldl after pool

/-! ## Blocks -/

/-- All free blocks. -/
def freeBlocks (pool : TensorMemoryPool) : List MemoryBlock :=
  pool.freeLists.values.flatMap Dict.values

/-- The free and the allocated blocks. -/
def blocks (pool : TensorMemoryPool) : List MemoryBlock :=
  pool.freeBlocks ++ pool.allocatedBlocks.values

/-- A free list changes: the blocks of the others stay. -/
theorem freeBlocks_set_perm (pool : TensorMemoryPool) (size : Nat) (blocks : Dict Int MemoryBlock) :
    ({ pool with freeLists := pool.freeLists.set size blocks }.freeBlocks).Perm
      (blocks.values ++ (pool.freeLists.erase size).values.flatMap Dict.values) :=
  (Dict.values_set_perm pool.freeLists size blocks).flatMap_right Dict.values

theorem freeBlocks_perm {pool : TensorMemoryPool} {size : Nat} {blocks : Dict Int MemoryBlock}
    (h : pool.freeLists.get? size = some blocks) :
    pool.freeBlocks.Perm (blocks.values ++ (pool.freeLists.erase size).values.flatMap Dict.values) :=
  (Dict.values_erase_perm h).symm.flatMap_right Dict.values

theorem mem_freeBlocks {pool : TensorMemoryPool} {size : Nat} {blocks : Dict Int MemoryBlock}
    {addr : Int} {b : MemoryBlock} (h : pool.freeLists.get? size = some blocks)
    (hb : blocks.get? addr = some b) : b ∈ pool.freeBlocks :=
  List.mem_flatMap.mpr ⟨blocks, (Dict.mem_values_iff _).mpr ⟨size, h⟩,
    (Dict.mem_values_iff _).mpr ⟨addr, hb⟩⟩

theorem exists_of_mem_freeBlocks {pool : TensorMemoryPool} {b : MemoryBlock}
    (h : b ∈ pool.freeBlocks) : ∃ size blocks addr,
      pool.freeLists.get? size = some blocks ∧ blocks.get? addr = some b := by
  obtain ⟨blocks, hblocks, hb⟩ := List.mem_flatMap.mp h
  obtain ⟨size, hsize⟩ := (Dict.mem_values_iff _).mp hblocks
  obtain ⟨addr, haddr⟩ := (Dict.mem_values_iff _).mp hb
  exact ⟨size, blocks, addr, hsize, haddr⟩

end TensorMemoryPool

/-! ## Rounding -/

theorem roundToPowerOfTwo_eq (size : Int) : roundToPowerOfTwo size = 2 ^ bitLength (size - 1) := by
  unfold roundToPowerOfTwo
  rw [Nat.shiftLeft_eq, Nat.one_mul]

/-- The rounded size is large enough. -/
theorem le_roundToPowerOfTwo {size : Int} (h : 0 < size) : size ≤ roundToPowerOfTwo size := by
  have hlt := Nat.lt_size_self (size - 1).natAbs
  rw [roundToPowerOfTwo_eq]
  unfold bitLength
  omega

/-- It is the least power of two that is. -/
theorem roundToPowerOfTwo_le {size : Int} {k : Nat} (h : 0 < size) (hle : size ≤ (2 ^ k : Nat)) :
    roundToPowerOfTwo size ≤ 2 ^ k := by
  rw [roundToPowerOfTwo_eq]
  apply Nat.pow_le_pow_right (Nat.succ_pos 1)
  apply Nat.size_le.mpr
  omega

/-- `n` is the least power of two that is at least `size`. -/
structure LeastPowerOfTwo (size : Int) (n : Nat) : Prop where
  pow : ∃ k, n = 2 ^ k
  large : size ≤ n
  least : ∀ k, size ≤ (2 ^ k : Nat) → n ≤ 2 ^ k

theorem leastPowerOfTwo_round {size : Int} (h : 0 < size) :
    LeastPowerOfTwo size (roundToPowerOfTwo size) where
  pow := ⟨_, roundToPowerOfTwo_eq size⟩
  large := le_roundToPowerOfTwo h
  least _ hle := roundToPowerOfTwo_le h hle

end VllmEngine.Distributed

/-!
## The buddy invariant

`Holds n pool inFlight`: the free and the allocated blocks and those that a call
has in hand tile the buffer, each stands in the map where its size and address
say, and no two free blocks are buddies. Filing a block and taking one out of
its free list keep it (`Holds.setFree`, `Holds.delFree`); the loops of
`_split_block`, `allocate` and `_merge_buddies` follow by induction on their
rounds, and runs by induction on their calls.

> `pool_sound`: what the pool's calls keep and answer, after every run.
-/

namespace VllmEngine.Distributed

open Dyadic (Tiles NoBuddies)

namespace TensorMemoryPool

/-- The buffer has `2 ^ n` bytes; `inFlight` are the blocks that a call holds. -/
structure Holds (n : Nat) (pool : TensorMemoryPool) (inFlight : List MemoryBlock) : Prop where
  maxPow : pool.maxBlockSize = 2 ^ n
  minPos : 0 < pool.minBlockSize
  lists : ∀ k, pool.minBlockSize ≤ 2 ^ k → k ≤ n → ∃ blocks, pool.freeLists.get? (2 ^ k) = some blocks
  filed : ∀ size blocks, pool.freeLists.get? size = some blocks →
    ∀ addr b, blocks.get? addr = some b → b.size = size ∧ b.addr = addr
  filedAllocated : ∀ addr b, pool.allocatedBlocks.get? addr = some b → b.addr = addr
  tiles : Tiles pool.baseAddress n (inFlight ++ pool.blocks)
  large : ∀ b ∈ inFlight ++ pool.blocks, pool.minBlockSize ≤ b.size
  apart : NoBuddies pool.baseAddress pool.freeBlocks

/-- Only free lists differ. -/
structure SameButFree (pool pool' : TensorMemoryPool) : Prop where
  max : pool'.maxBlockSize = pool.maxBlockSize
  min : pool'.minBlockSize = pool.minBlockSize
  base : pool'.baseAddress = pool.baseAddress
  allocated : pool'.allocatedBlocks = pool.allocatedBlocks

theorem SameButFree.refl (pool : TensorMemoryPool) : SameButFree pool pool := ⟨rfl, rfl, rfl, rfl⟩

theorem SameButFree.trans {p₁ p₂ p₃ : TensorMemoryPool} (h : SameButFree p₁ p₂)
    (h' : SameButFree p₂ p₃) : SameButFree p₁ p₃ :=
  ⟨h'.max.trans h.max, h'.min.trans h.min, h'.base.trans h.base, h'.allocated.trans h.allocated⟩

variable {n : Nat} {pool : TensorMemoryPool} {inFlight : List MemoryBlock} {block : MemoryBlock}

/-- A block of the pool has a free list for its size. -/
theorem Holds.exists_list (h : Holds n pool inFlight) (hmem : block ∈ inFlight ++ pool.blocks) :
    ∃ blocks, pool.freeLists.get? block.size = some blocks := by
  obtain ⟨⟨k, hk⟩, -⟩ := h.tiles.aligned block hmem
  have hle := h.tiles.size_le hmem
  have hlarge := h.large block hmem
  rw [hk] at hle hlarge ⊢
  exact h.lists k hlarge ((Nat.pow_le_pow_iff_right (Nat.lt_succ_self 1)).mp hle)

theorem Holds.get?_of_mem_free (h : Holds n pool inFlight) (hmem : block ∈ pool.freeBlocks) :
    ∃ blocks, pool.freeLists.get? block.size = some blocks ∧
      blocks.get? block.addr = some block := by
  obtain ⟨size, blocks, addr, hlist, hget⟩ := exists_of_mem_freeBlocks hmem
  obtain ⟨hsize, haddr⟩ := h.filed size blocks hlist addr block hget
  rw [hsize, haddr]
  exact ⟨blocks, hlist, hget⟩

/-- What a free list that is put in place of another has to be. -/
theorem Holds.setList {inFlight' : List MemoryBlock} {size : Nat} {blocks blocks' : Dict Int MemoryBlock}
    (h : Holds n pool inFlight) (hlist : pool.freeLists.get? size = some blocks)
    (hfiled : ∀ addr b, blocks'.get? addr = some b → b.size = size ∧ b.addr = addr)
    (hperm : (inFlight ++ blocks.values).Perm (inFlight' ++ blocks'.values))
    (hapart : NoBuddies pool.baseAddress
      ({ pool with freeLists := pool.freeLists.set size blocks' }.freeBlocks)) :
    Holds n { pool with freeLists := pool.freeLists.set size blocks' } inFlight' := by
  have hall : (inFlight ++ pool.blocks).Perm
      (inFlight' ++ { pool with freeLists := pool.freeLists.set size blocks' }.blocks) := by
    unfold TensorMemoryPool.blocks
    rw [← List.append_assoc, ← List.append_assoc]
    apply List.Perm.append_right
    apply ((freeBlocks_perm hlist).append_left inFlight).trans
    apply List.Perm.trans _ ((freeBlocks_set_perm pool size blocks').symm.append_left inFlight')
    rw [← List.append_assoc, ← List.append_assoc]
    exact hperm.append_right _
  refine
    { maxPow := h.maxPow
      minPos := h.minPos
      lists := ?_
      filed := ?_
      filedAllocated := h.filedAllocated
      tiles := h.tiles.perm hall
      large := fun b hb => h.large b (hall.mem_iff.mpr hb)
      apart := hapart }
  · intro k hmin hk
    show ∃ blocks, (pool.freeLists.set size blocks').get? (2 ^ k) = some blocks
    rw [Dict.get?_set]
    split
    · exact ⟨blocks', rfl⟩
    · exact h.lists k hmin hk
  · intro size' found hfound
    replace hfound : (pool.freeLists.set size blocks').get? size' = some found := hfound
    rw [Dict.get?_set] at hfound
    split at hfound
    next heq =>
      cases hfound
      rw [heq]
      exact hfiled
    next => exact h.filed size' found hfound

/-! ## Filing a block and taking one out -/

/-- A block in hand is filed, unless its buddy is free. -/
theorem Holds.setFree (h : Holds n pool (block :: inFlight))
    (halone : ∀ b ∈ pool.freeBlocks, ¬ Dyadic.Block.Buddies pool.baseAddress block b) :
    ∃ pool', pool.setFree block = .ok pool' ∧ Holds n pool' inFlight ∧ SameButFree pool pool' ∧
      pool'.freeBlocks.Perm (block :: pool.freeBlocks) := by
  have hmem : block ∈ (block :: inFlight) ++ pool.blocks := List.mem_cons_self
  obtain ⟨blocks, hlist⟩ := h.exists_list hmem
  -- Nothing stands where it is filed: it would be the same block twice.
  have hnone : blocks.get? block.addr = none := by
    cases hget : blocks.get? block.addr with
    | none => rfl
    | some b =>
      exfalso
      obtain ⟨hsize, haddr⟩ := h.filed block.size blocks hlist block.addr b hget
      have hb : b ∈ inFlight ++ pool.blocks := by
        apply List.mem_append_right
        exact List.mem_append_left _ (mem_freeBlocks hlist hget)
      have hstart := h.tiles.contains_start hmem
      have hdisj := h.tiles.disjoint hb hstart
      rw [← haddr, h.tiles.contains_start (List.mem_cons_of_mem block hb)] at hdisj
      cases hdisj
  have hvalues : (blocks.set block.addr block).values.Perm (block :: blocks.values) := by
    have hset := Dict.values_set_perm blocks block.addr block
    rw [Dict.erase_of_none hnone] at hset
    exact hset
  have hfree : ({ pool with
      freeLists := pool.freeLists.set block.size (blocks.set block.addr block) }.freeBlocks).Perm
      (block :: pool.freeBlocks) := by
    apply (freeBlocks_set_perm pool block.size _).trans
    apply (hvalues.append_right _).trans
    exact ((freeBlocks_perm hlist).symm).cons block
  refine ⟨{ pool with freeLists := pool.freeLists.set block.size (blocks.set block.addr block) },
    ?_, ?_, ⟨rfl, rfl, rfl, rfl⟩, hfree⟩
  · unfold TensorMemoryPool.setFree
    rw [hlist]
  · apply h.setList hlist
    · intro addr b hb
      rw [Dict.get?_set] at hb
      split at hb
      next heq =>
        cases hb
        exact ⟨rfl, heq.symm⟩
      next => exact h.filed block.size blocks hlist addr b hb
    · apply List.Perm.trans _ (hvalues.symm.append_left inFlight)
      exact List.perm_middle.symm
    · intro b hb b' hb'
      rcases List.mem_cons.mp (hfree.mem_iff.mp hb) with rfl | hold
      · rcases List.mem_cons.mp (hfree.mem_iff.mp hb') with rfl | hold'
        · exact fun hbuddies => hbuddies.2.1 rfl
        · exact halone b' hold'
      · rcases List.mem_cons.mp (hfree.mem_iff.mp hb') with rfl | hold'
        · exact fun hbuddies => halone b hold hbuddies.symm
        · exact h.apart b hold b' hold'

/-- A free list without one of its blocks. -/
theorem Holds.takeFree {blocks : Dict Int MemoryBlock} (h : Holds n pool inFlight)
    (hlist : pool.freeLists.get? block.size = some blocks)
    (hget : blocks.get? block.addr = some block) :
    Holds n { pool with freeLists := pool.freeLists.set block.size (blocks.erase block.addr) }
      (block :: inFlight) ∧
    pool.freeBlocks.Perm (block ::
      { pool with freeLists := pool.freeLists.set block.size (blocks.erase block.addr) }.freeBlocks) := by
  have hvalues := Dict.values_erase_perm hget
  have hfree : pool.freeBlocks.Perm (block ::
      { pool with freeLists := pool.freeLists.set block.size (blocks.erase block.addr) }.freeBlocks) := by
    apply (freeBlocks_perm hlist).trans
    apply (hvalues.symm.append_right _).trans
    exact ((freeBlocks_set_perm pool block.size _).symm).cons block
  refine ⟨h.setList hlist ?_ ?_ ?_, hfree⟩
  · intro addr b hb
    rw [Dict.get?_erase] at hb
    split at hb
    · cases hb
    · exact h.filed block.size blocks hlist addr b hb
  · apply (hvalues.symm.append_left inFlight).trans
    exact List.perm_middle
  · intro b hb b' hb'
    exact h.apart b (hfree.mem_iff.mpr (List.mem_cons_of_mem block hb))
      b' (hfree.mem_iff.mpr (List.mem_cons_of_mem block hb'))

theorem Holds.delFree (h : Holds n pool inFlight) (hmem : block ∈ pool.freeBlocks) :
    ∃ pool', pool.delFree block = .ok pool' ∧ Holds n pool' (block :: inFlight) ∧
      SameButFree pool pool' ∧ pool.freeBlocks.Perm (block :: pool'.freeBlocks) := by
  obtain ⟨blocks, hlist, hget⟩ := h.get?_of_mem_free hmem
  obtain ⟨hholds, hfree⟩ := h.takeFree hlist hget
  refine ⟨_, ?_, hholds, ⟨rfl, rfl, rfl, rfl⟩, hfree⟩
  unfold TensorMemoryPool.delFree
  rw [hlist]
  dsimp only
  rw [if_pos]
  unfold Dict.contains
  rw [hget]
  rfl

/-! ## Splitting -/

/-- A block in hand for its halves. -/
theorem Holds.split (h : Holds n pool (block :: inFlight)) (hhalf : pool.minBlockSize ≤ block.size / 2) :
    Holds n pool (block.upper :: block.lower :: inFlight) ∧
      ∀ b ∈ pool.freeBlocks, ¬ Dyadic.Block.Buddies pool.baseAddress block.upper b := by
  have hpos := h.minPos
  have hlt : 1 < block.size := by omega
  have halign := h.tiles.aligned block List.mem_cons_self
  have hswap : (block.lower :: block.upper :: (inFlight ++ pool.blocks)).Perm
      (block.upper :: block.lower :: inFlight ++ pool.blocks) := List.Perm.swap _ _ _
  have htiles := (h.tiles.split hlt).perm hswap
  refine ⟨⟨h.maxPow, h.minPos, h.lists, h.filed, h.filedAllocated, htiles, ?_, h.apart⟩, ?_⟩
  · intro b hb
    rcases List.mem_cons.mp hb with rfl | hb
    · exact hhalf
    · rcases List.mem_cons.mp hb with rfl | hb
      · exact hhalf
      · exact h.large b (List.mem_cons_of_mem block hb)
  · -- The buddy of the upper half is the lower one, which is in hand.
    intro b hb hbuddies
    have hmem : b ∈ inFlight ++ pool.blocks := by
      apply List.mem_append_right
      exact List.mem_append_left _ hb
    obtain ⟨hlower, hupper⟩ := halign.halves hlt
    have halignb := h.tiles.aligned b (List.mem_cons_of_mem block hmem)
    have heq := Dyadic.Block.Buddies.unique hupper halignb hlower hbuddies (halign.halves_buddies hlt)
    have hrest := h.tiles.split hlt
    have hstart := hrest.contains_start List.mem_cons_self
    have hdisj := hrest.disjoint (List.mem_cons_of_mem block.upper hmem) hstart
    rw [heq, hstart] at hdisj
    cases hdisj

/-- Enough rounds split a block in hand down to the required size. -/
theorem splitBlock_spec {required : Nat} (hpow : ∃ k, required = 2 ^ k) :
    ∀ {fuel : Nat} {block : MemoryBlock} {pool : TensorMemoryPool}, block.size ≤ fuel →
      pool.minBlockSize ≤ required → required ≤ block.size → Holds n pool (block :: inFlight) →
      ∃ pool', splitBlock required fuel block pool = (.ok { size := required, addr := block.addr }, pool') ∧
        Holds n pool' ({ size := required, addr := block.addr } :: inFlight) ∧ SameButFree pool pool' := by
  intro fuel
  induction fuel with
  | zero =>
    intro block pool hfuel _ _ h
    have hpos := (h.tiles.aligned block List.mem_cons_self).pos
    omega
  | succ fuel ih =>
    intro block pool hfuel hmin hle h
    obtain ⟨k, hk⟩ := hpow
    obtain ⟨⟨j, hj⟩, -⟩ := h.tiles.aligned block List.mem_cons_self
    unfold splitBlock
    by_cases hlt : required < block.size
    · -- one half is still large enough
      have hkj : k + 1 ≤ j := by
        rw [hk, hj] at hlt
        exact (Nat.pow_lt_pow_iff_right (Nat.lt_succ_self 1)).mp hlt
      have hhalf : required ≤ block.size / 2 := by
        rw [Nat.le_div_iff_mul_le (Nat.succ_pos 1), hk, hj, ← Nat.pow_succ]
        exact Nat.pow_le_pow_right (Nat.succ_pos 1) hkj
      rw [if_pos ⟨hlt, Nat.le_trans hmin hhalf⟩]
      obtain ⟨hsplit, halone⟩ := h.split (Nat.le_trans hmin hhalf)
      obtain ⟨pool₁, hset, hholds, hsame, -⟩ := hsplit.setFree halone
      have hset' : pool.setFree
          { size := block.size / 2, addr := block.addr + ((block.size / 2 : Nat) : Int) } = .ok pool₁ := hset
      dsimp only
      rw [hset']
      have hrounds : block.lower.size ≤ fuel := by
        have hpos := Nat.two_pow_pos k
        show block.size / 2 ≤ fuel
        omega
      obtain ⟨pool₂, hrun, hholds₂, hsame₂⟩ :=
        ih hrounds (hsame.min.symm ▸ hmin) hhalf hholds
      exact ⟨pool₂, hrun, hholds₂, hsame.trans hsame₂⟩
    · have heq : block.size = required := Nat.le_antisymm (Nat.not_lt.mp hlt) hle
      rw [if_neg fun hcond => hlt hcond.1]
      refine ⟨pool, ?_, ?_, SameButFree.refl pool⟩
      · rw [← heq]
      · rw [← heq]
        exact h

/-! ## Allocating -/

/-- A block in hand is filed as allocated. -/
theorem Holds.setAllocated (h : Holds n pool (block :: inFlight))
    (hnone : pool.allocatedBlocks.get? block.addr = none) :
    Holds n { pool with allocatedBlocks := pool.allocatedBlocks.set block.addr block } inFlight := by
  have hvalues : (pool.allocatedBlocks.set block.addr block).values.Perm
      (block :: pool.allocatedBlocks.values) := by
    have hset := Dict.values_set_perm pool.allocatedBlocks block.addr block
    rw [Dict.erase_of_none hnone] at hset
    exact hset
  have hall : (block :: inFlight ++ pool.blocks).Perm (inFlight ++
      { pool with allocatedBlocks := pool.allocatedBlocks.set block.addr block }.blocks) := by
    show (block :: (inFlight ++ (pool.freeBlocks ++ pool.allocatedBlocks.values))).Perm
      (inFlight ++ (pool.freeBlocks ++ (pool.allocatedBlocks.set block.addr block).values))
    rw [← List.append_assoc, ← List.append_assoc]
    apply List.Perm.trans _ (hvalues.symm.append_left _)
    exact List.perm_middle.symm
  refine ⟨h.maxPow, h.minPos, h.lists, h.filed, ?_, h.tiles.perm hall,
    fun b hb => h.large b (hall.mem_iff.mpr hb), h.apart⟩
  intro addr b hb
  replace hb : (pool.allocatedBlocks.set block.addr block).get? addr = some b := hb
  rw [Dict.get?_set] at hb
  split at hb
  next heq =>
    cases hb
    exact heq.symm
  next => exact h.filedAllocated addr b hb

/-- An allocated block is taken in hand. -/
theorem Holds.eraseAllocated {addr : Int} (h : Holds n pool inFlight)
    (hget : pool.allocatedBlocks.get? addr = some block) :
    Holds n { pool with allocatedBlocks := pool.allocatedBlocks.erase addr } (block :: inFlight) := by
  have hvalues := Dict.values_erase_perm hget
  have hall : (inFlight ++ pool.blocks).Perm (block :: inFlight ++
      { pool with allocatedBlocks := pool.allocatedBlocks.erase addr }.blocks) := by
    show (inFlight ++ (pool.freeBlocks ++ pool.allocatedBlocks.values)).Perm
      (block :: (inFlight ++ (pool.freeBlocks ++ (pool.allocatedBlocks.erase addr).values)))
    rw [← List.append_assoc, ← List.append_assoc]
    apply (hvalues.symm.append_left _).trans
    exact List.perm_middle
  refine ⟨h.maxPow, h.minPos, h.lists, h.filed, ?_, h.tiles.perm hall,
    fun b hb => h.large b (hall.mem_iff.mpr hb), h.apart⟩
  intro addr' b hb
  replace hb : (pool.allocatedBlocks.erase addr).get? addr' = some b := hb
  rw [Dict.get?_erase] at hb
  split at hb
  · cases hb
  · exact h.filedAllocated addr' b hb

/-- No allocated block begins where a free one does. -/
theorem Holds.not_allocated (h : Holds n pool inFlight) (hmem : block ∈ pool.freeBlocks) :
    pool.allocatedBlocks.get? block.addr = none := by
  cases hget : pool.allocatedBlocks.get? block.addr with
  | none => rfl
  | some b =>
    exfalso
    obtain ⟨l, r, hsplit⟩ := List.mem_iff_append.mp hmem
    have hb : b ∈ pool.allocatedBlocks.values := (Dict.mem_values_iff _).mpr ⟨_, hget⟩
    have hperm : (inFlight ++ pool.blocks).Perm
        (block :: (inFlight ++ (l ++ r ++ pool.allocatedBlocks.values))) := by
      unfold TensorMemoryPool.blocks
      rw [hsplit]
      apply List.Perm.trans _ List.perm_middle
      apply List.Perm.append_left
      exact List.perm_middle.append_right _
    have htiles := h.tiles.perm hperm
    have hrest : b ∈ inFlight ++ (l ++ r ++ pool.allocatedBlocks.values) := by
      apply List.mem_append_right
      exact List.mem_append_right _ hb
    have hdisj := htiles.disjoint hrest (htiles.contains_start List.mem_cons_self)
    rw [← h.filedAllocated block.addr b hget,
      htiles.contains_start (List.mem_cons_of_mem block hrest)] at hdisj
    cases hdisj

/-- What `allocate` does once it knows the size: it hands out the lower end of a free block that is
large enough, or there is none. -/
inductive Allocates (n required : Nat) (pool : TensorMemoryPool) :
    Except Python.NoReturn Int × TensorMemoryPool → Prop
  | found (pool' : TensorMemoryPool) (addr : Int) (hholds : Holds n pool' [])
      (hmin : pool'.minBlockSize = pool.minBlockSize) (hbase : pool'.baseAddress = pool.baseAddress)
      (hfresh : pool.allocatedBlocks.get? addr = none)
      (hset : pool'.allocatedBlocks = pool.allocatedBlocks.set addr { size := required, addr := addr }) :
      Allocates n required pool (.ok addr, pool')
  | insufficient (hsmall : ∀ b ∈ pool.freeBlocks, b.size < required) :
      Allocates n required pool (.error (valueError "Insufficient memory"), pool)

theorem allocateFrom_spec {required : Nat} (h : Holds n pool []) (hpow : ∃ k, required = 2 ^ k)
    (hmin : pool.minBlockSize ≤ required) :
    ∀ {fuel j : Nat}, 0 < fuel → required ≤ 2 ^ j → pool.maxBlockSize + 2 ≤ fuel + 2 ^ j →
      (∀ b ∈ pool.freeBlocks, b.size < 2 ^ j → b.size < required) →
      Allocates n required pool (allocateFrom required fuel (2 ^ j) pool) := by
  intro fuel
  induction fuel with
  | zero =>
    intro j hpos
    exact absurd hpos (Nat.lt_irrefl 0)
  | succ fuel ih =>
    intro j _ hle hfuel hsmaller
    unfold allocateFrom
    by_cases hmax : 2 ^ j ≤ pool.maxBlockSize
    · rw [if_pos hmax]
      have hj : j ≤ n := by
        rw [h.maxPow] at hmax
        exact (Nat.pow_le_pow_iff_right (Nat.lt_succ_self 1)).mp hmax
      obtain ⟨blocks, hlist⟩ := h.lists j (Nat.le_trans hmin hle) hj
      rw [hlist]
      dsimp only
      cases hpop : blocks.popitem with
      | none =>
        -- no free block of this size: the next size
        have hnext : 2 ^ j * 2 = 2 ^ (j + 1) := by rw [Nat.pow_succ]
        have hpos := Nat.two_pow_pos j
        dsimp only
        rw [hnext]
        apply ih
        · omega
        · rw [← hnext]
          omega
        · rw [← hnext]
          omega
        · intro b hb hlt
          apply hsmaller b hb
          have hmem : b ∈ pool.blocks := List.mem_append_left _ hb
          obtain ⟨⟨i, hi⟩, -⟩ := h.tiles.aligned b hmem
          rw [hi] at hlt ⊢
          have hij := (Nat.pow_lt_pow_iff_right (Nat.lt_succ_self 1)).mp hlt
          apply (Nat.pow_lt_pow_iff_right (Nat.lt_succ_self 1)).mpr
          apply Nat.lt_of_le_of_ne (Nat.le_of_lt_succ hij)
          intro heq
          obtain ⟨found, hfound, hget⟩ := h.get?_of_mem_free hb
          rw [hi, heq, hlist] at hfound
          cases hfound
          rw [Dict.popitem_eq_none hpop] at hget
          cases hget
      | some popped =>
        obtain ⟨⟨addr, b⟩, rest⟩ := popped
        obtain ⟨hget, hrest⟩ := Dict.popitem_eq_some hpop
        obtain ⟨hsize, haddr⟩ := h.filed (2 ^ j) blocks hlist addr b hget
        have hfree : b ∈ pool.freeBlocks := mem_freeBlocks hlist hget
        dsimp only at hget hrest ⊢
        rw [← hsize] at hlist hle ⊢
        rw [← haddr] at hget hrest
        have htaken := (h.takeFree hlist hget).1
        rw [← hrest] at htaken
        have hmin' : { pool with freeLists := pool.freeLists.set b.size rest }.minBlockSize
            ≤ required := hmin
        obtain ⟨pool₁, hrun, hholds, hsame⟩ :=
          splitBlock_spec hpow (Nat.le_refl b.size) hmin' hle htaken
        rw [hrun]
        have hfresh := h.not_allocated hfree
        have hallocated : pool₁.allocatedBlocks = pool.allocatedBlocks := hsame.allocated
        apply Allocates.found
        · apply hholds.setAllocated
          rw [hallocated]
          exact hfresh
        · exact hsame.min
        · exact hsame.base
        · exact hfresh
        · rw [hallocated]
    · rw [if_neg hmax]
      apply Allocates.insufficient
      intro b hb
      apply hsmaller b hb
      have hmem : b ∈ pool.blocks := List.mem_append_left _ hb
      have hsize := h.tiles.size_le hmem
      rw [h.maxPow] at hmax
      omega

/-! ## Freeing -/

theorem putBack_spec (h : Holds n pool [block])
    (halone : ∀ b ∈ pool.freeBlocks, ¬ Dyadic.Block.Buddies pool.baseAddress block b) :
    ∃ pool', putBack block pool = (.ok (), pool') ∧ Holds n pool' [] ∧ SameButFree pool pool' := by
  obtain ⟨pool', hset, hholds, hsame, -⟩ := h.setFree halone
  refine ⟨pool', ?_, hholds, hsame⟩
  unfold putBack
  rw [hset]

/-- Enough rounds merge the block in hand with its buddies until one is not free. -/
theorem mergeBuddies_spec : ∀ {rounds : Nat} {block : MemoryBlock} {pool : TensorMemoryPool},
    Holds n pool [block] → 2 ^ n ≤ block.size * 2 ^ rounds →
    ∃ pool', mergeBuddies rounds block pool = (.ok (), pool') ∧ Holds n pool' [] ∧
      SameButFree pool pool' := by
  intro rounds
  induction rounds with
  | zero =>
    intro block pool h hlarge
    rw [Nat.pow_zero, Nat.mul_one] at hlarge
    apply putBack_spec h
    -- A block of the size of the buffer has no buddy in it.
    intro b hb hbuddies
    have hmem : b ∈ [block] ++ pool.blocks := List.mem_append_right _ (List.mem_append_left _ hb)
    have hbounds := h.tiles.bounds hmem
    have hbounds' := h.tiles.bounds List.mem_cons_self
    have hsize := hbuddies.1
    have hne := hbuddies.2.1
    omega
  | succ rounds ih =>
    intro block pool h hlarge
    have halign := h.tiles.aligned block List.mem_cons_self
    obtain ⟨blocks, hlist⟩ := h.exists_list (List.mem_cons_self : block ∈ [block] ++ pool.blocks)
    unfold mergeBuddies
    rw [hlist]
    dsimp only
    cases hget : blocks.get? (Dyadic.Block.buddyAddr pool.baseAddress block) with
    | none =>
      have hget' := hget
      unfold Dyadic.Block.buddyAddr at hget'
      rw [hget']
      apply putBack_spec h
      intro b hb hbuddies
      have hmem : b ∈ [block] ++ pool.blocks := List.mem_append_right _ (List.mem_append_left _ hb)
      obtain ⟨hsize, haddr⟩ :=
        (Dyadic.Block.buddies_iff halign (h.tiles.aligned b hmem)).mp hbuddies
      obtain ⟨found, hfound, hb'⟩ := h.get?_of_mem_free hb
      rw [hsize, hlist] at hfound
      cases hfound
      rw [haddr, hget] at hb'
      cases hb'
    | some buddy =>
      have hget' := hget
      unfold Dyadic.Block.buddyAddr at hget'
      rw [hget']
      dsimp only
      obtain ⟨hsize, haddr⟩ := h.filed block.size blocks hlist _ buddy hget
      have hfree := mem_freeBlocks hlist hget
      obtain ⟨pool₁, hdel, hholds, hsame, -⟩ := h.delFree hfree
      rw [hdel]
      dsimp only
      have hmem : buddy ∈ [block] ++ pool.blocks :=
        List.mem_append_right _ (List.mem_append_left _ hfree)
      have hbuddies : Dyadic.Block.Buddies pool₁.baseAddress block buddy := by
        rw [hsame.base]
        exact (Dyadic.Block.buddies_iff halign (h.tiles.aligned buddy hmem)).mpr ⟨hsize, haddr⟩
      have hmerged : Holds n pool₁ [Dyadic.Block.merged block buddy] := by
        have hswap : (buddy :: block :: pool₁.blocks).Perm (block :: buddy :: pool₁.blocks) :=
          List.Perm.swap _ _ _
        refine ⟨hholds.maxPow, hholds.minPos, hholds.lists, hholds.filed, hholds.filedAllocated,
          (hholds.tiles.perm hswap).merge hbuddies, ?_, hholds.apart⟩
        intro b hb
        rcases List.mem_cons.mp hb with rfl | hb
        · have hblock := hholds.large block (List.mem_cons_of_mem buddy List.mem_cons_self)
          show pool₁.minBlockSize ≤ block.size * 2
          omega
        · exact hholds.large b (List.mem_cons_of_mem buddy (List.mem_cons_of_mem block hb))
      have hrounds : 2 ^ n ≤ (Dyadic.Block.merged block buddy).size * 2 ^ rounds := by
        show 2 ^ n ≤ block.size * 2 * 2 ^ rounds
        rw [Nat.mul_assoc, Nat.mul_comm 2, ← Nat.pow_succ]
        exact hlarge
      obtain ⟨pool₂, hrun, hholds₂, hsame₂⟩ := ih hmerged hrounds
      exact ⟨pool₂, hrun, hholds₂, hsame.trans hsame₂⟩

end TensorMemoryPool

end VllmEngine.Distributed
