import VllmEngine.Distributed.TensorMemoryPool

/-!
# Runs of the memory pool

A new pool has one free block, the whole buffer. Every call keeps the
invariant and every answer of a call is one of those listed in
`AllocateAnswer` and `FreeAnswer`: a call that raises raises `ValueError` and
changes nothing.

> `pool_sound`: the invariant and the answers after every run, and that freeing
> what is allocated gives the whole buffer back.
-/

namespace VllmEngine.Distributed

open Dyadic (Tiles NoBuddies)

namespace TensorMemoryPool

/-! ## A new pool -/

/-- No free list holds a block. -/
def AllEmpty (freeLists : Dict Nat (Dict Int MemoryBlock)) : Prop :=
  ∀ size blocks, freeLists.get? size = some blocks → blocks = Dict.empty

/-- The loop makes an empty list for every size it passes. -/
theorem initializeFreeLists_spec {minSize : Nat} (hmin : 0 < minSize) :
    ∀ {fuel size : Nat} {freeLists : Dict Nat (Dict Int MemoryBlock)}, size < fuel →
      AllEmpty freeLists →
      ∃ lists, initializeFreeLists minSize fuel size freeLists = .ok lists ∧ AllEmpty lists ∧
        (∀ s, freeLists.get? s = some Dict.empty → lists.get? s = some Dict.empty) ∧
        ∀ j, size = 2 ^ j → ∀ k ≤ j, minSize ≤ 2 ^ k → lists.get? (2 ^ k) = some Dict.empty := by
  intro fuel
  induction fuel with
  | zero =>
    intro size _ hlt
    exact absurd hlt (Nat.not_lt_zero size)
  | succ fuel ih =>
    intro size freeLists hlt hempty
    unfold initializeFreeLists
    by_cases hle : minSize ≤ size
    · rw [if_pos hle]
      have hempty' : AllEmpty (freeLists.set size Dict.empty) := by
        intro s blocks hs
        rw [Dict.get?_set] at hs
        split at hs
        · cases hs
          rfl
        · exact hempty s blocks hs
      obtain ⟨lists, hrun, hall, hkept, hmade⟩ := ih (by omega : size / 2 < fuel) hempty'
      refine ⟨lists, hrun, hall, ?_, ?_⟩
      · intro s hs
        apply hkept
        rw [Dict.get?_set]
        split
        · rfl
        · exact hs
      · intro j hj k hk hmink
        rcases Nat.eq_or_lt_of_le hk with rfl | hkj
        · -- this round's size
          apply hkept
          rw [hj]
          exact Dict.get?_set_self _ _ _
        · obtain ⟨i, rfl⟩ := Nat.exists_eq_add_of_lt hkj
          have hhalf : size / 2 = 2 ^ (k + i) := by
            rw [hj, Nat.pow_succ]
            exact Nat.mul_div_cancel _ (Nat.succ_pos 1)
          exact hmade (k + i) hhalf k (Nat.le_add_right k i) hmink
    · rw [if_neg hle]
      refine ⟨freeLists, rfl, hempty, fun s hs => hs, ?_⟩
      intro j hj k hk hmink
      have hpow : 2 ^ k ≤ 2 ^ j := Nat.pow_le_pow_right (Nat.succ_pos 1) hk
      omega

theorem roundToPowerOfTwo_mono {a b : Int} (ha : 0 < a) (hab : a ≤ b) :
    roundToPowerOfTwo a ≤ roundToPowerOfTwo b := by
  rw [roundToPowerOfTwo_eq b]
  apply roundToPowerOfTwo_le ha
  rw [← roundToPowerOfTwo_eq]
  exact Int.le_trans hab (le_roundToPowerOfTwo (Int.lt_of_lt_of_le ha hab))

/-- What a pool is before its first call. -/
structure Fresh (maxBlockSize minBlockSize baseAddress : Int) (pool : TensorMemoryPool) : Prop where
  max : pool.maxBlockSize = roundToPowerOfTwo maxBlockSize
  min : pool.minBlockSize = roundToPowerOfTwo minBlockSize
  base : pool.baseAddress = baseAddress
  allocated : pool.allocatedBlocks = Dict.empty
  holds : Holds (bitLength (maxBlockSize - 1)) pool []

/-- Positive sizes in order give a pool. -/
theorem new_ok {maxBlockSize minBlockSize : Int} (baseAddress : Int) (hmin : 0 < minBlockSize)
    (hle : minBlockSize ≤ maxBlockSize) :
    ∃ pool, new maxBlockSize minBlockSize baseAddress = .ok pool ∧
      Fresh maxBlockSize minBlockSize baseAddress pool := by
  have hminPos : 0 < roundToPowerOfTwo minBlockSize := by
    rw [roundToPowerOfTwo_eq]
    exact Nat.two_pow_pos _
  have hround := roundToPowerOfTwo_eq maxBlockSize
  have hnothing : AllEmpty Dict.empty := by
    intro s blocks h
    cases h
  obtain ⟨lists, hrun, hempty, -, hmade⟩ := initializeFreeLists_spec hminPos
    (Nat.lt_add_one (roundToPowerOfTwo maxBlockSize)) hnothing
  -- The pool without its first block, which is in hand.
  obtain ⟨start, hstart⟩ : ∃ start : TensorMemoryPool, start =
      { maxBlockSize := roundToPowerOfTwo maxBlockSize
        minBlockSize := roundToPowerOfTwo minBlockSize
        baseAddress := baseAddress
        freeLists := lists
        allocatedBlocks := Dict.empty } := ⟨_, rfl⟩
  have hfree : start.freeBlocks = [] := by
    apply List.eq_nil_iff_forall_not_mem.mpr
    intro b hb
    obtain ⟨size, blocks, addr, hlist, hget⟩ := exists_of_mem_freeBlocks hb
    rw [hstart] at hlist
    rw [hempty size blocks hlist] at hget
    cases hget
  have hblocks : [{ size := 2 ^ bitLength (maxBlockSize - 1), addr := baseAddress }] ++ start.blocks
      = [{ size := 2 ^ bitLength (maxBlockSize - 1), addr := baseAddress }] := by
    unfold blocks
    rw [hfree, hstart]
    rfl
  have hholds : Holds (bitLength (maxBlockSize - 1)) start
      [{ size := 2 ^ bitLength (maxBlockSize - 1), addr := baseAddress }] := by
    refine
      { maxPow := ?_
        minPos := ?_
        lists := ?_
        filed := ?_
        filedAllocated := ?_
        tiles := ?_
        large := ?_
        apart := ?_ }
    · rw [hstart]
      exact hround
    · rw [hstart]
      exact hminPos
    · intro k hmink hk
      rw [hstart] at hmink ⊢
      exact ⟨Dict.empty, hmade _ hround k hk hmink⟩
    · intro size blocks hlist addr b hget
      rw [hstart] at hlist
      rw [hempty size blocks hlist] at hget
      cases hget
    · intro addr b hget
      rw [hstart] at hget
      cases hget
    · rw [hblocks, hstart]
      exact Tiles.single baseAddress _
    · intro b hb
      rw [hblocks, List.mem_singleton] at hb
      rw [hb, hstart]
      show roundToPowerOfTwo minBlockSize ≤ 2 ^ bitLength (maxBlockSize - 1)
      rw [← hround]
      exact roundToPowerOfTwo_mono hmin hle
    · rw [hfree]
      intro b hb
      cases hb
  obtain ⟨pool, hset, hpool, hsame, -⟩ := hholds.setFree (fun b hb => by
    rw [hfree] at hb
    cases hb)
  refine ⟨pool, ?_, ?_⟩
  · have hmax : ¬ (maxBlockSize ≤ 0 ∨ minBlockSize ≤ 0) := by omega
    unfold new
    rw [if_neg hmax, if_neg (Int.not_lt.mpr hle)]
    dsimp only
    rw [hrun]
    rw [hstart, ← hround] at hset
    exact hset
  · exact
      { max := by rw [hsame.max, hstart]
        min := by rw [hsame.min, hstart]
        base := by rw [hsame.base, hstart]
        allocated := by rw [hsame.allocated, hstart]
        holds := hpool }

/-- Other sizes raise. -/
theorem sizes_of_new {maxBlockSize minBlockSize baseAddress : Int} {pool : TensorMemoryPool}
    (h : new maxBlockSize minBlockSize baseAddress = .ok pool) :
    0 < minBlockSize ∧ minBlockSize ≤ maxBlockSize := by
  unfold new at h
  split at h
  · cases h
  · split at h
    · cases h
    · omega

theorem fresh_of_new {maxBlockSize minBlockSize baseAddress : Int} {pool : TensorMemoryPool}
    (h : new maxBlockSize minBlockSize baseAddress = .ok pool) :
    Fresh maxBlockSize minBlockSize baseAddress pool := by
  obtain ⟨hminPos, hle⟩ := sizes_of_new h
  obtain ⟨pool', hnew, hfresh⟩ := new_ok baseAddress hminPos hle
  rw [h] at hnew
  cases hnew
  exact hfresh

/-! ## The invariant and the answers -/

/-- Between calls: the blocks partition the buffer, each is a block of the buddy system, and no two
buddies are free. -/
structure BuddyInvariant (pool : TensorMemoryPool) : Prop where
  partition : ∀ x, pool.blocks.countP (fun b => b.contains x)
    = if pool.baseAddress ≤ x ∧ x < pool.baseAddress + pool.maxBlockSize then 1 else 0
  sizes : ∀ b ∈ pool.blocks, (∃ k, b.size = 2 ^ k) ∧ pool.minBlockSize ≤ b.size ∧
    b.size ≤ pool.maxBlockSize ∧ (b.size : Int) ∣ b.addr - pool.baseAddress
  noBuddies : NoBuddies pool.baseAddress pool.freeBlocks

/-- A positive size rounded: the least power of two that has room for it and is no smaller than the
smallest block. -/
def RoundedSize (pool : TensorMemoryPool) (size : Int) (n : Nat) : Prop :=
  0 < size ∧ LeastPowerOfTwo (max size pool.minBlockSize) n

/-- What `allocate` can answer. -/
inductive AllocateAnswer (pool : TensorMemoryPool) (size : Int) :
    Except Python.NoReturn Int × TensorMemoryPool → Prop
  | block (pool' : TensorMemoryPool) (b : MemoryBlock) (hlarge : size ≤ b.size)
      (hround : pool.RoundedSize size b.size) (hfresh : pool.allocatedBlocks.get? b.addr = none)
      (hset : pool'.allocatedBlocks = pool.allocatedBlocks.set b.addr b) :
      AllocateAnswer pool size (.ok b.addr, pool')
  | notPositive (h : size ≤ 0) :
      AllocateAnswer pool size (.error (valueError "Allocation size must be positive"), pool)
  | tooLarge (n : Nat) (hround : pool.RoundedSize size n) (h : pool.maxBlockSize < n) :
      AllocateAnswer pool size
        (.error (valueError "Requested size exceeds maximum block size"), pool)
  | insufficient (n : Nat) (hround : pool.RoundedSize size n) (hfits : n ≤ pool.maxBlockSize)
      (h : ∀ b ∈ pool.freeBlocks, b.size < n) :
      AllocateAnswer pool size (.error (valueError "Insufficient memory"), pool)

/-- What `free` can answer. -/
inductive FreeAnswer (pool : TensorMemoryPool) (addr : Int) :
    Except Python.NoReturn Unit × TensorMemoryPool → Prop
  | freed (pool' : TensorMemoryPool) (h : pool.allocatedBlocks.contains addr = true)
      (herase : pool'.allocatedBlocks = pool.allocatedBlocks.erase addr) :
      FreeAnswer pool addr (.ok (), pool')
  | notAllocated (h : pool.allocatedBlocks.contains addr = false) :
      FreeAnswer pool addr (.error (valueError "Invalid address to free"), pool)

/-- Freeing all that is allocated, in any order, leaves the buffer as one free block. -/
def RestoresWhole (pool : TensorMemoryPool) : Prop :=
  ∀ addrs : List Int, addrs.Perm pool.allocatedBlocks.keys →
    (pool.run (addrs.map .free)).allocatedBlocks = Dict.empty ∧
      (pool.run (addrs.map .free)).freeBlocks
        = [{ size := pool.maxBlockSize, addr := pool.baseAddress }]

/-- What calls keep: the smallest block is a power of two, and `MAX_MERGE_DEPTH` merges make the
largest of it. -/
structure Valid (n : Nat) (pool : TensorMemoryPool) : Prop where
  holds : Holds n pool []
  minPow : ∃ a, pool.minBlockSize = 2 ^ a
  depth : 2 ^ n ≤ pool.minBlockSize * 2 ^ maxMergeDepth

/-- The sizes and the base are the same. -/
structure SameRange (pool pool' : TensorMemoryPool) : Prop where
  max : pool'.maxBlockSize = pool.maxBlockSize
  min : pool'.minBlockSize = pool.minBlockSize
  base : pool'.baseAddress = pool.baseAddress

variable {n : Nat} {pool : TensorMemoryPool}

theorem Valid.invariant (h : Valid n pool) : BuddyInvariant pool where
  partition := by
    rw [h.holds.maxPow]
    exact h.holds.tiles.cover
  sizes := by
    intro b hb
    obtain ⟨hpow, hdvd⟩ := h.holds.tiles.aligned b hb
    refine ⟨hpow, h.holds.large b hb, ?_, hdvd⟩
    rw [h.holds.maxPow]
    exact h.holds.tiles.size_le hb
  noBuddies := h.holds.apart

theorem Valid.allocate (h : Valid n pool) (size : Int) :
    AllocateAnswer pool size (pool.allocate size) ∧ Valid n (pool.allocate size).2 ∧
      SameRange pool (pool.allocate size).2 := by
  unfold TensorMemoryPool.allocate
  split
  next hsize => exact ⟨.notPositive hsize, h, rfl, rfl, rfl⟩
  next hsize =>
    have hpos : (0 : Int) < max size pool.minBlockSize := by omega
    have hround : pool.RoundedSize size (pool.requiredSize size) :=
      ⟨Int.not_le.mp hsize, leastPowerOfTwo_round hpos⟩
    split
    next hlarge => exact ⟨.tooLarge _ hround hlarge, h, rfl, rfl, rfl⟩
    next hlarge =>
      have hle := le_roundToPowerOfTwo hpos
      have hpow : pool.requiredSize size = 2 ^ bitLength (max size pool.minBlockSize - 1) :=
        roundToPowerOfTwo_eq _
      have hmin : pool.minBlockSize ≤ pool.requiredSize size := by
        unfold requiredSize
        omega
      have hfuel : pool.maxBlockSize + 2
          ≤ pool.maxBlockSize + 1 + 2 ^ bitLength (max size pool.minBlockSize - 1) := by
        have hone := Nat.two_pow_pos (bitLength (max size pool.minBlockSize - 1))
        omega
      have hanswer := allocateFrom_spec h.holds ⟨_, hpow⟩ hmin (Nat.succ_pos pool.maxBlockSize)
        (Nat.le_of_eq hpow) hfuel (fun b _ hlt => hpow ▸ hlt)
      rw [← hpow] at hanswer
      revert hanswer
      generalize allocateFrom (pool.requiredSize size) (pool.maxBlockSize + 1)
        (pool.requiredSize size) pool = answer
      intro hanswer
      cases hanswer with
      | found pool' addr hholds hmin' hbase hfresh hset =>
        refine ⟨.block pool' { size := pool.requiredSize size, addr := addr } ?_ hround hfresh hset,
          ⟨hholds, hmin' ▸ h.minPow, hmin' ▸ h.depth⟩, ?_, hmin', hbase⟩
        · show size ≤ (roundToPowerOfTwo (max size pool.minBlockSize) : Int)
          omega
        · exact hholds.maxPow.trans h.holds.maxPow.symm
      | insufficient hsmall =>
        exact ⟨.insufficient _ hround (Nat.le_of_not_lt hlarge) hsmall, h, rfl, rfl, rfl⟩

theorem Valid.free (h : Valid n pool) (addr : Int) :
    FreeAnswer pool addr (pool.free addr) ∧ Valid n (pool.free addr).2 ∧
      SameRange pool (pool.free addr).2 := by
  unfold TensorMemoryPool.free
  cases hget : pool.allocatedBlocks.get? addr with
  | none =>
    refine ⟨.notAllocated ?_, h, rfl, rfl, rfl⟩
    unfold Dict.contains
    rw [hget]
    rfl
  | some block =>
    have hholds := h.holds.eraseAllocated hget
    have hrounds : 2 ^ n ≤ block.size * 2 ^ maxMergeDepth :=
      Nat.le_trans h.depth (Nat.mul_le_mul_right _ (hholds.large block List.mem_cons_self))
    obtain ⟨pool', hrun, hholds', hsame⟩ := mergeBuddies_spec hholds hrounds
    dsimp only
    rw [hrun]
    refine ⟨.freed pool' ?_ hsame.allocated, ⟨hholds', ?_, ?_⟩, hsame.max, hsame.min, hsame.base⟩
    · unfold Dict.contains
      rw [hget]
      rfl
    · rw [hsame.min]
      exact h.minPow
    · rw [hsame.min]
      exact h.depth

/-! ## Runs -/

theorem Valid.after (h : Valid n pool) (call : Call) :
    Valid n (pool.after call) ∧ SameRange pool (pool.after call) := by
  cases call with
  | allocate size => exact (h.allocate size).2
  | free addr => exact (h.free addr).2

theorem Valid.run : ∀ (calls : List Call) {pool : TensorMemoryPool}, Valid n pool →
    Valid n (pool.run calls) ∧ SameRange pool (pool.run calls) := by
  intro calls
  induction calls with
  | nil => intro pool h; exact ⟨h, rfl, rfl, rfl⟩
  | cons call calls ih =>
    intro pool h
    obtain ⟨hafter, hmax, hmin, hbase⟩ := h.after call
    obtain ⟨hrun, hmax', hmin', hbase'⟩ := ih hafter
    exact ⟨hrun, hmax'.trans hmax, hmin'.trans hmin, hbase'.trans hbase⟩

theorem keys_erase_perm {d : Dict Int MemoryBlock} {addr : Int} {addrs : List Int}
    (h : (addr :: addrs).Perm d.keys) : addrs.Perm (d.erase addr).keys := by
  have hkeys : (d.erase addr).keys = d.keys.filter fun a => decide (a ≠ addr) := by
    show (d.entries.filter fun e => decide (e.1 ≠ addr)).map Prod.fst
      = (d.entries.map Prod.fst).filter fun a => decide (a ≠ addr)
    rw [List.filter_map]
    rfl
  have hnodup : (addr :: addrs).Nodup := h.nodup_iff.mpr d.nodup
  have hrest : (addrs.filter fun a => decide (a ≠ addr)) = addrs := by
    apply List.filter_eq_self.mpr
    intro a ha
    apply decide_eq_true
    intro heq
    exact (List.nodup_cons.mp hnodup).1 (heq ▸ ha)
  have hfilter := h.filter fun a => decide (a ≠ addr)
  rw [List.filter_cons_of_neg (by simp), hrest, ← hkeys] at hfilter
  exact hfilter

theorem dict_eq_empty {d : Dict Int MemoryBlock} (h : d.keys = []) : d = Dict.empty := by
  obtain ⟨entries, nodup⟩ := d
  cases List.map_eq_nil_iff.mp h
  rfl

/-- The induction is on the addresses: each of them is allocated, and the others are after it. -/
theorem Valid.restoresWhole : ∀ {pool : TensorMemoryPool}, Valid n pool → RestoresWhole pool := by
  intro pool h addrs
  induction addrs generalizing pool with
  | nil =>
    intro hkeys
    have hempty := dict_eq_empty hkeys.symm.eq_nil
    refine ⟨hempty, ?_⟩
    have hblocks : pool.blocks = pool.freeBlocks := by
      unfold blocks
      rw [hempty]
      exact List.append_nil _
    have htiles : Tiles pool.baseAddress n pool.freeBlocks := by
      rw [← hblocks]
      exact h.holds.tiles
    rw [h.holds.maxPow]
    exact htiles.whole h.holds.apart
  | cons addr addrs ih =>
    intro hkeys
    obtain ⟨hanswer, hvalid, hmax, -, hbase⟩ := h.free addr
    have hallocated : pool.allocatedBlocks.contains addr = true :=
      (Dict.mem_keys_iff _).mp (hkeys.mem_iff.mp List.mem_cons_self)
    have herase : (pool.free addr).2.allocatedBlocks = pool.allocatedBlocks.erase addr := by
      revert hanswer
      generalize pool.free addr = answer
      intro hanswer
      cases hanswer with
      | freed pool' _ herase => exact herase
      | notAllocated hnot =>
        rw [hallocated] at hnot
        cases hnot
    have hrest := keys_erase_perm hkeys
    rw [← herase] at hrest
    have hwhole := ih hvalid hrest
    rw [hmax, hbase] at hwhole
    exact hwhole

theorem Fresh.valid {maxBlockSize minBlockSize baseAddress : Int}
    (h : Fresh maxBlockSize minBlockSize baseAddress pool)
    (hratio : pool.maxBlockSize / pool.minBlockSize ≤ 2 ^ 30) :
    Valid (bitLength (maxBlockSize - 1)) pool := by
  have hmin := h.min.trans (roundToPowerOfTwo_eq minBlockSize)
  refine ⟨h.holds, ⟨_, hmin⟩, ?_⟩
  -- The smallest size divides the largest.
  obtain ⟨b, hb⟩ : ∃ b, b ∈ pool.blocks := by
    have hpos := Nat.two_pow_pos (bitLength (maxBlockSize - 1))
    obtain ⟨b, hb, -⟩ := h.holds.tiles.exists_block
      (⟨Int.le_refl _, by omega⟩ : pool.baseAddress ≤ pool.baseAddress ∧ _)
    exact ⟨b, hb⟩
  have hle := Nat.le_trans (h.holds.large b hb) (h.holds.tiles.size_le hb)
  rw [h.holds.maxPow, hmin] at hratio
  rw [hmin] at hle ⊢
  have hexp := (Nat.pow_le_pow_iff_right (Nat.lt_succ_self 1)).mp hle
  rw [Nat.pow_div hexp (Nat.succ_pos 1)] at hratio
  have hdepth := (Nat.pow_le_pow_iff_right (Nat.lt_succ_self 1)).mp hratio
  rw [← Nat.pow_add]
  apply Nat.pow_le_pow_right (Nat.succ_pos 1)
  show bitLength (maxBlockSize - 1) ≤ bitLength (minBlockSize - 1) + 30
  omega

/-- The range of a pool: its sizes are the given ones, rounded to powers of two, and its buffer begins
at the given address. -/
structure Ranges (maxBlockSize minBlockSize baseAddress : Int) (pool : TensorMemoryPool) : Prop where
  max : LeastPowerOfTwo maxBlockSize pool.maxBlockSize
  min : LeastPowerOfTwo minBlockSize pool.minBlockSize
  base : pool.baseAddress = baseAddress

/-- **The buddy allocator**, after every run of calls. -/
theorem pool_sound {maxBlockSize minBlockSize baseAddress : Int} {pool : TensorMemoryPool}
    (hnew : new maxBlockSize minBlockSize baseAddress = .ok pool)
    (hratio : pool.maxBlockSize / pool.minBlockSize ≤ 2 ^ 30) (calls : List Call) :
    Ranges maxBlockSize minBlockSize baseAddress (pool.run calls) ∧ BuddyInvariant (pool.run calls) ∧
      (∀ size, AllocateAnswer (pool.run calls) size ((pool.run calls).allocate size)) ∧
      (∀ addr, FreeAnswer (pool.run calls) addr ((pool.run calls).free addr)) ∧
      RestoresWhole (pool.run calls) := by
  have hfresh := fresh_of_new hnew
  obtain ⟨hvalid, hmax, hmin, hbase⟩ := (hfresh.valid hratio).run calls
  obtain ⟨hminPos, hle⟩ := sizes_of_new hnew
  refine ⟨⟨?_, ?_, hbase.trans hfresh.base⟩, hvalid.invariant, fun size => (hvalid.allocate size).1,
    fun addr => (hvalid.free addr).1, hvalid.restoresWhole⟩
  · rw [hmax, hfresh.max]
    exact leastPowerOfTwo_round (Int.lt_of_lt_of_le hminPos hle)
  · rw [hmin, hfresh.min]
    exact leastPowerOfTwo_round hminPos

/-- The answers of some calls, one after the other; `free` answers zero. -/
def answers (pool : TensorMemoryPool) : List Call → List (Except Python.NoReturn Int)
  | [] => []
  | .allocate size :: calls => (pool.allocate size).1 :: (pool.allocate size).2.answers calls
  | .free addr :: calls => (pool.free addr).1.map (fun _ => 0) :: (pool.free addr).2.answers calls

/-- A pool of eight bytes in blocks of two or more. -/
theorem smallPool_sound : ∃ pool, new 8 2 100 = .ok pool ∧
    pool.maxBlockSize / pool.minBlockSize ≤ 2 ^ 30 ∧
    pool.answers [.allocate 3, .allocate 1, .free 100, .allocate 5, .allocate 9, .free 100, .free 104,
        .allocate 8] =
      [.ok 100, .ok 104, .ok 0, .error (valueError "Insufficient memory"),
        .error (valueError "Requested size exceeds maximum block size"),
        .error (valueError "Invalid address to free"), .ok 0, .ok 100] ∧
    Ranges 8 2 100 (pool.run [.allocate 3, .allocate 1, .free 100]) ∧
    BuddyInvariant (pool.run [.allocate 3, .allocate 1, .free 100]) ∧
      (∀ size, AllocateAnswer (pool.run [.allocate 3, .allocate 1, .free 100]) size
        ((pool.run [.allocate 3, .allocate 1, .free 100]).allocate size)) ∧
      (∀ addr, FreeAnswer (pool.run [.allocate 3, .allocate 1, .free 100]) addr
        ((pool.run [.allocate 3, .allocate 1, .free 100]).free addr)) ∧
      RestoresWhole (pool.run [.allocate 3, .allocate 1, .free 100]) := by
  obtain ⟨pool, hnew⟩ : ∃ pool, new 8 2 100 = .ok pool := ⟨_, rfl⟩
  have hpool : (new 8 2 100).map (fun pool => (decide (pool.maxBlockSize / pool.minBlockSize ≤ 2 ^ 30),
      pool.answers [.allocate 3, .allocate 1, .free 100, .allocate 5, .allocate 9, .free 100, .free 104,
        .allocate 8])) =
    .ok (true, [.ok 100, .ok 104, .ok 0, .error (valueError "Insufficient memory"),
      .error (valueError "Requested size exceeds maximum block size"),
      .error (valueError "Invalid address to free"), .ok 0, .ok 100]) := rfl
  rw [hnew] at hpool
  obtain ⟨hratio, hanswers⟩ := Prod.mk.inj (Except.ok.inj hpool)
  have hratio : pool.maxBlockSize / pool.minBlockSize ≤ 2 ^ 30 := of_decide_eq_true hratio
  exact ⟨pool, hnew, hratio, hanswers, pool_sound hnew hratio _⟩

end TensorMemoryPool

end VllmEngine.Distributed
