import Mathlib.Algebra.Order.BigOperators.Group.Finset
import Mathlib.Algebra.BigOperators.Ring.Finset
import Mathlib.Order.Interval.Finset.Nat
import VllmEngine.Kv.Allocate

/-!
# One request alone in the KV cache manager

A request of full-attention and sliding-window groups that is computed chunk by
chunk, with no other request in the manager. After `c` computed tokens each
group's list has one block for every started block of tokens, null blocks up to
the window and other blocks behind it (`Holds`). The number of free blocks is
then known exactly: the accounting of the pool bounds it from below, the
counter of the queue from above.

> `allocateSlots_solo`: a chunk is refused exactly if the blocks of the window
> and of the chunk are more than the pool's blocks without the null block.
-/

namespace VllmEngine

open SingleTypeManager KVCacheManager

variable {H : Type} [DecidableEq H]

/-! ## Block counts -/

namespace KVCacheSpec

/-- Full attention without sinks, or a window of at least one token. -/
def isServable (s : KVCacheSpec) : Bool :=
  match s.kind with
  | .fullAttention .. | .tqFullAttention .. | .mlaAttention .. => true
  | .slidingWindow _ w => decide (0 < w)
  | .chunkedLocalAttention .. | .sinkFullAttention .. | .mamba .. | .crossAttention .. => false

/-- The blocks that `numTokens` tokens start. -/
def blocksFor (s : KVCacheSpec) (numTokens : Nat) : Nat :=
  (numTokens + s.blockSize - 1) / s.blockSize

/-- The blocks in front of the window after `numComputedTokens` tokens. -/
def skippedBlocks (s : KVCacheSpec) (numComputedTokens : Nat) : Nat :=
  match s.kind with
  | .slidingWindow _ w => (numComputedTokens + 1 - w) / s.blockSize
  | _ => 0

theorem isPlainAttention_of_servable {s : KVCacheSpec} (h : s.isServable = true) : s.isPlainAttention = true := by
  unfold isServable at h
  unfold isPlainAttention
  cases hk : s.kind <;> simp_all

theorem skippedBlocks_mono (s : KVCacheSpec) {c c' : Nat} (h : c' ≤ c) :
    s.skippedBlocks c' ≤ s.skippedBlocks c := by
  unfold skippedBlocks
  split
  · exact Nat.div_le_div_right (by omega)
  · exact Nat.le_refl 0

theorem blocksFor_mono (s : KVCacheSpec) {c c' : Nat} (h : c' ≤ c) :
    s.blocksFor c' ≤ s.blocksFor c :=
  Nat.div_le_div_right (by omega)

theorem skippedBlocks_le_blocksFor {s : KVCacheSpec} (hs : s.isServable = true)
    (hbs : 0 < s.blockSize) (c : Nat) : s.skippedBlocks c ≤ s.blocksFor c := by
  unfold skippedBlocks
  split
  · rename_i w hk
    simp only [isServable, hk, decide_eq_true_eq] at hs
    exact Nat.div_le_div_right (by omega)
  · exact Nat.zero_le _

@[simp] theorem blocksFor_zero {s : KVCacheSpec} (hbs : 0 < s.blockSize) : s.blocksFor 0 = 0 :=
  Nat.div_eq_of_lt (by omega)

end KVCacheSpec

/-- The blocks that the groups hold between the windows after `c'` tokens and
the end of `c` tokens. -/
def heldBlocks (specs : List KVCacheSpec) (c' c : Nat) : Int :=
  (specs.map fun s => (s.blocksFor c : Int) - s.skippedBlocks c').sum

theorem heldBlocks_nonneg {specs : List KVCacheSpec} (hs : ∀ s ∈ specs, s.isServable = true)
    (hbs : ∀ s ∈ specs, 0 < s.blockSize) {c' c : Nat} (hc : c' ≤ c) : 0 ≤ heldBlocks specs c' c := by
  refine List.sum_nonneg fun x hx => ?_
  obtain ⟨s, hmem, rfl⟩ := List.mem_map.mp hx
  have h1 := KVCacheSpec.skippedBlocks_le_blocksFor (hs s hmem) (hbs s hmem) c'
  have h2 := s.blocksFor_mono hc
  omega

section Counts

variable {m : SingleTypeManager H} (hs : m.spec.isServable = true) (hbs : 0 < m.spec.blockSize)

omit [DecidableEq H] in
include hbs in
theorem numRequiredBlocks_natCast (n : Nat) :
    m.numRequiredBlocks (n : Int) = m.spec.blocksFor n := by
  have hbs' : (0 : Int) < m.spec.blockSize := by exact_mod_cast hbs
  -- both sides are the least number of blocks that reaches `n`
  have hle : ∀ x : Nat, m.spec.blocksFor n ≤ x ↔ n ≤ x * m.spec.blockSize := by
    intro x
    rw [KVCacheSpec.blocksFor, Nat.div_le_iff_le_mul hbs, Nat.mul_comm]
    omega
  unfold numRequiredBlocks
  refine le_antisymm ((Python.cdiv_le_iff hbs').mpr ?_) ?_
  · exact_mod_cast (hle _).mp (Nat.le_refl _)
  · have hnonneg : 0 ≤ Python.cdiv (n : Int) m.spec.blockSize := by
      have := (Python.lt_cdiv_iff (a := (n : Int)) (n := -1) hbs').mpr (by omega)
      omega
    obtain ⟨x, hx⟩ := Int.eq_ofNat_of_zero_le hnonneg
    rw [hx]
    refine Int.ofNat_le.mpr ((hle x).mpr ?_)
    exact_mod_cast (Python.cdiv_le_iff hbs').mp (Int.le_of_eq hx)

omit [DecidableEq H] in
include hs in
theorem numSkippedBlocks_natCast (c : Nat) :
    m.numSkippedBlocks (c : Int) = m.spec.skippedBlocks c := by
  unfold numSkippedBlocks getNumSkippedTokens KVCacheSpec.skippedBlocks
  unfold KVCacheSpec.isServable at hs
  cases hk : m.spec.kind with
  | slidingWindow a w =>
    have hmax : max 0 ((c : Int) - w + 1) = ((c + 1 - w : Nat) : Int) := by omega
    simp only [hmax]
    rw [Int.fdiv_eq_ediv_of_nonneg _ (by omega)]
    rfl
  | _ => simp_all

end Counts

/-! ## The list of one group -/

/-- The manager holds blocks for the request only: null blocks up to the window
after `c'` tokens, other blocks behind it, and enough of them for `c` tokens. -/
structure Holds (reqId : ReqId) (c' c : Nat) (m : SingleTypeManager H) : Prop where
  only : ∀ b, m.occurrences b = (m.reqBlocks reqId).count b
  length : (m.reqBlocks reqId).length = m.spec.blocksFor c
  window : ∀ i b, (m.reqBlocks reqId)[i]? = some b → (b = nullBlock ↔ i < m.spec.skippedBlocks c')

/-- The list has null blocks exactly in front of index `z`. -/
theorem countP_window {z : Nat} : ∀ {l : List BlockId}, z ≤ l.length →
    (∀ i b, l[i]? = some b → (b = nullBlock ↔ i < z)) →
    l.countP (fun b => decide (b ≠ nullBlock)) = l.length - z := by
  intro l hz hw
  have htake : (l.take z).countP (fun b => decide (b ≠ nullBlock)) = 0 := by
    rw [List.countP_eq_zero]
    intro b hb
    obtain ⟨i, hi⟩ := List.getElem?_of_mem hb
    have hiz : i < z := by
      have := (List.getElem?_eq_some_iff.mp hi).1
      rw [List.length_take] at this
      omega
    simpa using (hw i b (getElem?_of_take hi)).mpr hiz
  have hdrop : (l.drop z).countP (fun b => decide (b ≠ nullBlock)) = (l.drop z).length := by
    rw [List.countP_eq_length]
    intro b hb
    obtain ⟨i, hi⟩ := List.getElem?_of_mem hb
    rw [List.getElem?_drop] at hi
    simpa using fun hnull => absurd ((hw _ b hi).mp hnull) (by omega)
  rw [← List.take_append_drop z l, List.countP_append, htake, hdrop]
  simp

/-- The skip loop takes the blocks between the old and the new window. -/
theorem skipLoop_window :
    ∀ (n : Nat) {z : Nat} (l : List BlockId), z ≤ n → n ≤ l.length →
      (∀ i b, i < n → l[i]? = some b → (b = nullBlock ↔ i < z)) →
      (skipLoop n l).2.length = n - z ∧ (skipLoop n l).1.length = l.length ∧
        ∀ i, (skipLoop n l).1[i]? = if i < n then some nullBlock else l[i]? := by
  intro n
  induction n with
  | zero => intro z l hz _ _; simp [skipLoop]
  | succ n ih =>
    intro z l hz hlen hw
    rw [skipLoop, List.getElem?_eq_getElem (by omega)]
    dsimp only
    have hn := hw n l[n] (by omega) (List.getElem?_eq_getElem (by omega))
    by_cases hnull : l[n] = nullBlock
    · -- the loop stops where the old window ended
      rw [if_pos hnull]
      have hzn : z = n + 1 := by
        have := hn.mp hnull
        omega
      refine ⟨by simp [hzn], rfl, fun i => ?_⟩
      dsimp only
      by_cases hi : i < n + 1
      · rw [if_pos hi, List.getElem?_eq_getElem (by omega), Option.some.injEq]
        exact (hw i _ hi (List.getElem?_eq_getElem (by omega))).mpr (by omega)
      · rw [if_neg hi]
    · rw [if_neg hnull]
      have hzn : z ≤ n := by
        have : ¬ n < z := fun h => hnull (hn.mpr h)
        omega
      obtain ⟨h1, h2, h3⟩ := ih (z := z) (l.set n nullBlock) hzn (by rw [List.length_set]; omega)
        fun i b hi hb => hw i b (by omega) (by rwa [List.getElem?_set_ne (by omega)] at hb)
      refine ⟨by rw [List.length_cons, h1]; omega, by rw [h2, List.length_set], fun i => ?_⟩
      dsimp only
      rw [h3]
      by_cases hi : i < n
      · rw [if_pos hi, if_pos (by omega)]
      · rw [if_neg hi]
        by_cases hin : i = n
        · subst hin
          rw [if_pos (by omega), List.getElem?_set_self (by omega)]
        · rw [if_neg (by omega), List.getElem?_set_ne (by omega)]

omit [DecidableEq H] in
theorem freeBlocksOf_num_le (p : BlockPool H) (bs : List BlockId) :
    (p.freeBlocksOf bs).numFreeBlocks ≤ p.numFreeBlocks + bs.length := by
  have := List.length_filter_le (fun b => decide ((p.freeBlocksOf bs).refCnt b = 0 ∧ b ≠ nullBlock)) bs
  show p.numFreeBlocks + _ ≤ _
  exact Int.add_le_add_left (by exact_mod_cast this) _

section Manager

variable {m : SingleTypeManager H} {reqId : ReqId} {c' c : Nat}
  (hs : m.spec.isServable = true) (hbs : 0 < m.spec.blockSize)

omit [DecidableEq H] in
include hs hbs in
theorem Holds.live (h : Holds reqId c' c m) (hc : c' ≤ c) :
    ((m.reqBlocks reqId).countP (fun b => decide (b ≠ nullBlock)) : Int)
      = (m.spec.blocksFor c : Int) - m.spec.skippedBlocks c' := by
  have h1 := KVCacheSpec.skippedBlocks_le_blocksFor hs hbs c
  have h2 := m.spec.skippedBlocks_mono hc
  rw [countP_window (by rw [h.length]; omega) h.window, h.length]
  omega

omit [DecidableEq H] in
/-- Replacing the request's list keeps it the only one. -/
theorem setBlocks_only (h : ∀ b, m.occurrences b = (m.reqBlocks reqId).count b)
    (blocks : List BlockId) (b : BlockId) :
    (m.setBlocks reqId blocks).occurrences b = ((m.setBlocks reqId blocks).reqBlocks reqId).count b := by
  have := m.setBlocks_occurrences reqId blocks b
  rw [h b] at this
  rw [setBlocks_reqBlocks]
  omega

omit [DecidableEq H] in
theorem Holds.of_lists {m' : SingleTypeManager H} (h : Holds reqId c' c m)
    (hlists : m'.reqToBlocks = m.reqToBlocks) (hspec : m'.spec = m.spec) :
    Holds reqId c' c m' := by
  have hblocks : m'.reqBlocks reqId = m.reqBlocks reqId := by
    rw [reqBlocks, hlists, reqBlocks]
  refine ⟨fun b => ?_, by rw [hblocks, hspec, h.length], by rw [hblocks, hspec]; exact h.window⟩
  rw [hblocks, ← h.only, occurrences, hlists, occurrences]

omit [DecidableEq H] in
theorem Holds.withEntry (h : Holds reqId c' c m) : Holds reqId c' c (m.withEntry reqId) := by
  have hentry : (m.withEntry reqId).reqBlocks reqId = m.reqBlocks reqId := by
    rw [SingleTypeManager.withEntry, setBlocks_reqBlocks]
  exact ⟨setBlocks_only h.only _, by rw [hentry, h.length]; rfl, by rw [hentry]; exact h.window⟩

omit [DecidableEq H] in
include hs hbs in
theorem removeSkippedBlocks_holds (p : BlockPool H) (h : Holds reqId c' c m) (hc : c' ≤ c) :
    Holds reqId c c (m.baseRemoveSkippedBlocks p reqId c).2 ∧
      (m.baseRemoveSkippedBlocks p reqId c).1.numFreeBlocks
        + ((m.spec.blocksFor c : Int) - m.spec.skippedBlocks c)
        ≤ p.numFreeBlocks + ((m.spec.blocksFor c : Int) - m.spec.skippedBlocks c') := by
  have hle := KVCacheSpec.skippedBlocks_le_blocksFor hs hbs c
  have hmono := m.spec.skippedBlocks_mono hc
  unfold baseRemoveSkippedBlocks
  split
  · rename_i h0
    -- no token is skipped, so no block is
    have hz : m.spec.skippedBlocks c = 0 := by
      have := numSkippedBlocks_natCast hs c
      unfold numSkippedBlocks at this
      have hneg : Int.fdiv (m.getNumSkippedTokens c) m.spec.blockSize ≤ 0 := by
        rw [Int.fdiv_eq_ediv_of_nonneg _ (by omega)]
        exact Int.ediv_nonpos_of_nonpos_of_neg h0 (by omega)
      omega
    refine ⟨⟨h.only, h.length, ?_⟩, by dsimp only; omega⟩
    have : m.spec.skippedBlocks c' = m.spec.skippedBlocks c := by omega
    rw [← this]
    exact h.window
  · dsimp only
    have hn : (min (m.numSkippedBlocks c) ((m.reqBlocks reqId).length : Int)).toNat
        = m.spec.skippedBlocks c := by
      rw [numSkippedBlocks_natCast hs, h.length]
      omega
    rw [hn]
    obtain ⟨h1, h2, h3⟩ := skipLoop_window (m.spec.skippedBlocks c) (m.reqBlocks reqId) hmono
      (by rw [h.length]; exact hle) fun i b _ hb => h.window i b hb
    have hfree := freeBlocksOf_num_le p (skipLoop (m.spec.skippedBlocks c) (m.reqBlocks reqId)).2
    refine ⟨⟨setBlocks_only h.only _, ?_, fun i b hb => ?_⟩, by omega⟩
    · rw [setBlocks_reqBlocks, h2, h.length]
      rfl
    · rw [setBlocks_reqBlocks, h3] at hb
      show _ ↔ i < m.spec.skippedBlocks c
      by_cases hi : i < m.spec.skippedBlocks c
      · rw [if_pos hi] at hb
        simp [← Option.some.inj hb, hi]
      · rw [if_neg hi] at hb
        rw [h.window i b hb]
        omega

include hs hbs in
theorem allocateNewBlocks_holds {p p' : BlockPool H} {m' : SingleTypeManager H} {n : Nat}
    {new : List BlockId} (h : Holds reqId c c m) (hn : c ≤ n) (hnull : nullBlock ∉ p.freeBlocks)
    (halloc : m.baseAllocateNewBlocks p reqId n = .ok (p', m', new)) :
    nullBlock ∉ p'.freeBlocks ∧ Holds reqId c n m' ∧ m'.spec = m.spec ∧
      p'.numFreeBlocks + ((m.spec.blocksFor n : Int) - m.spec.skippedBlocks c)
        ≤ p.numFreeBlocks + ((m.spec.blocksFor c : Int) - m.spec.skippedBlocks c) := by
  have hmono := m.spec.blocksFor_mono hn
  unfold baseAllocateNewBlocks at halloc
  dsimp only at halloc
  have hreq : (m.withEntry reqId).numRequiredBlocks n = m.spec.blocksFor n :=
    numRequiredBlocks_natCast (m := m.withEntry reqId) hbs n
  have hentry : (m.withEntry reqId).reqBlocks reqId = m.reqBlocks reqId := by
    rw [SingleTypeManager.withEntry, setBlocks_reqBlocks]
  rw [hreq, hentry, h.length] at halloc
  have hwith := h.withEntry
  split at halloc
  · simp only [Except.ok.injEq, Prod.mk.injEq] at halloc
    obtain ⟨rfl, rfl, -⟩ := halloc
    have heq : m.spec.blocksFor n = m.spec.blocksFor c := by omega
    refine ⟨hnull, ⟨hwith.only, ?_, hwith.window⟩, rfl, by omega⟩
    rw [hwith.length]
    exact heq.symm
  · rename_i hpos
    simp only [Raises.bind_eq_ok, Raises.pure_eq_ok] at halloc
    obtain ⟨⟨q, bs⟩, hnew, heq⟩ := halloc
    simp only [Prod.mk.injEq] at heq
    obtain ⟨rfl, rfl, -⟩ := heq
    obtain ⟨hlen, htaken, hrest, hnum⟩ := BlockPool.getNewBlocks_queue (by omega) hnew
    have happ : ((m.withEntry reqId).appendBlocks reqId bs).reqBlocks reqId = m.reqBlocks reqId ++ bs := by
      show ((m.withEntry reqId).setBlocks reqId _).reqBlocks reqId = _
      rw [setBlocks_reqBlocks, hentry]
    refine ⟨fun hmem => hnull (List.mem_of_mem_drop (hrest ▸ hmem)),
      ⟨?_, ?_, fun i b hb => ?_⟩, rfl, by omega⟩
    · exact setBlocks_only hwith.only _
    · rw [happ, List.length_append, h.length]
      show _ = m.spec.blocksFor n
      omega
    · rw [happ] at hb
      show _ ↔ i < m.spec.skippedBlocks c
      by_cases hi : i < (m.reqBlocks reqId).length
      · rw [List.getElem?_append_left hi] at hb
        exact h.window i b hb
      · rw [List.getElem?_append_right (by omega)] at hb
        have hle := KVCacheSpec.skippedBlocks_le_blocksFor hs hbs c
        rw [h.length] at hi
        constructor
        · rintro rfl
          rw [htaken] at hb
          exact absurd (List.mem_of_mem_take (List.mem_of_getElem? hb)) hnull
        · intro hlt
          omega

omit [DecidableEq H] in
include hs hbs in
/-- A new chunk takes the blocks it starts; without hits a first chunk is
counted like a later one. -/
theorem baseNumBlocksToAllocate_holds (p : BlockPool H) (h : Holds reqId c c m) {n : Nat}
    (hn : c ≤ n) :
    m.baseNumBlocksToAllocate p reqId n [] c
      = .ok ((m.spec.blocksFor n : Int) - m.spec.blocksFor c) := by
  have hmono := m.spec.blocksFor_mono hn
  have hle := KVCacheSpec.skippedBlocks_le_blocksFor hs hbs c
  unfold baseNumBlocksToAllocate
  dsimp only
  rw [numRequiredBlocks_natCast hbs, numSkippedBlocks_natCast hs, h.length]
  split
  · rw [List.length_nil, if_pos rfl, Except.ok.injEq]
    omega
  · simp only [List.length_nil, List.drop_nil, getNumEvictableBlocks, List.countP_nil,
      Except.ok.injEq]
    omega

theorem cacheFullBlocks_num {p p' : BlockPool H} {r : Request H} {bs : List BlockId}
    {cached full blockSize : Nat} {g : GroupId}
    (h : p.cacheFullBlocks r bs cached full blockSize g = .ok p') :
    p'.numFreeBlocks = p.numFreeBlocks := by
  unfold BlockPool.cacheFullBlocks at h
  split at h
  · rw [← Raises.pure_eq_ok.mp h]
  · simp only [Raises.bind_eq_ok] at h
    obtain ⟨-, -, -, -, h⟩ := h
    refine Raises.foldlM_inv (I := fun q => q.numFreeBlocks = p.numFreeBlocks) _ p p'
      (fun e _ t t' ht hstep => ?_) rfl h
    unfold BlockPool.cacheBlock at hstep
    dsimp only at hstep
    split at hstep
    · rw [← Except.ok.inj hstep, ht]
    · split at hstep
      · cases hstep
      · split at hstep
        · cases hstep
        · rw [← Except.ok.inj hstep, ← ht]

theorem cacheBlocks_holds {p p' : BlockPool H} {m' : SingleTypeManager H} {r : Request H} {n : Int}
    (h : Holds r.requestId c' c m) (hcache : m.baseCacheBlocks p r n = .ok (p', m')) :
    Holds r.requestId c' c m' ∧ m'.spec = m.spec ∧ p'.numFreeBlocks = p.numFreeBlocks := by
  unfold baseCacheBlocks at hcache
  dsimp only at hcache
  split at hcache
  · obtain ⟨rfl, rfl⟩ := Prod.mk.inj (Except.ok.inj hcache)
    exact ⟨h, rfl, rfl⟩
  · simp only [Raises.bind_eq_ok, Raises.pure_eq_ok] at hcache
    obtain ⟨q, hq, heq⟩ := hcache
    obtain ⟨rfl, rfl⟩ := Prod.mk.inj heq
    exact ⟨h.withEntry.of_lists rfl rfl, rfl, cacheFullBlocks_num hq⟩

end Manager

/-! ## The number of free blocks -/

theorem sum_count_le (n : Nat) (l : List BlockId) :
    ∑ b ∈ Finset.Ico 1 n, l.count b ≤ l.countP fun b => decide (b ≠ nullBlock) := by
  induction l with
  | nil => simp
  | cons x l ih =>
    have hx : ∑ b ∈ Finset.Ico 1 n, (if (x == b) = true then 1 else 0)
        ≤ if decide (x ≠ nullBlock) = true then 1 else 0 := by
      simp only [beq_iff_eq, Finset.sum_ite_eq, Finset.mem_Ico, nullBlock]
      by_cases h0 : x = 0
      · simp [h0]
      · split <;> simp [h0]
    calc ∑ b ∈ Finset.Ico 1 n, (x :: l).count b
        = ∑ b ∈ Finset.Ico 1 n, l.count b
          + ∑ b ∈ Finset.Ico 1 n, (if (x == b) = true then 1 else 0) := by
            rw [← Finset.sum_add_distrib]
            exact Finset.sum_congr rfl fun b _ => List.count_cons
      _ ≤ (x :: l).countP fun b => decide (b ≠ nullBlock) := by
            rw [List.countP_cons]
            exact Nat.add_le_add ih hx

omit [DecidableEq H] in
/-- A block that is not free is referenced. -/
theorem BlockPool.Accounted.num_ge {p : BlockPool H} {refs : BlockId → Nat} (h : p.Accounted refs) :
    (p.numGpuBlocks : Int) - 1 ≤ p.numFreeBlocks + ∑ b ∈ Finset.Ico 1 p.numGpuBlocks, refs b := by
  have hfree : p.freeBlocks.toFinset
      = (Finset.Ico 1 p.numGpuBlocks).filter fun b => refs b = 0 := by
    ext b
    rw [List.mem_toFinset, h.mem_free, Finset.mem_filter, Finset.mem_Ico, nullBlock,
      Nat.one_le_iff_ne_zero, and_assoc]
  have hcard : p.freeBlocks.length = ∑ b ∈ Finset.Ico 1 p.numGpuBlocks, if refs b = 0 then 1 else 0 := by
    rw [← List.toFinset_card_of_nodup h.nodup, hfree, Finset.card_filter]
  have hone : ∑ b ∈ Finset.Ico 1 p.numGpuBlocks, 1
      ≤ ∑ b ∈ Finset.Ico 1 p.numGpuBlocks, ((if refs b = 0 then 1 else 0) + refs b) := by
    refine Finset.sum_le_sum fun b _ => ?_
    split <;> omega
  rw [Finset.sum_add_distrib, ← hcard, ← Finset.card_eq_sum_ones, Nat.card_Ico] at hone
  rw [h.num]
  omega

omit [DecidableEq H] in
/-- One manager after the other: an invariant of the pool, a change of every
manager and a bound on what the pool and the managers weigh together. -/
theorem mapManagers_inv {α : Type}
    {f : Nat → BlockPool H → SingleTypeManager H →
      Except Python.Error (BlockPool H × SingleTypeManager H × α)}
    {I : BlockPool H → Prop} {A B : SingleTypeManager H → Prop} {w v : KVCacheSpec → Int}
    (hf : ∀ i q m q' m' a, I q → A m → f i q m = .ok (q', m', a) → I q' ∧ B m' ∧
      m'.spec = m.spec ∧ q'.numFreeBlocks + v m.spec ≤ q.numFreeBlocks + w m.spec) :
    ∀ (ms : List (SingleTypeManager H)) (i : Nat) {p p' : BlockPool H}
      {ms' : List (SingleTypeManager H)} {as : List α},
      KVCacheCoordinator.mapManagers f i p ms = .ok (p', ms', as) → I p → (∀ m ∈ ms, A m) →
      (∀ m ∈ ms', B m) ∧ p'.numFreeBlocks + (ms.map fun m => v m.spec).sum
        ≤ p.numFreeBlocks + (ms.map fun m => w m.spec).sum := by
  intro ms
  induction ms with
  | nil =>
    intro i p p' ms' as h _ _
    simp only [KVCacheCoordinator.mapManagers, Except.ok.injEq, Prod.mk.injEq] at h
    obtain ⟨rfl, rfl, -⟩ := h
    exact ⟨by simp, Int.le_refl _⟩
  | cons m ms ih =>
    intro i p p' ms' as h hI hA
    simp only [KVCacheCoordinator.mapManagers, Raises.bind_eq_ok, Raises.pure_eq_ok] at h
    obtain ⟨⟨q, m₁, a⟩, hm, ⟨q', ms₁, as₁⟩, hms, heq⟩ := h
    simp only [Prod.mk.injEq] at heq
    obtain ⟨rfl, rfl, -⟩ := heq
    obtain ⟨hI', hB, -, hw⟩ := hf i p m q m₁ a hI (hA m List.mem_cons_self) hm
    obtain ⟨hall, hsum⟩ := ih (i + 1) hms hI' fun m' hm' => hA m' (List.mem_cons_of_mem m hm')
    refine ⟨fun m' hm' => ?_, ?_⟩
    · rcases List.mem_cons.mp hm' with rfl | hm'
      · exact hB
      · exact hall m' hm'
    · dsimp only at hsum
      simp only [List.map_cons, List.sum_cons]
      omega

/-! ## The state -/

/-- The request is alone: the invariant of the coordinator, the lists of the
request and the bound on the free blocks that the counter gives. -/
structure Solo (specs : List KVCacheSpec) (reqId : ReqId) (c' c : Nat) (k : KVCacheCoordinator H) :
    Prop where
  ok : CoordinatorOk specs k
  holds : ∀ m ∈ k.singleTypeManagers, Holds reqId c' c m
  upper : k.blockPool.numFreeBlocks + heldBlocks specs c' c ≤ (k.blockPool.numGpuBlocks : Int) - 1

section Solo

variable {specs : List KVCacheSpec} {reqId : ReqId} {c' c : Nat} {k k₁ : KVCacheCoordinator H}
  (hs : ∀ s ∈ specs, s.isServable = true) (hbs : ∀ s ∈ specs, 0 < s.blockSize)

theorem CoordinatorOk.heldBlocks_eq (h : CoordinatorOk specs k) (c' c : Nat) :
    heldBlocks specs c' c
      = (k.singleTypeManagers.map fun m =>
          (m.spec.blocksFor c : Int) - m.spec.skippedBlocks c').sum := by
  rw [heldBlocks, ← h.specs, List.map_map]
  rfl

theorem CoordinatorOk.spec_mem (h : CoordinatorOk specs k) {m : SingleTypeManager H}
    (hm : m ∈ k.singleTypeManagers) : m.spec ∈ specs := by
  rw [← h.specs]
  exact List.mem_map_of_mem hm

include hs hbs in
/-- **The free blocks of a lone request.** -/
theorem Solo.numFreeBlocks_eq (h : Solo specs reqId c' c k) (hc : c' ≤ c) :
    k.blockPool.numFreeBlocks
      = (k.blockPool.numGpuBlocks : Int) - 1 - heldBlocks specs c' c := by
  have hge := h.ok.balanced.accounted.num_ge
  have hall : ∀ ms : List (SingleTypeManager H), (∀ m ∈ ms, Holds reqId c' c m ∧ m.spec ∈ specs) →
      ((∑ b ∈ Finset.Ico 1 k.blockPool.numGpuBlocks, occurrencesAll ms b : Nat) : Int)
        ≤ (ms.map fun m => (m.spec.blocksFor c : Int) - m.spec.skippedBlocks c').sum := by
    intro ms
    induction ms with
    | nil => intro _; simp [occurrencesAll]
    | cons m ms ih =>
      intro hms
      obtain ⟨hm, hspec⟩ := hms m List.mem_cons_self
      have htail := ih fun m' hm' => hms m' (List.mem_cons_of_mem m hm')
      have hhead := sum_count_le k.blockPool.numGpuBlocks (m.reqBlocks reqId)
      have hlive := hm.live (hs _ hspec) (hbs _ hspec) hc
      have hsplit : ∑ b ∈ Finset.Ico 1 k.blockPool.numGpuBlocks, occurrencesAll (m :: ms) b
          = ∑ b ∈ Finset.Ico 1 k.blockPool.numGpuBlocks, (m.reqBlocks reqId).count b
            + ∑ b ∈ Finset.Ico 1 k.blockPool.numGpuBlocks, occurrencesAll ms b := by
        rw [← Finset.sum_add_distrib]
        refine Finset.sum_congr rfl fun b _ => ?_
        rw [← hm.only b]
        rfl
      rw [hsplit, List.map_cons, List.sum_cons]
      omega
  have := hall k.singleTypeManagers fun m hm => ⟨h.holds m hm, h.ok.spec_mem hm⟩
  rw [← h.ok.heldBlocks_eq] at this
  have hup := h.upper
  simp only [Nat.zero_add] at hge
  omega

include hs in
theorem plain_of_servable : ∀ s ∈ specs, s.isPlainAttention = true :=
  fun s hmem => KVCacheSpec.isPlainAttention_of_servable (hs s hmem)

include hs hbs in
theorem removeSkippedBlocks_solo (h : Solo specs reqId c' c k) (hc : c' ≤ c)
    (hstep : k.removeSkippedBlocks reqId c = .ok k₁) : Solo specs reqId c c k₁ := by
  have hco := coordinator_removeSkippedBlocks h.ok hstep
  simp only [KVCacheCoordinator.removeSkippedBlocks, KVCacheCoordinator.onManagers,
    Raises.bind_eq_ok, Raises.pure_eq_ok] at hstep
  obtain ⟨⟨k₂, as⟩, ⟨⟨p, ms, as'⟩, hmap, heq⟩, rfl⟩ := hstep
  obtain ⟨rfl, -⟩ := Prod.mk.inj heq
  obtain ⟨hall, hsum⟩ := mapManagers_inv (I := fun _ => True)
    (A := fun m => Holds reqId c' c m ∧ m.spec ∈ specs) (B := Holds reqId c c)
    (w := fun s => (s.blocksFor c : Int) - s.skippedBlocks c')
    (v := fun s => (s.blocksFor c : Int) - s.skippedBlocks c)
    (fun i q m q' m' a _ hA hfm => by
      rw [removeSkippedBlocks_eq (KVCacheSpec.isPlainAttention_of_servable (hs _ hA.2))] at hfm
      simp only [Except.ok.injEq, Prod.mk.injEq] at hfm
      obtain ⟨rfl, rfl, -⟩ := hfm
      obtain ⟨h1, h2⟩ := removeSkippedBlocks_holds (hs _ hA.2) (hbs _ hA.2) q hA.1 hc
      exact ⟨trivial, h1, (removeSkippedBlocks_keeps q m reqId c).spec, h2⟩)
    _ 0 hmap trivial fun m hm => ⟨h.holds m hm, h.ok.spec_mem hm⟩
  refine ⟨hco.ok, hall, ?_⟩
  have hup := h.upper
  rw [h.ok.heldBlocks_eq] at hup
  rw [← h.ok.heldBlocks_eq c c] at hsum
  rw [hco.numGpuBlocks]
  dsimp only
  omega

omit [DecidableEq H] in
theorem removeSkippedBlocks_total (k : KVCacheCoordinator H) (reqId : ReqId) (n : Int) :
    ∃ k₁, k.removeSkippedBlocks reqId n = .ok k₁ := by
  have hloop : ∀ (ms : List (SingleTypeManager H)) (i : Nat) (p : BlockPool H), ∃ res,
      KVCacheCoordinator.mapManagers (fun _ p m =>
        (.ok ((m.removeSkippedBlocks p reqId n).1, (m.removeSkippedBlocks p reqId n).2, ()) :
          Except Python.Error _)) i p ms = .ok res := by
    intro ms
    induction ms with
    | nil => intro i p; exact ⟨_, rfl⟩
    | cons m ms ih =>
      intro i p
      obtain ⟨res, hres⟩ := ih (i + 1) (m.removeSkippedBlocks p reqId n).1
      exact ⟨_, Raises.bind_eq_ok.mpr ⟨_, rfl, Raises.bind_eq_ok.mpr ⟨_, hres, rfl⟩⟩⟩
  obtain ⟨⟨p, ms, as⟩, hres⟩ := hloop k.singleTypeManagers 0 k.blockPool
  exact ⟨_, Raises.bind_eq_ok.mpr ⟨_, Raises.bind_eq_ok.mpr ⟨_, hres, rfl⟩, rfl⟩⟩

include hs hbs in
theorem allocateNewBlocks_solo {n : Nat} {new : List (List BlockId)} {main enc : Int}
    (h : Solo specs reqId c c k) (hn : c ≤ n)
    (hstep : k.allocateNewBlocks reqId n main enc = .ok (k₁, new)) : Solo specs reqId c n k₁ := by
  have hco := coordinator_allocateNewBlocks h.ok hstep
  simp only [KVCacheCoordinator.allocateNewBlocks, KVCacheCoordinator.onManagers,
    Raises.bind_eq_ok, Raises.pure_eq_ok] at hstep
  obtain ⟨⟨p, ms, as'⟩, hmap, heq⟩ := hstep
  obtain ⟨rfl, -⟩ := Prod.mk.inj heq
  have hnull : nullBlock ∉ k.blockPool.freeBlocks := by
    intro hmem
    exact ((h.ok.balanced.accounted.mem_free _).mp hmem).1 rfl
  obtain ⟨hall, hsum⟩ := mapManagers_inv (I := fun q => nullBlock ∉ q.freeBlocks)
    (A := fun m => Holds reqId c c m ∧ m.spec ∈ specs) (B := Holds reqId c n)
    (w := fun s => (s.blocksFor c : Int) - s.skippedBlocks c)
    (v := fun s => (s.blocksFor n : Int) - s.skippedBlocks c)
    (fun i q m q' m' a hI hA hfm => by
      have hplain := (KVCacheSpec.isPlainAttention_of_servable (hs _ hA.2))
      rw [allocateNewBlocks_eq hplain, isCrossAttention_eq_false hplain, if_neg (by simp)] at hfm
      exact allocateNewBlocks_holds (hs _ hA.2) (hbs _ hA.2) hA.1 hn hI hfm)
    _ 0 hmap hnull fun m hm => ⟨h.holds m hm, h.ok.spec_mem hm⟩
  refine ⟨hco.ok, hall, ?_⟩
  have hup := h.upper
  rw [h.ok.heldBlocks_eq] at hup
  rw [← h.ok.heldBlocks_eq c n] at hsum
  rw [hco.numGpuBlocks]
  dsimp only
  omega

include hs in
theorem cacheBlocks_solo {r : Request H} {n : Int} (h : Solo specs r.requestId c' c k)
    (hstep : k.cacheBlocks r n = .ok k₁) : Solo specs r.requestId c' c k₁ := by
  have hco := coordinator_cacheBlocks h.ok hstep
  simp only [KVCacheCoordinator.cacheBlocks, KVCacheCoordinator.onManagers, Raises.bind_eq_ok,
    Raises.pure_eq_ok] at hstep
  obtain ⟨⟨k₂, as⟩, ⟨⟨p, ms, as'⟩, hmap, heq⟩, rfl⟩ := hstep
  obtain ⟨rfl, -⟩ := Prod.mk.inj heq
  obtain ⟨hall, hsum⟩ := mapManagers_inv (I := fun _ => True)
    (A := fun m => Holds r.requestId c' c m ∧ m.spec ∈ specs) (B := Holds r.requestId c' c)
    (w := fun _ => 0) (v := fun _ => 0)
    (fun i q m q' m' a _ hA hfm => by
      simp only [cacheBlocks_eq (KVCacheSpec.isPlainAttention_of_servable (hs _ hA.2)),
        Raises.bind_eq_ok, Raises.pure_eq_ok] at hfm
      obtain ⟨⟨q₁, m₁⟩, hcache, heq⟩ := hfm
      simp only [Prod.mk.injEq] at heq
      obtain ⟨rfl, rfl, -⟩ := heq
      obtain ⟨h1, h2, h3⟩ := cacheBlocks_holds hA.1 hcache
      exact ⟨trivial, h1, h2, by omega⟩)
    _ 0 hmap trivial fun m hm => ⟨h.holds m hm, h.ok.spec_mem hm⟩
  refine ⟨hco.ok, hall, ?_⟩
  have hup := h.upper
  rw [hco.numGpuBlocks]
  dsimp only
  omega

include hs hbs in
theorem sumManagers_solo {n : Nat} (hn : c ≤ n) (p : BlockPool H) {blocks : List (List BlockId)}
    (hblocks : ∀ bs ∈ blocks, bs = []) (enc main : Int) :
    ∀ (ms : List (SingleTypeManager H)) (i : Nat), (∀ m ∈ ms, Holds reqId c c m ∧ m.spec ∈ specs) →
      KVCacheCoordinator.sumManagers (KVCacheCoordinator.blocksToAllocateOf p reqId n blocks enc c
        main) i ms
        = .ok (ms.map fun m => (m.spec.blocksFor n : Int) - m.spec.blocksFor c).sum := by
  intro ms
  induction ms with
  | nil => intro i _; rfl
  | cons m ms ih =>
    intro i hms
    obtain ⟨hm, hspec⟩ := hms m List.mem_cons_self
    have hplain := KVCacheSpec.isPlainAttention_of_servable (hs _ hspec)
    have hget : blocks.getD i [] = [] := by
      rw [List.getD_eq_getElem?_getD]
      cases hi : blocks[i]? with
      | none => rfl
      | some bs => exact hblocks bs (List.mem_of_getElem? hi)
    have hone : KVCacheCoordinator.blocksToAllocateOf p reqId n blocks enc c main i m
        = .ok ((m.spec.blocksFor n : Int) - m.spec.blocksFor c) := by
      unfold KVCacheCoordinator.blocksToAllocateOf
      rw [isCrossAttention_eq_false hplain, if_neg (by simp), hget,
        getNumBlocksToAllocate_eq hplain]
      exact baseNumBlocksToAllocate_holds (hs _ hspec) (hbs _ hspec) p hm hn
    rw [KVCacheCoordinator.sumManagers, hone, ih (i + 1) fun m' hm' => hms m' (List.mem_cons_of_mem m hm')]
    rfl

include hbs in
omit [DecidableEq H] in
theorem missingAll_holds {n : Nat} (hn : c ≤ n) (ms : List (SingleTypeManager H))
    (hms : ∀ m ∈ ms, Holds reqId c c m ∧ m.spec ∈ specs) :
    KVCacheCoordinator.missingAll ms reqId n
      = (ms.map fun m => (m.spec.blocksFor n : Int) - m.spec.blocksFor c).sum := by
  unfold KVCacheCoordinator.missingAll
  congr 1
  refine List.map_congr_left fun m hm => ?_
  obtain ⟨hholds, hspec⟩ := hms m hm
  have hmono := m.spec.blocksFor_mono hn
  rw [missingBlocks, numRequiredBlocks_natCast (hbs _ hspec), hholds.length]
  omega

theorem heldBlocks_sub (specs : List KVCacheSpec) (c n : Nat) :
    heldBlocks specs c n - heldBlocks specs c c
      = (specs.map fun s => (s.blocksFor n : Int) - s.blocksFor c).sum := by
  unfold heldBlocks
  induction specs with
  | nil => rfl
  | cons s specs ih =>
    simp only [List.map_cons, List.sum_cons]
    omega

end Solo

/-! ## One chunk -/

/-- The arguments of `allocate_slots` for a chunk of `n` tokens. -/
def chunkArgs (n hit : Nat) (blocks : List (List BlockId)) : SlotArgs where
  numNewTokens := n
  numNewComputedTokens := hit
  newComputedBlocks := blocks
  numLookaheadTokens := 0
  numExternalComputedTokens := 0
  delayCacheBlocks := false
  numEncoderTokens := 0

section Chunk

variable {specs : List KVCacheSpec} {c' c n : Nat} {k k' : KVCacheManager H} {r : Request H}
  {blocks : List (List BlockId)}
  (hs : ∀ s ∈ specs, s.isServable = true) (hbs : ∀ s ∈ specs, 0 < s.blockSize)
  (hsolo : Solo specs r.requestId c' c k.coordinator) (hc : c' ≤ c)
  (hr : r.numComputedTokens = c) (hfit : c + n ≤ k.maxModelLen) (hblocks : ∀ bs ∈ blocks, bs = [])

omit [DecidableEq H] in
variable (blocks) in
include hr hfit in
/-- The counts that `allocate_slots` derives from a chunk. -/
theorem chunkArgs_counts :
    (chunkArgs n 0 blocks).totalComputedTokens r k.maxModelLen = c ∧
    (chunkArgs n 0 blocks).numTokensNeedSlot r k.maxModelLen = ((c + n : Nat) : Int) ∧
    (chunkArgs n 0 blocks).numLocalComputedTokens r = c := by
  have htotal : (chunkArgs n 0 blocks).totalComputedTokens r k.maxModelLen = c := by
    simp only [SlotArgs.totalComputedTokens, SlotArgs.numLocalComputedTokens, chunkArgs, hr]
    omega
  refine ⟨htotal, ?_, by simp [SlotArgs.numLocalComputedTokens, chunkArgs, hr]⟩
  rw [SlotArgs.numTokensNeedSlot, SlotArgs.numTokensMainModel, htotal]
  simp only [chunkArgs]
  omega

include hblocks in
omit [DecidableEq H] in
theorem chunkArgs_hasComputed : (chunkArgs n 0 blocks).hasComputed = false := by
  simpa [SlotArgs.hasComputed, chunkArgs] using hblocks

include hs hbs hsolo hc hr hfit hblocks

/-- **One chunk of a lone request.** It is refused exactly if the blocks it
would hold are more than the pool has besides the null block. -/
theorem allocateSlots_solo {out : Option (List (List BlockId))}
    (h : k.allocateSlots r (chunkArgs n 0 blocks) = .ok (k', out)) :
    (out = none ↔ (k.blockPool.numGpuBlocks : Int) - 1 < heldBlocks specs c (c + n)) ∧
      (out ≠ none → Solo specs r.requestId c (c + n) k'.coordinator ∧
        k'.maxModelLen = k.maxModelLen ∧ k'.enableCaching = k.enableCaching ∧
        k'.blockPool.numGpuBlocks = k.blockPool.numGpuBlocks) := by
  obtain ⟨htotal, hneed, hlocal⟩ := chunkArgs_counts blocks hr hfit
  unfold allocateSlots at h
  split at h
  · simp at h
  · simp only [Raises.bind_eq_ok, htotal, hneed, hlocal] at h
    obtain ⟨c₁, hskip, need, hsum, h⟩ := h
    have h₁ := removeSkippedBlocks_solo hs hbs hsolo hc hskip
    have hgpu₁ := (coordinator_removeSkippedBlocks hsolo.ok hskip).numGpuBlocks
    have hneed' : need = heldBlocks specs c (c + n) - heldBlocks specs c c := by
      rw [KVCacheCoordinator.getNumBlocksToAllocate, show ((c : Int)
        + ((chunkArgs n 0 blocks).numExternalComputedTokens : Int)) = c by simp [chunkArgs],
        show (chunkArgs n 0 blocks).newComputedBlocks = blocks from rfl,
        sumManagers_solo hs hbs (Nat.le_add_right c n) _ hblocks _ _ _ _
          fun m hm => ⟨h₁.holds m hm, h₁.ok.spec_mem hm⟩, Except.ok.injEq] at hsum
      rw [← hsum, heldBlocks_sub, ← h₁.ok.specs, List.map_map]
      rfl
    have hfree := h₁.numFreeBlocks_eq hs hbs (Nat.le_refl c)
    simp only [KVCacheManager.blockPool]
    split at h
    · rename_i hgt
      obtain ⟨rfl, rfl⟩ := Prod.mk.inj (Raises.pure_eq_ok.mp h)
      refine ⟨⟨fun _ => ?_, fun _ => rfl⟩, fun hne => absurd rfl hne⟩
      simp only [KVCacheManager.blockPool] at hgt
      omega
    · rename_i hle
      simp only [Raises.bind_eq_ok, Raises.pure_eq_ok, commitSlots, hneed] at h
      obtain ⟨⟨k₂, new⟩, ⟨c₂, hadopt, ⟨c₃, new'⟩, hnew, c₄, hpub, heq⟩, heq'⟩ := h
      obtain ⟨rfl, -⟩ := Prod.mk.inj heq
      obtain ⟨rfl, rfl⟩ := Prod.mk.inj heq'
      have h₂ : c₁ = c₂ := by
        rw [adoptComputed, chunkArgs_hasComputed hblocks, if_neg (by simp)] at hadopt
        exact Except.ok.inj hadopt
      subst h₂
      have h₃ := allocateNewBlocks_solo hs hbs h₁ (Nat.le_add_right c n) hnew
      have hgpu₃ := (coordinator_allocateNewBlocks h₁.ok hnew).numGpuBlocks
      have h₄ : Solo specs r.requestId c (c + n) c₄ ∧
          c₄.blockPool.numGpuBlocks = c₃.blockPool.numGpuBlocks := by
        unfold publishBlocks at hpub
        split at hpub
        · obtain rfl := Except.ok.inj hpub
          exact ⟨h₃, rfl⟩
        · exact ⟨cacheBlocks_solo hs h₃ hpub,
            (coordinator_cacheBlocks h₃.ok hpub).numGpuBlocks⟩
      refine ⟨⟨fun hnone => (by cases hnone), fun hlt => ?_⟩,
        fun _ => ⟨h₄.1, rfl, rfl, h₄.2.trans (hgpu₃.trans hgpu₁)⟩⟩
      simp only [KVCacheManager.blockPool] at hle
      omega

/-- Without prefix caching nothing raises. -/
theorem allocateSlots_total (hcaching : k.enableCaching = false) (hn : 0 < n) :
    ∃ k' out, k.allocateSlots r (chunkArgs n 0 blocks) = .ok (k', out) := by
  obtain ⟨htotal, hneed, hlocal⟩ := chunkArgs_counts blocks hr hfit
  obtain ⟨c₁, hskip⟩ := removeSkippedBlocks_total k.coordinator r.requestId c
  have h₁ := removeSkippedBlocks_solo hs hbs hsolo hc hskip
  have hmanagers : ∀ m ∈ c₁.singleTypeManagers, Holds r.requestId c c m ∧ m.spec ∈ specs :=
    fun m hm => ⟨h₁.holds m hm, h₁.ok.spec_mem hm⟩
  have hsum := sumManagers_solo hs hbs (Nat.le_add_right c n) c₁.blockPool hblocks
    (chunkArgs n 0 blocks).numEncoderTokens
    ((chunkArgs n 0 blocks).numTokensMainModel r k.maxModelLen) c₁.singleTypeManagers 0 hmanagers
  rw [allocateSlots, if_neg (by simp [chunkArgs]; omega), htotal, hskip]
  simp only [Raises.ok_bind, hneed, hlocal]
  rw [KVCacheCoordinator.getNumBlocksToAllocate, show ((c : Int)
        + ((chunkArgs n 0 blocks).numExternalComputedTokens : Int)) = c by simp [chunkArgs],
    show (chunkArgs n 0 blocks).newComputedBlocks = blocks from rfl, hsum, Raises.ok_bind]
  split
  · exact ⟨_, _, rfl⟩
  · rename_i hle
    simp only [KVCacheManager.blockPool] at hle
    obtain ⟨p, ms, new, hnew, -⟩ := allocateLoop_exact r.requestId ((c + n : Nat) : Int)
      ((chunkArgs n 0 blocks).numTokensMainModel r k.maxModelLen)
      (chunkArgs n 0 blocks).numEncoderTokens c₁.singleTypeManagers 0 _ h₁.ok.balanced
      (fun m hm => plain_of_servable hs _ (hmanagers m hm).2) (by
        rw [missingAll_holds hbs (Nat.le_add_right c n) _ hmanagers,
          ← h₁.ok.balanced.accounted.num]
        omega)
    have hcommit : ({ k with coordinator := c₁ } : KVCacheManager H).commitSlots r (chunkArgs n 0 blocks)
        = .ok ({ k with coordinator := { c₁ with blockPool := p, singleTypeManagers := ms } }, new) := by
      rw [commitSlots, adoptComputed, chunkArgs_hasComputed hblocks, if_neg (by simp)]
      simp only [Raises.ok_bind, hneed, KVCacheCoordinator.allocateNewBlocks,
        KVCacheCoordinator.onManagers, hnew, publishBlocks, hcaching]
      rfl
    rw [hcommit]
    exact ⟨_, _, rfl⟩

end Chunk

end VllmEngine
