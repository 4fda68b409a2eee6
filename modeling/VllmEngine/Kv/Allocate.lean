import Mathlib.Algebra.Order.BigOperators.Group.List
import VllmEngine.Lib.Reserve
import VllmEngine.Kv.Accounting

/-!
# What an allocation takes from the free queue

`touch` takes the evictable hits out of the free queue and `get_new_blocks` its
first blocks. With these two, the queue after `allocate_new_computed_blocks` and
`allocate_new_blocks` is known exactly, first for one manager and then for the
loop of the coordinator.

> `adoptLoop_exact`: the managers take their hits and their external blocks
> from the queue as in `Reserve.takeAll`,
> `allocateLoop_exact`: new blocks come off the front of the queue.
-/

namespace VllmEngine

open SingleTypeManager

variable {H : Type} [DecidableEq H]

namespace BlockPool

/-! ## The pool -/

omit [DecidableEq H] in
theorem touch_exact :
    ∀ (bs : List BlockId) {p : BlockPool H} {refs : BlockId → Nat}, Accounted p refs →
      (∀ b ∈ bs, b = nullBlock ∨ b < p.numGpuBlocks) →
      ∃ p', p.touch bs = .ok p' ∧ p'.freeBlocks = p.freeBlocks.filter fun b => decide (b ∉ bs) := by
  intro bs
  induction bs with
  | nil => intro p refs _ _; exact ⟨p, rfl, by simp⟩
  | cons b bs ih =>
    intro p refs ha hval
    obtain ⟨p₁, h₁, hq₁⟩ : ∃ p₁, p.touchBlock b = .ok p₁ ∧
        p₁.freeBlocks = p.freeBlocks.filter fun x => decide (x ≠ b) := by
      unfold touchBlock
      by_cases hfree : p.refCnt b = 0 ∧ b ≠ nullBlock
      · have hmem : b ∈ p.freeBlocks := by
          refine (ha.mem_free b).mpr ⟨hfree.2, (hval b List.mem_cons_self).resolve_left hfree.2, ?_⟩
          have := ha.cnt b hfree.2
          omega
        rw [if_pos hfree, removeFree, if_pos hmem]
        refine ⟨_, rfl, ?_⟩
        show p.freeBlocks.erase b = _
        rw [ha.nodup.erase_eq_filter]
        exact List.filter_congr fun x _ => by rw [bne, decide_not]; rfl
      · rw [if_neg hfree]
        refine ⟨_, rfl, ?_⟩
        have hnot : b ∉ p.freeBlocks := by
          intro hmem
          obtain ⟨hnull, -, hr⟩ := (ha.mem_free b).mp hmem
          have := ha.cnt b hnull
          exact hfree ⟨by omega, hnull⟩
        show p.freeBlocks = _
        rw [List.filter_eq_self.mpr]
        intro x hx
        exact decide_eq_true fun heq => hnot (heq ▸ hx)
    have htouch : p.touch [b] = .ok p₁ := Raises.foldlM_cons_ok.mpr ⟨p₁, h₁, rfl⟩
    obtain ⟨ha₁, hgpu, -⟩ := touch_accounted [b] ha
      (fun x hx => hval x (List.mem_cons.mpr (Or.inl (List.mem_singleton.mp hx)))) htouch
    obtain ⟨p', h', hq'⟩ := ih ha₁ fun x hx => by
      rw [hgpu]
      exact hval x (List.mem_cons_of_mem b hx)
    refine ⟨p', Raises.foldlM_cons_ok.mpr ⟨p₁, h₁, h'⟩, ?_⟩
    rw [hq', hq₁, List.filter_filter]
    refine List.filter_congr fun x _ => ?_
    simp only [ne_eq, decide_not, List.mem_cons, not_or, Bool.decide_and, Bool.and_comm]

theorem claimBlock_queue {p p' : BlockPool H} {b : BlockId} (h : p.claimBlock b = .ok p') :
    p'.freeBlocks = p.freeBlocks ∧ p'.numFreeBlocks = p.numFreeBlocks := by
  have hevict : (p.maybeEvictCachedBlock b).freeBlocks = p.freeBlocks ∧
      (p.maybeEvictCachedBlock b).numFreeBlocks = p.numFreeBlocks := by
    unfold BlockPool.maybeEvictCachedBlock
    split
    · exact ⟨rfl, rfl⟩
    · split <;> exact ⟨rfl, rfl⟩
  unfold BlockPool.claimBlock at h
  dsimp only at h
  by_cases hc : p.enableCaching = true
  · rw [if_pos hc] at h
    split at h
    · obtain rfl := Except.ok.inj h
      exact hevict
    · cases h
  · rw [if_neg hc] at h
    split at h
    · obtain rfl := Except.ok.inj h
      exact ⟨rfl, rfl⟩
    · cases h

/-- The new blocks are the first ones of the queue. -/
theorem getNewBlocks_queue {p p' : BlockPool H} {n : Int} {bs : List BlockId} (hn : 0 ≤ n)
    (h : p.getNewBlocks n = .ok (p', bs)) :
    (bs.length : Int) = n ∧ bs = p.freeBlocks.take n.toNat ∧
      p'.freeBlocks = p.freeBlocks.drop n.toNat ∧ p'.numFreeBlocks = p.numFreeBlocks - n := by
  unfold BlockPool.getNewBlocks at h
  split at h
  · cases h
  · simp only [Raises.bind_eq_ok, Raises.pure_eq_ok] at h
    obtain ⟨⟨q, ret⟩, hpop, p₁, hclaim, heq⟩ := h
    obtain ⟨rfl, rfl⟩ := Prod.mk.inj heq
    have hkeep := Raises.foldlM_inv (I := fun q' => q'.freeBlocks = q.freeBlocks ∧
      q'.numFreeBlocks = q.numFreeBlocks) ret q p₁ (fun b _ t t' ht hstep =>
        ⟨(claimBlock_queue hstep).1.trans ht.1, (claimBlock_queue hstep).2.trans ht.2⟩)
      ⟨rfl, rfl⟩ hclaim
    rw [hkeep.1, hkeep.2]
    unfold BlockPool.popleftN at hpop
    split at hpop
    · rename_i h0
      obtain ⟨rfl, rfl⟩ := Prod.mk.inj (Except.ok.inj hpop)
      subst h0
      exact ⟨rfl, rfl, rfl, (Int.sub_zero _).symm⟩
    · split at hpop
      · split at hpop
        · obtain ⟨rfl, rfl⟩ := Prod.mk.inj (Except.ok.inj hpop)
          refine ⟨?_, rfl, rfl, rfl⟩
          rw [List.length_take]
          omega
        · cases hpop
      · cases hpop

end BlockPool

/-! ## One manager -/

namespace SingleTypeManager

/-- The length of the list of a new request with its kept hits. -/
def numAdopted (m : SingleTypeManager H) (hits : List BlockId) (total : Int) : Int :=
  (List.replicate (m.numSkippedBlocks total).toNat nullBlock ++ m.keptBlocks hits total).length

/-- The number of blocks that `allocate_new_computed_blocks` asks the pool for. -/
def externalCount (m : SingleTypeManager H) (hits : List BlockId) (total ext : Int) : Int :=
  if m.keptExternalTokens total ext > 0 then m.numRequiredBlocks total - m.numAdopted hits total
  else 0

/-- What `allocate_new_computed_blocks` takes from the free queue. -/
def share (m : SingleTypeManager H) (hits : List BlockId) (total ext : Int) : List BlockId × Nat :=
  (m.keptBlocks hits total, (m.externalCount hits total ext).toNat)

/-- The number of blocks that `allocate_new_blocks` asks the pool for. -/
def missingBlocks (m : SingleTypeManager H) (reqId : ReqId) (numTokens : Int) : Int :=
  max (m.numRequiredBlocks numTokens - (m.reqBlocks reqId).length) 0

end SingleTypeManager

section Manager

variable {R : BlockId → Nat} {p : BlockPool H} {m : SingleTypeManager H} {reqId : ReqId}

/-- Among valid blocks the evictable ones are those in the free queue. -/
theorem numEvictable_eq (hb : Balanced R p m) {bs : List BlockId}
    (hval : ∀ b ∈ bs, b = nullBlock ∨ b < p.numGpuBlocks) :
    getNumEvictableBlocks p bs = bs.countP fun b => decide (b ∈ p.freeBlocks) := by
  refine List.countP_congr fun b hmem => ?_
  simp only [decide_eq_true_eq]
  rw [hb.accounted.mem_free]
  constructor
  · intro h
    have := hb.accounted.cnt b h.2
    exact ⟨h.2, (hval b hmem).resolve_left h.2, by omega⟩
  · intro h
    have := hb.accounted.cnt b h.1
    exact ⟨by omega, h.1⟩

/-- A request for the first blocks of the queue is granted. -/
theorem getNewBlocks_exact (hb : Balanced R p m) {n : Int} (hn : 0 ≤ n)
    (hle : n ≤ p.freeBlocks.length) :
    ∃ p', p.getNewBlocks n = .ok (p', p.freeBlocks.take n.toNat) ∧
      p'.freeBlocks = p.freeBlocks.drop n.toNat := by
  obtain ⟨p', bs, h⟩ := BlockPool.getNewBlocks_total hb.accounted hb.hashOk hn
    (by rw [hb.accounted.num]; exact hle)
  obtain ⟨-, rfl, hq, -⟩ := BlockPool.getNewBlocks_queue hn h
  exact ⟨p', h, hq⟩

theorem allocateNewBlocks_exact (hb : Balanced R p m) (reqId : ReqId) (numTokens : Int)
    (hle : m.missingBlocks reqId numTokens ≤ p.freeBlocks.length) :
    ∃ p' m' new, m.baseAllocateNewBlocks p reqId numTokens = .ok (p', m', new) ∧
      p'.freeBlocks = p.freeBlocks.drop (m.missingBlocks reqId numTokens).toNat := by
  have hentry : (m.withEntry reqId).reqBlocks reqId = m.reqBlocks reqId := by
    rw [SingleTypeManager.withEntry, setBlocks_reqBlocks]
  have hreq : (m.withEntry reqId).numRequiredBlocks numTokens = m.numRequiredBlocks numTokens := rfl
  unfold missingBlocks at hle ⊢
  unfold baseAllocateNewBlocks
  dsimp only
  rw [hentry, hreq]
  by_cases h0 : m.numRequiredBlocks numTokens - (m.reqBlocks reqId).length ≤ 0
  · rw [if_pos h0, max_eq_right h0]
    exact ⟨_, _, _, rfl, rfl⟩
  · rw [if_neg h0]
    rw [max_eq_left (by omega)] at hle ⊢
    obtain ⟨p', hp', hq⟩ := getNewBlocks_exact hb (by omega) hle
    exact ⟨p', _, _, Raises.bind_eq_ok.mpr ⟨_, hp', rfl⟩, hq⟩

/-- Without prefix caching there is nothing to touch. -/
theorem touchKept_exact (hb : Balanced R p m) {kept : List BlockId}
    (hval : ∀ b ∈ kept, b = nullBlock ∨ b < p.numGpuBlocks)
    (hcaching : m.enableCaching = true ∨ kept = []) :
    ∃ q, m.touchKept p kept = .ok q ∧
      q.freeBlocks = p.freeBlocks.filter fun b => decide (b ∉ kept) := by
  unfold touchKept
  by_cases hc : m.enableCaching = true
  · rw [if_pos hc]
    exact BlockPool.touch_exact kept hb.accounted hval
  · obtain rfl := hcaching.resolve_left hc
    rw [if_neg hc, if_pos rfl]
    exact ⟨p, rfl, by simp⟩

/-- **A new request takes its share of the queue.** -/
theorem adopt_exact (hb : Balanced R p m) {hits : List BlockId} {loc ext : Int}
    (hfresh : m.numCachedBlock.contains reqId = false) (hempty : m.reqBlocks reqId = [])
    (hhits : HitsValid p.numGpuBlocks hits) (hcaching : m.enableCaching = true ∨ hits = [])
    (hext : 0 ≤ m.externalCount hits (loc + ext) ext)
    (hle : Reserve.demand p.freeBlocks (m.share hits (loc + ext) ext) ≤ p.freeBlocks.length) :
    ∃ p' m', m.baseAllocateNewComputedBlocks p reqId hits loc ext = .ok (p', m') ∧
      p'.freeBlocks = Reserve.takeShare p.freeBlocks (m.share hits (loc + ext) ext) ∧
      ((m'.reqBlocks reqId).length : Int)
        = m.numAdopted hits (loc + ext) + m.externalCount hits (loc + ext) ext := by
  obtain ⟨hval, hone⟩ := hhits.kept m (loc + ext)
  have hnil : m.enableCaching = true ∨ m.keptBlocks hits (loc + ext) = [] := by
    refine hcaching.imp_right fun h => ?_
    rw [h, keptBlocks]
    split <;> simp
  obtain ⟨q, hq, hqueue⟩ := touchKept_exact hb hval hnil
  obtain ⟨n, hn⟩ : ∃ n, m.adoptBlocks p reqId (m.keptBlocks hits (loc + ext))
      (m.numSkippedBlocks (loc + ext)) = .ok (q, n) := ⟨_, Raises.bind_eq_ok.mpr ⟨q, hq, rfl⟩⟩
  obtain ⟨hkeep, hblocks⟩ := adoptBlocks_keeps hempty hval hone hn
  have hlen : ((n.reqBlocks reqId).length : Int) = m.numAdopted hits (loc + ext) := by
    rw [hblocks]
    rfl
  have hfilter := Reserve.length_filter_reserved hb.accounted.nodup fun b hmem =>
    hone b ((hb.accounted.mem_free b).mp hmem).1
  have hbase : m.baseAllocateNewComputedBlocks p reqId hits loc ext
      = if n.keptExternalTokens (loc + ext) ext > 0 then n.allocateExternal q reqId (loc + ext)
        else .ok (q, n) := by
    unfold baseAllocateNewComputedBlocks
    rw [hfresh, if_neg (by simp), if_neg (by simpa using hempty)]
    dsimp only
    rw [hn]
    rfl
  have hspec : n.keptExternalTokens (loc + ext) ext = m.keptExternalTokens (loc + ext) ext := by
    unfold keptExternalTokens numSkippedBlocks getNumSkippedTokens
    rw [hkeep.spec]
  rw [hbase, hspec]
  show ∃ (p' : BlockPool H) (m' : SingleTypeManager H), _ = _ ∧
    p'.freeBlocks = (p.freeBlocks.filter fun b => decide (b ∉ m.keptBlocks hits (loc + ext))).drop
      (m.externalCount hits (loc + ext) ext).toNat ∧ _
  have hle' : (m.keptBlocks hits (loc + ext)).countP (fun b => decide (b ∈ p.freeBlocks))
    + (m.externalCount hits (loc + ext) ext).toNat ≤ p.freeBlocks.length := hle
  rw [← hqueue] at hfilter ⊢
  by_cases hpos : m.keptExternalTokens (loc + ext) ext > 0
  · have hcount : m.externalCount hits (loc + ext) ext
        = n.numRequiredBlocks (loc + ext) - (n.reqBlocks reqId).length := by
      rw [externalCount, if_pos hpos, hlen, numRequiredBlocks, numRequiredBlocks, hkeep.spec]
    obtain ⟨p', hp', hq'⟩ := getNewBlocks_exact (hkeep.balanced R hb).1 hext (by omega)
    refine ⟨p', n.appendBlocks reqId (q.freeBlocks.take
      (m.externalCount hits (loc + ext) ext).toNat), ?_, hq', ?_⟩
    · rw [if_pos hpos, allocateExternal, ← hcount]
      exact Raises.bind_eq_ok.mpr ⟨_, hp', rfl⟩
    · show (((n.setBlocks reqId _).reqBlocks reqId).length : Int) = _
      rw [setBlocks_reqBlocks, List.length_append, List.length_take, Nat.cast_add, hlen]
      omega
  · have hcount : m.externalCount hits (loc + ext) ext = 0 := if_neg hpos
    rw [if_neg hpos, hcount]
    exact ⟨q, n, rfl, rfl, by rw [hlen, Int.add_zero]⟩

end Manager

/-! ## The loops over the managers -/

namespace KVCacheCoordinator

/-- The shares of the managers `i, i + 1, …`. -/
def shares (hits : List (List BlockId)) (total ext : Int) :
    Nat → List (SingleTypeManager H) → List (List BlockId × Nat)
  | _, [] => []
  | i, m :: ms => m.share (hits.getD i []) total ext :: shares hits total ext (i + 1) ms

/-- The blocks that the managers `i, i + 1, …` still miss for `numTokens` tokens
when they have taken their shares. -/
def missingAfter (hits : List (List BlockId)) (total ext numTokens : Int) :
    Nat → List (SingleTypeManager H) → Int
  | _, [] => 0
  | i, m :: ms =>
    max (m.numRequiredBlocks numTokens - (m.numAdopted (hits.getD i []) total
      + m.externalCount (hits.getD i []) total ext)) 0
      + missingAfter hits total ext numTokens (i + 1) ms

/-- The blocks that `allocate_new_blocks` asks the pool for in all groups. -/
def missingAll (ms : List (SingleTypeManager H)) (reqId : ReqId) (numTokens : Int) : Int :=
  (ms.map fun m => m.missingBlocks reqId numTokens).sum

end KVCacheCoordinator

open KVCacheCoordinator

/-- A manager that is asked to take over hits of a new request. -/
structure ReadyToAdopt (p : BlockPool H) (reqId : ReqId) (hits : List BlockId) (loc ext : Int)
    (m : SingleTypeManager H) : Prop where
  plain : m.spec.isPlainAttention = true
  blockSize_pos : 0 < m.spec.blockSize
  fresh : m.numCachedBlock.contains reqId = false
  empty : m.reqBlocks reqId = []
  caching : m.enableCaching = true ∨ hits = []
  valid : HitsValid p.numGpuBlocks hits
  fits : ext ≤ 0 ∨ (hits.length : Int) ≤ m.numRequiredBlocks (loc + ext)

omit [DecidableEq H] in
theorem ReadyToAdopt.external_nonneg {p : BlockPool H} {reqId : ReqId} {hits : List BlockId}
    {loc ext : Int} {m : SingleTypeManager H} (h : ReadyToAdopt p reqId hits loc ext m) :
    0 ≤ m.externalCount hits (loc + ext) ext := by
  unfold externalCount
  split
  · rename_i hpos
    refine VllmEngine.external_nonneg h.blockSize_pos (h.fits.resolve_left fun hle => ?_) hpos
    unfold keptExternalTokens at hpos
    split at hpos <;> omega
  · exact Int.le_refl 0

/-- **The loop of `allocate_new_computed_blocks`.** -/
theorem adoptLoop_exact {reqId : ReqId} {hits : List (List BlockId)} {loc ext : Int} :
    ∀ (ms : List (SingleTypeManager H)) (i : Nat) (R : BlockId → Nat) {p : BlockPool H},
      AllBalanced R p ms →
      (∀ j m, ms[j]? = some m → ReadyToAdopt p reqId (hits.getD (i + j) []) loc ext m) →
      Reserve.Reserved p.freeBlocks (shares hits (loc + ext) ext i ms) →
      Reserve.TakesNone p.freeBlocks (shares hits (loc + ext) ext i ms) →
      ((shares hits (loc + ext) ext i ms).map (Reserve.demand p.freeBlocks)).sum
        ≤ p.freeBlocks.length →
      ∃ p' ms' as, mapManagers (fun i p m => do
          let (p, m) ← m.allocateNewComputedBlocks p reqId (hits.getD i []) loc ext
          return (p, m, ())) i p ms = .ok (p', ms', as) ∧
        p'.freeBlocks = Reserve.takeAll p.freeBlocks (shares hits (loc + ext) ext i ms) ∧
        ∀ numTokens, missingAll ms' reqId numTokens
          = missingAfter hits (loc + ext) ext numTokens i ms := by
  intro ms
  induction ms with
  | nil => intro i R p _ _ _ _ _; exact ⟨p, [], [], rfl, rfl, fun _ => rfl⟩
  | cons m ms ih =>
    intro i R p hb hready hres hnone hle
    have hm : ReadyToAdopt p reqId (hits.getD i []) loc ext m := hready 0 m rfl
    have hsum := Reserve.sum_demand_takeShare hres hnone
    rw [shares, List.map_cons, List.sum_cons] at hle
    obtain ⟨q, m₁, hone, hq, hlen⟩ := adopt_exact hb.head hm.fresh hm.empty hm.valid hm.caching
      hm.external_nonneg (by omega)
    have hkeep := allocateNewComputedBlocks_keeps hm.blockSize_pos hm.valid hm.fits hone
    have hgpu := (hkeep.balanced _ hb.head).2
    have hfree := Reserve.length_takeShare hb.head.accounted.nodup
      (hres.once _ List.mem_cons_self) (by omega)
    obtain ⟨p', ms', as, hrest, hp', hmissing⟩ := ih (i + 1) _ (hb.tail hkeep)
      (fun j m' hj => by
        obtain ⟨h1, h2, h3, h4, h5, h6, h7⟩ := hready (j + 1) m' hj
        rw [← Nat.add_assoc, Nat.add_right_comm] at h5 h6 h7
        exact ⟨h1, h2, h3, h4, h5, hgpu ▸ h6, h7⟩)
      (hq ▸ hres.tail) (hq ▸ hnone.2) (by rw [hq]; omega)
    refine ⟨p', m₁ :: ms', () :: as, ?_, ?_, fun numTokens => ?_⟩
    · refine Raises.bind_eq_ok.mpr ⟨(q, m₁, ()), ?_, Raises.bind_eq_ok.mpr ⟨_, hrest, rfl⟩⟩
      have hdispatch : m.allocateNewComputedBlocks p reqId (hits.getD i []) loc ext = .ok (q, m₁) := by
        unfold SingleTypeManager.allocateNewComputedBlocks
        rw [isCrossAttention_eq_false hm.plain, if_neg (by simp)]
        exact hone
      exact Raises.bind_eq_ok.mpr ⟨_, hdispatch, rfl⟩
    · rw [hp', hq]
      rfl
    · have hhead : m₁.missingBlocks reqId numTokens = max (m.numRequiredBlocks numTokens
          - (m.numAdopted (hits.getD i []) (loc + ext)
            + m.externalCount (hits.getD i []) (loc + ext) ext)) 0 := by
        rw [missingBlocks, hlen, numRequiredBlocks, numRequiredBlocks, hkeep.spec]
      rw [missingAll, List.map_cons, List.sum_cons, missingAfter, hhead, ← hmissing]
      rfl

omit [DecidableEq H] in
theorem missingAll_nonneg (ms : List (SingleTypeManager H)) (reqId : ReqId) (numTokens : Int) :
    0 ≤ missingAll ms reqId numTokens := by
  refine List.sum_nonneg fun x hx => ?_
  obtain ⟨m, -, rfl⟩ := List.mem_map.mp hx
  exact Int.le_max_right _ _

omit [DecidableEq H] in
theorem missingAfter_nonneg (hits : List (List BlockId)) (total ext numTokens : Int) :
    ∀ (i : Nat) (ms : List (SingleTypeManager H)), 0 ≤ missingAfter hits total ext numTokens i ms := by
  intro i ms
  induction ms generalizing i with
  | nil => exact Int.le_refl 0
  | cons m ms ih => exact Int.add_nonneg (Int.le_max_right _ _) (ih (i + 1))

/-- **The loop of `allocate_new_blocks`.** -/
theorem allocateLoop_exact (reqId : ReqId) (numTokens main enc : Int) :
    ∀ (ms : List (SingleTypeManager H)) (i : Nat) (R : BlockId → Nat) {p : BlockPool H},
      AllBalanced R p ms → (∀ m ∈ ms, m.spec.isPlainAttention = true) →
      missingAll ms reqId numTokens ≤ p.freeBlocks.length →
      ∃ p' ms' new, mapManagers (fun _ p m => m.allocateNewBlocks p reqId
          (if m.spec.isCrossAttention then enc else numTokens) main) i p ms = .ok (p', ms', new) ∧
        p'.freeBlocks = p.freeBlocks.drop (missingAll ms reqId numTokens).toNat := by
  intro ms
  induction ms with
  | nil => intro i R p _ _ _; exact ⟨p, [], [], rfl, rfl⟩
  | cons m ms ih =>
    intro i R p hb hplain hle
    have hm := hplain m List.mem_cons_self
    have hnonneg : 0 ≤ m.missingBlocks reqId numTokens := Int.le_max_right _ _
    have hrest := missingAll_nonneg ms reqId numTokens
    have hsplit : missingAll (m :: ms) reqId numTokens
        = m.missingBlocks reqId numTokens + missingAll ms reqId numTokens := by
      rw [missingAll, List.map_cons, List.sum_cons, missingAll]
    rw [hsplit] at hle ⊢
    obtain ⟨q, m₁, new, hone, hq⟩ := allocateNewBlocks_exact hb.head reqId numTokens (by omega)
    obtain ⟨p', ms', news, hloop, hp'⟩ := ih (i + 1) _ (hb.tail (allocateNewBlocks_keeps hone))
      (fun m' hm' => hplain m' (List.mem_cons_of_mem m hm')) (by
        rw [hq, List.length_drop]
        omega)
    refine ⟨p', m₁ :: ms', new :: news, ?_, ?_⟩
    · refine Raises.bind_eq_ok.mpr ⟨(q, m₁, new), ?_, Raises.bind_eq_ok.mpr ⟨_, hloop, rfl⟩⟩
      dsimp only
      rw [allocateNewBlocks_eq hm, isCrossAttention_eq_false hm, if_neg (by simp)]
      exact hone
    · rw [hp', hq, List.drop_drop]
      congr 1
      omega

end VllmEngine
