import VllmEngine.Kv.HashMap

/-!
# Reference counts, the free queue and the hash map of the pool

Two invariants of `BlockPool`. `Accounted p refs` says that the pool agrees
with `refs`, the number of references its users hold to each block: the counts
are `refs`, the free queue holds exactly the unreferenced blocks, and the
counter is its length. `HashOk p` says that a block's hash and the hash map
agree. Each operation is described by how it changes `refs`:

> `getNewBlocks_spec`, `getNewBlocks_total`: the blocks returned were
> unreferenced and now have one reference, and the call does not raise while
> enough blocks are free,
> `touch_accounted`, `freeBlocksOf_accounted`: one reference more, or less, for
> each occurrence in the list.
-/

namespace VllmEngine

namespace BlockPool

variable {H : Type} [DecidableEq H]

/-! ## Hashes -/

/-- A block's hash is the one key it is filed under. -/
structure HashOk (p : BlockPool H) : Prop where
  filed : ∀ b k, p.blockHash b = some k ↔ b ∈ filedIn p.cachedBlockHashToBlock k
  live : ∀ b k, p.blockHash b = some k → b ≠ nullBlock ∧ b < p.numGpuBlocks

/-- A step that only touches the hashes: same counts, same queue, consistent
hashes. -/
structure HashStep (p p' : BlockPool H) : Prop where
  refCnt : p'.refCnt = p.refCnt
  freeBlocks : p'.freeBlocks = p.freeBlocks
  numFreeBlocks : p'.numFreeBlocks = p.numFreeBlocks
  numGpuBlocks : p'.numGpuBlocks = p.numGpuBlocks
  hashBlockSize : p'.hashBlockSize = p.hashBlockSize
  enableCaching : p'.enableCaching = p.enableCaching
  hashOk : HashOk p'

variable {p p' : BlockPool H} {refs : BlockId → Nat} {bs : List BlockId}

theorem HashStep.refl (h : HashOk p) : HashStep p p :=
  ⟨rfl, rfl, rfl, rfl, rfl, rfl, h⟩

theorem HashStep.trans {p'' : BlockPool H} (h : HashStep p p') (h' : HashStep p' p'') :
    HashStep p p'' :=
  ⟨h'.refCnt.trans h.refCnt, h'.freeBlocks.trans h.freeBlocks,
    h'.numFreeBlocks.trans h.numFreeBlocks, h'.numGpuBlocks.trans h.numGpuBlocks,
    h'.hashBlockSize.trans h.hashBlockSize, h'.enableCaching.trans h.enableCaching, h'.hashOk⟩

/-- What eviction does when the block has a hash. -/
theorem maybeEvict_some (h : HashOk p) {b : BlockId} {k : BlockKey H} (hb : p.blockHash b = some k) :
    p.maybeEvictCachedBlock b = { p with
      cachedBlockHashToBlock := (popCached p.cachedBlockHashToBlock k b).1
      blockHash := Function.update p.blockHash b none } := by
  obtain ⟨⟨m', found⟩, hpop⟩ : ∃ r, popCached p.cachedBlockHashToBlock k b = r := ⟨_, rfl⟩
  obtain rfl := (popCached_spec hpop).1.mpr ((h.filed b k).mp hb)
  simp only [maybeEvictCachedBlock, hb, hpop]

theorem maybeEvict_hashStep (h : HashOk p) (b : BlockId) :
    HashStep p (p.maybeEvictCachedBlock b) := by
  cases hb : p.blockHash b with
  | none =>
    have heq : p.maybeEvictCachedBlock b = p := by simp only [maybeEvictCachedBlock, hb]
    rw [heq]
    exact HashStep.refl h
  | some k =>
    rw [maybeEvict_some h hb]
    refine ⟨rfl, rfl, rfl, rfl, rfl, rfl, ⟨filed_evict h.filed hb, fun b' k' hb' => ?_⟩⟩
    dsimp only at hb'
    by_cases hbb : b' = b
    · subst hbb
      simp at hb'
    · rw [Function.update_of_ne hbb] at hb'
      exact h.live b' k' hb'

/-! ## References -/

/-- The pool agrees with the references held to its blocks. The null block's
own count is not maintained. -/
structure Accounted (p : BlockPool H) (refs : BlockId → Nat) : Prop where
  cnt : ∀ b, b ≠ nullBlock → p.refCnt b = refs b
  live : ∀ b, b ≠ nullBlock → refs b ≠ 0 → b < p.numGpuBlocks
  nodup : p.freeBlocks.Nodup
  mem_free : ∀ b, b ∈ p.freeBlocks ↔ b ≠ nullBlock ∧ b < p.numGpuBlocks ∧ refs b = 0
  num : p.numFreeBlocks = p.freeBlocks.length

omit [DecidableEq H] in
/-- `Accounted` only reads the counts, the queue and the number of blocks. -/
theorem Accounted.congr {refs' : BlockId → Nat} (h : Accounted p refs)
    (hrefs : ∀ b, b ≠ nullBlock → refs' b = refs b) (hn : p'.numGpuBlocks = p.numGpuBlocks)
    (hc : p'.refCnt = p.refCnt) (hf : p'.freeBlocks = p.freeBlocks)
    (hk : p'.numFreeBlocks = p.numFreeBlocks) : Accounted p' refs' where
  cnt b hb := by rw [hc, hrefs b hb, h.cnt b hb]
  live b hb := by
    rw [hrefs b hb, hn]
    exact h.live b hb
  nodup := hf ▸ h.nodup
  mem_free b := by
    rw [hf, h.mem_free, hn]
    constructor
    · rintro ⟨hb, hl, hr⟩
      exact ⟨hb, hl, by rw [hrefs b hb, hr]⟩
    · rintro ⟨hb, hl, hr⟩
      exact ⟨hb, hl, by rw [← hrefs b hb, hr]⟩
  num := by rw [hk, hf, h.num]

theorem init_accounted {n : Nat} {caching : Bool} {hbs : Nat}
    (h : BlockPool.init n caching hbs = .ok p) : Accounted p (fun _ => 0) ∧ HashOk p := by
  unfold BlockPool.init at h
  by_cases hn : n = 0
  · rw [if_pos hn] at h
    cases h
  · rw [if_neg hn] at h
    obtain rfl := Except.ok.inj h
    have htail : (List.range n).tail = List.range' 1 (n - 1) := by
      obtain ⟨m, rfl⟩ : ∃ m, n = m + 1 := ⟨n - 1, by omega⟩
      rw [List.range_eq_range', List.range'_succ, List.tail_cons]
      rfl
    have hcount : 1 + (n - 1) = n := by omega
    refine ⟨⟨fun _ _ => rfl, by simp, ?_, fun b => ?_, ?_⟩, ⟨fun b k => ?_, by simp⟩⟩
    · exact List.nodup_range.sublist (List.tail_sublist _)
    · simp only [htail, List.mem_range'_1, nullBlock]
      constructor
      · rintro ⟨h1, h2⟩
        exact ⟨Nat.ne_of_gt h1, Nat.lt_of_lt_of_eq h2 hcount, trivial⟩
      · rintro ⟨h0, hb, -⟩
        exact ⟨Nat.one_le_iff_ne_zero.mpr h0, Nat.lt_of_lt_of_eq hb hcount.symm⟩
    · simp only [htail, List.length_range']
      omega
    · simp [filedIn]

/-- The claims of `get_new_blocks`, one block after the other. -/
theorem claim_spec :
    ∀ (bs : List BlockId) {p p' : BlockPool H}, HashOk p → bs.Nodup →
      bs.foldlM claimBlock p = .ok p' →
      HashOk p' ∧ p'.numGpuBlocks = p.numGpuBlocks ∧ p'.freeBlocks = p.freeBlocks ∧
        p'.numFreeBlocks = p.numFreeBlocks ∧ p'.hashBlockSize = p.hashBlockSize ∧
        ∀ b, p'.refCnt b = p.refCnt b + bs.count b := by
  intro bs
  induction bs with
  | nil =>
    intro p p' hh _ h
    obtain rfl := Raises.foldlM_nil_ok.mp h
    exact ⟨hh, rfl, rfl, rfl, rfl, by simp⟩
  | cons b bs ih =>
    intro p p' hh hn h
    obtain ⟨p₁, h₁, h₂⟩ := Raises.foldlM_cons_ok.mp h
    obtain ⟨hnotin, hn'⟩ := List.nodup_cons.mp hn
    -- the block before its count is raised
    obtain ⟨q, hq, hstep⟩ : ∃ q,
        q = (if p.enableCaching then p.maybeEvictCachedBlock b else p) ∧ HashStep p q := by
      refine ⟨_, rfl, ?_⟩
      by_cases hc : p.enableCaching = true
      · rw [if_pos hc]
        exact maybeEvict_hashStep hh b
      · rw [if_neg hc]
        exact HashStep.refl hh
    unfold claimBlock at h₁
    dsimp only at h₁
    rw [← hq] at h₁
    by_cases hz : q.refCnt b = 0
    · rw [if_pos hz] at h₁
      obtain rfl := Except.ok.inj h₁
      have hraised : HashOk { q with refCnt := Function.update q.refCnt b (q.refCnt b + 1) } :=
        ⟨hstep.hashOk.filed, hstep.hashOk.live⟩
      obtain ⟨r1, r2, r3, r4, r5, r6⟩ := ih hraised hn' h₂
      refine ⟨r1, r2.trans hstep.numGpuBlocks, r3.trans hstep.freeBlocks,
        r4.trans hstep.numFreeBlocks, r5.trans hstep.hashBlockSize, ?_⟩
      intro b'
      rw [r6, List.count_cons]
      by_cases hbb : b' = b
      · subst hbb
        simp [List.count_eq_zero_of_not_mem hnotin, hstep.refCnt]
      · have : ¬ (b == b') = true := by simpa using Ne.symm hbb
        simp [Function.update_of_ne hbb, hstep.refCnt, this]
    · rw [if_neg hz] at h₁
      cases h₁

/-- The blocks `bs` were unreferenced and now have one reference each. -/
structure FreshBlocks (p : BlockPool H) (refs : BlockId → Nat) (p' : BlockPool H)
    (bs : List BlockId) : Prop where
  accounted : Accounted p' fun b => refs b + bs.count b
  hashOk : HashOk p'
  numGpuBlocks : p'.numGpuBlocks = p.numGpuBlocks
  hashBlockSize : p'.hashBlockSize = p.hashBlockSize
  numFreeBlocks : p'.numFreeBlocks = p.numFreeBlocks - bs.length
  nodup : bs.Nodup
  fresh : ∀ b ∈ bs, b ≠ nullBlock ∧ b < p.numGpuBlocks ∧ refs b = 0

/-- **Fresh blocks.** A non-negative request returns that many distinct
unreferenced blocks and gives each of them one reference. -/
theorem getNewBlocks_spec {n : Int} (ha : Accounted p refs) (hh : HashOk p) (hn : 0 ≤ n)
    (h : p.getNewBlocks n = .ok (p', bs)) : FreshBlocks p refs p' bs ∧ (bs.length : Int) = n := by
  unfold getNewBlocks at h
  by_cases hle : n > p.numFreeBlocks
  · rw [if_pos hle] at h
    simp at h
  · rw [if_neg hle] at h
    simp only [Raises.bind_eq_ok, Raises.pure_eq_ok] at h
    obtain ⟨⟨q, ret⟩, hpop, p₁, hclaim, heq⟩ := h
    obtain ⟨rfl, rfl⟩ := Prod.mk.inj heq
    have hnum := ha.num
    -- the queue's first `n` blocks
    have hq : q = { p with numFreeBlocks := p.numFreeBlocks - n
                           freeBlocks := p.freeBlocks.drop n.toNat } ∧
        ret = p.freeBlocks.take n.toNat := by
      unfold popleftN at hpop
      by_cases h0 : n = 0
      · rw [if_pos h0] at hpop
        obtain ⟨rfl, rfl⟩ := Prod.mk.inj (Except.ok.inj hpop)
        subst h0
        simp
      · rw [if_neg h0, if_pos (by omega), if_pos (by omega)] at hpop
        obtain ⟨rfl, rfl⟩ := Prod.mk.inj (Except.ok.inj hpop)
        exact ⟨rfl, rfl⟩
    obtain ⟨rfl, rfl⟩ := hq
    have hret : (p.freeBlocks.take n.toNat).Nodup := ha.nodup.sublist (List.take_sublist _ _)
    have hpopped : HashOk { p with numFreeBlocks := p.numFreeBlocks - n
                                   freeBlocks := p.freeBlocks.drop n.toNat } :=
      ⟨hh.filed, hh.live⟩
    obtain ⟨c1, c2, c3, c4, c5, c6⟩ := claim_spec _ hpopped hret hclaim
    have hfresh : ∀ b ∈ p.freeBlocks.take n.toNat,
        b ≠ nullBlock ∧ b < p.numGpuBlocks ∧ refs b = 0 :=
      fun b hb => (ha.mem_free b).mp (List.mem_of_mem_take hb)
    have hlen : (p.freeBlocks.take n.toNat).length = n.toNat := by
      rw [List.length_take]
      omega
    have hsplit : ∀ b, b ∈ p.freeBlocks ↔
        b ∈ p.freeBlocks.take n.toNat ∨ b ∈ p.freeBlocks.drop n.toNat := by
      intro b
      rw [← List.mem_append, List.take_append_drop]
    have hdisj : ∀ b, b ∈ p.freeBlocks.take n.toNat → b ∉ p.freeBlocks.drop n.toNat := by
      intro b hb hb'
      have := ha.nodup
      rw [← List.take_append_drop n.toNat p.freeBlocks] at this
      exact (List.nodup_append.mp this).2.2 b hb b hb' rfl
    refine ⟨⟨⟨?_, ?_, ?_, ?_, ?_⟩, c1, c2, c5, ?_, hret, hfresh⟩, by rw [hlen]; omega⟩
    · intro b hb
      rw [c6 b, ha.cnt b hb]
      push_cast
      rfl
    · intro b hb hr
      rw [c2]
      by_cases hmem : b ∈ p.freeBlocks.take n.toNat
      · exact (hfresh b hmem).2.1
      · rw [List.count_eq_zero_of_not_mem hmem] at hr
        exact ha.live b hb hr
    · rw [c3]
      exact ha.nodup.sublist (List.drop_sublist _ _)
    · intro b
      rw [c3, c2]
      constructor
      · intro hb
        obtain ⟨h1, h2, h3⟩ := (ha.mem_free b).mp ((hsplit b).mpr (Or.inr hb))
        refine ⟨h1, h2, ?_⟩
        rw [h3, List.count_eq_zero_of_not_mem fun hb' => hdisj b hb' hb]
      · rintro ⟨h1, h2, h3⟩
        have hb := (ha.mem_free b).mpr ⟨h1, h2, by omega⟩
        refine ((hsplit b).mp hb).resolve_left fun hb' => ?_
        have := List.count_pos_iff.mpr hb'
        dsimp only at h3
        omega
    · rw [c3, c4]
      simp only [List.length_drop]
      omega
    · rw [c4, hlen]
      dsimp only
      omega

/-- The claims go through when the blocks are unreferenced. -/
theorem claim_total :
    ∀ (bs : List BlockId) (p : BlockPool H), HashOk p → bs.Nodup → (∀ b ∈ bs, p.refCnt b = 0) →
      ∃ p', bs.foldlM claimBlock p = .ok p' := by
  intro bs
  induction bs with
  | nil => intro p _ _ _; exact ⟨p, rfl⟩
  | cons b bs ih =>
    intro p hh hn hz
    obtain ⟨hnotin, hn'⟩ := List.nodup_cons.mp hn
    obtain ⟨p₁, h₁, hh₁, hcnt⟩ : ∃ p₁, claimBlock p b = .ok p₁ ∧ HashOk p₁ ∧
        ∀ b', b' ≠ b → p₁.refCnt b' = p.refCnt b' := by
      have hevict : HashStep p (if p.enableCaching then p.maybeEvictCachedBlock b else p) := by
        split
        · exact maybeEvict_hashStep hh b
        · exact HashStep.refl hh
      unfold claimBlock
      dsimp only
      rw [hevict.refCnt, if_pos (hz b List.mem_cons_self)]
      refine ⟨_, rfl, ⟨hevict.hashOk.filed, hevict.hashOk.live⟩, fun b' hb' => ?_⟩
      simp [hb']
    obtain ⟨p', h'⟩ := ih p₁ hh₁ hn' fun b' hb' => by
      rw [hcnt b' (fun heq => hnotin (heq ▸ hb'))]
      exact hz b' (List.mem_cons_of_mem b hb')
    exact ⟨p', Raises.foldlM_cons_ok.mpr ⟨p₁, h₁, h'⟩⟩

/-- Up to the number of free blocks a request is granted. -/
theorem getNewBlocks_total {n : Int} (ha : Accounted p refs) (hh : HashOk p) (hn : 0 ≤ n)
    (hle : n ≤ p.numFreeBlocks) : ∃ p' bs, p.getNewBlocks n = .ok (p', bs) := by
  have hnum := ha.num
  obtain ⟨q, bs, hpop, hq, hbs⟩ : ∃ q bs, p.popleftN n = .ok (q, bs) ∧
      (HashOk q ∧ q.refCnt = p.refCnt) ∧ bs = p.freeBlocks.take n.toNat := by
    unfold popleftN
    by_cases h0 : n = 0
    · rw [if_pos h0]
      exact ⟨p, [], rfl, ⟨hh, rfl⟩, by simp [h0]⟩
    · rw [if_neg h0, if_pos (by omega), if_pos (by omega)]
      exact ⟨_, _, rfl, ⟨⟨hh.filed, hh.live⟩, rfl⟩, rfl⟩
  subst hbs
  have hzero : ∀ b ∈ p.freeBlocks.take n.toNat, q.refCnt b = 0 := by
    intro b hb
    obtain ⟨h1, -, h3⟩ := (ha.mem_free b).mp (List.mem_of_mem_take hb)
    rw [hq.2, ha.cnt b h1, h3]
    rfl
  obtain ⟨p', hclaim⟩ := claim_total _ q hq.1 (ha.nodup.sublist (List.take_sublist _ _)) hzero
  refine ⟨p', p.freeBlocks.take n.toNat, ?_⟩
  rw [getNewBlocks, if_neg (by omega)]
  exact Raises.bind_eq_ok.mpr ⟨_, hpop, Raises.bind_eq_ok.mpr ⟨_, hclaim, rfl⟩⟩

omit [DecidableEq H] in
theorem touch_accounted :
    ∀ (bs : List BlockId) {p p' : BlockPool H} {refs : BlockId → Nat}, Accounted p refs →
      (∀ b ∈ bs, b = nullBlock ∨ b < p.numGpuBlocks) → p.touch bs = .ok p' →
      Accounted p' (fun b => refs b + bs.count b) ∧ p'.numGpuBlocks = p.numGpuBlocks ∧
        p'.blockHash = p.blockHash ∧ p'.cachedBlockHashToBlock = p.cachedBlockHashToBlock ∧
        p'.hashBlockSize = p.hashBlockSize := by
  intro bs
  induction bs with
  | nil =>
    intro p p' refs ha _ h
    obtain rfl := Raises.foldlM_nil_ok.mp h
    exact ⟨by simpa using ha, rfl, rfl, rfl, rfl⟩
  | cons b bs ih =>
    intro p p' refs ha hval h
    obtain ⟨p₁, h₁, h₂⟩ := Raises.foldlM_cons_ok.mp h
    have hb := hval b List.mem_cons_self
    -- one more reference to `b`
    have hone : Accounted p₁ (fun b' => refs b' + if b' = b then 1 else 0) ∧
        p₁.numGpuBlocks = p.numGpuBlocks ∧ p₁.blockHash = p.blockHash ∧
        p₁.cachedBlockHashToBlock = p.cachedBlockHashToBlock ∧
        p₁.hashBlockSize = p.hashBlockSize := by
      unfold touchBlock at h₁
      by_cases hfree : p.refCnt b = 0 ∧ b ≠ nullBlock
      · rw [if_pos hfree] at h₁
        simp only [Raises.bind_eq_ok, Raises.pure_eq_ok] at h₁
        obtain ⟨q, hq, rfl⟩ := h₁
        obtain ⟨hz, hnull⟩ := hfree
        have hr : refs b = 0 := by
          have := ha.cnt b hnull
          omega
        have hmem : b ∈ p.freeBlocks :=
          (ha.mem_free b).mpr ⟨hnull, hb.resolve_left hnull, hr⟩
        unfold removeFree at hq
        rw [if_pos hmem] at hq
        obtain rfl := Except.ok.inj hq
        refine ⟨⟨?_, ?_, ha.nodup.erase b, ?_, ?_⟩, rfl, rfl, rfl, rfl⟩
        · intro b' hb'
          by_cases hbb : b' = b
          · subst hbb
            simp [hz, hr]
          · simp [hbb, ha.cnt b' hb']
        · intro b' hb' hr'
          by_cases hbb : b' = b
          · subst hbb
            exact hb.resolve_left hb'
          · exact ha.live b' hb' (by simpa [hbb] using hr')
        · intro b'
          dsimp only
          rw [ha.nodup.mem_erase_iff, ha.mem_free]
          by_cases hbb : b' = b
          · simp [hbb]
          · simp [hbb]
        · have := ha.num
          simp only [List.length_erase_of_mem hmem]
          have := List.length_pos_of_mem hmem
          omega
      · rw [if_neg hfree] at h₁
        simp only [Raises.bind_eq_ok, Raises.pure_eq_ok] at h₁
        obtain ⟨q, hq, rfl⟩ := h₁
        obtain rfl := Except.ok.inj hq
        refine ⟨⟨?_, ?_, ha.nodup, ?_, ha.num⟩, rfl, rfl, rfl, rfl⟩
        · intro b' hb'
          by_cases hbb : b' = b
          · subst hbb
            simp [ha.cnt b' hb']
          · simp [hbb, ha.cnt b' hb']
        · intro b' hb' hr'
          by_cases hbb : b' = b
          · subst hbb
            exact hb.resolve_left hb'
          · exact ha.live b' hb' (by simpa [hbb] using hr')
        · intro b'
          dsimp only
          rw [ha.mem_free]
          by_cases hbb : b' = b
          · subst hbb
            -- already referenced, or null
            constructor
            · rintro ⟨hn, -, hr⟩
              have := ha.cnt b' hn
              exact absurd ⟨by omega, hn⟩ hfree
            · rintro ⟨-, -, hr⟩
              simp at hr
          · simp [hbb]
    obtain ⟨ha₁, hgpu, hhash, hmap, hbs⟩ := hone
    obtain ⟨r1, r2, r3, r4, r5⟩ := ih ha₁
      (fun b' hb' => by rw [hgpu]; exact hval b' (List.mem_cons_of_mem b hb')) h₂
    refine ⟨?_, r2.trans hgpu, r3.trans hhash, r4.trans hmap, r5.trans hbs⟩
    have heq : (fun b' => refs b' + (b :: bs).count b')
        = fun b' => (refs b' + if b' = b then 1 else 0) + bs.count b' := by
      funext b'
      rw [List.count_cons]
      by_cases hbb : b' = b
      · simp [hbb]
        omega
      · have : ¬ (b == b') = true := by simpa using Ne.symm hbb
        simp [hbb, this]
    rw [heq]
    exact r1

/-- The decrements of `free_blocks`. -/
theorem foldl_decrement (bs : List BlockId) :
    ∀ (rc : BlockId → Int) (b : BlockId),
      bs.foldl (fun rc b => Function.update rc b (rc b - 1)) rc b = rc b - bs.count b := by
  induction bs with
  | nil => intro rc b; simp
  | cons b₀ bs ih =>
    intro rc b
    rw [List.foldl_cons, ih, List.count_cons]
    by_cases hb : b = b₀
    · subst hb
      simp
      omega
    · have : ¬ (b₀ == b) = true := by simpa using Ne.symm hb
      simp [Function.update_of_ne hb, this]

omit [DecidableEq H] in
/-- Freeing distinct blocks gives back one reference to each. -/
theorem freeBlocksOf_accounted (ha : Accounted p (fun b => refs b + bs.count b))
    (hone : ∀ b, b ≠ nullBlock → bs.count b ≤ 1) : Accounted (p.freeBlocksOf bs) refs := by
  have hcnt : ∀ b, b ≠ nullBlock →
      bs.foldl (fun rc b => Function.update rc b (rc b - 1)) p.refCnt b = refs b := by
    intro b hb
    rw [foldl_decrement, ha.cnt b hb]
    push_cast
    omega
  obtain ⟨freed, hfreed⟩ : ∃ freed, freed = bs.filter fun b =>
      decide (bs.foldl (fun rc b => Function.update rc b (rc b - 1)) p.refCnt b = 0
        ∧ b ≠ nullBlock) := ⟨_, rfl⟩
  have hmem : ∀ b, b ∈ freed ↔ b ∈ bs ∧ b ≠ nullBlock ∧ refs b = 0 := by
    intro b
    rw [hfreed, List.mem_filter, decide_eq_true_eq]
    constructor
    · rintro ⟨h1, h2, h3⟩
      rw [hcnt b h3] at h2
      exact ⟨h1, h3, by exact_mod_cast h2⟩
    · rintro ⟨h1, h2, h3⟩
      exact ⟨h1, by rw [hcnt b h2, h3]; rfl, h2⟩
  have hnodup : freed.Nodup := by
    refine List.nodup_iff_count_le_one.mpr fun b => ?_
    by_cases hb : b ∈ freed
    · have hsub : freed.count b ≤ bs.count b := by
        rw [hfreed]
        exact List.Sublist.count_le _ List.filter_sublist
      exact Nat.le_trans hsub (hone b ((hmem b).mp hb).2.1)
    · rw [List.count_eq_zero_of_not_mem hb]
      exact Nat.zero_le 1
  have hdisj : ∀ b ∈ p.freeBlocks, b ∉ freed := by
    intro b hb hb'
    have h1 := ((ha.mem_free b).mp hb).2.2
    have h2 := List.count_pos_iff.mpr ((hmem b).mp hb').1
    omega
  have hp : (p.freeBlocksOf bs).freeBlocks = p.freeBlocks ++ freed := by
    rw [hfreed]
    rfl
  refine ⟨hcnt, ?_, ?_, ?_, ?_⟩
  · intro b hb hr
    exact ha.live b hb (by omega)
  · rw [hp]
    exact List.nodup_append.mpr ⟨ha.nodup, hnodup, fun b hb b' hb' hbb => hdisj b hb (hbb ▸ hb')⟩
  · intro b
    rw [hp, List.mem_append, ha.mem_free, hmem]
    constructor
    · rintro (⟨h1, h2, h3⟩ | ⟨h1, h2, h3⟩)
      · exact ⟨h1, h2, by omega⟩
      · refine ⟨h2, ha.live b h2 ?_, h3⟩
        have := List.count_pos_iff.mpr h1
        omega
    · rintro ⟨h1, h2, h3⟩
      by_cases hb : b ∈ bs
      · exact Or.inr ⟨hb, h1, h3⟩
      · exact Or.inl ⟨h1, h2, by rw [h3, List.count_eq_zero_of_not_mem hb]⟩
  · rw [hp, List.length_append]
    show p.numFreeBlocks + (bs.filter _).length = _
    rw [← hfreed, ha.num]
    push_cast
    rfl

theorem freeBlocksOf_hashOk (hh : HashOk p) (bs : List BlockId) :
    HashOk (p.freeBlocksOf bs) := ⟨hh.filed, hh.live⟩

/-! ## Operations that only touch the hashes -/

theorem HashStep.accounted (h : HashStep p p') (ha : Accounted p refs) : Accounted p' refs :=
  ha.congr (fun _ _ => rfl) h.numGpuBlocks h.refCnt h.freeBlocks h.numFreeBlocks

theorem evictBlocks_hashStep (hh : HashOk p) (h : p.evictBlocks bs = .ok p') : HashStep p p' := by
  refine Raises.foldlM_inv (I := fun q => HashStep p q) bs p p' ?_ (HashStep.refl hh) h
  intro b _ q q' hq hstep
  by_cases hb : b < q.numGpuBlocks
  · rw [if_pos hb] at hstep
    obtain rfl := Except.ok.inj hstep
    exact hq.trans (maybeEvict_hashStep hq.hashOk b)
  · rw [if_neg hb] at hstep
    cases hstep

theorem resetPrefixCache_hashStep (hh : HashOk p) : HashStep p p.resetPrefixCache.1 := by
  unfold resetPrefixCache
  dsimp only
  split
  · exact HashStep.refl hh
  · exact ⟨rfl, rfl, rfl, rfl, rfl, rfl, ⟨fun b k => by simp [filedIn], by simp⟩⟩

theorem cacheBlock_hashStep {g : GroupId} {b : BlockId} {hash : Option (List H)} (hh : HashOk p)
    (hb : b = nullBlock ∨ b < p.numGpuBlocks) (h : cacheBlock g p (b, hash) = .ok p') :
    HashStep p p' := by
  unfold cacheBlock at h
  dsimp only at h
  by_cases hnull : b = nullBlock
  · rw [if_pos hnull] at h
    obtain rfl := Except.ok.inj h
    exact HashStep.refl hh
  · rw [if_neg hnull] at h
    by_cases hset : p.blockHash b = none
    · rw [if_neg (by simpa using hset)] at h
      cases hash with
      | none => cases h
      | some x =>
        obtain rfl := Except.ok.inj h
        refine ⟨rfl, rfl, rfl, rfl, rfl, rfl, ⟨filed_insert hh.filed hset (x, g), fun b' k hk => ?_⟩⟩
        dsimp only at hk
        by_cases hbb : b' = b
        · subst hbb
          exact ⟨hnull, hb.resolve_left hnull⟩
        · rw [Function.update_of_ne hbb] at hk
          exact hh.live b' k hk
    · rw [if_pos hset] at h
      cases h

theorem cacheFullBlocks_hashStep {r : Request H} {m n size : Nat} {g : GroupId} (hh : HashOk p)
    (hval : ∀ b ∈ bs, b = nullBlock ∨ b < p.numGpuBlocks)
    (h : p.cacheFullBlocks r bs m n size g = .ok p') : HashStep p p' := by
  unfold cacheFullBlocks at h
  by_cases hmn : m ≥ n
  · rw [if_pos hmn, Raises.pure_eq_ok] at h
    exact h ▸ HashStep.refl hh
  · rw [if_neg hmn] at h
    simp only [Raises.bind_eq_ok] at h
    obtain ⟨_, _, _, _, h⟩ := h
    refine Raises.foldlM_inv (I := fun q => HashStep p q) _ p p' ?_
      (HashStep.refl hh) h
    rintro ⟨b, hash⟩ hmem q q' hq hstep
    refine hq.trans (cacheBlock_hashStep hq.hashOk ?_ hstep)
    rw [hq.numGpuBlocks]
    obtain ⟨i, hi, heq⟩ := List.mem_mapIdx.mp hmem
    have hbmem : b ∈ (bs.take n).drop m := by
      rw [← (Prod.mk.inj heq).1]
      exact List.getElem_mem hi
    exact hval b (List.mem_of_mem_take (List.mem_of_mem_drop hbmem))

end BlockPool

end VllmEngine
