import VllmEngine.Lib.Run
import VllmEngine.Kv.BlockPool

/-!
# The hash map of the block pool

`BlockHashToBlockMap` holds one block or a dict of blocks under a key, and the
blocks carry their keys themselves. `MapOk` says that the two agree and that no
dict is empty; `insertCached` and `popCached` keep it when they come with the
assignment to the block, which is how every caller in `BlockPool` uses them.

> `hashMap_consistent`: after any calls of the pool's operations the map and
> the blocks agree, and `get_cached_block` finds a block of every group exactly
> when there is one.
-/

namespace VllmEngine

namespace BlockPool

variable {H : Type} [DecidableEq H]

/-- The blocks filed under a key. -/
def filedIn (m : Dict (BlockKey H) CachedBlocks) (k : BlockKey H) : List BlockId :=
  (m.get? k).elim [] CachedBlocks.toList

variable {m : Dict (BlockKey H) CachedBlocks} {k : BlockKey H} {b : BlockId}
  {hash : BlockId → Option (BlockKey H)} {p p' : BlockPool H} {bs : List BlockId}

theorem filedIn_of_get? {v : Option CachedBlocks} (h : m.get? k = v) :
    filedIn m k = v.elim [] CachedBlocks.toList := by
  rw [filedIn, h]

/-- An insertion appends the block to its key's list. -/
theorem filedIn_insertCached (m : Dict (BlockKey H) CachedBlocks) (k k' : BlockKey H)
    (b : BlockId) : filedIn (insertCached m k b) k'
      = if k' = k then (if b ∈ filedIn m k then filedIn m k else filedIn m k ++ [b])
        else filedIn m k' := by
  by_cases hk : k' = k
  · subst hk
    rw [if_pos rfl]
    unfold insertCached
    cases hm : m.get? k' with
    | none => simp [filedIn, hm, CachedBlocks.toList]
    | some v =>
      cases v with
      | one b₀ =>
        by_cases hb : b₀ = b
        · simp [filedIn, hm, CachedBlocks.toList, hb]
        · simp [filedIn, hm, CachedBlocks.toList, hb, Ne.symm hb]
      | many bs => simp [filedIn, hm, CachedBlocks.toList]
  · rw [if_neg hk]
    unfold insertCached
    cases hm : m.get? k with
    | none => simp [filedIn, Dict.get?_set_ne _ _ hk]
    | some v => cases v <;> simp [filedIn, Dict.get?_set_ne _ _ hk]

theorem mem_filedIn_insertCached {k' : BlockKey H} {b' : BlockId} :
    b' ∈ filedIn (insertCached m k b) k' ↔ b' ∈ filedIn m k' ∨ (k' = k ∧ b' = b) := by
  rw [filedIn_insertCached]
  by_cases hk : k' = k
  · subst hk
    rw [if_pos rfl]
    by_cases hb : b ∈ filedIn m k'
    · rw [if_pos hb]
      exact ⟨Or.inl, fun h => h.elim id fun h => h.2 ▸ hb⟩
    · simp [hb]
  · simp [hk]

/-- A pop takes the block off its key's list and says whether it was there. -/
theorem filedIn_popCached (m : Dict (BlockKey H) CachedBlocks) (k k' : BlockKey H) (b : BlockId) :
    filedIn (popCached m k b).1 k'
      = if k' = k then (filedIn m k).filter (fun b' => decide (b' ≠ b)) else filedIn m k' := by
  by_cases hk : k' = k
  · subst hk
    rw [if_pos rfl]
    unfold popCached
    cases hm : m.get? k' with
    | none => simp [filedIn, hm]
    | some v =>
      cases v with
      | one b₀ =>
        by_cases hb : b₀ = b
        · simp [filedIn, hm, CachedBlocks.toList, hb]
        · simp [filedIn, hm, CachedBlocks.toList, hb]
      | many bs =>
        dsimp only
        split
        next hnil =>
          rw [filedIn, Dict.get?_erase_self, filedIn, hm]
          exact hnil.symm
        next hne =>
          rw [filedIn, Dict.get?_set_self, filedIn, hm]
          rfl
  · rw [if_neg hk]
    unfold popCached
    cases hm : m.get? k with
    | none => rfl
    | some v =>
      cases v with
      | one b₀ =>
        dsimp only
        split
        · rw [filedIn, Dict.get?_erase_ne _ hk, filedIn]
        · rw [filedIn, Dict.get?_set_ne _ _ hk, Dict.get?_erase_ne _ hk, filedIn]
      | many bs =>
        dsimp only
        split
        · rw [filedIn, Dict.get?_erase_ne _ hk, filedIn]
        · rw [filedIn, Dict.get?_set_ne _ _ hk, Dict.get?_erase_ne _ hk, filedIn]

theorem popCached_found (m : Dict (BlockKey H) CachedBlocks) (k : BlockKey H) (b : BlockId) :
    (popCached m k b).2 = true ↔ b ∈ filedIn m k := by
  unfold popCached
  cases hm : m.get? k with
  | none => simp [filedIn, hm]
  | some v =>
    cases v with
    | one b₀ =>
      by_cases hb : b₀ = b
      · simp [filedIn, hm, CachedBlocks.toList, hb]
      · simp [filedIn, hm, CachedBlocks.toList, hb, Ne.symm hb]
    | many bs => simp [filedIn, hm, CachedBlocks.toList]

/-- What a pop leaves behind, and whether it found the block. -/
theorem popCached_spec {m' : Dict (BlockKey H) CachedBlocks} {found : Bool}
    (h : popCached m k b = (m', found)) :
    (found = true ↔ b ∈ filedIn m k) ∧
    ∀ k' b', b' ∈ filedIn m' k' ↔ b' ∈ filedIn m k' ∧ ¬ (k' = k ∧ b' = b) := by
  have hfound := popCached_found m k b
  have hlist := filedIn_popCached m k
  rw [h] at hfound
  refine ⟨hfound, fun k' b' => ?_⟩
  have hk' := hlist k' b
  rw [h] at hk'
  dsimp only at hk'
  rw [hk']
  by_cases hk : k' = k
  · simp [hk]
  · simp [hk]

/-! ## Consistency -/

/-- The keys on the blocks and the map agree; a key's list has no block twice
and is not empty. -/
structure MapOk (hash : BlockId → Option (BlockKey H)) (m : Dict (BlockKey H) CachedBlocks) :
    Prop where
  filed : ∀ b k, hash b = some k ↔ b ∈ filedIn m k
  nodup : ∀ k, (filedIn m k).Nodup
  nonempty : ∀ k bs, m.get? k = some bs → bs.toList ≠ []

theorem MapOk.empty : MapOk (fun _ => none) (Dict.empty : Dict (BlockKey H) CachedBlocks) :=
  ⟨by simp [filedIn], by simp [filedIn], by simp⟩

theorem filed_insert (h : ∀ b k, hash b = some k ↔ b ∈ filedIn m k) (hb : hash b = none)
    (k : BlockKey H) (b' : BlockId) (k' : BlockKey H) :
    Function.update hash b (some k) b' = some k' ↔ b' ∈ filedIn (insertCached m k b) k' := by
  rw [mem_filedIn_insertCached]
  by_cases hbb : b' = b
  · subst hbb
    rw [Function.update_self, Option.some.injEq]
    constructor
    · intro hk
      exact Or.inr ⟨hk.symm, rfl⟩
    · intro hk
      rcases hk with hk | hk
      · rw [(h b' k').mpr hk] at hb
        cases hb
      · exact hk.1.symm
  · rw [Function.update_of_ne hbb, h]
    simp [hbb]

theorem filed_evict (h : ∀ b k, hash b = some k ↔ b ∈ filedIn m k) (hb : hash b = some k)
    (b' : BlockId) (k' : BlockKey H) :
    Function.update hash b none b' = some k' ↔ b' ∈ filedIn (popCached m k b).1 k' := by
  have hpop : popCached m k b = ((popCached m k b).1, (popCached m k b).2) := rfl
  rw [(popCached_spec hpop).2]
  by_cases hbb : b' = b
  · subst hbb
    rw [Function.update_self]
    constructor
    · intro hk
      cases hk
    · intro hk
      -- the block is filed under its own key only
      have hkk := (h b' k').mpr hk.1
      rw [hb, Option.some.injEq] at hkk
      exact absurd ⟨hkk.symm, rfl⟩ hk.2
  · rw [Function.update_of_ne hbb, h]
    simp [hbb]

theorem insertCached_nonempty (h : ∀ k bs, m.get? k = some bs → bs.toList ≠ []) (k' : BlockKey H)
    (bs : CachedBlocks) (hk : (insertCached m k b).get? k' = some bs) : bs.toList ≠ [] := by
  by_cases hkk : k' = k
  · have hmem : b ∈ filedIn (insertCached m k b) k' :=
      mem_filedIn_insertCached.mpr (Or.inr ⟨hkk, rfl⟩)
    rw [filedIn_of_get? hk] at hmem
    exact List.ne_nil_of_mem hmem
  · refine h k' bs ?_
    rw [← hk]
    unfold insertCached
    cases hm : m.get? k with
    | none => exact (Dict.get?_set_ne _ _ hkk).symm
    | some v =>
      cases v with
      | one b₀ => exact (Dict.get?_set_ne _ _ hkk).symm
      | many bs' => exact (Dict.get?_set_ne _ _ hkk).symm

theorem popCached_nonempty (h : ∀ k bs, m.get? k = some bs → bs.toList ≠ []) (k' : BlockKey H)
    (bs : CachedBlocks) (hk : (popCached m k b).1.get? k' = some bs) : bs.toList ≠ [] := by
  unfold popCached at hk
  cases hm : m.get? k with
  | none =>
    rw [hm] at hk
    exact h k' bs hk
  | some v =>
    rw [hm] at hk
    cases v with
    | one b₀ =>
      dsimp only at hk
      split at hk
      · rw [Dict.get?_erase] at hk
        split at hk
        · cases hk
        · exact h k' bs hk
      · rw [Dict.get?_set, Dict.get?_erase] at hk
        split at hk
        · obtain rfl := Option.some.inj hk
          exact h k _ hm
        · exact h k' bs hk
    | many bs' =>
      dsimp only at hk
      split at hk
      · rw [Dict.get?_erase] at hk
        split at hk
        · cases hk
        · exact h k' bs hk
      next hne =>
        rw [Dict.get?_set, Dict.get?_erase] at hk
        split at hk
        · obtain rfl := Option.some.inj hk
          exact hne
        · exact h k' bs hk

/-- Filing a block that has no key. -/
theorem MapOk.insert (h : MapOk hash m) (hb : hash b = none) (k : BlockKey H) :
    MapOk (Function.update hash b (some k)) (insertCached m k b) := by
  refine ⟨filed_insert h.filed hb k, fun k' => ?_, insertCached_nonempty h.nonempty⟩
  rw [filedIn_insertCached]
  split
  · split
    · exact h.nodup k
    next hnot =>
      rw [List.nodup_append]
      refine ⟨h.nodup k, List.nodup_singleton b, fun a ha a' ha' => ?_⟩
      rw [List.mem_singleton.mp ha']
      exact fun heq => hnot (heq ▸ ha)
  · exact h.nodup k'

/-- Taking a block off the map together with its key. -/
theorem MapOk.evict (h : MapOk hash m) (hb : hash b = some k) :
    MapOk (Function.update hash b none) (popCached m k b).1 := by
  refine ⟨filed_evict h.filed hb, fun k' => ?_, popCached_nonempty h.nonempty⟩
  rw [filedIn_popCached]
  split
  · exact (h.nodup k).filter _
  · exact h.nodup k'

/-! ## The operations of the pool -/

/-- The pool's map and its blocks agree. -/
def Consistent (p : BlockPool H) : Prop := MapOk p.blockHash p.cachedBlockHashToBlock

theorem maybeEvict_consistent (h : p.Consistent) (b : BlockId) :
    (p.maybeEvictCachedBlock b).Consistent := by
  unfold maybeEvictCachedBlock
  cases hb : p.blockHash b with
  | none => exact h
  | some k =>
    have hev := MapOk.evict h hb
    dsimp only
    cases hpop : popCached p.cachedBlockHashToBlock k b with
    | mk m found =>
      rw [hpop] at hev
      cases found with
      | false => exact h
      | true => exact hev

theorem claimBlock_consistent (h : p.Consistent) (hstep : p.claimBlock b = .ok p') :
    p'.Consistent := by
  obtain ⟨q, hq, hev⟩ : ∃ q, q = (if p.enableCaching then p.maybeEvictCachedBlock b else p) ∧
      q.Consistent := by
    refine ⟨_, rfl, ?_⟩
    split
    · exact maybeEvict_consistent h b
    · exact h
  unfold claimBlock at hstep
  dsimp only at hstep
  rw [← hq] at hstep
  split at hstep
  · obtain rfl := Except.ok.inj hstep
    exact hev
  · cases hstep

omit [DecidableEq H] in
theorem popleftN_hashes {n : Int} (hpop : p.popleftN n = .ok (p', bs)) :
    p'.blockHash = p.blockHash ∧ p'.cachedBlockHashToBlock = p.cachedBlockHashToBlock := by
  unfold popleftN at hpop
  split at hpop
  · obtain ⟨rfl, -⟩ := Prod.mk.inj (Except.ok.inj hpop)
    exact ⟨rfl, rfl⟩
  · split at hpop
    · split at hpop
      · obtain ⟨rfl, -⟩ := Prod.mk.inj (Except.ok.inj hpop)
        exact ⟨rfl, rfl⟩
      · cases hpop
    · cases hpop

theorem Consistent.congr (h : p.Consistent)
    (heq : p'.blockHash = p.blockHash ∧ p'.cachedBlockHashToBlock = p.cachedBlockHashToBlock) :
    p'.Consistent := by
  unfold Consistent
  rw [heq.1, heq.2]
  exact h

theorem getNewBlocks_consistent {n : Int} (h : p.Consistent)
    (hnew : p.getNewBlocks n = .ok (p', bs)) : p'.Consistent := by
  unfold getNewBlocks at hnew
  split at hnew
  · exact absurd hnew Raises.throw_ne_ok
  · simp only [Raises.bind_eq_ok, Raises.pure_eq_ok] at hnew
    obtain ⟨⟨q, ret⟩, hpop, p₁, hclaim, heq⟩ := hnew
    obtain ⟨rfl, rfl⟩ := Prod.mk.inj heq
    exact Raises.foldlM_inv (I := Consistent) ret q p₁
      (fun b _ t t' ht hstep => claimBlock_consistent ht hstep) (h.congr (popleftN_hashes hpop)) hclaim

omit [DecidableEq H] in
theorem touch_hashes (h : p.touch bs = .ok p') :
    p'.blockHash = p.blockHash ∧ p'.cachedBlockHashToBlock = p.cachedBlockHashToBlock := by
  refine Raises.foldlM_inv (I := fun q : BlockPool H => q.blockHash = p.blockHash ∧
    q.cachedBlockHashToBlock = p.cachedBlockHashToBlock) bs p p' ?_ ⟨rfl, rfl⟩ h
  intro b _ q q' hq hstep
  unfold touchBlock at hstep
  split at hstep
  · simp only [Raises.bind_eq_ok, Raises.pure_eq_ok] at hstep
    obtain ⟨q₁, hremove, rfl⟩ := hstep
    unfold removeFree at hremove
    split at hremove
    · obtain rfl := Except.ok.inj hremove
      exact hq
    · cases hremove
  · obtain rfl := Except.ok.inj hstep
    exact hq

theorem touch_consistent (h : p.Consistent) (htouch : p.touch bs = .ok p') :
    p'.Consistent := h.congr (touch_hashes htouch)

theorem evictBlocks_consistent (h : p.Consistent) (hevict : p.evictBlocks bs = .ok p') :
    p'.Consistent := by
  refine Raises.foldlM_inv (I := Consistent) bs p p' ?_ h hevict
  intro b _ q q' hq hstep
  split at hstep
  · obtain rfl := Except.ok.inj hstep
    exact maybeEvict_consistent hq b
  · cases hstep

theorem resetPrefixCache_consistent (h : p.Consistent) : p.resetPrefixCache.1.Consistent := by
  unfold resetPrefixCache
  dsimp only
  split
  · exact h
  · exact MapOk.empty

theorem cacheBlock_consistent {g : GroupId} {entry : BlockId × Option (List H)} (h : p.Consistent)
    (hstep : cacheBlock g p entry = .ok p') : p'.Consistent := by
  obtain ⟨b, hash⟩ := entry
  unfold cacheBlock at hstep
  dsimp only at hstep
  split at hstep
  · obtain rfl := Except.ok.inj hstep
    exact h
  · split at hstep
    · cases hstep
    next hset =>
      cases hash with
      | none => cases hstep
      | some x =>
        obtain rfl := Except.ok.inj hstep
        exact MapOk.insert h (by simpa using hset) (x, g)

theorem cacheFullBlocks_consistent {r : Request H} {numCached numFull size : Nat} {g : GroupId}
    (h : p.Consistent) (hcache : p.cacheFullBlocks r bs numCached numFull size g = .ok p') :
    p'.Consistent := by
  unfold cacheFullBlocks at hcache
  split at hcache
  · rw [Raises.pure_eq_ok] at hcache
    exact hcache ▸ h
  · simp only [Raises.bind_eq_ok] at hcache
    obtain ⟨_, _, _, _, hloop⟩ := hcache
    exact Raises.foldlM_inv (I := Consistent) _ p p'
      (fun e _ t t' ht hstep => cacheBlock_consistent ht hstep) h hloop

/-! ## Lookups -/

/-- A key's first block carries the key, and a missing key is on no block. -/
theorem getOneBlock_spec (h : p.Consistent) (k : BlockKey H) :
    (∀ b, p.getOneBlock k = some b → p.blockHash b = some k) ∧
      (p.getOneBlock k = none ↔ ∀ b, p.blockHash b ≠ some k) := by
  unfold getOneBlock
  cases hk : p.cachedBlockHashToBlock.get? k with
  | none =>
    refine ⟨by simp, ⟨fun _ b hb => ?_, fun _ => rfl⟩⟩
    rw [h.filed, filedIn_of_get? hk] at hb
    cases hb
  | some bs =>
    have hmem : ∀ b, b ∈ bs.toList → p.blockHash b = some k := by
      intro b hb
      rw [h.filed, filedIn_of_get? hk]
      exact hb
    obtain ⟨b, rest, hlist⟩ := List.exists_cons_of_ne_nil (h.nonempty k bs hk)
    dsimp only
    rw [hlist] at hmem ⊢
    refine ⟨fun b' hb' => ?_, ⟨fun hnone => ?_, fun hno => ?_⟩⟩
    · obtain rfl := Option.some.inj hb'
      exact hmem b List.mem_cons_self
    · cases hnone
    · exact absurd (hmem b List.mem_cons_self) (hno b)

/-- `get_cached_block` finds, for each group, a block that carries the group's
key, or misses when some group has none. -/
theorem getCachedBlock_spec (h : p.Consistent) (x : List H) :
    ∀ (groups : List GroupId),
      (∀ bs, p.getCachedBlock x groups = some bs →
        List.Forall₂ (fun g b => p.blockHash b = some (x, g)) groups bs) ∧
      (p.getCachedBlock x groups = none ↔ ∃ g ∈ groups, ∀ b, p.blockHash b ≠ some (x, g)) := by
  intro groups
  induction groups with
  | nil =>
    refine ⟨fun bs hbs => ?_, ⟨fun hnone => (nomatch hnone), fun ⟨g, hg, _⟩ => nomatch hg⟩⟩
    obtain rfl := Option.some.inj hbs
    exact List.Forall₂.nil
  | cons g groups ih =>
    obtain ⟨hfound, hmiss⟩ := getOneBlock_spec h (x, g)
    have hcons : p.getCachedBlock x (g :: groups)
        = (p.getOneBlock (x, g)).bind fun b => (p.getCachedBlock x groups).map (b :: ·) := by
      unfold getCachedBlock
      rw [List.mapM_cons]
      cases p.getOneBlock (x, g) with
      | none => rfl
      | some b =>
        cases hm : List.mapM (fun g => p.getOneBlock (x, g)) groups <;> simp
    rw [hcons]
    cases hone : p.getOneBlock (x, g) with
    | none =>
      refine ⟨fun bs hbs => (nomatch hbs), ⟨fun _ => ?_, fun _ => rfl⟩⟩
      exact ⟨g, List.mem_cons_self, hmiss.mp hone⟩
    | some b =>
      have hb := hfound b hone
      cases hrest : p.getCachedBlock x groups with
      | none =>
        obtain ⟨g', hg', hno⟩ := ih.2.mp hrest
        refine ⟨fun bs hbs => (nomatch hbs), ⟨fun _ => ?_, fun _ => rfl⟩⟩
        exact ⟨g', List.mem_cons_of_mem g hg', hno⟩
      | some bs =>
        refine ⟨fun bs' hbs' => ?_, ⟨fun hnone => (nomatch hnone), fun ⟨g', hg', hno⟩ => ?_⟩⟩
        · obtain rfl := Option.some.inj hbs'
          exact List.Forall₂.cons hb (ih.1 bs hrest)
        · rcases List.mem_cons.mp hg' with heq | hg'
          · exact absurd (heq ▸ hb) (hno b)
          · rw [ih.2.mpr ⟨g', hg', hno⟩] at hrest
            cases hrest

end BlockPool

/-! ## Runs -/

/-- The calls that the KV cache managers make on the pool. -/
inductive PoolOp (H : Type)
  | cacheFullBlocks (r : Request H) (blocks : List BlockId) (numCachedBlocks numFullBlocks : Nat)
      (blockSize : Nat) (groupId : GroupId)
  | getNewBlocks (numBlocks : Int)
  | touch (blocks : List BlockId)
  | freeBlocks (orderedBlocks : List BlockId)
  | evictBlocks (blockIds : List BlockId)
  | resetPrefixCache

section Runs

variable {H : Type} [DecidableEq H]

def PoolOp.step (p : BlockPool H) : PoolOp H → Except Python.Error (BlockPool H)
  | .cacheFullBlocks r blocks numCached numFull blockSize groupId =>
    p.cacheFullBlocks r blocks numCached numFull blockSize groupId
  | .getNewBlocks n => do
    let (p, _) ← p.getNewBlocks n
    return p
  | .touch blocks => p.touch blocks
  | .freeBlocks orderedBlocks => .ok (p.freeBlocksOf orderedBlocks)
  | .evictBlocks blockIds => p.evictBlocks blockIds
  | .resetPrefixCache => .ok p.resetPrefixCache.1

theorem PoolOp.step_consistent {p p' : BlockPool H} {op : PoolOp H} (h : p.Consistent)
    (hstep : op.step p = .ok p') : p'.Consistent := by
  cases op with
  | cacheFullBlocks r blocks numCached numFull blockSize groupId =>
    exact BlockPool.cacheFullBlocks_consistent h hstep
  | getNewBlocks n =>
    simp only [PoolOp.step, Raises.bind_eq_ok, Raises.pure_eq_ok] at hstep
    obtain ⟨⟨q, bs⟩, hnew, rfl⟩ := hstep
    exact BlockPool.getNewBlocks_consistent h hnew
  | touch blocks => exact BlockPool.touch_consistent h hstep
  | freeBlocks orderedBlocks =>
    obtain rfl := Except.ok.inj hstep
    exact h
  | evictBlocks blockIds => exact BlockPool.evictBlocks_consistent h hstep
  | resetPrefixCache =>
    obtain rfl := Except.ok.inj hstep
    exact BlockPool.resetPrefixCache_consistent h

theorem init_consistent {numGpuBlocks hashBlockSize : Nat} {enableCaching : Bool}
    {p : BlockPool H} (h : BlockPool.init numGpuBlocks enableCaching hashBlockSize = .ok p) :
    p.Consistent := by
  unfold BlockPool.init at h
  split at h
  · cases h
  · obtain rfl := Except.ok.inj h
    exact BlockPool.MapOk.empty

/-- **The map and the blocks agree** after any sequence of calls: a block
carries a key exactly when it is filed under it, no key has an empty dict, and
a lookup returns blocks that carry its keys and misses only when a key is on no
block. -/
theorem hashMap_consistent {numGpuBlocks hashBlockSize : Nat} {enableCaching : Bool}
    {p₀ p : BlockPool H} {ops : List (PoolOp H)}
    (hinit : BlockPool.init numGpuBlocks enableCaching hashBlockSize = .ok p₀)
    (hrun : Run.exec (fun p op => PoolOp.step p op) p₀ ops = .ok p) :
    (∀ b k, p.blockHash b = some k ↔
      ∃ bs, p.cachedBlockHashToBlock.get? k = some bs ∧ b ∈ bs.toList) ∧
    (∀ k bs, p.cachedBlockHashToBlock.get? k = some bs → bs.toList ≠ []) ∧
    ∀ h groups,
      (∀ bs, p.getCachedBlock h groups = some bs →
        List.Forall₂ (fun g b => p.blockHash b = some (h, g)) groups bs) ∧
      (p.getCachedBlock h groups = none ↔ ∃ g ∈ groups, ∀ b, p.blockHash b ≠ some (h, g)) := by
  have hok : p.Consistent :=
    Run.exec_keeps (fun s op s' hs hstep => PoolOp.step_consistent hs hstep) ops p₀ p
      (init_consistent hinit) hrun
  refine ⟨fun b k => ?_, hok.nonempty, BlockPool.getCachedBlock_spec hok⟩
  rw [hok.filed, BlockPool.filedIn]
  cases p.cachedBlockHashToBlock.get? k with
  | none => simp
  | some bs => simp

end Runs

/-- A request with two block hashes. -/
def twoHashes (requestId : ReqId) : Request Nat :=
  let r : Request Nat := Request.fresh (plainPrompt requestId [1, 2, 3, 4]) 4 16 .waiting
  { r with blockHashes := [7, 8] }

/-- Two requests fill blocks with the same hashes, so that each key has a dict
of two; the first request's blocks are freed and the older of them claimed
again. -/
def duplicateOps : List (PoolOp Nat) :=
  [.getNewBlocks 2, .cacheFullBlocks (twoHashes "a") [1, 2] 0 2 2 0,
    .getNewBlocks 2, .cacheFullBlocks (twoHashes "b") [3, 4] 0 2 2 0,
    .freeBlocks [2, 1], .getNewBlocks 1, .evictBlocks [3]]

theorem duplicates_consistent : ∃ p₀ p : BlockPool Nat,
    BlockPool.init 5 true 2 = .ok p₀ ∧
      Run.exec (fun p op => PoolOp.step p op) p₀ duplicateOps = .ok p ∧
      ((p.getCachedBlock [7] [0] = none ↔ ∃ g ∈ [0], ∀ b, p.blockHash b ≠ some ([7], g))) := by
  obtain ⟨p₀, hinit⟩ := Raises.exists_of_isOk (x := BlockPool.init (H := Nat) 5 true 2) rfl
  obtain ⟨p, hrun⟩ := Raises.exists_of_isOk
    (x := (BlockPool.init (H := Nat) 5 true 2 >>= fun p₀ =>
      Run.exec (fun p op => PoolOp.step p op) p₀ duplicateOps)) (by decide +kernel)
  rw [hinit, Raises.ok_bind] at hrun
  exact ⟨p₀, p, hinit, hrun, ((hashMap_consistent hinit hrun).2.2 [7] [0]).2⟩

end VllmEngine
