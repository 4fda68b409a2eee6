import Mathlib.Data.List.Dedup
import VllmEngine.Kv.Allocate

/-!
# Mamba state blocks in align mode

In align mode `MambaManager` keeps, behind null blocks, one block for the state after the last
scheduled tokens and `num_speculative_blocks` blocks for the drafts. It remembers the index of the
state block before that one (`last_state_block_idx`), and frees it once the computed tokens
without the drafts have passed it. `StateCell` is what the manager keeps for one request, and
there is one lemma for what each of its methods does to the cells.

> `alignAsked_bounds`: what an allocation asks for, if the list is not longer than required,
> `OneOld`: before the state block there is at most the remembered block.
-/

namespace VllmEngine

variable {H : Type} [DecidableEq H]

open SingleTypeManager

/-! ## Hits of a group without full attention -/

variable {p p' : BlockPool H} {reqId : ReqId} {m m' : SingleTypeManager H} {f : MambaFields}
  {numTokens : Int} {hits : List BlockId}

/-- Such a group is looked up in every round, or last. -/
theorem findLongestHit_notFull {c : HybridCoordinator} (hok : HybridOk c) {hashes : List H}
    {maxLength : Nat} {res : List (List BlockId) × Nat}
    (h : c.findLongestHit p hashes maxLength = .ok res) {g : GroupId} {spec : KVCacheSpec}
    (hspec : c.specs[g]? = some spec) (hnf : spec.isFullAttention = false) :
    (res.1.getD g []).length * spec.blockSize = res.2 ∧ res.2 ≤ maxLength := by
  simp only [HybridCoordinator.findLongestHit, Raises.bind_eq_ok, Raises.pure_eq_ok] at h
  obtain ⟨⟨hits, hit⟩, hloop, rfl⟩ := h
  have hl := hitLoop_ok hok maxLength _ maxLength (Nat.le_refl _) (Nat.le_refl _)
    (Or.inl fun _ => rfl) hloop
  refine ⟨?_, hl.le⟩
  obtain ⟨hg, -⟩ := List.getElem?_eq_some_iff.mp hspec
  obtain ⟨a, ha, hga⟩ := hok.split.cover g hg
  obtain rfl : a.spec = spec := by
    have := (hok.split.spec_eq a ha g hga).2
    rw [hspec] at this
    exact (Option.some.inj this).symm
  obtain ⟨rows, hheld, -, -, hmany, hlast⟩ := hl.entries a ha
  obtain ⟨a₀, as, hgroups⟩ := List.exists_cons_of_ne_nil
    (List.ne_nil_of_length_pos (Nat.lt_of_lt_of_le Nat.two_pos hok.two_le))
  have ha₀ : a₀ ∈ c.attentionGroups := by rw [hgroups]; exact List.mem_cons_self
  have hhead : c.attentionGroups.head? = some a₀ := by rw [hgroups]; rfl
  have hlen : rows.length * a.spec.blockSize = hit := by
    by_cases hs : c.isSimpleHybrid = true
    · -- the first of the two entries has full attention, so the other one is looked up last
      have hs' := hs
      unfold HybridCoordinator.isSimpleHybrid at hs'
      obtain ⟨htwo, hfull⟩ := of_decide_eq_true hs'
      rw [hhead] at hfull
      refine hlast hs (getLast_of_length_two htwo hhead ha fun heq => ?_)
      rw [← heq, Option.map_some, hnf] at hfull
      cases hfull
    · exact hmany hnf (by simpa using hs)
  have hsame : c.truncateFirst hits hit g = hits g := by
    unfold HybridCoordinator.truncateFirst
    rw [hgroups]
    dsimp only
    split
    next hf₀ =>
      refine if_neg fun hg₀ => ?_
      rw [hok.split.eq_of_mem ha ha₀ hga hg₀, hf₀] at hnf
      cases hnf
    next => rfl
  rw [List.getD_eq_getElem?_getD, List.getElem?_map, List.getElem?_range hg, Option.map_some,
    Option.getD_some, hsame, hheld g hga, Option.getD_some, column, List.length_map]
  exact hlen

theorem findLongestCacheHit_notFull {specs : List KVCacheSpec} {c : KVCacheCoordinator H}
    (hok : CoordinatorOk specs c) (hpos : ∀ s ∈ specs, 0 < s.blockSize) {hashes : List H}
    {maxLength : Nat} {res : List (List BlockId) × Nat}
    (h : c.findLongestCacheHit hashes maxLength = .ok res) {i : Nat} {spec : KVCacheSpec}
    (hi : specs[i]? = some spec) (hnf : spec.isFullAttention = false) :
    (res.1.getD i []).length * spec.blockSize ≤ res.2 ∧ res.2 ≤ maxLength := by
  have hkind := hok.kind
  unfold KVCacheCoordinator.findLongestCacheHit at h
  cases hk : c.kind with
  | noPrefixCache =>
    rw [hk] at h
    obtain rfl := Except.ok.inj h
    refine ⟨?_, Nat.zero_le _⟩
    rw [List.getD_eq_getElem?_getD, List.getElem?_map]
    cases c.singleTypeManagers[i]? <;> simp
  | unitary spec₀ =>
    rw [hk] at h hkind
    simp only [Raises.bind_eq_ok, Raises.pure_eq_ok] at h
    obtain ⟨rows, hrows, rfl⟩ := h
    have hmem : spec₀ ∈ specs := by
      rw [show specs = [spec₀] from hkind]
      exact List.mem_singleton_self _
    have hmax := (findLongestCacheHit_hitOk (hpos spec₀ hmem) hrows).le_max
    rw [show specs = [spec₀] from hkind] at hi
    cases i with
    | zero =>
      obtain rfl := Option.some.inj hi
      refine ⟨?_, hmax⟩
      simp [column]
    | succ i => cases hi
  | hybrid hc =>
    rw [hk] at h hkind
    obtain ⟨hhyb, hspecs⟩ := hkind
    obtain ⟨hlen, hle⟩ := findLongestHit_notFull hhyb h (hspecs ▸ hi) hnf
    exact ⟨Nat.le_of_eq hlen, hle⟩

/-! ## The cell of a request -/

/-- What the Mamba manager keeps for one request. -/
structure StateCell where
  blocks : List BlockId
  allocated : Bool
  lastStateBlockIdx : Option Int
deriving DecidableEq

def stateCell (m : SingleTypeManager H) (reqId : ReqId) : StateCell where
  blocks := m.reqBlocks reqId
  allocated := decide (reqId ∈ m.allocatedBlockReqs)
  lastStateBlockIdx := m.lastStateBlockIdx.get? reqId

omit [DecidableEq H] in
theorem setBlocks_reqBlocks_ne (m : SingleTypeManager H) {id : ReqId} (blocks : List BlockId)
    (h : id ≠ reqId) : (m.setBlocks reqId blocks).reqBlocks id = m.reqBlocks id := by
  unfold setBlocks SingleTypeManager.reqBlocks
  rw [Dict.get?_set_ne _ _ h]

omit [DecidableEq H] in
theorem stateCell_congr (hb : m'.reqBlocks reqId = m.reqBlocks reqId)
    (ha : m'.allocatedBlockReqs = m.allocatedBlockReqs)
    (hl : m'.lastStateBlockIdx = m.lastStateBlockIdx) : stateCell m' reqId = stateCell m reqId := by
  unfold stateCell
  rw [hb, ha, hl]

omit [DecidableEq H] in
/-- Writing a list back changes no cell. -/
theorem stateCell_withEntry (m : SingleTypeManager H) (reqId id : ReqId) :
    stateCell (m.withEntry reqId) id = stateCell m id := by
  refine stateCell_congr ?_ rfl rfl
  by_cases h : id = reqId
  · rw [h, withEntry_reqBlocks]
  · exact setBlocks_reqBlocks_ne m _ h

/-- Between calls: a request without an allocation has no blocks, and one with an allocation has
a state block before the speculative ones. -/
structure CellOk (f : MambaFields) (c : StateCell) : Prop where
  idle : c.allocated = false → c.blocks = []
  busy : c.allocated = true → f.numSpeculativeBlocks < c.blocks.length

/-- Before the state block there is at most the remembered block. -/
def OneOld (f : MambaFields) (c : StateCell) : Prop :=
  ∀ (j : Nat) b, j + 1 + f.numSpeculativeBlocks < c.blocks.length → c.blocks[j]? = some b →
    b ≠ nullBlock → c.lastStateBlockIdx = some (j : Int)

/-! ## Removing skipped blocks -/

/-- Blocks are only replaced by null blocks, and the remembered one is, if the computed tokens
without the drafts have passed it. -/
structure Cleared (f : MambaFields) (blockSize : Nat) (total : Int) (c c' : StateCell) : Prop where
  allocated : c'.allocated = c.allocated
  lastStateBlockIdx : c'.lastStateBlockIdx = c.lastStateBlockIdx
  length : c'.blocks.length = c.blocks.length
  entries : ∀ (j : Nat) b, c'.blocks[j]? = some b → b ≠ nullBlock → c.blocks[j]? = some b
  passed : f.mambaCacheMode = .align → ∀ idx, c.lastStateBlockIdx = some idx →
    idx < Python.cdiv (max 0 (total - f.numSpeculativeBlocks)) blockSize - 1 →
    c'.blocks.getD idx.toNat nullBlock = nullBlock

theorem Cleared.ok {blockSize : Nat} {total : Int} {c c' : StateCell}
    (h : Cleared f blockSize total c c') (hc : CellOk f c) : CellOk f c' := by
  refine ⟨fun hidle => ?_, fun hbusy => ?_⟩
  · have hnil := hc.idle (h.allocated ▸ hidle)
    have hlen := h.length
    rw [hnil] at hlen
    exact List.eq_nil_of_length_eq_zero hlen
  · rw [h.length]
    exact hc.busy (h.allocated ▸ hbusy)

theorem Cleared.oneOld {blockSize : Nat} {total : Int} {c c' : StateCell}
    (h : Cleared f blockSize total c c') (hc : OneOld f c) : OneOld f c' := by
  intro j b hj hb hne
  rw [h.length] at hj
  rw [h.lastStateBlockIdx]
  exact hc j b hj (h.entries j b hb hne) hne

omit [DecidableEq H] in
theorem baseRemoveSkippedBlocks_cells (p : BlockPool H) (m : SingleTypeManager H) (reqId : ReqId)
    (total : Int) :
    (∀ id, id ≠ reqId →
      stateCell (m.baseRemoveSkippedBlocks p reqId total).2 id = stateCell m id) ∧
    (stateCell (m.baseRemoveSkippedBlocks p reqId total).2 reqId).allocated
      = (stateCell m reqId).allocated ∧
    (m.baseRemoveSkippedBlocks p reqId total).2.lastStateBlockIdx = m.lastStateBlockIdx ∧
    (m.baseRemoveSkippedBlocks p reqId total).2.spec = m.spec ∧
    ((m.baseRemoveSkippedBlocks p reqId total).2.reqBlocks reqId).length
      = (m.reqBlocks reqId).length ∧
    ∀ (j : Nat) b, ((m.baseRemoveSkippedBlocks p reqId total).2.reqBlocks reqId)[j]? = some b →
      b ≠ nullBlock → (m.reqBlocks reqId)[j]? = some b := by
  unfold baseRemoveSkippedBlocks
  split
  · exact ⟨fun _ _ => rfl, rfl, rfl, rfl, rfl, fun _ _ h _ => h⟩
  · dsimp only
    obtain ⟨hlen, hget⟩ := skipLoop_entries (min (m.numSkippedBlocks total)
      ((m.reqBlocks reqId).length : Int)).toNat (m.reqBlocks reqId)
    refine ⟨fun id hid => ?_, rfl, rfl, rfl, ?_, ?_⟩
    · exact stateCell_congr (setBlocks_reqBlocks_ne m _ hid) rfl rfl
    · rw [setBlocks_reqBlocks]
      exact hlen
    · rw [setBlocks_reqBlocks]
      intro j b hj hne
      rcases hget j b hj with h | ⟨rfl, -⟩
      · exact h
      · exact absurd rfl hne

omit [DecidableEq H] in
theorem mambaRemoveSkippedBlocks_cells (p : BlockPool H) (m : SingleTypeManager H) (f : MambaFields)
    (reqId : ReqId) (total : Int) :
    (∀ id, id ≠ reqId →
      stateCell (m.mambaRemoveSkippedBlocks p f reqId total).2 id = stateCell m id) ∧
    Cleared f m.spec.blockSize total (stateCell m reqId)
      (stateCell (m.mambaRemoveSkippedBlocks p f reqId total).2 reqId) := by
  obtain ⟨hother, halloc, hlast, hspec, hlen, hget⟩ :=
    baseRemoveSkippedBlocks_cells p m reqId (max 0 (total - f.numSpeculativeBlocks))
  unfold mambaRemoveSkippedBlocks
  dsimp only
  generalize m.baseRemoveSkippedBlocks p reqId (max 0 (total - f.numSpeculativeBlocks)) = res
    at hother halloc hlast hspec hlen hget ⊢
  obtain ⟨q, m₁⟩ := res
  have hcell : (stateCell m₁ reqId).lastStateBlockIdx = (stateCell m reqId).lastStateBlockIdx :=
    congrArg (fun d : Dict ReqId Int => d.get? reqId) hlast
  dsimp only at hother halloc hlast hspec hlen hget ⊢
  split
  next halign =>
    split
    next hnone =>
      refine ⟨hother, halloc, hcell, hlen, hget, fun _ idx hidx _ => ?_⟩
      rw [← hcell] at hidx
      exact absurd hidx (by rw [show (stateCell m₁ reqId).lastStateBlockIdx = none from hnone]; simp)
    next idx hsome =>
      have hidx : (stateCell m reqId).lastStateBlockIdx = some idx := hcell ▸ hsome
      have hreq : m₁.numRequiredBlocks (max 0 (total - f.numSpeculativeBlocks))
          = Python.cdiv (max 0 (total - f.numSpeculativeBlocks)) m.spec.blockSize := by
        unfold numRequiredBlocks
        rw [hspec]
      split
      next hpassed =>
        split
        next hne =>
          -- the remembered block is freed
          have hblocks : (stateCell (m₁.setBlocks reqId
              ((m₁.reqBlocks reqId).set idx.toNat nullBlock)) reqId).blocks
              = (m₁.reqBlocks reqId).set idx.toNat nullBlock := setBlocks_reqBlocks m₁ reqId _
          refine ⟨fun id hid => ?_, halloc, hcell, ?_, fun j b hj hb => ?_, fun _ idx' hidx' _ => ?_⟩
          · rw [← hother id hid]
            exact stateCell_congr (setBlocks_reqBlocks_ne m₁ _ hid) rfl rfl
          · rw [hblocks, List.length_set]
            exact hlen
          · rw [hblocks] at hj
            by_cases hji : j = idx.toNat
            · rw [hji] at hj
              obtain ⟨hlt, hval⟩ := List.getElem?_eq_some_iff.mp hj
              rw [List.getElem_set_self] at hval
              exact absurd hval.symm hb
            · rw [List.getElem?_set_ne (Ne.symm hji)] at hj
              exact hget j b hj hb
          · rw [hidx, Option.some.injEq] at hidx'
            rw [hblocks, ← hidx', List.getD_eq_getElem?_getD, List.getElem?_set_self']
            cases (m₁.reqBlocks reqId)[idx.toNat]? with
            | none => rfl
            | some b => rfl
        next hnull =>
          refine ⟨hother, halloc, hcell, hlen, hget, fun _ idx' hidx' _ => ?_⟩
          rw [hidx, Option.some.injEq] at hidx'
          rw [← hidx']
          exact Classical.not_not.mp hnull
      next hnot =>
        refine ⟨hother, halloc, hcell, hlen, hget, fun _ idx' hidx' hlt => absurd ?_ hnot⟩
        rw [hidx, Option.some.injEq] at hidx'
        rw [hreq, hidx']
        exact hlt
  next hno =>
    exact ⟨hother, halloc, hcell, hlen, hget, fun h => absurd h hno⟩

/-! ## Caching, freeing and adopting hits -/

theorem baseCacheBlocks_cell {r : Request H} (h : m.baseCacheBlocks p r numTokens = .ok (p', m'))
    (id : ReqId) : stateCell m' id = stateCell m id ∧ m'.spec = m.spec := by
  unfold baseCacheBlocks at h
  dsimp only at h
  split at h
  · obtain ⟨rfl, rfl⟩ := Prod.mk.inj (Except.ok.inj h)
    exact ⟨rfl, rfl⟩
  · simp only [Raises.bind_eq_ok, Raises.pure_eq_ok] at h
    obtain ⟨q, -, heq⟩ := h
    obtain ⟨rfl, rfl⟩ := Prod.mk.inj heq
    exact ⟨stateCell_withEntry m r.requestId id, rfl⟩

theorem cacheBlocks_cell {r : Request H} (h : m.cacheBlocks p r numTokens = .ok (p', m'))
    (id : ReqId) : stateCell m' id = stateCell m id := by
  unfold SingleTypeManager.cacheBlocks at h
  split at h
  · cases h
  · simp only [Raises.bind_eq_ok, Raises.pure_eq_ok] at h
    obtain ⟨⟨q, m₁⟩, hcache, heq⟩ := h
    obtain ⟨rfl, rfl⟩ := Prod.mk.inj heq
    exact (baseCacheBlocks_cell hcache id).1
  · exact (baseCacheBlocks_cell h id).1

omit [DecidableEq H] in
theorem free_cells (hk : m.spec.kind = .mamba f) (halign : f.mambaCacheMode = .align)
    (reqId : ReqId) :
    (∀ id, id ≠ reqId → stateCell (m.free p reqId).2 id = stateCell m id) ∧
      stateCell (m.free p reqId).2 reqId = ⟨[], false, none⟩ := by
  unfold SingleTypeManager.free
  rw [hk]
  dsimp only
  rw [if_pos halign]
  unfold baseFree stateCell SingleTypeManager.reqBlocks
  dsimp only
  refine ⟨fun id hid => ?_, ?_⟩
  · rw [Dict.get?_erase_ne _ hid, Dict.get?_erase_ne _ hid]
    congr 1
    rw [decide_eq_decide, List.mem_filter]
    simp [hid]
  · rw [Dict.get?_erase_self, Dict.get?_erase_self]
    congr 1
    rw [decide_eq_false_iff_not, List.mem_filter]
    simp

omit [DecidableEq H] in
/-- The hits that a new request starts with: null blocks and at most one block behind them, in no
more blocks than the computed tokens fill. -/
theorem adoptedBlocks_spec (hk : m.spec.kind = .mamba f) (hbs : 0 < m.spec.blockSize) {total : Int}
    (hle : (hits.length : Int) * m.spec.blockSize ≤ total) :
    let blocks := List.replicate (m.numSkippedBlocks total).toNat nullBlock
      ++ m.keptBlocks hits total
    (blocks.length : Int) * m.spec.blockSize ≤ max total 0 ∧
      ∀ j, j + 1 < blocks.length → blocks[j]? = some nullBlock := by
  have hbs' : (0 : Int) < m.spec.blockSize := by exact_mod_cast hbs
  obtain ⟨n, hn⟩ : ∃ n, n = m.numSkippedBlocks total := ⟨_, rfl⟩
  have hdiv : n = (total - 1) / m.spec.blockSize := by
    rw [hn]
    unfold numSkippedBlocks getNumSkippedTokens
    rw [hk, Int.fdiv_eq_ediv_of_nonneg _ (Int.le_of_lt hbs')]
  have hlow : n * m.spec.blockSize ≤ total - 1 := by
    rw [hdiv]
    exact Int.ediv_mul_le _ (ne_of_gt hbs')
  have hhigh : total - 1 < (n + 1) * m.spec.blockSize := by
    rw [hdiv]
    exact Int.lt_ediv_add_one_mul_self _ hbs'
  -- the hits reach at most one block beyond the skipped ones
  have hone : (hits.length : Int) ≤ n + 1 := by
    by_contra hgt
    have hmul : (n + 1 + 1) * (m.spec.blockSize : Int) ≤ hits.length * m.spec.blockSize :=
      Int.mul_le_mul_of_nonneg_right (by omega) (Int.le_of_lt hbs')
    have hdist : (n + 1 + 1) * (m.spec.blockSize : Int)
        = (n + 1) * m.spec.blockSize + m.spec.blockSize := by
      rw [Int.add_mul (n + 1), Int.one_mul]
    omega
  intro blocks
  have hblocks : blocks = List.replicate n.toNat nullBlock ++ m.keptBlocks hits total := by
    rw [hn]
  have hkept : (m.keptBlocks hits total).length = hits.length - n.toNat := by
    unfold keptBlocks
    rw [← hn]
    split
    · rw [List.length_drop]
    · omega
  have hlen : blocks.length = max n.toNat hits.length := by
    rw [hblocks, List.length_append, List.length_replicate, hkept]
    omega
  constructor
  · rw [hlen]
    rcases Nat.le_total n.toNat hits.length with h | h
    · rw [Nat.max_eq_right h]
      omega
    · rw [Nat.max_eq_left h]
      rcases Int.lt_or_le n 0 with hneg | hpos
      · rw [Int.toNat_of_nonpos (Int.le_of_lt hneg)]
        simp
      · rw [Int.toNat_of_nonneg hpos]
        omega
  · intro j hj
    rw [hblocks, List.getElem?_append_left (by rw [List.length_replicate]; omega),
      List.getElem?_replicate, if_pos (by omega)]

omit [DecidableEq H] in
/-- Without external tokens none are kept. -/
theorem keptExternalTokens_zero (m : SingleTypeManager H) (total : Int) :
    ¬ m.keptExternalTokens total 0 > 0 := by
  unfold keptExternalTokens
  split
  · omega
  · omega

theorem allocateNewComputedBlocks_spec {loc ext : Int}
    (h : m.allocateNewComputedBlocks p reqId hits loc ext = .ok (p', m')) : m'.spec = m.spec := by
  unfold SingleTypeManager.allocateNewComputedBlocks baseAllocateNewComputedBlocks at h
  split at h
  · split at h
    · obtain ⟨rfl, rfl⟩ := Prod.mk.inj (Except.ok.inj h)
      rfl
    · cases h
  · split at h
    · split at h
      · obtain ⟨rfl, rfl⟩ := Prod.mk.inj (Except.ok.inj h)
        rfl
      · cases h
    · split at h
      · cases h
      · simp only [adoptBlocks, allocateExternal, Raises.bind_eq_ok, Raises.pure_eq_ok] at h
        obtain ⟨⟨q, m₁⟩, ⟨q₁, -, heq⟩, h⟩ := h
        obtain ⟨rfl, rfl⟩ := Prod.mk.inj heq
        dsimp only at h
        split at h
        · simp only [Raises.bind_eq_ok, Raises.pure_eq_ok] at h
          obtain ⟨⟨q₂, new⟩, -, heq⟩ := h
          obtain ⟨rfl, rfl⟩ := Prod.mk.inj heq
          rfl
        · obtain ⟨rfl, rfl⟩ := Prod.mk.inj (Raises.pure_eq_ok.mp h)
          rfl

/-- A request that takes over hits had no blocks. -/
theorem adopt_cells (hk : m.spec.kind = .mamba f) (hbs : 0 < m.spec.blockSize) {loc : Int}
    (hle : (hits.length : Int) * m.spec.blockSize ≤ loc)
    (h : m.allocateNewComputedBlocks p reqId hits loc 0 = .ok (p', m')) :
    (∀ id, id ≠ reqId → stateCell m' id = stateCell m id) ∧
      ((m' = m ∧ hits = []) ∨ ((stateCell m reqId).blocks = [] ∧
        ∃ blocks, stateCell m' reqId = { stateCell m reqId with blocks := blocks } ∧
          (blocks.length : Int) * m.spec.blockSize ≤ max loc 0 ∧
          ∀ j, j + 1 < blocks.length → blocks[j]? = some nullBlock)) := by
  have hcross : m.spec.isCrossAttention = false := by
    unfold KVCacheSpec.isCrossAttention
    rw [hk]
  unfold SingleTypeManager.allocateNewComputedBlocks at h
  rw [hcross, if_neg Bool.false_ne_true] at h
  unfold baseAllocateNewComputedBlocks at h
  split at h
  · split at h
    next hnil =>
      obtain ⟨rfl, rfl⟩ := Prod.mk.inj (Except.ok.inj h)
      exact ⟨fun _ _ => rfl, Or.inl ⟨rfl, List.eq_nil_of_length_eq_zero hnil⟩⟩
    next => cases h
  · split at h
    next => cases h
    next hempty =>
      simp only [Int.add_zero, Raises.bind_eq_ok] at h
      obtain ⟨⟨q, m₁⟩, hadopt, h⟩ := h
      unfold adoptBlocks at hadopt
      simp only [Raises.bind_eq_ok, Raises.pure_eq_ok] at hadopt
      obtain ⟨q₁, -, heq⟩ := hadopt
      obtain ⟨rfl, rfl⟩ := Prod.mk.inj heq
      dsimp only at h
      rw [if_neg (keptExternalTokens_zero _ loc)] at h
      obtain ⟨rfl, rfl⟩ := Prod.mk.inj (Raises.pure_eq_ok.mp h)
      obtain ⟨hlen, hnull⟩ := adoptedBlocks_spec hk hbs hle
      refine ⟨fun id hid => stateCell_congr (setBlocks_reqBlocks_ne m _ hid) rfl rfl,
        Or.inr ⟨Classical.not_not.mp hempty, _, ?_, hlen, hnull⟩⟩
      unfold stateCell
      congr 1
      exact setBlocks_reqBlocks m reqId _

/-! ## Allocating -/

/-- The places the speculative blocks move from hold null blocks. -/
theorem reuseSpeculative_get? (numSkipped : Int) :
    ∀ (n idx : Nat) (blocks : List BlockId), idx + n ≤ blocks.length →
      ∀ j, j < blocks.length → (reuseSpeculative numSkipped n idx blocks)[j]?
        = if idx ≤ j ∧ j < idx + n ∧ (j : Int) < numSkipped then some nullBlock
          else blocks[j]? := by
  intro n
  induction n with
  | zero =>
    intro idx blocks _ j _
    rw [reuseSpeculative, if_neg (by omega)]
  | succ n ih =>
    intro idx blocks hlen j hj
    rw [reuseSpeculative]
    split
    next hlt =>
      have hlen' : ((blocks ++ [blocks.getD idx nullBlock]).set idx nullBlock).length
          = blocks.length + 1 := by
        rw [List.length_set, List.length_append, List.length_singleton]
      rw [ih (idx + 1) _ (by rw [hlen']; omega) j (by rw [hlen']; omega)]
      by_cases hji : j = idx
      · rw [if_neg (by omega), if_pos (by omega), hji,
          List.getElem?_set_self (by rw [List.length_append, List.length_singleton]; omega)]
      · rw [List.getElem?_set_ne (Ne.symm hji), List.getElem?_append_left hj]
        by_cases hin : idx + 1 ≤ j ∧ j < idx + 1 + n ∧ (j : Int) < numSkipped
        · rw [if_pos hin, if_pos (by omega)]
        · rw [if_neg hin, if_neg (by omega)]
    next hge => rw [if_neg (by omega)]

omit [DecidableEq H] in
/-- What is left in front of the new state block was there before, and is no speculative block of
an earlier allocation. -/
theorem alignBlocks_old
    (hbusy : reqId ∈ m.allocatedBlockReqs → f.numSpeculativeBlocks < (m.reqBlocks reqId).length)
    {j : Nat} {b : BlockId}
    (hj : (j : Int) + 1 + f.numSpeculativeBlocks < alignRequired m f numTokens)
    (hb : (alignBlocks m f reqId numTokens)[j]? = some b) (hne : b ≠ nullBlock) :
    (m.reqBlocks reqId)[j]? = some b ∧
      (reqId ∈ m.allocatedBlockReqs → j + f.numSpeculativeBlocks < (m.reqBlocks reqId).length) := by
  obtain ⟨blocks, hblocks⟩ : ∃ blocks, blocks = m.reqBlocks reqId := ⟨_, rfl⟩
  obtain ⟨n, hn⟩ : ∃ n, n = (alignRequired m f numTokens - f.numSpeculativeBlocks - 1
      - (blocks.length : Int)).toNat := ⟨_, rfl⟩
  have hfilled : ∀ {x}, (blocks ++ List.replicate n nullBlock)[j]? = some x → x ≠ nullBlock →
      blocks[j]? = some x := by
    intro x hx hxne
    rcases Nat.lt_or_ge j blocks.length with hlt | hge
    · rwa [List.getElem?_append_left hlt] at hx
    · rw [List.getElem?_append_right hge, List.getElem?_replicate] at hx
      split at hx
      · exact absurd (Option.some.inj hx).symm hxne
      · cases hx
  unfold alignBlocks at hb
  dsimp only at hb
  rw [← hblocks, ← hn] at hb
  rw [← hblocks] at hbusy ⊢
  split at hb
  next halloc =>
    have hbusy := hbusy halloc
    have hlen : (blocks ++ List.replicate n nullBlock).length = blocks.length + n := by
      rw [List.length_append, List.length_replicate]
    rw [reuseSpeculative_get? _ _ _ _ (by rw [hlen]; omega) j (by rw [hlen]; omega)] at hb
    split at hb
    next => exact absurd (Option.some.inj hb).symm hne
    next hout =>
      refine ⟨hfilled hb hne, fun _ => ?_⟩
      have hlt := (List.getElem?_eq_some_iff.mp (hfilled hb hne)).1
      omega
  next hidle => exact ⟨hfilled hb hne, fun h => absurd h hidle⟩

section Grown

variable {p p' : BlockPool H} {m m' : SingleTypeManager H} {f : MambaFields} {reqId : ReqId}
  {numTokens : Int} {fresh : List BlockId}

theorem Grown.blocks_eq (hg : Grown p m f reqId numTokens fresh p' m') :
    m'.reqBlocks reqId = alignBlocks m f reqId numTokens ++ fresh := by
  unfold SingleTypeManager.reqBlocks
  rw [hg.blocks]
  exact setBlocks_reqBlocks (m.withEntry reqId) reqId _

theorem Grown.length (hg : Grown p m f reqId numTokens fresh p' m') :
    ((m'.reqBlocks reqId).length : Int) = alignRequired m f numTokens := by
  have hnew := (BlockPool.getNewBlocks_queue (Int.le_of_lt (alignAsked_pos hg.grows)) hg.asked).1
  rw [hg.blocks_eq, List.length_append, Nat.cast_add, hnew]
  unfold alignAsked
  omega

theorem Grown.allocated (hg : Grown p m f reqId numTokens fresh p' m') :
    (stateCell m' reqId).allocated = true := by
  refine decide_eq_true ?_
  rw [hg.allocatedBlockReqs]
  split
  next h => exact h
  next => exact List.mem_append_right _ (List.mem_singleton_self _)

theorem Grown.other (hg : Grown p m f reqId numTokens fresh p' m') {id : ReqId} (hid : id ≠ reqId) :
    stateCell m' id = stateCell m id := by
  unfold stateCell
  congr 1
  · unfold SingleTypeManager.reqBlocks
    rw [hg.blocks]
    show ((m.withEntry reqId).setBlocks reqId _).reqBlocks id = m.reqBlocks id
    rw [setBlocks_reqBlocks_ne _ _ hid]
    exact setBlocks_reqBlocks_ne m _ hid
  · rw [decide_eq_decide, hg.allocatedBlockReqs]
    split
    · rfl
    · rw [List.mem_append, List.mem_singleton]
      exact or_iff_left hid
  · rw [hg.lastStateBlockIdx]
    split
    · exact Dict.get?_set_ne _ _ hid
    · split
      · exact Dict.get?_set_ne _ _ hid
      · rfl

/-- The state block before the new one is the remembered one, if nothing else was left. -/
theorem Grown.oneOld (hg : Grown p m f reqId numTokens fresh p' m')
    (hbusy : reqId ∈ m.allocatedBlockReqs → f.numSpeculativeBlocks < (m.reqBlocks reqId).length)
    (hclear : reqId ∈ m.allocatedBlockReqs → ∀ (j : Nat) b,
      j + 1 + f.numSpeculativeBlocks < (m.reqBlocks reqId).length →
      (m.reqBlocks reqId)[j]? = some b → b = nullBlock)
    (hnull : reqId ∉ m.allocatedBlockReqs → ∀ (j : Nat), j + 1 < (m.reqBlocks reqId).length →
      (m.reqBlocks reqId)[j]? = some nullBlock) : OneOld f (stateCell m' reqId) := by
  intro j b hj hb hne
  have hlen := hg.length
  change j + 1 + f.numSpeculativeBlocks < (m'.reqBlocks reqId).length at hj
  change (m'.reqBlocks reqId)[j]? = some b at hb
  have hfront : j < (alignBlocks m f reqId numTokens).length := by
    have hbound := hg.bound
    unfold alignAsked at hbound
    split at hbound
    · omega
    · omega
  rw [hg.blocks_eq, List.getElem?_append_left hfront] at hb
  obtain ⟨hold, hspec⟩ := alignBlocks_old hbusy (by omega) hb hne
  have hlt := (List.getElem?_eq_some_iff.mp hold).1
  change m'.lastStateBlockIdx.get? reqId = some (j : Int)
  rw [hg.lastStateBlockIdx]
  split
  next halloc =>
    have hspec := hspec halloc
    have hbound := hclear halloc j b
    have hj' : ¬ j + 1 + f.numSpeculativeBlocks < (m.reqBlocks reqId).length := fun h =>
      hne (hbound h hold)
    rw [Dict.get?_set_self]
    congr 1
    omega
  next hidle =>
    have hj' : ¬ j + 1 < (m.reqBlocks reqId).length := by
      intro h
      rw [hnull hidle j h, Option.some.injEq] at hold
      exact hne hold.symm
    rw [if_pos (by omega), Dict.get?_set_self]
    congr 1
    omega

end Grown

omit [DecidableEq H] in
/-- **What an allocation asks for**, if the list is not longer than required. -/
theorem alignAsked_bounds
    (hbusy : reqId ∈ m.allocatedBlockReqs → f.numSpeculativeBlocks < (m.reqBlocks reqId).length)
    (hle : ((m.reqBlocks reqId).length : Int) ≤ alignRequired m f numTokens) :
    0 ≤ alignAsked m f reqId numTokens ∧
      alignAsked m f reqId numTokens
        ≤ min (alignRequired m f numTokens - (m.reqBlocks reqId).length)
          (if reqId ∈ m.allocatedBlockReqs then 1 else (f.numSpeculativeBlocks : Int) + 1) := by
  unfold alignAsked alignBlocks
  dsimp only
  split
  next halloc =>
    have hbusy := hbusy halloc
    rw [reuseSpeculative_length, List.length_append, List.length_replicate]
    omega
  next hidle =>
    rw [List.length_append, List.length_replicate]
    omega

/-! ## How many blocks a request holds -/

/-- The distinct blocks in a list, without the null block. -/
def distinctBlocks (blocks : List BlockId) : List BlockId :=
  (blocks.filter fun b => decide (b ≠ nullBlock)).dedup

/-- One remembered block, the state block and the speculative blocks. -/
theorem OneOld.distinctBlocks_le {c : StateCell} (h : OneOld f c) :
    (distinctBlocks c.blocks).length ≤ 2 + f.numSpeculativeBlocks := by
  obtain ⟨k, hk⟩ : ∃ k, k = c.blocks.length - (1 + f.numSpeculativeBlocks) := ⟨_, rfl⟩
  have hfront : (c.blocks.take k).countP (fun b => decide (b ≠ nullBlock)) ≤ 1 := by
    have hlast : ∀ (i : Nat) x, (c.blocks.take k)[i]? = some x → decide (x ≠ nullBlock) = true →
        c.lastStateBlockIdx = some (i : Int) := by
      intro i x hi hx
      have hlt := (List.getElem?_eq_some_iff.mp hi).1
      rw [List.length_take] at hlt
      rw [List.getElem?_take_of_lt (by omega)] at hi
      exact h i x (by omega) hi (of_decide_eq_true hx)
    refine countP_le_one_of_index fun i j x y hi hj hx hy => ?_
    have heq := (hlast i x hi hx).symm.trans (hlast j y hj hy)
    exact Int.ofNat_inj.mp (Option.some.inj heq)
  have hback : (c.blocks.drop k).countP (fun b => decide (b ≠ nullBlock))
      ≤ 1 + f.numSpeculativeBlocks := by
    refine Nat.le_trans List.countP_le_length ?_
    rw [List.length_drop]
    omega
  calc (distinctBlocks c.blocks).length
      ≤ (c.blocks.filter fun b => decide (b ≠ nullBlock)).length :=
        (List.dedup_sublist _).length_le
    _ = (c.blocks.take k).countP (fun b => decide (b ≠ nullBlock))
        + (c.blocks.drop k).countP (fun b => decide (b ≠ nullBlock)) := by
        rw [← List.countP_append, List.take_append_drop, List.countP_eq_length_filter]
    _ ≤ 2 + f.numSpeculativeBlocks := by omega

end VllmEngine
