import VllmEngine.Kv.PoolAccounting
import VllmEngine.Kv.SingleType

/-!
# Block accounting of one manager

A manager's method keeps the pool balanced whatever references (`R`) the other
managers hold: each non-null block has as many references as it has occurrences
in the manager's block lists and in `R` together (`Balanced`). `Keeps` says this
of one step, and there is one such lemma for each method that the plain
attention types share.

The one method with a condition is `allocate_new_computed_blocks`: if external
tokens come with a hit list that is longer than the computed tokens, the number
of blocks to allocate is negative.
-/

namespace VllmEngine

variable {H : Type} [DecidableEq H]

namespace SingleTypeManager

/-- How often a block occurs in the manager's block lists. -/
def occurrences (m : SingleTypeManager H) (b : BlockId) : Nat :=
  m.reqToBlocks.total fun blocks => blocks.count b

/-- No list holds a non-null block twice. -/
def ListsOk (m : SingleTypeManager H) : Prop :=
  ∀ reqId blocks, m.reqToBlocks.get? reqId = some blocks →
    ∀ b, b ≠ nullBlock → blocks.count b ≤ 1

omit [DecidableEq H] in
theorem reqBlocks_count (m : SingleTypeManager H) (reqId : ReqId) (b : BlockId) :
    (m.reqToBlocks.get? reqId).elim 0 (fun blocks => blocks.count b)
      = (m.reqBlocks reqId).count b := by
  unfold reqBlocks
  cases m.reqToBlocks.get? reqId <;> rfl

omit [DecidableEq H] in
theorem ListsOk.reqBlocks {m : SingleTypeManager H} (h : m.ListsOk) (reqId : ReqId) {b : BlockId}
    (hb : b ≠ nullBlock) : (m.reqBlocks reqId).count b ≤ 1 := by
  unfold SingleTypeManager.reqBlocks
  cases hr : m.reqToBlocks.get? reqId with
  | none => simp
  | some blocks => exact h reqId blocks hr b hb

omit [DecidableEq H] in
@[simp] theorem setBlocks_reqBlocks (m : SingleTypeManager H) (reqId : ReqId)
    (blocks : List BlockId) : (m.setBlocks reqId blocks).reqBlocks reqId = blocks := by
  simp [setBlocks, SingleTypeManager.reqBlocks]

omit [DecidableEq H] in
theorem setBlocks_occurrences (m : SingleTypeManager H) (reqId : ReqId) (blocks : List BlockId)
    (b : BlockId) :
    (m.setBlocks reqId blocks).occurrences b + (m.reqBlocks reqId).count b
      = m.occurrences b + blocks.count b := by
  have h := Dict.total_set (fun bs : List BlockId => bs.count b) m.reqToBlocks reqId blocks
  rw [reqBlocks_count] at h
  exact h

omit [DecidableEq H] in
theorem setBlocks_listsOk {m : SingleTypeManager H} (h : m.ListsOk) {reqId : ReqId}
    {blocks : List BlockId} (hb : ∀ b, b ≠ nullBlock → blocks.count b ≤ 1) :
    (m.setBlocks reqId blocks).ListsOk := by
  intro reqId' blocks' hget
  rw [setBlocks, Dict.get?_set] at hget
  by_cases hr : reqId' = reqId
  · rw [if_pos hr, Option.some.injEq] at hget
    exact hget ▸ hb
  · rw [if_neg hr] at hget
    exact h reqId' blocks' hget

omit [DecidableEq H] in
theorem reqBlocks_count_le (m : SingleTypeManager H) (reqId : ReqId) (b : BlockId) :
    (m.reqBlocks reqId).count b ≤ m.occurrences b := by
  unfold SingleTypeManager.reqBlocks
  cases hr : m.reqToBlocks.get? reqId with
  | none => simp
  | some blocks => exact Dict.le_total (fun bs : List BlockId => bs.count b) m.reqToBlocks hr

end SingleTypeManager

open SingleTypeManager

/-- The pool balances the manager's lists and `R` further references. -/
structure Balanced (R : BlockId → Nat) (p : BlockPool H) (m : SingleTypeManager H) : Prop where
  accounted : p.Accounted fun b => R b + m.occurrences b
  hashOk : p.HashOk
  lists : m.ListsOk

/-- A step of one manager that keeps the balance, whoever else holds blocks. -/
structure Keeps (p : BlockPool H) (m : SingleTypeManager H) (p' : BlockPool H)
    (m' : SingleTypeManager H) : Prop where
  spec : m'.spec = m.spec
  balanced : ∀ R, Balanced R p m → Balanced R p' m' ∧ p'.numGpuBlocks = p.numGpuBlocks

theorem Keeps.refl (p : BlockPool H) (m : SingleTypeManager H) : Keeps p m p m :=
  ⟨rfl, fun _ h => ⟨h, rfl⟩⟩

variable {p p' : BlockPool H} {m m' : SingleTypeManager H} {R : BlockId → Nat} {reqId : ReqId}
  {hits : List BlockId}

theorem Keeps.trans {p'' : BlockPool H} {m'' : SingleTypeManager H} (h : Keeps p m p' m')
    (h' : Keeps p' m' p'' m'') : Keeps p m p'' m'' := by
  refine ⟨h'.spec.trans h.spec, fun R hb => ?_⟩
  obtain ⟨hb', hn⟩ := h.balanced R hb
  obtain ⟨hb'', hn'⟩ := h'.balanced R hb'
  exact ⟨hb'', hn'.trans hn⟩

/-- Every block of a balanced list is a block of the pool. -/
theorem Balanced.valid (h : Balanced R p m) (reqId : ReqId) :
    ∀ b ∈ m.reqBlocks reqId, b = nullBlock ∨ b < p.numGpuBlocks := by
  intro b hb
  by_cases hnull : b = nullBlock
  · exact Or.inl hnull
  · right
    have h1 := m.reqBlocks_count_le reqId b
    have h2 := List.count_pos_iff.mpr hb
    exact h.accounted.live b hnull (by omega)

/-! ## The methods of a manager -/

/-- The balance only reads the block lists of the manager. -/
theorem Balanced.of_lists (h : Balanced R p m) (heq : m'.reqToBlocks = m.reqToBlocks) :
    Balanced R p m' := by
  refine ⟨?_, h.hashOk, fun reqId blocks hget => h.lists reqId blocks (heq ▸ hget)⟩
  have hocc : m'.occurrences = m.occurrences := by
    funext b
    rw [occurrences, occurrences, heq]
  rw [hocc]
  exact h.accounted

theorem Keeps.of_lists {m₁ : SingleTypeManager H} (h : Keeps p m p' m₁) (hspec : m'.spec = m₁.spec)
    (heq : m'.reqToBlocks = m₁.reqToBlocks) : Keeps p m p' m' :=
  ⟨hspec.trans h.spec, fun R hb => ⟨(h.balanced R hb).1.of_lists heq, (h.balanced R hb).2⟩⟩

/-- Setting a request's list to one with the same counts. -/
theorem Balanced.setBlocks (h : Balanced R p m) {blocks : List BlockId}
    (heq : ∀ b, b ≠ nullBlock → blocks.count b = (m.reqBlocks reqId).count b) :
    Balanced R p (m.setBlocks reqId blocks) := by
  refine ⟨h.accounted.congr (fun b hb => ?_) rfl rfl rfl rfl, h.hashOk,
    setBlocks_listsOk h.lists fun b hb => ?_⟩
  · have := m.setBlocks_occurrences reqId blocks b
    rw [heq b hb] at this
    omega
  · rw [heq b hb]
    exact h.lists.reqBlocks reqId hb

theorem withEntry_keeps (p : BlockPool H) (m : SingleTypeManager H) (reqId : ReqId) :
    Keeps p m p (m.withEntry reqId) :=
  ⟨rfl, fun _ h => ⟨h.setBlocks fun _ _ => rfl, rfl⟩⟩

/-- Fresh blocks behind a list that holds the same blocks as before. -/
theorem setFresh_keeps (m : SingleTypeManager H) (reqId : ReqId) {n : Int}
    {blocks bs : List BlockId} (hn : 0 ≤ n) (h : p.getNewBlocks n = .ok (p', bs))
    (hcount : ∀ b, b ≠ nullBlock → blocks.count b = (m.reqBlocks reqId).count b) :
    Keeps p m p' (m.setBlocks reqId (blocks ++ bs)) := by
  refine ⟨rfl, fun R hb => ?_⟩
  obtain ⟨hnew, -⟩ := BlockPool.getNewBlocks_spec hb.accounted hb.hashOk hn h
  refine ⟨⟨hnew.accounted.congr (fun b hnull => ?_) rfl rfl rfl rfl, hnew.hashOk,
    setBlocks_listsOk hb.lists fun b hnull => ?_⟩, hnew.numGpuBlocks⟩
  · have := m.setBlocks_occurrences reqId (blocks ++ bs) b
    rw [List.count_append, hcount b hnull] at this
    omega
  · rw [List.count_append, hcount b hnull]
    by_cases hmem : b ∈ bs
    · -- a fresh block is in no list
      have h0 := (hnew.fresh b hmem).2.2
      have h1 := m.reqBlocks_count_le reqId b
      have h2 := List.nodup_iff_count_le_one.mp hnew.nodup b
      omega
    · rw [List.count_eq_zero_of_not_mem hmem]
      exact hb.lists.reqBlocks reqId hnull

/-- Fresh blocks at the end of a list. -/
theorem appendFresh_keeps (m : SingleTypeManager H) (reqId : ReqId) {n : Int} {bs : List BlockId}
    (hn : 0 ≤ n) (h : p.getNewBlocks n = .ok (p', bs)) : Keeps p m p' (m.appendBlocks reqId bs) :=
  (setFresh_keeps m reqId hn h fun _ _ => rfl).of_lists rfl rfl

theorem allocateNewBlocks_keeps {numTokens : Int} {bs : List BlockId}
    (h : m.baseAllocateNewBlocks p reqId numTokens = .ok (p', m', bs)) : Keeps p m p' m' := by
  refine (withEntry_keeps p m reqId).trans ?_
  unfold baseAllocateNewBlocks at h
  dsimp only at h
  split at h
  · obtain ⟨rfl, heq⟩ := Prod.mk.inj (Except.ok.inj h)
    obtain ⟨rfl, -⟩ := Prod.mk.inj heq
    exact Keeps.refl _ _
  · rename_i hpos
    simp only [Raises.bind_eq_ok, Raises.pure_eq_ok] at h
    obtain ⟨⟨q, new⟩, hnew, heq⟩ := h
    simp only [Prod.mk.injEq] at heq
    obtain ⟨rfl, rfl, -⟩ := heq
    exact appendFresh_keeps _ _ (by omega) hnew

theorem touchKept_spec {q : BlockPool H} {kept : List BlockId}
    (hval : ∀ b ∈ kept, b = nullBlock ∨ b < p.numGpuBlocks) (hb : Balanced R p m)
    (h : m.touchKept p kept = .ok q) :
    q.Accounted (fun b => R b + m.occurrences b + kept.count b) ∧ q.HashOk ∧
      q.numGpuBlocks = p.numGpuBlocks := by
  unfold touchKept at h
  split at h
  · obtain ⟨hacc, hgpu, hhash, hmap, -⟩ := BlockPool.touch_accounted kept hb.accounted hval h
    refine ⟨hacc, ⟨fun b key => ?_, fun b key hk => ?_⟩, hgpu⟩
    · rw [hhash, hmap]
      exact hb.hashOk.filed b key
    · rw [hhash] at hk
      rw [hgpu]
      exact hb.hashOk.live b key hk
  · split at h
    · rename_i hnil
      obtain rfl := Except.ok.inj h
      subst hnil
      exact ⟨by simpa using hb.accounted, hb.hashOk, rfl⟩
    · cases h

/-- Taking over hit blocks: each occurrence is one more reference. -/
theorem adoptBlocks_keeps {kept : List BlockId} {k : Int} (hempty : m.reqBlocks reqId = [])
    (hval : ∀ b ∈ kept, b = nullBlock ∨ b < p.numGpuBlocks)
    (hone : ∀ b, b ≠ nullBlock → kept.count b ≤ 1) (h : m.adoptBlocks p reqId kept k = .ok (p', m')) :
    Keeps p m p' m' ∧ m'.reqBlocks reqId = List.replicate k.toNat nullBlock ++ kept := by
  unfold adoptBlocks at h
  simp only [Raises.bind_eq_ok, Raises.pure_eq_ok] at h
  obtain ⟨q, hq, heq⟩ := h
  obtain ⟨rfl, rfl⟩ := Prod.mk.inj heq
  have hcount : ∀ b, b ≠ nullBlock →
      (List.replicate k.toNat nullBlock ++ kept).count b = kept.count b := by
    intro b hb
    rw [List.count_append, List.count_replicate, if_neg (by simpa using Ne.symm hb), Nat.zero_add]
  refine ⟨⟨rfl, fun R hb => ?_⟩, by simp [SingleTypeManager.reqBlocks, setBlocks]⟩
  obtain ⟨hacc, hhash, hgpu⟩ := touchKept_spec hval hb hq
  have hset : Balanced R q (m.setBlocks reqId (List.replicate k.toNat nullBlock ++ kept)) := by
    refine ⟨hacc.congr (fun b hnull => ?_) rfl rfl rfl rfl, hhash,
      setBlocks_listsOk hb.lists fun b hnull => by rw [hcount b hnull]; exact hone b hnull⟩
    have := m.setBlocks_occurrences reqId (List.replicate k.toNat nullBlock ++ kept) b
    rw [hempty, List.count_nil, hcount b hnull] at this
    omega
  exact ⟨hset.of_lists rfl, hgpu⟩

omit [DecidableEq H] in
/-- The blocks that a new request starts with cover no more than its computed
tokens, so the external allocation is not negative. -/
theorem external_nonneg (hbs : 0 < m.spec.blockSize) {total ext : Int}
    (hfit : (hits.length : Int) ≤ m.numRequiredBlocks total)
    (hext : m.keptExternalTokens total ext > 0) :
    0 ≤ m.numRequiredBlocks total - ((List.replicate (m.numSkippedBlocks total).toNat nullBlock
      ++ m.keptBlocks hits total).length : Int) := by
  have hbs' : (0 : Int) < m.spec.blockSize := by exact_mod_cast hbs
  rw [List.length_append, List.length_replicate]
  by_cases hskip : m.numSkippedBlocks total > 0
  · have hlt : m.getNumSkippedTokens total < total := by
      unfold keptExternalTokens at hext
      rw [if_pos hskip] at hext
      omega
    have hle : m.numSkippedBlocks total ≤ m.numRequiredBlocks total := by
      by_contra hgt
      have h1 : m.numRequiredBlocks total ≤ m.numSkippedBlocks total := by omega
      have h2 := (Python.cdiv_le_iff (a := total) (n := m.numSkippedBlocks total - 1) hbs').mp
        (by unfold numRequiredBlocks at hgt; omega)
      have h3 : m.numSkippedBlocks total * m.spec.blockSize ≤ m.getNumSkippedTokens total := by
        unfold numSkippedBlocks
        rw [Int.fdiv_eq_ediv_of_nonneg _ (Int.le_of_lt hbs')]
        exact Int.ediv_mul_le _ (ne_of_gt hbs')
      have h4 : (m.numSkippedBlocks total - 1) * m.spec.blockSize
          = m.numSkippedBlocks total * m.spec.blockSize - m.spec.blockSize := by
        rw [Int.sub_mul, Int.one_mul]
      omega
    unfold keptBlocks
    rw [if_pos hskip, List.length_drop]
    omega
  · unfold keptBlocks
    rw [if_neg hskip]
    omega

/-- Hit blocks that can be taken over. -/
def HitsValid (n : Nat) (hits : List BlockId) : Prop :=
  (∀ b ∈ hits, b = nullBlock ∨ b < n) ∧ ∀ b, b ≠ nullBlock → hits.count b ≤ 1

omit [DecidableEq H] in
theorem HitsValid.kept {n : Nat} (h : HitsValid n hits) (m : SingleTypeManager H) (total : Int) :
    HitsValid n (m.keptBlocks hits total) := by
  unfold keptBlocks
  split
  · exact ⟨fun b hb => h.1 b (List.mem_of_mem_drop hb),
      fun b hb => Nat.le_trans (List.Sublist.count_le _ (List.drop_sublist _ _)) (h.2 b hb)⟩
  · exact h

theorem allocateNewComputedBlocks_keeps {loc ext : Int} (hbs : 0 < m.spec.blockSize)
    (hhits : HitsValid p.numGpuBlocks hits)
    (hfit : ext ≤ 0 ∨ (hits.length : Int) ≤ m.numRequiredBlocks (loc + ext))
    (h : m.baseAllocateNewComputedBlocks p reqId hits loc ext = .ok (p', m')) :
    Keeps p m p' m' := by
  unfold baseAllocateNewComputedBlocks at h
  split at h
  · split at h
    · obtain ⟨rfl, rfl⟩ := Prod.mk.inj (Except.ok.inj h)
      exact Keeps.refl _ _
    · cases h
  · split at h
    · cases h
    · rename_i hempty
      simp only [Raises.bind_eq_ok] at h
      obtain ⟨⟨q, n⟩, hadopt, h⟩ := h
      obtain ⟨hval, hone⟩ := hhits.kept m (loc + ext)
      obtain ⟨hkeep, hblocks⟩ := adoptBlocks_keeps (by simpa using hempty) hval hone hadopt
      refine hkeep.trans ?_
      dsimp only at h
      split at h
      · rename_i hext
        unfold allocateExternal at h
        simp only [Raises.bind_eq_ok, Raises.pure_eq_ok] at h
        obtain ⟨⟨q', new⟩, hnew, heq⟩ := h
        dsimp only at heq
        obtain ⟨rfl, rfl⟩ := Prod.mk.inj heq
        have hspec := hkeep.spec
        have hreq : ∀ t, n.numRequiredBlocks t = m.numRequiredBlocks t := by
          intro t
          rw [numRequiredBlocks, hspec, numRequiredBlocks]
        have hext' : m.keptExternalTokens (loc + ext) ext > 0 := by
          have : n.keptExternalTokens (loc + ext) ext = m.keptExternalTokens (loc + ext) ext := by
            unfold keptExternalTokens numSkippedBlocks getNumSkippedTokens
            rw [hspec]
          rwa [← this]
        have hext₀ : ¬ ext ≤ 0 := by
          intro hle
          unfold keptExternalTokens at hext'
          split at hext' <;> omega
        have hnonneg := external_nonneg hbs (hfit.resolve_left hext₀) hext'
        refine appendFresh_keeps _ _ ?_ hnew
        rw [hreq, hblocks]
        exact hnonneg
      · obtain ⟨rfl, rfl⟩ := Prod.mk.inj (Raises.pure_eq_ok.mp h)
        exact Keeps.refl _ _

/-- Giving back part of a list. -/
theorem Balanced.release {removed : List BlockId} (h : Balanced R p m)
    (hocc : ∀ b, b ≠ nullBlock → m.occurrences b = m'.occurrences b + removed.count b)
    (hlists : m'.ListsOk) (hone : ∀ b, b ≠ nullBlock → removed.count b ≤ 1) :
    Balanced R (p.freeBlocksOf removed) m' := by
  refine ⟨BlockPool.freeBlocksOf_accounted ?_ hone, BlockPool.freeBlocksOf_hashOk h.hashOk _, hlists⟩
  refine h.accounted.congr (fun b hb => ?_) rfl rfl rfl rfl
  rw [hocc b hb]
  omega

theorem free_keeps (p : BlockPool H) (m : SingleTypeManager H) (reqId : ReqId) :
    Keeps p m (m.baseFree p reqId).1 (m.baseFree p reqId).2 := by
  refine ⟨rfl, fun R hb => ⟨?_, rfl⟩⟩
  refine hb.release (fun b _ => ?_) (fun reqId' blocks hget => ?_) fun b hnull => ?_
  · have h := Dict.total_erase (fun bs : List BlockId => bs.count b) m.reqToBlocks reqId
    rw [m.reqBlocks_count] at h
    rw [List.count_reverse]
    exact h.symm
  · dsimp only [baseFree] at hget
    rw [Dict.get?_erase] at hget
    split at hget
    · cases hget
    · exact hb.lists reqId' blocks hget
  · rw [List.count_reverse]
    exact hb.lists.reqBlocks reqId hnull

/-- The skip loop moves blocks from the list to the removed ones. -/
theorem skipLoop_count :
    ∀ (n : Nat) (blocks : List BlockId) (b : BlockId), b ≠ nullBlock →
      blocks.count b = (skipLoop n blocks).1.count b + (skipLoop n blocks).2.count b := by
  intro n
  induction n with
  | zero => intro blocks b _; simp [skipLoop]
  | succ i ih =>
    intro blocks b hb
    rw [skipLoop]
    cases hi : blocks[i]? with
    | none => simp
    | some b₀ =>
      dsimp only
      by_cases hnull : b₀ = nullBlock
      · rw [if_pos hnull]
        simp
      · rw [if_neg hnull]
        dsimp only
        obtain ⟨hlt, hget⟩ := List.getElem?_eq_some_iff.mp hi
        have h := ih (blocks.set i nullBlock) b hb
        have hset := List.count_set (a := nullBlock) (b := b) hlt
        have hne : ¬ (nullBlock == b) = true := by simpa using Ne.symm hb
        rw [hget, if_neg hne] at hset
        rw [List.count_cons]
        by_cases hbb : b₀ = b
        · subst hbb
          have hpos : 0 < blocks.count b₀ := List.count_pos_iff.mpr (hget ▸ List.getElem_mem hlt)
          simp only [beq_self_eq_true, if_true] at hset ⊢
          omega
        · have hbb' : ¬ (b₀ == b) = true := by simpa using hbb
          rw [if_neg hbb'] at hset ⊢
          omega

theorem skipLoop_entries :
    ∀ (n : Nat) (l : List BlockId), (skipLoop n l).1.length = l.length ∧
      ∀ i b, (skipLoop n l).1[i]? = some b → l[i]? = some b ∨ b = nullBlock ∧ i < n := by
  intro n
  induction n with
  | zero => intro l; exact ⟨rfl, fun i b h => Or.inl h⟩
  | succ n ih =>
    intro l
    rw [skipLoop]
    cases hn : l[n]? with
    | none => exact ⟨rfl, fun i b h => Or.inl h⟩
    | some x =>
      dsimp only
      by_cases hnull : x = nullBlock
      · rw [if_pos hnull]
        exact ⟨rfl, fun i b h => Or.inl h⟩
      · rw [if_neg hnull]
        obtain ⟨hlen, hget⟩ := ih (l.set n nullBlock)
        rw [List.length_set] at hlen
        refine ⟨hlen, fun i b h => ?_⟩
        rcases hget i b h with hset | ⟨hb, hi⟩
        · by_cases hin : i = n
          · subst hin
            rw [List.getElem?_set_self (List.getElem?_eq_some_iff.mp hn).1, Option.some.injEq] at hset
            exact Or.inr ⟨hset.symm, Nat.lt_succ_self i⟩
          · rw [List.getElem?_set_ne (Ne.symm hin)] at hset
            exact Or.inl hset
        · exact Or.inr ⟨hb, Nat.lt_succ_of_lt hi⟩

theorem removeSkippedBlocks_keeps (p : BlockPool H) (m : SingleTypeManager H) (reqId : ReqId)
    (total : Int) :
    Keeps p m (m.baseRemoveSkippedBlocks p reqId total).1
      (m.baseRemoveSkippedBlocks p reqId total).2 := by
  unfold baseRemoveSkippedBlocks
  split
  · exact Keeps.refl _ _
  · dsimp only
    refine ⟨rfl, fun R hb => ⟨?_, rfl⟩⟩
    have hcount := skipLoop_count (min (m.numSkippedBlocks total)
      ((m.reqBlocks reqId).length : Int)).toNat (m.reqBlocks reqId)
    refine hb.release (fun b hnull => ?_) (setBlocks_listsOk hb.lists fun b hnull => ?_)
      fun b hnull => ?_
    · have h1 := m.setBlocks_occurrences reqId (skipLoop (min (m.numSkippedBlocks total)
        ((m.reqBlocks reqId).length : Int)).toNat (m.reqBlocks reqId)).1 b
      have h2 := hcount b hnull
      omega
    · have h1 := hb.lists.reqBlocks reqId hnull
      have h2 := hcount b hnull
      omega
    · have h1 := hb.lists.reqBlocks reqId hnull
      have h2 := hcount b hnull
      omega

theorem cacheBlocks_keeps {r : Request H} {numTokens : Int}
    (h : m.baseCacheBlocks p r numTokens = .ok (p', m')) : Keeps p m p' m' := by
  unfold baseCacheBlocks at h
  dsimp only at h
  split at h
  · obtain ⟨rfl, rfl⟩ := Prod.mk.inj (Except.ok.inj h)
    exact Keeps.refl _ _
  · simp only [Raises.bind_eq_ok, Raises.pure_eq_ok] at h
    obtain ⟨q, hq, heq⟩ := h
    obtain ⟨rfl, rfl⟩ := Prod.mk.inj heq
    refine ⟨rfl, fun R hb => ?_⟩
    have hstep := BlockPool.cacheFullBlocks_hashStep hb.hashOk (hb.valid r.requestId) hq
    have hbal : Balanced R q m := ⟨hstep.accounted hb.accounted, hstep.hashOk, hb.lists⟩
    exact ⟨((withEntry_keeps q m r.requestId).balanced R hbal).1.of_lists rfl, hstep.numGpuBlocks⟩

end VllmEngine

/-!
## Block accounting of the Mamba manager

`MambaManager` keeps the pool balanced like the managers of the attention types. In align mode
the speculative blocks of the last allocation move to the end of the list; each leaves a null
block behind, so that no block is in the list twice.

> `manager_allocateNewBlocks_keeps`, `manager_removeSkippedBlocks_keeps` and the others: every
> method of every manager keeps the balance.
-/

namespace VllmEngine

variable {H : Type} [DecidableEq H]

open SingleTypeManager

/-! ## Moving the speculative blocks -/

theorem reuseSpeculative_length (numSkipped : Int) :
    ∀ (n idx : Nat) (blocks : List BlockId),
      (reuseSpeculative numSkipped n idx blocks).length
        = blocks.length + min n (numSkipped - idx).toNat := by
  intro n
  induction n with
  | zero =>
    intro idx blocks
    rw [reuseSpeculative, Nat.zero_min, Nat.add_zero]
  | succ n ih =>
    intro idx blocks
    rw [reuseSpeculative]
    split
    · rw [ih, List.length_set, List.length_append, List.length_singleton]
      omega
    · omega

/-- A block that moves is counted at its new place. -/
theorem reuseSpeculative_count (numSkipped : Int) {b : BlockId} (hb : b ≠ nullBlock) :
    ∀ (n idx : Nat) (blocks : List BlockId),
      (reuseSpeculative numSkipped n idx blocks).count b = blocks.count b := by
  intro n
  induction n with
  | zero => intro idx blocks; rfl
  | succ n ih =>
    intro idx blocks
    rw [reuseSpeculative]
    split
    · rw [ih]
      have hnull : ¬ (nullBlock == b) = true := by simpa using Ne.symm hb
      rcases Nat.lt_or_ge idx blocks.length with hlt | hge
      · have hset := List.count_set (a := nullBlock) (b := b)
          (l := blocks ++ [blocks.getD idx nullBlock]) (i := idx)
          (by rw [List.length_append]; omega)
        rw [if_neg hnull, List.getElem_append_left hlt] at hset
        have hmoved : blocks.getD idx nullBlock = blocks[idx] := by
          rw [List.getD_eq_getElem?_getD, List.getElem?_eq_getElem hlt, Option.getD_some]
        rw [hset, List.count_append, hmoved, List.count_singleton]
        have hpos : (if blocks[idx] == b then 1 else 0) ≤ blocks.count b := by
          split
          next heq =>
            rw [← eq_of_beq heq]
            exact List.count_pos_iff.mpr (List.getElem_mem hlt)
          next => exact Nat.zero_le _
        omega
      · -- beyond the list there is nothing to move
        have hmoved : blocks.getD idx nullBlock = nullBlock := by
          rw [List.getD_eq_getElem?_getD, List.getElem?_eq_none hge, Option.getD_none]
        rw [hmoved]
        rcases Nat.eq_or_lt_of_le hge with heq | hgt
        · rw [← heq, List.set_append_right _ _ (Nat.le_refl _), Nat.sub_self, List.set_cons_zero,
            List.count_append, List.count_singleton, if_neg hnull, Nat.add_zero]
        · rw [List.set_eq_of_length_le (by rw [List.length_append, List.length_singleton]; omega),
            List.count_append, List.count_singleton, if_neg hnull, Nat.add_zero]
    · rfl

/-! ## The allocation in align mode -/

/-- `num_required_blocks` of `MambaManager`. -/
def alignRequired (m : SingleTypeManager H) (f : MambaFields) (numTokens : Int) : Int :=
  m.numRequiredBlocks numTokens + f.numSpeculativeBlocks

/-- The request's list when `get_new_blocks` is called: filled up with null blocks, and with the
speculative blocks at its end. -/
def alignBlocks (m : SingleTypeManager H) (f : MambaFields) (reqId : ReqId) (numTokens : Int) :
    List BlockId :=
  let blocks := m.reqBlocks reqId
  let numSkipped := alignRequired m f numTokens - f.numSpeculativeBlocks - 1
  let filled := blocks ++ List.replicate (numSkipped - blocks.length).toNat nullBlock
  if reqId ∈ m.allocatedBlockReqs then
    reuseSpeculative numSkipped f.numSpeculativeBlocks (blocks.length - f.numSpeculativeBlocks)
      filled
  else filled

/-- How many blocks `get_new_blocks` is asked for. -/
def alignAsked (m : SingleTypeManager H) (f : MambaFields) (reqId : ReqId) (numTokens : Int) : Int :=
  alignRequired m f numTokens - (alignBlocks m f reqId numTokens).length

/-- An allocation that adds to the list. -/
structure Grown (p : BlockPool H) (m : SingleTypeManager H) (f : MambaFields) (reqId : ReqId)
    (numTokens : Int) (fresh : List BlockId) (p' : BlockPool H) (m' : SingleTypeManager H) :
    Prop where
  grows : alignRequired m f numTokens > (m.reqBlocks reqId).length
  bound : alignAsked m f reqId numTokens
    ≤ if reqId ∈ m.allocatedBlockReqs then 1 else (f.numSpeculativeBlocks : Int) + 1
  asked : p.getNewBlocks (alignAsked m f reqId numTokens) = .ok (p', fresh)
  blocks : m'.reqToBlocks
    = ((m.withEntry reqId).setBlocks reqId (alignBlocks m f reqId numTokens ++ fresh)).reqToBlocks
  lastStateBlockIdx : m'.lastStateBlockIdx =
    if reqId ∈ m.allocatedBlockReqs then
      m.lastStateBlockIdx.set reqId (((m.reqBlocks reqId).length : Int) - 1 - f.numSpeculativeBlocks)
    else if (m.reqBlocks reqId).length > 0 then
      m.lastStateBlockIdx.set reqId (((m.reqBlocks reqId).length : Int) - 1)
    else m.lastStateBlockIdx
  allocatedBlockReqs : m'.allocatedBlockReqs =
    if reqId ∈ m.allocatedBlockReqs then m.allocatedBlockReqs else m.allocatedBlockReqs ++ [reqId]
  spec : m'.spec = m.spec

omit [DecidableEq H] in
@[simp] theorem withEntry_reqBlocks (m : SingleTypeManager H) (reqId : ReqId) :
    (m.withEntry reqId).reqBlocks reqId = m.reqBlocks reqId := setBlocks_reqBlocks m reqId _

variable {p p' : BlockPool H} {m m' : SingleTypeManager H} {reqId : ReqId} {numTokens : Int}
  {new : List BlockId}

/-- The two ways in which an allocation in align mode succeeds. -/
theorem mambaAllocateNewBlocks_cases {f : MambaFields}
    (h : m.mambaAllocateNewBlocks p f reqId numTokens = .ok (p', m', new)) :
    (alignRequired m f numTokens = (m.reqBlocks reqId).length ∧ p' = p ∧ m' = m.withEntry reqId) ∨
      ∃ fresh, Grown p m f reqId numTokens fresh p' m' := by
  have hreq : (m.withEntry reqId).numRequiredBlocks numTokens + f.numSpeculativeBlocks
      = alignRequired m f numTokens := rfl
  have hmem : (m.withEntry reqId).allocatedBlockReqs = m.allocatedBlockReqs := rfl
  have hlast : (m.withEntry reqId).lastStateBlockIdx = m.lastStateBlockIdx := rfl
  unfold mambaAllocateNewBlocks at h
  simp only [withEntry_reqBlocks, hreq, hmem, hlast, decide_eq_true_eq] at h
  split at h
  next heq =>
    have heq' := Except.ok.inj h
    simp only [Prod.mk.injEq] at heq'
    exact Or.inl ⟨heq, heq'.1.symm, heq'.2.1.symm⟩
  next hne =>
    simp only [Raises.bind_eq_ok, Raises.pure_eq_ok, Python.require_eq_ok] at h
    obtain ⟨⟨⟩, hgrows, ⟨⟩, hbound, ⟨q, fresh⟩, hnew, heq⟩ := h
    simp only [Prod.mk.injEq] at heq
    obtain ⟨rfl, rfl, -⟩ := heq
    exact Or.inr ⟨fresh, of_decide_eq_true hgrows, of_decide_eq_true hbound, hnew, rfl, rfl, rfl, rfl⟩

omit [DecidableEq H] in
/-- The list before the new blocks leaves room for one more at least. -/
theorem alignAsked_pos {f : MambaFields}
    (h : alignRequired m f numTokens > (m.reqBlocks reqId).length) :
    0 < alignAsked m f reqId numTokens := by
  unfold alignAsked alignBlocks
  dsimp only
  split
  · rw [reuseSpeculative_length, List.length_append, List.length_replicate]
    omega
  · rw [List.length_append, List.length_replicate]
    omega

omit [DecidableEq H] in
theorem alignBlocks_count (m : SingleTypeManager H) (f : MambaFields) (reqId : ReqId)
    (numTokens : Int) {b : BlockId} (hb : b ≠ nullBlock) :
    (alignBlocks m f reqId numTokens).count b = (m.reqBlocks reqId).count b := by
  have hfill : ∀ n, (m.reqBlocks reqId ++ List.replicate n nullBlock).count b
      = (m.reqBlocks reqId).count b := by
    intro n
    rw [List.count_append, List.count_replicate, if_neg (by simpa using Ne.symm hb), Nat.add_zero]
  unfold alignBlocks
  dsimp only
  split
  · rw [reuseSpeculative_count _ hb, hfill]
  · exact hfill _

theorem mambaAllocateNewBlocks_keeps {f : MambaFields}
    (h : m.mambaAllocateNewBlocks p f reqId numTokens = .ok (p', m', new)) : Keeps p m p' m' := by
  rcases mambaAllocateNewBlocks_cases h with ⟨-, rfl, rfl⟩ | ⟨fresh, hg⟩
  · exact withEntry_keeps _ m reqId
  · refine (withEntry_keeps p m reqId).trans ?_
    have hpos := alignAsked_pos hg.grows
    refine (setFresh_keeps (m.withEntry reqId) reqId (Int.le_of_lt hpos) hg.asked
      fun b hb => ?_).of_lists hg.spec hg.blocks
    rw [withEntry_reqBlocks]
    exact alignBlocks_count m f reqId numTokens hb

/-! ## The state block of two steps ago -/

/-- An entry that is not the default is in the list. -/
theorem getElem?_of_getD_ne {blocks : List BlockId} {i : Nat}
    (h : blocks.getD i nullBlock ≠ nullBlock) : blocks[i]? = some (blocks.getD i nullBlock) := by
  rw [List.getD_eq_getElem?_getD] at h ⊢
  cases hi : blocks[i]? with
  | none => rw [hi] at h; exact absurd rfl h
  | some b => rfl

/-- One block of a request is given back. -/
theorem releaseOne_keeps (p : BlockPool H) (m : SingleTypeManager H) (reqId : ReqId) {i : Nat}
    {x : BlockId} (hi : (m.reqBlocks reqId)[i]? = some x) :
    Keeps p m (p.freeBlocksOf [x]) (m.setBlocks reqId ((m.reqBlocks reqId).set i nullBlock)) := by
  obtain ⟨hlt, hget⟩ := List.getElem?_eq_some_iff.mp hi
  have hcount : ∀ b, b ≠ nullBlock →
      (m.reqBlocks reqId).count b = ((m.reqBlocks reqId).set i nullBlock).count b + [x].count b := by
    intro b hb
    have hset := List.count_set (a := nullBlock) (b := b) hlt
    have hnull : ¬ (nullBlock == b) = true := by simpa using Ne.symm hb
    rw [hget, if_neg hnull] at hset
    rw [hset, List.count_singleton]
    split
    next heq =>
      have hmem : b ∈ m.reqBlocks reqId := by
        rw [← eq_of_beq heq, ← hget]
        exact List.getElem_mem hlt
      have hpos := List.count_pos_iff.mpr hmem
      omega
    next => omega
  refine ⟨rfl, fun R hb => ⟨hb.release (fun b hnull => ?_) (setBlocks_listsOk hb.lists
    fun b hnull => ?_) (fun b hnull => ?_), rfl⟩⟩
  · have hocc := m.setBlocks_occurrences reqId ((m.reqBlocks reqId).set i nullBlock) b
    have := hcount b hnull
    omega
  · have := hb.lists.reqBlocks reqId hnull
    have := hcount b hnull
    omega
  · have := hb.lists.reqBlocks reqId hnull
    have := hcount b hnull
    omega

theorem mambaRemoveSkippedBlocks_keeps (p : BlockPool H) (m : SingleTypeManager H) (f : MambaFields)
    (reqId : ReqId) (total : Int) :
    Keeps p m (m.mambaRemoveSkippedBlocks p f reqId total).1
      (m.mambaRemoveSkippedBlocks p f reqId total).2 := by
  have hbase := removeSkippedBlocks_keeps p m reqId (max 0 (total - f.numSpeculativeBlocks))
  unfold mambaRemoveSkippedBlocks
  dsimp only
  split
  · split
    · exact hbase
    · split
      · split
        next idx _ _ hne =>
          refine hbase.trans ?_
          have hget := getElem?_of_getD_ne hne
          exact releaseOne_keeps _ _ reqId hget
        · exact hbase
      · exact hbase
  · exact hbase

/-! ## Every manager -/

theorem manager_free_keeps (p : BlockPool H) (m : SingleTypeManager H) (reqId : ReqId) :
    Keeps p m (m.free p reqId).1 (m.free p reqId).2 := by
  unfold SingleTypeManager.free
  split
  · split
    · refine Keeps.trans ?_ (free_keeps p _ reqId)
      exact (Keeps.refl p m).of_lists rfl rfl
    · exact free_keeps p m reqId
  · exact free_keeps p m reqId

theorem manager_removeSkippedBlocks_keeps (p : BlockPool H) (m : SingleTypeManager H)
    (reqId : ReqId) (total : Int) :
    Keeps p m (m.removeSkippedBlocks p reqId total).1 (m.removeSkippedBlocks p reqId total).2 := by
  unfold SingleTypeManager.removeSkippedBlocks
  split
  · exact mambaRemoveSkippedBlocks_keeps p m _ reqId total
  · exact removeSkippedBlocks_keeps p m reqId total

theorem manager_cacheBlocks_keeps {r : Request H} (h : m.cacheBlocks p r numTokens = .ok (p', m')) :
    Keeps p m p' m' := by
  unfold SingleTypeManager.cacheBlocks at h
  split at h
  · cases h
  · simp only [Raises.bind_eq_ok, Raises.pure_eq_ok] at h
    obtain ⟨⟨q, m₁⟩, hcache, heq⟩ := h
    obtain ⟨rfl, rfl⟩ := Prod.mk.inj heq
    exact (cacheBlocks_keeps hcache).of_lists rfl rfl
  · exact cacheBlocks_keeps h

theorem manager_allocateNewBlocks_keeps {n main : Int}
    (h : m.allocateNewBlocks p reqId n main = .ok (p', m', new)) : Keeps p m p' m' := by
  unfold SingleTypeManager.allocateNewBlocks at h
  split at h
  · split at h
    · exact mambaAllocateNewBlocks_keeps h
    · exact allocateNewBlocks_keeps h
  · exact allocateNewBlocks_keeps h

theorem manager_allocateNewComputedBlocks_keeps {hits : List BlockId} {loc ext : Int}
    (hbs : 0 < m.spec.blockSize) (hhits : HitsValid p.numGpuBlocks hits)
    (hfit : ext ≤ 0 ∨ (hits.length : Int) ≤ m.numRequiredBlocks (loc + ext))
    (h : m.allocateNewComputedBlocks p reqId hits loc ext = .ok (p', m')) : Keeps p m p' m' := by
  unfold SingleTypeManager.allocateNewComputedBlocks at h
  split at h
  · split at h
    · obtain ⟨rfl, rfl⟩ := Prod.mk.inj (Except.ok.inj h)
      exact Keeps.refl _ _
    · cases h
  · exact allocateNewComputedBlocks_keeps hbs hhits hfit h

end VllmEngine
