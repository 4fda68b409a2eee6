import VllmEngine.Offload.CpuManager

/-!
# Conservation of CPU offload blocks

`PoolKept` says that each slot handed out so far is in the free list, once, or
is held for one key. `KeyKept` ties the reader count of a held block to the
outside view: `-1` while its store is pending, otherwise the number of loads
begun (kept in 32 bits), of which the pending ones are a part.

> `OffloadSafe`: what a caller may rely on after any sequence of calls, and
> `offload_safe_run`: it holds for both policies.
-/

namespace VllmEngine

namespace CPUOffloadingManager

set_option linter.unusedSectionVars false

variable {K P : Type} [DecidableEq K] {C : CachePolicy K P} {Valid : P → Prop}

/-! ## Slots -/

/-- The slots are accounted for: `get` finds the block of each key. -/
structure PoolKept (numAllocated : Nat) (freeList : List Nat) (get : K → Option BlockStatus) :
    Prop where
  freeNodup : freeList.Nodup
  freeLt : ∀ id ∈ freeList, id < numAllocated
  heldLt : ∀ k b, get k = some b → b.blockId < numAllocated
  heldFree : ∀ k b, get k = some b → b.blockId ∉ freeList
  heldOnce : ∀ k k' b b', get k = some b → get k' = some b' → b.blockId = b'.blockId → k = k'
  covered : ∀ id < numAllocated, id ∈ freeList ∨ ∃ k b, get k = some b ∧ b.blockId = id

variable {n : Nat} {free : List Nat} {get get' : K → Option BlockStatus}

theorem PoolKept.congr (h : PoolKept n free get) (heq : ∀ k, get' k = get k) :
    PoolKept n free get' := by
  obtain rfl : get' = get := funext heq
  exact h

/-- Changing a block without moving it. -/
theorem PoolKept.update (h : PoolKept n free get) {k : K} {f : BlockStatus → BlockStatus}
    (hf : ∀ b, (f b).blockId = b.blockId)
    (heq : ∀ k', get' k' = if k' = k then (get k).map f else get k') : PoolKept n free get' := by
  -- what is held afterwards was held before, in the same slot
  have hback : ∀ k' b', get' k' = some b' → ∃ b, get k' = some b ∧ b.blockId = b'.blockId := by
    intro k' b' hb'
    rw [heq] at hb'
    by_cases hk : k' = k
    · rw [if_pos hk] at hb'
      obtain ⟨b, hb, rfl⟩ := Option.map_eq_some_iff.mp hb'
      exact ⟨b, hk ▸ hb, (hf b).symm⟩
    · rw [if_neg hk] at hb'
      exact ⟨b', hb', rfl⟩
  refine ⟨h.freeNodup, h.freeLt, fun k' b' hb' => ?_, fun k' b' hb' => ?_,
    fun k₁ k₂ b₁ b₂ h₁ h₂ hid => ?_, fun id hid => (h.covered id hid).imp_right ?_⟩
  · obtain ⟨b, hb, hbid⟩ := hback k' b' hb'
    exact hbid ▸ h.heldLt k' b hb
  · obtain ⟨b, hb, hbid⟩ := hback k' b' hb'
    exact hbid ▸ h.heldFree k' b hb
  · obtain ⟨c₁, hc₁, hid₁⟩ := hback k₁ b₁ h₁
    obtain ⟨c₂, hc₂, hid₂⟩ := hback k₂ b₂ h₂
    exact h.heldOnce k₁ k₂ c₁ c₂ hc₁ hc₂ (by omega)
  · intro hheld
    obtain ⟨k', b, hb, hbid⟩ := hheld
    by_cases hk : k' = k
    · refine ⟨k', f b, ?_, (hf b).trans hbid⟩
      rw [heq, if_pos hk, ← hk, hb]
      rfl
    · refine ⟨k', b, ?_, hbid⟩
      rw [heq, if_neg hk]
      exact hb

/-- A key gives its block back. -/
theorem PoolKept.release (h : PoolKept n free get) {k : K} {b : BlockStatus}
    (hb : get k = some b) (heq : ∀ k', get' k' = if k' = k then none else get k') :
    PoolKept n (free ++ [b.blockId]) get' := by
  have hback : ∀ k' b', get' k' = some b' → k' ≠ k ∧ get k' = some b' := by
    intro k' b' hb'
    rw [heq] at hb'
    by_cases hk : k' = k
    · rw [if_pos hk] at hb'
      cases hb'
    · rw [if_neg hk] at hb'
      exact ⟨hk, hb'⟩
  refine ⟨?_, fun id hid => ?_, fun k' b' hb' => h.heldLt k' b' (hback k' b' hb').2,
    fun k' b' hb' hmem => ?_, fun k₁ k₂ b₁ b₂ h₁ h₂ hid => ?_, fun id hid => ?_⟩
  · refine List.nodup_append.mpr ⟨h.freeNodup, List.nodup_singleton _, fun x hx y hy hxy => ?_⟩
    rw [hxy, List.mem_singleton.mp hy] at hx
    exact h.heldFree k b hb hx
  · obtain hold | hnew := List.mem_append.mp hid
    · exact h.freeLt id hold
    · exact List.mem_singleton.mp hnew ▸ h.heldLt k b hb
  · obtain ⟨hne, hold⟩ := hback k' b' hb'
    obtain hin | hin := List.mem_append.mp hmem
    · exact h.heldFree k' b' hold hin
    · exact hne (h.heldOnce k' k b' b hold hb (List.mem_singleton.mp hin))
  · exact h.heldOnce k₁ k₂ b₁ b₂ (hback k₁ b₁ h₁).2 (hback k₂ b₂ h₂).2 hid
  · obtain hin | hin := h.covered id hid
    · exact Or.inl (List.mem_append_left _ hin)
    · obtain ⟨k', b', hb', hid'⟩ := hin
      by_cases hk : k' = k
      · subst hk
        obtain rfl := Option.some.inj (hb.symm.trans hb')
        exact Or.inl (List.mem_append_right _ (List.mem_singleton.mpr hid'.symm))
      · refine Or.inr ⟨k', b', ?_, hid'⟩
        rw [heq, if_neg hk]
        exact hb'

/-- The `i`-th key is stored in the `i`-th new block. -/
theorem mem_zip_new {keys : List K} {ids : List Nat} {i : Nat} (hk : i < keys.length)
    (hi : i < ids.length) :
    (keys[i], BlockStatus.new ids[i]) ∈ keys.zip (ids.map BlockStatus.new) := by
  refine List.mem_iff_getElem.mpr ⟨i, ?_, ?_⟩
  · rw [List.length_zip, List.length_map]
    omega
  · rw [List.getElem_zip, List.getElem_map]

/-- Keys without blocks take slots that are free or new. -/
theorem PoolKept.claim (h : PoolKept n free get) {n' : Nat} {free' ids : List Nat} {keys : List K}
    (hn : n ≤ n') (hsub : List.Sublist free' free) (hlen : ids.length = keys.length)
    (hids : ids.Nodup) (hnone : ∀ k ∈ keys, get k = none) (hlt : ∀ id ∈ ids, id < n')
    (hout : ∀ id ∈ ids, id ∉ free') (hwas : ∀ id ∈ ids, id ∈ free ∨ n ≤ id)
    (hall : ∀ id < n', id ∈ ids ∨ id ∈ free' ∨ (id < n ∧ id ∉ free))
    (hnew : ∀ k b, (k, b) ∈ keys.zip (ids.map BlockStatus.new) → get' k = some b)
    (hold : ∀ k, k ∉ keys → get' k = get k) : PoolKept n' free' get' := by
  -- a held slot afterwards is one of the claimed, or was held before
  have hback : ∀ k b, get' k = some b →
      (k, b) ∈ keys.zip (ids.map BlockStatus.new) ∨ (k ∉ keys ∧ get k = some b) := by
    intro k b hb
    by_cases hk : k ∈ keys
    · obtain ⟨i, hi, rfl⟩ := List.getElem_of_mem hk
      have hi' : i < (ids.map BlockStatus.new).length := by
        rw [List.length_map, hlen]
        exact hi
      have hmem : (keys[i], (ids.map BlockStatus.new)[i]) ∈ keys.zip (ids.map BlockStatus.new) :=
        List.mem_iff_getElem.mpr ⟨i, by rw [List.length_zip]; omega, List.getElem_zip⟩
      have hb' := hnew _ _ hmem
      obtain rfl := Option.some.inj (hb.symm.trans hb')
      exact Or.inl hmem
    · rw [hold k hk] at hb
      exact Or.inr ⟨hk, hb⟩
  have hclaimed : ∀ k b, (k, b) ∈ keys.zip (ids.map BlockStatus.new) → b.blockId ∈ ids := by
    intro k b hmem
    obtain ⟨id, hid, rfl⟩ := List.mem_map.mp (List.of_mem_zip hmem).2
    exact hid
  have hnot : ∀ k b id, get k = some b → id ∈ ids → b.blockId ≠ id := by
    intro k b id hb hid heq
    obtain hin | hge := hwas id hid
    · exact h.heldFree k b hb (heq ▸ hin)
    · have hlt := h.heldLt k b hb
      omega
  refine ⟨h.freeNodup.sublist hsub, fun id hid => ?_, fun k b hb => ?_, fun k b hb => ?_,
    fun k₁ k₂ b₁ b₂ h₁ h₂ hid => ?_, fun id hid => ?_⟩
  · exact Nat.lt_of_lt_of_le (h.freeLt id (hsub.subset hid)) hn
  · obtain hmem | ⟨-, hb⟩ := hback k b hb
    · exact hlt _ (hclaimed k b hmem)
    · exact Nat.lt_of_lt_of_le (h.heldLt k b hb) hn
  · obtain hmem | ⟨-, hb⟩ := hback k b hb
    · exact hout _ (hclaimed k b hmem)
    · exact fun hin => h.heldFree k b hb (hsub.subset hin)
  · obtain hm₁ | ⟨-, hb₁⟩ := hback k₁ b₁ h₁
    · obtain hm₂ | ⟨-, hb₂⟩ := hback k₂ b₂ h₂
      · -- both claimed: the same position of `ids`
        obtain ⟨i, hi, heq₁⟩ := List.mem_iff_getElem.mp hm₁
        obtain ⟨j, hj, heq₂⟩ := List.mem_iff_getElem.mp hm₂
        rw [List.getElem_zip, List.getElem_map] at heq₁ heq₂
        obtain ⟨rfl, rfl⟩ := Prod.mk.inj heq₁
        obtain ⟨rfl, rfl⟩ := Prod.mk.inj heq₂
        have hij := (List.Nodup.getElem_inj_iff hids).mp hid
        subst hij
        rfl
      · exact absurd hid.symm (hnot k₂ b₂ _ hb₂ (hclaimed k₁ b₁ hm₁))
    · obtain hm₂ | ⟨-, hb₂⟩ := hback k₂ b₂ h₂
      · exact absurd hid (hnot k₁ b₁ _ hb₁ (hclaimed k₂ b₂ hm₂))
      · exact h.heldOnce k₁ k₂ b₁ b₂ hb₁ hb₂ hid
  · obtain hin | hin | ⟨hlt', hout'⟩ := hall id hid
    · obtain ⟨i, hi, rfl⟩ := List.getElem_of_mem hin
      exact Or.inr ⟨_, _, hnew _ _ (mem_zip_new (by omega) hi), rfl⟩
    · exact Or.inl hin
    · obtain ⟨k, b, hb, hid⟩ := (h.covered id hlt').resolve_left hout'
      refine Or.inr ⟨k, b, ?_, hid⟩
      have hk : k ∉ keys := fun hk => by
        rw [hnone k hk] at hb
        cases hb
      rw [hold k hk]
      exact hb

/-- What `_allocate_blocks` hands out: as many slots as keys, each of them free
or new before and neither afterwards. -/
theorem allocateBlocks_spec {m m' : CPUOffloadingManager K P} {keys : List K}
    {blocks : List BlockStatus} (hnodup : m.freeList.Nodup)
    (hfree : ∀ id ∈ m.freeList, id < m.numAllocatedBlocks)
    (h : m.allocateBlocks keys = .ok (m', blocks)) :
    ∃ ids : List Nat, blocks = ids.map BlockStatus.new ∧ ids.length = keys.length ∧ ids.Nodup ∧
      m'.policy = m.policy ∧ m'.numBlocks = m.numBlocks ∧
      m.numAllocatedBlocks ≤ m'.numAllocatedBlocks ∧ List.Sublist m'.freeList m.freeList ∧
      (∀ id ∈ ids, id < m'.numAllocatedBlocks) ∧ (∀ id ∈ ids, id ∉ m'.freeList) ∧
      (∀ id ∈ ids, id ∈ m.freeList ∨ m.numAllocatedBlocks ≤ id) ∧
      ∀ id < m'.numAllocatedBlocks,
        id ∈ ids ∨ id ∈ m'.freeList ∨ (id < m.numAllocatedBlocks ∧ id ∉ m.freeList) := by
  unfold allocateBlocks at h
  dsimp only at h
  split at h
  · cases h
  · rename_i henough
    obtain ⟨rfl, rfl⟩ := Prod.mk.inj (Except.ok.inj h)
    -- the free list splits into what stays and what is handed out
    obtain ⟨stay, out, hlist, hstay, hout⟩ : ∃ stay out : List Nat, m.freeList = stay ++ out ∧
        stay = m.freeList.take (m.freeList.length
          - (keys.length - min keys.length (m.numBlocks - m.numAllocatedBlocks))) ∧
        out = m.freeList.drop (m.freeList.length
          - (keys.length - min keys.length (m.numBlocks - m.numAllocatedBlocks))) :=
      ⟨_, _, (List.take_append_drop _ _).symm, rfl, rfl⟩
    have hsplit := List.nodup_append.mp (hlist ▸ hnodup)
    have hmem : ∀ id, id ∈ m.freeList ↔ id ∈ stay ∨ id ∈ out := by
      intro id
      rw [hlist]
      exact List.mem_append
    refine ⟨_, rfl, ?_, ?_, rfl, rfl, Nat.le_add_right _ _, List.take_sublist _ _,
      fun id hid => ?_, fun id hid => ?_, fun id hid => ?_, fun id hid => ?_⟩
    · rw [List.length_append, List.length_range', List.length_reverse, List.length_drop]
      omega
    · rw [← hout]
      refine List.nodup_append.mpr ⟨List.nodup_range', List.nodup_reverse.mpr hsplit.2.1,
        fun x hx y hy hxy => ?_⟩
      have hge := (List.mem_range'_1.mp hx).1
      have hlt := hfree y ((hmem y).mpr (Or.inr (List.mem_reverse.mp hy)))
      omega
    · obtain hnew | hold := List.mem_append.mp hid
      · exact (List.mem_range'_1.mp hnew).2
      · have hlt := hfree id (List.mem_of_mem_drop (List.mem_reverse.mp hold))
        exact Nat.lt_of_lt_of_le hlt (Nat.le_add_right _ _)
    · show id ∉ m.freeList.take _
      rw [← hstay]
      intro hin
      obtain hnew | hold := List.mem_append.mp hid
      · have hge := (List.mem_range'_1.mp hnew).1
        have hlt := hfree id ((hmem id).mpr (Or.inl hin))
        omega
      · rw [← hout] at hold
        exact hsplit.2.2 id hin id (List.mem_reverse.mp hold) rfl
    · obtain hnew | hold := List.mem_append.mp hid
      · exact Or.inr (List.mem_range'_1.mp hnew).1
      · exact Or.inl (List.mem_of_mem_drop (List.mem_reverse.mp hold))
    · show _ ∨ id ∈ m.freeList.take _ ∨ _
      rw [← hstay, ← hout]
      obtain hlt | hge := Nat.lt_or_ge id m.numAllocatedBlocks
      · by_cases hin : id ∈ m.freeList
        · obtain hs | ho := (hmem id).mp hin
          · exact Or.inr (Or.inl hs)
          · exact Or.inl (List.mem_append_right _ (List.mem_reverse.mpr ho))
        · exact Or.inr (Or.inr ⟨hlt, hin⟩)
      · exact Or.inl (List.mem_append_left _ (List.mem_range'_1.mpr ⟨hge, hid⟩))

/-! ## Readers and stores -/

/-- What the outside view says of a held block: its store is pending, or it holds
the data of its key and counts the loads begun. -/
structure KeyKept (j : Jobs K) (k : K) (b : BlockStatus) : Prop where
  store : ∀ e ∈ j.stores, e.1 = k → e.2 = b.blockId ∧ b.refCnt = -1
  load : ∀ e ∈ j.loads, e.1 = k → e.2 = b.blockId
  count : (b.refCnt = -1 ∧ (j.loads.map Prod.fst).count k = 0) ∨
    (j.contents b.blockId = some k ∧ ∃ begun : Nat, begun ≤ 2147483648 ∧
      b.refCnt = cInt32 begun ∧ (j.loads.map Prod.fst).count k ≤ begun)

/-- What every sequence of calls keeps. -/
structure Kept (C : CachePolicy K P) (Valid : P → Prop) (m : CPUOffloadingManager K P)
    (j : Jobs K) : Prop where
  valid : Valid m.policy
  pool : PoolKept m.numAllocatedBlocks m.freeList (C.get m.policy)
  absent : ∀ k, C.get m.policy k = none → k ∉ j.loads.map Prod.fst ∧ k ∉ j.stores.map Prod.fst
  held : ∀ k b, C.get m.policy k = some b → KeyKept j k b

/-- The count of readers in 32 bits. -/
theorem cInt32_zero_le {begun : Nat} (h : begun ≤ 2147483648) :
    0 ≤ cInt32 begun ↔ begun < 2147483648 := by
  unfold cInt32
  omega

theorem cInt32_eq_zero {begun : Nat} (h : begun ≤ 2147483648) :
    cInt32 begun = 0 ↔ begun = 0 := by
  unfold cInt32
  omega

theorem cInt32_pos {begun : Nat} (h : begun ≤ 2147483648) :
    0 < cInt32 begun ↔ 0 < begun ∧ begun < 2147483648 := by
  unfold cInt32
  omega

theorem cInt32_add_one (begun : Nat) :
    cInt32 (cInt32 begun + 1) = cInt32 ((begun + 1 : Nat) : Int) := by
  unfold cInt32
  omega

theorem cInt32_sub_one {begun : Nat} (h : begun < 2147483648) (hpos : 0 < begun) :
    cInt32 (cInt32 begun - 1) = cInt32 ((begun - 1 : Nat) : Int) := by
  unfold cInt32
  omega

variable {m m' : CPUOffloadingManager K P} {j : Jobs K}

/-- A ready block has its data, and may begin one more load. -/
theorem KeyKept.of_ready {k : K} {b : BlockStatus} (h : KeyKept j k b) (hready : b.isReady = true) :
    j.contents b.blockId = some k ∧ ∃ begun : Nat, begun < 2147483648 ∧
      b.refCnt = cInt32 begun ∧ (j.loads.map Prod.fst).count k ≤ begun := by
  have hge : 0 ≤ b.refCnt := of_decide_eq_true hready
  obtain ⟨hneg, -⟩ | ⟨hcont, begun, hle, href, hcount⟩ := h.count
  · omega
  · exact ⟨hcont, begun, (cInt32_zero_le hle).mp (href ▸ hge), href, hcount⟩

/-- A key whose block is idle has no transfers. -/
theorem KeyKept.of_idle {k : K} {b : BlockStatus} (h : KeyKept j k b) (hidle : b.refCnt = 0) :
    k ∉ j.loads.map Prod.fst ∧ k ∉ j.stores.map Prod.fst := by
  refine ⟨fun hin => ?_, fun hin => ?_⟩
  · have hpos := List.count_pos_iff.mpr hin
    obtain ⟨hneg, -⟩ | ⟨-, begun, hle, href, hcount⟩ := h.count
    · omega
    · have hzero := (cInt32_eq_zero hle).mp (href.symm.trans hidle)
      omega
  · obtain ⟨e, he, rfl⟩ := List.mem_map.mp hin
    have hneg := (h.store e he rfl).2
    omega

/-- The block of a pending load is being read. -/
theorem KeyKept.of_load {k : K} {b : BlockStatus} (h : KeyKept j k b)
    (hin : k ∈ j.loads.map Prod.fst) : j.contents b.blockId = some k ∧ b.refCnt ≠ 0 ∧
      ∃ begun : Nat, 0 < begun ∧ begun ≤ 2147483648 ∧ b.refCnt = cInt32 begun ∧
        (j.loads.map Prod.fst).count k ≤ begun := by
  have hpos := List.count_pos_iff.mpr hin
  obtain ⟨-, hzero⟩ | ⟨hcont, begun, hle, href, hcount⟩ := h.count
  · omega
  · refine ⟨hcont, fun hzero => ?_, begun, by omega, hle, href, hcount⟩
    have hz := (cInt32_eq_zero hle).mp (href.symm.trans hzero)
    omega

/-! ## The calls keep the invariant -/

section Calls

variable (hC : C.Lawful Valid)

/-- What may change from one outside view to the next without touching a key. -/
theorem Kept.jobs {j' : Jobs K} (h : Kept C Valid m j)
    (hloads : List.Sublist j'.loads j.loads) (hstores : List.Sublist j'.stores j.stores)
    (hcont : ∀ k b, C.get m.policy k = some b → j'.contents b.blockId = j.contents b.blockId) :
    Kept C Valid m j' := by
  have hle : ∀ k, (j'.loads.map Prod.fst).count k ≤ (j.loads.map Prod.fst).count k :=
    fun k => (hloads.map Prod.fst).count_le k
  refine ⟨h.valid, h.pool, fun k hk => ?_, fun k b hb => ?_⟩
  · obtain ⟨hl, hs⟩ := h.absent k hk
    exact ⟨fun hin => hl ((hloads.map Prod.fst).subset hin),
      fun hin => hs ((hstores.map Prod.fst).subset hin)⟩
  · have hold := h.held k b hb
    refine ⟨fun e he => hold.store e (hstores.subset he), fun e he => hold.load e (hloads.subset he),
      ?_⟩
    obtain ⟨hneg, hzero⟩ | ⟨hc, begun, hb2, href, hcount⟩ := hold.count
    · exact Or.inl ⟨hneg, Nat.le_zero.mp (hzero ▸ hle k)⟩
    · exact Or.inr ⟨(hcont k b hb).trans hc, begun, hb2, href, Nat.le_trans (hle k) hcount⟩

variable {k : K} {b : BlockStatus} {S : K → Prop}

include hC in
/-- A change of one block that stays in its slot. -/
theorem Kept.updateBlock {j' : Jobs K} {f : BlockStatus → BlockStatus} (h : Kept C Valid m j)
    (hb : C.get m.policy k = some b) (hf : ∀ b, (f b).blockId = b.blockId)
    (hkey : KeyKept j' k (f b))
    (hother : ∀ k' b', k' ≠ k → C.get m.policy k' = some b' → KeyKept j' k' b')
    (habsent : ∀ k', C.get m.policy k' = none → k' ∉ j'.loads.map Prod.fst ∧ k' ∉ j'.stores.map Prod.fst) :
    Kept C Valid (m.updateBlock C k f) j' := by
  obtain ⟨hvalid, hget⟩ := hC.update k f h.valid
  refine ⟨hvalid, h.pool.update hf hget, fun k' hk' => habsent k' ?_, fun k' b' hb' => ?_⟩
  · show C.get m.policy k' = none
    have hk' : C.get (C.update m.policy k f) k' = none := hk'
    rw [hget] at hk'
    by_cases hk : k' = k
    · rw [if_pos hk, hb] at hk'
      cases hk'
    · rwa [if_neg hk] at hk'
  · have hb' : C.get (C.update m.policy k f) k' = some b' := hb'
    rw [hget] at hb'
    by_cases hk : k' = k
    · rw [if_pos hk, hb] at hb'
      obtain rfl := Option.some.inj hb'
      exact hk ▸ hkey
    · rw [if_neg hk] at hb'
      exact hother k' b' hk hb'

/-- What a call leaves alone: the number of blocks, and the slots of the keys in
`S`. -/
structure Frame (C : CachePolicy K P) (S : K → Prop) (m m' : CPUOffloadingManager K P) : Prop where
  numBlocks : m'.numBlocks = m.numBlocks
  stays : ∀ k b, S k → C.get m.policy k = some b →
    ∃ b', C.get m'.policy k = some b' ∧ b'.blockId = b.blockId

theorem Frame.refl : Frame C S m m := ⟨rfl, fun _ b _ hb => ⟨b, hb, rfl⟩⟩

theorem Frame.trans {m'' : CPUOffloadingManager K P} (h : Frame C S m m') (h' : Frame C S m' m'') :
    Frame C S m m'' := by
  refine ⟨h'.numBlocks.trans h.numBlocks, fun k b hS hb => ?_⟩
  obtain ⟨b', hb', hid'⟩ := h.stays k b hS hb
  obtain ⟨b'', hb'', hid''⟩ := h'.stays k b' hS hb'
  exact ⟨b'', hb'', hid''.trans hid'⟩

include hC in
theorem updateBlock_frame (hvalid : Valid m.policy) (k : K) {f : BlockStatus → BlockStatus}
    (hf : ∀ b, (f b).blockId = b.blockId) : Frame C S m (m.updateBlock C k f) := by
  refine ⟨rfl, fun k' b' _ hb' => ?_⟩
  have hget := (hC.update k f hvalid).2 k'
  show ∃ b'', C.get (C.update m.policy k f) k' = some b'' ∧ _
  rw [hget]
  by_cases hk : k' = k
  · rw [if_pos hk, ← hk, hb']
    exact ⟨f b', rfl, hf b'⟩
  · rw [if_neg hk]
    exact ⟨b', hb', rfl⟩

/-! ### Loads -/

include hC in
theorem Kept.beginLoad (h : Kept C Valid m j) (hb : C.get m.policy k = some b)
    (hready : b.isReady = true) :
    Kept C Valid (m.updateBlock C k fun b => { b with refCnt := cInt32 (b.refCnt + 1) })
      { j with loads := j.loads ++ [(k, b.blockId)] } := by
  have hcount : ∀ k', ((j.loads ++ [(k, b.blockId)]).map Prod.fst).count k'
      = (j.loads.map Prod.fst).count k' + if k = k' then 1 else 0 := by
    intro k'
    rw [List.map_append, List.count_append, List.map_singleton, List.count_singleton]
    simp only [beq_iff_eq]
  have hold := h.held k b hb
  obtain ⟨hcont, begun, hlt, href, hle⟩ := hold.of_ready hready
  have hge : 0 ≤ b.refCnt := of_decide_eq_true hready
  refine h.updateBlock hC hb (fun _ => rfl) ⟨fun e he heq => ?_, fun e he heq => ?_, ?_⟩
    (fun k' b' hne hb' => ?_) fun k' hk' => ?_
  · have hneg := (hold.store e he heq).2
    omega
  · obtain hin | hnew := List.mem_append.mp he
    · exact hold.load e hin heq
    · rw [List.mem_singleton.mp hnew]
  · refine Or.inr ⟨hcont, begun + 1, hlt, ?_, ?_⟩
    · show cInt32 (b.refCnt + 1) = _
      rw [href]
      exact cInt32_add_one begun
    · rw [hcount, if_pos rfl]
      exact Nat.succ_le_succ hle
  · have hkey := h.held k' b' hb'
    refine ⟨hkey.store, fun e he heq => ?_, ?_⟩
    · obtain hin | hnew := List.mem_append.mp he
      · exact hkey.load e hin heq
      · rw [List.mem_singleton.mp hnew] at heq
        exact absurd heq.symm hne
    · have hc := hkey.count
      rw [hcount, if_neg fun heq => hne heq.symm]
      exact hc
  · obtain ⟨hl, hs⟩ := h.absent k' hk'
    refine ⟨fun hin => ?_, hs⟩
    rw [List.map_append] at hin
    obtain hin | hnew := List.mem_append.mp hin
    · exact hl hin
    · rw [List.mem_singleton.mp hnew, hb] at hk'
      cases hk'

include hC in
/-- **A load begins**, or the call raises after some of its rounds. -/
theorem prepareLoad_kept : ∀ (keys : List K) (m : CPUOffloadingManager K P) (j : Jobs K)
    (ids : List Nat), Kept C Valid m j →
      Frame C S m (m.prepareLoad C keys ids).1 ∧
      (∀ e, (m.prepareLoad C keys ids).2 = .error e →
        Kept C Valid (m.prepareLoad C keys ids).1 j) ∧
      ∀ out, (m.prepareLoad C keys ids).2 = .ok out →
        ∃ new, out = ids ++ new ∧ Kept C Valid (m.prepareLoad C keys ids).1
          { j with loads := j.loads ++ keys.zip new } := by
  intro keys
  induction keys with
  | nil =>
    intro m j ids h
    refine ⟨Frame.refl, fun e he => (nomatch he), fun out hout => ⟨[], ?_, ?_⟩⟩
    · rw [List.append_nil]
      exact (Except.ok.inj hout).symm
    · rw [List.zip_nil_right, List.append_nil]
      exact h
  | cons key keys ih =>
    intro m j ids h
    rw [prepareLoad]
    split
    · exact ⟨Frame.refl, fun _ _ => h, fun out hout => (nomatch hout)⟩
    · rename_i b hb
      split
      · rename_i hready
        have hframe : Frame C S m
            (m.updateBlock C key fun b => { b with refCnt := cInt32 (b.refCnt + 1) }) :=
          updateBlock_frame hC h.valid key fun _ => rfl
        obtain ⟨hf, herr, hok⟩ := ih _ _ (ids ++ [b.blockId]) (h.beginLoad hC hb hready)
        refine ⟨hframe.trans hf, fun e he => ?_, fun out hout => ?_⟩
        · exact (herr e he).jobs (List.sublist_append_left _ _) (List.Sublist.refl _) fun _ _ _ => rfl
        · obtain ⟨new, rfl, hkept⟩ := hok out hout
          refine ⟨b.blockId :: new, List.append_assoc _ _ _, ?_⟩
          rw [List.append_assoc] at hkept
          exact hkept
      · exact ⟨Frame.refl, fun _ _ => h, fun out hout => (nomatch hout)⟩

theorem endLoad_keys (j : Jobs K) (key : K) :
    (j.endLoad key).loads.map Prod.fst = (j.loads.map Prod.fst).erase key := by
  unfold Jobs.endLoad
  rw [List.erase_eq_eraseP, List.eraseP_map]
  refine congrArg (List.map Prod.fst) (congrArg (List.eraseP · j.loads) (funext fun e => ?_))
  show decide (e.1 = key) = (key == e.1)
  rw [Bool.eq_iff_iff, decide_eq_true_iff, beq_iff_eq]
  exact eq_comm

/-- Loads may be over before their count goes down. -/
theorem Kept.endLoads (h : Kept C Valid m j) (keys : List K) :
    Kept C Valid m (keys.foldl Jobs.endLoad j) := by
  induction keys generalizing j with
  | nil => exact h
  | cons key keys ih =>
    refine ih (h.jobs ?_ (List.Sublist.refl _) fun _ _ _ => rfl)
    exact List.eraseP_sublist

include hC in
theorem Kept.endLoad (h : Kept C Valid m j) (hb : C.get m.policy k = some b)
    (hin : k ∈ j.loads.map Prod.fst) (hpos : 0 < b.refCnt) :
    Kept C Valid (m.updateBlock C k fun b => { b with refCnt := cInt32 (b.refCnt - 1) })
      (j.endLoad k) := by
  have hrest := h.endLoads [k]
  have hold := hrest.held k b hb
  obtain ⟨hcont, -, begun, hbegun, hle, href, hcount⟩ := (h.held k b hb).of_load hin
  refine h.updateBlock hC hb (fun _ => rfl) ⟨fun e he heq => ?_, hold.load, Or.inr ⟨hcont, ?_⟩⟩
    (fun k' b' _ hb' => hrest.held k' b' hb') hrest.absent
  · have hneg := (hold.store e he heq).2
    omega
  · obtain ⟨-, hlt⟩ := (cInt32_pos hle).mp (href ▸ hpos)
    refine ⟨begun - 1, by omega, ?_, ?_⟩
    · show cInt32 (b.refCnt - 1) = _
      rw [href]
      exact cInt32_sub_one hlt hbegun
    · rw [endLoad_keys, List.count_erase_self]
      omega

include hC in
/-- **A load completes**: also where the call raises, its loads are over. -/
theorem completeLoad_kept : ∀ (keys : List K) (m : CPUOffloadingManager K P)
    (j : Jobs K), Kept C Valid m j → keys.Nodup → (∀ k ∈ keys, k ∈ j.loads.map Prod.fst) →
      Frame C S m (m.completeLoad C keys).1 ∧
      Kept C Valid (m.completeLoad C keys).1 (keys.foldl Jobs.endLoad j) := by
  intro keys
  induction keys with
  | nil => intro m j h _ _; exact ⟨Frame.refl, h⟩
  | cons key keys ih =>
    intro m j h hnodup hin
    rw [completeLoad]
    split
    · exact ⟨Frame.refl, h.endLoads (key :: keys)⟩
    · rename_i b hb
      split
      · rename_i hpos
        have hframe : Frame C S m
            (m.updateBlock C key fun b => { b with refCnt := cInt32 (b.refCnt - 1) }) :=
          updateBlock_frame hC h.valid key fun _ => rfl
        have hkept := h.endLoad hC hb (hin key List.mem_cons_self) hpos
        obtain ⟨hf, hk⟩ := ih _ _ hkept (List.nodup_cons.mp hnodup).2 fun k hk => by
          have hne : k ≠ key := fun heq => (List.nodup_cons.mp hnodup).1 (heq ▸ hk)
          rw [endLoad_keys, List.mem_erase_of_ne hne]
          exact hin k (List.mem_cons_of_mem key hk)
        exact ⟨hframe.trans hf, hk⟩
      · exact ⟨Frame.refl, h.endLoads (key :: keys)⟩

/-! ### Stores -/

theorem mem_endStore {success : Bool} {key : K} (hne : k ≠ key) (hin : k ∈ j.stores.map Prod.fst) :
    k ∈ (j.endStore success key).stores.map Prod.fst := by
  obtain ⟨e, he, rfl⟩ := List.mem_map.mp hin
  exact List.mem_map_of_mem (List.mem_filter.mpr ⟨he, decide_eq_true hne⟩)

/-- A key with a pending store holds a block that is not ready. -/
theorem Kept.of_store (h : Kept C Valid m j) (hin : k ∈ j.stores.map Prod.fst) :
    ∃ b, C.get m.policy k = some b ∧ (k, b.blockId) ∈ j.stores ∧ b.refCnt = -1 ∧ ¬ b.isReady = true := by
  obtain ⟨e, he, rfl⟩ := List.mem_map.mp hin
  cases hb : C.get m.policy e.1 with
  | none => exact absurd (List.mem_map_of_mem he) (h.absent e.1 hb).2
  | some b =>
    obtain ⟨hid, href⟩ := (h.held e.1 b hb).store e he rfl
    refine ⟨b, rfl, hid ▸ he, href, fun hr => ?_⟩
    have hge : 0 ≤ b.refCnt := of_decide_eq_true hr
    omega

theorem KeyKept.idle (h : KeyKept j k b) (href : b.refCnt = -1) : (j.loads.map Prod.fst).count k = 0 := by
  obtain ⟨-, hz⟩ | ⟨-, begun, hle, hcnt, -⟩ := h.count
  · exact hz
  · rw [href] at hcnt
    unfold cInt32 at hcnt
    omega

/-- The end of one store, seen from the other keys. -/
theorem KeyKept.endStore {success : Bool} {k' : K} {b' : BlockStatus} (h : KeyKept j k' b')
    (hid : b'.blockId ≠ b.blockId) (hstore : ∀ e ∈ j.stores, e.1 = k → e.2 = b.blockId) :
    KeyKept (j.endStore success k) k' b' := by
  refine ⟨fun e he => h.store e (List.mem_of_mem_filter he), h.load, h.count.imp_right ?_⟩
  intro hready
  obtain ⟨hcont, hrest⟩ := hready
  refine ⟨?_, hrest⟩
  show (if success ∧ (k, b'.blockId) ∈ j.stores then some k else _) = _
  rw [if_neg fun hand => hid (hstore _ hand.2 rfl)]
  exact hcont

include hC in
theorem Kept.storeSucceeds (h : Kept C Valid m j) (hb : C.get m.policy k = some b)
    (href : b.refCnt = -1) (hin : (k, b.blockId) ∈ j.stores) :
    Kept C Valid (m.updateBlock C k fun b => { b with refCnt := 0 }) (j.endStore true k) := by
  have hold := h.held k b hb
  have hzero := hold.idle href
  refine h.updateBlock hC hb (fun _ => rfl) ⟨fun e he heq => ?_, hold.load, Or.inr ⟨?_, 0, ?_⟩⟩
    (fun k' b' hne hb' => ?_) fun k' hk' => ?_
  · exact absurd heq (of_decide_eq_true (List.mem_filter.mp he).2)
  · show (if (true : Bool) = true ∧ (k, b.blockId) ∈ j.stores then some k else _) = _
    rw [if_pos ⟨rfl, hin⟩]
  · exact ⟨Nat.zero_le _, rfl, Nat.le_of_eq hzero⟩
  · exact (h.held k' b' hb').endStore
      (fun heq => hne (h.pool.heldOnce k' k b' b hb' hb heq)) fun e he heq => (hold.store e he heq).1
  · obtain ⟨hl, hs⟩ := h.absent k' hk'
    exact ⟨hl, fun hmem => hs ((List.filter_sublist.map Prod.fst).subset hmem)⟩

include hC in
/-- **A store succeeds.** -/
theorem storeSucceeded_kept : ∀ (keys : List K) (m : CPUOffloadingManager K P)
    (j : Jobs K) (storedKeys : List K), Kept C Valid m j → keys.Nodup →
      (∀ k ∈ keys, k ∈ j.stores.map Prod.fst) →
      Frame C S m (m.storeSucceeded C keys storedKeys).1 ∧
      Kept C Valid (m.storeSucceeded C keys storedKeys).1
        (keys.foldl (Jobs.endStore true) j) := by
  intro keys
  induction keys with
  | nil => intro m j storedKeys h _ _; exact ⟨Frame.refl, h⟩
  | cons key keys ih =>
    intro m j storedKeys h hnodup hin
    obtain ⟨b, hb, hmem, href, hready⟩ := h.of_store (hin key List.mem_cons_self)
    rw [storeSucceeded, hb]
    dsimp only
    rw [if_neg hready]
    have hframe : Frame C S m (m.updateBlock C key fun b => { b with refCnt := 0 }) :=
      updateBlock_frame hC h.valid key fun _ => rfl
    obtain ⟨hf, hk⟩ := ih _ _ (storedKeys ++ [key]) (h.storeSucceeds hC hb href hmem)
      (List.nodup_cons.mp hnodup).2 fun k hk => mem_endStore
        (fun heq => (List.nodup_cons.mp hnodup).1 (heq ▸ hk)) (hin k (List.mem_cons_of_mem key hk))
    exact ⟨hframe.trans hf, hk⟩

theorem Kept.storeFails {policy : P} (h : Kept C Valid m j) (hb : C.get m.policy k = some b)
    (hidle : (j.loads.map Prod.fst).count k = 0) (hvalid : Valid policy)
    (hget : ∀ k', C.get policy k' = if k' = k then none else C.get m.policy k') :
    Kept C Valid ({ m with policy := policy }.freeBlock b) (j.endStore false k) := by
  refine ⟨hvalid, h.pool.release hb hget, fun k' hk' => ?_, fun k' b' hb' => ?_⟩
  · by_cases hk : k' = k
    · subst hk
      refine ⟨fun hin => ?_, fun hin => ?_⟩
      · have hpos := List.count_pos_iff.mpr hin
        have hzero : (j.loads.map Prod.fst).count k' = 0 := hidle
        exact absurd hzero (Nat.pos_iff_ne_zero.mp hpos)
      · obtain ⟨e, he, heq⟩ := List.mem_map.mp hin
        exact absurd heq (of_decide_eq_true (List.mem_filter.mp he).2)
    · have hnone : C.get policy k' = none := hk'
      rw [hget, if_neg hk] at hnone
      obtain ⟨hl, hs⟩ := h.absent k' hnone
      exact ⟨hl, fun hmem => hs ((List.filter_sublist.map Prod.fst).subset hmem)⟩
  · have hsome : C.get policy k' = some b' := hb'
    rw [hget] at hsome
    by_cases hk : k' = k
    · rw [if_pos hk] at hsome
      cases hsome
    · rw [if_neg hk] at hsome
      exact (h.held k' b' hsome).endStore
        (fun heq => hk (h.pool.heldOnce k' k b' b hsome hb heq))
        fun e he heq => ((h.held k b hb).store e he heq).1

include hC in
/-- **A store fails**: its blocks are free again. -/
theorem storeFailed_kept : ∀ (keys : List K) (m : CPUOffloadingManager K P)
    (j : Jobs K), Kept C Valid m j → keys.Nodup → (∀ k ∈ keys, k ∈ j.stores.map Prod.fst) →
      (∀ k ∈ keys, ¬ S k) →
      Frame C S m (m.storeFailed C keys).1 ∧
      Kept C Valid (m.storeFailed C keys).1 (keys.foldl (Jobs.endStore false) j) := by
  intro keys
  induction keys with
  | nil => intro m j h _ _ _; exact ⟨Frame.refl, h⟩
  | cons key keys ih =>
    intro m j h hnodup hin hS
    obtain ⟨b, hb, hmem, href, hready⟩ := h.of_store (hin key List.mem_cons_self)
    obtain ⟨policy, hremove, hvalid, hget⟩ := hC.remove h.valid hb
    rw [storeFailed, hb]
    dsimp only
    rw [if_neg hready, hremove]
    dsimp only
    have hidle := (h.held key b hb).idle href
    have hframe : Frame C S m ({ m with policy := policy }.freeBlock b) := by
      refine ⟨rfl, fun k' b' hk' hb' => ⟨b', ?_, rfl⟩⟩
      show C.get policy k' = some b'
      have hne : k' ≠ key := fun heq => hS key List.mem_cons_self (heq ▸ hk')
      rw [hget, if_neg hne]
      exact hb'
    obtain ⟨hf, hk⟩ := ih _ _ (h.storeFails hb hidle hvalid hget) (List.nodup_cons.mp hnodup).2
      (fun k hk => mem_endStore (fun heq => (List.nodup_cons.mp hnodup).1 (heq ▸ hk))
        (hin k (List.mem_cons_of_mem key hk))) fun k hk => hS k (List.mem_cons_of_mem key hk)
    exact ⟨hframe.trans hf, hk⟩

/-- The invariant reads the policy and the pool only. -/
theorem Kept.of_eq (h : Kept C Valid m j) (hpolicy : m'.policy = m.policy)
    (halloc : m'.numAllocatedBlocks = m.numAllocatedBlocks) (hfree : m'.freeList = m.freeList) :
    Kept C Valid m' j := by
  refine ⟨hpolicy ▸ h.valid, ?_, fun k hk => h.absent k (hpolicy ▸ hk),
    fun k b hb => h.held k b (hpolicy ▸ hb)⟩
  rw [halloc, hfree, hpolicy]
  exact h.pool

theorem recordEvent_eq (m : CPUOffloadingManager K P) (keys : List K) (removed : Bool) :
    (m.recordEvent keys removed).policy = m.policy ∧
      (m.recordEvent keys removed).numAllocatedBlocks = m.numAllocatedBlocks ∧
      (m.recordEvent keys removed).freeList = m.freeList ∧
      (m.recordEvent keys removed).numBlocks = m.numBlocks := by
  unfold recordEvent
  split
  · exact ⟨rfl, rfl, rfl, rfl⟩
  · exact ⟨rfl, rfl, rfl, rfl⟩

theorem foldl_freeBlock (evicted : List (K × BlockStatus)) (m : CPUOffloadingManager K P) :
    evicted.foldl (fun m e => m.freeBlock e.2) m
      = { m with freeList := m.freeList ++ evicted.map fun e => e.2.blockId } := by
  induction evicted generalizing m with
  | nil => rw [List.foldl_nil, List.map_nil, List.append_nil]
  | cons e evicted ih =>
    rw [List.foldl_cons, ih, List.map_cons]
    show ({ m with freeList := (m.freeList ++ [e.2.blockId]) ++ _ } : CPUOffloadingManager K P) = _
    rw [List.append_assoc]
    rfl

/-- Some keys give their blocks back. -/
theorem PoolKept.releaseAll (evicted : List (K × BlockStatus)) :
    ∀ {free : List Nat} {get get' : K → Option BlockStatus}, PoolKept n free get →
      (evicted.map Prod.fst).Nodup → (∀ k b, (k, b) ∈ evicted → get k = some b) →
      (∀ k, get' k = if k ∈ evicted.map Prod.fst then none else get k) →
      PoolKept n (free ++ evicted.map fun e => e.2.blockId) get' := by
  induction evicted with
  | nil =>
    intro free get get' h _ _ hget
    rw [List.map_nil, List.append_nil]
    exact h.congr hget
  | cons e evicted ih =>
    intro free get get' h hnodup hhas hget
    rw [List.map_cons, List.nodup_cons] at hnodup
    have hfirst : PoolKept n (free ++ [e.2.blockId]) (fun k => if k = e.1 then none else get k) :=
      h.release (hhas e.1 e.2 List.mem_cons_self) fun k => rfl
    have hrest : PoolKept n _ get' := ih hfirst hnodup.2 (fun k b hb => ?_) fun k => ?_
    · rw [List.append_assoc] at hrest
      exact hrest
    · show (if k = e.1 then none else get k) = some b
      have hne : k ≠ e.1 := fun heq => hnodup.1 (heq ▸ List.mem_map_of_mem hb)
      rw [if_neg hne]
      exact hhas k b (List.mem_cons_of_mem e hb)
    · rw [hget, List.map_cons]
      by_cases hk : k ∈ evicted.map Prod.fst
      · rw [if_pos hk, if_pos (List.mem_cons_of_mem _ hk)]
      · rw [if_neg hk]
        by_cases he : k = e.1
        · rw [if_pos (he ▸ List.mem_cons_self)]
          exact (if_pos he).symm
        · rw [if_neg fun hmem => (List.mem_cons.mp hmem).elim he hk]
          exact (if_neg he).symm

include hC in
/-- Eviction takes idle blocks of other keys only. -/
theorem makeRoom_kept {keysToStore keys toEvict : List K} (h : Kept C Valid m j)
    (hroom : m.makeRoom C keysToStore keys = some (m', toEvict)) :
    Kept C Valid m' j ∧ m'.numBlocks = m.numBlocks ∧
      (∀ k ∈ toEvict, ∃ b, C.get m.policy k = some b ∧ b.refCnt = 0 ∧ k ∉ keys) ∧
      ∀ k, C.get m'.policy k = if k ∈ toEvict then none else C.get m.policy k := by
  unfold makeRoom at hroom
  dsimp only at hroom
  split at hroom
  · split at hroom
    · cases hroom
    · rename_i policy evicted hevict
      obtain ⟨rfl, rfl⟩ := Prod.mk.inj (Option.some.inj hroom)
      obtain ⟨hvalid, -, hnodup, hidle, hget⟩ := hC.evict h.valid hevict
      rw [foldl_freeBlock]
      have hevicted : ∀ k ∈ evicted.map Prod.fst,
          ∃ b, C.get m.policy k = some b ∧ b.refCnt = 0 ∧ k ∉ keys := by
        intro k hk
        obtain ⟨e, he, rfl⟩ := List.mem_map.mp hk
        exact ⟨e.2, hidle e.1 e.2 he⟩
      refine ⟨⟨hvalid, ?_, fun k hk => ?_, fun k b hb => ?_⟩, rfl, hevicted, hget⟩
      · exact h.pool.releaseAll evicted hnodup (fun k b hb => (hidle k b hb).1) hget
      · have hnone : C.get policy k = none := hk
        rw [hget] at hnone
        split at hnone
        · rename_i hin
          obtain ⟨b, hb, hzero, -⟩ := hevicted k hin
          exact (h.held k b hb).of_idle hzero
        · exact h.absent k hnone
      · have hsome : C.get policy k = some b := hb
        rw [hget] at hsome
        split at hsome
        · cases hsome
        · exact h.held k b hsome
  · obtain ⟨rfl, rfl⟩ := Prod.mk.inj (Option.some.inj hroom)
    exact ⟨h, rfl, fun k hk => (nomatch hk), fun k => rfl⟩

include hC in
theorem insertBlocks_spec (es : List (K × BlockStatus)) : ∀ {p : P}, Valid p →
    (es.map Prod.fst).Nodup → (∀ k ∈ es.map Prod.fst, C.get p k = none) →
    Valid (es.foldl (fun p e => C.insert p e.1 e.2) p) ∧
      (∀ k b, (k, b) ∈ es → C.get (es.foldl (fun p e => C.insert p e.1 e.2) p) k = some b) ∧
      ∀ k, k ∉ es.map Prod.fst →
        C.get (es.foldl (fun p e => C.insert p e.1 e.2) p) k = C.get p k := by
  induction es with
  | nil => intro p hp _ _; exact ⟨hp, fun k b hb => (nomatch hb), fun k _ => rfl⟩
  | cons e es ih =>
    intro p hp hnodup hnone
    rw [List.map_cons, List.nodup_cons] at hnodup
    obtain ⟨hvalid, hget⟩ := hC.insert e.2 hp (hnone e.1 List.mem_cons_self)
    have hne : ∀ k ∈ es.map Prod.fst, k ≠ e.1 := fun k hk heq => hnodup.1 (heq ▸ hk)
    obtain ⟨hvalid', hnew, hold⟩ := ih hvalid hnodup.2 fun k hk => by
      rw [hget, if_neg (hne k hk)]
      exact hnone k (List.mem_cons_of_mem _ hk)
    rw [List.foldl_cons]
    refine ⟨hvalid', fun k b hb => ?_, fun k hk => ?_⟩
    · obtain rfl | hin := List.mem_cons.mp hb
      · rw [hold k hnodup.1, hget, if_pos rfl]
      · exact hnew k b hin
    · rw [List.map_cons, List.mem_cons, not_or] at hk
      rw [hold k hk.2, hget, if_neg hk.1]

include hC in
/-- New keys take slots: their stores are pending. -/
theorem Kept.claim {m'' : CPUOffloadingManager K P} {keys : List K} {blocks : List BlockStatus}
    (h : Kept C Valid m j) (hkeys : keys.Nodup) (hnone : ∀ k ∈ keys, C.get m.policy k = none)
    (halloc : m.allocateBlocks keys = .ok (m'', blocks)) :
    Kept C Valid (m''.insertBlocks C (keys.zip blocks))
      (j.beginStores keys (blocks.map BlockStatus.blockId)) ∧
    m''.numBlocks = m.numBlocks ∧
    ∀ k b, C.get m.policy k = some b → C.get (m''.insertBlocks C (keys.zip blocks)).policy k
      = some b := by
  obtain ⟨ids, rfl, hlen, hids, hpolicy, hnum, hle, hsub, hlt, hout, hwas, hall⟩ :=
    allocateBlocks_spec h.pool.freeNodup h.pool.freeLt halloc
  have hmapids : (ids.map BlockStatus.new).map BlockStatus.blockId = ids := by
    rw [List.map_map]
    exact List.map_id _
  have hfst : (keys.zip (ids.map BlockStatus.new)).map Prod.fst = keys :=
    List.map_fst_zip (by rw [List.length_map]; omega)
  obtain ⟨hvalid, hnew, hold⟩ := insertBlocks_spec hC (keys.zip (ids.map BlockStatus.new)) h.valid
    (by rw [hfst]; exact hkeys) (by rw [hfst]; exact hnone)
  rw [hfst] at hold
  rw [← hpolicy] at hvalid hnew hold
  have hkeep : ∀ k b, C.get m.policy k = some b →
      C.get (m''.insertBlocks C (keys.zip (ids.map BlockStatus.new))).policy k = some b := by
    intro k b hb
    have hk : k ∉ keys := fun hk => by
      rw [hnone k hk] at hb
      cases hb
    show C.get (List.foldl _ m''.policy _) k = _
    rw [hold k hk, hpolicy]
    exact hb
  have hpool : PoolKept m''.numAllocatedBlocks m''.freeList
      (C.get (m''.insertBlocks C (keys.zip (ids.map BlockStatus.new))).policy) :=
    h.pool.claim hle hsub hlen hids hnone hlt hout hwas hall hnew fun k hk => by
      rw [← hpolicy]
      exact hold k hk
  refine ⟨⟨hvalid, hpool, fun k hk => ?_, fun k b hb => ?_⟩, hnum, hkeep⟩
  · have hk : C.get (List.foldl _ m''.policy _) k = none := hk
    by_cases hmem : k ∈ keys
    · obtain ⟨i, hi, rfl⟩ := List.getElem_of_mem hmem
      rw [hnew _ _ (mem_zip_new hi (by omega))] at hk
      cases hk
    · rw [hold k hmem, hpolicy] at hk
      obtain ⟨hl, hs⟩ := h.absent k hk
      refine ⟨hl, fun hin => ?_⟩
      obtain ⟨e, he, rfl⟩ := List.mem_map.mp hin
      obtain hin | hnew := List.mem_append.mp he
      · exact hs (List.mem_map_of_mem hin)
      · exact hmem (List.of_mem_zip hnew).1
  · have hb : C.get (List.foldl _ m''.policy _) k = some b := hb
    by_cases hmem : k ∈ keys
    · -- a new block: its store is the only transfer of the key
      obtain ⟨i, hi, rfl⟩ := List.getElem_of_mem hmem
      rw [hnew _ _ (mem_zip_new hi (by omega))] at hb
      obtain rfl := Option.some.inj hb
      obtain ⟨hl, hs⟩ := h.absent _ (hnone _ hmem)
      refine ⟨fun e he heq => ⟨?_, rfl⟩, fun e he heq => ?_, Or.inl ⟨rfl, ?_⟩⟩
      · obtain hin | hzip := List.mem_append.mp he
        · exact absurd (heq ▸ List.mem_map_of_mem hin) hs
        · rw [hmapids] at hzip
          obtain ⟨i', hi', rfl⟩ := List.mem_iff_getElem.mp hzip
          rw [List.getElem_zip] at heq ⊢
          have hii := (List.Nodup.getElem_inj_iff hkeys).mp heq
          subst hii
          rfl
      · exact absurd (heq ▸ List.mem_map_of_mem he) hl
      · exact List.count_eq_zero_of_not_mem hl
    · rw [hold k hmem, hpolicy] at hb
      have hkey := h.held k b hb
      refine ⟨fun e he heq => ?_, hkey.load, hkey.count.imp_right fun hready => ⟨?_, hready.2⟩⟩
      · obtain hin | hzip := List.mem_append.mp he
        · exact hkey.store e hin heq
        · exact absurd (heq ▸ (List.of_mem_zip hzip).1) hmem
      · show (if b.blockId ∈ (ids.map BlockStatus.new).map BlockStatus.blockId then .none
          else j.contents b.blockId) = some k
        rw [hmapids, if_neg]
        · exact hready.1
        · intro hin
          obtain hfree | hge := hwas _ hin
          · exact h.pool.heldFree k b hb hfree
          · have hlt := h.pool.heldLt k b hb
            omega

include hC in
/-- **A store begins**, is refused, or has nothing to do. -/
theorem prepareStore_kept (keys : List K) (h : Kept C Valid m j) (hkeys : keys.Nodup) :
    Frame C (fun k => ∀ b, C.get m.policy k = some b → b.refCnt ≠ 0) m (m.prepareStore C keys).1 ∧
    (∀ e, (m.prepareStore C keys).2 = .error e → Kept C Valid (m.prepareStore C keys).1 j) ∧
    ((m.prepareStore C keys).2 = .ok none → (m.prepareStore C keys).1 = m) ∧
    ∀ out, (m.prepareStore C keys).2 = .ok (some out) →
      Kept C Valid (m.prepareStore C keys).1 (j.beginStores out.keysToStore out.storeSpec) ∧
      ∀ k ∈ out.evictedKeys, ∃ b, C.get m.policy k = some b ∧ b.refCnt = 0 ∧ k ∉ keys := by
  unfold prepareStore
  dsimp only
  split
  · refine ⟨Frame.refl, fun e he => (nomatch he), fun hn => (nomatch hn), fun out hout => ?_⟩
    obtain rfl := Option.some.inj (Except.ok.inj hout)
    refine ⟨h.jobs (List.Sublist.refl _) ?_ fun k b _ => rfl, fun k hk => (nomatch hk)⟩
    show List.Sublist (j.stores ++ []) j.stores
    rw [List.append_nil]
  · split
    · exact ⟨Frame.refl, fun e he => (nomatch he), fun _ => rfl, fun out hout => (nomatch hout)⟩
    · rename_i m₁ toEvict hroom
      obtain ⟨hkept₁, hnum₁, hidle, hget₁⟩ := makeRoom_kept hC h hroom
      obtain ⟨hpolicy, halloc, hfree, hnum₂⟩ := recordEvent_eq m₁ toEvict true
      have hkept₂ : Kept C Valid (m₁.recordEvent toEvict true) j :=
        hkept₁.of_eq hpolicy halloc hfree
      have hnone : ∀ k ∈ keys.filter fun k => (C.get m.policy k).isNone,
          C.get (m₁.recordEvent toEvict true).policy k = none := by
        intro k hk
        rw [hpolicy, hget₁]
        split
        · rfl
        · exact Option.isNone_iff_eq_none.mp (List.mem_filter.mp hk).2
      have hbusy : ∀ k b, (∀ b, C.get m.policy k = some b → b.refCnt ≠ 0) →
          C.get m.policy k = some b → C.get (m₁.recordEvent toEvict true).policy k = some b := by
        intro k b hS hb
        have hk : k ∉ toEvict := fun hk => by
          obtain ⟨b', hb', hzero, -⟩ := hidle k hk
          exact hS b' hb' hzero
        rw [hpolicy, hget₁, if_neg hk]
        exact hb
      split
      · refine ⟨⟨hnum₂.trans hnum₁, fun k b hS hb => ⟨b, hbusy k b hS hb, rfl⟩⟩,
          fun e he => hkept₂, fun hn => (nomatch hn), fun out hout => (nomatch hout)⟩
      · rename_i m₃ blocks hblocks
        obtain ⟨hkept₃, hnum₃, hkeep⟩ := hkept₂.claim hC (hkeys.filter _) hnone hblocks
        split
        · refine ⟨⟨hnum₃.trans (hnum₂.trans hnum₁), fun k b hS hb =>
            ⟨b, hkeep k b (hbusy k b hS hb), rfl⟩⟩, fun e he => (nomatch he), fun hn => (nomatch hn),
            fun out hout => ?_⟩
          obtain rfl := Option.some.inj (Except.ok.inj hout)
          exact ⟨hkept₃, hidle⟩
        · -- the pool always hands out as many blocks as keys
          rename_i hlen
          obtain ⟨ids, rfl, hids, -⟩ :=
            allocateBlocks_spec hkept₂.pool.freeNodup hkept₂.pool.freeLt hblocks
          rw [List.length_map] at hlen
          exact absurd hids hlen

include hC in
/-- **One call** keeps the invariant. -/
theorem Kept.call (c : Call K) (h : Kept C Valid m j) (hallows : j.Allows c) :
    Kept C Valid (m.call C c).1 (j.after c (m.call C c).2) := by
  cases c with
  | lookup key => exact h
  | prepareLoad keys =>
    obtain ⟨-, herr, hok⟩ := prepareLoad_kept hC (S := fun _ => True) keys m j [] h
    unfold CPUOffloadingManager.call
    dsimp only [Prod.map, id]
    cases hr : (m.prepareLoad C keys []).2 with
    | error e => exact herr e hr
    | ok out =>
      obtain ⟨new, rfl, hkept⟩ := hok out hr
      exact hkept
  | completeLoad keys =>
    obtain ⟨-, hkept⟩ := completeLoad_kept hC (S := fun _ => True) keys m j h hallows.1 hallows.2
    exact hkept
  | prepareStore keys =>
    obtain ⟨-, herr, hrefused, hok⟩ := prepareStore_kept hC keys h hallows
    unfold CPUOffloadingManager.call
    dsimp only [Prod.map, id]
    cases hr : (m.prepareStore C keys).2 with
    | error e => exact herr e hr
    | ok out =>
      cases out with
      | none =>
        rw [hrefused hr]
        exact h
      | some out => exact (hok out hr).1
  | completeStore keys success =>
    unfold CPUOffloadingManager.call completeStore
    cases success with
    | true =>
      obtain ⟨-, hkept⟩ := storeSucceeded_kept hC (S := fun _ => True) keys m j [] h hallows.1
        hallows.2
      obtain ⟨hpolicy, halloc, hfree, -⟩ := recordEvent_eq (m.storeSucceeded C keys []).1
        (m.storeSucceeded C keys []).2 false
      exact hkept.of_eq hpolicy halloc hfree
    | false =>
      obtain ⟨-, hkept⟩ := storeFailed_kept hC (S := fun _ => False) keys m j h hallows.1
        hallows.2 fun _ _ => id
      exact hkept
  | touch keys =>
    obtain ⟨hvalid, hget⟩ := hC.touch keys h.valid
    refine ⟨hvalid, h.pool.congr hget, fun k hk => h.absent k ?_, fun k b hb => h.held k b ?_⟩
    · rw [← hget]; exact hk
    · rw [← hget]; exact hb
  | takeEvents => exact h.of_eq rfl rfl rfl

include hC in
/-- **One call** leaves the slots of busy keys alone, unless it reports that
their store failed. -/
theorem Kept.call_frame (c : Call K) (h : Kept C Valid m j) (hallows : j.Allows c) :
    Frame C (fun k => (∀ b, C.get m.policy k = some b → b.refCnt ≠ 0) ∧
      ∀ keys, c = .completeStore keys false → k ∉ keys) m (m.call C c).1 := by
  cases c with
  | lookup key => exact Frame.refl
  | prepareLoad keys => exact (prepareLoad_kept hC keys m j [] h).1
  | completeLoad keys => exact (completeLoad_kept hC keys m j h hallows.1 hallows.2).1
  | prepareStore keys =>
    obtain ⟨hnum, hstays⟩ := (prepareStore_kept hC keys h hallows).1
    exact ⟨hnum, fun k b hS hb => hstays k b hS.1 hb⟩
  | completeStore keys success =>
    unfold CPUOffloadingManager.call completeStore
    cases success with
    | true =>
      obtain ⟨hnum, hstays⟩ := (storeSucceeded_kept hC keys m j [] h hallows.1 hallows.2).1
      obtain ⟨hpolicy, -, -, hnum'⟩ := recordEvent_eq (m.storeSucceeded C keys []).1
        (m.storeSucceeded C keys []).2 false
      refine ⟨hnum'.trans hnum, fun k b hS hb => ?_⟩
      show ∃ b', C.get ((m.storeSucceeded C keys []).1.recordEvent
        (m.storeSucceeded C keys []).2 false).policy k = some b' ∧ b'.blockId = b.blockId
      rw [hpolicy]
      exact hstays k b hS hb
    | false =>
      exact (storeFailed_kept hC keys m j h hallows.1 hallows.2 fun k hk hS => hS.2 keys rfl hk).1
  | touch keys =>
    obtain ⟨-, hget⟩ := hC.touch keys h.valid
    exact ⟨rfl, fun k b _ hb => ⟨b, (hget k).trans hb, rfl⟩⟩
  | takeEvents => exact ⟨rfl, fun k b _ hb => ⟨b, hb, rfl⟩⟩

include hC in
/-- **Every sequence of calls** keeps the invariant. -/
theorem Reached.kept {numBlocks : Nat} {policy : P} (hvalid : Valid policy)
    (hempty : ∀ k, C.get policy k = none) (h : Reached C numBlocks policy m j) :
    Kept C Valid m j ∧ m.numBlocks = numBlocks := by
  induction h with
  | init enableEvents =>
    have hnone : ∀ k b, ¬ C.get policy k = some b := fun k b hb => by
      rw [hempty] at hb
      cases hb
    exact ⟨⟨hvalid, ⟨List.nodup_nil, fun id hid => (nomatch hid), fun k b hb => absurd hb (hnone k b),
      fun k b hb => absurd hb (hnone k b), fun k k' b b' hb => absurd hb (hnone k b),
      fun id hid => absurd hid (Nat.not_lt_zero id)⟩,
      fun k _ => ⟨List.not_mem_nil, List.not_mem_nil⟩, fun k b hb => absurd hb (hnone k b)⟩, rfl⟩
  | call c _ hallows ih =>
    exact ⟨ih.1.call hC c hallows, (ih.1.call_frame hC c hallows).numBlocks.trans ih.2⟩

end Calls

/-! ## What a caller may rely on -/

/-- The slot is in the free list or was not handed out yet. -/
def Free (m : CPUOffloadingManager K P) (id : Nat) : Prop :=
  id ∈ m.freeList ∨ m.numAllocatedBlocks ≤ id

/-- The blocks are conserved, and pending transfers keep theirs. -/
structure OffloadSafe (C : CachePolicy K P) (numBlocks : Nat) (m : CPUOffloadingManager K P)
    (j : Jobs K) : Prop where
  /-- Each block is free, once, or held by exactly one key. -/
  conserved : ∀ id < numBlocks,
    (m.Free id ∧ ¬ ∃ k b, C.get m.policy k = some b ∧ b.blockId = id) ∨
      (¬ m.Free id ∧ ∃! k, ∃ b, C.get m.policy k = some b ∧ b.blockId = id)
  freeOnce : m.freeList.Nodup ∧ ∀ id ∈ m.freeList, id < m.numAllocatedBlocks
  inRange : ∀ k b, C.get m.policy k = some b → b.blockId < numBlocks
  /-- A key that is being loaded or stored holds the block of its transfer, and
  its reader count is not zero. -/
  loading : ∀ k id, (k, id) ∈ j.loads → j.contents id = some k ∧
    ∃ b, C.get m.policy k = some b ∧ b.blockId = id ∧ b.refCnt ≠ 0
  storing : ∀ k id, (k, id) ∈ j.stores →
    ∃ b, C.get m.policy k = some b ∧ b.blockId = id ∧ b.refCnt ≠ 0 ∧ b.isReady = false
  /-- A hit is backed by a block whose store completed successfully. -/
  hit : ∀ k, m.lookup C k = true →
    ∃ b, C.get m.policy k = some b ∧ j.contents b.blockId = some k
  /-- No call takes the block of a key with a reader count that is not zero,
  apart from the report that its own store failed. -/
  keeps : ∀ c : Call K, j.Allows c → ∀ k b, C.get m.policy k = some b → b.refCnt ≠ 0 →
    (∀ keys, c = .completeStore keys false → k ∉ keys) →
    ∃ b', C.get (m.call C c).1.policy k = some b' ∧ b'.blockId = b.blockId
  evicted : ∀ keys out, keys.Nodup → (m.prepareStore C keys).2 = .ok (some out) →
    ∀ k ∈ out.evictedKeys, ∃ b, C.get m.policy k = some b ∧ b.refCnt = 0
  /-- A refused store changes nothing. -/
  refused : ∀ keys, keys.Nodup → (m.prepareStore C keys).2 = .ok none →
    (m.prepareStore C keys).1 = m

theorem Kept.safe {numBlocks : Nat} {m : CPUOffloadingManager K P} {j : Jobs K}
    (hC : C.Lawful Valid) (h : Kept C Valid m j) (hnum : m.numBlocks = numBlocks) :
    OffloadSafe C numBlocks m j := by
  have hpool := h.pool
  refine ⟨fun id hid => ?_, ⟨hpool.freeNodup, hpool.freeLt⟩, fun k b hb => ?_, fun k id hin => ?_,
    fun k id hin => ?_, fun k hhit => ?_, fun c hallows k b hb hbusy hfail => ?_,
    fun keys out hkeys hout k hk => ?_, fun keys hkeys hnone => ?_⟩
  · by_cases hfree : m.Free id
    · refine Or.inl ⟨hfree, fun hheld => ?_⟩
      obtain ⟨k, b, hb, rfl⟩ := hheld
      obtain hin | hge := hfree
      · exact hpool.heldFree k b hb hin
      · exact absurd (hpool.heldLt k b hb) (Nat.not_lt.mpr hge)
    · obtain ⟨hin, hge⟩ := not_or.mp hfree
      obtain ⟨k, b, hb, hbid⟩ := (hpool.covered id (Nat.not_le.mp hge)).resolve_left hin
      refine Or.inr ⟨hfree, k, ⟨b, hb, hbid⟩, fun k' hk' => ?_⟩
      obtain ⟨b', hb', hbid'⟩ := hk'
      exact hpool.heldOnce k' k b' b hb' hb (hbid'.trans hbid.symm)
  · have hle := m.allocated_le
    have hlt := hpool.heldLt k b hb
    omega
  · have hmem : k ∈ j.loads.map Prod.fst := List.mem_map_of_mem hin
    cases hb : C.get m.policy k with
    | none => exact absurd hmem (h.absent k hb).1
    | some b =>
      have hkey := h.held k b hb
      obtain ⟨hcont, hbusy, -⟩ := hkey.of_load hmem
      have hid : id = b.blockId := hkey.load (k, id) hin rfl
      exact ⟨hid ▸ hcont, b, rfl, hid.symm, hbusy⟩
  · obtain ⟨b, hb, -, href, -⟩ := h.of_store (List.mem_map_of_mem hin)
    have hid : id = b.blockId := ((h.held k b hb).store (k, id) hin rfl).1
    refine ⟨b, hb, hid.symm, by omega, ?_⟩
    exact decide_eq_false (by omega)
  · unfold lookup at hhit
    split at hhit
    · rename_i b hb
      exact ⟨b, hb, ((h.held k b hb).of_ready hhit).1⟩
    · cases hhit
  · refine (h.call_frame hC c hallows).stays k b ⟨fun b' hb' => ?_, hfail⟩ hb
    obtain rfl := Option.some.inj (hb.symm.trans hb')
    exact hbusy
  · obtain ⟨b, hb, hzero, -⟩ := ((prepareStore_kept hC keys h hkeys).2.2.2 out hout).2 k hk
    exact ⟨b, hb, hzero⟩
  · exact (prepareStore_kept hC keys h hkeys).2.2.1 hnone

/-- **Conservation.** Whatever calls were made, under both policies. -/
theorem offload_safe_run (numBlocks : Nat) {F : Type} [PyFloat F] :
    (∀ (m : CPUOffloadingManager K (LRUCachePolicy K)) (j : Jobs K),
      Reached lruPolicy numBlocks LRUCachePolicy.init m j → OffloadSafe lruPolicy numBlocks m j) ∧
    ∀ (m : CPUOffloadingManager K (ARCCachePolicy K F)) (j : Jobs K),
      Reached arcPolicy numBlocks (ARCCachePolicy.init numBlocks) m j →
      OffloadSafe arcPolicy numBlocks m j := by
  constructor
  · intro m j h
    obtain ⟨hkept, hnum⟩ := h.kept lruPolicy_lawful trivial fun k => rfl
    exact hkept.safe lruPolicy_lawful hnum
  · intro m j h
    obtain ⟨hkept, hnum⟩ := h.kept arcPolicy_lawful (fun k => Or.inl rfl) fun k => rfl
    exact hkept.safe arcPolicy_lawful hnum

/-! ### Calls on two blocks -/

/-- Calls in order, while each is allowed. -/
def runCalls (C : CachePolicy K P) (m : CPUOffloadingManager K P) (j : Jobs K) :
    List (Call K) → Option (CPUOffloadingManager K P × Jobs K)
  | [] => some (m, j)
  | c :: cs =>
    if j.Allows c then runCalls C (m.call C c).1 (j.after c (m.call C c).2) cs else none

theorem reached_runCalls {numBlocks : Nat} {policy : P} {m m' : CPUOffloadingManager K P}
    {j j' : Jobs K} {cs : List (Call K)} (h : Reached C numBlocks policy m j)
    (hrun : runCalls C m j cs = some (m', j')) : Reached C numBlocks policy m' j' := by
  induction cs generalizing m j with
  | nil =>
    obtain ⟨rfl, rfl⟩ := Prod.mk.inj (Option.some.inj hrun)
    exact h
  | cons c cs ih =>
    rw [runCalls] at hrun
    split at hrun
    · rename_i hallows
      exact ih (h.call c hallows) hrun
    · cases hrun

/-- One store succeeds and one fails; a key is loaded while two more stores are
asked for, of which one fits. -/
def twoBlockCalls : List (Call Nat) :=
  [.prepareStore [1, 2], .completeStore [1] true, .completeStore [2] false, .prepareLoad [1],
    .prepareStore [3, 4], .prepareStore [3], .touch [1, 3]]

theorem twoBlocks_safe :
    (∃ m j, runCalls lruPolicy (init 2 LRUCachePolicy.init true) Jobs.none twoBlockCalls
        = some (m, j) ∧ m.lookup lruPolicy 1 = true ∧ OffloadSafe lruPolicy 2 m j) ∧
      ∃ m j, runCalls arcPolicy (init 2 (ARCCachePolicy.init 2) true) Jobs.none twoBlockCalls
        = some (m, j) ∧ m.lookup (arcPolicy (F := ℚ)) 1 = true ∧ OffloadSafe arcPolicy 2 m j := by
  have hlru : (runCalls lruPolicy (init 2 LRUCachePolicy.init true) Jobs.none
      twoBlockCalls).any (fun s => s.1.lookup lruPolicy 1) = true := by decide
  have harc : (runCalls (arcPolicy (F := ℚ)) (init 2 (ARCCachePolicy.init 2) true) Jobs.none
      twoBlockCalls).any (fun s => s.1.lookup (arcPolicy (F := ℚ)) 1) = true := by decide +kernel
  obtain ⟨hsafe, hsafe'⟩ := offload_safe_run (K := Nat) 2 (F := ℚ)
  constructor
  · obtain ⟨⟨m, j⟩, hrun, hhit⟩ := (Option.any_eq_true _ _).mp hlru
    exact ⟨m, j, hrun, hhit, hsafe m j (reached_runCalls (Reached.init true) hrun)⟩
  · obtain ⟨⟨m, j⟩, hrun, hhit⟩ := (Option.any_eq_true _ _).mp harc
    exact ⟨m, j, hrun, hhit, hsafe' m j (reached_runCalls (Reached.init true) hrun)⟩

end CPUOffloadingManager

end VllmEngine
