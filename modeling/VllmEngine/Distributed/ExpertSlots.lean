import VllmEngine.Distributed.ExpertReplicas

/-!
# Experts that stay on their GPU keep their slots

`preserve_intragpu_slots`: on every GPU the new experts are put in another order, in two
passes. The first gives each old slot whose expert is among the new ones of the GPU one of
them; the second fills the slots that are left with the experts that are left. The masks are
those of the source, one row for each layer.

The ghost of the first pass is the pairing of old slots with new ones (`FirstPass`). It is
greedy, so that no order keeps more slots:

> `preserveIntragpuSlots_keeps`: in every layer and on every GPU the new experts are permuted,
> and as many slots as possible keep their expert.
-/

namespace VllmEngine.Distributed.Eplb

open Numpy Pairing

/-- One layer while the slots of a GPU are assigned. -/
structure LayerSlots where
  usedNewIndices : List Bool
  preservedPositions : List Bool
  postPhy2log : List Int
deriving Repr

/-- The row of `matches` of a layer: new experts equal to the old one, not used yet. -/
def matchesOf (newLocal : List Int) (expert : Int) (usedNewIndices : List Bool) : List Bool :=
  newLocal.zipWith (fun x used => decide (x = expert) && !used) usedNewIndices

/-- The first pass at one slot: a layer with any match takes the first. -/
def preserveSlot (start : Nat) (oldLocal newLocal : List Int) (layer : LayerSlots)
    (slotIdx : Nat) : LayerSlots :=
  let found := matchesOf newLocal (oldLocal.getD slotIdx 0) layer.usedNewIndices
  if found.any id then
    let firstIdx := argmax found
    { postPhy2log := layer.postPhy2log.set (start + slotIdx) (newLocal.getD firstIdx 0)
      usedNewIndices := layer.usedNewIndices.set firstIdx true
      preservedPositions := layer.preservedPositions.set slotIdx true }
  else layer

/-- The first pass over the slots of a GPU. -/
def preserveSlots (slotsPerGpu start : Nat) (oldLocal newLocal postPhy2log : List Int) :
    LayerSlots :=
  (arange slotsPerGpu).foldl (preserveSlot start oldLocal newLocal)
    ⟨List.replicate slotsPerGpu false, List.replicate slotsPerGpu false, postPhy2log⟩

def LayerSlots.remainingMask (layer : LayerSlots) : List Bool := layer.usedNewIndices.map not

def LayerSlots.fillMask (layer : LayerSlots) : List Bool := layer.preservedPositions.map not

/-- The second pass: the remaining new experts to the remaining slots, both in order. -/
def fillSlots (argsort : List Nat → List Nat) (slotsPerGpu start : Nat) (newLocal : List Int)
    (layer : LayerSlots) : List Int :=
  -- a sentinel value for unavailable positions
  let large := slotsPerGpu + 1
  let remainingIndices := argsort (maskedIndices large layer.remainingMask)
  let fillIndices := argsort (maskedIndices large layer.fillMask)
  let k := min (layer.remainingMask.count true) (layer.fillMask.count true)
  indexAssign layer.postPhy2log ((fillIndices.take k).map (start + ·))
    ((remainingIndices.take k).map fun i => newLocal.getD i 0)

/-- The slots of a GPU in a row. -/
def gpuSlots {α : Type} (slotsPerGpu gpuIdx : Nat) (row : List α) : List α :=
  (row.drop (gpuIdx * slotsPerGpu)).take slotsPerGpu

/-- One round of the loop over the GPUs, on all layers. -/
def rearrangeGpu (argsort : List Nat → List Nat) (slotsPerGpu : Nat)
    (phy2log oldPhy2log postPhy2log : List (List Int)) (gpuIdx : Nat) : List (List Int) :=
  let start := gpuIdx * slotsPerGpu
  let localExperts := (phy2log.zip oldPhy2log).map fun rows =>
    (gpuSlots slotsPerGpu gpuIdx rows.1, gpuSlots slotsPerGpu gpuIdx rows.2)
  let layers := localExperts.zipWith
    (fun rows post => (rows.1, preserveSlots slotsPerGpu start rows.2 rows.1 post)) postPhy2log
  if (layers.any fun l => l.2.remainingMask.any id) && (layers.any fun l => l.2.fillMask.any id)
  then layers.map fun l => fillSlots argsort slotsPerGpu start l.1 l.2
  else layers.map fun l => l.2.postPhy2log

/-- `preserve_intragpu_slots`. -/
def preserveIntragpuSlots (argsort : List Nat → List Nat) (phy2log : List (List Int))
    (numRanks : Nat) (oldPhy2log : List (List Int)) : List (List Int) :=
  let numPhyExperts := (phy2log.headD []).length
  if numRanks = 0 ∨ numPhyExperts % numRanks ≠ 0 then phy2log
  else (List.range numRanks).foldl
    (rearrangeGpu argsort (numPhyExperts / numRanks) phy2log oldPhy2log) phy2log

/-! ## The first pass -/

section FirstPass

variable {start bound : Nat} {oldLocal newLocal post : List Int} {pairs : List (Nat × Nat)}
  {layer : LayerSlots}

/-- The row after the experts of the pairs were put in their slots. -/
def assignPairs (start : Nat) (newLocal post : List Int) (pairs : List (Nat × Nat)) : List Int :=
  indexAssign post (pairs.map fun e => start + e.1) (pairs.map fun e => newLocal.getD e.2 0)

/-- The slots before a bound have been visited; the pairs are what was put where. -/
structure FirstPass (start bound : Nat) (oldLocal newLocal post : List Int)
    (pairs : List (Nat × Nat)) (layer : LayerSlots) : Prop where
  greedy : Greedy oldLocal newLocal bound pairs
  visited : ∀ e ∈ pairs, e.1 < bound
  used_length : layer.usedNewIndices.length = newLocal.length
  preserved_length : layer.preservedPositions.length = newLocal.length
  used : ∀ j, layer.usedNewIndices.getD j false = true ↔ j ∈ pairs.map Prod.snd
  preserved : ∀ i, layer.preservedPositions.getD i false = true ↔ i ∈ pairs.map Prod.fst
  post : layer.postPhy2log = assignPairs start newLocal post pairs

theorem getD_replicate_false (n i : Nat) : (List.replicate n false).getD i false = false := by
  rw [List.getD_eq_getElem?_getD, List.getElem?_replicate]
  split
  · rfl
  · rfl

theorem firstPass_start (start : Nat) (oldLocal newLocal post : List Int) :
    FirstPass start 0 oldLocal newLocal post []
      ⟨List.replicate newLocal.length false, List.replicate newLocal.length false, post⟩ := by
  refine ⟨⟨⟨List.nodup_nil, List.nodup_nil, ?_⟩, ?_⟩, ?_, List.length_replicate,
    List.length_replicate, ?_, ?_, rfl⟩
  · intro e he
    cases he
  · intro i hi
    exact absurd hi (Nat.not_lt_zero i)
  · intro e he
    cases he
  · intro j
    rw [getD_replicate_false]
    constructor
    · intro h; cases h
    · intro h; cases h
  · intro i
    rw [getD_replicate_false]
    constructor
    · intro h; cases h
    · intro h; cases h

theorem getElem?_matchesOf (expert : Int) {used : List Bool} (hlen : used.length = newLocal.length)
    (j : Nat) : (matchesOf newLocal expert used)[j]? = some true ↔
      newLocal[j]? = some expert ∧ used.getD j false = false := by
  unfold matchesOf
  rw [List.getElem?_zipWith]
  by_cases hj : j < newLocal.length
  · rw [List.getElem?_eq_getElem hj, List.getElem?_eq_getElem (hlen ▸ hj : j < used.length),
      List.getD_eq_getElem _ _ (hlen ▸ hj : j < used.length)]
    simp
  · rw [List.getElem?_eq_none (by omega)]
    constructor
    · intro h; cases h
    · intro h; cases h.1

/-- A slot whose expert has a match left. -/
theorem FirstPass.take {j : Nat} {x : Int} (h : FirstPass start bound oldLocal newLocal post pairs layer)
    (hold : oldLocal[bound]? = some x) (hnew : newLocal[j]? = some x)
    (hfree : layer.usedNewIndices.getD j false = false) (hbound : bound < newLocal.length) :
    FirstPass start (bound + 1) oldLocal newLocal post (pairs ++ [(bound, j)])
      { postPhy2log := layer.postPhy2log.set (start + bound) (newLocal.getD j 0)
        usedNewIndices := layer.usedNewIndices.set j true
        preservedPositions := layer.preservedPositions.set bound true } := by
  obtain ⟨hj, -⟩ := List.getElem?_eq_some_iff.mp hnew
  have hfresh : bound ∉ pairs.map Prod.fst := by
    intro hmem
    obtain ⟨e, he, heq⟩ := List.mem_map.mp hmem
    exact absurd (h.visited e he) (by omega)
  have hunused : j ∉ pairs.map Prod.snd := by
    intro hmem
    rw [(h.used j).mpr hmem] at hfree
    cases hfree
  refine ⟨⟨⟨?_, ?_, ?_⟩, ?_⟩, ?_, ?_, ?_, ?_, ?_, ?_⟩
  · rw [List.map_append, List.nodup_append]
    refine ⟨h.greedy.nodup_old, List.nodup_singleton _, fun i hi i' hi' => ?_⟩
    rw [List.mem_singleton.mp hi']
    intro heq
    rw [heq] at hi
    exact hfresh hi
  · rw [List.map_append, List.nodup_append]
    refine ⟨h.greedy.nodup_new, List.nodup_singleton _, fun i hi i' hi' => ?_⟩
    rw [List.mem_singleton.mp hi']
    intro heq
    rw [heq] at hi
    exact hunused hi
  · intro e he
    rcases List.mem_append.mp he with hin | hlast
    · exact h.greedy.agree e hin
    · rw [List.mem_singleton.mp hlast]
      exact ⟨x, hold, hnew⟩
  · intro i hi hout y hy j' hj'
    rw [List.map_append, List.mem_append] at hout ⊢
    push Not at hout
    have hne : i ≠ bound := fun heq => hout.2 (heq ▸ List.mem_singleton_self _)
    exact Or.inl (h.greedy.used_up i (by omega) hout.1 y hy j' hj')
  · intro e he
    rcases List.mem_append.mp he with hin | hlast
    · exact Nat.lt_succ_of_lt (h.visited e hin)
    · rw [List.mem_singleton.mp hlast]
      exact Nat.lt_succ_self bound
  · exact List.length_set.trans h.used_length
  · exact List.length_set.trans h.preserved_length
  · intro j'
    rw [List.map_append, List.mem_append, ← h.used, List.getD_eq_getElem?_getD, List.getElem?_set]
    by_cases hjj : j = j'
    · subst hjj
      rw [if_pos rfl, if_pos (h.used_length ▸ hj)]
      exact ⟨fun _ => Or.inr (List.mem_singleton_self _), fun _ => rfl⟩
    · rw [if_neg hjj, ← List.getD_eq_getElem?_getD]
      constructor
      · exact Or.inl
      · intro hor
        rcases hor with hin | hlast
        · exact hin
        · exact absurd (List.mem_singleton.mp hlast).symm hjj
  · intro i
    rw [List.map_append, List.mem_append, ← h.preserved, List.getD_eq_getElem?_getD,
      List.getElem?_set]
    by_cases hi : bound = i
    · subst hi
      rw [if_pos rfl, if_pos (h.preserved_length ▸ hbound)]
      exact ⟨fun _ => Or.inr (List.mem_singleton_self _), fun _ => rfl⟩
    · rw [if_neg hi, ← List.getD_eq_getElem?_getD]
      constructor
      · exact Or.inl
      · intro hor
        rcases hor with hin | hlast
        · exact hin
        · exact absurd (List.mem_singleton.mp hlast).symm hi
  · rw [h.post]
    unfold assignPairs
    rw [List.map_append, List.map_append, ← indexAssign_append (by simp)]
    rfl

/-- A slot whose expert has no match left. -/
theorem FirstPass.skip {x : Int} (h : FirstPass start bound oldLocal newLocal post pairs layer)
    (hold : oldLocal[bound]? = some x)
    (hnone : ∀ j, newLocal[j]? = some x → layer.usedNewIndices.getD j false = true) :
    FirstPass start (bound + 1) oldLocal newLocal post pairs layer := by
  refine ⟨⟨h.greedy.toPaired, ?_⟩, fun e he => Nat.lt_succ_of_lt (h.visited e he),
    h.used_length, h.preserved_length, h.used, h.preserved, h.post⟩
  intro i hi hout y hy j hj
  rcases Nat.lt_or_eq_of_le (Nat.le_of_lt_succ hi) with hlt | heq
  · exact h.greedy.used_up i hlt hout y hy j hj
  · rw [heq, hold] at hy
    cases hy
    exact (h.used j).mp (hnone j hj)

/-- The step lemma of the first pass. -/
theorem FirstPass.step (h : FirstPass start bound oldLocal newLocal post pairs layer)
    (hlen : oldLocal.length = newLocal.length) (hbound : bound < newLocal.length) :
    ∃ pairs', FirstPass start (bound + 1) oldLocal newLocal post pairs'
      (preserveSlot start oldLocal newLocal layer bound) := by
  have hold : oldLocal[bound]? = some (oldLocal.getD bound 0) := by
    rw [List.getD_eq_getElem _ _ (hlen ▸ hbound : bound < oldLocal.length)]
    exact List.getElem?_eq_getElem _
  unfold preserveSlot
  dsimp only
  by_cases hany : (matchesOf newLocal (oldLocal.getD bound 0) layer.usedNewIndices).any id = true
  · rw [if_pos hany]
    obtain ⟨y, hy, hyt⟩ := List.any_eq_true.mp hany
    have hne : matchesOf newLocal (oldLocal.getD bound 0) layer.usedNewIndices ≠ [] :=
      List.ne_nil_of_mem hy
    obtain ⟨x, hx, hmax⟩ := argmax_spec hne
    -- the largest of the truth values is true
    have hxt : x = true := by
      have hle := hmax y hy
      have hyt' : y = true := hyt
      rw [hyt'] at hle
      exact Bool.le_iff_imp.mp hle rfl
    rw [hxt] at hx
    obtain ⟨hnew, hfree⟩ := (getElem?_matchesOf _ h.used_length _).mp hx
    exact ⟨_, h.take hold hnew hfree hbound⟩
  · rw [if_neg hany]
    refine ⟨pairs, h.skip hold fun j hj => ?_⟩
    by_contra hfree
    rw [Bool.not_eq_true] at hfree
    have hmatch := (getElem?_matchesOf _ h.used_length j).mpr ⟨hj, hfree⟩
    exact hany (List.any_eq_true.mpr ⟨true, List.mem_of_getElem? hmatch, rfl⟩)

/-- The run lemma of the first pass. -/
theorem firstPass_preserveSlots (start : Nat) (post : List Int)
    (hlen : oldLocal.length = newLocal.length) :
    ∃ pairs, FirstPass start newLocal.length oldLocal newLocal post pairs
      (preserveSlots newLocal.length start oldLocal newLocal post) := by
  have hrun : ∀ count ≤ newLocal.length, ∃ pairs,
      FirstPass start count oldLocal newLocal post pairs
        ((arange count).foldl (preserveSlot start oldLocal newLocal)
          ⟨List.replicate newLocal.length false, List.replicate newLocal.length false, post⟩) := by
    intro count
    induction count with
    | zero => intro _; exact ⟨[], firstPass_start start oldLocal newLocal post⟩
    | succ count ih =>
      intro hcount
      obtain ⟨pairs, hpairs⟩ := ih (by omega)
      unfold arange at hpairs ⊢
      rw [List.range_succ, List.foldl_append]
      exact hpairs.step hlen hcount
  exact hrun newLocal.length (Nat.le_refl _)

end FirstPass

/-! ## The second pass -/

section SecondPass

variable {start : Nat} {oldLocal newLocal post : List Int} {pairs : List (Nat × Nat)}
  {layer : LayerSlots}

/-- The positions that are taken, and those that the mask leaves. -/
theorem perm_of_mask {mask : List Bool} {taken : List Nat} (hnodup : taken.Nodup)
    (hlt : ∀ i ∈ taken, i < mask.length) (hmask : ∀ i, mask.getD i false = true ↔ i ∈ taken) :
    (taken ++ (arange (mask.map not).length).filter fun i => (mask.map not).getD i false).Perm
      (arange mask.length) := by
  have hrest : ((arange (mask.map not).length).filter fun i => (mask.map not).getD i false)
      = (arange mask.length).filter fun i => !decide (i ∈ taken) := by
    rw [List.length_map]
    refine List.filter_congr fun i hi => ?_
    have hi' : i < mask.length := List.mem_range.mp hi
    have hget : (mask.map not).getD i false = !mask.getD i false := by
      rw [List.getD_eq_getElem _ _ (by rw [List.length_map]; exact hi'),
        List.getD_eq_getElem _ _ hi', List.getElem_map]
    rw [hget]
    refine congrArg not (Bool.eq_iff_iff.mpr ?_)
    rw [hmask, decide_eq_true_iff]
  have htaken : taken.Perm ((arange mask.length).filter fun i => decide (i ∈ taken)) := by
    refine (List.perm_ext_iff_of_nodup hnodup (List.nodup_range.filter _)).mpr fun i => ?_
    rw [List.mem_filter, decide_eq_true_iff]
    exact ⟨fun hi => ⟨List.mem_range.mpr (hlt i hi), hi⟩, fun h => h.2⟩
  rw [hrest]
  exact (htaken.append_right _).trans (List.filter_append_perm _ _)

/-- The second pass makes the pairing one of all slots. -/
theorem FirstPass.fill {argsort : List Nat → List Nat} (hargsort : ∀ keys, IsArgsort keys (argsort keys))
    (h : FirstPass start newLocal.length oldLocal newLocal post pairs layer) :
    ∃ more, ((pairs ++ more).map Prod.fst).Perm (arange newLocal.length) ∧
      ((pairs ++ more).map Prod.snd).Perm (arange newLocal.length) ∧
      fillSlots argsort newLocal.length start newLocal layer
        = assignPairs start newLocal post (pairs ++ more) := by
  have hnew : ∀ j ∈ pairs.map Prod.snd, j < layer.usedNewIndices.length := by
    intro j hj
    obtain ⟨e, he, rfl⟩ := List.mem_map.mp hj
    obtain ⟨x, -, hx⟩ := h.greedy.agree e he
    rw [h.used_length]
    exact (List.getElem?_eq_some_iff.mp hx).1
  have hold : ∀ i ∈ pairs.map Prod.fst, i < layer.preservedPositions.length := by
    intro i hi
    obtain ⟨e, he, rfl⟩ := List.mem_map.mp hi
    rw [h.preserved_length]
    exact h.visited e he
  have hsrc := perm_of_mask h.greedy.nodup_new hnew h.used
  have hdst := perm_of_mask h.greedy.nodup_old hold h.preserved
  rw [h.used_length] at hsrc
  rw [h.preserved_length] at hdst
  -- as many experts as slots are left
  have hsrclen := hsrc.length_eq
  have hdstlen := hdst.length_eq
  rw [List.length_append, List.length_map] at hsrclen hdstlen
  have hremaining : layer.remainingMask.count true
      = ((arange layer.remainingMask.length).filter fun i => layer.remainingMask.getD i false).length :=
    count_true_eq
  have hfill : layer.fillMask.count true
      = ((arange layer.fillMask.length).filter fun i => layer.fillMask.getD i false).length :=
    count_true_eq
  have hcount : layer.remainingMask.count true = layer.fillMask.count true := by
    rw [hremaining, hfill]
    unfold LayerSlots.remainingMask LayerSlots.fillMask
    omega
  have hrlen : layer.remainingMask.length ≤ newLocal.length + 1 := by
    unfold LayerSlots.remainingMask
    rw [List.length_map, h.used_length]
    exact Nat.le_succ _
  have hflen : layer.fillMask.length ≤ newLocal.length + 1 := by
    unfold LayerSlots.fillMask
    rw [List.length_map, h.preserved_length]
    exact Nat.le_succ _
  have hrtake := (hargsort (maskedIndices (newLocal.length + 1) layer.remainingMask)).take_available
    hrlen
  have hftake := (hargsort (maskedIndices (newLocal.length + 1) layer.fillMask)).take_available
    hflen
  have hlens : ((arange layer.fillMask.length).filter fun i => layer.fillMask.getD i false).length
      = ((arange layer.remainingMask.length).filter
          fun i => layer.remainingMask.getD i false).length := by
    rw [← hremaining, ← hfill, hcount]
  refine ⟨((arange layer.fillMask.length).filter fun i => layer.fillMask.getD i false).zip
    ((arange layer.remainingMask.length).filter fun i => layer.remainingMask.getD i false),
    ?_, ?_, ?_⟩
  · rw [List.map_append, List.map_fst_zip (Nat.le_of_eq hlens)]
    exact hdst
  · rw [List.map_append, List.map_snd_zip (Nat.le_of_eq hlens.symm)]
    exact hsrc
  · unfold fillSlots
    dsimp only
    rw [hcount, Nat.min_self, hftake, ← hcount, hrtake, h.post]
    unfold assignPairs
    rw [indexAssign_append (by rw [List.length_map, List.length_map]), List.map_append,
      List.map_append]
    refine congrArg₂ (indexAssign post) (congrArg _ ?_) (congrArg _ ?_)
    · conv_lhs => rw [← List.map_fst_zip (Nat.le_of_eq hlens)]
      rw [List.map_map]
      rfl
    · conv_lhs => rw [← List.map_snd_zip (Nat.le_of_eq hlens.symm)]
      rw [List.map_map]
      rfl

end SecondPass

/-! ## One GPU of one layer -/

section Gpu

variable {oldLocal newLocal post postLocal : List Int} {slotsPerGpu gpuIdx : Nat}

/-- The new experts of a GPU in another order that keeps as many slots as any order of them. -/
structure SlotsKept (oldLocal newLocal postLocal : List Int) : Prop where
  perm : postLocal.Perm newLocal
  most : ∀ x, x.Perm newLocal → agreeing x oldLocal ≤ agreeing postLocal oldLocal

theorem getElem?_gpuSlots {α : Type} (slotsPerGpu gpuIdx : Nat) (row : List α) {i : Nat}
    (hi : i < slotsPerGpu) :
    (gpuSlots slotsPerGpu gpuIdx row)[i]? = row[gpuIdx * slotsPerGpu + i]? := by
  unfold gpuSlots
  rw [List.getElem?_take_of_lt hi, List.getElem?_drop]

theorem length_gpuSlots {α : Type} {row : List α} {numRanks : Nat}
    (hlen : row.length = numRanks * slotsPerGpu) (hgpu : gpuIdx < numRanks) :
    (gpuSlots slotsPerGpu gpuIdx row).length = slotsPerGpu := by
  have hfits : (gpuIdx + 1) * slotsPerGpu ≤ numRanks * slotsPerGpu :=
    Nat.mul_le_mul_right _ hgpu
  rw [Nat.succ_mul] at hfits
  unfold gpuSlots
  rw [List.length_take, List.length_drop, hlen]
  omega

/-- Assigning to all slots of a GPU. -/
theorem assignPairs_spec {start : Nat} {pairs : List (Nat × Nat)}
    (hfits : start + newLocal.length ≤ post.length)
    (hdst : (pairs.map Prod.fst).Perm (arange newLocal.length)) :
    (∀ e ∈ pairs, (assignPairs start newLocal post pairs)[start + e.1]?
        = some (newLocal.getD e.2 0)) ∧
      ∀ i, i < start ∨ start + newLocal.length ≤ i →
        (assignPairs start newLocal post pairs)[i]? = post[i]? := by
  have hzip : (pairs.map fun e => start + e.1).zip (pairs.map fun e => newLocal.getD e.2 0)
      = pairs.map fun e => (start + e.1, newLocal.getD e.2 0) := List.zip_map'
  have hkeys : (pairs.map fun e => (start + e.1, newLocal.getD e.2 0)).map Prod.fst
      = (pairs.map Prod.fst).map (start + ·) := by
    rw [List.map_map, List.map_map]
    rfl
  have hmem : ∀ e ∈ pairs, e.1 < newLocal.length := by
    intro e he
    exact List.mem_range.mp (hdst.mem_iff.mp (List.mem_map_of_mem he))
  have hnodup : ((pairs.map Prod.fst).map (start + ·)).Nodup :=
    (hdst.nodup_iff.mpr List.nodup_range).map fun _ _ h => Nat.add_left_cancel h
  unfold assignPairs indexAssign
  rw [hzip]
  constructor
  · intro e he
    refine getElem?_foldl_set_of_mem (e := (start + e.1, newLocal.getD e.2 0)) ?_
      (List.mem_map_of_mem he) ?_
    · rw [hkeys]
      exact hnodup
    · have hlt := hmem e he
      show start + e.1 < post.length
      omega
  · intro i hi
    refine getElem?_foldl_set_of_not_mem fun hin => ?_
    rw [hkeys] at hin
    obtain ⟨slot, hslot, rfl⟩ := List.mem_map.mp hin
    have hlt := List.mem_range.mp (hdst.mem_iff.mp hslot)
    omega

/-- Both passes on one layer. -/
def rearrangeRow (argsort : List Nat → List Nat) (slotsPerGpu : Nat) (phy2log oldPhy2log post : List Int)
    (gpuIdx : Nat) : List Int :=
  fillSlots argsort slotsPerGpu (gpuIdx * slotsPerGpu) (gpuSlots slotsPerGpu gpuIdx phy2log)
    (preserveSlots slotsPerGpu (gpuIdx * slotsPerGpu) (gpuSlots slotsPerGpu gpuIdx oldPhy2log)
      (gpuSlots slotsPerGpu gpuIdx phy2log) post)

variable {argsort : List Nat → List Nat} {phy2log oldPhy2log : List Int} {numRanks : Nat}

/-- What the two passes do to the row: the slots of the GPU are kept where possible, and the
others are not written. -/
theorem rearrangeRow_spec (hargsort : ∀ keys, IsArgsort keys (argsort keys))
    (hnew : phy2log.length = numRanks * slotsPerGpu)
    (hold : oldPhy2log.length = numRanks * slotsPerGpu)
    (hpost : post.length = numRanks * slotsPerGpu) (hgpu : gpuIdx < numRanks) :
    (rearrangeRow argsort slotsPerGpu phy2log oldPhy2log post gpuIdx).length = post.length ∧
      SlotsKept (gpuSlots slotsPerGpu gpuIdx oldPhy2log) (gpuSlots slotsPerGpu gpuIdx phy2log)
        (gpuSlots slotsPerGpu gpuIdx
          (rearrangeRow argsort slotsPerGpu phy2log oldPhy2log post gpuIdx)) ∧
      ∀ i, i < gpuIdx * slotsPerGpu ∨ gpuIdx * slotsPerGpu + slotsPerGpu ≤ i →
        (rearrangeRow argsort slotsPerGpu phy2log oldPhy2log post gpuIdx)[i]? = post[i]? := by
  have hnewlen := length_gpuSlots hnew hgpu
  have holdlen := length_gpuSlots hold hgpu
  have hfits : (gpuIdx + 1) * slotsPerGpu ≤ numRanks * slotsPerGpu :=
    Nat.mul_le_mul_right _ hgpu
  rw [Nat.succ_mul] at hfits
  obtain ⟨pairs, hfirst⟩ := firstPass_preserveSlots (gpuIdx * slotsPerGpu) post
    (holdlen.trans hnewlen.symm)
  obtain ⟨more, hdst, hsrc, hrow⟩ := hfirst.fill hargsort
  have hrow' : rearrangeRow argsort slotsPerGpu phy2log oldPhy2log post gpuIdx
      = assignPairs (gpuIdx * slotsPerGpu) (gpuSlots slotsPerGpu gpuIdx phy2log) post
        (pairs ++ more) := by
    rw [hnewlen] at hrow
    exact hrow
  have hfits : gpuIdx * slotsPerGpu + (gpuSlots slotsPerGpu gpuIdx phy2log).length
      ≤ post.length := by omega
  obtain ⟨hput, hout⟩ := assignPairs_spec hfits hdst
  rw [← hrow'] at hput hout
  rw [hnewlen] at hout hdst
  have hlen : (rearrangeRow argsort slotsPerGpu phy2log oldPhy2log post gpuIdx).length
      = post.length := by
    rw [hrow']
    exact length_indexAssign _ _ _
  have hpostlen := length_gpuSlots (hlen.trans hpost) hgpu
  have hslot : ∀ e ∈ pairs ++ more, (gpuSlots slotsPerGpu gpuIdx
      (rearrangeRow argsort slotsPerGpu phy2log oldPhy2log post gpuIdx))[e.1]?
        = some ((gpuSlots slotsPerGpu gpuIdx phy2log).getD e.2 0) := by
    intro e he
    have hlt := List.mem_range.mp (hdst.mem_iff.mp (List.mem_map_of_mem he))
    rw [getElem?_gpuSlots _ _ _ hlt]
    exact hput e he
  refine ⟨hlen, ⟨?_, ?_⟩, hout⟩
  · -- both are the experts of the pairs
    have hself := eq_map_arange (gpuSlots slotsPerGpu gpuIdx
      (rearrangeRow argsort slotsPerGpu phy2log oldPhy2log post gpuIdx)) 0
    have hnewself := eq_map_arange (gpuSlots slotsPerGpu gpuIdx phy2log) 0
    have hmid : (pairs ++ more).map (fun e => (gpuSlots slotsPerGpu gpuIdx
        (rearrangeRow argsort slotsPerGpu phy2log oldPhy2log post gpuIdx)).getD e.1 0)
        = (pairs ++ more).map fun e => (gpuSlots slotsPerGpu gpuIdx phy2log).getD e.2 0 := by
      refine List.map_congr_left fun e he => ?_
      rw [List.getD_eq_getElem?_getD, hslot e he]
      rfl
    rw [hpostlen] at hself
    have hleft := hdst.map fun i => (gpuSlots slotsPerGpu gpuIdx
      (rearrangeRow argsort slotsPerGpu phy2log oldPhy2log post gpuIdx)).getD i 0
    have hright := hsrc.map fun j => (gpuSlots slotsPerGpu gpuIdx phy2log).getD j 0
    rw [List.map_map, ← hself] at hleft
    rw [List.map_map, ← hnewself] at hright
    refine hleft.symm.trans (List.Perm.trans ?_ hright)
    exact List.Perm.of_eq hmid
  · intro x hx
    have hgreedy : Greedy (gpuSlots slotsPerGpu gpuIdx oldPhy2log)
        (gpuSlots slotsPerGpu gpuIdx phy2log) (gpuSlots slotsPerGpu gpuIdx oldPhy2log).length
        pairs := by
      have hg := hfirst.greedy
      rw [hnewlen] at hg
      rw [holdlen]
      exact hg
    refine (hgreedy.agreeing_le hx).trans ?_
    rw [← List.length_map (f := Prod.fst)]
    refine le_agreeing hgreedy.nodup_old fun i hi => ?_
    obtain ⟨e, he, rfl⟩ := List.mem_map.mp hi
    obtain ⟨v, hv, hv'⟩ := hgreedy.agree e he
    refine ⟨v, ?_, hv⟩
    rw [hslot e (List.mem_append_left _ he), List.getD_eq_getElem?_getD, hv']
    rfl

end Gpu

/-! ## All GPUs of one layer -/

section Row

variable {argsort : List Nat → List Nat} {phy2log oldPhy2log : List Int}
  {numRanks slotsPerGpu : Nat}

def preserveRow (argsort : List Nat → List Nat) (slotsPerGpu numRanks : Nat)
    (phy2log oldPhy2log : List Int) : List Int :=
  (List.range numRanks).foldl (rearrangeRow argsort slotsPerGpu phy2log oldPhy2log) phy2log

/-- The slots of one GPU do not change with those of another. -/
theorem gpuSlots_congr {α : Type} {row row' : List α} {gpuIdx gpuIdx' : Nat}
    (hne : gpuIdx ≠ gpuIdx')
    (h : ∀ i, i < gpuIdx' * slotsPerGpu ∨ gpuIdx' * slotsPerGpu + slotsPerGpu ≤ i →
      row[i]? = row'[i]?) :
    gpuSlots slotsPerGpu gpuIdx row = gpuSlots slotsPerGpu gpuIdx row' := by
  apply List.ext_getElem?
  intro i
  by_cases hi : i < slotsPerGpu
  · rw [getElem?_gpuSlots _ _ _ hi, getElem?_gpuSlots _ _ _ hi]
    apply h
    rcases Nat.lt_or_gt_of_ne hne with hlt | hgt
    · left
      have hmul := Nat.mul_le_mul_right slotsPerGpu hlt
      rw [Nat.succ_mul] at hmul
      omega
    · right
      have hmul := Nat.mul_le_mul_right slotsPerGpu hgt
      rw [Nat.succ_mul] at hmul
      omega
  · unfold gpuSlots
    rw [List.getElem?_eq_none (by rw [List.length_take]; omega),
      List.getElem?_eq_none (by rw [List.length_take]; omega)]

/-- The run lemma over the GPUs. -/
theorem preserveRow_spec (hargsort : ∀ keys, IsArgsort keys (argsort keys))
    (hnew : phy2log.length = numRanks * slotsPerGpu)
    (hold : oldPhy2log.length = numRanks * slotsPerGpu) :
    (preserveRow argsort slotsPerGpu numRanks phy2log oldPhy2log).length = phy2log.length ∧
      ∀ gpuIdx < numRanks, SlotsKept (gpuSlots slotsPerGpu gpuIdx oldPhy2log)
        (gpuSlots slotsPerGpu gpuIdx phy2log) (gpuSlots slotsPerGpu gpuIdx
          (preserveRow argsort slotsPerGpu numRanks phy2log oldPhy2log)) := by
  have hrun : ∀ count ≤ numRanks, ((List.range count).foldl
      (rearrangeRow argsort slotsPerGpu phy2log oldPhy2log) phy2log).length = phy2log.length ∧
      ∀ gpuIdx < count, SlotsKept (gpuSlots slotsPerGpu gpuIdx oldPhy2log)
        (gpuSlots slotsPerGpu gpuIdx phy2log) (gpuSlots slotsPerGpu gpuIdx
          ((List.range count).foldl (rearrangeRow argsort slotsPerGpu phy2log oldPhy2log)
            phy2log)) := by
    intro count
    induction count with
    | zero => intro _; exact ⟨rfl, fun gpuIdx h => absurd h (Nat.not_lt_zero gpuIdx)⟩
    | succ count ih =>
      intro hcount
      obtain ⟨hlen, hkept⟩ := ih (by omega)
      obtain ⟨hlen', hkept', hout⟩ := rearrangeRow_spec hargsort hnew hold (hlen.trans hnew)
        (by omega : count < numRanks)
      rw [List.range_succ, List.foldl_append]
      refine ⟨hlen'.trans hlen, fun gpuIdx hgpu => ?_⟩
      rcases Nat.lt_or_eq_of_le (Nat.le_of_lt_succ hgpu) with hlt | heq
      · rw [List.foldl_cons, List.foldl_nil, gpuSlots_congr (Nat.ne_of_lt hlt) hout]
        exact hkept gpuIdx hlt
      · rw [heq]
        exact hkept'
  exact hrun numRanks (Nat.le_refl _)

end Row

/-! ## Numbers of the replicas on a GPU -/

/-- Rows whose parts are permutations of each other. -/
theorem take_perm {slotsPerGpu count : Nat} {row row' : List Int}
    (hperm : ∀ gpuIdx < count,
      (gpuSlots slotsPerGpu gpuIdx row').Perm (gpuSlots slotsPerGpu gpuIdx row)) :
    (row'.take (count * slotsPerGpu)).Perm (row.take (count * slotsPerGpu)) := by
  induction count with
  | zero => rw [Nat.zero_mul]; exact List.Perm.nil
  | succ count ih =>
    rw [Nat.succ_mul, List.take_add, List.take_add]
    exact (ih fun gpuIdx hgpu => hperm gpuIdx (Nat.lt_succ_of_lt hgpu)).append
      (hperm count (Nat.lt_succ_self count))

theorem gpuSlots_numbered_eq {slotsPerGpu numRanks gpuIdx : Nat} {row : List Int}
    (hlen : row.length = numRanks * slotsPerGpu) (hgpu : gpuIdx < numRanks) :
    gpuSlots slotsPerGpu gpuIdx (numbered (fun _ => 0) row)
      = numbered (fun e => 0 + (row.take (gpuIdx * slotsPerGpu)).count e)
          (gpuSlots slotsPerGpu gpuIdx row) := by
  have hfits : (gpuIdx + 1) * slotsPerGpu ≤ numRanks * slotsPerGpu := Nat.mul_le_mul_right _ hgpu
  rw [Nat.succ_mul] at hfits
  have hnumbered : ∀ (l : List Int) (seen : Int → Nat), (numbered seen l).length = l.length := by
    intro l seen
    have hfst := congrArg List.length (map_fst_numbered l seen)
    rw [List.length_map] at hfst
    exact hfst
  have hsplit : numbered (fun _ => 0) row
      = numbered (fun _ => 0) (row.take (gpuIdx * slotsPerGpu))
        ++ numbered (fun e => 0 + (row.take (gpuIdx * slotsPerGpu)).count e)
            (gpuSlots slotsPerGpu gpuIdx row)
        ++ numbered (fun e => 0 + (row.take (gpuIdx * slotsPerGpu)).count e
              + (gpuSlots slotsPerGpu gpuIdx row).count e)
            ((row.drop (gpuIdx * slotsPerGpu)).drop slotsPerGpu) := by
    conv_lhs => rw [← List.take_append_drop (gpuIdx * slotsPerGpu) row, numbered_append,
      ← List.take_append_drop slotsPerGpu (row.drop (gpuIdx * slotsPerGpu)), numbered_append]
    rw [List.append_assoc]
    rfl
  have hfirst : (numbered (fun _ => 0) (row.take (gpuIdx * slotsPerGpu))).length
      = gpuIdx * slotsPerGpu := by
    rw [hnumbered, List.length_take]
    omega
  have hmiddle : (numbered (fun e => 0 + (row.take (gpuIdx * slotsPerGpu)).count e)
      (gpuSlots slotsPerGpu gpuIdx row)).length = slotsPerGpu := by
    rw [hnumbered, length_gpuSlots hlen hgpu]
  conv_lhs => unfold gpuSlots
  rw [hsplit, List.append_assoc, List.drop_append_of_le_length (Nat.le_of_eq hfirst.symm),
    List.drop_eq_nil_of_le (Nat.le_of_eq hfirst), List.nil_append,
    List.take_append_of_le_length (Nat.le_of_eq hmiddle.symm), List.take_of_length_le
    (Nat.le_of_eq hmiddle)]

/-- Permuting the experts within the GPUs permutes the numbered replicas within the GPUs. -/
theorem gpuSlots_numbered {slotsPerGpu numRanks gpuIdx : Nat} {row row' : List Int}
    (hlen' : row'.length = numRanks * slotsPerGpu) (hlen : row.length = numRanks * slotsPerGpu)
    (hgpu : gpuIdx < numRanks) (hperm : ∀ gpuIdx < numRanks,
      (gpuSlots slotsPerGpu gpuIdx row').Perm (gpuSlots slotsPerGpu gpuIdx row)) :
    (gpuSlots slotsPerGpu gpuIdx (numbered (fun _ => 0) row')).Perm
      (gpuSlots slotsPerGpu gpuIdx (numbered (fun _ => 0) row)) := by
  rw [gpuSlots_numbered_eq hlen' hgpu, gpuSlots_numbered_eq hlen hgpu]
  have htake := take_perm fun g (hg : g < gpuIdx) => hperm g (Nat.lt_trans hg hgpu)
  have hseen : (fun e => 0 + (row'.take (gpuIdx * slotsPerGpu)).count e)
      = fun e => 0 + (row.take (gpuIdx * slotsPerGpu)).count e := by
    funext e
    rw [htake.count_eq]
  rw [hseen]
  exact numbered_perm (hperm gpuIdx hgpu) _

/-! ## All layers -/

section Layers

variable {argsort : List Nat → List Nat} {slotsPerGpu : Nat} {phy2log oldPhy2log : List (List Int)}

/-- A layer in which nothing is left, or no slot. -/
theorem fillSlots_of_none (argsort : List Nat → List Nat) (start : Nat) (newLocal : List Int)
    {layer : LayerSlots}
    (h : layer.remainingMask.any id = false ∨ layer.fillMask.any id = false) :
    fillSlots argsort slotsPerGpu start newLocal layer = layer.postPhy2log := by
  have hcount : ∀ mask : List Bool, mask.any id = false → mask.count true = 0 := by
    intro mask hmask
    rw [List.count_eq_zero]
    intro hmem
    rw [List.any_eq_false] at hmask
    exact hmask true hmem rfl
  have hk : min (layer.remainingMask.count true) (layer.fillMask.count true) = 0 := by
    rcases h with h | h
    · rw [hcount _ h, Nat.zero_min]
    · rw [hcount _ h, Nat.min_zero]
  unfold fillSlots
  dsimp only
  rw [hk]
  rfl

/-- The second pass may be left out for all layers together. -/
theorem rearrangeGpu_eq (argsort : List Nat → List Nat) (slotsPerGpu gpuIdx : Nat)
    (phy2log oldPhy2log post : List (List Int)) :
    rearrangeGpu argsort slotsPerGpu phy2log oldPhy2log post gpuIdx
      = (phy2log.zip oldPhy2log).zipWith
          (fun rows row => rearrangeRow argsort slotsPerGpu rows.1 rows.2 row gpuIdx) post := by
  unfold rearrangeGpu
  dsimp only
  rw [List.zipWith_map_left]
  split
  · rw [List.map_zipWith]
    rfl
  · rename_i hguard
    rw [Bool.and_eq_true, not_and_or, Bool.not_eq_true, Bool.not_eq_true] at hguard
    have hskip : ∀ l ∈ (phy2log.zip oldPhy2log).zipWith (fun rows post =>
        (gpuSlots slotsPerGpu gpuIdx rows.1, preserveSlots slotsPerGpu (gpuIdx * slotsPerGpu)
          (gpuSlots slotsPerGpu gpuIdx rows.2) (gpuSlots slotsPerGpu gpuIdx rows.1) post)) post,
        l.2.postPhy2log = fillSlots argsort slotsPerGpu (gpuIdx * slotsPerGpu) l.1 l.2 := by
      intro l hl
      rcases hguard with hnone | hnone
      · exact (fillSlots_of_none _ _ _ (Or.inl (Bool.eq_false_iff.mpr
          (List.any_eq_false.mp hnone l hl)))).symm
      · exact (fillSlots_of_none _ _ _ (Or.inr (Bool.eq_false_iff.mpr
          (List.any_eq_false.mp hnone l hl)))).symm
    rw [List.map_congr_left hskip, List.map_zipWith]
    rfl

theorem zipWith_zip_zipWith {α β γ δ : Type} (f : α × β → γ → δ) (g : α → β → γ) :
    ∀ (a : List α) (b : List β), (a.zip b).zipWith f (a.zipWith g b)
      = a.zipWith (fun x y => f (x, y) (g x y)) b
  | [], _ => rfl
  | _ :: _, [] => rfl
  | _ :: a, _ :: b => congrArg (_ :: ·) (zipWith_zip_zipWith f g a b)

theorem zipWith_left {α β : Type} : ∀ {a : List α} {b : List β}, a.length = b.length →
    a.zipWith (fun x _ => x) b = a
  | [], _, _ => rfl
  | _ :: _, [], h => absurd h (Nat.succ_ne_zero _)
  | _ :: _, _ :: _, h => congrArg (_ :: ·) (zipWith_left (Nat.succ.inj h))

/-- The layers do not meet. -/
theorem preserveIntragpuSlots_eq {numRanks n : Nat} (hlayers : phy2log.length = oldPhy2log.length)
    (hnew : ∀ row ∈ phy2log, row.length = n) (hpos : 0 < numRanks) (hdvd : n % numRanks = 0) :
    preserveIntragpuSlots argsort phy2log numRanks oldPhy2log
      = phy2log.zipWith (preserveRow argsort (n / numRanks) numRanks) oldPhy2log := by
  have hrun : ∀ count, (List.range count).foldl
      (rearrangeGpu argsort (n / numRanks) phy2log oldPhy2log) phy2log
      = phy2log.zipWith (preserveRow argsort (n / numRanks) count) oldPhy2log := by
    intro count
    induction count with
    | zero => exact (zipWith_left hlayers).symm
    | succ count ih =>
      rw [List.range_succ, List.foldl_append, ih, List.foldl_cons, List.foldl_nil,
        rearrangeGpu_eq, zipWith_zip_zipWith]
      refine congrArg (fun f => phy2log.zipWith f oldPhy2log) ?_
      funext row old
      unfold preserveRow
      rw [List.range_succ, List.foldl_append]
      rfl
  unfold preserveIntragpuSlots
  dsimp only
  cases hphy : phy2log with
  | nil =>
    rw [List.zipWith_nil_left]
    split
    · rfl
    · have hnil := hrun numRanks
      rw [hphy, List.zipWith_nil_left] at hnil
      generalize hs : ([].headD ([] : List Int)).length / numRanks = slots
      have hempty : ∀ count, (List.range count).foldl (rearrangeGpu argsort slots [] oldPhy2log) []
          = [] := by
        intro count
        induction count with
        | zero => rfl
        | succ count ih =>
          rw [List.range_succ, List.foldl_append, ih, List.foldl_cons, List.foldl_nil,
            rearrangeGpu_eq]
          rfl
      exact hempty numRanks
  | cons row rows =>
    have hn : ((row :: rows).headD []).length = n := hnew row (hphy ▸ List.mem_cons_self)
    rw [hn, if_neg (by omega), ← hphy]
    exact hrun numRanks

/-- On every GPU of every layer the replicas are those of the new map, in an order in which
as many slots as possible keep their expert. -/
theorem preserveIntragpuSlots_keeps {numRanks n : Nat}
    (hargsort : ∀ keys, IsArgsort keys (argsort keys))
    (hlayers : phy2log.length = oldPhy2log.length)
    (hnew : ∀ row ∈ phy2log, row.length = n) (hold : ∀ row ∈ oldPhy2log, row.length = n)
    (hpos : 0 < numRanks) (hdvd : n % numRanks = 0) :
    (preserveIntragpuSlots argsort phy2log numRanks oldPhy2log).length = phy2log.length ∧
      ∀ (layer : Nat) (row old : List Int), phy2log[layer]? = some row →
        oldPhy2log[layer]? = some old →
        ∃ post, (preserveIntragpuSlots argsort phy2log numRanks oldPhy2log)[layer]? = some post ∧
          post.length = n ∧ ∀ gpuIdx < numRanks,
            (gpuSlots (n / numRanks) gpuIdx (post.zip (phyReplicasIdx post))).Perm
              (gpuSlots (n / numRanks) gpuIdx (row.zip (phyReplicasIdx row))) ∧
            SlotsKept (gpuSlots (n / numRanks) gpuIdx old) (gpuSlots (n / numRanks) gpuIdx row)
              (gpuSlots (n / numRanks) gpuIdx post) := by
  rw [preserveIntragpuSlots_eq hlayers hnew hpos hdvd]
  refine ⟨by rw [List.length_zipWith, ← hlayers, Nat.min_self], ?_⟩
  intro layer row old hrow hold'
  have hslots : n = numRanks * (n / numRanks) := by
    have hdiv := Nat.div_add_mod n numRanks
    omega
  have hrowlen : row.length = numRanks * (n / numRanks) :=
    (hnew row (List.mem_of_getElem? hrow)).trans hslots
  have holdlen : old.length = numRanks * (n / numRanks) :=
    (hold old (List.mem_of_getElem? hold')).trans hslots
  obtain ⟨hlen, hkept⟩ := preserveRow_spec hargsort hrowlen holdlen
  refine ⟨preserveRow argsort (n / numRanks) numRanks row old, ?_,
    hlen.trans (hnew row (List.mem_of_getElem? hrow)), fun gpuIdx hgpu => ⟨?_, hkept gpuIdx hgpu⟩⟩
  · rw [List.getElem?_zipWith, hrow, hold']
  · rw [zip_phyReplicasIdx, zip_phyReplicasIdx]
    exact gpuSlots_numbered (hlen.trans hrowlen) hrowlen hgpu fun g hg => (hkept g hg).perm

/-- Two GPUs of four slots; expert 1 has two replicas on the first and one on the second. -/
def replicatedOld : List Int := [0, 1, 2, 1, 3, 5, 1, 6]

def replicatedNew : List Int := [1, 1, 0, 4, 6, 2, 1, 3]

theorem preserveIntragpuSlots_keeps_two : ∃ post : List Int, post = [0, 1, 4, 1, 3, 2, 1, 6] ∧
    preserveIntragpuSlots Numpy.argsort [replicatedNew] 2 [replicatedOld] = [post] ∧
      ∀ gpuIdx < 2,
        (gpuSlots (8 / 2) gpuIdx (post.zip (phyReplicasIdx post))).Perm
            (gpuSlots (8 / 2) gpuIdx (replicatedNew.zip (phyReplicasIdx replicatedNew))) ∧
          SlotsKept (gpuSlots (8 / 2) gpuIdx replicatedOld) (gpuSlots (8 / 2) gpuIdx replicatedNew)
            (gpuSlots (8 / 2) gpuIdx post) := by
  have hval : preserveIntragpuSlots Numpy.argsort [replicatedNew] 2 [replicatedOld]
      = [[0, 1, 4, 1, 3, 2, 1, 6]] := by decide +kernel
  obtain ⟨-, hlayers⟩ := @preserveIntragpuSlots_keeps _ [replicatedNew] [replicatedOld] 2 8
    isArgsort_argsort rfl (by decide) (by decide) Nat.two_pos rfl
  obtain ⟨post, hpost, -, hkept⟩ := hlayers 0 _ _ rfl rfl
  rw [hval] at hpost
  obtain rfl := Option.some.inj hpost
  exact ⟨_, rfl, hval, hkept⟩

end Layers

end VllmEngine.Distributed.Eplb
