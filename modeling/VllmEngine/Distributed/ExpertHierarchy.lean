import VllmEngine.Distributed.ExpertPacking
import VllmEngine.Lib.Raises

/-!
# Hierarchical rebalancing

`rebalance_experts_hierarchical`: groups of experts are packed to nodes, experts are replicated
within their node, and the replicas packed to the GPUs of the node. Between the three stages
the arrays are carried by the orders of the packings and by their inverses.

One layer does not see another (`rebalanceExpertsHierarchical_eq`), and in one layer the
numbers are those of `rebalanceLayer_spec`:

> `rebalance_valid`: every slot has an expert and every expert a slot, the slots of a group of
> experts lie on one node, and the replicas of an expert are numbered and counted.
-/

namespace VllmEngine.Distributed.Eplb

open Numpy Python

/-- `a.reshape(-1, cols)` of a matrix. -/
def reshapeCols {α : Type} (cols : Nat) (a : List (List α)) : List (List α) :=
  reshapeRows (a.flatten.length / cols) a.flatten

/-- `np.arange(0, stop, step)`. -/
def arangeStep (stop step : Nat) : List Nat :=
  (arange ((stop + step - 1) / step)).map (· * step)

/-- `pack_index * size + rank_in_pack`. -/
def placeNumbers (size : Nat) (packIndex rankInPack : List Int) : List Nat :=
  packIndex.zipWith (fun (pack rank : Int) => (pack * size + rank).toNat) rankInPack

/-- The node-local numbers of the experts, from the packs of their groups. -/
def log2mlogRow (groupsPerNode groupSize : Nat) (groupPackIndex groupRankInPack : List Int) :
    List Nat :=
  (placeNumbers groupsPerNode groupPackIndex groupRankInPack).flatMap
    fun base => (arange groupSize).map (base * groupSize + ·)

/-- `rebalance_experts_hierarchical`. -/
def rebalanceExpertsHierarchical (argsort : List ℚ → List Nat) (weight : List (List ℚ))
    (numPhysicalExperts numGroups numNodes numGpus : Nat) : Except Error (List (List Nat)) := do
  let numLayers := weight.length
  let numLogicalExperts := (weight.headD []).length
  if numGroups = 0 then throw (.zeroDivision "integer modulo by zero")
  if numLogicalExperts % numGroups ≠ 0 then throw (.assertion "")
  let groupSize := numLogicalExperts / numGroups
  if numNodes = 0 then throw (.zeroDivision "integer modulo by zero")
  if numGroups % numNodes ≠ 0 then throw (.assertion "")
  let groupsPerNode := numGroups / numNodes
  if numGpus % numNodes ≠ 0 then throw (.assertion "")
  if numGpus = 0 then throw (.zeroDivision "integer modulo by zero")
  if numPhysicalExperts % numGpus ≠ 0 then throw (.assertion "")
  let phyExpertsPerGpu := numPhysicalExperts / numGpus
  -- step 1: pack groups to nodes
  let tokensPerGroup := weight.map fun row => (reshapeRows numGroups row).map List.sum
  let (groupPackIndex, groupRankInPack) ← balancedPacking argsort tokensPerGroup numNodes
  let log2mlog := groupPackIndex.zipWith (log2mlogRow groupsPerNode groupSize) groupRankInPack
  let mlog2log := log2mlog.map inverse
  -- step 2: construct redundant experts within nodes
  let logicalPerNode := numLogicalExperts / numNodes
  if logicalPerNode = 0 ∨ numLayers = 0 then throw (.value "cannot reshape array")
  let tokensPerMlog := reshapeCols logicalPerNode (weight.zipWith pick mlog2log)
  let (phy2mlog, mlogcnt) ← replicateExperts tokensPerMlog (numPhysicalExperts / numNodes)
  -- step 3: pack physical experts to GPUs
  let tokensPerReplica := tokensPerMlog.zipWith
    (fun tokens counts => tokens.zipWith (fun w (c : Nat) => w / (c : ℚ)) counts) mlogcnt
  let tokensPerPhy := tokensPerReplica.zipWith pick phy2mlog
  let (packIndex, rankInPack) ← balancedPacking argsort tokensPerPhy (numGpus / numNodes)
  let phy2pphy := packIndex.zipWith (placeNumbers phyExpertsPerGpu) rankInPack
  let pphy2phy := phy2pphy.map inverse
  let pphy2mlog := phy2mlog.zipWith pick pphy2phy
  -- back from node-local to global numbers
  let pphy2mlog := (reshapeRows numLayers pphy2mlog.flatten).map fun row =>
    ((reshapeRows numNodes row).zipWith (fun slots offset => slots.map (· + offset))
      (arangeStep numLogicalExperts logicalPerNode)).flatten
  return mlog2log.zipWith pick pphy2mlog

/-! ## One layer -/

/-- The replicas of the experts of one node, in the order of their GPUs. -/
def rebalanceNode (argsort : List ℚ → List Nat) (numPhy numGpus phyExpertsPerGpu : Nat)
    (tokens : List ℚ) : List Nat :=
  let replicas := replicateExpertsRow numPhy tokens
  let tokensPerPhy :=
    pick (tokens.zipWith (fun w (c : Nat) => w / (c : ℚ)) replicas.logcnt) replicas.phy2log
  let packed := balancedPackingRow argsort numGpus phyExpertsPerGpu tokensPerPhy
  pick replicas.phy2log (inverse (placeNumbers phyExpertsPerGpu packed.1 packed.2))

/-- The experts in the order of their nodes. -/
def mlog2logRow (argsort : List ℚ → List Nat) (groupSize groupsPerNode numNodes : Nat)
    (weight : List ℚ) : List Nat :=
  let tokensPerGroup := (reshapeRows (numNodes * groupsPerNode) weight).map List.sum
  let packed := balancedPackingRow argsort numNodes groupsPerNode tokensPerGroup
  inverse (log2mlogRow groupsPerNode groupSize packed.1 packed.2)

/-- One layer, with the sizes that the divisions give. -/
def rebalanceLayer (argsort : List ℚ → List Nat) (groupSize groupsPerNode numNodes gpusPerNode
    phyExpertsPerGpu : Nat) (weight : List ℚ) : List Nat :=
  let mlog2log := mlog2logRow argsort groupSize groupsPerNode numNodes weight
  let nodes := (reshapeRows numNodes (pick weight mlog2log)).map
    (rebalanceNode argsort (gpusPerNode * phyExpertsPerGpu) gpusPerNode phyExpertsPerGpu)
  pick mlog2log (nodes.zipWith (fun slots offset => slots.map (· + offset))
    ((arange numNodes).map (· * (groupsPerNode * groupSize)))).flatten

theorem length_pick {α : Type} [Inhabited α] (a : List α) (idx : List Nat) :
    (pick a idx).length = idx.length := List.length_map _

/-- The places of the items of a packing, in one number. -/
theorem placeNumbers_spec {argsort : List ℚ → List Nat} {weight : List ℚ} {numPacks size : Nat}
    (hargsort : ∀ keys, IsArgsort keys (argsort keys)) (hsize : 0 < size)
    (hlen : weight.length = numPacks * size) :
    ∃ pack rank : Nat → Nat, IsPacking (numPacks * size) numPacks size pack rank ∧
      placeNumbers size (balancedPackingRow argsort numPacks size weight).1
          (balancedPackingRow argsort numPacks size weight).2
        = (arange (numPacks * size)).map fun i => pack i * size + rank i := by
  obtain ⟨pack, rank, hpacking, hrow⟩ := balancedPackingRow_spec hargsort hsize hlen
  rw [hlen] at hpacking hrow
  refine ⟨pack, rank, hpacking, ?_⟩
  rw [hrow]
  unfold placeNumbers
  rw [zipWith_maps]
  refine List.map_congr_left fun i _ => ?_
  exact_mod_cast Int.toNat_natCast (pack i * size + rank i)

section Node

variable {argsort : List ℚ → List Nat} {numGpus phyExpertsPerGpu : Nat} {tokens : List ℚ}

/-- The slots of a node hold a replica of every expert of the node, and of no other. -/
theorem rebalanceNode_spec (hargsort : ∀ keys, IsArgsort keys (argsort keys))
    (hpos : 0 < tokens.length) (hle : tokens.length ≤ numGpus * phyExpertsPerGpu) :
    (rebalanceNode argsort (numGpus * phyExpertsPerGpu) numGpus phyExpertsPerGpu tokens).length
        = numGpus * phyExpertsPerGpu ∧
      ∀ m, m ∈ rebalanceNode argsort (numGpus * phyExpertsPerGpu) numGpus phyExpertsPerGpu tokens
        ↔ m < tokens.length := by
  have hreplicas := replicateExpertsRow_spec hpos hle
  unfold rebalanceNode
  dsimp only
  generalize replicateExpertsRow (numGpus * phyExpertsPerGpu) tokens = replicas at hreplicas
  have hsize : 0 < phyExpertsPerGpu := by
    rcases Nat.eq_zero_or_pos phyExpertsPerGpu with h | h
    · rw [h, Nat.mul_zero] at hle
      omega
    · exact h
  obtain ⟨pack, rank, hpacking, hplaces⟩ := placeNumbers_spec hargsort hsize
    ((length_pick (tokens.zipWith (fun w (c : Nat) => w / (c : ℚ)) replicas.logcnt)
      replicas.phy2log).trans hreplicas.slots)
  rw [hplaces]
  have hpick : (pick replicas.phy2log (inverse ((arange (numGpus * phyExpertsPerGpu)).map
      fun i => pack i * phyExpertsPerGpu + rank i))).Perm replicas.phy2log := by
    refine pick_perm _ ?_
    rw [hreplicas.slots]
    exact inverse_perm hpacking.slots_perm
  refine ⟨hpick.length_eq.trans hreplicas.slots, fun m => ?_⟩
  rw [hpick.mem_iff]
  constructor
  · intro hm
    refine hreplicas.range m ?_
    rw [← hreplicas.slots, List.take_length]
    exact hm
  · intro hm
    exact List.mem_of_getElem? (hreplicas.first m hm)

end Node

section Layer

variable {argsort : List ℚ → List Nat} {groupSize groupsPerNode numNodes gpusPerNode
  phyExpertsPerGpu : Nat} {weight : List ℚ}

/-- The node-local number of an expert. -/
def mlogOf (pack rank : Nat → Nat) (groupsPerNode groupSize e : Nat) : Nat :=
  (pack (e / groupSize) * groupsPerNode + rank (e / groupSize)) * groupSize + e % groupSize

/-- The numbers of the experts of a node are those of its block. -/
theorem mlogOf_eq (pack rank : Nat → Nat) (e : Nat) : mlogOf pack rank groupsPerNode groupSize e
    = pack (e / groupSize) * (groupsPerNode * groupSize)
      + (rank (e / groupSize) * groupSize + e % groupSize) := by
  unfold mlogOf
  rw [Nat.add_mul, Nat.mul_assoc, Nat.add_assoc]

/-- The experts are renumbered so that those of a node follow each other. -/
theorem log2mlog_spec (hargsort : ∀ keys, IsArgsort keys (argsort keys)) (hgroup : 0 < groupSize)
    (hgroups : 0 < groupsPerNode) {tokens : List ℚ}
    (hlen : tokens.length = numNodes * groupsPerNode) :
    ∃ pack rank : Nat → Nat,
      IsPacking (numNodes * groupsPerNode) numNodes groupsPerNode pack rank ∧
      log2mlogRow groupsPerNode groupSize
          (balancedPackingRow argsort numNodes groupsPerNode tokens).1
          (balancedPackingRow argsort numNodes groupsPerNode tokens).2
        = (arange (numNodes * groupsPerNode * groupSize)).map
            (mlogOf pack rank groupsPerNode groupSize) ∧
      ((arange (numNodes * groupsPerNode * groupSize)).map
        (mlogOf pack rank groupsPerNode groupSize)).Perm
          (arange (numNodes * groupsPerNode * groupSize)) := by
  obtain ⟨pack, rank, hpacking, hplaces⟩ := placeNumbers_spec hargsort hgroups hlen
  refine ⟨pack, rank, hpacking, ?_, ?_⟩
  · unfold log2mlogRow
    rw [hplaces, List.flatMap_map]
    exact flatMap_blocks
      (fun g r => (pack g * groupsPerNode + rank g) * groupSize + r) groupSize _
  · have hdiv : ∀ e < numNodes * groupsPerNode * groupSize,
        e / groupSize < numNodes * groupsPerNode := by
      intro e he
      exact Nat.div_lt_of_lt_mul (by rw [Nat.mul_comm]; exact he)
    refine perm_of_injOn (fun e he => ?_) fun e he e' he' heq => ?_
    · exact block_lt (block_lt (hpacking.pack_lt _ (hdiv e he)) (hpacking.rank_lt _ (hdiv e he)))
        (Nat.mod_lt e hgroup)
    · unfold mlogOf at heq
      have hplace := congrArg (· / groupSize) heq
      have hrest := congrArg (· % groupSize) heq
      simp only [block_div (Nat.mod_lt e hgroup), block_div (Nat.mod_lt e' hgroup)] at hplace
      simp only [block_mod (Nat.mod_lt e hgroup), block_mod (Nat.mod_lt e' hgroup)] at hrest
      have hsame := hpacking.slot_inj _ (hdiv e he) _ (hdiv e' he') hplace
      rw [← block_eq groupSize e, hsame, hrest, block_eq]

theorem reshapeRows_length {α : Type} (rows : Nat) (a : List α) :
    (reshapeRows rows a).length = rows := by
  unfold reshapeRows
  rw [List.length_map, List.length_range]

/-- Rows of one length. -/
theorem length_of_mem_reshapeRows {α : Type} {rows cols : Nat} {a : List α}
    (hlen : a.length = rows * cols) {row : List α} (hrow : row ∈ reshapeRows rows a) :
    row.length = cols := by
  unfold reshapeRows at hrow
  obtain ⟨i, hi, rfl⟩ := List.mem_map.mp hrow
  have hi' := List.mem_range.mp hi
  have hdiv : a.length / rows = cols := by
    rw [hlen, Nat.mul_comm, Nat.mul_div_cancel _ (by omega)]
  have hfits : (i + 1) * cols ≤ rows * cols := Nat.mul_le_mul_right _ hi'
  rw [Nat.succ_mul] at hfits
  rw [hdiv, List.length_take, List.length_drop, hlen]
  omega

/-- The rows of the nodes with their offsets, laid one after the other. -/
theorem flatten_offsets {rows cols offset : Nat} {nodes : List (List Nat)}
    (hrows : nodes.length = rows) (hcols : ∀ row ∈ nodes, row.length = cols) :
    (nodes.zipWith (fun slots offset => slots.map (· + offset))
      ((arange rows).map (· * offset))).flatten
      = (arange (rows * cols)).map fun s => (nodes.getD (s / cols) []).getD (s % cols) 0
        + s / cols * offset := by
  have hnodes : nodes = (arange rows).map fun i => nodes.getD i [] := by
    conv_lhs => rw [eq_map_arange nodes [], hrows]
  rw [← flatMap_blocks (fun i r => (nodes.getD i []).getD r 0 + i * offset), ← List.flatMap_id]
  conv_lhs => rw [hnodes, zipWith_maps]
  rw [List.flatMap_map]
  refine List.flatMap_congr fun i hi => ?_
  have hi' : i < nodes.length := hrows.symm ▸ List.mem_range.mp hi
  have hlen : (nodes.getD i []).length = cols := by
    rw [List.getD_eq_getElem _ _ hi']
    exact hcols _ (List.getElem_mem hi')
  show (nodes.getD i []).map (· + i * offset) = _
  conv_lhs => rw [eq_map_arange (nodes.getD i []) 0, hlen, List.map_map]
  rfl

/-- The slots of the layer: each holds an expert, on the node of the expert's group. -/
theorem rebalanceLayer_spec (hargsort : ∀ keys, IsArgsort keys (argsort keys))
    (hgroup : 0 < groupSize) (hgroups : 0 < groupsPerNode)
    (hlen : weight.length = numNodes * groupsPerNode * groupSize)
    (hle : groupsPerNode * groupSize ≤ gpusPerNode * phyExpertsPerGpu) :
    ∃ node : Nat → Nat,
      (rebalanceLayer argsort groupSize groupsPerNode numNodes gpusPerNode phyExpertsPerGpu
        weight).length = numNodes * (gpusPerNode * phyExpertsPerGpu) ∧
      (∀ slot e, (rebalanceLayer argsort groupSize groupsPerNode numNodes gpusPerNode
          phyExpertsPerGpu weight)[slot]? = some e →
        e < weight.length ∧ slot / (gpusPerNode * phyExpertsPerGpu) = node (e / groupSize)) ∧
      ∀ e < weight.length, e ∈ rebalanceLayer argsort groupSize groupsPerNode numNodes gpusPerNode
        phyExpertsPerGpu weight := by
  have hpos : 0 < groupsPerNode * groupSize := Nat.mul_pos hgroups hgroup
  have htokens : ((reshapeRows (numNodes * groupsPerNode) weight).map List.sum).length
      = numNodes * groupsPerNode := by
    rw [List.length_map, reshapeRows_length]
  obtain ⟨pack, rank, hpacking, hlog2mlog, hperm⟩ :=
    log2mlog_spec hargsort hgroup hgroups htokens
  unfold rebalanceLayer mlog2logRow
  dsimp only
  rw [hlog2mlog]
  generalize hL : (arange (numNodes * groupsPerNode * groupSize)).map
    (mlogOf pack rank groupsPerNode groupSize) = log2mlog at hperm
  have hinvlen : (inverse log2mlog).length = numNodes * (groupsPerNode * groupSize) := by
    rw [length_inverse, length_of_perm_arange hperm, Nat.mul_assoc]
  have hmlog : ∀ e < weight.length,
      log2mlog[e]? = some (mlogOf pack rank groupsPerNode groupSize e) := by
    intro e he
    rw [hlen] at he
    rw [← hL, List.getElem?_map, arange, List.getElem?_range he]
    rfl
  -- the rows of the nodes
  have htokensNode : ∀ tokens ∈ reshapeRows numNodes (pick weight (inverse log2mlog)),
      tokens.length = groupsPerNode * groupSize :=
    fun tokens htok => length_of_mem_reshapeRows ((length_pick _ _).trans hinvlen) htok
  generalize hnodes : (reshapeRows numNodes (pick weight (inverse log2mlog))).map
    (rebalanceNode argsort (gpusPerNode * phyExpertsPerGpu) gpusPerNode phyExpertsPerGpu) = nodes
  have hnodeslen : nodes.length = numNodes := by
    rw [← hnodes, List.length_map, reshapeRows_length]
  have hnode : ∀ row ∈ nodes, row.length = gpusPerNode * phyExpertsPerGpu ∧
      ∀ m, m ∈ row ↔ m < groupsPerNode * groupSize := by
    intro row hrow
    rw [← hnodes] at hrow
    obtain ⟨tokens, htok, rfl⟩ := List.mem_map.mp hrow
    have hfew : tokens.length ≤ gpusPerNode * phyExpertsPerGpu := by
      rw [htokensNode tokens htok]
      exact hle
    have hspec := rebalanceNode_spec hargsort (by rw [htokensNode tokens htok]; exact hpos) hfew
    rw [htokensNode tokens htok] at hspec
    exact hspec
  rw [flatten_offsets hnodeslen fun row hrow => (hnode row hrow).1]
  have hP : 0 < gpusPerNode * phyExpertsPerGpu := Nat.lt_of_lt_of_le hpos hle
  have hrowOf : ∀ i < numNodes, nodes.getD i [] ∈ nodes := by
    intro i hi
    rw [List.getD_eq_getElem _ _ (hnodeslen.symm ▸ hi)]
    exact List.getElem_mem _
  refine ⟨pack, ?_, ?_, ?_⟩
  · rw [length_pick, List.length_map, arange, List.length_range]
  · intro slot e hslot
    unfold pick at hslot
    rw [List.map_map, List.getElem?_map] at hslot
    obtain ⟨s, hs, hse⟩ := Option.map_eq_some_iff.mp hslot
    have hslotlt : slot < numNodes * (gpusPerNode * phyExpertsPerGpu) := by
      have hlt := (List.getElem?_eq_some_iff.mp hs).1
      rw [arange, List.length_range] at hlt
      exact hlt
    have hself : s = slot := by
      rw [arange, List.getElem?_range hslotlt] at hs
      exact (Option.some.inj hs).symm
    rw [hself] at hse
    have hi : slot / (gpusPerNode * phyExpertsPerGpu) < numNodes :=
      Nat.div_lt_of_lt_mul (by rw [Nat.mul_comm]; exact hslotlt)
    obtain ⟨hrowlen, hrowmem⟩ := hnode _ (hrowOf _ hi)
    have hr : slot % (gpusPerNode * phyExpertsPerGpu) < (nodes.getD
        (slot / (gpusPerNode * phyExpertsPerGpu)) []).length :=
      hrowlen.symm ▸ Nat.mod_lt slot hP
    have hm : (nodes.getD (slot / (gpusPerNode * phyExpertsPerGpu)) []).getD
        (slot % (gpusPerNode * phyExpertsPerGpu)) 0 < groupsPerNode * groupSize := by
      rw [← hrowmem, List.getD_eq_getElem _ _ hr]
      exact List.getElem_mem hr
    -- the number that the slot holds is that of its expert
    have hx : (nodes.getD (slot / (gpusPerNode * phyExpertsPerGpu)) []).getD
        (slot % (gpusPerNode * phyExpertsPerGpu)) 0
        + slot / (gpusPerNode * phyExpertsPerGpu) * (groupsPerNode * groupSize)
        < (inverse log2mlog).length := by
      rw [hinvlen, Nat.add_comm]
      exact block_lt hi hm
    have hinv : (inverse log2mlog)[(nodes.getD (slot / (gpusPerNode * phyExpertsPerGpu)) []).getD
        (slot % (gpusPerNode * phyExpertsPerGpu)) 0
        + slot / (gpusPerNode * phyExpertsPerGpu) * (groupsPerNode * groupSize)]? = some e := by
      rw [← hse]
      show _ = some ((inverse log2mlog).getD _ default)
      rw [List.getD_eq_getElem _ _ hx]
      exact List.getElem?_eq_getElem hx
    have he := (getElem?_inverse_iff hperm).mp hinv
    have helt : e < weight.length := by
      have hlt := (List.getElem?_eq_some_iff.mp he).1
      rw [length_of_perm_arange hperm] at hlt
      rw [hlen]
      exact hlt
    refine ⟨helt, ?_⟩
    rw [hmlog e helt, mlogOf_eq] at he
    have hrank : rank (e / groupSize) * groupSize + e % groupSize < groupsPerNode * groupSize := by
      refine block_lt (hpacking.rank_lt _ ?_) (Nat.mod_lt e hgroup)
      exact Nat.div_lt_of_lt_mul (by rw [Nat.mul_comm, ← hlen]; exact helt)
    have hdiv := congrArg (· / (groupsPerNode * groupSize)) (Option.some.inj he)
    simp only [block_div hrank] at hdiv
    rw [hdiv, Nat.add_comm, block_div hm]
  · intro e he
    have hgroupOf : e / groupSize < numNodes * groupsPerNode :=
      Nat.div_lt_of_lt_mul (by rw [Nat.mul_comm, ← hlen]; exact he)
    have hi := hpacking.pack_lt _ hgroupOf
    have hrank : rank (e / groupSize) * groupSize + e % groupSize < groupsPerNode * groupSize :=
      block_lt (hpacking.rank_lt _ hgroupOf) (Nat.mod_lt e hgroup)
    obtain ⟨hrowlen, hrowmem⟩ := hnode _ (hrowOf _ hi)
    obtain ⟨r, hr⟩ := List.mem_iff_getElem?.mp ((hrowmem _).mpr hrank)
    have hrlt : r < gpusPerNode * phyExpertsPerGpu :=
      hrowlen ▸ (List.getElem?_eq_some_iff.mp hr).1
    unfold pick
    rw [List.map_map]
    refine List.mem_map.mpr ⟨pack (e / groupSize) * (gpusPerNode * phyExpertsPerGpu) + r,
      List.mem_range.mpr (block_lt hi hrlt), ?_⟩
    show (inverse log2mlog).getD ((nodes.getD (_ / _) []).getD (_ % _) 0 + _ / _ * _) default = e
    rw [block_div hrlt, block_mod hrlt, List.getD_eq_getElem?_getD, List.getD_eq_getElem?_getD, hr]
    show (inverse log2mlog)[rank (e / groupSize) * groupSize + e % groupSize
      + pack (e / groupSize) * (groupsPerNode * groupSize)]?.getD default = e
    rw [Nat.add_comm, ← mlogOf_eq, (getElem?_inverse_iff hperm).mpr (hmlog e he)]
    rfl

end Layer

/-! ## All layers -/

section Layers

variable {argsort : List ℚ → List Nat} {groupSize groupsPerNode numNodes gpusPerNode
  phyExpertsPerGpu : Nat} {weight : List (List ℚ)}

theorem zipWith_map_self {α β γ : Type} (f : α → β → γ) (g : α → β) (l : List α) :
    l.zipWith f (l.map g) = l.map fun x => f x (g x) := by
  rw [List.zipWith_map_right, List.zipWith_self]

theorem flatten_reshapeRows {α : Type} {a : List α} {rows cols : Nat}
    (hlen : a.length = rows * cols) : (reshapeRows rows a).flatten = a := by
  rcases Nat.eq_zero_or_pos rows with hzero | hpos
  · rw [hzero, Nat.zero_mul] at hlen
    rw [List.length_eq_zero_iff.mp hlen, hzero]
    rfl
  · have hdiv : a.length / rows = cols := by
      rw [hlen, Nat.mul_div_cancel_left _ hpos]
    have hparts : ∀ count, ((List.range count).map fun i => (a.drop (i * cols)).take cols).flatten
        = a.take (count * cols) := by
      intro count
      induction count with
      | zero => rw [Nat.zero_mul]; rfl
      | succ count ih =>
        rw [List.range_succ, List.map_append, List.flatten_append, ih, Nat.succ_mul, List.take_add,
          List.map_singleton, List.flatten_singleton]
    unfold reshapeRows
    rw [hdiv, hparts, List.take_of_length_le (Nat.le_of_eq hlen)]

/-- Reading the rows of a matrix in parts of one size. -/
theorem reshapeCols_eq {α β : Type} {f : β → List α} {rows cols : Nat} {l : List β}
    (hcols : 0 < cols) (hlen : ∀ x ∈ l, (f x).length = rows * cols) :
    reshapeCols cols (l.map f) = l.flatMap fun x => reshapeRows rows (f x) := by
  have hparts : ∀ part ∈ l.flatMap (fun x => reshapeRows rows (f x)), part.length = cols := by
    intro part hpart
    obtain ⟨x, hx, hin⟩ := List.mem_flatMap.mp hpart
    exact length_of_mem_reshapeRows (hlen x hx) hin
  have hcount : (l.flatMap fun x => reshapeRows rows (f x)).length = l.length * rows := by
    rw [List.length_flatMap, List.map_congr_left fun x _ => reshapeRows_length rows (f x)]
    simp
  have hflat : (l.map f).flatten = (l.flatMap fun x => reshapeRows rows (f x)).flatMap id := by
    rw [← List.flatMap_def, List.flatMap_assoc]
    refine List.flatMap_congr fun x hx => ?_
    rw [List.flatMap_id]
    exact (flatten_reshapeRows (hlen x hx)).symm
  have htotal : (l.map f).flatten.length = l.length * rows * cols := by
    have hlens : (l.flatMap fun x => reshapeRows rows (f x)).map (fun part => (id part).length)
        = (l.flatMap fun x => reshapeRows rows (f x)).map fun _ => cols :=
      List.map_congr_left hparts
    rw [hflat, List.length_flatMap, hlens, List.map_const', List.sum_replicate_nat, hcount]
  have hread := reshapeRows_flatMap (f := id) hparts
  rw [List.map_id] at hread
  unfold reshapeCols
  rw [htotal, Nat.mul_div_cancel _ hcols, ← hcount, hflat, hread]

theorem arangeStep_mul (count : Nat) {step : Nat} (hstep : 0 < step) :
    arangeStep (count * step) step = (arange count).map (· * step) := by
  have hdiv : (count * step + step - 1) / step = count := by
    rw [Nat.add_sub_assoc hstep]
    exact block_div (by omega)
  unfold arangeStep
  rw [hdiv]

theorem balancedPacking_eq (argsort : List ℚ → List Nat) {numPacks size : Nat}
    {rows : List (List ℚ)} (hne : rows ≠ []) (hpacks : 0 < numPacks)
    (hrows : ∀ row ∈ rows, row.length = numPacks * size) :
    balancedPacking argsort rows numPacks
      = .ok (rows.map fun row => (balancedPackingRow argsort numPacks size row).1,
          rows.map fun row => (balancedPackingRow argsort numPacks size row).2) := by
  have hhead : (rows.headD []).length = numPacks * size := by
    cases rows with
    | nil => exact absurd rfl hne
    | cons row rest => exact hrows row List.mem_cons_self
  unfold balancedPacking
  dsimp only
  rw [if_neg (by omega), hhead, Nat.mul_mod_right, if_neg (fun h => h rfl),
    Nat.mul_div_cancel_left _ hpacks, List.map_map, List.map_map]
  rfl

theorem replicateExperts_eq {numLog numPhy : Nat} {rows : List (List ℚ)} (hne : rows ≠ [])
    (hpos : 0 < numLog) (hle : numLog ≤ numPhy) (hrows : ∀ row ∈ rows, row.length = numLog) :
    replicateExperts rows numPhy = .ok (rows.map fun row => (replicateExpertsRow numPhy row).phy2log,
      rows.map fun row => (replicateExpertsRow numPhy row).logcnt) := by
  have hhead : (rows.headD []).length = numLog := by
    cases rows with
    | nil => exact absurd rfl hne
    | cons row rest => exact hrows row List.mem_cons_self
  unfold replicateExperts
  dsimp only
  rw [hhead, if_neg (by omega), if_neg (by omega), List.map_map, List.map_map]
  rfl

theorem mlog2logRows_eq (argsort : List ℚ → List Nat) (weight : List (List ℚ)) :
    (((weight.map fun row => (reshapeRows (numNodes * groupsPerNode) row).map List.sum).map
        fun tokens => (balancedPackingRow argsort numNodes groupsPerNode tokens).1).zipWith
      (log2mlogRow groupsPerNode groupSize)
      ((weight.map fun row => (reshapeRows (numNodes * groupsPerNode) row).map List.sum).map
        fun tokens => (balancedPackingRow argsort numNodes groupsPerNode tokens).2)).map inverse
      = weight.map (mlog2logRow argsort groupSize groupsPerNode numNodes) := by
  rw [List.map_map, List.map_map, zipWith_maps, List.map_map]
  rfl

theorem length_pick_mlog2log {row : List ℚ} (hargsort : ∀ keys, IsArgsort keys (argsort keys))
    (hgroup : 0 < groupSize) (hgroups : 0 < groupsPerNode) :
    (pick row (mlog2logRow argsort groupSize groupsPerNode numNodes row)).length
      = numNodes * (groupsPerNode * groupSize) := by
  have htokens : ((reshapeRows (numNodes * groupsPerNode) row).map List.sum).length
      = numNodes * groupsPerNode := by
    rw [List.length_map, reshapeRows_length]
  obtain ⟨pack, rank, -, hlog2mlog, -⟩ :=
    log2mlog_spec hargsort hgroup hgroups htokens
  unfold mlog2logRow
  dsimp only
  rw [length_pick, length_inverse, hlog2mlog, List.length_map, arange, List.length_range,
    Nat.mul_assoc]

/-- The layers do not meet. -/
theorem rebalanceExpertsHierarchical_eq (hne : weight ≠ [])
    (hgroup : 0 < groupSize) (hgroups : 0 < groupsPerNode) (hnodes : 0 < numNodes)
    (hgpus : 0 < gpusPerNode)
    (hrows : ∀ row ∈ weight, row.length = numNodes * groupsPerNode * groupSize)
    (hle : groupsPerNode * groupSize ≤ gpusPerNode * phyExpertsPerGpu)
    (hargsort : ∀ keys, IsArgsort keys (argsort keys)) :
    rebalanceExpertsHierarchical argsort weight (numNodes * gpusPerNode * phyExpertsPerGpu)
        (numNodes * groupsPerNode) numNodes (numNodes * gpusPerNode)
      = .ok (weight.map (rebalanceLayer argsort groupSize groupsPerNode numNodes gpusPerNode
          phyExpertsPerGpu)) := by
  have hhead : (weight.headD []).length = numNodes * groupsPerNode * groupSize := by
    cases weight with
    | nil => exact absurd rfl hne
    | cons row rest => exact hrows row List.mem_cons_self
  have hG : 0 < numNodes * groupsPerNode := Nat.mul_pos hnodes hgroups
  have hU : 0 < numNodes * gpusPerNode := Nat.mul_pos hnodes hgpus
  have hnpn : 0 < groupsPerNode * groupSize := Nat.mul_pos hgroups hgroup
  unfold rebalanceExpertsHierarchical
  dsimp only
  rw [hhead, if_neg (by omega), Nat.mul_mod_right, if_neg (fun h => h rfl), if_neg (by omega),
    Nat.mul_mod_right, if_neg (fun h => h rfl), Nat.mul_mod_right, if_neg (fun h => h rfl),
    if_neg (by omega), Nat.mul_mod_right, if_neg (fun h => h rfl)]
  rw [show numNodes * groupsPerNode * groupSize / numNodes = groupsPerNode * groupSize by
      rw [Nat.mul_assoc, Nat.mul_div_cancel_left _ hnodes],
    show numNodes * gpusPerNode * phyExpertsPerGpu / numNodes = gpusPerNode * phyExpertsPerGpu by
      rw [Nat.mul_assoc, Nat.mul_div_cancel_left _ hnodes],
    Nat.mul_div_cancel_left groupsPerNode hnodes, Nat.mul_div_cancel_left groupSize hG,
    Nat.mul_div_cancel_left gpusPerNode hnodes, Nat.mul_div_cancel_left phyExpertsPerGpu hU]
  -- step 1
  have hgrouped : ∀ tokens ∈ weight.map fun row =>
      (reshapeRows (numNodes * groupsPerNode) row).map List.sum,
      tokens.length = numNodes * groupsPerNode := by
    intro tokens htok
    obtain ⟨row, -, rfl⟩ := List.mem_map.mp htok
    rw [List.length_map, reshapeRows_length]
  rw [balancedPacking_eq argsort (fun h => hne (List.map_eq_nil_iff.mp h)) hnodes hgrouped,
    Raises.ok_bind]
  dsimp only
  rw [if_neg (by
    have hlayers := List.length_pos_iff.mpr hne
    omega)]
  rw [mlog2logRows_eq, zipWith_map_self, reshapeCols_eq hnpn fun row hrow =>
    length_pick_mlog2log hargsort hgroup hgroups]
  -- step 2, on the parts of the rows
  have hparts : ∀ part ∈ weight.flatMap (fun row => reshapeRows numNodes
      (pick row (mlog2logRow argsort groupSize groupsPerNode numNodes row))),
      part.length = groupsPerNode * groupSize := by
    intro part hpart
    obtain ⟨row, hrow, hin⟩ := List.mem_flatMap.mp hpart
    exact length_of_mem_reshapeRows (length_pick_mlog2log hargsort hgroup hgroups) hin
  have hpartsne : weight.flatMap (fun row => reshapeRows numNodes
      (pick row (mlog2logRow argsort groupSize groupsPerNode numNodes row))) ≠ [] := by
    intro hnil
    have hlen := congrArg List.length hnil
    rw [List.length_flatMap, List.map_congr_left fun row _ => reshapeRows_length numNodes _,
      List.map_const', List.sum_replicate_nat] at hlen
    exact Nat.ne_of_gt (Nat.mul_pos (List.length_pos_iff.mpr hne) hnodes) hlen
  rw [replicateExperts_eq hpartsne hnpn hle hparts, Raises.ok_bind]
  dsimp only
  rw [zipWith_map_self, zipWith_maps]
  -- step 3
  rw [@balancedPacking_eq argsort _ phyExpertsPerGpu _
    (fun h => hpartsne (List.map_eq_nil_iff.mp h)) hgpus (fun tokens htok => by
      obtain ⟨part, hpart, rfl⟩ := List.mem_map.mp htok
      rw [length_pick]
      exact (replicateExpertsRow_spec (by rw [hparts part hpart]; exact hnpn)
        (by rw [hparts part hpart]; exact hle)).slots), Raises.ok_bind]
  dsimp only
  rw [List.map_map, List.map_map, zipWith_maps, List.map_map, zipWith_maps]
  refine congrArg Except.ok ?_
  have hnode : ∀ part ∈ weight.flatMap (fun row => reshapeRows numNodes
      (pick row (mlog2logRow argsort groupSize groupsPerNode numNodes row))),
      (rebalanceNode argsort (gpusPerNode * phyExpertsPerGpu) gpusPerNode phyExpertsPerGpu
        part).length = gpusPerNode * phyExpertsPerGpu := by
    intro part hpart
    exact (rebalanceNode_spec hargsort (by rw [hparts part hpart]; exact hnpn)
      (by rw [hparts part hpart]; exact hle)).1
  have hflat : ((weight.flatMap fun row => reshapeRows numNodes
      (pick row (mlog2logRow argsort groupSize groupsPerNode numNodes row))).map
        (rebalanceNode argsort (gpusPerNode * phyExpertsPerGpu) gpusPerNode phyExpertsPerGpu)).flatten
      = weight.flatMap fun row => (reshapeRows numNodes
          (pick row (mlog2logRow argsort groupSize groupsPerNode numNodes row))).flatMap
            (rebalanceNode argsort (gpusPerNode * phyExpertsPerGpu) gpusPerNode phyExpertsPerGpu) := by
    rw [← List.flatMap_def, List.flatMap_assoc]
  have hnodeOf : ∀ row ∈ weight, ∀ part ∈ reshapeRows numNodes
      (pick row (mlog2logRow argsort groupSize groupsPerNode numNodes row)),
      (rebalanceNode argsort (gpusPerNode * phyExpertsPerGpu) gpusPerNode phyExpertsPerGpu
        part).length = gpusPerNode * phyExpertsPerGpu :=
    fun row hrow part hpart => hnode part (List.mem_flatMap.mpr ⟨row, hrow, hpart⟩)
  have hread := reshapeRows_flatMap (k := numNodes * (gpusPerNode * phyExpertsPerGpu))
    (f := fun row => (reshapeRows numNodes
      (pick row (mlog2logRow argsort groupSize groupsPerNode numNodes row))).flatMap
        (rebalanceNode argsort (gpusPerNode * phyExpertsPerGpu) gpusPerNode phyExpertsPerGpu))
    (fun row (hrow : row ∈ weight) => by
      rw [List.length_flatMap, List.map_congr_left (hnodeOf row hrow), List.map_const',
        List.sum_replicate_nat, reshapeRows_length])
  refine Eq.trans (congrArg (fun rows => List.zipWith pick
    (weight.map (mlog2logRow argsort groupSize groupsPerNode numNodes))
    (rows.map fun row => ((reshapeRows numNodes row).zipWith
      (fun slots offset => slots.map (· + offset))
      (arangeStep (numNodes * groupsPerNode * groupSize) (groupsPerNode * groupSize))).flatten))
    ((congrArg (reshapeRows weight.length) hflat).trans hread)) ?_
  rw [List.map_map, zipWith_maps, Nat.mul_assoc numNodes, arangeStep_mul numNodes hnpn]
  refine List.map_congr_left fun row hrow => ?_
  have hnodesRow := reshapeRows_flatMap (k := gpusPerNode * phyExpertsPerGpu) (hnodeOf row hrow)
  rw [reshapeRows_length] at hnodesRow
  unfold rebalanceLayer
  dsimp only [Function.comp_apply]
  rw [hnodesRow]

/-- What the sizes must be like. -/
structure Accepted (numLogicalExperts numPhysicalExperts numGroups numNodes numGpus : Nat) : Prop where
  logical : 0 < numLogicalExperts
  groups : numLogicalExperts % numGroups = 0
  nodes : numGroups % numNodes = 0
  nodes_pos : 0 < numNodes
  gpus : numGpus % numNodes = 0
  gpus_pos : 0 < numGpus
  physical : numPhysicalExperts % numGpus = 0
  redundant : numLogicalExperts ≤ numPhysicalExperts

/-- A map of slots to experts in which the experts of a group stay on one node. -/
structure ValidPlacement (numLogicalExperts numPhysicalExperts groupSize phyExpertsPerGpu
    gpusPerNode : Nat) (phy2log : List Nat) : Prop where
  slots : phy2log.length = numPhysicalExperts
  range : ∀ e ∈ phy2log, e < numLogicalExperts
  covered : ∀ e < numLogicalExperts, e ∈ phy2log
  node : ∀ slot slot' e e' : Nat, phy2log[slot]? = some e → phy2log[slot']? = some e' →
    e / groupSize = e' / groupSize →
    slot / phyExpertsPerGpu / gpusPerNode = slot' / phyExpertsPerGpu / gpusPerNode

/-- Every layer is placed validly; the replicas of an expert have the numbers below its count,
and `logcnt` is that count. -/
theorem rebalance_valid {numLogicalExperts numPhysicalExperts numGroups numGpus : Nat}
    (hargsort : ∀ keys, IsArgsort keys (argsort keys)) (hne : weight ≠ [])
    (hrows : ∀ row ∈ weight, row.length = numLogicalExperts)
    (haccepted : Accepted numLogicalExperts numPhysicalExperts numGroups numNodes numGpus) :
    ∃ phy2log, rebalanceExpertsHierarchical argsort weight numPhysicalExperts numGroups numNodes
        numGpus = .ok phy2log ∧ phy2log.length = weight.length ∧
      ∀ (layer : Nat) (row : List Nat), phy2log[layer]? = some row →
        ValidPlacement numLogicalExperts numPhysicalExperts (numLogicalExperts / numGroups)
          (numPhysicalExperts / numGpus) (numGpus / numNodes) row ∧
        (∀ e < numLogicalExperts,
          (((row.map Int.ofNat).zip (phyReplicasIdx (row.map Int.ofNat))).filter
            fun r => decide (r.1 = (e : Int))).map Prod.snd = List.range (row.count e)) ∧
        ∃ logcnt, (computeLogicalMaps (phy2log.map (·.map Int.ofNat)) numLogicalExperts).2[layer]?
            = some logcnt ∧ logcnt.length = numLogicalExperts ∧
          ∀ e < numLogicalExperts, logcnt.getD e 0 = row.count e := by
  obtain ⟨groupsPerNode, rfl⟩ := Nat.dvd_of_mod_eq_zero haccepted.nodes
  obtain ⟨groupSize, rfl⟩ := Nat.dvd_of_mod_eq_zero haccepted.groups
  obtain ⟨gpusPerNode, rfl⟩ := Nat.dvd_of_mod_eq_zero haccepted.gpus
  obtain ⟨phyExpertsPerGpu, rfl⟩ := Nat.dvd_of_mod_eq_zero haccepted.physical
  have hnodes := haccepted.nodes_pos
  have hgpus : 0 < gpusPerNode := Nat.pos_of_mul_pos_left haccepted.gpus_pos
  have hgroup : 0 < groupSize := Nat.pos_of_mul_pos_left haccepted.logical
  have hG : 0 < numNodes * groupsPerNode := Nat.pos_of_mul_pos_right haccepted.logical
  have hgroups : 0 < groupsPerNode := Nat.pos_of_mul_pos_left hG
  have hle : groupsPerNode * groupSize ≤ gpusPerNode * phyExpertsPerGpu := by
    have h := haccepted.redundant
    rw [Nat.mul_assoc, Nat.mul_assoc] at h
    exact Nat.le_of_mul_le_mul_left h hnodes
  refine ⟨_, rebalanceExpertsHierarchical_eq hne hgroup hgroups hnodes hgpus hrows hle hargsort,
    List.length_map _, fun layer row hlayer => ?_⟩
  rw [List.getElem?_map] at hlayer
  obtain ⟨tokens, htokens, rfl⟩ := Option.map_eq_some_iff.mp hlayer
  have hlen := hrows tokens (List.mem_of_getElem? htokens)
  obtain ⟨node, hslots, hrange, hcovered⟩ :=
    rebalanceLayer_spec hargsort hgroup hgroups hlen hle
  rw [hlen] at hrange hcovered
  rw [Nat.mul_div_cancel_left _ hG, Nat.mul_div_cancel_left _ haccepted.gpus_pos,
    Nat.mul_div_cancel_left _ hnodes]
  have hinj : ∀ (l : List Nat) (e : Nat), (l.map Int.ofNat).count (e : Int) = l.count e :=
    fun l e => List.count_map_of_injective l Int.ofNat Int.ofNat_injective e
  have hbound : ∀ row ∈ (weight.map (rebalanceLayer argsort groupSize groupsPerNode numNodes
      gpusPerNode phyExpertsPerGpu)).map (·.map Int.ofNat), ∀ e ∈ row,
      e < ((numNodes * groupsPerNode * groupSize : Nat) : Int) := by
    intro row hrow e he
    obtain ⟨nats, hnats, rfl⟩ := List.mem_map.mp hrow
    obtain ⟨tokens', htokens', rfl⟩ := List.mem_map.mp hnats
    obtain ⟨n, hn, rfl⟩ := List.mem_map.mp he
    obtain ⟨node', -, hrange', -⟩ :=
      rebalanceLayer_spec hargsort hgroup hgroups (hrows tokens' htokens') hle
    rw [hrows tokens' htokens'] at hrange'
    obtain ⟨slot, hslot⟩ := List.mem_iff_getElem?.mp hn
    exact Int.ofNat_lt.mpr (hrange' slot n hslot).1
  obtain ⟨slots, counts, -, hcounts, hcountslen, hcount, -⟩ := @computeLogicalMaps_spec _ _ hbound
    layer _ (by rw [List.getElem?_map, List.getElem?_map, htokens]; rfl)
  refine ⟨⟨?_, ?_, hcovered, ?_⟩, ?_, counts, hcounts, hcountslen, ?_⟩
  · rw [hslots, Nat.mul_assoc]
  · intro e he
    obtain ⟨slot, hslot⟩ := List.mem_iff_getElem?.mp he
    exact (hrange slot e hslot).1
  · intro slot slot' e e' hslot hslot' hsame
    rw [Nat.div_div_eq_div_mul, Nat.div_div_eq_div_mul, Nat.mul_comm phyExpertsPerGpu,
      (hrange slot e hslot).2, (hrange slot' e' hslot').2, hsame]
  · intro e _
    rw [phyReplicasIdx_expert, hinj]
  · intro e he
    rw [hcount e he, hinj]

/-- Two layers of four experts in two groups, with six slots on two GPUs. -/
theorem rebalance_valid_two : ∃ phy2log, rebalanceExpertsHierarchical Numpy.argsort
      [[4, 1, 3, 2], [0, 0, 7, 7]] 6 2 2 2 = .ok phy2log ∧ phy2log.length = 2 ∧
    ∀ (layer : Nat) (row : List Nat), phy2log[layer]? = some row →
      ValidPlacement 4 6 (4 / 2) (6 / 2) (2 / 2) row ∧
      (∀ e : Nat, e < 4 → (((row.map Int.ofNat).zip (phyReplicasIdx (row.map Int.ofNat))).filter
        fun r => decide (r.1 = (e : Int))).map Prod.snd = List.range (row.count e)) ∧
      ∃ logcnt, (computeLogicalMaps (phy2log.map (·.map Int.ofNat)) 4).2[layer]? = some logcnt ∧
        logcnt.length = 4 ∧ ∀ e < 4, logcnt.getD e 0 = row.count e :=
  rebalance_valid isArgsort_argsort
    (show ([[4, 1, 3, 2], [0, 0, 7, 7]] : List (List ℚ)) ≠ [] from List.cons_ne_nil _ _)
    (fun row hrow => by
      rcases List.mem_cons.mp hrow with h | h
      · rw [h]
        rfl
      · rw [List.mem_singleton.mp h]
        rfl)
    (show Accepted 4 6 2 2 2 from
      ⟨Nat.succ_pos 3, rfl, rfl, Nat.succ_pos 1, rfl, Nat.succ_pos 1, rfl, by decide⟩)

end Layers

end VllmEngine.Distributed.Eplb
