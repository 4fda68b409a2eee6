import VllmEngine.Distributed.ExpertReplicas
import VllmEngine.Lib.Python
import Mathlib.Algebra.Order.Ring.Rat
import Mathlib.Algebra.Order.Monoid.Unbundled.WithTop

/-!
# Packing and replication of experts

`balanced_packing` gives every pack the same number of items: from the heaviest item on, each
goes to the lightest pack that is not full. `replicate_experts` starts with one replica of each
expert and adds one to the most loaded expert at a time.

> `balancedPackingRow_spec`: each item has its own place, in packs of the given size, whatever
> the weights and the order of ties,
> `replicateExpertsRow_spec`: every slot has an expert, the first ones each of them, and
> `logcnt` counts their slots.
-/

namespace VllmEngine.Distributed.Eplb

open Numpy Python

/-! ## Packing -/

/-- The loop of `balanced_packing` in one layer. A full pack has no weight in `weightsRow`, as
`inf` in the source. -/
structure Packing where
  packIndex : List Int
  rankInPack : List Int
  weightsRow : List (WithTop ℚ)
  itemsRow : List Nat

def packGroup (groupsPerPack : Nat) (weight : List ℚ) (s : Packing) (group : Nat) : Packing :=
  -- the lightest pack; full packs are masked out
  let pack := argmin s.weightsRow
  let items := s.itemsRow.getD pack 0
  { packIndex := s.packIndex.set group pack
    rankInPack := s.rankInPack.set group items
    weightsRow := s.weightsRow.set pack
      (if items + 1 = groupsPerPack then ⊤
        else s.weightsRow.getD pack 0 + (weight.getD group 0 : ℚ))
    itemsRow := s.itemsRow.set pack (items + 1) }

/-- `balanced_packing` in one layer: the pack of every item, and its rank there. -/
def balancedPackingRow (argsort : List ℚ → List Nat) (numPacks groupsPerPack : Nat)
    (weight : List ℚ) : List Int × List Int :=
  if groupsPerPack = 1 then
    ((arange weight.length).map fun i : Nat => (i : Int), List.replicate weight.length 0)
  else
    let packed := (argsort (weight.map (- ·))).foldl (packGroup groupsPerPack weight)
      ⟨List.replicate weight.length (-1), List.replicate weight.length (-1),
        List.replicate numPacks 0, List.replicate numPacks 0⟩
    (packed.packIndex, packed.rankInPack)

/-- `balanced_packing`. -/
def balancedPacking (argsort : List ℚ → List Nat) (weight : List (List ℚ)) (numPacks : Nat) :
    Except Error (List (List Int) × List (List Int)) :=
  let numGroups := (weight.headD []).length
  if numPacks = 0 then .error (.zeroDivision "integer modulo by zero")
  else if numGroups % numPacks ≠ 0 then .error (.assertion "num_groups % num_packs == 0")
  else
    let rows := weight.map (balancedPackingRow argsort numPacks (numGroups / numPacks))
    .ok (rows.map Prod.fst, rows.map Prod.snd)

/-- A place in a pack for every item. -/
structure IsPacking (n numPacks size : Nat) (pack rank : Nat → Nat) : Prop where
  pack_lt : ∀ i < n, pack i < numPacks
  rank_lt : ∀ i < n, rank i < size
  inj : ∀ i < n, ∀ j < n, pack i = pack j → rank i = rank j → i = j

theorem IsPacking.slot_inj {n numPacks size : Nat} {pack rank : Nat → Nat}
    (h : IsPacking n numPacks size pack rank) : ∀ i < n, ∀ j < n,
      pack i * size + rank i = pack j * size + rank j → i = j := by
  intro i hi j hj hij
  have hpack : pack i = pack j := by
    have hdiv := congrArg (· / size) hij
    simp only [block_div (h.rank_lt i hi), block_div (h.rank_lt j hj)] at hdiv
    exact hdiv
  rw [hpack] at hij
  exact h.inj i hi j hj hpack (Nat.add_left_cancel hij)

/-- The places are numbered through. -/
theorem IsPacking.slots_perm {numPacks size : Nat} {pack rank : Nat → Nat}
    (h : IsPacking (numPacks * size) numPacks size pack rank) :
    ((arange (numPacks * size)).map fun i => pack i * size + rank i).Perm
      (arange (numPacks * size)) :=
  perm_of_injOn (fun i hi => block_lt (h.pack_lt i hi) (h.rank_lt i hi)) h.slot_inj

/-- The items in `done` have their places. -/
structure Packed (n numPacks size : Nat) (done : List Nat) (s : Packing) : Prop where
  packs_length : s.packIndex.length = n
  ranks_length : s.rankInPack.length = n
  weights_length : s.weightsRow.length = numPacks
  items_length : s.itemsRow.length = numPacks
  items_le : ∀ p < numPacks, s.itemsRow.getD p 0 ≤ size
  items_sum : s.itemsRow.sum = done.length
  full : ∀ p < numPacks, s.weightsRow[p]? = some ⊤ → s.itemsRow.getD p 0 = size
  top : ∀ p < numPacks, s.itemsRow.getD p 0 = size → s.weightsRow[p]? = some ⊤
  placed : ∀ g ∈ done, ∃ pack rank : Nat, s.packIndex[g]? = some (pack : Int) ∧
    s.rankInPack[g]? = some (rank : Int) ∧ pack < numPacks ∧ rank < s.itemsRow.getD pack 0
  apart : ∀ g ∈ done, ∀ g' ∈ done, s.packIndex[g]? = s.packIndex[g']? →
    s.rankInPack[g]? = s.rankInPack[g']? → g = g'

theorem sum_eq_of_all {l : List Nat} {c : Nat} (h : ∀ i < l.length, l.getD i 0 = c) :
    l.sum = l.length * c := by
  have hall : l = List.replicate l.length c := by
    apply List.eq_replicate_of_mem
    intro x hx
    obtain ⟨i, hi, rfl⟩ := List.mem_iff_getElem.mp hx
    rw [← List.getD_eq_getElem _ 0 hi]
    exact h i hi
  conv_lhs => rw [hall]
  exact List.sum_replicate_nat

theorem sum_set_succ : ∀ {l : List Nat} {i : Nat}, i < l.length →
    (l.set i (l.getD i 0 + 1)).sum = l.sum + 1 := by
  intro l
  induction l with
  | nil => intro i hi; exact absurd hi (Nat.not_lt_zero i)
  | cons x xs ih =>
    intro i hi
    cases i with
    | zero =>
      rw [List.getD_cons_zero, List.set_cons_zero, List.sum_cons, List.sum_cons]
      omega
    | succ i =>
      rw [List.getD_cons_succ, List.set_cons_succ, List.sum_cons, List.sum_cons,
        ih (Nat.lt_of_succ_lt_succ hi)]
      omega

/-- As long as there are items left, the lightest pack is not full. -/
theorem Packed.lightest {n numPacks size : Nat} {done : List Nat} {s : Packing}
    (h : Packed n numPacks size done s) (hroom : done.length < numPacks * size) :
    argmin s.weightsRow < numPacks ∧ s.itemsRow.getD (argmin s.weightsRow) 0 < size := by
  have hne : s.weightsRow ≠ [] := by
    intro hnil
    have hzero := h.weights_length
    rw [hnil, List.length_nil] at hzero
    rw [← hzero, Nat.zero_mul] at hroom
    exact absurd hroom (Nat.not_lt_zero _)
  obtain ⟨x, hx, hmin⟩ := argmin_spec hne
  have hlt : argmin s.weightsRow < numPacks := by
    rw [← h.weights_length]
    exact (List.getElem?_eq_some_iff.mp hx).1
  refine ⟨hlt, Nat.lt_of_le_of_ne (h.items_le _ hlt) fun hfull => ?_⟩
  -- otherwise all are full
  have htop := h.top _ hlt hfull
  rw [hx] at htop
  have hall : ∀ p < s.itemsRow.length, s.itemsRow.getD p 0 = size := by
    intro p hp
    rw [h.items_length] at hp
    refine h.full p hp ?_
    rw [List.getElem?_eq_getElem (h.weights_length.symm ▸ hp)]
    have hle := hmin _ (List.getElem_mem (h.weights_length.symm ▸ hp : p < s.weightsRow.length))
    rw [Option.some.inj htop, top_le_iff] at hle
    rw [hle]
  have hsum := sum_eq_of_all hall
  rw [h.items_sum, h.items_length] at hsum
  omega

/-- The step lemma: the next item gets a place of its own. -/
theorem Packed.pack {n numPacks size : Nat} {done : List Nat} {s : Packing} {weight : List ℚ}
    {group : Nat} (h : Packed n numPacks size done s) (hroom : done.length < numPacks * size)
    (hgroup : group < n) (hnew : group ∉ done) :
    Packed n numPacks size (done ++ [group]) (packGroup size weight s group) := by
  obtain ⟨hpack, hless⟩ := h.lightest hroom
  have hlight : ∃ x, s.weightsRow[argmin s.weightsRow]? = some x ∧ x ≠ ⊤ := by
    have hlt : argmin s.weightsRow < s.weightsRow.length := h.weights_length.symm ▸ hpack
    refine ⟨_, List.getElem?_eq_getElem hlt, fun htop => ?_⟩
    have hfull := h.full _ hpack ((List.getElem?_eq_getElem hlt).trans (congrArg some htop))
    omega
  unfold packGroup
  dsimp only
  generalize argmin s.weightsRow = pack at hpack hless hlight
  obtain ⟨x, hx, hxtop⟩ := hlight
  have hitems : ∀ p, (s.itemsRow.set pack (s.itemsRow.getD pack 0 + 1)).getD p 0
      = if pack = p then s.itemsRow.getD pack 0 + 1 else s.itemsRow.getD p 0 := by
    intro p
    rw [List.getD_eq_getElem?_getD, List.getElem?_set]
    by_cases hp : pack = p
    · rw [if_pos hp, if_pos hp, if_pos (h.items_length.symm ▸ hpack)]
      rfl
    · rw [if_neg hp, if_neg hp, List.getD_eq_getElem?_getD]
  have hold : ∀ g ∈ done, (s.packIndex.set group (pack : Int))[g]? = s.packIndex[g]? ∧
      (s.rankInPack.set group (s.itemsRow.getD pack 0 : Int))[g]? = s.rankInPack[g]? := by
    intro g hg
    have hne : group ≠ g := fun heq => hnew (heq ▸ hg)
    exact ⟨List.getElem?_set_ne hne, List.getElem?_set_ne hne⟩
  have hself : (s.packIndex.set group (pack : Int))[group]? = some (pack : Int) ∧
      (s.rankInPack.set group (s.itemsRow.getD pack 0 : Int))[group]?
        = some (s.itemsRow.getD pack 0 : Int) :=
    ⟨List.getElem?_set_self (h.packs_length.symm ▸ hgroup),
      List.getElem?_set_self (h.ranks_length.symm ▸ hgroup)⟩
  -- the place of the new item is behind those of the pack
  have hfresh : ∀ g ∈ done, s.packIndex[g]? = some (pack : Int) →
      s.rankInPack[g]? ≠ some (s.itemsRow.getD pack 0 : Int) := by
    intro g hg hsame hrank
    obtain ⟨p, r, hp, hr, -, hlt⟩ := h.placed g hg
    rw [hp] at hsame
    rw [hr] at hrank
    have hpeq : p = pack := by exact_mod_cast Option.some.inj hsame
    have hreq : r = s.itemsRow.getD pack 0 := by exact_mod_cast Option.some.inj hrank
    rw [hpeq, hreq] at hlt
    exact Nat.lt_irrefl _ hlt
  refine ⟨?_, ?_, ?_, ?_, ?_, ?_, ?_, ?_, ?_, ?_⟩
  · exact List.length_set.trans h.packs_length
  · exact List.length_set.trans h.ranks_length
  · exact List.length_set.trans h.weights_length
  · exact List.length_set.trans h.items_length
  · intro p hp
    rw [hitems]
    split
    · omega
    · exact h.items_le p hp
  · rw [sum_set_succ (h.items_length.symm ▸ hpack), h.items_sum, List.length_append]
    rfl
  · intro p hp htop
    rw [hitems]
    rw [List.getElem?_set] at htop
    by_cases hpp : pack = p
    · rw [if_pos hpp, if_pos (h.weights_length.symm ▸ hpack)] at htop
      rw [if_pos hpp]
      by_contra hne
      rw [if_neg hne, List.getD_eq_getElem?_getD, hx] at htop
      exact WithTop.add_ne_top.mpr ⟨hxtop, WithTop.coe_ne_top⟩ (Option.some.inj htop)
    · rw [if_neg hpp] at htop
      rw [if_neg hpp]
      exact h.full p hp htop
  · intro p hp hfull
    rw [hitems] at hfull
    rw [List.getElem?_set]
    by_cases hpp : pack = p
    · rw [if_pos hpp] at hfull
      rw [if_pos hpp, if_pos (h.weights_length.symm ▸ hpack), if_pos hfull]
    · rw [if_neg hpp] at hfull
      rw [if_neg hpp]
      exact h.top p hp hfull
  · intro g hg
    rcases List.mem_append.mp hg with hin | hlast
    · obtain ⟨p, r, hp, hr, hplt, hrlt⟩ := h.placed g hin
      refine ⟨p, r, (hold g hin).1.trans hp, (hold g hin).2.trans hr, hplt, ?_⟩
      rw [hitems]
      split
      · rename_i hpp
        rw [← hpp] at hrlt
        omega
      · exact hrlt
    · rw [List.mem_singleton.mp hlast]
      refine ⟨pack, s.itemsRow.getD pack 0, hself.1, hself.2, hpack, ?_⟩
      rw [hitems, if_pos rfl]
      exact Nat.lt_succ_self _
  · intro g hg g' hg' hsame hrank
    rcases List.mem_append.mp hg with hin | hlast
    · rcases List.mem_append.mp hg' with hin' | hlast'
      · rw [(hold g hin).1, (hold g' hin').1] at hsame
        rw [(hold g hin).2, (hold g' hin').2] at hrank
        exact h.apart g hin g' hin' hsame hrank
      · rw [List.mem_singleton.mp hlast', (hold g hin).1, hself.1] at hsame
        rw [List.mem_singleton.mp hlast', (hold g hin).2, hself.2] at hrank
        exact absurd hrank (hfresh g hin hsame)
    · rcases List.mem_append.mp hg' with hin' | hlast'
      · rw [List.mem_singleton.mp hlast, (hold g' hin').1, hself.1] at hsame
        rw [List.mem_singleton.mp hlast, (hold g' hin').2, hself.2] at hrank
        exact absurd hrank.symm (hfresh g' hin' hsame.symm)
      · rw [List.mem_singleton.mp hlast, List.mem_singleton.mp hlast']

/-- The run lemma: items that are all different, and fit. -/
theorem Packed.packAll {n numPacks size : Nat} {weight : List ℚ} :
    ∀ (groups : List Nat) {done : List Nat} {s : Packing}, Packed n numPacks size done s →
      (∀ g ∈ groups, g < n) → (done ++ groups).Nodup →
      (done ++ groups).length ≤ numPacks * size →
      Packed n numPacks size (done ++ groups) (groups.foldl (packGroup size weight) s) := by
  intro groups
  induction groups with
  | nil =>
    intro done s h _ _ _
    rw [List.append_nil]
    exact h
  | cons g gs ih =>
    intro done s h hlt hnodup hlen
    have hnew : g ∉ done := by
      intro hg
      rw [List.nodup_append] at hnodup
      exact hnodup.2.2 g hg g List.mem_cons_self rfl
    have hroom : done.length < numPacks * size := by
      rw [List.length_append, List.length_cons] at hlen
      omega
    have hstep : Packed n numPacks size (done ++ [g]) (packGroup size weight s g) :=
      h.pack hroom (hlt g List.mem_cons_self) hnew
    have hsplit : done ++ g :: gs = (done ++ [g]) ++ gs := by rw [List.append_assoc]; rfl
    rw [hsplit] at hnodup hlen ⊢
    exact ih hstep (fun g' hg' => hlt g' (List.mem_cons_of_mem g hg')) hnodup hlen

theorem packed_start (n numPacks : Nat) {size : Nat} (hsize : 0 < size) :
    Packed n numPacks size [] ⟨List.replicate n (-1), List.replicate n (-1),
      List.replicate numPacks 0, List.replicate numPacks 0⟩ := by
  have hitems : ∀ p < numPacks, (List.replicate numPacks 0).getD p 0 = 0 := by
    intro p hp
    rw [List.getD_eq_getElem _ _ (by rw [List.length_replicate]; exact hp), List.getElem_replicate]
  refine ⟨List.length_replicate, List.length_replicate, List.length_replicate,
    List.length_replicate, ?_, List.sum_replicate_nat, ?_, ?_, ?_, ?_⟩
  · intro p hp
    rw [hitems p hp]
    exact Nat.zero_le size
  · intro p hp htop
    rw [List.getElem?_replicate, if_pos hp] at htop
    cases htop
  · intro p hp hfull
    rw [hitems p hp] at hfull
    omega
  · intro g hg
    cases hg
  · intro g hg
    cases hg

/-- Every item has a place of its own, in packs of the given size. -/
theorem balancedPackingRow_spec {argsort : List ℚ → List Nat} {weight : List ℚ}
    {numPacks size : Nat} (hargsort : ∀ keys, IsArgsort keys (argsort keys)) (hsize : 0 < size)
    (hlen : weight.length = numPacks * size) :
    ∃ pack rank : Nat → Nat, IsPacking weight.length numPacks size pack rank ∧
      balancedPackingRow argsort numPacks size weight
        = ((arange weight.length).map fun i => (pack i : Int),
            (arange weight.length).map fun i => (rank i : Int)) := by
  unfold balancedPackingRow
  by_cases hone : size = 1
  · rw [if_pos hone]
    refine ⟨id, fun _ => 0, ⟨?_, ?_, ?_⟩, ?_⟩
    · intro i hi
      rw [hlen, hone, Nat.mul_one] at hi
      exact hi
    · intro i _
      exact hsize
    · intro i _ j _ hij _
      exact hij
    · refine Prod.ext rfl ?_
      show List.replicate weight.length (0 : Int) = _
      unfold arange
      exact (List.eq_replicate_iff.mpr ⟨by rw [List.length_map, List.length_range], fun x hx => by
        obtain ⟨i, -, rfl⟩ := List.mem_map.mp hx
        rfl⟩).symm
  · rw [if_neg hone]
    have hidx := hargsort (weight.map (- ·))
    have hperm := hidx.perm
    rw [List.length_map] at hperm
    have hpacked : Packed weight.length numPacks size _
        ((argsort (weight.map (- ·))).foldl (packGroup size weight) _) :=
      (packed_start weight.length numPacks hsize).packAll (argsort (weight.map (- ·)))
      (fun g hg => List.mem_range.mp (hperm.mem_iff.mp hg)) hidx.nodup (by
        rw [List.nil_append, hperm.length_eq, arange, List.length_range]
        exact Nat.le_of_eq hlen)
    rw [List.nil_append] at hpacked
    generalize (argsort (weight.map (- ·))).foldl (packGroup size weight)
      ⟨List.replicate weight.length (-1), List.replicate weight.length (-1),
        List.replicate numPacks 0, List.replicate numPacks 0⟩ = packed at hpacked
    have hmem : ∀ i < weight.length, i ∈ argsort (weight.map (- ·)) :=
      fun i hi => hperm.mem_iff.mpr (List.mem_range.mpr hi)
    have hplace : ∀ i < weight.length,
        packed.packIndex[i]? = some (((packed.packIndex.getD i 0).toNat : Nat) : Int) ∧
        packed.rankInPack[i]? = some (((packed.rankInPack.getD i 0).toNat : Nat) : Int) ∧
        (packed.packIndex.getD i 0).toNat < numPacks ∧
        (packed.rankInPack.getD i 0).toNat < size := by
      intro i hi
      obtain ⟨p, r, hp, hr, hplt, hrlt⟩ := hpacked.placed i (hmem i hi)
      have hle := hpacked.items_le p hplt
      rw [List.getD_eq_getElem?_getD, List.getD_eq_getElem?_getD, hp, hr]
      exact ⟨rfl, rfl, hplt, Nat.lt_of_lt_of_le hrlt hle⟩
    refine ⟨fun i => (packed.packIndex.getD i 0).toNat, fun i => (packed.rankInPack.getD i 0).toNat,
      ⟨fun i hi => (hplace i hi).2.2.1, fun i hi => (hplace i hi).2.2.2, ?_⟩, ?_⟩
    · intro i hi j hj hpack hrank
      refine hpacked.apart i (hmem i hi) j (hmem j hj) ?_ ?_
      · rw [(hplace i hi).1, (hplace j hj).1]
        exact congrArg (fun p : Nat => some (p : Int)) hpack
      · rw [(hplace i hi).2.1, (hplace j hj).2.1]
        exact congrArg (fun r : Nat => some (r : Int)) hrank
    · have hlist : ∀ {l : List Int}, l.length = weight.length →
          (∀ i < weight.length, l[i]? = some (((l.getD i 0).toNat : Nat) : Int)) →
          l = (arange weight.length).map fun i => (((l.getD i 0).toNat : Nat) : Int) := by
        intro l hl hget
        conv_lhs => rw [eq_map_arange l 0, hl]
        refine List.map_congr_left fun i hi => ?_
        have hi' : i < weight.length := List.mem_range.mp hi
        conv_lhs => rw [List.getD_eq_getElem?_getD, hget i hi']
        rfl
      exact Prod.ext (hlist hpacked.packs_length fun i hi => (hplace i hi).1)
        (hlist hpacked.ranks_length fun i hi => (hplace i hi).2.1)

/-! ## Replication -/

/-- The arrays of `replicate_experts` in one layer. -/
structure Replicas where
  phy2log : List Nat
  logcnt : List Nat

/-- One more replica of the expert with the largest load per replica. -/
def addReplica (weight : List ℚ) (s : Replicas) (i : Nat) : Replicas :=
  let redundant := argmax (weight.zipWith (fun w (c : Nat) => w / (c : ℚ)) s.logcnt)
  { phy2log := s.phy2log.set i redundant
    logcnt := s.logcnt.modify redundant (· + 1) }

/-- `replicate_experts` in one layer. -/
def replicateExpertsRow (numPhy : Nat) (weight : List ℚ) : Replicas :=
  (List.range' weight.length (numPhy - weight.length)).foldl (addReplica weight)
    ⟨arange numPhy, List.replicate weight.length 1⟩

/-- `replicate_experts`. -/
def replicateExperts (weight : List (List ℚ)) (numPhy : Nat) :
    Except Error (List (List Nat) × List (List Nat)) :=
  let numLog := (weight.headD []).length
  if numPhy < numLog then .error (.assertion "num_redundant >= 0")
  else if numLog = 0 ∧ 0 < numPhy then
    .error (.value "attempt to get argmax of an empty sequence")
  else
    let rows := weight.map (replicateExpertsRow numPhy)
    .ok (rows.map (·.phy2log), rows.map (·.logcnt))

/-- The slots before a bound have their experts. -/
structure Replicated (numLog numPhy bound : Nat) (s : Replicas) : Prop where
  slots : s.phy2log.length = numPhy
  experts : s.logcnt.length = numLog
  first : ∀ e < numLog, s.phy2log[e]? = some e
  range : ∀ e ∈ s.phy2log.take bound, e < numLog
  counts : ∀ e < numLog, s.logcnt.getD e 0 = (s.phy2log.take bound).count e

theorem Replicated.add {numLog numPhy bound : Nat} {s : Replicas} {weight : List ℚ}
    (h : Replicated numLog numPhy bound s) (hweight : weight.length = numLog) (hpos : 0 < numLog)
    (hle : numLog ≤ bound) (hbound : bound < numPhy) :
    Replicated numLog numPhy (bound + 1) (addReplica weight s bound) := by
  have hlen : (weight.zipWith (fun w (c : Nat) => w / (c : ℚ)) s.logcnt).length = numLog := by
    rw [List.length_zipWith, hweight, h.experts, Nat.min_self]
  have hne : weight.zipWith (fun w (c : Nat) => w / (c : ℚ)) s.logcnt ≠ [] :=
    List.ne_nil_of_length_pos (hlen.symm ▸ hpos)
  have hlt := argmax_lt hne
  rw [hlen] at hlt
  unfold addReplica
  dsimp only
  generalize argmax (weight.zipWith (fun w (c : Nat) => w / (c : ℚ)) s.logcnt) = redundant at hlt
  have hslot : bound < s.phy2log.length := h.slots.symm ▸ hbound
  have htake : (s.phy2log.set bound redundant).take (bound + 1)
      = s.phy2log.take bound ++ [redundant] := by
    rw [List.take_add_one, List.take_set_of_le (Nat.le_refl bound), List.getElem?_set_self hslot]
    rfl
  refine ⟨List.length_set.trans h.slots, by rw [List.length_modify]; exact h.experts, ?_, ?_, ?_⟩
  · intro e he
    dsimp only
    rw [List.getElem?_set_ne (by omega)]
    exact h.first e he
  · dsimp only
    rw [htake]
    intro e he
    rcases List.mem_append.mp he with hin | hlast
    · exact h.range e hin
    · rw [List.mem_singleton.mp hlast]
      exact hlt
  · intro e he
    dsimp only
    rw [htake, getD_modify_succ _ (h.experts.symm ▸ he), h.counts e he, List.count_append,
      List.count_singleton]
    refine congrArg _ ?_
    by_cases heq : redundant = e
    · rw [if_pos heq, if_pos (beq_iff_eq.mpr heq)]
    · rw [if_neg heq, if_neg fun hb => heq (beq_iff_eq.mp hb)]

/-- Every slot has an expert, the first slots each of them, and `logcnt` counts their slots. -/
theorem replicateExpertsRow_spec {weight : List ℚ} {numPhy : Nat} (hpos : 0 < weight.length)
    (hle : weight.length ≤ numPhy) :
    Replicated weight.length numPhy numPhy (replicateExpertsRow numPhy weight) := by
  have hstart : Replicated weight.length numPhy weight.length
      ⟨arange numPhy, List.replicate weight.length 1⟩ := by
    have htake : (arange numPhy).take weight.length = arange weight.length := by
      unfold arange
      rw [List.take_range, Nat.min_eq_left hle]
    refine ⟨List.length_range, List.length_replicate, ?_, ?_, ?_⟩
    · intro e he
      exact List.getElem?_range (by omega)
    · dsimp only
      rw [htake]
      exact fun e he => List.mem_range.mp he
    · intro e he
      dsimp only
      rw [htake, List.getD_eq_getElem _ _ (by rw [List.length_replicate]; exact he),
        List.getElem_replicate]
      exact (List.count_eq_one_of_mem List.nodup_range (List.mem_range.mpr he)).symm
  have hrun : ∀ count, weight.length + count ≤ numPhy →
      Replicated weight.length numPhy (weight.length + count)
        ((List.range' weight.length count).foldl (addReplica weight)
          ⟨arange numPhy, List.replicate weight.length 1⟩) := by
    intro count
    induction count with
    | zero => exact fun _ => hstart
    | succ count ih =>
      intro hcount
      rw [List.range'_concat, List.foldl_append, Nat.one_mul]
      exact (ih (by omega)).add rfl hpos (Nat.le_add_right _ _) (by omega)
  have hall := hrun (numPhy - weight.length) (by omega)
  rw [Nat.add_sub_cancel' hle] at hall
  exact hall

end VllmEngine.Distributed.Eplb
