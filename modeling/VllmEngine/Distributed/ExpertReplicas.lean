import VllmEngine.Lib.Argsort
import Mathlib.Data.List.Induction

/-!
# The replicas of the experts

Every physical slot holds a replica of a logical expert; the replicas of an expert are
numbered in the order of their slots. `compute_logical_maps` derives from the map of the slots
to the experts the number of replicas of each expert and the slots that they are in.

> `numbered_perm`: the experts of one part of a row, with their numbers, do not depend on the
> order of the part,
> `phyReplicasIdx_expert`: the replicas of an expert have the numbers below their count,
> `computeLogicalMaps_spec`: the maps say the same.
-/

namespace VllmEngine.Distributed.Eplb

open Numpy

/-! ## Numbers of replicas -/

/-- The replicas with their numbers, behind slots that hold `seen e` replicas of each `e`. -/
def numbered (seen : Int → Nat) : List Int → List (Int × Nat)
  | [] => []
  | expert :: rest =>
    (expert, seen expert) ::
      numbered (fun e => if e = expert then seen e + 1 else seen e) rest

/-- The number of each replica in a row. -/
def phyReplicasIdx (row : List Int) : List Nat := (numbered (fun _ => 0) row).map Prod.snd

theorem map_fst_numbered : ∀ (row : List Int) (seen : Int → Nat),
    (numbered seen row).map Prod.fst = row := by
  intro row
  induction row with
  | nil => exact fun _ => rfl
  | cons expert rest ih => exact fun seen => congrArg (expert :: ·) (ih _)

theorem zip_phyReplicasIdx (row : List Int) :
    row.zip (phyReplicasIdx row) = numbered (fun _ => 0) row := by
  have h := List.zip_map' (f := Prod.fst) (g := Prod.snd) (l := numbered (fun _ => 0) row)
  rw [map_fst_numbered] at h
  unfold phyReplicasIdx
  rw [h]
  exact List.map_id _

theorem numbered_append : ∀ (row rest : List Int) (seen : Int → Nat),
    numbered seen (row ++ rest)
      = numbered seen row ++ numbered (fun e => seen e + row.count e) rest := by
  intro row
  induction row with
  | nil => exact fun _ _ => rfl
  | cons expert row ih =>
    intro rest seen
    have hseen : (fun e => (if e = expert then seen e + 1 else seen e) + row.count e)
        = fun e => seen e + (expert :: row).count e := by
      funext e
      rw [List.count_cons]
      by_cases he : e = expert
      · rw [if_pos he, if_pos (beq_iff_eq.mpr he.symm)]
        omega
      · rw [if_neg he, if_neg (fun h => he (beq_iff_eq.mp h).symm)]
        rfl
    show (expert, seen expert) :: numbered _ (row ++ rest) = _
    rw [ih, hseen]
    rfl

/-- The order of the slots does not matter for which numbers there are. -/
theorem numbered_perm {row row' : List Int} (h : row.Perm row') :
    ∀ seen : Int → Nat, (numbered seen row).Perm (numbered seen row') := by
  induction h with
  | nil => exact fun _ => List.Perm.nil
  | cons expert _ ih => exact fun seen => (ih _).cons _
  | swap a b rest =>
    intro seen
    unfold numbered
    unfold numbered
    by_cases hab : a = b
    · rw [hab]
    · -- neither changes the number of the other, and behind them both have been seen
      rw [if_neg hab, if_neg (Ne.symm hab)]
      have hseen : (fun e => if e = a then (if e = b then seen e + 1 else seen e) + 1
            else if e = b then seen e + 1 else seen e)
          = fun e => if e = b then (if e = a then seen e + 1 else seen e) + 1
            else if e = a then seen e + 1 else seen e := by
        funext e
        by_cases ha : e = a
        · rw [if_pos ha, if_pos ha, if_neg (fun hb => hab (ha.symm.trans hb)),
            if_neg (fun hb => hab (ha.symm.trans hb))]
        · rw [if_neg ha, if_neg ha]
      rw [hseen]
      exact List.Perm.swap _ _ _
  | trans _ _ ih₁ ih₂ => exact fun seen => (ih₁ seen).trans (ih₂ seen)

/-- The replicas of an expert are numbered on from those that have been seen. -/
theorem numbered_expert (expert : Int) : ∀ (row : List Int) (seen : Int → Nat),
    ((numbered seen row).filter fun e => decide (e.1 = expert)).map Prod.snd
      = List.range' (seen expert) (row.count expert) := by
  intro row
  induction row with
  | nil => exact fun _ => rfl
  | cons first rest ih =>
    intro seen
    unfold numbered
    by_cases h : first = expert
    · rw [List.filter_cons_of_pos (by simpa using h), List.map_cons, ih, if_pos h.symm, h,
        List.count_cons_self, List.range'_succ]
    · rw [List.filter_cons_of_neg (by simpa using h), ih, if_neg (Ne.symm h),
        List.count_cons_of_ne h]

/-- The replicas of an expert are numbered from zero on. -/
theorem phyReplicasIdx_expert (row : List Int) (expert : Int) :
    ((row.zip (phyReplicasIdx row)).filter fun e => decide (e.1 = expert)).map Prod.snd
      = List.range (row.count expert) := by
  rw [zip_phyReplicasIdx, numbered_expert, List.range_eq_range']

/-! ## Logical maps -/

/-- A row of `logical_replica_count`. -/
def logicalReplicaCount (numLogicalExperts : Nat) (row : List Int) : List Nat :=
  row.foldl (fun counts expert => if 0 ≤ expert then counts.modify expert.toNat (· + 1) else counts)
    (List.replicate numLogicalExperts 0)

/-- A row of `logical_to_physical_map` with the running counts, while slots are visited. -/
structure LogicalRow where
  logicalToPhysicalMap : List (List Int)
  runningCount : List Nat

/-- The loop body of `compute_logical_maps` for one layer; slots without an expert hold -1. -/
def placeReplica (s : LogicalRow) (slot : Int × Nat) : LogicalRow :=
  if 0 ≤ slot.1 then
    let expert := slot.1.toNat
    let replicaIdx := s.runningCount.getD expert 0
    { logicalToPhysicalMap := s.logicalToPhysicalMap.modify expert (·.set replicaIdx slot.2)
      runningCount := s.runningCount.modify expert (· + 1) }
  else s

def logicalToPhysicalRow (numLogicalExperts maxReplicas : Nat) (row : List Int) : List (List Int) :=
  (row.zipIdx.foldl placeReplica
    ⟨List.replicate numLogicalExperts (List.replicate maxReplicas (-1)),
      List.replicate numLogicalExperts 0⟩).logicalToPhysicalMap

/-- `compute_logical_maps`. -/
def computeLogicalMaps (physicalToLogicalMap : List (List Int)) (numLogicalExperts : Nat) :
    List (List (List Int)) × List (List Nat) :=
  let counts := physicalToLogicalMap.map (logicalReplicaCount numLogicalExperts)
  let maxReplicas := counts.flatten.foldl max 0
  (physicalToLogicalMap.map (logicalToPhysicalRow numLogicalExperts maxReplicas), counts)

theorem getD_modify_succ (expert : Nat) {counts : List Nat} {e : Nat} (he : e < counts.length) :
    (counts.modify expert (· + 1)).getD e 0 = counts.getD e 0 + if expert = e then 1 else 0 := by
  rw [List.getD_eq_getElem?_getD, List.getElem?_modify, List.getElem?_eq_getElem he,
    List.getD_eq_getElem _ _ he]
  show (if expert = e then counts[e] + 1 else counts[e]) = _
  split
  · rfl
  · rfl

theorem count_snoc (row : List Int) (last e : Int) :
    (row ++ [last]).count e = row.count e + if last = e then 1 else 0 := by
  rw [List.count_append, List.count_singleton]
  refine congrArg _ ?_
  by_cases h : last = e
  · rw [if_pos h, if_pos (beq_iff_eq.mpr h)]
  · rw [if_neg h, if_neg fun hb => h (beq_iff_eq.mp hb)]

/-- Counting the replicas of the experts, one slot after the other. -/
theorem getD_logicalReplicaCount (numLogicalExperts : Nat) (row : List Int) :
    (logicalReplicaCount numLogicalExperts row).length = numLogicalExperts ∧
      ∀ e < numLogicalExperts,
        (logicalReplicaCount numLogicalExperts row).getD e 0 = row.count (e : Int) := by
  induction row using List.reverseRecOn with
  | nil =>
    refine ⟨List.length_replicate, fun e he => ?_⟩
    show (List.replicate numLogicalExperts 0).getD e 0 = 0
    rw [List.getD_eq_getElem _ _ (by rw [List.length_replicate]; exact he), List.getElem_replicate]
  | append_singleton row last ih =>
    obtain ⟨hlen, hcount⟩ := ih
    unfold logicalReplicaCount at hlen hcount ⊢
    rw [List.foldl_append, List.foldl_cons, List.foldl_nil]
    by_cases hlast : 0 ≤ last
    · rw [if_pos hlast]
      refine ⟨by rw [List.length_modify]; exact hlen, fun e he => ?_⟩
      rw [getD_modify_succ _ (hlen.symm ▸ he), hcount e he, count_snoc]
      by_cases heq : last = (e : Int)
      · rw [if_pos heq, if_pos (by omega)]
      · rw [if_neg heq, if_neg (by omega)]
    · rw [if_neg hlast]
      refine ⟨hlen, fun e he => ?_⟩
      rw [hcount e he, count_snoc, if_neg (by omega)]
      rfl

/-- The number of the replica in a slot. -/
theorem getElem?_phyReplicasIdx {row : List Int} {slot : Nat} {expert : Int}
    (h : row[slot]? = some expert) :
    (phyReplicasIdx row)[slot]? = some ((row.take slot).count expert) := by
  obtain ⟨hlt, hget⟩ := List.getElem?_eq_some_iff.mp h
  have hsplit : row = row.take slot ++ expert :: row.drop (slot + 1) := by
    rw [← hget, List.getElem_cons_drop, List.take_append_drop]
  have hlen : (numbered (fun _ => 0) (row.take slot)).length = slot := by
    have hfst := congrArg List.length (map_fst_numbered (row.take slot) fun _ => 0)
    rw [List.length_map, List.length_take] at hfst
    omega
  unfold phyReplicasIdx
  conv_lhs => rw [hsplit, numbered_append]
  rw [List.getElem?_map, List.getElem?_append_right (Nat.le_of_eq hlen), hlen, Nat.sub_self]
  show some (0 + (row.take slot).count expert) = _
  rw [Nat.zero_add]

theorem count_take_lt {row : List Int} {slot : Nat} {expert : Int}
    (h : row[slot]? = some expert) : (row.take slot).count expert < row.count expert := by
  obtain ⟨hlt, hget⟩ := List.getElem?_eq_some_iff.mp h
  have hsplit : row = row.take slot ++ expert :: row.drop (slot + 1) := by
    rw [← hget, List.getElem_cons_drop, List.take_append_drop]
  conv_rhs => rw [hsplit, List.count_append, List.count_cons_self]
  omega

/-- The slots that have been visited stand in the map, each under its expert and number. -/
structure Placed (numLogicalExperts maxReplicas : Nat) (row : List Int) (s : LogicalRow) : Prop where
  experts : s.logicalToPhysicalMap.length = numLogicalExperts
  replicas : ∀ slots ∈ s.logicalToPhysicalMap, slots.length = maxReplicas
  running_length : s.runningCount.length = numLogicalExperts
  running : ∀ e < numLogicalExperts, s.runningCount.getD e 0 = row.count (e : Int)
  placed : ∀ (slot e : Nat), row[slot]? = some (e : Int) →
    (s.logicalToPhysicalMap[e]?).bind (·[(row.take slot).count (e : Int)]?) = some (slot : Int)

theorem Placed.snoc {numLogicalExperts maxReplicas : Nat} {row : List Int} {last : Int}
    {s : LogicalRow} (h : Placed numLogicalExperts maxReplicas row s)
    (hlast : last < numLogicalExperts)
    (hmax : ∀ e < numLogicalExperts, (row ++ [last]).count (e : Int) ≤ maxReplicas) :
    Placed numLogicalExperts maxReplicas (row ++ [last]) (placeReplica s (last, row.length)) := by
  have htake : ∀ slot ≤ row.length, (row ++ [last]).take slot = row.take slot :=
    fun slot hslot => List.take_append_of_le_length hslot
  unfold placeReplica
  dsimp only
  by_cases hpos : 0 ≤ last
  · rw [if_pos hpos]
    have hexpert : last.toNat < numLogicalExperts := by omega
    have hcast : ((last.toNat : Nat) : Int) = last := Int.toNat_of_nonneg hpos
    have hrunning := h.running last.toNat hexpert
    rw [hcast] at hrunning
    refine ⟨by rw [List.length_modify]; exact h.experts, ?_,
      by rw [List.length_modify]; exact h.running_length, ?_, ?_⟩
    · intro slots hslots
      obtain ⟨i, hi⟩ := List.mem_iff_getElem?.mp hslots
      rw [List.getElem?_modify] at hi
      obtain ⟨old, hold, rfl⟩ := Option.map_eq_some_iff.mp hi
      have holdlen := h.replicas old (List.mem_of_getElem? hold)
      split
      · exact List.length_set.trans holdlen
      · exact holdlen
    · intro e he
      rw [getD_modify_succ _ (h.running_length.symm ▸ he), h.running e he, count_snoc]
      by_cases heq : last = (e : Int)
      · rw [if_pos heq, if_pos (by omega)]
      · rw [if_neg heq, if_neg (by omega)]
    · intro slot e hslot
      obtain ⟨hslotlt, -⟩ := List.getElem?_eq_some_iff.mp hslot
      rw [List.length_append] at hslotlt
      rw [htake slot (Nat.le_of_lt_succ hslotlt), List.getElem?_modify]
      rcases Nat.lt_or_eq_of_le (Nat.le_of_lt_succ hslotlt) with hlt | heq
      · -- a slot from before: its number is not the one that is written
        rw [List.getElem?_append_left hlt] at hslot
        have hplaced := h.placed slot e hslot
        obtain ⟨slots, hslots, hget⟩ := Option.bind_eq_some_iff.mp hplaced
        rw [hslots]
        show (if last.toNat = e then _ else slots)[_]? = _
        by_cases he : last.toNat = e
        · rw [if_pos he, List.getElem?_set_ne]
          · exact hget
          · have hcount := count_take_lt hslot
            rw [hrunning]
            rw [← he, hcast] at hcount ⊢
            omega
        · rw [if_neg he]
          exact hget
      · rw [heq, List.getElem?_append_right (Nat.le_refl _), Nat.sub_self] at hslot
        have hlaste : last = (e : Int) := Option.some.inj hslot
        have he : last.toNat = e := by omega
        have helt : e < s.logicalToPhysicalMap.length := by
          rw [h.experts]
          omega
        have hroom := hmax last.toNat hexpert
        rw [hcast, count_snoc, if_pos rfl] at hroom
        have hlen := h.replicas _ (List.getElem_mem helt)
        rw [List.getElem?_eq_getElem helt]
        show (if last.toNat = e then _ else s.logicalToPhysicalMap[e])[_]? = _
        rw [if_pos he, hrunning, heq, List.take_length, ← hlaste, List.getElem?_set_self]
        omega
  · rw [if_neg hpos]
    refine ⟨h.experts, h.replicas, h.running_length, fun e he => ?_, fun slot e hslot => ?_⟩
    · rw [h.running e he, count_snoc, if_neg (by omega)]
      rfl
    · obtain ⟨hslotlt, -⟩ := List.getElem?_eq_some_iff.mp hslot
      rw [List.length_append] at hslotlt
      rcases Nat.lt_or_eq_of_le (Nat.le_of_lt_succ hslotlt) with hlt | heq
      · rw [List.getElem?_append_left hlt] at hslot
        rw [htake slot (Nat.le_of_lt hlt)]
        exact h.placed slot e hslot
      · rw [heq, List.getElem?_append_right (Nat.le_refl _), Nat.sub_self] at hslot
        have hlaste : last = (e : Int) := Option.some.inj hslot
        omega

theorem le_foldl_max {x : Nat} : ∀ (l : List Nat) {m : Nat}, x ∈ l → x ≤ l.foldl max m := by
  have hstart : ∀ (l : List Nat) (m : Nat), m ≤ l.foldl max m := by
    intro l
    induction l with
    | nil => exact fun _ => Nat.le_refl _
    | cons y ys ih => exact fun m => (Nat.le_max_left m y).trans (ih _)
  intro l
  induction l with
  | nil => intro m hx; cases hx
  | cons y ys ih =>
    intro m hx
    rcases List.mem_cons.mp hx with hxy | hxys
    · rw [hxy]
      exact (Nat.le_max_right m y).trans (hstart ys _)
    · exact ih hxys

/-- `compute_logical_maps` lists the slots of every expert under the numbers of its replicas. -/
theorem computeLogicalMaps_spec {physicalToLogicalMap : List (List Int)} {numLogicalExperts : Nat}
    (hrange : ∀ row ∈ physicalToLogicalMap, ∀ e ∈ row, e < numLogicalExperts) {layer : Nat}
    {row : List Int} (hrow : physicalToLogicalMap[layer]? = some row) :
    ∃ slots counts,
      (computeLogicalMaps physicalToLogicalMap numLogicalExperts).1[layer]? = some slots ∧
      (computeLogicalMaps physicalToLogicalMap numLogicalExperts).2[layer]? = some counts ∧
      counts.length = numLogicalExperts ∧
      (∀ e < numLogicalExperts, counts.getD e 0 = row.count (e : Int)) ∧
      ∀ (slot e : Nat), row[slot]? = some (e : Int) → ∃ idx, (phyReplicasIdx row)[slot]? = some idx ∧
        (slots[e]?).bind (·[idx]?) = some (slot : Int) := by
  obtain ⟨hlen, hcount⟩ := getD_logicalReplicaCount numLogicalExperts row
  have hmax : ∀ e < numLogicalExperts, row.count (e : Int) ≤
      ((physicalToLogicalMap.map (logicalReplicaCount numLogicalExperts)).flatten.foldl max 0) := by
    intro e he
    have hmem : row.count (e : Int) ∈
        (physicalToLogicalMap.map (logicalReplicaCount numLogicalExperts)).flatten := by
      rw [← hcount e he, List.getD_eq_getElem _ _ (hlen.symm ▸ he)]
      exact List.mem_flatten_of_mem (List.mem_map_of_mem (List.mem_of_getElem? hrow))
        (List.getElem_mem _)
    exact le_foldl_max _ hmem
  -- every part of the row, and so the row
  have hplaced : ∀ done rest, row = done ++ rest → Placed numLogicalExperts
      ((physicalToLogicalMap.map (logicalReplicaCount numLogicalExperts)).flatten.foldl max 0) done
      (done.zipIdx.foldl placeReplica
        ⟨List.replicate numLogicalExperts (List.replicate ((physicalToLogicalMap.map
            (logicalReplicaCount numLogicalExperts)).flatten.foldl max 0) (-1)),
          List.replicate numLogicalExperts 0⟩) := by
    intro done
    induction done using List.reverseRecOn with
    | nil =>
      intro rest _
      refine ⟨List.length_replicate, fun slots hslots => ?_, List.length_replicate, fun e he => ?_,
        fun slot e hslot => ?_⟩
      · rw [List.eq_of_mem_replicate hslots]
        exact List.length_replicate
      · show (List.replicate numLogicalExperts 0).getD e 0 = 0
        rw [List.getD_eq_getElem _ _ (by rw [List.length_replicate]; exact he),
          List.getElem_replicate]
      · cases hslot
    | append_singleton done last ih =>
      intro rest hsplit
      have hsplit' : row = done ++ (last :: rest) := by rw [hsplit, List.append_assoc]; rfl
      have hlast : last ∈ row := by
        rw [hsplit']
        exact List.mem_append_right _ List.mem_cons_self
      rw [List.zipIdx_append, List.foldl_append]
      have hsnoc := (ih (last :: rest) hsplit').snoc
        (hrange row (List.mem_of_getElem? hrow) last hlast) (fun e he => by
          refine Nat.le_trans ?_ (hmax e he)
          conv_rhs => rw [hsplit, List.count_append]
          exact Nat.le_add_right _ _)
      rw [← Nat.zero_add done.length] at hsnoc
      exact hsnoc
  refine ⟨_, _, by rw [computeLogicalMaps, List.getElem?_map, hrow]; rfl,
    by rw [computeLogicalMaps, List.getElem?_map, hrow]; rfl, hlen, hcount, ?_⟩
  intro slot e hslot
  exact ⟨_, getElem?_phyReplicasIdx hslot,
    (hplaced row [] (List.append_nil row).symm).placed slot e hslot⟩

end VllmEngine.Distributed.Eplb
