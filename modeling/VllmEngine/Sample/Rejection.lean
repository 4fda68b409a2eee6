import VllmEngine.Lib.Ragged
import VllmEngine.Lib.Numpy

/-!
# The rejection sampler

The layout of the drafts of a batch (`SpecDecodeMetadata`), the greedy kernel over the argmaxes, and
`RejectionSampler.parse_output`.

Mirroring notes vs `rejection_sampler.py`:
- `_calc_spec_decode_metadata` gathers the draft tokens from the input ids; here they are given,
  request by request.
- Rows are lists of the placeholder `-1` or token ids, and the kernels write their cells in turn.

> `greedyRound_run`: what a request with temperature zero gets from its own rows,
> `parseRow_cells`: `parse_output` gives the tokens of a row back.
-/

namespace VllmEngine.Sample

structure SpecDecodeMetadata where
  draftTokenIds : List Nat
  numDraftTokens : List Nat
  cuNumDraftTokens : List Nat
  targetLogitsIndices : List Nat
  bonusLogitsIndices : List Nat
deriving DecidableEq, Repr

namespace SpecDecodeMetadata

def maxSpecLen (metadata : SpecDecodeMetadata) : Nat := metadata.numDraftTokens.foldl max 0

/-- `_calc_spec_decode_metadata`. -/
def ofDrafts (draftTokenIds : List (List Nat)) : SpecDecodeMetadata :=
  let numDraftTokens := draftTokenIds.map List.length
  let numSampledTokens := numDraftTokens.map (· + 1)
  let cuNumSampledTokens := Numpy.cumsum numSampledTokens
  { draftTokenIds := draftTokenIds.flatten
    numDraftTokens
    cuNumDraftTokens := Numpy.cumsum numDraftTokens
    targetLogitsIndices :=
      (Numpy.repeatEach (cuNumSampledTokens.zipWith (· - ·) numSampledTokens) numDraftTokens).zipWith
        (· + ·) (Numpy.aranges numDraftTokens)
    bonusLogitsIndices := cuNumSampledTokens.map (· - 1) }

/-- Where a kernel finds the draft tokens of a request. -/
def startIdx (cuNumDraftTokens : List Nat) (reqIdx : Nat) : Nat :=
  if reqIdx = 0 then 0 else cuNumDraftTokens.getD (reqIdx - 1) 0

theorem startIdx_cumsum (pre : List Nat) (n : Nat) (post : List Nat) :
    startIdx (Numpy.cumsum (pre ++ n :: post)) pre.length = pre.sum := by
  have hcons : startIdx (Numpy.cumsum (pre ++ n :: post)) pre.length
      = (0 :: Numpy.cumsum (pre ++ n :: post)).getD pre.length 0 := by
    cases pre with
    | nil => rfl
    | cons m pre => rfl
  have hle : pre.length ≤ (pre ++ n :: post).length := by
    rw [List.length_append]
    omega
  rw [hcons, Numpy.getD_cons_cumsum hle, List.take_left]

theorem endIdx_cumsum (pre : List Nat) (n : Nat) (post : List Nat) :
    (Numpy.cumsum (pre ++ n :: post)).getD pre.length 0 = pre.sum + n := by
  rw [List.getD_eq_getElem?_getD, Numpy.getElem?_cumsum]
  rfl

end SpecDecodeMetadata

namespace RejectionSampler

/-- One round of the loop of `rejection_greedy_sample_kernel`: the output row, and whether a
draft was rejected. -/
def greedyRound (draftTokenIds targetArgmax : List Nat) (startIdx : Nat) (s : List Int × Bool) (pos : Nat) :
    List Int × Bool :=
  if s.2 then s
  else
    let draftTokenId := draftTokenIds.getD (startIdx + pos) 0
    let targetArgmaxId := targetArgmax.getD (startIdx + pos) 0
    (s.1.set pos targetArgmaxId, draftTokenId != targetArgmaxId)

/-- `rejection_greedy_sample_kernel` for one request. -/
def rejectionGreedySampleKernel (metadata : SpecDecodeMetadata) (targetArgmax bonusTokenIds : List Nat)
    (isGreedy : Option (List Bool)) (reqIdx : Nat) (output : List Int) : List Int :=
  if !isGreedy.all (·.getD reqIdx false) then output
  else
    let startIdx := SpecDecodeMetadata.startIdx metadata.cuNumDraftTokens reqIdx
    let endIdx := metadata.cuNumDraftTokens.getD reqIdx 0
    let numDraftTokens := endIdx - startIdx
    let s := (List.range numDraftTokens).foldl (greedyRound metadata.draftTokenIds targetArgmax startIdx)
      (output, false)
    if s.2 then s.1 else s.1.set numDraftTokens (bonusTokenIds.getD reqIdx 0)

/-- `RejectionSampler.parse_output`, one row. -/
def parseRow (vocabSize : Nat) (row : List Int) : List Nat :=
  (row.filter fun token => token != -1 && decide (token < (vocabSize : Int))).map Int.toNat

/-! ## The greedy kernel -/

/-- The tokens that a request gets: the argmaxes of its draft rows up to the first that is not
its draft, and behind all of them the bonus token. -/
def greedyTokens : List Nat → List Nat → Nat → List Nat
  | draft :: drafts, target :: targets, bonus =>
    if draft = target then target :: greedyTokens drafts targets bonus else [target]
  | _, _, bonus => [bonus]

theorem foldl_greedyRound_rejected (draftTokenIds targetArgmax : List Nat) (startIdx : Nat) (output : List Int) :
    ∀ positions : List Nat,
      positions.foldl (greedyRound draftTokenIds targetArgmax startIdx) (output, true) = (output, true) := by
  intro positions
  induction positions with
  | nil => rfl
  | cons pos positions ih => exact ih

/-- Token ids as cells of an output row. -/
def cells (tokens : List Nat) : List Int := tokens.map (Nat.cast : Nat → Int)

theorem length_cells (tokens : List Nat) : (cells tokens).length = tokens.length := by
  unfold cells
  rw [List.length_map]

theorem cells_append (a b : List Nat) : cells (a ++ b) = cells a ++ cells b := by
  unfold cells
  rw [List.map_append]

theorem cells_set (written : List Nat) (cell : Int) (room : List Int) (token : Nat) :
    (cells written ++ cell :: room).set written.length token = cells (written ++ [token]) ++ room := by
  have hlen : written.length = (cells written).length := (length_cells written).symm
  rw [hlen, List.set_append_right _ _ (Nat.le_refl _), Nat.sub_self, cells_append, List.append_assoc]
  rfl

/-- The kernel behind some rounds without a rejected draft: it writes the tokens of the request
from the cell it has reached, and leaves the cells behind them. -/
theorem greedyRound_run (draftTokenIds targetArgmax : List Nat) (startIdx bonus : Nat) :
    ∀ (drafts targets written : List Nat) (room : List Int),
      drafts.length = targets.length → drafts.length < room.length →
      (∀ k, k < drafts.length → draftTokenIds.getD (startIdx + (written.length + k)) 0 = drafts.getD k 0) →
      (∀ k, k < targets.length → targetArgmax.getD (startIdx + (written.length + k)) 0 = targets.getD k 0) →
      (let s := (List.range' written.length drafts.length).foldl
          (greedyRound draftTokenIds targetArgmax startIdx) (cells written ++ room, false)
        if s.2 then s.1 else s.1.set (written.length + drafts.length) bonus)
        = cells (written ++ greedyTokens drafts targets bonus)
          ++ room.drop (greedyTokens drafts targets bonus).length := by
  intro drafts
  induction drafts with
  | nil =>
    intro targets written room hlength hroom _ _
    cases room with
    | nil => exact absurd hroom (Nat.lt_irrefl 0)
    | cons cell room =>
      have htargets : targets = [] := List.length_eq_zero_iff.mp hlength.symm
      subst htargets
      exact cells_set written cell room bonus
  | cons draft drafts ih =>
    intro targets written room hlength hroom hdrafts htargets
    cases targets with
    | nil => cases hlength
    | cons target targets =>
      cases room with
      | nil => exact absurd hroom (Nat.not_lt_zero _)
      | cons cell room =>
        have hdraft : draftTokenIds.getD (startIdx + written.length) 0 = draft := hdrafts 0 (Nat.succ_pos _)
        have htarget : targetArgmax.getD (startIdx + written.length) 0 = target := htargets 0 (Nat.succ_pos _)
        have hround : greedyRound draftTokenIds targetArgmax startIdx (cells written ++ cell :: room, false)
            written.length = (cells (written ++ [target]) ++ room, draft != target) := by
          show ((cells written ++ cell :: room).set written.length _, _ != _) = _
          rw [hdraft, htarget, cells_set]
        rw [List.length_cons, List.range'_succ, List.foldl_cons, hround]
        by_cases heq : draft = target
        · subst heq
          have hlen : (written ++ [draft]).length = written.length + 1 := List.length_append
          have hstep := ih targets (written ++ [draft]) room (Nat.succ.inj hlength)
            (Nat.lt_of_succ_lt_succ hroom)
            (by
              intro k hk
              have h := hdrafts (k + 1) (Nat.succ_lt_succ hk)
              rw [hlen, Nat.add_right_comm written.length 1 k]
              exact h)
            (by
              intro k hk
              have h := htargets (k + 1) (Nat.succ_lt_succ hk)
              rw [hlen, Nat.add_right_comm written.length 1 k]
              exact h)
          have htokens : greedyTokens (draft :: drafts) (draft :: targets) bonus
              = draft :: greedyTokens drafts targets bonus := if_pos rfl
          rw [hlen, List.append_assoc] at hstep
          rw [htokens, bne_self_eq_false]
          have hend : written.length + (drafts.length + 1) = written.length + 1 + drafts.length := by
            omega
          rw [hend]
          exact hstep
        · have htokens : greedyTokens (draft :: drafts) (target :: targets) bonus = [target] := if_neg heq
          have hrejected : (draft != target) = true := bne_iff_ne.mpr heq
          rw [htokens, hrejected, foldl_greedyRound_rejected]
          rfl

/-! ## The output -/

theorem le_foldl_max (counts : List Nat) {n : Nat} (hn : n ∈ counts) : ∀ start, n ≤ counts.foldl max start := by
  have hgrow : ∀ (counts : List Nat) start, start ≤ counts.foldl max start := by
    intro counts
    induction counts with
    | nil => exact fun start => Nat.le_refl start
    | cons m counts ih => exact fun start => Nat.le_trans (Nat.le_max_left start m) (ih _)
  induction counts with
  | nil => cases hn
  | cons m counts ih =>
    intro start
    rcases List.mem_cons.mp hn with rfl | hn
    · exact Nat.le_trans (Nat.le_max_right start n) (hgrow counts _)
    · exact ih hn _

/-- `parse_output` drops the placeholders. -/
theorem parseRow_placeholders (vocabSize : Nat) (row : List Int) (n : Nat) :
    parseRow vocabSize (row ++ List.replicate n (-1)) = parseRow vocabSize row := by
  have hrest : (List.replicate n (-1 : Int)).filter
      (fun token => token != -1 && decide (token < (vocabSize : Int))) = [] := by
    apply List.filter_eq_nil_iff.mpr
    intro cell hcell
    rw [List.eq_of_mem_replicate hcell]
    simp
  unfold parseRow
  rw [List.filter_append, hrest, List.append_nil]

/-- `parse_output` gives back the tokens of a row whose other cells are placeholders. -/
theorem parseRow_cells {vocabSize : Nat} {tokens : List Nat} (hvocab : ∀ token ∈ tokens, token < vocabSize)
    (n : Nat) : parseRow vocabSize (cells tokens ++ List.replicate n (-1)) = tokens := by
  have htokens : (cells tokens).filter (fun token => token != -1 && decide (token < (vocabSize : Int)))
      = cells tokens := by
    apply List.filter_eq_self.mpr
    intro cell hcell
    obtain ⟨token, htoken, rfl⟩ := List.mem_map.mp hcell
    have hlt := hvocab token htoken
    have hne : (token : Int) ≠ -1 := by omega
    simp [hne, hlt]
  rw [parseRow_placeholders]
  unfold parseRow
  rw [htokens]
  unfold cells
  rw [List.map_map]
  exact List.map_id' tokens

end RejectionSampler

end VllmEngine.Sample
