import Mathlib.Probability.Distributions.Uniform
import VllmEngine.Lib.Speculative
import VllmEngine.Sample.Rejection

/-!
# The random rejection kernel

`rejection_sample` with both kernels (`vllm/v1/sample/rejection_sampler.py`), over exact
probabilities, and the scores that `sample_recovered_tokens_kernel` runs its race on.

Mirroring notes:
- The target probabilities (the softmax of the target logits), their argmaxes, the bonus tokens, the
  recovered tokens and the uniform numbers are given.
- `is_greedy` is absent when all requests are greedy, and the greedy kernel is skipped when none is.

> `rejectionSample_row`: the row of a request depends on its own drafts and numbers only,
> `generated_eq_decodeFrom`: greedy requests get the model's tokens.
-/

set_option linter.unusedSectionVars false

namespace VllmEngine.Sample.RandomRejection

open RejectionSampler Speculative

variable {K : Type} [Field K] [LinearOrder K]

/-- What the kernels read: flat arrays by draft position, arrays by request. -/
structure RejectionInputs (K : Type) where
  metadata : SpecDecodeMetadata
  draftProbs : Option (List (Nat → K))
  targetProbs : List (Nat → K)
  targetArgmax : List Nat
  bonusTokenIds : List Nat
  recoveredTokenIds : List Nat
  uniformProbs : List K
  /-- By request: whether the temperature is zero. -/
  isGreedy : List Bool

/-- The probability that the acceptance test divides by. -/
def draftProb (x : RejectionInputs K) (tokenIdx draftTokenId : Nat) : K :=
  match x.draftProbs with
  | none => 1
  | some draftProbs => draftProbs.getD tokenIdx (fun _ => 0) draftTokenId

/-- One round of the loop of `rejection_random_sample_kernel`: the output row, and whether a draft was
rejected. -/
def randomRound (x : RejectionInputs K) (startIdx : Nat) (s : List Int × Bool) (pos : Nat) : List Int × Bool :=
  if s.2 then s
  else
    let draftTokenId := x.metadata.draftTokenIds.getD (startIdx + pos) 0
    let draftProb := draftProb x (startIdx + pos) draftTokenId
    let targetProb := x.targetProbs.getD (startIdx + pos) (fun _ => 0) draftTokenId
    let uniformProb := x.uniformProbs.getD (startIdx + pos) 0
    if 0 < draftProb ∧ uniformProb ≤ targetProb / draftProb then (s.1.set pos draftTokenId, false)
    else (s.1.set pos (x.recoveredTokenIds.getD (startIdx + pos) 0), true)

/-- `rejection_random_sample_kernel` for one request. -/
def rejectionRandomSampleKernel (x : RejectionInputs K) (reqIdx : Nat) (output : List Int) : List Int :=
  if x.isGreedy.getD reqIdx false then output
  else
    let startIdx := SpecDecodeMetadata.startIdx x.metadata.cuNumDraftTokens reqIdx
    let endIdx := x.metadata.cuNumDraftTokens.getD reqIdx 0
    let numDraftTokens := endIdx - startIdx
    let s := (List.range numDraftTokens).foldl (randomRound x startIdx) (output, false)
    if s.2 then s.1 else s.1.set numDraftTokens (x.bonusTokenIds.getD reqIdx 0)

/-- `rejection_sample`. -/
def rejectionSample (x : RejectionInputs K) : List (List Int) :=
  let allGreedy := x.isGreedy.all id
  let allRandom := x.isGreedy.all not
  let outputTokenIds : List (List Int) :=
    (List.range x.metadata.numDraftTokens.length).map fun _ => List.replicate (x.metadata.maxSpecLen + 1) (-1)
  let outputTokenIds :=
    if !allRandom then
      outputTokenIds.mapIdx fun reqIdx output =>
        rejectionGreedySampleKernel x.metadata x.targetArgmax x.bonusTokenIds
          (if allGreedy then none else some x.isGreedy) reqIdx output
    else outputTokenIds
  if allGreedy then outputTokenIds
  else outputTokenIds.mapIdx fun reqIdx output => rejectionRandomSampleKernel x reqIdx output

/-- The scores of `sample_recovered_tokens_kernel` at a position of a request, before the race. -/
def recoveredProb (x : RejectionInputs K) (reqIdx pos token : Nat) : K :=
  let tokenIdx := SpecDecodeMetadata.startIdx x.metadata.cuNumDraftTokens reqIdx + pos
  match x.draftProbs with
  | none =>
    if token ≠ x.metadata.draftTokenIds.getD tokenIdx 0 then x.targetProbs.getD tokenIdx (fun _ => 0) token
    else 0
  | some draftProbs =>
    max (x.targetProbs.getD tokenIdx (fun _ => 0) token - draftProbs.getD tokenIdx (fun _ => 0) token) 0

/-- `tl.max` with indices, over the lanes up to one: of equal scores the first wins. -/
def tileMax (score : Nat → K) : Nat → K × Nat
  | 0 => (score 0, 0)
  | lane + 1 =>
    let best := tileMax score lane
    if best.1 < score (lane + 1) then (score (lane + 1), lane + 1) else best

/-- The score of a lane: those beyond the vocabulary are loaded as zero. -/
def laneScore (x : RejectionInputs K) (invQ : Nat → Nat → K) (vocabSize reqIdx pos token : Nat) : K :=
  if token < vocabSize then recoveredProb x reqIdx pos token * invQ reqIdx token else 0

/-- One tile of the race: the best score so far (at first minus infinity) and its token. -/
def raceTile (x : RejectionInputs K) (invQ : Nat → Nat → K) (vocabSize blockSize reqIdx pos : Nat)
    (s : Option K × Nat) (tile : Nat) : Option K × Nat :=
  let v := tile * blockSize
  let best := tileMax (fun lane => laneScore x invQ vocabSize reqIdx pos (v + lane)) (blockSize - 1)
  if s.1.all fun maxVal => decide (maxVal < best.1) then (some best.1, v + best.2) else s

/-- `sample_recovered_tokens_kernel` for one position of a request. -/
def sampleRecoveredTokensKernel (x : RejectionInputs K) (invQ : Nat → Nat → K)
    (vocabSize blockSize reqIdx pos : Nat) : Nat :=
  ((List.range ((vocabSize + blockSize - 1) / blockSize)).foldl
    (raceTile x invQ vocabSize blockSize reqIdx pos) (none, 0)).2

/-! ## Batches -/

/-- A draft with the probabilities at its position, and what is drawn for it. -/
structure DraftPosition (K : Type) where
  draftTokenId : Nat
  draftProbs : Nat → K
  targetProbs : Nat → K
  targetArgmax : Nat
  recoveredTokenId : Nat
  uniformProb : K

structure DraftedRequest (K : Type) where
  positions : List (DraftPosition K)
  bonusTokenId : Nat
  isGreedy : Bool

/-- The positions of a batch, flat. -/
def flatPositions (batch : List (DraftedRequest K)) : List (DraftPosition K) := batch.flatMap (·.positions)

/-- The arrays of a batch; without draft probabilities `draft_probs` is `None`. -/
def RejectionInputs.ofBatch (noDraftProbs : Bool) (batch : List (DraftedRequest K)) : RejectionInputs K where
  metadata := .ofDrafts (batch.map fun r => r.positions.map (·.draftTokenId))
  draftProbs := if noDraftProbs then none else some ((flatPositions batch).map (·.draftProbs))
  targetProbs := (flatPositions batch).map (·.targetProbs)
  targetArgmax := (flatPositions batch).map (·.targetArgmax)
  bonusTokenIds := batch.map (·.bonusTokenId)
  recoveredTokenIds := (flatPositions batch).map (·.recoveredTokenId)
  uniformProbs := (flatPositions batch).map (·.uniformProb)
  isGreedy := batch.map (·.isGreedy)

def DraftPosition.proposal (noDraftProbs : Bool) (p : DraftPosition K) : Proposal K Nat where
  draftProb := if noDraftProbs then 1 else p.draftProbs p.draftTokenId
  targetProb := p.targetProbs p.draftTokenId
  draft := p.draftTokenId
  recovered := p.recoveredTokenId

/-- The tokens that a request gets. -/
def DraftedRequest.emitted (noDraftProbs : Bool) (r : DraftedRequest K) : List Nat :=
  if r.isGreedy then
    greedyTokens (r.positions.map (·.draftTokenId)) (r.positions.map (·.targetArgmax)) r.bonusTokenId
  else emit (r.positions.map (·.proposal noDraftProbs)) (r.positions.map (·.uniformProb)) r.bonusTokenId

variable (noDraftProbs : Bool) (pre post : List (DraftedRequest K)) (r : DraftedRequest K)

/-- The first flat position behind some requests. -/
def flatOffset (pre : List (DraftedRequest K)) : Nat := (pre.map (·.positions.length)).sum

theorem numDraftTokens_ofBatch (batch : List (DraftedRequest K)) :
    (RejectionInputs.ofBatch noDraftProbs batch).metadata.numDraftTokens = batch.map (·.positions.length) := by
  show (batch.map fun r => r.positions.map (·.draftTokenId)).map List.length = _
  rw [List.map_map]
  exact List.map_congr_left fun r _ => List.length_map _

theorem draftTokenIds_ofBatch (batch : List (DraftedRequest K)) :
    (RejectionInputs.ofBatch noDraftProbs batch).metadata.draftTokenIds
      = (flatPositions batch).map (·.draftTokenId) := by
  show (batch.map fun r => r.positions.map (·.draftTokenId)).flatten = (batch.flatMap (·.positions)).map _
  rw [List.map_flatMap, List.flatMap_def]

theorem startIdx_ofBatch :
    SpecDecodeMetadata.startIdx
        (RejectionInputs.ofBatch noDraftProbs (pre ++ r :: post)).metadata.cuNumDraftTokens pre.length
      = flatOffset pre := by
  show SpecDecodeMetadata.startIdx (Numpy.cumsum (RejectionInputs.ofBatch noDraftProbs _).metadata.numDraftTokens) _ = _
  have hlen : pre.length = (pre.map (·.positions.length)).length := (List.length_map _).symm
  rw [numDraftTokens_ofBatch, List.map_append, List.map_cons, hlen]
  exact SpecDecodeMetadata.startIdx_cumsum _ _ _

theorem endIdx_ofBatch :
    (RejectionInputs.ofBatch noDraftProbs (pre ++ r :: post)).metadata.cuNumDraftTokens.getD pre.length 0
      = flatOffset pre + r.positions.length := by
  show (Numpy.cumsum (RejectionInputs.ofBatch noDraftProbs _).metadata.numDraftTokens).getD _ 0 = _
  have hlen : pre.length = (pre.map (·.positions.length)).length := (List.length_map _).symm
  rw [numDraftTokens_ofBatch, List.map_append, List.map_cons, hlen]
  exact SpecDecodeMetadata.endIdx_cumsum _ _ _

/-- The positions of a request in the flat arrays. -/
theorem flatPositions_row {k : Nat} {p : DraftPosition K} (hp : r.positions[k]? = some p) :
    (flatPositions (pre ++ r :: post))[flatOffset pre + k]? = some p := by
  have hk : k < r.positions.length := (List.getElem?_eq_some_iff.mp hp).1
  exact (Numpy.getElem?_flatMap_segment (·.positions) pre r post rfl hk).trans hp

/-- An array by position, read where a position stands. -/
theorem getD_map_of_getElem? {α β : Type} {xs : List α} {i : Nat} {x : α} (h : xs[i]? = some x) (f : α → β)
    (b : β) : (xs.map f).getD i b = f x := by
  rw [List.getD_eq_getElem?_getD, List.getElem?_map, h]
  rfl

/-- What a round does at a position of a request. -/
theorem randomRound_ofBatch {batch : List (DraftedRequest K)} {startIdx pos : Nat} {p : DraftPosition K}
    (hp : (flatPositions batch)[startIdx + pos]? = some p) (output : List Int) :
    randomRound (.ofBatch noDraftProbs batch) startIdx (output, false) pos
      = if (p.proposal noDraftProbs).Accepts p.uniformProb then (output.set pos p.draftTokenId, false)
        else (output.set pos p.recoveredTokenId, true) := by
  have hdraft : (RejectionInputs.ofBatch noDraftProbs batch).metadata.draftTokenIds.getD (startIdx + pos) 0
      = p.draftTokenId := by
    rw [draftTokenIds_ofBatch, getD_map_of_getElem? hp]
  have hprob : draftProb (.ofBatch noDraftProbs batch) (startIdx + pos) p.draftTokenId
      = (p.proposal noDraftProbs).draftProb := by
    unfold draftProb RejectionInputs.ofBatch DraftPosition.proposal
    dsimp only
    cases noDraftProbs with
    | true => rfl
    | false =>
      show ((flatPositions batch).map (·.draftProbs)).getD (startIdx + pos) (fun _ => 0) p.draftTokenId = _
      rw [getD_map_of_getElem? hp]
      rfl
  have htarget : (RejectionInputs.ofBatch noDraftProbs batch).targetProbs.getD (startIdx + pos) (fun _ => 0)
      = p.targetProbs := getD_map_of_getElem? hp _ _
  have huniform : (RejectionInputs.ofBatch noDraftProbs batch).uniformProbs.getD (startIdx + pos) 0
      = p.uniformProb := getD_map_of_getElem? hp _ _
  have hrecovered : (RejectionInputs.ofBatch noDraftProbs batch).recoveredTokenIds.getD (startIdx + pos) 0
      = p.recoveredTokenId := getD_map_of_getElem? hp _ _
  unfold randomRound
  rw [if_neg Bool.false_ne_true]
  dsimp only
  rw [hdraft, hprob, htarget, huniform, hrecovered]
  rfl

theorem foldl_randomRound_rejected (x : RejectionInputs K) (startIdx : Nat) (output : List Int) :
    ∀ positions : List Nat, positions.foldl (randomRound x startIdx) (output, true) = (output, true) := by
  intro positions
  induction positions with
  | nil => rfl
  | cons pos positions ih => exact ih

/-- The kernel behind some rounds without a rejected draft: it writes the emitted tokens from the cell
it has reached. The induction is on the positions that are left. -/
theorem randomRound_run {batch : List (DraftedRequest K)} (startIdx bonus : Nat) :
    ∀ (ps : List (DraftPosition K)) (written : List Nat) (room : List Int), ps.length < room.length →
      (∀ (k : Nat) (p : DraftPosition K), ps[k]? = some p →
        (flatPositions batch)[startIdx + (written.length + k)]? = some p) →
      (let s := (List.range' written.length ps.length).foldl
          (randomRound (.ofBatch noDraftProbs batch) startIdx) (cells written ++ room, false)
        if s.2 then s.1 else s.1.set (written.length + ps.length) bonus)
        = cells (written ++ emit (ps.map (·.proposal noDraftProbs)) (ps.map (·.uniformProb)) bonus)
          ++ room.drop (emit (ps.map (·.proposal noDraftProbs)) (ps.map (·.uniformProb)) bonus).length := by
  intro ps
  induction ps with
  | nil =>
    intro written room hroom _
    cases room with
    | nil => exact absurd hroom (Nat.lt_irrefl 0)
    | cons cell room => exact cells_set written cell room bonus
  | cons p ps ih =>
    intro written room hroom hps
    cases room with
    | nil => exact absurd hroom (Nat.not_lt_zero _)
    | cons cell room =>
      have hround := randomRound_ofBatch noDraftProbs (hps 0 p rfl) (cells written ++ cell :: room)
      rw [Nat.add_zero] at hround
      rw [List.length_cons, List.range'_succ, List.foldl_cons, hround, cells_set, cells_set, List.map_cons,
        List.map_cons, emit]
      by_cases haccept : (p.proposal noDraftProbs).Accepts p.uniformProb
      · have hlen : (written ++ [p.draftTokenId]).length = written.length + 1 := List.length_append
        have hstep := ih (written ++ [p.draftTokenId]) room (Nat.lt_of_succ_lt_succ hroom)
          (by
            intro k p' hk
            have h := hps (k + 1) p' hk
            rw [hlen, Nat.add_right_comm written.length 1 k]
            exact h)
        rw [hlen, List.append_assoc] at hstep
        rw [if_pos haccept, if_pos haccept]
        have hend : written.length + (ps.length + 1) = written.length + 1 + ps.length := by
          omega
        rw [hend]
        exact hstep
      · rw [if_neg haccept, if_neg haccept, foldl_randomRound_rejected]
        rfl

/-- The scores at a position of a request. -/
def DraftPosition.score (noDraftProbs : Bool) (p : DraftPosition K) (token : Nat) : K :=
  if noDraftProbs then if token ≠ p.draftTokenId then p.targetProbs token else 0
  else max (p.targetProbs token - p.draftProbs token) 0

theorem recoveredProb_ofBatch {pos : Nat} {p : DraftPosition K} (hp : r.positions[pos]? = some p)
    (token : Nat) :
    recoveredProb (.ofBatch noDraftProbs (pre ++ r :: post)) pre.length pos token
      = p.score noDraftProbs token := by
  have hflat := flatPositions_row pre post r hp
  have htarget : (RejectionInputs.ofBatch noDraftProbs (pre ++ r :: post)).targetProbs.getD
      (flatOffset pre + pos) (fun _ => 0) = p.targetProbs := getD_map_of_getElem? hflat _ _
  unfold recoveredProb
  dsimp only
  rw [startIdx_ofBatch, htarget, draftTokenIds_ofBatch, getD_map_of_getElem? hflat]
  cases noDraftProbs with
  | true => rfl
  | false =>
    show max (_ - ((flatPositions (pre ++ r :: post)).map (·.draftProbs)).getD _ _ token) 0 = _
    rw [getD_map_of_getElem? hflat]
    rfl

theorem isGreedy_ofBatch (b : Bool) :
    (RejectionInputs.ofBatch noDraftProbs (pre ++ r :: post)).isGreedy.getD pre.length b = r.isGreedy := by
  apply getD_map_of_getElem?
  rw [List.getElem?_append_right (Nat.le_refl _), Nat.sub_self]
  rfl

theorem bonusTokenIds_ofBatch :
    (RejectionInputs.ofBatch noDraftProbs (pre ++ r :: post)).bonusTokenIds.getD pre.length 0
      = r.bonusTokenId := by
  apply getD_map_of_getElem?
  rw [List.getElem?_append_right (Nat.le_refl _), Nat.sub_self]
  rfl

/-- The random kernel on a request with a temperature. -/
theorem randomKernel_row (hrandom : r.isGreedy = false) {room : List Int}
    (hroom : r.positions.length < room.length) :
    rejectionRandomSampleKernel (.ofBatch noDraftProbs (pre ++ r :: post)) pre.length room
      = cells (r.emitted noDraftProbs) ++ room.drop (r.emitted noDraftProbs).length := by
  have hrun := @randomRound_run K _ _ noDraftProbs (pre ++ r :: post) (flatOffset pre) r.bonusTokenId
    r.positions [] room hroom
    (by
      intro k p hk
      rw [List.length_nil, Nat.zero_add]
      exact flatPositions_row pre post r hk)
  have hcount : flatOffset pre + r.positions.length - flatOffset pre = r.positions.length :=
    Nat.add_sub_cancel_left _ _
  unfold rejectionRandomSampleKernel
  rw [isGreedy_ofBatch, hrandom, if_neg Bool.false_ne_true]
  dsimp only
  rw [startIdx_ofBatch, endIdx_ofBatch, hcount, bonusTokenIds_ofBatch, List.range_eq_range']
  rw [List.length_nil, Nat.zero_add] at hrun
  unfold DraftedRequest.emitted
  rw [hrandom, if_neg Bool.false_ne_true]
  exact hrun

theorem randomKernel_greedy {x : RejectionInputs K} {reqIdx : Nat} (h : x.isGreedy.getD reqIdx false = true)
    (output : List Int) : rejectionRandomSampleKernel x reqIdx output = output := by
  unfold rejectionRandomSampleKernel
  rw [if_pos h]

/-- The greedy kernel on a request without one. -/
theorem greedyKernel_row (hgreedy : r.isGreedy = true) {isGreedy : Option (List Bool)}
    (hall : isGreedy.all (·.getD pre.length false) = true) {room : List Int}
    (hroom : r.positions.length < room.length) :
    rejectionGreedySampleKernel (RejectionInputs.ofBatch noDraftProbs (pre ++ r :: post)).metadata
        (RejectionInputs.ofBatch noDraftProbs (pre ++ r :: post)).targetArgmax
        (RejectionInputs.ofBatch noDraftProbs (pre ++ r :: post)).bonusTokenIds isGreedy pre.length room
      = cells (r.emitted noDraftProbs) ++ room.drop (r.emitted noDraftProbs).length := by
  have hposition : ∀ (f : DraftPosition K → Nat) (k : Nat), k < (r.positions.map f).length →
      ((flatPositions (pre ++ r :: post)).map f).getD (flatOffset pre + (([] : List Nat).length + k)) 0
        = (r.positions.map f).getD k 0 := by
    intro f k hk
    rw [List.length_map] at hk
    have hp := List.getElem?_eq_getElem hk
    rw [List.length_nil, Nat.zero_add, getD_map_of_getElem? hp,
      getD_map_of_getElem? (flatPositions_row pre post r hp)]
  have hlen : (r.positions.map (·.draftTokenId)).length = r.positions.length := List.length_map _
  have hrun := greedyRound_run ((flatPositions (pre ++ r :: post)).map (·.draftTokenId))
    ((flatPositions (pre ++ r :: post)).map (·.targetArgmax)) (flatOffset pre) r.bonusTokenId
    (r.positions.map (·.draftTokenId)) (r.positions.map (·.targetArgmax)) [] room
    (by rw [List.length_map, List.length_map]) (by rw [hlen]; exact hroom) (hposition _) (hposition _)
  have hcount : flatOffset pre + r.positions.length - flatOffset pre = r.positions.length :=
    Nat.add_sub_cancel_left _ _
  unfold rejectionGreedySampleKernel
  dsimp only
  rw [hall, startIdx_ofBatch, endIdx_ofBatch, hcount, bonusTokenIds_ofBatch, draftTokenIds_ofBatch,
    List.range_eq_range']
  rw [List.length_nil, Nat.zero_add, hlen] at hrun
  unfold DraftedRequest.emitted
  rw [hgreedy, if_pos rfl]
  exact hrun

/-- **Rows.** The output row of a request holds its emitted tokens and placeholders behind them. -/
theorem rejectionSample_row : ∃ n,
    (rejectionSample (.ofBatch noDraftProbs (pre ++ r :: post)))[pre.length]?
      = some (cells (r.emitted noDraftProbs) ++ List.replicate n (-1)) := by
  obtain ⟨batch, hbatch⟩ : ∃ batch, pre ++ r :: post = batch := ⟨_, rfl⟩
  have hr : batch[pre.length]? = some r := by
    rw [← hbatch, List.getElem?_append_right (Nat.le_refl _), Nat.sub_self]
    rfl
  have hmem : r ∈ batch := List.mem_of_getElem? hr
  have hroom : r.positions.length < (List.replicate
      ((RejectionInputs.ofBatch noDraftProbs batch).metadata.maxSpecLen + 1) (-1 : Int)).length := by
    rw [List.length_replicate]
    apply Nat.lt_succ_of_le
    unfold SpecDecodeMetadata.maxSpecLen
    rw [numDraftTokens_ofBatch]
    exact le_foldl_max (batch.map (·.positions.length)) (List.mem_map.mpr ⟨r, hmem, rfl⟩) 0
  have hstart : ((List.range (RejectionInputs.ofBatch noDraftProbs batch).metadata.numDraftTokens.length).map
      fun _ => List.replicate ((RejectionInputs.ofBatch noDraftProbs batch).metadata.maxSpecLen + 1)
        (-1 : Int))[pre.length]?
      = some (List.replicate ((RejectionInputs.ofBatch noDraftProbs batch).metadata.maxSpecLen + 1) (-1)) := by
    rw [numDraftTokens_ofBatch, List.length_map, List.getElem?_map, List.getElem?_range]
    · rfl
    · exact (List.getElem?_eq_some_iff.mp hr).1
  refine ⟨(RejectionInputs.ofBatch noDraftProbs batch).metadata.maxSpecLen + 1
    - (r.emitted noDraftProbs).length, ?_⟩
  have hflag : (RejectionInputs.ofBatch noDraftProbs batch).isGreedy.getD pre.length false = r.isGreedy := by
    rw [← hbatch]
    exact isGreedy_ofBatch noDraftProbs pre post r false
  rw [hbatch, ← List.drop_replicate]
  unfold rejectionSample
  dsimp only
  cases hgreedy : r.isGreedy with
  | true =>
    have hnotRandom : (RejectionInputs.ofBatch noDraftProbs batch).isGreedy.all not = false := by
      apply Bool.eq_false_iff.mpr
      intro hall
      have hnot := List.all_eq_true.mp hall _ (List.mem_map_of_mem hmem)
      rw [hgreedy] at hnot
      cases hnot
    have hall : (if (RejectionInputs.ofBatch noDraftProbs batch).isGreedy.all id then none
        else some (RejectionInputs.ofBatch noDraftProbs batch).isGreedy).all (·.getD pre.length false) = true := by
      split
      · rfl
      · exact hflag.trans hgreedy
    have hkernel := greedyKernel_row noDraftProbs pre post r hgreedy hall hroom
    rw [hbatch] at hkernel
    rw [hnotRandom]
    generalize (if (RejectionInputs.ofBatch noDraftProbs batch).isGreedy.all id then none
      else some (RejectionInputs.ofBatch noDraftProbs batch).isGreedy) = isGreedy at hkernel ⊢
    split
    · show (List.mapIdx _ _)[pre.length]? = _
      rw [List.getElem?_mapIdx, hstart]
      exact congrArg some hkernel
    · -- The random kernel leaves the row alone.
      show (List.mapIdx _ (List.mapIdx _ _))[pre.length]? = _
      rw [List.getElem?_mapIdx, List.getElem?_mapIdx, hstart, Option.map_some, Option.map_some,
        randomKernel_greedy (hflag.trans hgreedy)]
      exact congrArg some hkernel
  | false =>
    have hnotGreedy : (RejectionInputs.ofBatch noDraftProbs batch).isGreedy.all id = false := by
      apply Bool.eq_false_iff.mpr
      intro hall
      have hyes := List.all_eq_true.mp hall _ (List.mem_map_of_mem hmem)
      rw [hgreedy] at hyes
      cases hyes
    have hkernel := randomKernel_row noDraftProbs pre post r hgreedy hroom
    rw [hbatch] at hkernel
    rw [hnotGreedy, if_neg Bool.false_ne_true, if_neg Bool.false_ne_true]
    split
    · -- The greedy kernel leaves the row alone.
      rw [List.getElem?_mapIdx, List.getElem?_mapIdx, hstart]
      have hleft : rejectionGreedySampleKernel (RejectionInputs.ofBatch noDraftProbs batch).metadata
          (RejectionInputs.ofBatch noDraftProbs batch).targetArgmax
          (RejectionInputs.ofBatch noDraftProbs batch).bonusTokenIds
          (some (RejectionInputs.ofBatch noDraftProbs batch).isGreedy) pre.length
          (List.replicate ((RejectionInputs.ofBatch noDraftProbs batch).metadata.maxSpecLen + 1) (-1))
          = List.replicate ((RejectionInputs.ofBatch noDraftProbs batch).metadata.maxSpecLen + 1) (-1) := by
        unfold rejectionGreedySampleKernel
        rw [Option.all_some, hflag, hgreedy]
        rfl
      rw [Option.map_some, Option.map_some, hleft]
      exact congrArg some hkernel
    · rw [List.getElem?_mapIdx, hstart]
      exact congrArg some hkernel

/-! ## Greedy requests -/

section Greedy

variable {next : List Nat → Nat} {vocabSize : Nat}

/-- The most likely tokens, decoded one at a time. -/
def decodeFrom (next : List Nat → Nat) : Nat → List Nat → List Nat
  | 0, _ => []
  | n + 1, context => next context :: decodeFrom next n (context ++ [next context])

theorem decodeFrom_append (next : List Nat → Nat) (m : Nat) : ∀ (n : Nat) (context : List Nat),
    decodeFrom next (n + m) context
      = decodeFrom next n context ++ decodeFrom next m (context ++ decodeFrom next n context) := by
  intro n
  induction n with
  | zero =>
    intro context
    rw [Nat.zero_add, decodeFrom, List.append_nil]
    rfl
  | succ n ih =>
    intro context
    rw [Nat.add_right_comm, decodeFrom, ih, decodeFrom, List.cons_append, List.append_assoc]
    rfl

/-- The argmaxes are those of the model: behind the context, and behind each draft. -/
def Verifies (next : List Nat → Nat) : List Nat → List (DraftPosition K) → Nat → Prop
  | context, [], bonus => bonus = next context
  | context, p :: ps, bonus =>
    p.targetArgmax = next context ∧ Verifies next (context ++ [p.draftTokenId]) ps bonus

/-- What a greedy request gets: the model's tokens, one more than its first drafts that are these. -/
theorem greedyTokens_decode : ∀ (ps : List (DraftPosition K)) (context : List Nat) (bonus : Nat),
    Verifies next context ps bonus →
    let out := greedyTokens (ps.map (·.draftTokenId)) (ps.map (·.targetArgmax)) bonus
    out = decodeFrom next out.length context ∧ ∀ n ≤ ps.length,
      (ps.map (·.draftTokenId)).take n = decodeFrom next n context → n < out.length := by
  intro ps
  induction ps with
  | nil =>
    rintro context bonus rfl
    exact ⟨rfl, fun n hn _ => Nat.lt_succ_of_le hn⟩
  | cons p ps ih =>
    rintro context bonus ⟨hargmax, hrest⟩
    simp only [List.map_cons, greedyTokens]
    split
    next heq =>
      obtain ⟨hout, hmost⟩ := ih _ bonus hrest
      rw [heq, hargmax] at hout hmost
      refine ⟨?_, fun n hn htake => ?_⟩
      · rw [List.length_cons, decodeFrom, ← hout, hargmax]
      · cases n with
        | zero => exact Nat.succ_pos _
        | succ n =>
          rw [List.take_succ_cons, decodeFrom] at htake
          exact Nat.succ_lt_succ (hmost n (Nat.le_of_succ_le_succ hn) (List.cons.inj htake).2)
    next hne =>
      refine ⟨by rw [hargmax]; rfl, fun n hn htake => ?_⟩
      cases n with
      | zero => exact Nat.one_pos
      | succ n =>
        rw [List.take_succ_cons, decodeFrom, ← hargmax] at htake
        exact absurd (List.cons.inj htake).1 hne

/-- A call of the sampler: a request and the others of its batch. -/
structure Round (K : Type) where
  before : List (DraftedRequest K)
  request : DraftedRequest K
  after : List (DraftedRequest K)

/-- What `parse_output` gives the request. -/
def Round.output (vocabSize : Nat) (noDraftProbs : Bool) (round : Round K) : List Nat :=
  parseRow vocabSize ((rejectionSample (.ofBatch noDraftProbs
    (round.before ++ round.request :: round.after))).getD round.before.length [])

/-- The tokens of a request after some rounds. -/
def generated (vocabSize : Nat) (noDraftProbs : Bool) (rounds : List (Round K)) : List Nat :=
  rounds.flatMap (·.output vocabSize noDraftProbs)

/-- The request is greedy in every round, and the model has seen the tokens of the rounds before. -/
def Rounds (next : List Nat → Nat) (vocabSize : Nat) (noDraftProbs : Bool) : List Nat → List (Round K) → Prop
  | _, [] => True
  | context, round :: rounds =>
    (round.request.isGreedy = true ∧ Verifies next context round.request.positions round.request.bonusTokenId)
      ∧ Rounds next vocabSize noDraftProbs (context ++ round.output vocabSize noDraftProbs) rounds

theorem Round.output_decode (hnext : ∀ context, next context < vocabSize) {context : List Nat} (round : Round K)
    (hgreedy : round.request.isGreedy = true)
    (hverifies : Verifies next context round.request.positions round.request.bonusTokenId) :
    let out := round.output vocabSize noDraftProbs
    out = decodeFrom next out.length context ∧ ∀ n ≤ round.request.positions.length,
      (round.request.positions.map (·.draftTokenId)).take n = decodeFrom next n context → n < out.length := by
  have hdecode := greedyTokens_decode _ context _ hverifies
  have hvocab : ∀ (n : Nat) (context : List Nat), ∀ token ∈ decodeFrom next n context, token < vocabSize := by
    intro n
    induction n with
    | zero => exact fun _ _ h => absurd h List.not_mem_nil
    | succ n ih =>
      intro context token htoken
      obtain rfl | htoken := List.mem_cons.mp htoken
      · exact hnext context
      · exact ih _ token htoken
  obtain ⟨n, hrow⟩ := rejectionSample_row noDraftProbs round.before round.after round.request
  have hout : round.output vocabSize noDraftProbs = round.request.emitted noDraftProbs := by
    unfold Round.output
    rw [List.getD_eq_getElem?_getD, hrow, Option.getD_some]
    refine parseRow_cells (fun token htoken => ?_) n
    rw [DraftedRequest.emitted, if_pos hgreedy, hdecode.1] at htoken
    exact hvocab _ _ token htoken
  rw [hout, DraftedRequest.emitted, if_pos hgreedy]
  exact hdecode

/-- **Greedy decoding is kept.** Whatever the drafts and the other requests, the tokens of a greedy request
after any number of rounds are those decoded one at a time; and a round gives one token more than it has
drafts in front that are these. -/
theorem generated_eq_decodeFrom (hnext : ∀ context, next context < vocabSize) :
    ∀ (rounds : List (Round K)) (context : List Nat), Rounds next vocabSize noDraftProbs context rounds →
      generated vocabSize noDraftProbs rounds
          = decodeFrom next (generated vocabSize noDraftProbs rounds).length context
        ∧ ∀ earlier round later, rounds = earlier ++ round :: later → ∀ n ≤ round.request.positions.length,
          (round.request.positions.map (·.draftTokenId)).take n
              = decodeFrom next n (context ++ generated vocabSize noDraftProbs earlier) →
          n < (round.output vocabSize noDraftProbs).length := by
  intro rounds
  induction rounds with
  | nil =>
    intro context _
    refine ⟨rfl, fun earlier round later h => ?_⟩
    cases earlier with
    | nil => cases h
    | cons => cases h
  | cons round rounds ih =>
    rintro context ⟨⟨hgreedy, hverifies⟩, hrounds⟩
    obtain ⟨hout, hmost⟩ := round.output_decode noDraftProbs hnext hgreedy hverifies
    obtain ⟨hrest, hlater⟩ := ih _ hrounds
    have hsplit : ∀ rounds : List (Round K), generated vocabSize noDraftProbs (round :: rounds)
        = round.output vocabSize noDraftProbs ++ generated vocabSize noDraftProbs rounds :=
      fun _ => List.flatMap_cons
    refine ⟨?_, fun earlier round' later h n hn htake => ?_⟩
    · rw [hsplit, List.length_append, decodeFrom_append, ← hout, ← hrest]
    · cases earlier with
      | nil =>
        obtain ⟨rfl, -⟩ := List.cons.inj h
        rw [generated, List.flatMap_nil, List.append_nil] at htake
        exact hmost n hn htake
      | cons first earlier =>
        obtain ⟨rfl, rfl⟩ := List.cons.inj h
        rw [hsplit, ← List.append_assoc] at htake
        exact hlater earlier round' later rfl n hn htake

/-- The model counts up from the length of the context; the second draft is wrong, and the bonus token of
the next round is given. -/
theorem counting_kept :
    let rounds : List (Round ℚ) :=
      [⟨[], ⟨[⟨1, 0, 0, 1, 0, 0⟩, ⟨7, 0, 0, 2, 0, 0⟩], 3, true⟩, [⟨[], 5, false⟩]⟩, ⟨[], ⟨[], 3, true⟩, []⟩]
    generated 9 true rounds = decodeFrom (fun context => min context.length 8)
      (generated 9 true rounds).length [0] := by
  refine (generated_eq_decodeFrom true (fun context => Nat.lt_succ_of_le (Nat.min_le_right _ 8)) _ [0] ?_).1
  exact ⟨⟨rfl, rfl, rfl, rfl⟩, ⟨rfl, rfl⟩, trivial⟩

end Greedy

/-! ## The race -/

theorem tileMax_spec (score : Nat → K) : ∀ last : Nat,
    (tileMax score last).1 = score (tileMax score last).2 ∧ (tileMax score last).2 ≤ last
      ∧ (∀ lane ≤ last, score lane ≤ (tileMax score last).1)
      ∧ ∀ lane < (tileMax score last).2, score lane < (tileMax score last).1 := by
  intro last
  induction last with
  | zero =>
    refine ⟨rfl, Nat.le_refl 0, fun lane hlane => ?_, fun lane hlane => absurd hlane (Nat.not_lt_zero lane)⟩
    rw [Nat.le_zero.mp hlane]
    exact le_refl _
  | succ last ih =>
    obtain ⟨hscore, hlast, hmax, hfirst⟩ := ih
    simp only [tileMax]
    split
    next hlt =>
      refine ⟨rfl, Nat.le_refl _, fun lane hlane => ?_, fun lane hlane => ?_⟩
      · obtain rfl | hlane := Nat.eq_or_lt_of_le hlane
        · exact le_refl _
        · exact le_trans (hmax lane (Nat.le_of_lt_succ hlane)) (le_of_lt hlt)
      · exact lt_of_le_of_lt (hmax lane (Nat.le_of_lt_succ hlane)) hlt
    next hle =>
      refine ⟨hscore, Nat.le_succ_of_le hlast, fun lane hlane => ?_, hfirst⟩
      obtain rfl | hlane := Nat.eq_or_lt_of_le hlane
      · exact not_lt.mp hle
      · exact hmax lane (Nat.le_of_lt_succ hlane)

section Race

variable {x : RejectionInputs K} {invQ : Nat → Nat → K} {vocabSize blockSize reqIdx pos : Nat}

/-- The race over the tiles so far: nothing, or the first token with the best score of the lanes so far. -/
def Leads (x : RejectionInputs K) (invQ : Nat → Nat → K) (vocabSize reqIdx pos bound : Nat)
    (s : Option K × Nat) : Prop :=
  (bound = 0 ∧ s.1 = none) ∨
    (s.1 = some (laneScore x invQ vocabSize reqIdx pos s.2) ∧ s.2 < vocabSize
      ∧ (∀ token < bound, laneScore x invQ vocabSize reqIdx pos token ≤ laneScore x invQ vocabSize reqIdx pos s.2)
      ∧ ∀ token < s.2, laneScore x invQ vocabSize reqIdx pos token < laneScore x invQ vocabSize reqIdx pos s.2)

theorem Leads.raceTile (hblock : 0 < blockSize) {tile : Nat} (htile : tile * blockSize < vocabSize)
    (hnonneg : ∀ token, 0 ≤ laneScore x invQ vocabSize reqIdx pos token) {s : Option K × Nat}
    (h : Leads x invQ vocabSize reqIdx pos (tile * blockSize) s) :
    Leads x invQ vocabSize reqIdx pos ((tile + 1) * blockSize)
      (raceTile x invQ vocabSize blockSize reqIdx pos s tile) := by
  obtain ⟨hscore, hlast, hmax, hfirst⟩ := tileMax_spec
    (fun lane => laneScore x invQ vocabSize reqIdx pos (tile * blockSize + lane)) (blockSize - 1)
  obtain ⟨best, hbest⟩ : ∃ best, tileMax
      (fun lane => laneScore x invQ vocabSize reqIdx pos (tile * blockSize + lane)) (blockSize - 1) = best :=
    ⟨_, rfl⟩
  rw [hbest] at hscore hlast hmax hfirst
  have hlanes : ∀ token, tile * blockSize ≤ token → token < (tile + 1) * blockSize →
      laneScore x invQ vocabSize reqIdx pos token ≤ best.1 := by
    intro token hge hlt
    rw [Nat.succ_mul] at hlt
    have h := hmax (token - tile * blockSize) (by omega)
    rwa [Nat.add_sub_cancel' hge] at h
  -- A lane beyond the vocabulary does not win: the first lane of the tile is not below it.
  have hin : tile * blockSize + best.2 < vocabSize := by
    by_contra hout
    have hpos : 0 < best.2 := by omega
    have hlt := hfirst 0 hpos
    rw [hscore] at hlt
    have hzero : laneScore x invQ vocabSize reqIdx pos (tile * blockSize + best.2) = 0 := if_neg hout
    rw [hzero] at hlt
    exact absurd (hnonneg (tile * blockSize + 0)) (not_le.mpr hlt)
  unfold RandomRejection.raceTile
  dsimp only
  rw [hbest]
  split
  next hlt =>
    have hearlier : ∀ token < tile * blockSize, laneScore x invQ vocabSize reqIdx pos token < best.1 := by
      intro token hold
      obtain ⟨hzero, -⟩ | ⟨hsome, -, hlead, -⟩ := h
      · omega
      · rw [hsome, Option.all_some, decide_eq_true_eq] at hlt
        exact lt_of_le_of_lt (hlead token hold) hlt
    refine Or.inr ⟨congrArg some hscore, hin, fun token htoken => ?_, fun token htoken => ?_⟩
    · rw [← hscore]
      by_cases hold : token < tile * blockSize
      · exact le_of_lt (hearlier token hold)
      · exact hlanes token (not_lt.mp hold) htoken
    · rw [← hscore]
      by_cases hold : token < tile * blockSize
      · exact hearlier token hold
      · have hlane := hfirst (token - tile * blockSize) (by omega)
        rwa [Nat.add_sub_cancel' (not_lt.mp hold)] at hlane
  next hle =>
    obtain ⟨-, hnone⟩ | ⟨hsome, hlt, hlead, hfirstToken⟩ := h
    · rw [hnone] at hle
      exact absurd rfl hle
    · refine Or.inr ⟨hsome, hlt, fun token htoken => ?_, hfirstToken⟩
      rw [hsome, Option.all_some, decide_eq_true_eq, not_lt] at hle
      by_cases hold : token < tile * blockSize
      · exact hlead token hold
      · exact le_trans (hlanes token (not_lt.mp hold) htoken) hle

/-- The recovered token is the first with the best score of the whole vocabulary, whatever the tiles; and
where a token has a score, its own is not zero. -/
theorem sampleRecoveredTokensKernel_spec (hblock : 0 < blockSize) (hvocab : 0 < vocabSize)
    (hnonneg : ∀ token, 0 ≤ laneScore x invQ vocabSize reqIdx pos token) :
    let best := sampleRecoveredTokensKernel x invQ vocabSize blockSize reqIdx pos
    best < vocabSize
      ∧ (∀ token < vocabSize, laneScore x invQ vocabSize reqIdx pos token ≤ laneScore x invQ vocabSize reqIdx pos best)
      ∧ (∀ token < best, laneScore x invQ vocabSize reqIdx pos token < laneScore x invQ vocabSize reqIdx pos best)
      ∧ ((∃ token < vocabSize, 0 < laneScore x invQ vocabSize reqIdx pos token) →
        recoveredProb x reqIdx pos best ≠ 0) := by
  have htiles : ∀ n ≤ (vocabSize + blockSize - 1) / blockSize,
      Leads x invQ vocabSize reqIdx pos (n * blockSize)
        ((List.range n).foldl (raceTile x invQ vocabSize blockSize reqIdx pos) (none, 0)) := by
    intro n
    induction n with
    | zero => exact fun _ => Or.inl ⟨Nat.zero_mul _, rfl⟩
    | succ n ih =>
      intro hn
      have hlt : n * blockSize < vocabSize := by
        have hmul := (Nat.le_div_iff_mul_le hblock).mp hn
        rw [Nat.succ_mul] at hmul
        omega
      rw [List.range_succ, List.foldl_append]
      exact (ih (Nat.le_of_succ_le hn)).raceTile hblock hlt hnonneg
  have hcover : vocabSize ≤ (vocabSize + blockSize - 1) / blockSize * blockSize := by
    have hdiv := Nat.div_add_mod (vocabSize + blockSize - 1) blockSize
    have hmod := Nat.mod_lt (vocabSize + blockSize - 1) hblock
    rw [Nat.mul_comm] at hdiv
    omega
  obtain ⟨hzero, -⟩ | ⟨-, hlt, hlead, hfirst⟩ := htiles _ (Nat.le_refl _)
  · omega
  · have hall := fun token htoken => hlead token (Nat.lt_of_lt_of_le htoken hcover)
    refine ⟨hlt, hall, hfirst, fun ⟨token, htoken, hpos⟩ => ?_⟩
    have hbest := ne_of_gt (lt_of_lt_of_le hpos (hall token htoken))
    rw [laneScore, if_pos hlt] at hbest
    exact left_ne_zero_of_mul hbest

/-- Five tokens in tiles of two, the last one drafted. -/
def fiveTokens : RejectionInputs ℚ := .ofBatch true [⟨[⟨4, fun _ => 0, Nat.cast, 0, 0, 0⟩], 0, false⟩]

theorem fiveTokens_recovers : recoveredProb fiveTokens 0 0
    (sampleRecoveredTokensKernel fiveTokens (fun _ token => ((token % 3 : ℕ) : ℚ)) 5 2 0 0) ≠ 0 := by
  have hscore : ∀ token, recoveredProb fiveTokens 0 0 token = if token ≠ 4 then (token : ℚ) else 0 := fun _ => rfl
  have hnonneg : ∀ token, 0 ≤ laneScore fiveTokens (fun _ token => ((token % 3 : ℕ) : ℚ)) 5 0 0 token := by
    intro token
    rw [laneScore, hscore]
    positivity
  refine (sampleRecoveredTokensKernel_spec Nat.two_pos (Nat.succ_pos 4) hnonneg).2.2.2 ⟨2, by decide, ?_⟩
  rw [laneScore, hscore]
  norm_num

end Race

end VllmEngine.Sample.RandomRejection

/-!
## Random speculative decoding keeps the target distribution

A request with a temperature among any others: its drafts are drawn from the draft model, its
uniform numbers are independent, its recovered tokens are drawn from the kernel's scores and its bonus
token from the target. What `rejection_sample` emits for it, continued from the target, is distributed
like tokens drawn from the target one at a time.

> `target_kept`
-/

namespace VllmEngine.Sample.RandomRejection

open Expectation RejectionSampler Speculative

variable {V : Nat}

/-- A law over the vocabulary as a row of probabilities. -/
noncomputable def tokenProbs (p : PMF (Fin V)) (token : Nat) : ℝ :=
  if h : token < V then (p ⟨token, h⟩).toReal else 0

theorem tokenProbs_val (p : PMF (Fin V)) (token : Fin V) : tokenProbs p token.val = (p token).toReal :=
  dif_pos token.isLt

/-- Where the drafts come from: laws whose probabilities the sampler is given, or single tokens. -/
inductive DraftModel (V : Nat)
  | probs (draft : List (Fin V) → PMF (Fin V))
  | points (proposal : List (Fin V) → Fin V)

namespace DraftModel

noncomputable def law : DraftModel V → List (Fin V) → PMF (Fin V)
  | probs draft => draft
  | points proposal => fun context => PMF.pure (proposal context)

/-- Whether `draft_probs` is `None`. -/
def noDraftProbs : DraftModel V → Bool
  | probs _ => false
  | points _ => true

noncomputable def scheme (target : List (Fin V) → PMF (Fin V)) : DraftModel V → Scheme (Fin V)
  | probs draft => .withProbs target draft
  | points proposal => .withoutProbs target proposal

theorem scheme_target (target : List (Fin V) → PMF (Fin V)) (drafts : DraftModel V) :
    (drafts.scheme target).target = target := by
  cases drafts with
  | probs draft => rfl
  | points proposal => rfl

theorem scheme_draft (target : List (Fin V) → PMF (Fin V)) (drafts : DraftModel V) :
    (drafts.scheme target).draft = drafts.law := by
  cases drafts with
  | probs draft => rfl
  | points proposal => rfl

end DraftModel

variable (target : List (Fin V) → PMF (Fin V)) (drafts : DraftModel V) (argmax : (Nat → ℝ) → Nat)

/-- The draft positions of a request: the drafts behind a context, with the probabilities at their
positions, the recovered tokens by position and the uniform numbers. -/
noncomputable def drawnPositions (recovered : Nat → Fin V) :
    List (Fin V) → Nat → List (Fin V) → List ℝ → List (DraftPosition ℝ)
  | context, i, d :: ds, u :: us =>
    { draftTokenId := d.val
      draftProbs := tokenProbs (drafts.law context)
      targetProbs := tokenProbs (target context)
      targetArgmax := argmax (tokenProbs (target context))
      recoveredTokenId := (recovered i).val
      uniformProb := u } :: drawnPositions recovered (context ++ [d]) (i + 1) ds us
  | _, _, _, _ => []

/-- A request with a temperature, as it is drawn. -/
noncomputable def drawnRequest (context : List (Fin V)) (recovered : Nat → Fin V) (ds : List (Fin V))
    (us : List ℝ) (bonus : Fin V) : DraftedRequest ℝ where
  positions := drawnPositions target drafts argmax recovered context 0 ds us
  bonusTokenId := bonus.val
  isGreedy := false

/-- The tokens of a row. -/
noncomputable def rowTokens (noDraftProbs : Bool) (batch : List (DraftedRequest ℝ)) (reqIdx : Nat) :
    List (Fin V) :=
  (parseRow V ((rejectionSample (.ofBatch noDraftProbs batch)).getD reqIdx [])).filterMap fun token =>
    if h : token < V then some ⟨token, h⟩ else none

variable {target drafts argmax} {recovered : Nat → Fin V}

/-- The kernel's test is the scheme's. -/
theorem map_drawnPositions : ∀ (ds context : List (Fin V)) (i : Nat) (us : List ℝ), ds.length = us.length →
    (drawnPositions target drafts argmax recovered context i ds us).map (·.uniformProb) = us ∧
      (drawnPositions target drafts argmax recovered context i ds us).map (·.proposal drafts.noDraftProbs)
        = ((drafts.scheme target).proposals recovered context i ds).map (Proposal.map Fin.val) := by
  intro ds
  induction ds with
  | nil =>
    intro context i us hlen
    cases us with
    | nil => exact ⟨rfl, rfl⟩
    | cons u us => cases hlen
  | cons d ds ih =>
    intro context i us hlen
    cases us with
    | nil => cases hlen
    | cons u us =>
      obtain ⟨hus, hps⟩ := ih (context ++ [d]) (i + 1) us (Nat.succ.inj hlen)
      rw [drawnPositions, List.map_cons, List.map_cons, hus, hps, Scheme.proposals, List.map_cons]
      refine ⟨rfl, ?_⟩
      congr 1
      unfold DraftPosition.proposal Proposal.map
      cases drafts with
      | probs draft =>
        show (⟨tokenProbs (draft context) d.val, tokenProbs (target context) d.val, d.val, _⟩ : Proposal ℝ Nat) = _
        rw [tokenProbs_val, tokenProbs_val]
        rfl
      | points proposal =>
        show (⟨1, tokenProbs (target context) d.val, d.val, _⟩ : Proposal ℝ Nat) = _
        rw [tokenProbs_val]
        rfl

/-- The kernel's scores are the scheme's. -/
theorem score_drawn : ∀ (pre post context : List (Fin V)) (d : Fin V) (i : Nat) (us : List ℝ),
    (pre ++ d :: post).length = us.length →
    ∃ p, (drawnPositions target drafts argmax recovered context i (pre ++ d :: post) us)[pre.length]? = some p
      ∧ ∀ token : Fin V, p.score drafts.noDraftProbs token.val
        = (drafts.scheme target).score (context ++ pre) d token := by
  intro pre
  induction pre with
  | nil =>
    intro post context d i us hlen
    cases us with
    | nil => cases hlen
    | cons u us =>
      refine ⟨_, rfl, fun token => ?_⟩
      rw [List.append_nil]
      unfold DraftPosition.score
      cases drafts with
      | probs draft =>
        show max (tokenProbs (target context) token.val - tokenProbs (draft context) token.val) 0 = _
        rw [tokenProbs_val, tokenProbs_val]
        rfl
      | points proposal =>
        show (if token.val ≠ d.val then tokenProbs (target context) token.val else 0) = _
        rw [tokenProbs_val]
        show _ = if token ≠ d then (target context token).toReal else 0
        exact if_congr (not_congr Fin.val_inj) rfl rfl
  | cons a pre ih =>
    intro post context d i us hlen
    cases us with
    | nil => cases hlen
    | cons u us =>
      obtain ⟨p, hp, hscore⟩ := ih post (context ++ [a]) d (i + 1) us (Nat.succ.inj hlen)
      refine ⟨p, hp, fun token => ?_⟩
      rw [hscore, List.append_assoc]
      rfl

theorem filterMap_val (tokens : List (Fin V)) :
    (tokens.map Fin.val).filterMap (fun token => if h : token < V then some (⟨token, h⟩ : Fin V) else none)
      = tokens := by
  induction tokens with
  | nil => rfl
  | cons token tokens ih =>
    rw [List.map_cons, List.filterMap_cons, dif_pos token.isLt, ih]

/-- The tokens of a row are those of its request. -/
theorem rowTokens_eq (noDraftProbs : Bool) (before after : List (DraftedRequest ℝ)) (r : DraftedRequest ℝ) :
    (rowTokens noDraftProbs (before ++ r :: after) before.length : List (Fin V))
      = (parseRow V (cells (r.emitted noDraftProbs))).filterMap fun token =>
          if h : token < V then some ⟨token, h⟩ else none := by
  obtain ⟨n, hrow⟩ := rejectionSample_row noDraftProbs before after r
  unfold rowTokens
  rw [List.getD_eq_getElem?_getD, hrow, Option.getD_some, parseRow_placeholders]

/-- What a drawn request gets. -/
theorem rowTokens_drawn (before after : List (DraftedRequest ℝ)) (context ds : List (Fin V)) (us : List ℝ)
    (bonus : Fin V) (hlen : ds.length = us.length) :
    rowTokens drafts.noDraftProbs
        (before ++ drawnRequest target drafts argmax context recovered ds us bonus :: after) before.length
      = emit ((drafts.scheme target).proposals recovered context 0 ds) us bonus := by
  have hemitted : (drawnRequest target drafts argmax context recovered ds us bonus).emitted drafts.noDraftProbs
      = (emit ((drafts.scheme target).proposals recovered context 0 ds) us bonus).map Fin.val := by
    unfold DraftedRequest.emitted drawnRequest
    rw [if_neg Bool.false_ne_true]
    dsimp only
    obtain ⟨hus, hps⟩ := map_drawnPositions ds context 0 us hlen
    rw [hps, hus, emit_map]
  have hvocab : ∀ token ∈ (emit ((drafts.scheme target).proposals recovered context 0 ds) us bonus).map Fin.val,
      token < V := by
    intro token htoken
    obtain ⟨t, -, rfl⟩ := List.mem_map.mp htoken
    exact t.isLt
  have hcells := parseRow_cells hvocab 0
  rw [List.replicate_zero, List.append_nil] at hcells
  rw [rowTokens_eq, hemitted, hcells, filterMap_val]

variable (target drafts argmax) in
/-- **The target is kept.** For any drafts, any other requests and any context, the emitted tokens,
continued by draws from the target, have the joint distribution of draws from the target. They are the
drafts up to the first that is rejected and its replacement, or all of them and the bonus token; and the
tokens of no request depend on the others. -/
theorem target_kept (before after : List (DraftedRequest ℝ)) (context : List (Fin V)) (k : Nat) {Ω : Type}
    [Fintype Ω] (recovered : Nat → Ω → Fin V) (race : List (Fin V) → PMF Ω)
    (hrace : ∀ ds : List (Fin V), ds.length = k → ∀ pos, pos < k → ∀ us bonus ω, us.length = k →
      Proportional (race ds) (recovered pos) fun token =>
        recoveredProb (.ofBatch drafts.noDraftProbs (before ++
          drawnRequest target drafts argmax context (fun i => recovered i ω) ds us bonus :: after))
          before.length pos token.val)
    {n : Nat} (hn : k < n) (f : List (Fin V) → ℝ) :
    draws drafts.law k context (fun ds => expect (race ds) fun ω => expect (target (context ++ ds)) fun bonus =>
        uniforms k fun us =>
          let out := rowTokens drafts.noDraftProbs (before ++
            drawnRequest target drafts argmax context (fun i => recovered i ω) ds us bonus :: after)
            before.length
          draws target (n - out.length) (context ++ out) fun rest => f (out ++ rest))
        = draws target n context f
      ∧ (∀ (ω : Ω) (ds : List (Fin V)) (us : List ℝ) (bonus : Fin V), ds.length = us.length →
        rowTokens drafts.noDraftProbs (before ++
            drawnRequest target drafts argmax context (fun i => recovered i ω) ds us bonus :: after) before.length
          = emit ((drafts.scheme target).proposals (fun i => recovered i ω) context 0 ds) us bonus)
      ∧ ∀ (noDraftProbs : Bool) (r : DraftedRequest ℝ) (before after before' after' : List (DraftedRequest ℝ)),
        (rowTokens noDraftProbs (before ++ r :: after) before.length : List (Fin V))
          = rowTokens noDraftProbs (before' ++ r :: after') before'.length := by
  have hlaw : ∀ pre d post, (pre ++ d :: post).length = k →
      Proportional (race (pre ++ d :: post)) (recovered pre.length)
        ((drafts.scheme target).score (context ++ pre) d) := by
    intro pre d post hlen hpos
    obtain ⟨ω⟩ : Nonempty Ω := by
      obtain ⟨ω, -⟩ := (race []).support_nonempty
      exact ⟨ω⟩
    have hreplicate : (pre ++ d :: post).length = (List.replicate k (0 : ℝ)).length := by
      rw [hlen, List.length_replicate]
    obtain ⟨p, hp, hscore⟩ := score_drawn pre post context d 0 (List.replicate k 0) hreplicate
    have hlt : pre.length < k := by
      rw [← hlen, List.length_append, List.length_cons]
      omega
    have hproportional := hrace (pre ++ d :: post) hlen pre.length hlt (List.replicate k 0) d ω
      List.length_replicate
    have hsame : (fun token : Fin V => recoveredProb (.ofBatch drafts.noDraftProbs (before ++
        drawnRequest target drafts argmax context (fun i => recovered i ω) (pre ++ d :: post)
          (List.replicate k 0) d :: after)) before.length pre.length token.val)
        = (drafts.scheme target).score (context ++ pre) d := by
      funext token
      rw [recoveredProb_ofBatch _ _ _ _ hp, hscore]
    rw [hsame] at hproportional
    exact hproportional hpos
  refine ⟨?_, fun ω ds us bonus hlen => rowTokens_drawn before after context ds us bonus hlen,
    fun noDraftProbs r before after before' after' => ?_⟩
  · have hkept := (drafts.scheme target).keeps_target recovered k context race hlaw hn f
    rw [DraftModel.scheme_target, DraftModel.scheme_draft] at hkept
    rw [← hkept]
    refine draws_congr _ k _ fun ds hds => expect_congr fun ω _ => expect_congr fun bonus _ =>
      uniforms_congr k fun us hus => ?_
    rw [rowTokens_drawn before after context ds us bonus (hds.trans hus.symm)]
  · rw [rowTokens_eq, rowTokens_eq]

/-! ## A wrong guess -/

/-- Two tokens, equally likely in every context. -/
noncomputable def coin (_ : List (Fin 2)) : PMF (Fin 2) := PMF.uniformOfFintype (Fin 2)

/-- A request with temperature zero and one draft. -/
noncomputable def greedyNeighbour : DraftedRequest ℝ where
  positions := [⟨1, fun _ => 0, fun _ => 0, 0, 0, 0⟩]
  bonusTokenId := 1
  isGreedy := true

theorem coin_toReal (context : List (Fin 2)) (token : Fin 2) : (coin context token).toReal = 1 / 2 := by
  unfold coin
  rw [PMF.uniformOfFintype_apply, Fintype.card_fin]
  simp

/-- The other token is recovered. -/
noncomputable def otherToken (ds : List (Fin 2)) : PMF (Fin 2) := PMF.pure (ds.head?.elim (Fin.last 1) Fin.rev)

/-- The guess is always `0`. -/
theorem coin_kept : draws (DraftModel.points (fun _ => (0 : Fin 2))).law 1 [] (fun ds =>
      expect (otherToken ds) fun ω => expect (coin ([] ++ ds)) fun bonus => uniforms 1 fun us =>
        let out := rowTokens (DraftModel.points (fun _ => (0 : Fin 2))).noDraftProbs ([greedyNeighbour] ++
          drawnRequest coin (.points fun _ => 0) (fun _ => 0) [] (fun _ => ω) ds us bonus :: [])
          [greedyNeighbour].length
        draws coin (2 - out.length) ([] ++ out) fun rest => if out ++ rest = [0, 1] then 1 else 0)
    = 1 / 4 := by
  have hrace : ∀ ds : List (Fin 2), ds.length = 1 → ∀ pos, pos < 1 → ∀ us bonus (ω : Fin 2), us.length = 1 →
      Proportional (otherToken ds) (fun ω : Fin 2 => ω) fun token =>
        recoveredProb (.ofBatch (DraftModel.points (fun _ => (0 : Fin 2))).noDraftProbs ([greedyNeighbour] ++
          drawnRequest coin (.points fun _ => 0) (fun _ => 0) [] (fun _ => ω) ds us bonus :: []))
          [greedyNeighbour].length pos token.val := by
    intro ds hds pos hpos us bonus ω hus
    obtain ⟨d, rfl⟩ := List.length_eq_one_iff.mp hds
    obtain ⟨u, rfl⟩ := List.length_eq_one_iff.mp hus
    obtain rfl : pos = 0 := by omega
    obtain ⟨p, hp, hscore⟩ := @score_drawn 2 coin (.points fun _ => 0) (fun _ => 0) (fun _ => ω) [] [] [] d 0 [u]
      rfl
    have hsame : (fun token : Fin 2 => recoveredProb (.ofBatch
        (DraftModel.points (fun _ => (0 : Fin 2))).noDraftProbs ([greedyNeighbour] ++
          drawnRequest coin (.points fun _ => 0) (fun _ => 0) [] (fun _ => ω) [d] [u] bonus :: []))
          [greedyNeighbour].length 0 token.val) = fun token => if token ≠ d then 1 / 2 else 0 := by
      funext token
      rw [recoveredProb_ofBatch _ _ _ _ hp, hscore]
      show (if token ≠ d then (coin [] token).toReal else 0) = _
      rw [coin_toReal]
    rw [hsame]
    intro _ a
    have hother : otherToken [d] = PMF.pure (if d = 0 then 1 else 0) := by fin_cases d <;> rfl
    rw [hother, expect_pure, Fin.sum_univ_two]
    fin_cases d <;> fin_cases a <;> norm_num
  have hkept := (target_kept coin (.points fun _ => 0) (fun _ => 0) [greedyNeighbour] [] [] 1 (fun _ ω => ω)
    otherToken hrace (n := 2) (by omega) fun tokens => if tokens = [0, 1] then 1 else 0).1
  refine hkept.trans ?_
  simp only [draws, expect, coin_toReal, Fin.sum_univ_two]
  norm_num

end VllmEngine.Sample.RandomRejection
