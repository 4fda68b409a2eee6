import Mathlib.Data.List.TakeWhile
import VllmEngine.Lib.Dict
import VllmEngine.Lib.Scatter
import VllmEngine.Request

/-!
# The embeddings of a step

`_gather_mm_embeddings` (`vllm/v1/worker/gpu_model_runner.py`): for the tokens of a step the
rows of the encoder outputs that replace token embeddings, and the mask of the batch rows that
they replace.

Mirroring notes:
- An encoder output is the list of its rows, of any type.
- `is_embed` has the shape `(length,)`, so the two sides of `|=` have one length.
- Multimodal pruning is off: it changes the mrope positions, and the embeddings of a request
  in the same order.
-/

namespace VllmEngine.Multimodal

open Python

variable {E : Type}

/-- What `_gather_mm_embeddings` reads of a `CachedRequestState`. -/
structure MmRequestState where
  numComputedTokens : Nat
  mmFeatures : List MultiModalFeatureSpec

/-- What it reads of the step and of the runner. -/
structure GatherBatch (E : Type) where
  /-- `input_batch.req_ids`. -/
  reqIds : List ReqId
  totalNumScheduledTokens : Nat
  numScheduledTokens : Dict ReqId Nat
  requests : Dict ReqId MmRequestState
  encoderCache : Dict String (List E)

/-- `mm_embeds` and `is_mm_embed`. -/
structure Gathered (E : Type) where
  mmEmbeds : List (List E)
  isMmEmbed : List Bool

/-- `mask[a:b] = True`. -/
def setRows (mask : List Bool) (a b : Int) : List Bool :=
  let lo := sliceBound mask.length a
  let hi := sliceBound mask.length b
  mask.mapIdx fun k m => if lo ≤ k ∧ k < hi then true else m

/-- `mask[a:b] |= bits`. -/
def orRows (mask : List Bool) (a b : Int) (bits : List Bool) : List Bool :=
  let lo := sliceBound mask.length a
  let hi := sliceBound mask.length b
  mask.mapIdx fun k m => if lo ≤ k ∧ k < hi then m || bits.getD (k - lo) false else m

/-- The loop over the features, for one that overlaps the scheduled tokens. -/
def gatherFeature (encoderCache : Dict String (List E))
    (numComputedTokens numScheduledTokens reqStartIdx : Nat) (mmFeature : MultiModalFeatureSpec)
    (g : Gathered E) : Except Error (Gathered E) := do
  let posInfo := mmFeature.mmPosition
  let startPos : Int := posInfo.offset
  let numEncoderTokens : Int := posInfo.length
  let startIdx : Int := max (numComputedTokens - startPos) 0
  let endIdx : Int := min (numComputedTokens - startPos + numScheduledTokens) numEncoderTokens
  require (decide (startIdx < endIdx)) ""
  let (currEmbedsStart, currEmbedsEnd) :=
    posInfo.getEmbedsIndicesInRange startIdx.toNat endIdx.toNat
  if currEmbedsStart = currEmbedsEnd then return g
  else
    let mmHash := mmFeature.identifier
    match encoderCache.get? mmHash with
    | none => .error (.assertion s!"Encoder cache miss for {mmHash}.")
    | some encoderOutput =>
      let reqStartPos : Int := reqStartIdx + startPos - numComputedTokens
      match posInfo.isEmbed with
      | some isEmbed =>
        return {
          mmEmbeds := g.mmEmbeds ++ [slice encoderOutput currEmbedsStart currEmbedsEnd]
          isMmEmbed := orRows g.isMmEmbed (reqStartPos + startIdx) (reqStartPos + endIdx)
            (slice isEmbed startIdx endIdx) }
      | none =>
        return {
          mmEmbeds := g.mmEmbeds ++ [slice encoderOutput startIdx endIdx]
          isMmEmbed := setRows g.isMmEmbed (reqStartPos + startIdx) (reqStartPos + endIdx) }

/-- `for mm_feature in req_state.mm_features`. -/
def gatherFeatures (encoderCache : Dict String (List E))
    (numComputedTokens numScheduledTokens reqStartIdx : Nat) :
    List MultiModalFeatureSpec → Gathered E → Except Error (Gathered E)
  | [], g => .ok g
  | f :: fs, g =>
    let startPos := f.mmPosition.offset
    let numEncoderTokens := f.mmPosition.length
    if numComputedTokens + numScheduledTokens ≤ startPos then .ok g
    else if startPos + numEncoderTokens ≤ numComputedTokens then
      gatherFeatures encoderCache numComputedTokens numScheduledTokens reqStartIdx fs g
    else do
      let g ← gatherFeature encoderCache numComputedTokens numScheduledTokens reqStartIdx f g
      gatherFeatures encoderCache numComputedTokens numScheduledTokens reqStartIdx fs g

/-- `d[k]`. -/
def lookUp {V : Type} (d : Dict ReqId V) (k : ReqId) : Except Error V :=
  match d.get? k with
  | some v => .ok v
  | none => .error (.key k)

/-- `for req_id in self.input_batch.req_ids`, with `req_start_idx`. -/
def gatherRequest (b : GatherBatch E) (shiftComputedTokens : Nat) (s : Gathered E × Nat)
    (reqId : ReqId) : Except Error (Gathered E × Nat) := do
  let (g, reqStartIdx) := s
  let numScheduledTokens ← lookUp b.numScheduledTokens reqId
  let reqState ← lookUp b.requests reqId
  let numComputedTokens := reqState.numComputedTokens + shiftComputedTokens
  let r ← gatherFeatures b.encoderCache numComputedTokens numScheduledTokens reqStartIdx
    reqState.mmFeatures ⟨[], g.isMmEmbed⟩
  return (⟨g.mmEmbeds ++ r.mmEmbeds, r.isMmEmbed⟩, reqStartIdx + numScheduledTokens)

/-- `_gather_mm_embeddings`. -/
def gatherMmEmbeddings (b : GatherBatch E) (shiftComputedTokens : Nat) :
    Except Error (Gathered E) := do
  let isMmEmbed := List.replicate b.totalNumScheduledTokens false
  let (g, _) ← b.reqIds.foldlM (gatherRequest b shiftComputedTokens) (⟨[], isMmEmbed⟩, 0)
  return g

/-! ## What is wanted -/

/-- Which positions of a placeholder receive an embedding. -/
def embedMask (f : MultiModalFeatureSpec) : List Bool :=
  f.mmPosition.isEmbed.getD (List.replicate f.mmPosition.length true)

/-- The prompt position receives an embedding of the feature. -/
def EmbedPosition (f : MultiModalFeatureSpec) (p : Nat) : Prop :=
  f.offset ≤ p ∧ (embedMask f).getD (p - f.offset) false = true

instance (f : MultiModalFeatureSpec) (p : Nat) : Decidable (EmbedPosition f p) :=
  inferInstanceAs (Decidable (_ ∧ _))

/-- The row of the feature's encoder output for a position: as many rows are before it as
positions of the feature receive an embedding before this one. -/
def embedRow (encoderCache : Dict String (List E)) (f : MultiModalFeatureSpec) (p : Nat) :
    Option E :=
  if EmbedPosition f p then
    (encoderCache.get? f.identifier).bind fun output =>
      output[Scatter.before (embedMask f) (p - f.offset)]?
  else none

/-- The row for a position of a prompt. -/
def wantedRow (encoderCache : Dict String (List E)) (fs : List MultiModalFeatureSpec) (p : Nat) :
    Option E :=
  fs.findSome? fun f => embedRow encoderCache f p

/-- The rows of a request in a step. -/
def wantedRequest (b : GatherBatch E) (shift : Nat) (reqId : ReqId) : List (Option E) :=
  match b.numScheduledTokens.get? reqId, b.requests.get? reqId with
  | some n, some st =>
    (List.range' (st.numComputedTokens + shift) n).map (wantedRow b.encoderCache st.mmFeatures)
  | _, _ => []

/-- The rows of the batch. -/
def wantedRows (b : GatherBatch E) (shift : Nat) : List (Option E) :=
  b.reqIds.flatMap (wantedRequest b shift)

/-- A placeholder of some length; its mask, if it has one, has that length. -/
structure WellPlaced (f : MultiModalFeatureSpec) : Prop where
  length_pos : 1 ≤ f.mmPosition.length
  mask_length : (embedMask f).length = f.mmPosition.length

/-- The encoder output of a feature is there, with a row for each embedding. -/
def Encoded (encoderCache : Dict String (List E)) (f : MultiModalFeatureSpec) : Prop :=
  (encoderCache.get? f.identifier).map List.length = some f.mmPosition.getNumEmbeds

/-- The features of a prompt, from left to right and apart. The outputs of those that overlap the
positions `c, …, c + n - 1` are there. -/
structure FeaturesReady (encoderCache : Dict String (List E)) (c n : Nat)
    (fs : List MultiModalFeatureSpec) : Prop where
  sorted : fs.Pairwise fun f f' => f.stop ≤ f'.offset
  placed : ∀ f ∈ fs, WellPlaced f
  encoded : ∀ f ∈ fs, f.offset < c + n → c < f.stop → Encoded encoderCache f

/-- How many rows a request has in the step. -/
def GatherBatch.rows (b : GatherBatch E) (id : ReqId) : Nat := (b.numScheduledTokens.get? id).getD 0

/-- A request of the step is known, and its features are ready for the shifted positions. -/
def GatherBatch.Known (b : GatherBatch E) (shift : Nat) (id : ReqId) : Prop :=
  ∃ st, b.requests.get? id = some st ∧
    FeaturesReady b.encoderCache (st.numComputedTokens + shift) (b.rows id) st.mmFeatures

/-- A step of known requests that schedules tokens for each of them. -/
structure GatherBatch.Ready (b : GatherBatch E) (shift : Nat) : Prop where
  scheduled : ∀ id ∈ b.reqIds, ∃ n, b.numScheduledTokens.get? id = some n ∧ 1 ≤ n
  known : ∀ id ∈ b.reqIds, b.Known shift id
  total : b.totalNumScheduledTokens =
    (b.reqIds.map fun id => (b.numScheduledTokens.get? id).getD 0).sum

end VllmEngine.Multimodal

/-!
## The embeddings of a step stand at their positions

The loops of `_gather_mm_embeddings` against `wantedRows`: over the features of a request, the
mask of its rows and its embeddings are those of the features passed; over the requests, the
mask is that of the rows so far with nothing behind it.
-/

namespace VllmEngine.Multimodal

open Python Scatter

variable {E : Type}

/-! ## A part of the mask -/

theorem mapIdx_of_id {l : List Bool} {f : Nat → Bool → Bool}
    (h : ∀ k < l.length, ∀ m, f k m = m) : l.mapIdx f = l := by
  apply List.ext_getElem
  · exact List.length_mapIdx
  · intro k hk hk'
    rw [List.getElem_mapIdx]
    exact h k hk' _

/-- A change of the rows `lo` to `hi` of a request whose rows start at `c`. -/
theorem mapIdx_part (front back : List Bool) (g : Nat → Bool) (h : Nat → Bool → Bool)
    {c n lo hi : Nat} (hc : c ≤ lo) (hhi : hi ≤ c + n) :
    (front ++ (List.range' c n).map g ++ back).mapIdx (fun k m =>
        if front.length + (lo - c) ≤ k ∧ k < front.length + (hi - c) then h k m else m) =
      front ++ (List.range' c n).map (fun p =>
        if lo ≤ p ∧ p < hi then h (front.length + (p - c)) (g p) else g p) ++ back := by
  rw [List.mapIdx_append, List.mapIdx_append]
  congr 1
  · congr 1
    · apply mapIdx_of_id
      intro k hk m
      exact if_neg (by omega)
    · apply List.ext_getElem
      · rw [List.length_mapIdx, List.length_map, List.length_map]
      · intro k hk hk'
        rw [List.getElem_mapIdx, List.getElem_map, List.getElem_map, List.getElem_range']
        rw [List.length_mapIdx, List.length_map, List.length_range'] at hk
        rw [Nat.one_mul, Nat.add_sub_cancel_left, Nat.add_comm k front.length]
        by_cases hin : lo ≤ c + k ∧ c + k < hi
        · rw [if_pos hin, if_pos (by omega)]
        · rw [if_neg hin, if_neg (by omega)]
  · apply mapIdx_of_id
    intro k _ m
    rw [List.length_append, List.length_map, List.length_range']
    exact if_neg (by omega)

theorem sliceBound_natCast {n k : Nat} (h : k ≤ n) : sliceBound n (k : Int) = k := by
  unfold sliceBound
  rw [if_neg (by omega), Int.toNat_natCast]
  exact Nat.min_eq_left h

section Part

variable (front back : List Bool) (g : Nat → Bool) {c n lo hi : Nat}

/-- A bound inside of the rows of the request. -/
theorem sliceBound_part {x : Nat} (hx : x ≤ hi) (hc : c ≤ x) (hhi : hi ≤ c + n) :
    sliceBound (front ++ (List.range' c n).map g ++ back).length
      ((front.length + (x - c) : Nat) : Int) = front.length + (x - c) := by
  apply sliceBound_natCast
  rw [List.length_append, List.length_append, List.length_map, List.length_range']
  omega

theorem setRows_part (hc : c ≤ lo) (hlo : lo ≤ hi) (hhi : hi ≤ c + n) :
    setRows (front ++ (List.range' c n).map g ++ back) ((front.length + (lo - c) : Nat) : Int)
        ((front.length + (hi - c) : Nat) : Int) =
      front ++ (List.range' c n).map (fun p => if lo ≤ p ∧ p < hi then true else g p) ++ back := by
  unfold setRows
  dsimp only
  rw [sliceBound_part front back g hlo hc hhi, sliceBound_part front back g (Nat.le_refl hi)
    (Nat.le_trans hc hlo) hhi]
  exact mapIdx_part front back g (fun _ _ => true) hc hhi

theorem orRows_part (bits : List Bool) (hc : c ≤ lo) (hlo : lo ≤ hi) (hhi : hi ≤ c + n) :
    orRows (front ++ (List.range' c n).map g ++ back) ((front.length + (lo - c) : Nat) : Int)
        ((front.length + (hi - c) : Nat) : Int) bits =
      front ++ (List.range' c n).map (fun p =>
        if lo ≤ p ∧ p < hi then g p || bits.getD (p - lo) false else g p) ++ back := by
  unfold orRows
  dsimp only
  rw [sliceBound_part front back g hlo hc hhi, sliceBound_part front back g (Nat.le_refl hi)
    (Nat.le_trans hc hlo) hhi]
  rw [mapIdx_part front back g
    (fun k m => m || bits.getD (k - (front.length + (lo - c))) false) hc hhi]
  congr 2
  apply List.map_congr_left
  intro p _
  by_cases hin : lo ≤ p ∧ p < hi
  · rw [if_pos hin, if_pos hin]
    rw [show front.length + (p - c) - (front.length + (lo - c)) = p - lo by omega]
  · rw [if_neg hin, if_neg hin]

end Part

/-! ## One feature -/

section Feature

variable {encoderCache : Dict String (List E)} {f : MultiModalFeatureSpec}

theorem before_replicate {len i : Nat} (h : i ≤ len) :
    before (List.replicate len true) i = i := by
  unfold before
  rw [List.take_replicate, List.count_replicate_self, Nat.min_eq_left h]

theorem getEmbedsIndicesInRange_eq {s e : Nat} (hs : s ≤ f.mmPosition.length)
    (he : e ≤ f.mmPosition.length) :
    f.mmPosition.getEmbedsIndicesInRange s e =
      (before (embedMask f) s, before (embedMask f) e) := by
  unfold PlaceholderRange.getEmbedsIndicesInRange embedMask
  cases f.mmPosition.isEmbed with
  | none =>
    show (s, e) = (before (List.replicate _ true) s, before (List.replicate _ true) e)
    rw [before_replicate hs, before_replicate he]
  | some mask => rfl

theorem getNumEmbeds_eq : f.mmPosition.getNumEmbeds = (embedMask f).count true := by
  unfold PlaceholderRange.getNumEmbeds embedMask
  cases f.mmPosition.isEmbed with
  | none => exact List.count_replicate_self.symm
  | some mask => rfl

theorem WellPlaced.lt_stop (h : WellPlaced f) {p : Nat}
    (hp : EmbedPosition f p) : p < f.stop := by
  obtain ⟨hle, hmask⟩ := hp
  apply Nat.not_le.mp
  intro hstop
  rw [List.getD_eq_default _ _ (by
    rw [h.mask_length]
    unfold MultiModalFeatureSpec.stop at hstop
    unfold MultiModalFeatureSpec.offset at hle ⊢
    omega)] at hmask
  cases hmask

theorem embedRow_of_lt {p : Nat} (h : p < f.offset) : embedRow encoderCache f p = none :=
  if_neg fun hp => absurd hp.1 (Nat.not_le.mpr h)

theorem WellPlaced.embedRow_of_ge (h : WellPlaced f) {p : Nat}
    (hp : f.stop ≤ p) : embedRow encoderCache f p = none :=
  if_neg fun hpos => absurd (h.lt_stop hpos) (Nat.not_lt.mpr hp)

theorem embedPosition_add (i : Nat) :
    EmbedPosition f (f.offset + i) ↔ (embedMask f).getD i false = true := by
  unfold EmbedPosition
  rw [Nat.add_sub_cancel_left]
  exact ⟨fun h => h.2, fun h => ⟨Nat.le_add_right _ _, h⟩⟩

/-- The row of the `i`-th position of the placeholder. -/
theorem embedRow_add {output : List E} (hget : encoderCache.get? f.identifier = some output)
    (i : Nat) : embedRow encoderCache f (f.offset + i) = selected (embedMask f) output i := by
  unfold embedRow selected
  by_cases hp : EmbedPosition f (f.offset + i)
  · rw [if_pos hp, if_pos ((embedPosition_add i).mp hp), hget, Nat.add_sub_cancel_left]
    rfl
  · rw [if_neg hp, if_neg fun hc => hp ((embedPosition_add i).mpr hc)]

theorem Encoded.output (h : Encoded encoderCache f) : ∃ output,
    encoderCache.get? f.identifier = some output ∧ output.length = (embedMask f).count true := by
  rw [← getNumEmbeds_eq]
  exact Option.map_eq_some_iff.mp h

theorem Encoded.isSome_embedRow (h : Encoded encoderCache f) (p : Nat) :
    (embedRow encoderCache f p).isSome = decide (EmbedPosition f p) := by
  obtain ⟨output, hget, hlen⟩ := h.output
  rcases Nat.lt_or_ge p f.offset with hlt | hle
  · rw [embedRow_of_lt hlt]
    exact (decide_eq_false fun hp => absurd hp.1 (Nat.not_le.mpr hlt)).symm
  · obtain ⟨i, rfl⟩ := Nat.exists_eq_add_of_le hle
    rw [embedRow_add hget, selected_isSome hlen]
    cases hi : (embedMask f).getD i false with
    | false =>
      exact (decide_eq_false fun hp =>
        Bool.false_ne_true (hi.symm.trans ((embedPosition_add i).mp hp))).symm
    | true => exact (decide_eq_true ((embedPosition_add i).mpr hi)).symm

/-- The rows of a feature among the positions of a step are a slice of its output. -/
theorem WellPlaced.filterMap_embedRow (h : WellPlaced f) {output : List E}
    (hget : encoderCache.get? f.identifier = some output)
    (hlen : output.length = (embedMask f).count true) {c n lo hi : Nat}
    (hlo : lo = max c f.offset) (hhi : hi = min (c + n) f.stop) (hle : lo ≤ hi) :
    (List.range' c n).filterMap (embedRow encoderCache f) =
      (output.take (before (embedMask f) (hi - f.offset))).drop
        (before (embedMask f) (lo - f.offset)) := by
  have houtside : ∀ p, p < lo ∨ hi ≤ p → c ≤ p → p < c + n → embedRow encoderCache f p = none := by
    rintro p (hp | hp) hc hcn
    · exact embedRow_of_lt (by omega)
    · exact h.embedRow_of_ge (by omega)
  rw [filterMap_range'_inside (by omega) hle (by omega) houtside]
  have hrange : List.range' lo (hi - lo) =
      (List.range' (lo - f.offset) (hi - lo)).map (f.offset + ·) := by
    rw [List.map_add_range', show f.offset + (lo - f.offset) = lo by omega]
  rw [hrange, List.filterMap_map]
  rw [show (embedRow encoderCache f ∘ (f.offset + ·)) = selected (embedMask f) output from
    funext fun i => embedRow_add hget i]
  rw [filterMap_selected hlen, show lo - f.offset + (hi - lo) = hi - f.offset by omega]

/-- The positions of a step that receive an embedding of the feature. -/
theorem WellPlaced.decide_embedPosition (h : WellPlaced f) {c n lo hi p : Nat}
    (hlo : lo = max c f.offset) (hhi : hi = min (c + n) f.stop) (hp : p ∈ List.range' c n) :
    decide (EmbedPosition f p) =
      (if lo ≤ p ∧ p < hi then (embedMask f).getD (p - f.offset) false else false) := by
  rw [List.mem_range'_1] at hp
  by_cases hin : lo ≤ p ∧ p < hi
  · rw [if_pos hin]
    have hadd := embedPosition_add (f := f) (p - f.offset)
    rw [show f.offset + (p - f.offset) = p by omega] at hadd
    cases hm : (embedMask f).getD (p - f.offset) false with
    | false =>
      exact decide_eq_false fun hpos => Bool.false_ne_true (hm.symm.trans (hadd.mp hpos))
    | true => exact decide_eq_true (hadd.mpr hm)
  · rw [if_neg hin]
    apply decide_eq_false
    intro hpos
    have hstop := h.lt_stop hpos
    have hstart := hpos.1
    omega

end Feature

/-! ## The features of a request -/

section Features

variable {encoderCache : Dict String (List E)} {done : List MultiModalFeatureSpec}
  {f : MultiModalFeatureSpec}

theorem wantedRow_snoc (p : Nat) : wantedRow encoderCache (done ++ [f]) p =
    (wantedRow encoderCache done p).or (embedRow encoderCache f p) := by
  unfold wantedRow
  rw [List.findSome?_append, List.findSome?_singleton]

/-- Behind the features there is nothing. -/
theorem wantedRow_of_ge {fs : List MultiModalFeatureSpec} {o p : Nat}
    (hplaced : ∀ d ∈ fs, WellPlaced d) (hstop : ∀ d ∈ fs, d.stop ≤ o)
    (hp : o ≤ p) : wantedRow encoderCache fs p = none := by
  unfold wantedRow
  apply List.findSome?_eq_none_iff.mpr
  intro d hd
  exact (hplaced d hd).embedRow_of_ge (Nat.le_trans (hstop d hd) hp)

/-- In front of the features there is nothing. -/
theorem wantedRow_of_lt {fs : List MultiModalFeatureSpec} {p : Nat}
    (hstart : ∀ d ∈ fs, p < d.offset) : wantedRow encoderCache fs p = none := by
  unfold wantedRow
  apply List.findSome?_eq_none_iff.mpr
  intro d hd
  exact embedRow_of_lt (hstart d hd)

/-- What the loop has gathered after the features `done` of a request whose rows are those of
the positions `c, …, c + n - 1`, between `front` and `back`. -/
structure Seen (encoderCache : Dict String (List E)) (front back : List Bool) (c n : Nat)
    (done : List MultiModalFeatureSpec) (g : Gathered E) : Prop where
  mask : g.isMmEmbed =
    front ++ (List.range' c n).map (fun p => (wantedRow encoderCache done p).isSome) ++ back
  embeds : g.mmEmbeds.flatten = (List.range' c n).filterMap (wantedRow encoderCache done)

variable {front back : List Bool} {c n : Nat} {g : Gathered E}

/-- Features that want no row of the step change nothing. -/
theorem Seen.congr {done' : List MultiModalFeatureSpec}
    (h : Seen encoderCache front back c n done g)
    (heq : ∀ p ∈ List.range' c n,
      wantedRow encoderCache done' p = wantedRow encoderCache done p) :
    Seen encoderCache front back c n done' g where
  mask := by
    rw [h.mask, List.map_congr_left fun p hp => congrArg Option.isSome (heq p hp)]
  embeds := by
    rw [h.embeds]
    exact (List.filterMap_congr heq).symm

/-- The embeddings of a further feature. -/
theorem filterMap_wantedRow_snoc (hplaced : ∀ d ∈ done, WellPlaced d)
    (hstop : ∀ d ∈ done, d.stop ≤ f.offset) (c n : Nat) :
    (List.range' c n).filterMap (wantedRow encoderCache (done ++ [f])) =
      (List.range' c n).filterMap (wantedRow encoderCache done) ++
        (List.range' c n).filterMap (embedRow encoderCache f) := by
  rw [← filterMap_range'_or (fun p hp => wantedRow_of_ge hplaced hstop hp)
    (fun p hp => embedRow_of_lt hp)]
  exact List.filterMap_congr fun p _ => wantedRow_snoc p

theorem isSome_wantedRow_snoc (hf : Encoded encoderCache f) (p : Nat) :
    (wantedRow encoderCache (done ++ [f]) p).isSome =
      ((wantedRow encoderCache done p).isSome || decide (EmbedPosition f p)) := by
  rw [wantedRow_snoc, Option.isSome_or, hf.isSome_embedRow]

/-- A feature that overlaps the step. -/
theorem Seen.feature (h : Seen encoderCache front back c n done g)
    (hf : WellPlaced f) (hout : Encoded encoderCache f) (hplaced : ∀ d ∈ done, WellPlaced d)
    (hstop : ∀ d ∈ done, d.stop ≤ f.offset) (hn : 1 ≤ n) (hstart : f.offset < c + n)
    (hend : c < f.stop) :
    ∃ g', gatherFeature encoderCache c n front.length f g = .ok g' ∧
      Seen encoderCache front back c n (done ++ [f]) g' := by
  obtain ⟨lo, hlo⟩ : ∃ lo, lo = max c f.offset := ⟨_, rfl⟩
  obtain ⟨hi, hhi⟩ : ∃ hi, hi = min (c + n) f.stop := ⟨_, rfl⟩
  have hpos := hf.length_pos
  have hstopeq : f.stop = f.mmPosition.offset + f.mmPosition.length := rfl
  have hoff : f.offset = f.mmPosition.offset := rfl
  have hlt : lo < hi := by omega
  obtain ⟨output, hget, hlen⟩ := hout.output
  have hrows := hf.filterMap_embedRow hget hlen hlo hhi (Nat.le_of_lt hlt)
  -- the indices of the source, counted in natural numbers
  have hs : max ((c : Int) - f.mmPosition.offset) 0 = ((lo - f.offset : Nat) : Int) := by omega
  have he : min ((c : Int) - f.mmPosition.offset + n) f.mmPosition.length =
      ((hi - f.offset : Nat) : Int) := by omega
  have ha : (front.length : Int) + f.mmPosition.offset - c + ((lo - f.offset : Nat) : Int) =
      ((front.length + (lo - c) : Nat) : Int) := by omega
  have hb : (front.length : Int) + f.mmPosition.offset - c + ((hi - f.offset : Nat) : Int) =
      ((front.length + (hi - c) : Nat) : Int) := by omega
  have hreq : require (decide (((lo - f.offset : Nat) : Int) < ((hi - f.offset : Nat) : Int))) "" =
      .ok () := if_pos (decide_eq_true (by omega))
  unfold gatherFeature
  dsimp only
  rw [hs, he, hreq, Raises.ok_bind, Int.toNat_natCast, Int.toNat_natCast,
    getEmbedsIndicesInRange_eq (by omega) (by omega)]
  dsimp only
  by_cases hempty : before (embedMask f) (lo - f.offset) = before (embedMask f) (hi - f.offset)
  · -- no embedding of the feature in the step
    rw [if_pos hempty]
    refine ⟨g, rfl, h.congr fun p hp => ?_⟩
    rw [hempty, List.drop_of_length_le (List.length_take_le _ _)] at hrows
    rw [wantedRow_snoc, List.filterMap_eq_nil_iff.mp hrows p hp, Option.or_none]
  rw [if_neg hempty, hget]
  dsimp only
  rw [ha, hb]
  have hembeds : ∀ item, item = (List.range' c n).filterMap (embedRow encoderCache f) →
      (g.mmEmbeds ++ [item]).flatten =
        (List.range' c n).filterMap (wantedRow encoderCache (done ++ [f])) := by
    rintro item rfl
    rw [List.flatten_append, h.embeds, List.flatten_singleton,
      filterMap_wantedRow_snoc hplaced hstop]
  have hslice : slice output (before (embedMask f) (lo - f.offset) : Nat)
      (before (embedMask f) (hi - f.offset) : Nat) =
        (List.range' c n).filterMap (embedRow encoderCache f) := by
    rw [hrows, slice_natCast]
  cases hmask : f.mmPosition.isEmbed with
  | some m =>
    have hm : embedMask f = m := by
      unfold embedMask
      rw [hmask]
      rfl
    dsimp only
    refine ⟨_, rfl, ?_, hembeds _ hslice⟩
    show orRows g.isMmEmbed _ _ _ = _
    rw [h.mask, orRows_part _ _ _ _ (by omega) (Nat.le_of_lt hlt) (by omega)]
    congr 2
    apply List.map_congr_left
    intro p hp
    rw [isSome_wantedRow_snoc hout, hf.decide_embedPosition hlo hhi hp]
    by_cases hin : lo ≤ p ∧ p < hi
    · rw [if_pos hin, if_pos hin, hm, slice_natCast]
      congr 1
      rw [List.getD_eq_getElem?_getD, List.getD_eq_getElem?_getD, List.getElem?_drop,
        show lo - f.offset + (p - lo) = p - f.offset by omega,
        List.getElem?_take_of_lt (by omega)]
    · rw [if_neg hin, if_neg hin, Bool.or_false]
  | none =>
    have hm : embedMask f = List.replicate f.mmPosition.length true := by
      unfold embedMask
      rw [hmask]
      rfl
    have hitem : slice output ((lo - f.offset : Nat) : Int) ((hi - f.offset : Nat) : Int) =
        (List.range' c n).filterMap (embedRow encoderCache f) := by
      rw [hm, before_replicate (by omega), before_replicate (by omega)] at hslice
      exact hslice
    dsimp only
    refine ⟨_, rfl, ?_, hembeds _ hitem⟩
    show setRows g.isMmEmbed _ _ = _
    rw [h.mask, setRows_part _ _ _ (by omega) (Nat.le_of_lt hlt) (by omega)]
    congr 2
    apply List.map_congr_left
    intro p hp
    rw [isSome_wantedRow_snoc hout, hf.decide_embedPosition hlo hhi hp]
    by_cases hin : lo ≤ p ∧ p < hi
    · rw [if_pos hin, if_pos hin, hm, List.getD_eq_getElem?_getD, List.getElem?_replicate,
        if_pos (by omega)]
      exact (Bool.or_true _).symm
    · rw [if_neg hin, if_neg hin, Bool.or_false]

/-- The loop over the features of a request. -/
theorem Seen.features (hn : 1 ≤ n) :
    ∀ {fs done : List MultiModalFeatureSpec} {g : Gathered E},
      Seen encoderCache front back c n done g → FeaturesReady encoderCache c n (done ++ fs) →
      ∃ g', gatherFeatures encoderCache c n front.length fs g = .ok g' ∧
        Seen encoderCache front back c n (done ++ fs) g'
  | [], done, g, h, _ => by
    rw [List.append_nil]
    exact ⟨g, rfl, h⟩
  | f :: fs, done, g, h, hfs => by
    obtain ⟨-, hrest, hcross⟩ := List.pairwise_append.mp hfs.sorted
    have hplaced : ∀ d ∈ done, WellPlaced d := fun d hd =>
      hfs.placed d (List.mem_append_left _ hd)
    have hstop : ∀ d ∈ done, d.stop ≤ f.offset := fun d hd => hcross d hd f List.mem_cons_self
    have hmem : f ∈ done ++ f :: fs := List.mem_append_right _ List.mem_cons_self
    have hf : WellPlaced f := hfs.placed f hmem
    have hfs' : FeaturesReady encoderCache c n ((done ++ [f]) ++ fs) := by
      rw [List.append_assoc]
      exact hfs
    unfold gatherFeatures
    dsimp only
    by_cases hbreak : c + n ≤ f.mmPosition.offset
    · -- this feature and the later ones stand behind the step
      rw [if_pos hbreak]
      refine ⟨g, rfl, h.congr fun p hp => ?_⟩
      rw [List.mem_range'_1] at hp
      have hlater : wantedRow encoderCache (f :: fs) p = none := by
        apply wantedRow_of_lt
        intro d hd
        rcases List.mem_cons.mp hd with rfl | hd
        · exact Nat.lt_of_lt_of_le hp.2 hbreak
        · have hle := (List.pairwise_cons.mp hrest).1 d hd
          have hoff : f.mmPosition.offset ≤ f.stop := Nat.le_add_right _ _
          omega
      unfold wantedRow at hlater ⊢
      rw [List.findSome?_append, hlater, Option.or_none]
    rw [if_neg hbreak]
    by_cases hcontinue : f.mmPosition.offset + f.mmPosition.length ≤ c
    · rw [if_pos hcontinue]
      have hseen : Seen encoderCache front back c n (done ++ [f]) g := by
        apply h.congr
        intro p hp
        rw [List.mem_range'_1] at hp
        have hnone : embedRow encoderCache f p = none :=
          hf.embedRow_of_ge (Nat.le_trans hcontinue hp.1)
        rw [wantedRow_snoc, hnone, Option.or_none]
      obtain ⟨g', hg', hseen'⟩ := hseen.features hn hfs'
      rw [List.append_assoc] at hseen'
      exact ⟨g', hg', hseen'⟩
    · rw [if_neg hcontinue]
      have hstart : f.offset < c + n := Nat.not_le.mp hbreak
      have hend : c < f.stop := Nat.not_le.mp hcontinue
      obtain ⟨g₁, hg₁, hseen⟩ := h.feature hf (hfs.encoded f hmem hstart hend) hplaced hstop hn
        hstart hend
      obtain ⟨g', hg', hseen'⟩ := hseen.features hn hfs'
      rw [List.append_assoc] at hseen'
      rw [hg₁, Raises.ok_bind]
      exact ⟨g', hg', hseen'⟩

end Features

/-! ## The requests of a batch -/

section Requests

variable {b : GatherBatch E} {shift : Nat}

/-- What the loop has gathered after some requests, with `rest` rows to come. -/
structure GatheredRows (b : GatherBatch E) (shift : Nat) (done : List ReqId) (rest : Nat)
    (s : Gathered E × Nat) : Prop where
  mask : s.1.isMmEmbed =
    (done.flatMap (wantedRequest b shift)).map Option.isSome ++ List.replicate rest false
  embeds : s.1.mmEmbeds.flatten = (done.flatMap (wantedRequest b shift)).filterMap id
  start : s.2 = (done.flatMap (wantedRequest b shift)).length

/-- The rows of a request that is ready. -/
theorem wantedRequest_of_get {id : ReqId} {n : Nat} {st : MmRequestState}
    (hn : b.numScheduledTokens.get? id = some n) (hst : b.requests.get? id = some st) :
    wantedRequest b shift id = (List.range' (st.numComputedTokens + shift) n).map
      (wantedRow b.encoderCache st.mmFeatures) := by
  unfold wantedRequest
  rw [hn, hst]

theorem GatheredRows.request {done : List ReqId} {rest : Nat} {s : Gathered E × Nat} {id : ReqId}
    (h : GatheredRows b shift done (b.rows id + rest) s)
    (hn : ∃ n, b.numScheduledTokens.get? id = some n ∧ 1 ≤ n)
    (hst : b.Known shift id) :
    ∃ s', gatherRequest b shift s id = .ok s' ∧ GatheredRows b shift (done ++ [id]) rest s' := by
  obtain ⟨n, hn, hpos⟩ := hn
  obtain ⟨st, hst, hfs⟩ := hst
  obtain ⟨g, start⟩ := s
  have hstart : start = (done.flatMap (wantedRequest b shift)).length := h.start
  have hrows : b.rows id = n := by
    unfold GatherBatch.rows
    rw [hn]
    rfl
  obtain ⟨front, hfront⟩ : ∃ front, front =
    (done.flatMap (wantedRequest b shift)).map Option.isSome := ⟨_, rfl⟩
  have hlen : front.length = start := by rw [hfront, List.length_map, hstart]
  -- the rows of the request before its features
  have hseen : Seen b.encoderCache front (List.replicate rest false) (st.numComputedTokens + shift)
      n [] ⟨[], g.isMmEmbed⟩ := by
    constructor
    · show g.isMmEmbed = _
      have hmask : g.isMmEmbed = _ := h.mask
      rw [hmask, hrows, ← hfront, List.append_assoc, ← List.replicate_append_replicate]
      congr 2
      exact (List.eq_replicate_iff.mpr ⟨by rw [List.length_map, List.length_range'], by
        intro x hx
        obtain ⟨p, -, rfl⟩ := List.mem_map.mp hx
        rfl⟩).symm
    · show ([] : List (List E)).flatten = _
      exact (List.filterMap_eq_nil_iff.mpr fun p _ => rfl).symm
  have hall : FeaturesReady b.encoderCache (st.numComputedTokens + shift) n ([] ++ st.mmFeatures) :=
    hrows ▸ hfs
  obtain ⟨r, hr, hdone⟩ := hseen.features hpos hall
  rw [List.nil_append] at hdone
  have hwanted : wantedRequest b shift id = (List.range' (st.numComputedTokens + shift) n).map
      (wantedRow b.encoderCache st.mmFeatures) := wantedRequest_of_get hn hst
  refine ⟨(⟨g.mmEmbeds ++ r.mmEmbeds, r.isMmEmbed⟩, start + n), ?_, ?_⟩
  · unfold gatherRequest lookUp
    dsimp only
    rw [hn, hst]
    dsimp only
    rw [Raises.ok_bind, Raises.ok_bind, ← hlen, hr]
    rfl
  · have hflat : (done ++ [id]).flatMap (wantedRequest b shift) =
        done.flatMap (wantedRequest b shift) ++ wantedRequest b shift id := by
      rw [List.flatMap_append, List.flatMap_singleton]
    constructor
    · show r.isMmEmbed = _
      rw [hflat, hdone.mask, List.map_append, hwanted, List.map_map, ← hfront]
      rfl
    · show (g.mmEmbeds ++ r.mmEmbeds).flatten = _
      have hembeds : g.mmEmbeds.flatten = _ := h.embeds
      rw [hflat, List.flatten_append, hembeds, hdone.embeds, List.filterMap_append, hwanted,
        List.filterMap_map]
      rfl
    · show start + n = _
      rw [hflat, List.length_append, ← hstart, hwanted, List.length_map, List.length_range']

theorem GatheredRows.requests : ∀ {ids done : List ReqId} {s : Gathered E × Nat},
    GatheredRows b shift done (ids.map b.rows).sum s →
    (∀ id ∈ ids, ∃ n, b.numScheduledTokens.get? id = some n ∧ 1 ≤ n) →
    (∀ id ∈ ids, b.Known shift id) →
    ∃ s', ids.foldlM (gatherRequest b shift) s = .ok s' ∧ GatheredRows b shift (done ++ ids) 0 s'
  | [], done, s, h, _, _ => by
    rw [List.append_nil]
    exact ⟨s, rfl, h⟩
  | id :: ids, done, s, h, hn, hst => by
    rw [List.map_cons, List.sum_cons] at h
    obtain ⟨s₁, hs₁, h₁⟩ := h.request (hn id List.mem_cons_self) (hst id List.mem_cons_self)
    obtain ⟨s', hs', h'⟩ := h₁.requests (fun i hi => hn i (List.mem_cons_of_mem id hi))
      (fun i hi => hst i (List.mem_cons_of_mem id hi))
    rw [List.append_assoc] at h'
    refine ⟨s', ?_, h'⟩
    rw [List.foldlM_cons, hs₁]
    exact hs'

/-- The embeddings of a step and their mask are those of the rows wanted. -/
theorem gather_eq (hb : b.Ready shift) : ∃ g, gatherMmEmbeddings b shift = .ok g ∧
    g.isMmEmbed = (wantedRows b shift).map Option.isSome ∧
    g.mmEmbeds.flatten = (wantedRows b shift).filterMap id := by
  have hstart : GatheredRows b shift [] (b.reqIds.map b.rows).sum
      (⟨[], List.replicate b.totalNumScheduledTokens false⟩, 0) := by
    constructor
    · show List.replicate b.totalNumScheduledTokens false = _
      rw [hb.total]
      rfl
    · rfl
    · rfl
  obtain ⟨⟨g, start⟩, hg, hdone⟩ := hstart.requests hb.scheduled hb.known
  rw [List.nil_append] at hdone
  refine ⟨g, ?_, ?_, hdone.embeds⟩
  · unfold gatherMmEmbeddings
    dsimp only
    rw [hg]
    rfl
  · have hmask : g.isMmEmbed = _ := hdone.mask
    rw [hmask, List.replicate_zero, List.append_nil]
    rfl

end Requests

end VllmEngine.Multimodal

/-!
## A prefill serves each embedding once

The steps of a prefill schedule ranges of positions one behind the other. Each step marks the
rows of the embed positions in its range, so over the prefill each embed position is served
once, from the first shifted position on.

> `embeddings_land`: in each step the embeddings stand in the rows of their positions, and no
> other row is marked; over the steps of a prefill each embed position is served once.
-/

namespace VllmEngine.Multimodal

open Python Scatter

variable {E : Type}

/-- The position receives an embedding of one of the features. -/
def embedPosition (fs : List MultiModalFeatureSpec) (p : Nat) : Bool :=
  fs.any fun f => decide (EmbedPosition f p)

theorem isSome_wantedRow {encoderCache : Dict String (List E)} {p : Nat} :
    ∀ {fs : List MultiModalFeatureSpec},
      (∀ f ∈ fs, (embedRow encoderCache f p).isSome = decide (EmbedPosition f p)) →
      (wantedRow encoderCache fs p).isSome = embedPosition fs p
  | [], _ => rfl
  | f :: fs, h => by
    have ih := isSome_wantedRow fun d hd => h d (List.mem_cons_of_mem f hd)
    have hf := h f List.mem_cons_self
    unfold wantedRow embedPosition at ih ⊢
    rw [List.findSome?_cons, List.any_cons, ← hf, ← ih]
    cases embedRow encoderCache f p <;> rfl

variable {fs : List MultiModalFeatureSpec} {b : GatherBatch E} {encoderCache : Dict String (List E)}
  {c n p : Nat} {f : MultiModalFeatureSpec}

/-- A position of the step that receives an embedding lies in a placeholder that overlaps it. -/
theorem FeaturesReady.encoded_of_position (h : FeaturesReady encoderCache c n fs) (hf : f ∈ fs)
    (hc : c ≤ p) (hn : p < c + n) (hp : EmbedPosition f p) : Encoded encoderCache f :=
  h.encoded f hf (Nat.lt_of_le_of_lt hp.1 hn) (Nat.lt_of_le_of_lt hc ((h.placed f hf).lt_stop hp))

theorem FeaturesReady.isSome_embedRow (h : FeaturesReady encoderCache c n fs) (hc : c ≤ p)
    (hn : p < c + n) : ∀ f ∈ fs, (embedRow encoderCache f p).isSome = decide (EmbedPosition f p) := by
  intro f hf
  by_cases hp : EmbedPosition f p
  · exact (h.encoded_of_position hf hc hn hp).isSome_embedRow p
  · unfold embedRow
    rw [if_neg hp, decide_eq_false hp]
    rfl

/-- An embed position of a feature wants its row: the features are apart. -/
theorem wantedRow_eq (h : FeaturesReady encoderCache c n fs) (hf : f ∈ fs) (hc : c ≤ p)
    (hn : p < c + n) (hp : EmbedPosition f p) :
    wantedRow encoderCache fs p = embedRow encoderCache f p := by
  have hsome := h.isSome_embedRow hc hn f hf
  obtain ⟨front, behind, rfl⟩ := List.append_of_mem hf
  obtain ⟨-, -, hcross⟩ := List.pairwise_append.mp h.sorted
  have hfront : wantedRow encoderCache front p = none :=
    wantedRow_of_ge (fun d hd => h.placed d (List.mem_append_left _ hd))
      (fun d hd => hcross d hd f List.mem_cons_self) hp.1
  rw [decide_eq_true hp] at hsome
  obtain ⟨row, hrow⟩ := Option.isSome_iff_exists.mp hsome
  unfold wantedRow at hfront ⊢
  rw [List.findSome?_append, hfront, Option.none_or, List.findSome?_cons, hrow]

/-! ## The rows of a request in the batch -/

/-- `req_start_idx` of a request. -/
def GatherBatch.startRow (b : GatherBatch E) (id : ReqId) : Nat :=
  ((b.reqIds.takeWhile fun i => decide (i ≠ id)).map b.rows).sum

/-- The shifted positions of a request whose rows the step marks. -/
def served (b : GatherBatch E) (shift : Nat) (id : ReqId) : List Nat :=
  match gatherMmEmbeddings b shift, b.numScheduledTokens.get? id, b.requests.get? id with
  | .ok g, some n, some st =>
    (List.range' (st.numComputedTokens + shift) n).filter fun p =>
      g.isMmEmbed.getD (b.startRow id + (p - (st.numComputedTokens + shift))) false
  | _, _, _ => []

theorem length_wantedRequest {shift : Nat} {id : ReqId}
    (hst : b.Known shift id)
    (hn : ∃ n, b.numScheduledTokens.get? id = some n ∧ 1 ≤ n) :
    (wantedRequest b shift id).length = b.rows id := by
  obtain ⟨n, hn, -⟩ := hn
  obtain ⟨st, hst, -⟩ := hst
  unfold GatherBatch.rows
  rw [wantedRequest_of_get hn hst, List.length_map, List.length_range', hn]
  rfl

theorem length_flatMap_wantedRequest {shift : Nat} :
    ∀ {ids : List ReqId}, (∀ id ∈ ids, (wantedRequest b shift id).length = b.rows id) →
      (ids.flatMap (wantedRequest b shift)).length = (ids.map b.rows).sum
  | [], _ => rfl
  | id :: ids, h => by
    rw [List.flatMap_cons, List.length_append, List.map_cons, List.sum_cons,
      h id List.mem_cons_self,
      length_flatMap_wantedRequest fun i hi => h i (List.mem_cons_of_mem id hi)]

/-- The batch up to a request, and the request. -/
theorem reqIds_split {id : ReqId} (hid : id ∈ b.reqIds) :
    ∃ behind, b.reqIds = (b.reqIds.takeWhile fun i => decide (i ≠ id)) ++ id :: behind := by
  have hsplit := List.takeWhile_append_dropWhile (p := fun i => decide (i ≠ id)) (l := b.reqIds)
  cases hdrop : b.reqIds.dropWhile fun i => decide (i ≠ id) with
  | nil =>
    -- then no request is this one
    rw [hdrop, List.append_nil] at hsplit
    rw [← hsplit] at hid
    have := List.mem_takeWhile_imp hid
    exact absurd rfl (of_decide_eq_true this)
  | cons i behind =>
    have hne : (b.reqIds.dropWhile fun i => decide (i ≠ id)) ≠ [] := by
      rw [hdrop]
      exact List.cons_ne_nil _ _
    have hhead := List.head_dropWhile_not (fun i => decide (i ≠ id)) hne
    simp only [hdrop, List.head_cons, decide_eq_false_iff_not, not_not] at hhead
    subst hhead
    rw [hdrop] at hsplit
    exact ⟨behind, hsplit.symm⟩

/-- A step serves the embed positions in the range of a request. -/
theorem served_eq {shift : Nat} (hb : b.Ready shift) {id : ReqId} (hid : id ∈ b.reqIds) {n : Nat}
    {st : MmRequestState} (hn : b.numScheduledTokens.get? id = some n)
    (hst : b.requests.get? id = some st) :
    served b shift id =
      (List.range' (st.numComputedTokens + shift) n).filter (embedPosition st.mmFeatures) := by
  obtain ⟨g, hg, hmask, -⟩ := @gather_eq _ b shift hb
  obtain ⟨behind, hsplit⟩ := reqIds_split hid
  obtain ⟨front, hfront⟩ : ∃ front, front = b.reqIds.takeWhile fun i => decide (i ≠ id) :=
    ⟨_, rfl⟩
  rw [← hfront] at hsplit
  have hstart : b.startRow id = (front.flatMap (wantedRequest b shift)).length := by
    unfold GatherBatch.startRow
    rw [← hfront]
    symm
    apply length_flatMap_wantedRequest
    intro i hi
    have hmem : i ∈ b.reqIds := by
      rw [hsplit]
      exact List.mem_append_left _ hi
    exact length_wantedRequest (hb.known i hmem) (hb.scheduled i hmem)
  have hready : FeaturesReady b.encoderCache (st.numComputedTokens + shift) n st.mmFeatures := by
    obtain ⟨st', hst', hfs⟩ := hb.known id hid
    rw [hst] at hst'
    obtain rfl := Option.some.inj hst'
    unfold GatherBatch.rows at hfs
    rw [hn] at hfs
    exact hfs
  unfold served
  rw [hg, hn, hst]
  dsimp only
  apply List.filter_congr
  intro p hp
  rw [List.mem_range'_1] at hp
  -- the row of the position in the mask of the batch
  have hrow : g.isMmEmbed[b.startRow id + (p - (st.numComputedTokens + shift))]? =
      some (embedPosition st.mmFeatures p) := by
    rw [hmask, hstart]
    unfold wantedRows
    rw [hsplit, List.flatMap_append, List.flatMap_cons, wantedRequest_of_get hn hst,
      List.map_append, List.map_append, List.map_map]
    rw [List.getElem?_append_right (by rw [List.length_map]; exact Nat.le_add_right _ _),
      List.length_map, Nat.add_sub_cancel_left,
      List.getElem?_append_left (by rw [List.length_map, List.length_range']; omega),
      List.getElem?_map, List.getElem?_range' (by omega), Nat.one_mul,
      show st.numComputedTokens + shift + (p - (st.numComputedTokens + shift)) = p by omega]
    exact congrArg some (isSome_wantedRow (hready.isSome_embedRow hp.1 hp.2))
  rw [List.getD_eq_getElem?_getD, hrow]
  rfl

/-! ## A prefill -/

/-- Steps that schedule the tokens of a request one behind the other, from `c` on. -/
def Prefill (shift : Nat) (id : ReqId) (fs : List MultiModalFeatureSpec) :
    Nat → List (GatherBatch E) → Prop
  | _, [] => True
  | c, b :: bs => b.Ready shift ∧ id ∈ b.reqIds ∧ b.requests.get? id = some ⟨c, fs⟩ ∧
      Prefill shift id fs (c + b.rows id) bs

/-- How many tokens they schedule. -/
def prefillTokens (id : ReqId) (bs : List (GatherBatch E)) : Nat := (bs.map (·.rows id)).sum

theorem served_prefill {id : ReqId} (shift : Nat) :
    ∀ {bs : List (GatherBatch E)} {c : Nat}, Prefill shift id fs c bs →
      bs.flatMap (fun b => served b shift id) =
        (List.range' (c + shift) (prefillTokens id bs)).filter (embedPosition fs)
  | [], _, _ => rfl
  | b :: bs, c, h => by
    obtain ⟨hb, hid, hst, hrest⟩ := h
    obtain ⟨n, hn, -⟩ := hb.scheduled id hid
    have hrows : b.rows id = n := by
      unfold GatherBatch.rows
      rw [hn]
      rfl
    have htokens : prefillTokens id (b :: bs) = n + prefillTokens id bs := by
      unfold prefillTokens
      rw [List.map_cons, List.sum_cons, hrows]
    rw [hrows] at hrest
    rw [List.flatMap_cons, served_eq hb hid hn hst, served_prefill shift hrest, htokens,
      ← List.filter_append]
    congr 1
    have happend := @List.range'_append_1 (c + shift) n (prefillTokens id bs)
    rw [show c + n + shift = c + shift + n by omega]
    exact happend

theorem count_filter_range' (q : Nat → Bool) (a n p : Nat) :
    ((List.range' a n).filter q).count p =
      if a ≤ p ∧ p < a + n ∧ q p = true then 1 else 0 := by
  by_cases h : a ≤ p ∧ p < a + n ∧ q p = true
  · rw [if_pos h]
    have hnd : ((List.range' a n).filter q).Nodup := (List.nodup_range' 1 Nat.one_pos).filter q
    apply List.count_eq_one_of_mem hnd
    exact List.mem_filter.mpr ⟨List.mem_range'_1.mpr ⟨h.1, h.2.1⟩, h.2.2⟩
  · rw [if_neg h]
    apply List.count_eq_zero_of_not_mem
    intro hmem
    obtain ⟨hrange, hq⟩ := List.mem_filter.mp hmem
    rw [List.mem_range'_1] at hrange
    exact h ⟨hrange.1, hrange.2, hq⟩

/-- What the embeddings of the steps shall be. -/
structure EmbeddingsLand (E : Type) (shift : Nat) : Prop where
  /-- The function returns, its embeddings over the rows that it marks are the rows wanted. -/
  step : ∀ b : GatherBatch E, b.Ready shift → ∃ g, gatherMmEmbeddings b shift = .ok g ∧
    scatter g.isMmEmbed g.mmEmbeds.flatten = wantedRows b shift ∧
    g.mmEmbeds.flatten.length = g.isMmEmbed.count true
  /-- The row wanted at an embed position of a feature is the one of its encoder output. -/
  row : ∀ (encoderCache : Dict String (List E)) (c n : Nat) (fs : List MultiModalFeatureSpec),
    FeaturesReady encoderCache c n fs → ∀ f ∈ fs, ∀ p, c ≤ p → p < c + n → EmbedPosition f p →
      ∃ output row, encoderCache.get? f.identifier = some output ∧
        output[before (embedMask f) (p - f.offset)]? = some row ∧
        wantedRow encoderCache fs p = some row
  /-- None is wanted elsewhere. -/
  noRow : ∀ (encoderCache : Dict String (List E)) (fs : List MultiModalFeatureSpec) (p : Nat), (∀ f ∈ fs, ¬ EmbedPosition f p) →
      wantedRow encoderCache fs p = none
  /-- A prefill serves each embed position from the first shifted one on. -/
  once : ∀ (id : ReqId) (fs : List MultiModalFeatureSpec) (bs : List (GatherBatch E)),
    Prefill shift id fs 0 bs → ∀ p, (bs.flatMap fun b => served b shift id).count p =
      if shift ≤ p ∧ p < shift + prefillTokens id bs ∧ ∃ f ∈ fs, EmbedPosition f p then 1 else 0

theorem embedPosition_iff {p : Nat} : embedPosition fs p = true ↔ ∃ f ∈ fs, EmbedPosition f p := by
  unfold embedPosition
  rw [List.any_eq_true]
  constructor
  · rintro ⟨f, hf, hp⟩
    exact ⟨f, hf, of_decide_eq_true hp⟩
  · rintro ⟨f, hf, hp⟩
    exact ⟨f, hf, decide_eq_true hp⟩

theorem embeddings_land (E : Type) (shift : Nat) : EmbeddingsLand E shift where
  step b hb := by
    obtain ⟨g, hg, hmask, hembeds⟩ := @gather_eq _ b shift hb
    refine ⟨g, hg, ?_, ?_⟩
    · rw [hmask, hembeds]
      exact scatter_rows _
    · rw [hmask, hembeds]
      exact (count_rows _).symm
  row encoderCache c n fs h f hf p hc hn hp := by
    have hwanted := wantedRow_eq h hf hc hn hp
    have hencoded := h.encoded_of_position hf hc hn hp
    have hsome := hencoded.isSome_embedRow p
    obtain ⟨output, hget, -⟩ := hencoded.output
    rw [decide_eq_true hp] at hsome
    obtain ⟨row, hrow⟩ := Option.isSome_iff_exists.mp hsome
    refine ⟨output, row, hget, ?_, hwanted.trans hrow⟩
    unfold embedRow at hrow
    rw [if_pos hp, hget] at hrow
    exact hrow
  noRow encoderCache fs p hp := List.findSome?_eq_none_iff.mpr fun f hf => if_neg (hp f hf)
  once id fs bs h p := by
    rw [served_prefill shift h, count_filter_range', Nat.zero_add]
    simp only [embedPosition_iff]

/-! ## A prefill that cuts an image -/

/-- An image at the positions 3 to 5, two of them embedded, and a clip at 7 and 8. -/
def imageAndClip : List MultiModalFeatureSpec :=
  [⟨"image", ⟨3, 3, some [true, false, true]⟩⟩, ⟨"clip", ⟨7, 2, none⟩⟩]

/-- A sound at the positions 0 and 1. -/
def sound : List MultiModalFeatureSpec := [⟨"sound", ⟨0, 2, none⟩⟩]

/-- A step of two requests. -/
def twoRequestStep (rComputed rScheduled sComputed : Nat) (encoderCache : Dict String (List Nat)) :
    GatherBatch Nat where
  reqIds := ["r", "s"]
  totalNumScheduledTokens := rScheduled + 1
  numScheduledTokens := Dict.ofItems [("r", rScheduled), ("s", 1)]
  requests := Dict.ofItems [("r", ⟨rComputed, imageAndClip⟩), ("s", ⟨sComputed, sound⟩)]
  encoderCache := encoderCache

/-- Three steps; an output is in the cache only while its placeholder overlaps the step. -/
def imageSteps : List (GatherBatch Nat) :=
  [twoRequestStep 0 4 0 (Dict.ofItems [("image", [10, 11]), ("sound", [30, 31])]),
    twoRequestStep 4 3 1 (Dict.ofItems [("image", [10, 11]), ("clip", [20, 21])]),
    twoRequestStep 7 2 2 (Dict.ofItems [("clip", [20, 21])])]

instance (encoderCache : Dict String (List E)) (c n : Nat) (fs : List MultiModalFeatureSpec) :
    Decidable (FeaturesReady encoderCache c n fs) :=
  decidable_of_iff (fs.Pairwise (fun f f' => f.stop ≤ f'.offset) ∧
      (∀ f ∈ fs, 1 ≤ f.mmPosition.length ∧ (embedMask f).length = f.mmPosition.length) ∧
      ∀ f ∈ fs, f.offset < c + n → c < f.stop →
        (encoderCache.get? f.identifier).map List.length = some f.mmPosition.getNumEmbeds)
    ⟨fun h => ⟨h.1, fun f hf => ⟨(h.2.1 f hf).1, (h.2.1 f hf).2⟩, h.2.2⟩,
      fun h => ⟨h.sorted, fun f hf => ⟨(h.placed f hf).1, (h.placed f hf).2⟩, h.encoded⟩⟩

theorem twoRequestStep_ready {rComputed rScheduled sComputed : Nat}
    {encoderCache : Dict String (List Nat)} (hpos : 1 ≤ rScheduled)
    (hr : FeaturesReady encoderCache (rComputed + 1) rScheduled imageAndClip)
    (hs : FeaturesReady encoderCache (sComputed + 1) 1 sound) :
    (twoRequestStep rComputed rScheduled sComputed encoderCache).Ready 1 where
  scheduled id hid := by
    rcases List.mem_cons.mp hid with rfl | hid
    · exact ⟨rScheduled, rfl, hpos⟩
    · rw [List.mem_singleton.mp hid]
      exact ⟨1, rfl, Nat.le_refl 1⟩
  known id hid := by
    rcases List.mem_cons.mp hid with rfl | hid
    · exact ⟨_, rfl, hr⟩
    · rw [List.mem_singleton.mp hid]
      exact ⟨_, rfl, hs⟩
  total := rfl

theorem imageSteps_land :
    imageSteps.map (wantedRows · 1) = [[none, none, some 10, none, some 31],
      [some 11, none, some 20, none], [some 21, none, none]] ∧
    (∀ b ∈ imageSteps, ∃ g, gatherMmEmbeddings b 1 = .ok g ∧
      scatter g.isMmEmbed g.mmEmbeds.flatten = wantedRows b 1 ∧
      g.mmEmbeds.flatten.length = g.isMmEmbed.count true) ∧
    ∀ p, (imageSteps.flatMap fun b => served b 1 "r").count p =
      if 1 ≤ p ∧ p < 1 + prefillTokens "r" imageSteps ∧ ∃ f ∈ imageAndClip, EmbedPosition f p then 1
      else 0 := by
  have hprefill : Prefill 1 "r" imageAndClip 0 imageSteps :=
    ⟨twoRequestStep_ready (by decide) (by decide) (by decide), by decide, rfl,
      twoRequestStep_ready (by decide) (by decide) (by decide), by decide, rfl,
      twoRequestStep_ready (by decide) (by decide) (by decide), by decide, rfl, trivial⟩
  refine ⟨by decide, ?_, (embeddings_land Nat 1).once "r" imageAndClip imageSteps hprefill⟩
  obtain ⟨hfirst, -, -, hsecond, -, -, hthird, -⟩ := hprefill
  intro b hb
  apply (embeddings_land Nat 1).step
  simp only [imageSteps, List.mem_cons, List.not_mem_nil, or_false] at hb
  rcases hb with rfl | rfl | rfl
  · exact hfirst
  · exact hsecond
  · exact hthird

end VllmEngine.Multimodal
