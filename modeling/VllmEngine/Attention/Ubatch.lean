import VllmEngine.Attention.Metadata

/-!
# Micro-batches

`maybe_create_ubatch_slices`, `slice_query_start_locs` and `split_attn_metadata`
(`vllm/v1/worker/ubatch_utils.py`): a batch cut at some of its tokens, and the attention metadata of
the parts, whose first and last rows may be parts of requests.

Mirroring notes:
- A slice has bounds that are not negative.
- A split point that is a list is multiplied like one: no slice has a list for a bound, so this ends
  in a `TypeError` as soon as there is a split.
- Metadata keeps a copy on the device and one on the CPU; each is changed as in the source.

> `splitAttnMetadata_spec`: the parts have the tokens of the batch, each in its request and at its
> position,
> `ubatches_consistent_iff`: the computed tokens are right where no part begins inside a request.
-/

namespace VllmEngine.Attention

structure Slice where
  start : Nat
  stop : Nat
deriving DecidableEq, Repr

structure UBatchSlice where
  requestSlice : Slice
  tokenSlice : Slice
deriving DecidableEq, Repr

def UBatchSlice.isEmpty (u : UBatchSlice) : Bool :=
  u.requestSlice.start == u.requestSlice.stop || u.tokenSlice.start == u.tokenSlice.stop

def UBatchSlice.numTokens (u : UBatchSlice) : Int := (u.tokenSlice.stop : Int) - u.tokenSlice.start

def Slice.text (s : Slice) : String := s!"slice({s.start}, {s.stop}, None)"

/-- `str(ubatch_slice)`. -/
def UBatchSlice.text (u : UBatchSlice) : String :=
  s!"UBatchSlice(request_slice={u.requestSlice.text}, token_slice={u.tokenSlice.text})"

/-- `split_point`. -/
inductive SplitPoint
  | none
  | single (token : Nat)
  | points (tokens : List Nat)
deriving DecidableEq, Repr

inductive UbatchError
  | python (e : Python.Error)
  | type
deriving DecidableEq, Repr

/-- `token_split_points`. -/
def tokenSplitPoints (numTokensPadded numUbatches : Nat) : SplitPoint →
    Except UbatchError (List Nat)
  | .none =>
    if numUbatches = 0 then .error (.python (.zeroDivision "integer division or modulo by zero"))
    else .ok ((List.range' 1 (numUbatches - 1)).map fun i => numTokensPadded / numUbatches * i)
  | .single token => .ok ((List.range' 1 (numUbatches - 1)).map fun i => token * i)
  | .points _ => if numUbatches - 1 = 0 then .ok [] else .error .type

/-- The loop over the ends of the slices. -/
def ubatchSlicesFrom (cuNumTokens : List Nat) : Nat → List Nat → List UBatchSlice
  | _, [] => []
  | startToken, endToken :: points =>
    { requestSlice :=
        ⟨Numpy.searchsortedRight cuNumTokens startToken - 1,
          Numpy.searchsorted cuNumTokens endToken⟩
      tokenSlice := ⟨startToken, endToken⟩ } :: ubatchSlicesFrom cuNumTokens endToken points

/-- `_pad_out_ubatch_slices`. -/
def padOutUbatchSlices (ubatchSlices : List UBatchSlice) (numTotalTokens numReqsPadded : Nat) :
    List UBatchSlice :=
  match ubatchSlices.getLast? with
  | none => []
  | some lastSlice => ubatchSlices.dropLast ++
      [⟨⟨lastSlice.requestSlice.start, numReqsPadded⟩, ⟨lastSlice.tokenSlice.start,
        numTotalTokens⟩⟩]

def maybeCreateUbatchSlices (shouldUbatch : Bool) (numScheduledTokens : List Nat)
    (numTokensPadded numReqsPadded numUbatches : Nat) (splitPoint : SplitPoint) :
    Except UbatchError (Option (List UBatchSlice × List UBatchSlice)) :=
  if !shouldUbatch then .ok none
  else do
    let points ← tokenSplitPoints numTokensPadded numUbatches splitPoint
    let cuNumTokens := 0 :: Numpy.cumsum numScheduledTokens
    let ubatchSlices := ubatchSlicesFrom cuNumTokens 0 (points ++ [cuNumTokens.getLastD 0])
    let ubatchSlicesPadded := padOutUbatchSlices ubatchSlices numTokensPadded numReqsPadded
    if (ubatchSlicesPadded.map (·.numTokens)).sum = numTokensPadded then
      .ok (some (ubatchSlices, ubatchSlicesPadded))
    else .error (.python (.assertion ""))

/-! ## Metadata -/

/-- `t[a:b]`. -/
def Slice.of {α : Type} (s : Slice) (t : List α) : List α := (t.take s.stop).drop s.start

/-- `t[1:] -= n`. -/
def subTail (t : List Int) (n : Int) : List Int := t.take 1 ++ (t.drop 1).map (· - n)

/-- `t[-1] -= n`. -/
def subLast (t : List Int) (n : Int) : List Int := t.modify (t.length - 1) (· - n)

def sliceQueryStartLocs (queryStartLoc : List Int) (requestSlice : Slice) : Except Python.Error
    (List Int) := do
  let first ← Python.getItem queryStartLoc requestSlice.start
  return (Slice.of ⟨requestSlice.start, requestSlice.stop + 1⟩ queryStartLoc).map (· - first)

def makeMetadataWithSlice (u : UBatchSlice) (m : CommonAttentionMetadata) :
    Except Python.Error CommonAttentionMetadata := do
  Python.require (!u.isEmpty) s!"Ubatch slice {u.text} is empty"
  let startLocs := m.queryStartLocCpu
  let firstReq := u.requestSlice.start
  let firstTok : Int := u.tokenSlice.start
  let lastReq : Int := (u.requestSlice.stop : Int) - 1
  let lastTok : Int := (u.tokenSlice.stop : Int) - 1
  let firstLoc ← Python.getItem startLocs firstReq
  Python.require (firstLoc ≤ firstTok) "Token slice start outside of first request"
  let nextLoc ← Python.getItem startLocs (firstReq + 1)
  Python.require (firstTok < nextLoc) "Token slice start outside of first request"
  let splitsFirstRequest := firstLoc < firstTok
  let lastLoc ← Python.getItem startLocs (lastReq + 1)
  let splitsLastRequest := lastTok < lastLoc - 1
  let queryStartLocCpu ← sliceQueryStartLocs startLocs u.requestSlice
  let queryStartLoc ← sliceQueryStartLocs m.queryStartLoc u.requestSlice
  Python.require (2 ≤ queryStartLoc.length)
    s!"query_start_loc must have at least 2 elements, got {queryStartLoc.length}"
  -- The first request began in an earlier slice.
  let tokensSkipped := firstTok - firstLoc
  let queryStartLoc := if splitsFirstRequest then subTail queryStartLoc tokensSkipped else
    queryStartLoc
  let queryStartLocCpu := if splitsFirstRequest then subTail queryStartLocCpu tokensSkipped else
    queryStartLocCpu
  let seqLens := u.requestSlice.of m.seqLens
  let seqLensCpu := u.requestSlice.of m.seqLensCpu
  -- The last request goes on in the next slice.
  let tokensSkipped := lastLoc - u.tokenSlice.stop
  let queryStartLoc := if splitsLastRequest then subLast queryStartLoc tokensSkipped else
    queryStartLoc
  let queryStartLocCpu := if splitsLastRequest then subLast queryStartLocCpu tokensSkipped else
    queryStartLocCpu
  let seqLens := if splitsLastRequest then subLast seqLens tokensSkipped else seqLens
  let seqLensCpu := if splitsLastRequest then subLast seqLensCpu tokensSkipped else seqLensCpu
  let maxSeqLen ← tensorMax seqLensCpu
  let maxQueryLen ← tensorMax ((queryStartLocCpu.drop 1).zipWith
    (fun a b => |a - b|) queryStartLocCpu.dropLast)
  return {
    queryStartLoc
    queryStartLocCpu
    seqLens
    numReqs := u.requestSlice.stop - u.requestSlice.start
    numActualTokens := u.numTokens
    maxQueryLen := if maxQueryLen = 0 then m.maxQueryLen else maxQueryLen
    maxSeqLen
    blockTableTensor := u.requestSlice.of m.blockTableTensor
    slotMapping := u.tokenSlice.of m.slotMapping
    causal := true
    seqLensCpu
    numComputedTokensCpu := u.requestSlice.of m.numComputedTokensCpu }

/-- `split_attn_metadata`. -/
def splitAttnMetadata (ubatchSlices : List UBatchSlice) (m : CommonAttentionMetadata) :
    Except Python.Error (List CommonAttentionMetadata) :=
  ubatchSlices.mapM fun u => makeMetadataWithSlice u m

/-! ## Tensors as functions of the index -/

open Intervals

theorem Slice.of_eq_map {α : Type} {t : List α} {a n : Nat} {f : Nat → α}
    (h : ∀ i < n, t[a + i]? = some (f i)) : (Slice.mk a (a + n)).of t = (List.range n).map f := by
  apply List.ext_getElem?
  intro i
  show ((t.take (a + n)).drop a)[i]? = _
  rw [List.getElem?_drop, List.getElem?_map]
  by_cases hi : i < n
  · rw [List.getElem?_take, if_pos (by omega), h i hi, List.getElem?_range hi]
    rfl
  · rw [List.getElem?_take, if_neg (by omega),
    List.getElem?_eq_none (by rw [List.length_range]; omega)]
    rfl

theorem subTail_map (f : Nat → Int) (n : Nat) (k : Int) :
    subTail ((List.range n).map f) k = (List.range n).map fun i => if i
      = 0 then f i else f i - k := by
  cases n with
  | zero => rfl
  | succ n =>
    unfold subTail
    rw [List.range_succ_eq_map, List.map_cons, List.map_cons, List.take_succ_cons, List.take_zero,
      List.drop_succ_cons, List.drop_zero, List.map_map, List.map_map, List.map_map,
        List.singleton_append, if_pos rfl]
    congr 1

theorem subLast_map (f : Nat → Int) (n : Nat) (k : Int) :
    subLast ((List.range (n + 1)).map f) k = (List.range
      (n + 1)).map fun i => if i = n then f i - k else f i := by
  unfold subLast
  rw [List.length_map, List.length_range, Nat.add_sub_cancel]
  apply List.ext_getElem?
  intro i
  rw [List.getElem?_modify, List.getElem?_map, List.getElem?_map]
  by_cases hi : i < n + 1
  · rw [List.getElem?_range hi]
    by_cases hlast : i = n
    · subst hlast
      simp
    · have hne : n ≠ i := fun h => hlast h.symm
      simp [hlast, hne]
  · rw [List.getElem?_eq_none (by rw [List.length_range]; omega)]
    rfl

theorem getD_map_range (f : Nat → Int) {n i : Nat} (hi : i < n) :
    ((List.range n).map f).getD i 0 = f i := by
  rw [List.getD_eq_getElem?_getD, List.getElem?_map, List.getElem?_range hi]
  rfl

/-! ## One slice -/

variable {rs : List AttnRequest} {pad : Nat} {m : CommonAttentionMetadata}

theorem startOf_le_totalTokens (rs : List AttnRequest) (i : Nat) : startOf rs i ≤ totalTokens rs := by
  have hsplit := congrArg List.sum (List.take_append_drop i (rs.map (·.queryLen)))
  rw [List.sum_append] at hsplit
  unfold startOf totalTokens
  omega

theorem startOf_of_length_le {i : Nat} (h : rs.length ≤ i) : startOf rs i = totalTokens rs := by
  unfold startOf totalTokens
  rw [List.take_of_length_le (by rw [List.length_map]; exact h)]

/-- The rows of a slice are those that have its tokens; there may be rows without tokens at the end. -/
structure Covers (rs : List AttnRequest) (pad : Nat) (u : UBatchSlice) : Prop where
  nonempty : u.tokenSlice.start < u.tokenSlice.stop
  rows : u.requestSlice.start < u.requestSlice.stop
  stop_le : u.requestSlice.stop ≤ rs.length + pad
  start_le : startOf rs u.requestSlice.start ≤ u.tokenSlice.start
  lt_next : u.tokenSlice.start < startOf rs (u.requestSlice.start + 1)
  last_le : startOf rs (u.requestSlice.stop - 1) ≤ u.tokenSlice.stop
  le_stop : min u.tokenSlice.stop (totalTokens rs) ≤ startOf rs u.requestSlice.stop

/-- The bound of a row of a slice: that of the request, or of the slice if it comes first. -/
def UBatchSlice.bound (rs : List AttnRequest) (u : UBatchSlice) (i : Nat) : Nat :=
  clamp u.tokenSlice.start (min u.tokenSlice.stop (totalTokens rs)) (startOf rs
    (u.requestSlice.start + i))

/-- What the metadata of a slice is. -/
structure SliceOf (m : CommonAttentionMetadata) (rs : List AttnRequest) (u : UBatchSlice)
    (m' : CommonAttentionMetadata) : Prop where
  numReqs : m'.numReqs = u.requestSlice.stop - u.requestSlice.start
  queryStartLoc : m'.queryStartLoc = (List.range (m'.numReqs + 1)).map fun i =>
    (u.bound rs i : Int) - u.tokenSlice.start
  queryStartLocCpu : m'.queryStartLocCpu = m'.queryStartLoc
  seqLens : m'.seqLens = (List.range m'.numReqs).map fun i =>
    m.seqLens.getD (u.requestSlice.start + i) 0
      - ((startOf rs (u.requestSlice.start + i + 1) : Int) - u.bound rs (i + 1))
  seqLensCpu : m'.seqLensCpu = m'.seqLens
  blocks : m'.blockTableTensor = u.requestSlice.of m.blockTableTensor
  numComputed : m'.numComputedTokensCpu = u.requestSlice.of m.numComputedTokensCpu

variable {u : UBatchSlice} {numTokensPadded : Nat}

/-- The bounds before the first row's end are inside the slice, so only the first and the last can
differ from those of the requests. -/
theorem Covers.bound_zero (h : Covers rs pad u) : u.bound rs 0 = u.tokenSlice.start := by
  have hle := h.start_le
  unfold UBatchSlice.bound clamp
  rw [Nat.add_zero]
  omega

theorem Covers.bound_inner (h : Covers rs pad u) {i : Nat} (hpos : 0 < i)
    (hlt : u.requestSlice.start + i < u.requestSlice.stop) :
    u.bound rs i = startOf rs (u.requestSlice.start + i) := by
  have hnext := h.lt_next
  have hfirst : startOf rs (u.requestSlice.start + 1) ≤ startOf rs (u.requestSlice.start + i) :=
    startOf_mono (by omega)
  have hlast : startOf rs (u.requestSlice.start + i) ≤ startOf rs (u.requestSlice.stop - 1) :=
    startOf_mono (by omega)
  have hle := h.last_le
  have htotal := startOf_le_totalTokens rs (u.requestSlice.start + i)
  unfold UBatchSlice.bound clamp
  omega

theorem Covers.bound_last (h : Covers rs pad u) {i : Nat}
    (hi : u.requestSlice.start + i = u.requestSlice.stop) :
    u.bound rs i = min u.tokenSlice.stop (startOf rs u.requestSlice.stop) := by
  have hlt := h.lt_next
  have hrows := h.rows
  have hne := h.nonempty
  have hmono : startOf rs (u.requestSlice.start + 1) ≤ startOf rs u.requestSlice.stop :=
    startOf_mono hrows
  have htotal := startOf_le_totalTokens rs u.requestSlice.stop
  have hle := h.le_stop
  unfold UBatchSlice.bound clamp
  rw [hi]
  omega

/-- The bounds of a slice before they are moved to its first token and its end. -/
theorem sliceQueryStartLocs_eq {t : List Int} (ht : ∀ i ≤ rs.length + pad,
    t[i]? = some (startOf rs i : Int))
    {a n : Nat} (hn : a + n ≤ rs.length + pad) :
    sliceQueryStartLocs t ⟨a, a + n⟩
      = .ok ((List.range (n + 1)).map fun i => (startOf rs (a + i) : Int) - startOf rs a) := by
  unfold sliceQueryStartLocs
  rw [Python.getItem_natCast (ht a (by omega)), Raises.ok_bind]
  have hslice : (Slice.mk a (a + n + 1)).of t = (List.range (n + 1)).map fun i => (startOf rs
    (a + i) : Int) :=
    Slice.of_eq_map (n := n + 1) fun i hi => ht (a + i) (by omega)
  show Except.ok _ = _
  rw [hslice, List.map_map]
  rfl

/-- The two corrections of a tensor of bounds. -/
theorem Covers.corrected (h : Covers rs pad u) {n : Nat}
    (hstop : u.requestSlice.stop = u.requestSlice.start + n) {t : List Int}
    (ht : t = (List.range (n + 1)).map fun i => (startOf rs (u.requestSlice.start + i) : Int) - startOf rs u.requestSlice.start) :
    let first := if (startOf rs u.requestSlice.start : Int) < u.tokenSlice.start then
      subTail t (u.tokenSlice.start - startOf rs u.requestSlice.start) else t
    (if (u.tokenSlice.stop : Int) - 1 < startOf rs u.requestSlice.stop - 1 then
      subLast first (startOf rs u.requestSlice.stop - u.tokenSlice.stop) else first)
      = (List.range (n + 1)).map fun i => (u.bound rs i : Int) - u.tokenSlice.start := by
  intro first
  have hrows := h.rows
  have hle := h.start_le
  have hfirst : first = (List.range (n + 1)).map fun i =>
      if i = 0 then 0 else (startOf rs (u.requestSlice.start + i) : Int) - u.tokenSlice.start := by
    show (if _ then _ else t) = _
    rw [ht]
    split
    next hsplit =>
      rw [subTail_map]
      refine List.map_congr_left fun i _ => ?_
      by_cases hi : i = 0
      · rw [if_pos hi, if_pos hi, hi, Nat.add_zero, Int.sub_self]
      · rw [if_neg hi, if_neg hi]
        omega
    next hsplit =>
      refine List.map_congr_left fun i _ => ?_
      by_cases hi : i = 0
      · rw [if_pos hi, hi, Nat.add_zero, Int.sub_self]
      · rw [if_neg hi]
        omega
  have hzero := h.bound_zero
  have hlast := h.bound_last (i := n) hstop.symm
  rw [hfirst]
  split
  next hsplit =>
    rw [subLast_map]
    refine List.map_congr_left fun i hi => ?_
    have hi := List.mem_range.mp hi
    by_cases hin : i = n
    · rw [if_pos hin, if_neg (by omega), hin, hlast, ← hstop]
      omega
    · rw [if_neg hin]
      by_cases hi0 : i = 0
      · rw [if_pos hi0, hi0, hzero, Int.sub_self]
      · rw [if_neg hi0, h.bound_inner (by omega) (by omega)]
  next hsplit =>
    refine List.map_congr_left fun i hi => ?_
    have hi := List.mem_range.mp hi
    by_cases hi0 : i = 0
    · rw [if_pos hi0, hi0, hzero, Int.sub_self]
    · rw [if_neg hi0]
      by_cases hin : i = n
      · rw [hin, hlast, ← hstop]
        omega
      · rw [h.bound_inner (by omega) (by omega)]

/-- The correction of the sequence lengths. -/
theorem Covers.correctedSeqLens (h : Covers rs pad u) {n : Nat}
    (hstop : u.requestSlice.stop = u.requestSlice.start + (n + 1)) (f : Nat → Int) :
    (if (u.tokenSlice.stop : Int) - 1 < startOf rs u.requestSlice.stop - 1 then
      subLast ((List.range (n + 1)).map f) (startOf rs u.requestSlice.stop - u.tokenSlice.stop)
      else (List.range (n + 1)).map f)
      = (List.range (n + 1)).map fun i =>
          f i - ((startOf rs (u.requestSlice.start + i + 1) : Int) - u.bound rs (i + 1)) := by
  have hlast := h.bound_last (i := n + 1) hstop.symm
  have hend : ∀ i < n + 1, i ≠ n →
      (startOf rs (u.requestSlice.start + i + 1) : Int) - u.bound rs (i + 1) = 0 := by
    intro i hi hne
    rw [h.bound_inner (Nat.succ_pos i) (by omega), Nat.add_assoc, Int.sub_self]
  split
  next hsplit =>
    rw [subLast_map]
    refine List.map_congr_left fun i hi => ?_
    have hi := List.mem_range.mp hi
    by_cases hin : i = n
    · rw [if_pos hin, hin, hlast, Nat.add_assoc, ← hstop]
      omega
    · rw [if_neg hin, hend i hi hin, Int.sub_zero]
  next hsplit =>
    refine List.map_congr_left fun i hi => ?_
    have hi := List.mem_range.mp hi
    by_cases hin : i = n
    · rw [hin, hlast, Nat.add_assoc, ← hstop]
      omega
    · rw [hend i hi hin, Int.sub_zero]

/-- The metadata of a slice: no assertion fails. -/
theorem makeMetadataWithSlice_spec (h : Describes m rs pad) (hc : Covers rs pad u) :
    ∃ m', makeMetadataWithSlice u m = .ok m' ∧ SliceOf m rs u m' := by
  obtain ⟨n, hstop⟩ : ∃ n, u.requestSlice.stop = u.requestSlice.start + (n + 1) :=
    ⟨u.requestSlice.stop - u.requestSlice.start - 1, by have := hc.rows; omega⟩
  have hrows := hc.stop_le
  have hlt := hc.lt_next
  have hle := hc.start_le
  have hloc : ∀ i ≤ rs.length + pad, m.queryStartLocCpu[i]? = some (startOf rs i : Int) := by
    intro i hi
    rw [h.queryStartLocCpu]
    exact h.getElem?_queryStartLoc hi
  have hlocs := sliceQueryStartLocs_eq hloc (a := u.requestSlice.start) (n := n + 1) (by omega)
  rw [← hstop] at hlocs
  have hnonempty : Python.require (!u.isEmpty) s!"Ubatch slice {u.text} is empty" = .ok () := by
    have hne := hc.nonempty
    have hreq := hc.rows
    rw [Python.require_eq_ok]
    unfold UBatchSlice.isEmpty
    simp only [Bool.not_eq_true', Bool.or_eq_false_iff, beq_eq_false_iff_ne]
    omega
  have hfirst : Python.require (decide ((startOf rs u.requestSlice.start : Int) ≤
    (u.tokenSlice.start : Int)))
      "Token slice start outside of first request" = .ok () := by
    rw [Python.require_eq_ok, decide_eq_true_eq]
    omega
  have hnext : Python.require (decide ((u.tokenSlice.start : Int) < (startOf rs
    (u.requestSlice.start + 1) : Int)))
      "Token slice start outside of first request" = .ok () := by
    rw [Python.require_eq_ok, decide_eq_true_eq]
    omega
  have hgetFirst := Python.getItem_natCast (hloc u.requestSlice.start (by omega))
  have hgetNext : Python.getItem m.queryStartLocCpu ((u.requestSlice.start : Int) + 1)
      = .ok (startOf rs (u.requestSlice.start + 1) : Int) :=
    Python.getItem_natCast (hloc (u.requestSlice.start + 1) (by omega))
  have hgetLast : Python.getItem m.queryStartLocCpu ((u.requestSlice.stop : Int) - 1 + 1)
      = .ok (startOf rs u.requestSlice.stop : Int) := by
    rw [Int.sub_add_cancel]
    exact Python.getItem_natCast (hloc u.requestSlice.stop hrows)
  have hlengths : m.seqLens.length = rs.length + pad := by
    rw [h.seqLens, List.length_map, List.length_append, List.length_map, List.length_replicate]
  have hseqLens : u.requestSlice.of m.seqLens
      = (List.range (n + 1)).map fun i => m.seqLens.getD (u.requestSlice.start + i) 0 := by
    have hslice : u.requestSlice = ⟨u.requestSlice.start, u.requestSlice.start + (n + 1)⟩ := by
      rw [← hstop]
    rw [hslice]
    refine Slice.of_eq_map fun i hi => ?_
    have hin : u.requestSlice.start + i < m.seqLens.length := by omega
    rw [List.getD_eq_getElem _ _ hin, List.getElem?_eq_getElem hin]
  have hcorrected := hc.corrected hstop rfl
  have hlens := hc.correctedSeqLens hstop fun i => m.seqLens.getD (u.requestSlice.start + i) 0
  obtain ⟨maxSeqLen, hmaxSeq⟩ := tensorMax_ok (t := (List.range (n + 1)).map fun i =>
    m.seqLens.getD (u.requestSlice.start + i) 0
      - ((startOf rs (u.requestSlice.start + i + 1) : Int) - u.bound rs (i + 1))) (by simp)
  obtain ⟨t, ht⟩ : ∃ t : List Int, t = (List.range (n + 2)).map fun i =>
    (u.bound rs i : Int) - u.tokenSlice.start :=
    ⟨_, rfl⟩
  obtain ⟨maxQueryLen, hmaxQuery⟩ := tensorMax_ok (t :=
    (t.drop 1).zipWith (fun a b => |a - b|) t.dropLast) (by
    have hlen : ((t.drop 1).zipWith (fun a b => |a - b|) t.dropLast).length = n + 1 := by
      rw [List.length_zipWith, List.length_drop, List.length_dropLast, ht, List.length_map,
        List.length_range]
      omega
    intro hnil
    rw [hnil] at hlen
    cases hlen)
  have hlength : Python.require (decide (2 ≤ ((List.range (n + 1 + 1)).map fun i =>
      (startOf rs (u.requestSlice.start + i) : Int) - startOf rs u.requestSlice.start).length))
      s!"query_start_loc must have at least 2 elements, got {((List.range (n + 1 + 1)).map fun i =>
        (startOf rs (u.requestSlice.start + i) : Int) - startOf rs u.requestSlice.start).length}"
          = .ok () := by
    rw [Python.require_eq_ok, decide_eq_true_eq, List.length_map, List.length_range]
    omega
  unfold makeMetadataWithSlice
  dsimp only at hcorrected ⊢
  rw [hnonempty, Raises.ok_bind, hgetFirst, Raises.ok_bind, hfirst, Raises.ok_bind, hgetNext,
    Raises.ok_bind,
    hnext, Raises.ok_bind, hgetLast, Raises.ok_bind, hlocs, Raises.ok_bind, ← h.queryStartLocCpu,
      hlocs,
    Raises.ok_bind, hlength, Raises.ok_bind, h.seqLensCpu, hseqLens, hcorrected, hlens, ← ht,
      hmaxSeq,
    Raises.ok_bind, hmaxQuery, Raises.ok_bind]
  have hnum : u.requestSlice.stop - u.requestSlice.start = n + 1 := by omega
  refine ⟨_, rfl, rfl, ?_, rfl, ?_, rfl, rfl, rfl⟩
  · rw [hnum]
    exact ht
  · rw [hnum]

/-! ## The tokens of a slice -/

/-- A slice has the tokens between its bounds, each at its position in its request. -/
theorem SliceOf.tokens_eq (h : Describes m rs pad) (hc : Covers rs pad u)
    {m' : CommonAttentionMetadata} (hs : SliceOf m rs u m') :
    m'.tokens = (between u.tokenSlice.start (min u.tokenSlice.stop (totalTokens rs))).map
      (tokenAt rs) := by
  have hrows := hc.stop_le
  have hnum := hs.numReqs
  have hrow : ∀ i < m'.numReqs, m'.rowTokens i = (between (u.bound rs i) (u.bound rs (i + 1))).map
    (tokenAt rs) := by
    intro i hi
    have hlen : m'.queryLen i = (u.bound rs (i + 1) : Int) - u.bound rs i := by
      unfold CommonAttentionMetadata.queryLen
      rw [hs.queryStartLoc, getD_map_range _ (by omega), getD_map_range _ (by omega)]
      omega
    have hmono : u.bound rs i ≤ u.bound rs (i + 1) := clamp_le_clamp _ _ (startOf_mono (by omega))
    by_cases hreq : u.requestSlice.start + i < rs.length
    · have hr := List.getElem?_eq_getElem hreq
      have hsucc := startOf_succ hr
      have hlo : startOf rs (u.requestSlice.start + i) ≤ u.bound rs i := by
        by_cases hi0 : i = 0
        · have hle := hc.start_le
          rw [hi0, hc.bound_zero]
          exact hle
        · exact (hc.bound_inner (by omega) (by omega)).ge
      have hhi : u.bound rs (i + 1) ≤ startOf rs (u.requestSlice.start + i + 1) := by
        by_cases hin : u.requestSlice.start + (i + 1) = u.requestSlice.stop
        · rw [hc.bound_last hin, Nat.add_assoc, hin]
          exact Nat.min_le_right _ _
        · exact (hc.bound_inner (by omega) (by omega)).le
      refine rowTokens_eq hr hlo hmono hhi hlen ?_ ?_
      · have hblocks := h.getD_blockTable hr
        rw [hs.blocks, List.getD_eq_getElem?_getD]
        show (((m.blockTableTensor.take u.requestSlice.stop).drop u.requestSlice.start)[i]?).getD
          [] = _
        rw [List.getElem?_drop, List.getElem?_take, if_pos (by omega),
          ← List.getD_eq_getElem?_getD, hblocks]
      · rw [hlen, hs.seqLens, getD_map_range _ hi, List.getD_eq_getElem?_getD,
        h.getElem?_seqLens hr]
        show (_ : Int) - _ - _ = _
        simp only [Option.getD_some]
        omega
    · have hempty : ∀ j, rs.length ≤ j → startOf rs j = totalTokens rs :=
      fun j hj => startOf_of_length_le hj
      have hsame : u.bound rs (i + 1) = u.bound rs i := by
        unfold UBatchSlice.bound
        rw [hempty _ (by omega), hempty _ (by omega)]
      have hnil : between (u.bound rs i) (u.bound rs i) = [] := by
        unfold between
        rw [Nat.sub_self]
        rfl
      rw [hsame] at hlen ⊢
      rw [rowTokens_eq_nil (hlen.trans (Int.sub_self _)), hnil]
      rfl
  have hcut := flatMap_clamp (fun i => startOf rs (u.requestSlice.start + i)) u.tokenSlice.start
    (min u.tokenSlice.stop (totalTokens rs)) m'.numReqs
    (fun j _ => startOf_mono (Nat.le_succ _)) hc.start_le
    (by
      have hlt := hc.lt_next
      have hle := startOf_le_totalTokens rs (u.requestSlice.start + 1)
      have hne := hc.nonempty
      omega)
    (by
      have hle := hc.le_stop
      have hlt := hc.rows
      have heq : u.requestSlice.start + m'.numReqs = u.requestSlice.stop := by omega
      rw [heq]
      exact hle)
  unfold CommonAttentionMetadata.tokens
  rw [← hcut, List.map_flatMap]
  exact List.flatMap_congr fun i hi => hrow i (List.mem_range.mp hi)

/-- The computed tokens of a slice's rows are right if and only if the slice begins with a request. -/
theorem SliceOf.computed_iff (h : Describes m rs pad) (hc : Covers rs pad u)
    {m' : CommonAttentionMetadata} (hs : SliceOf m rs u m') :
    (∀ i < m'.numReqs, m'.numComputedTokensCpu.getD i 0 = m'.seqLens.getD i 0 - m'.queryLen i)
      ↔ u.tokenSlice.start = startOf rs u.requestSlice.start := by
  have hrows := hc.stop_le
  have hlt := hc.rows
  have hnum := hs.numReqs
  -- What a row has, by its sequence length and its first token.
  have hcomputed : ∀ i < m'.numReqs, m'.numComputedTokensCpu.getD i 0
      = m.numComputedTokensCpu.getD (u.requestSlice.start + i) 0 := by
    intro i hi
    rw [hs.numComputed, List.getD_eq_getElem?_getD, List.getD_eq_getElem?_getD]
    show (((m.numComputedTokensCpu.take u.requestSlice.stop).drop u.requestSlice.start)[i]?).getD 0
      = _
    rw [List.getElem?_drop, List.getElem?_take, if_pos (by omega)]
  have hdiff : ∀ i < m'.numReqs, m'.seqLens.getD i 0 - m'.queryLen i
      = m.seqLens.getD (u.requestSlice.start + i) 0 - startOf rs
        (u.requestSlice.start + i + 1) + u.bound rs i := by
    intro i hi
    unfold CommonAttentionMetadata.queryLen
    rw [hs.queryStartLoc, hs.seqLens, getD_map_range _ hi, getD_map_range _ (by omega),
      getD_map_range _ (by omega)]
    omega
  have hfirst : u.requestSlice.start < rs.length := by
    by_contra hnot
    have hend := @startOf_of_length_le rs u.requestSlice.start (by omega)
    have hend' := @startOf_of_length_le rs (u.requestSlice.start + 1) (by omega)
    have hle := hc.start_le
    have hnext := hc.lt_next
    omega
  have hrow : ∀ i < m'.numReqs, m'.numComputedTokensCpu.getD i 0
    = m'.seqLens.getD i 0 - m'.queryLen i
      ↔ u.bound rs i = startOf rs (u.requestSlice.start + i) := by
    intro i hi
    rw [hcomputed i hi, hdiff i hi]
    by_cases hreq : u.requestSlice.start + i < rs.length
    · have hr := List.getElem?_eq_getElem hreq
      have hsucc := startOf_succ hr
      rw [List.getD_eq_getElem?_getD, List.getD_eq_getElem?_getD, h.getElem?_numComputed hr,
        h.getElem?_seqLens hr]
      simp only [Option.getD_some]
      omega
    · have hpadComputed : m.numComputedTokensCpu.getD (u.requestSlice.start + i) 0 = 0 := by
        rw [h.numComputed, List.getD_eq_getElem?_getD, List.getElem?_map,
          List.getElem?_append_right (by rw [List.length_map]; omega), List.getElem?_replicate,
          if_pos (by rw [List.length_map]; omega)]
        rfl
      have hpadSeqLen : m.seqLens.getD (u.requestSlice.start + i) 0 = 0 := by
        rw [h.seqLens, List.getD_eq_getElem?_getD, List.getElem?_map,
          List.getElem?_append_right (by rw [List.length_map]; omega), List.getElem?_replicate,
          if_pos (by rw [List.length_map]; omega)]
        rfl
      have hend := startOf_of_length_le (Nat.le_of_not_lt hreq)
      have hend' := startOf_of_length_le (Nat.le_succ_of_le (Nat.le_of_not_lt hreq))
      rw [hpadComputed, hpadSeqLen, hend, hend']
      omega
  constructor
  · intro hall
    have hzero := (hrow 0 (by omega)).mp (hall 0 (by omega))
    rwa [hc.bound_zero, Nat.add_zero] at hzero
  · intro hstart i hi
    rw [hrow i hi]
    by_cases hi0 : i = 0
    · rw [hi0, hc.bound_zero, hstart, Nat.add_zero]
    · exact hc.bound_inner (by omega) (by omega)

/-! ## The slices -/

/-- One slice of the loop, inside the batch. -/
theorem covers_slice (rs : List AttnRequest) (pad : Nat) {s e : Nat} (hlt : s < e)
    (he : e ≤ totalTokens rs) :
    Covers rs pad ⟨⟨Numpy.searchsortedRight (queryStarts rs) s - 1,
      Numpy.searchsorted (queryStarts rs) e⟩,
      ⟨s, e⟩⟩ ∧ Numpy.searchsorted (queryStarts rs) e ≤ rs.length := by
  obtain ⟨a, ha, hle, hnext⟩ := @exists_request rs s (by omega)
  have hstart : Numpy.searchsortedRight (queryStarts rs) s - 1 = a := by
    rw [searchsortedRight_queryStarts ha hle hnext, Nat.add_sub_cancel]
  have hbefore : ∀ i, i < Numpy.searchsorted (queryStarts rs) e ↔ i ≤ rs.length ∧
    startOf rs i < e := by
    intro i
    rw [Numpy.lt_searchsorted_iff (pairwise_queryStarts rs)]
    constructor
    · intro ⟨x, hx, hxe⟩
      obtain ⟨hi, -⟩ := List.getElem?_eq_some_iff.mp hx
      rw [length_queryStarts] at hi
      have hile : i ≤ rs.length := by omega
      rw [getElem?_queryStarts hile, Option.some.injEq] at hx
      exact ⟨hile, hx ▸ hxe⟩
    · intro ⟨hi, hie⟩
      exact ⟨_, getElem?_queryStarts hi, hie⟩
  generalize Numpy.searchsorted (queryStarts rs) e = b at hbefore ⊢
  rw [hstart]
  have hlength := startOf_length rs
  have hb : b ≤ rs.length := by
    by_contra hnot
    have := ((hbefore rs.length).mp (by omega)).2
    omega
  have hab : a < b := (hbefore a).mpr ⟨Nat.le_of_lt ha, by omega⟩
  have hlast := ((hbefore (b - 1)).mp (by omega)).2
  have hstop : e ≤ startOf rs b := by
    by_contra hnot
    exact Nat.lt_irrefl b ((hbefore b).mpr ⟨hb, by omega⟩)
  refine ⟨⟨hlt, hab, Nat.le_add_right_of_le hb, hle, hnext, Nat.le_of_lt hlast, ?_⟩, hb⟩
  exact Nat.le_trans (Nat.min_le_left _ _) hstop

theorem ubatchSlicesFrom_append (cu : List Nat) (e : Nat) : ∀ (points : List Nat) (s : Nat),
    ubatchSlicesFrom cu s (points ++ [e]) = ubatchSlicesFrom cu s points
      ++ [⟨⟨Numpy.searchsortedRight cu ((s :: points).getLast (List.cons_ne_nil _ _)) - 1,
        Numpy.searchsorted cu e⟩,
        ⟨(s :: points).getLast (List.cons_ne_nil _ _), e⟩⟩] := by
  intro points
  induction points with
  | nil => exact fun s => rfl
  | cons p points ih =>
    intro s
    show _ :: ubatchSlicesFrom cu p (points ++ [e]) = _
    rw [ih, List.getLast_cons (List.cons_ne_nil p points)]
    rfl

/-- The slices of the loop, for points that increase up to the end of the batch. -/
theorem ubatchSlicesFrom_spec (rs : List AttnRequest) (pad : Nat) : ∀ (points : List Nat) (s : Nat),
    (s :: points).Pairwise (· < ·) → (∀ p ∈ points, p ≤ totalTokens rs) →
    let slices := ubatchSlicesFrom (queryStarts rs) s points
    let last := (s :: points).getLast (List.cons_ne_nil _ _)
    s ≤ last ∧ (∀ u ∈ slices, Covers rs pad u)
      ∧ (slices.flatMap fun u => between u.tokenSlice.start u.tokenSlice.stop) = between s last
      ∧ (slices.map (·.numTokens)).sum = (last : Int) - s
      ∧ slices.map (·.tokenSlice.start) = (s :: points).dropLast := by
  intro points
  induction points with
  | nil =>
    intro s _ _
    refine ⟨Nat.le_refl s, fun u hu => (by cases hu), ?_, ?_, rfl⟩
    · show [] = between s s
      unfold between
      rw [Nat.sub_self]
      rfl
    · show (0 : Int) = s - s
      omega
  | cons p points ih =>
    intro s hchain hle
    obtain ⟨hs, hrest⟩ := List.pairwise_cons.mp hchain
    have hsp := hs p List.mem_cons_self
    obtain ⟨hlast, hcovers, hcut, hsum, hstarts⟩ :=
      ih p hrest fun q hq => hle q (List.mem_cons_of_mem p hq)
    intro slices last
    have hlastEq : last = (p :: points).getLast (List.cons_ne_nil _ _) :=
      List.getLast_cons (List.cons_ne_nil p points)
    have hslices : slices = ⟨⟨Numpy.searchsortedRight (queryStarts rs) s - 1,
        Numpy.searchsorted (queryStarts rs) p⟩, ⟨s,
          p⟩⟩ :: ubatchSlicesFrom (queryStarts rs) p points := rfl
    rw [hlastEq, hslices]
    refine ⟨by omega, fun u hu => ?_, ?_, ?_, ?_⟩
    · obtain rfl | hu := List.mem_cons.mp hu
      · exact (covers_slice rs pad hsp (hle p List.mem_cons_self)).1
      · exact hcovers u hu
    · rw [List.flatMap_cons, hcut, between_append (Nat.le_of_lt hsp) hlast]
    · rw [List.map_cons, List.sum_cons, hsum]
      show ((p : Int) - s) + _ = _
      omega
    · rw [List.map_cons, hstarts, List.dropLast_cons_of_ne_nil (List.cons_ne_nil p points)]

/-- The last slice with the padding. -/
theorem Covers.padded (h : Covers rs pad u) (hstop : u.requestSlice.stop ≤ rs.length)
    (hend : totalTokens rs ≤ numTokensPadded) :
    Covers rs pad ⟨⟨u.requestSlice.start, rs.length + pad⟩, ⟨u.tokenSlice.start,
      numTokensPadded⟩⟩ := by
  have hlt := h.lt_next
  have htotal := startOf_le_totalTokens rs (u.requestSlice.start + 1)
  have hrows := h.rows
  refine ⟨?_, ?_, Nat.le_refl _, h.start_le, h.lt_next, ?_, ?_⟩
  · show u.tokenSlice.start < numTokensPadded
    omega
  · show u.requestSlice.start < rs.length + pad
    omega
  · exact Nat.le_trans (startOf_le_totalTokens rs _) hend
  · show min numTokensPadded (totalTokens rs) ≤ startOf rs (rs.length + pad)
    rw [startOf_of_length_le (Nat.le_add_right _ _)]
    exact Nat.min_le_right _ _

/-- A slice begins with a request if its first token is the first token of a request. -/
theorem Covers.begins_iff (h : Covers rs pad u) :
    u.tokenSlice.start = startOf rs u.requestSlice.start ↔ u.tokenSlice.start ∈ queryStarts rs := by
  have hle := h.start_le
  have hlt := h.lt_next
  constructor
  · intro heq
    have ha : u.requestSlice.start ≤ rs.length := by
      by_contra hnot
      have hend := @startOf_of_length_le rs u.requestSlice.start (by omega)
      have htotal := startOf_le_totalTokens rs (u.requestSlice.start + 1)
      omega
    rw [heq]
    exact List.mem_of_getElem? (getElem?_queryStarts ha)
  · intro hmem
    obtain ⟨i, hi, hget⟩ := List.getElem_of_mem hmem
    rw [length_queryStarts] at hi
    have hstart := @getElem?_queryStarts rs i (by omega)
    rw [List.getElem?_eq_getElem (by rw [length_queryStarts]; exact hi), Option.some.injEq,
      hget] at hstart
    obtain hia | hia := Nat.lt_or_ge u.requestSlice.start i
    · have hmono : startOf rs (u.requestSlice.start + 1) ≤ startOf rs i := startOf_mono hia
      omega
    · have hmono : startOf rs i ≤ startOf rs u.requestSlice.start := startOf_mono hia
      omega

/-! ## The micro-batches together -/

/-- The slices are the numbers below a bound, in order, none of them empty. -/
def Partitions (slices : List UBatchSlice) (n : Nat) : Prop :=
  (∀ u ∈ slices, u.tokenSlice.start < u.tokenSlice.stop)
    ∧ (slices.flatMap fun u => between u.tokenSlice.start u.tokenSlice.stop) = List.range n

/-- A part of a batch has the tokens of its slice, each in its request and at its position. -/
structure PartOf (m : CommonAttentionMetadata) (u : UBatchSlice)
    (m' : CommonAttentionMetadata) : Prop where
  tokens : m'.tokens = u.tokenSlice.of m.tokens
  queryStartLocCpu : m'.queryStartLocCpu = m'.queryStartLoc
  seqLensCpu : m'.seqLensCpu = m'.seqLens

/-- `num_computed_tokens` is `seq_len` without the query, in every row. -/
def ComputedRight (m : CommonAttentionMetadata) : Prop :=
  ∀ i < m.numReqs, m.numComputedTokensCpu.getD i 0 = m.seqLens.getD i 0 - m.queryLen i

/-- The metadata of the slices: parts of the batch, with the right computed tokens if and only if
the slice begins with a request. -/
theorem splitAttnMetadata_spec (h : Describes m rs pad) :
    ∀ {slices : List UBatchSlice}, (∀ u ∈ slices, Covers rs pad u) →
      ∃ ms, splitAttnMetadata slices m = .ok ms ∧ List.Forall₂ (PartOf m) slices ms
        ∧ ((∀ m' ∈ ms, ComputedRight m') ↔ ∀ u ∈ slices, u.tokenSlice.start ∈ queryStarts rs) := by
  intro slices
  induction slices with
  | nil => exact fun _ => ⟨[], rfl, .nil, by simp⟩
  | cons u slices ih =>
    intro hcovers
    have hu := hcovers u List.mem_cons_self
    obtain ⟨m', hm', hs⟩ := makeMetadataWithSlice_spec h hu
    obtain ⟨ms, hms, hparts, hcomputed⟩ := ih fun v hv => hcovers v (List.mem_cons_of_mem u hv)
    have htokens : m'.tokens = u.tokenSlice.of m.tokens := by
      rw [hs.tokens_eq h hu, tokens_describes h]
      unfold Slice.of between
      rw [← List.map_take, ← List.map_drop, List.take_range, List.range_eq_range',
        List.drop_range', Nat.mul_one,
        Nat.zero_add]
    have hstart := hu.begins_iff
    refine ⟨m' :: ms, ?_, .cons ⟨htokens, hs.queryStartLocCpu, hs.seqLensCpu⟩ hparts, ?_⟩
    · unfold splitAttnMetadata at hms ⊢
      rw [List.mapM_cons, hm', Raises.ok_bind, hms]
      rfl
    · rw [List.forall_mem_cons, List.forall_mem_cons, hcomputed, ← hstart]
      exact and_congr_left fun _ => hs.computed_iff h hu

/-- The number of tokens of a micro-batch, except the last one. -/
def ubatchSize (numTokensPadded numUbatches : Nat) : SplitPoint → Option Nat
  | .none => some (numTokensPadded / numUbatches)
  | .single token => some token
  | .points _ => Option.none

/-- The slices of a batch and the metadata of its micro-batches are right. -/
def UbatchesConsistent (m : CommonAttentionMetadata) (rs : List AttnRequest)
    (pad numTokensPadded numUbatches : Nat) (splitPoint : SplitPoint) : Prop :=
  ∃ slices slicesPadded, maybeCreateUbatchSlices true (rs.map (·.queryLen)) numTokensPadded
    (rs.length + pad)
      numUbatches splitPoint = .ok (some (slices, slicesPadded))
    ∧ Partitions slices (totalTokens rs) ∧ Partitions slicesPadded numTokensPadded
    ∧ ∀ s ∈ [slices, slicesPadded], ∃ ms, splitAttnMetadata s m = .ok ms ∧
      List.Forall₂ (PartOf m) s ms
      ∧ ∀ m' ∈ ms, ComputedRight m'

/-- The split points of micro-batches of one size. -/
def sizedPoints (size numUbatches : Nat) : List Nat :=
    (List.range' 1 (numUbatches - 1)).map (size * ·)

/-- Without a list for a split point, everything but the computed tokens is right. -/
theorem maybeCreateUbatchSlices_spec (rs : List AttnRequest) (pad : Nat) {points : List Nat}
    {numUbatches : Nat} {splitPoint : SplitPoint}
    (hpoints : tokenSplitPoints numTokensPadded numUbatches splitPoint = .ok points)
    (hchain : (0 :: (points ++ [totalTokens rs])).Pairwise (· < ·))
    (hpadded : totalTokens rs ≤ numTokensPadded) :
    ∃ slices slicesPadded, maybeCreateUbatchSlices true (rs.map (·.queryLen)) numTokensPadded
      (rs.length + pad)
        numUbatches splitPoint = .ok (some (slices, slicesPadded))
      ∧ Partitions slices (totalTokens rs) ∧ Partitions slicesPadded numTokensPadded
      ∧ ∀ s ∈ [slices, slicesPadded], (∀ u ∈ s, Covers rs pad u)
        ∧ s.map (·.tokenSlice.start) = 0 :: points := by
  have hlastLoc : (queryStarts rs).getLastD 0 = totalTokens rs := by
    rw [List.getLastD_eq_getLast?, List.getLast?_eq_getElem?, length_queryStarts,
      Nat.add_sub_cancel,
      getElem?_queryStarts (Nat.le_refl _), startOf_length]
    rfl
  have hsplit := ubatchSlicesFrom_append (queryStarts rs) (totalTokens rs) points 0
  generalize hlast : (0 :: points).getLast (List.cons_ne_nil _ _) = last at hsplit
  -- Every point is in the batch.
  have hchain' : ((0 :: points) ++ [totalTokens rs]).Pairwise (· < ·) := hchain
  obtain ⟨hinit, -, hbelow⟩ := List.pairwise_append.mp hchain'
  have hpoints' : ∀ p ∈ points ++ [totalTokens rs], p ≤ totalTokens rs := by
    intro p hp
    obtain hp | hp := List.mem_append.mp hp
    · exact Nat.le_of_lt (hbelow p (List.mem_cons_of_mem 0 hp) _ (List.mem_singleton_self _))
    · exact (List.mem_singleton.mp hp).le
  have hlt : last < totalTokens rs :=
    hbelow last (hlast ▸ List.getLast_mem _) _ (List.mem_singleton_self _)
  obtain ⟨-, hcovers, hcut, -, hstarts⟩ :=
    ubatchSlicesFrom_spec rs pad (points ++ [totalTokens rs]) 0 hchain hpoints'
  obtain ⟨-, hcoversInit, hcutInit, hsumInit,
    hstartsInit⟩ := ubatchSlicesFrom_spec rs pad points 0 hinit
    fun p hp => hpoints' p (List.mem_append_left _ hp)
  have hend : (0 :: (points ++ [totalTokens rs])).getLast
    (List.cons_ne_nil _ _) = totalTokens rs := by
    have happend : 0 :: (points ++ [totalTokens rs]) = (0 :: points) ++ [totalTokens rs] := rfl
    simp only [happend, List.getLast_append_singleton]
  rw [hend] at hcut
  rw [hlast] at hcutInit hsumInit
  obtain ⟨hlastCovers, hlastStop⟩ := covers_slice rs pad hlt (Nat.le_refl _)
  have hpad := hlastCovers.padded hlastStop hpadded
  -- The slices with the padding.
  have hpadOut : padOutUbatchSlices (ubatchSlicesFrom (queryStarts rs) 0
    (points ++ [totalTokens rs]))
      numTokensPadded (rs.length + pad) = ubatchSlicesFrom (queryStarts rs) 0 points
        ++ [⟨⟨Numpy.searchsortedRight (queryStarts rs) last - 1, rs.length + pad⟩, ⟨last,
          numTokensPadded⟩⟩] := by
    unfold padOutUbatchSlices
    rw [hsplit, List.getLast?_concat, List.dropLast_concat]
  have hsum : ((padOutUbatchSlices (ubatchSlicesFrom (queryStarts rs) 0
    (points ++ [totalTokens rs]))
      numTokensPadded (rs.length + pad)).map (·.numTokens)).sum = numTokensPadded := by
    rw [hpadOut, List.map_append, List.sum_append, hsumInit, List.map_singleton, List.sum_singleton]
    show (last : Int) - 0 + ((numTokensPadded : Int) - last) = numTokensPadded
    omega
  refine ⟨ubatchSlicesFrom (queryStarts rs) 0 (points ++ [totalTokens rs]),
    padOutUbatchSlices (ubatchSlicesFrom (queryStarts rs) 0
      (points ++ [totalTokens rs])) numTokensPadded
      (rs.length + pad), ?_, ⟨fun u hu => (hcovers u hu).nonempty, ?_⟩, ⟨fun u hu => ?_, ?_⟩,
        fun s hs => ?_⟩
  · rw [← hlastLoc] at hsum ⊢
    unfold maybeCreateUbatchSlices
    rw [if_neg (by decide), hpoints, Raises.ok_bind]
    exact if_pos hsum
  · rw [hcut]
    exact List.range_eq_range'.symm
  · rw [hpadOut] at hu
    obtain hu | hu := List.mem_append.mp hu
    · exact (hcoversInit u hu).nonempty
    · rw [List.mem_singleton.mp hu]
      exact hpad.nonempty
  · rw [hpadOut, List.flatMap_append, hcutInit, List.flatMap_singleton,
      between_append (Nat.zero_le _) (Nat.le_of_lt hpad.nonempty)]
    exact List.range_eq_range'.symm
  · obtain rfl | hs := List.mem_cons.mp hs
    · refine ⟨hcovers, ?_⟩
      rw [hstarts]
      show ((0 :: points) ++ [totalTokens rs]).dropLast = 0 :: points
      exact List.dropLast_concat
    · rw [List.mem_singleton.mp hs, hpadOut]
      refine ⟨fun u hu => ?_, ?_⟩
      · obtain hu | hu := List.mem_append.mp hu
        · exact hcoversInit u hu
        · rw [List.mem_singleton.mp hu]
          exact hpad
      · rw [List.map_append, hstartsInit, List.map_singleton]
        show (0 :: points).dropLast ++ [last] = 0 :: points
        rw [← hlast]
        exact List.dropLast_append_getLast _

/-- Points at the multiples of a size increase up to the end. -/
theorem chain_sizedPoints {size numUbatches total : Nat} (htotal : 0 < total)
    (h : numUbatches = 1 ∨ 0 < size ∧ size * (numUbatches - 1) < total) :
    (0 :: (sizedPoints size numUbatches ++ [total])).Pairwise (· < ·) := by
  obtain rfl | ⟨hsize, hlt⟩ := h
  · exact List.pairwise_pair.mpr htotal
  · have hmem : ∀ p ∈ sizedPoints size numUbatches, 0 < p ∧ p < total := by
      intro p hp
      obtain ⟨i, hi, rfl⟩ := List.mem_map.mp hp
      rw [List.mem_range'_1] at hi
      refine ⟨Nat.mul_pos hsize hi.1, Nat.lt_of_le_of_lt (Nat.mul_le_mul_left size ?_) hlt⟩
      omega
    rw [List.pairwise_cons, List.pairwise_append]
    refine ⟨fun p hp => ?_, ?_, List.pairwise_singleton _ _, fun p hp q hq => ?_⟩
    · obtain hp | hp := List.mem_append.mp hp
      · exact (hmem p hp).1
      · rw [List.mem_singleton.mp hp]
        exact htotal
    · unfold sizedPoints
      have hlt' : (List.range' 1 (numUbatches - 1)).Pairwise (· < ·) := List.pairwise_lt_range'
      exact List.pairwise_map.mpr (hlt'.imp fun hab => Nat.mul_lt_mul_of_pos_left hab hsize)
    · rw [List.mem_singleton.mp hq]
      exact (hmem p hp).2

/-- The split points of an integer, or of none. -/
theorem tokenSplitPoints_of_size {numUbatches size : Nat} (hn : 0 < numUbatches)
    {splitPoint : SplitPoint} (h : ubatchSize numTokensPadded numUbatches splitPoint = some size) :
    tokenSplitPoints numTokensPadded numUbatches splitPoint = .ok (sizedPoints size numUbatches) := by
  cases splitPoint with
  | none =>
    cases h
    exact if_neg (by omega)
  | single token =>
    cases h
    rfl
  | points tokens => cases h

theorem totalTokens_pos (hrs : rs ≠ []) : 0 < totalTokens rs := by
  cases rs with
  | nil => exact absurd rfl hrs
  | cons r rs =>
    have hpos := r.queryLen_pos
    unfold totalTokens
    rw [List.map_cons, List.sum_cons]
    omega

/-- Micro-batches that are not empty have the tokens of the batch, each in its request and at its
position; the whole is right, computed tokens included, if and only if the split points are no list
and every micro-batch begins with a request. -/
theorem ubatches_consistent_iff (h : Describes m rs pad)
    (hrs : rs ≠ []) {numTokensPadded numUbatches : Nat}
    (hpadded : totalTokens rs ≤ numTokensPadded) (hn : 0 < numUbatches) {splitPoint : SplitPoint}
    (hnonempty : ∀ size, ubatchSize numTokensPadded numUbatches splitPoint = some size →
      numUbatches = 1 ∨ 0 < size ∧ size * (numUbatches - 1) < totalTokens rs) :
    UbatchesConsistent m rs pad numTokensPadded numUbatches splitPoint
      ↔ numUbatches = 1 ∨ ∃ size, ubatchSize numTokensPadded numUbatches splitPoint = some size
          ∧ ∀ i, 0 < i → i < numUbatches → size * i ∈ queryStarts rs := by
  have htotal := totalTokens_pos hrs
  -- With split points, only the computed tokens depend on where they are.
  have hpoints : ∀ points, tokenSplitPoints numTokensPadded numUbatches splitPoint = .ok points →
      (0 :: (points ++ [totalTokens rs])).Pairwise (· < ·) →
      (UbatchesConsistent m rs pad numTokensPadded numUbatches splitPoint ↔ ∀ p ∈ points,
        p ∈ queryStarts rs) := by
    intro points hok hchain
    obtain ⟨slices, slicesPadded, hslices, hcut, hcutPadded, hboth⟩ :=
      maybeCreateUbatchSlices_spec rs pad hok hchain hpadded
    have hbegins : ∀ s ∈ [slices, slicesPadded],
        (∀ u ∈ s, u.tokenSlice.start ∈ queryStarts rs) ↔ ∀ p ∈ points, p ∈ queryStarts rs := by
      intro s hs
      have hmap := (hboth s hs).2
      have hall : (∀ u ∈ s, u.tokenSlice.start ∈ queryStarts rs)
          ↔ ∀ p ∈ s.map (·.tokenSlice.start), p ∈ queryStarts rs := List.forall_mem_map.symm
      rw [hall, hmap, List.forall_mem_cons]
      exact and_iff_right List.mem_cons_self
    constructor
    · intro hconsistent
      obtain ⟨slices', slicesPadded', hslices', -, -, hsplit⟩ := hconsistent
      rw [hslices] at hslices'
      cases hslices'
      obtain ⟨ms, hms, -, hcomputed⟩ := hsplit slices List.mem_cons_self
      obtain ⟨ms', hms', -, hiff⟩ := splitAttnMetadata_spec h (hboth slices List.mem_cons_self).1
      rw [hms] at hms'
      cases hms'
      exact (hbegins slices List.mem_cons_self).mp (hiff.mp hcomputed)
    · intro hall
      refine ⟨slices, slicesPadded, hslices, hcut, hcutPadded, fun s hs => ?_⟩
      obtain ⟨ms, hms, hparts, hiff⟩ := splitAttnMetadata_spec h (hboth s hs).1
      exact ⟨ms, hms, hparts, hiff.mpr ((hbegins s hs).mpr hall)⟩
  cases hsize : ubatchSize numTokensPadded numUbatches splitPoint with
  | some size =>
    rw [hpoints _ (tokenSplitPoints_of_size hn hsize) (chain_sizedPoints htotal
      (hnonempty size hsize))]
    have hmem : (∀ p ∈ sizedPoints size numUbatches, p ∈ queryStarts rs)
        ↔ ∀ i, 0 < i → i < numUbatches → size * i ∈ queryStarts rs := by
      constructor
      · intro hall i hpos hlt
        exact hall _ (List.mem_map_of_mem (List.mem_range'_1.mpr ⟨hpos, by omega⟩))
      · intro hall p hp
        obtain ⟨i, hi, rfl⟩ := List.mem_map.mp hp
        rw [List.mem_range'_1] at hi
        exact hall i hi.1 (by omega)
    rw [hmem]
    constructor
    · exact fun hall => Or.inr ⟨size, rfl, hall⟩
    · intro hcond i hpos hlt
      obtain hone | ⟨size', hsize', hall⟩ := hcond
      · omega
      · cases hsize'
        exact hall i hpos hlt
  | none =>
    have hlist : ∃ tokens, splitPoint = .points tokens := by
      cases splitPoint with
      | none => cases hsize
      | single token => cases hsize
      | points tokens => exact ⟨tokens, rfl⟩
    obtain ⟨tokens, rfl⟩ := hlist
    by_cases hone : numUbatches = 1
    · subst hone
      rw [hpoints [] rfl (List.pairwise_pair.mpr htotal)]
      exact ⟨fun _ => Or.inl rfl, fun _ p hp => (by cases hp)⟩
    · constructor
      · intro hconsistent
        obtain ⟨slices, slicesPadded, hslices, -⟩ := hconsistent
        have htype : tokenSplitPoints numTokensPadded numUbatches (.points tokens) = .error .type :=
          if_neg (by omega)
        unfold maybeCreateUbatchSlices at hslices
        rw [if_neg (by decide), htype] at hslices
        cases hslices
      · intro hcond
        obtain hone' | ⟨size, hsize', -⟩ := hcond
        · exact absurd hone' hone
        · cases hsize'

instance (m : CommonAttentionMetadata) : Decidable (ComputedRight m) :=
  inferInstanceAs (Decidable (∀ i < m.numReqs, _))

/-- A prefill of four tokens. -/
def onePrefill : List AttnRequest := [⟨4, 4, [0], Nat.succ_pos 3, Nat.le_refl 4⟩]

def onePrefillMetadata : CommonAttentionMetadata where
  queryStartLoc := [0, 4]
  queryStartLocCpu := [0, 4]
  seqLens := [4]
  numReqs := 1
  numActualTokens := 4
  maxQueryLen := 4
  maxSeqLen := 4
  blockTableTensor := [[0]]
  slotMapping := [0, 1, 2, 3]
  causal := true
  seqLensCpu := [4]
  numComputedTokensCpu := [0]

/-- Cut in the middle: the second micro-batch has no computed tokens, where it has two. -/
theorem split_prefill_miscounted : Describes onePrefillMetadata onePrefill 0
    ∧ ¬ UbatchesConsistent onePrefillMetadata onePrefill 0 4 2 .none := by
  refine ⟨⟨rfl, rfl, rfl, rfl, rfl, rfl, ⟨[], rfl, rfl⟩⟩, fun hconsistent => ?_⟩
  obtain ⟨slices, slicesPadded, hslices, -, -, hsplit⟩ := hconsistent
  obtain ⟨ms, hms, -, hcomputed⟩ := hsplit slices List.mem_cons_self
  have hslices' : slices = [⟨⟨0, 1⟩, ⟨0, 2⟩⟩, ⟨⟨0, 1⟩, ⟨2, 4⟩⟩] := by
    cases hslices
    rfl
  rw [hslices'] at hms
  cases hms
  exact absurd hcomputed (by decide)

/-- Two requests of two tokens, cut between them. -/
theorem two_requests_consistent : UbatchesConsistent
    { onePrefillMetadata with
      queryStartLoc := [0, 2, 4]
      queryStartLocCpu := [0, 2, 4]
      seqLens := [2, 5]
      numReqs := 2
      blockTableTensor := [[0], [1]]
      seqLensCpu := [2, 5]
      numComputedTokensCpu := [0, 3] }
    [⟨2, 2, [0], by decide, by decide⟩, ⟨2, 5, [1], by decide, by decide⟩] 0 4 2 .none :=
  (ubatches_consistent_iff ⟨rfl, rfl, rfl, rfl, rfl, rfl, ⟨[], rfl,
    rfl⟩⟩ (List.cons_ne_nil _ _) (by decide)
    (by decide) (fun size hsize => by cases hsize; decide)).mpr
    (Or.inr ⟨2, rfl, fun i hpos hlt => by
      obtain rfl : i = 1 := by omega
      decide⟩)

end VllmEngine.Attention
