import VllmEngine.Lib.Run
import Mathlib.Data.List.GetD
import Mathlib.Data.List.Nodup
import VllmEngine.Lib.Python
import VllmEngine.Lib.Ragged
import VllmEngine.Lib.Stores

/-!
# The block tables of the V2 model runner

`BlockTables` (`vllm/v1/worker/gpu/block_table.py`) with `StagedWriteTensor`
(`vllm/v1/worker/gpu/buffer_utils.py`): the block ids of the requests, a table for
each KV cache group, and the tables gathered for the batch.

Mirroring notes:
- What the source keeps in lists and arrays over the groups is kept here group by
  group (`GroupTables`): the loops over the groups touch one group each. Only the
  width that `gather_block_tables` gives the kernel comes from the first group.
- An array is a function of the row, a table on the device a memory from its own
  first element on: a store that leaves the table is a store to a larger address.
- A kernel's stores are performed in any order (`Order`). It loads from arrays that
  it does not store to.
- Rows and starts are not negative, so the assertions of `stage_write` hold. Block
  ids are integers. The buffers that a launch reads are not written before it ran.
-/

namespace VllmEngine.Runner

open Python Stores

/-! ## Staged writes -/

/-- `StagedWriteTensor` with two dimensions. -/
structure StagedWriteTensor where
  numRows : Nat
  /-- `gpu.stride(0)`. -/
  stride : Nat
  gpu : Nat → Int
  stagedWriteIndices : List Nat
  stagedWriteStarts : List Nat
  stagedWriteContents : List Int
  stagedWriteCuLens : List Nat

namespace StagedWriteTensor

def init (numRows stride : Nat) : StagedWriteTensor where
  numRows := numRows
  stride := stride
  gpu := fun _ => 0
  stagedWriteIndices := []
  stagedWriteStarts := []
  stagedWriteContents := []
  stagedWriteCuLens := []

/-- `stage_write`. -/
def stageWrite (t : StagedWriteTensor) (index start : Nat) (x : List Int) : StagedWriteTensor :=
  if x = [] then t
  else
    { t with
      stagedWriteIndices := t.stagedWriteIndices ++ [index]
      stagedWriteStarts := t.stagedWriteStarts ++ [start]
      stagedWriteContents := t.stagedWriteContents ++ x
      stagedWriteCuLens := t.stagedWriteCuLens ++ [(t.stagedWriteContents ++ x).length] }

/-- `BLOCK_SIZE` of the launches. -/
def laneTile : Nat := 1024

/-- `_apply_write_kernel`, one program. -/
def applyWriteKernel (t : StagedWriteTensor) (pid : Nat) : List (Store Int) :=
  let rowIdx := t.stagedWriteIndices.getD pid 0
  let startIdx := t.stagedWriteStarts.getD pid 0
  let cuStart := if 0 < pid then t.stagedWriteCuLens.getD (pid - 1) 0 else 0
  let cuEnd := t.stagedWriteCuLens.getD pid 0
  let contentLen := cuEnd - cuStart
  (tiles laneTile contentLen).map fun block =>
    ⟨rowIdx * t.stride + startIdx + block, t.stagedWriteContents.getD (cuStart + block) 0⟩

/-- `clear_staged_writes`. -/
def clearStagedWrites (t : StagedWriteTensor) : StagedWriteTensor :=
  { t with
    stagedWriteIndices := []
    stagedWriteStarts := []
    stagedWriteContents := []
    stagedWriteCuLens := [] }

/-- The stores of `_apply_write_kernel[(n,)]`. -/
def applyWriteStores (t : StagedWriteTensor) : List (Store Int) :=
  (List.range t.stagedWriteIndices.length).flatMap t.applyWriteKernel

/-- `apply_write`. The staged rows are copied to buffers with a place for each row. -/
def applyWrite (order : Order Int) (t : StagedWriteTensor) : Except Error StagedWriteTensor :=
  let n := t.stagedWriteIndices.length
  if n = 0 then .ok t
  else if t.numRows < n then
    .error (.value
      s!"could not broadcast input array from shape ({n},) into shape ({t.numRows},)")
  else .ok { t with gpu := perform order t.gpu t.applyWriteStores }.clearStagedWrites

end StagedWriteTensor

/-! ## One group -/

/-- What `BlockTables` has for one KV cache group. -/
structure GroupTables where
  /-- `block_tables[i]`. -/
  blockTable : StagedWriteTensor
  /-- `num_blocks.np[i]`. -/
  numBlocks : Nat → Nat
  /-- `num_blocks.gpu[i]`, as of the last copy. -/
  numBlocksGpu : Nat → Nat
  /-- `input_block_tables[i]`. -/
  inputBlockTable : Nat → Int

namespace GroupTables

/-- The number of columns. -/
def maxNumBlocks (g : GroupTables) : Nat := g.blockTable.stride

/-- `cdiv(max_model_len, block_size * cp_size)`. -/
def columns (maxModelLen cpSize blockSize : Nat) : Except Error Nat :=
  if blockSize * cpSize = 0 then .error (.zeroDivision "integer division or modulo by zero")
  else .ok (cdiv maxModelLen (blockSize * cpSize : Nat)).toNat

def init (maxNumReqs maxModelLen cpSize blockSize : Nat) : Except Error GroupTables :=
  match columns maxModelLen cpSize blockSize with
  | .error e => .error e
  | .ok maxNumBlocks =>
    .ok { blockTable := StagedWriteTensor.init maxNumReqs maxNumBlocks
          numBlocks := fun _ => 0
          numBlocksGpu := fun _ => 0
          inputBlockTable := fun _ => 0 }

/-- The round of `append_block_ids`; `blockIds` is `new_block_ids[i]`, where there is
such an entry. -/
def appendBlockIds (g : GroupTables) (reqIndex : Nat) (blockIds : Option (List Int))
    (overwrite : Bool) : Except Error GroupTables :=
  let outOfBounds : Error := .index
    s!"index {reqIndex} is out of bounds for axis 1 with size {g.blockTable.numRows}"
  if overwrite = false ∧ g.blockTable.numRows ≤ reqIndex then .error outOfBounds
  else
    let start := if overwrite then 0 else g.numBlocks reqIndex
    match blockIds with
    | none => .error (.index "tuple index out of range")
    | some blockIds =>
      if g.blockTable.numRows ≤ reqIndex then .error outOfBounds
      else
        .ok { g with
          blockTable := g.blockTable.stageWrite reqIndex start blockIds
          numBlocks := Function.update g.numBlocks reqIndex (start + blockIds.length) }

/-- `apply_write`, and the group's part of `num_blocks.copy_to_uva`. -/
def applyStagedWrites (order : Order Int) (g : GroupTables) : Except Error GroupTables :=
  match g.blockTable.applyWrite order with
  | .error e => .error e
  | .ok blockTable => .ok { g with blockTable := blockTable, numBlocksGpu := g.numBlocks }

/-- `_gather_block_tables_kernel`, the program of a row; `width` is the kernel's
`max_num_blocks`. -/
def gatherKernel (g : GroupTables) (width : Nat) (idxMapping : List Nat) (batchIdx : Nat) :
    List (Store Int) :=
  let stride := g.blockTable.stride
  if idxMapping.length ≤ batchIdx then
    -- zero out padded rows
    (tiles StagedWriteTensor.laneTile width).map fun offset => ⟨batchIdx * stride + offset, 0⟩
  else
    let reqIdx := idxMapping.getD batchIdx 0
    (tiles StagedWriteTensor.laneTile (g.numBlocksGpu reqIdx)).map fun offset =>
      ⟨batchIdx * stride + offset, g.blockTable.gpu (reqIdx * stride + offset)⟩

/-- The group's stores of the launch. -/
def gatherStores (g : GroupTables) (width : Nat) (idxMapping : List Nat) (numReqsPadded : Nat) :
    List (Store Int) :=
  (List.range numReqsPadded).flatMap (g.gatherKernel width idxMapping)

def gather (order : Order Int) (width : Nat) (idxMapping : List Nat) (numReqsPadded : Nat)
    (g : GroupTables) : GroupTables :=
  { g with
    inputBlockTable :=
      perform order g.inputBlockTable (g.gatherStores width idxMapping numReqsPadded) }

end GroupTables

/-! ## All groups -/

/-- `BlockTables`: its groups in order. -/
structure BlockTables where
  groups : List GroupTables

namespace BlockTables

/-- `__init__`. -/
def init (blockSizes : List Nat) (maxNumReqs maxModelLen cpSize : Nat) :
    Except Error BlockTables :=
  match blockSizes.mapM (GroupTables.init maxNumReqs maxModelLen cpSize) with
  | .error e => .error e
  | .ok groups => .ok ⟨groups⟩

/-- The rounds of `append_block_ids`. -/
def appendRounds (reqIndex : Nat) (overwrite : Bool) :
    List GroupTables → List (List Int) → Except Error (List GroupTables)
  | [], _ => .ok []
  | g :: gs, newBlockIds =>
    match g.appendBlockIds reqIndex newBlockIds.head? overwrite with
    | .error e => .error e
    | .ok g' =>
      match appendRounds reqIndex overwrite gs newBlockIds.tail with
      | .error e => .error e
      | .ok gs' => .ok (g' :: gs')

/-- `append_block_ids`. -/
def appendBlockIds (b : BlockTables) (reqIndex : Nat) (newBlockIds : List (List Int))
    (overwrite : Bool) : Except Error BlockTables :=
  match appendRounds reqIndex overwrite b.groups newBlockIds with
  | .error e => .error e
  | .ok groups => .ok ⟨groups⟩

/-- `apply_staged_writes`. -/
def applyStagedWrites (order : Order Int) (b : BlockTables) : Except Error BlockTables :=
  match b.groups.mapM (GroupTables.applyStagedWrites order) with
  | .error e => .error e
  | .ok groups => .ok ⟨groups⟩

/-- `gather_block_tables`; the result are the first `num_reqs_padded` rows of the
input tables. -/
def gatherBlockTables (order : Order Int) (b : BlockTables) (idxMapping : List Nat)
    (numReqsPadded : Nat) : Except Error BlockTables :=
  match b.groups with
  | [] => .error (.index "list index out of range")
  | g :: _ =>
    .ok ⟨b.groups.map (GroupTables.gather order g.maxNumBlocks idxMapping numReqsPadded)⟩

end BlockTables

end VllmEngine.Runner

/-!
## Staged block ids

One KV cache group through calls of `append_block_ids` and `apply_staged_writes`.
`given` are the ids given to a request since its last overwrite, `applied` the same
as of the last `apply_staged_writes`, and `pending` are the requests of the calls
since then.

The staged lists are the flat form of a list of writes, one for each such request
that was given ids (`Staged`). As each writes to a row of its own, the order of the
stores does not matter:

> `GroupInv.appendBlockIds`, `GroupInv.applyStagedWrites`: every call keeps the
> invariant, which says that the table has the applied ids.
-/

namespace VllmEngine.Runner

open Python Stores Numpy

/-! ## The flat lists -/

theorem laneTile_pos : 0 < StagedWriteTensor.laneTile := Nat.succ_pos 1023

/-- A staged write. -/
structure Write where
  row : Nat
  start : Nat
  content : List Int
deriving DecidableEq

/-- The staged lists are those of the writes. -/
structure Flat (t : StagedWriteTensor) (writes : List Write) : Prop where
  indices : t.stagedWriteIndices = writes.map (·.row)
  starts : t.stagedWriteStarts = writes.map (·.start)
  contents : t.stagedWriteContents = writes.flatMap (·.content)
  cuLens : t.stagedWriteCuLens = cumsum (writes.map (·.content.length))

namespace Flat

variable {t : StagedWriteTensor} {writes : List Write}

theorem nil {numRows stride : Nat} (gpu : Nat → Int) :
    Flat ⟨numRows, stride, gpu, [], [], [], []⟩ [] :=
  ⟨rfl, rfl, rfl, rfl⟩

theorem cumsum_snoc (counts : List Nat) (n : Nat) :
    cumsum (counts ++ [n]) = cumsum counts ++ [counts.sum + n] := by
  have haux : ∀ (counts : List Nat) (start : Nat), cumsumFrom start (counts ++ [n]) =
      cumsumFrom start counts ++ [start + counts.sum + n] := by
    intro counts
    induction counts with
    | nil =>
      intro start
      rfl
    | cons c counts ih =>
      intro start
      show (start + c) :: cumsumFrom (start + c) (counts ++ [n]) = _
      rw [ih, List.sum_cons, ← Nat.add_assoc]
      rfl
  have h := haux counts 0
  rwa [Nat.zero_add] at h

/-- `stage_write` adds a write behind the others. -/
theorem stageWrite (h : Flat t writes) {x : List Int} (hx : x ≠ []) (index start : Nat) :
    Flat (t.stageWrite index start x) (writes ++ [⟨index, start, x⟩]) := by
  have hlen : (t.stagedWriteContents ++ x).length =
      (writes.map (·.content.length)).sum + x.length := by
    rw [List.length_append, h.contents, List.length_flatMap]
  unfold StagedWriteTensor.stageWrite
  rw [if_neg hx]
  constructor
  · show t.stagedWriteIndices ++ [index] = _
    rw [h.indices, List.map_append]
    rfl
  · show t.stagedWriteStarts ++ [start] = _
    rw [h.starts, List.map_append]
    rfl
  · show t.stagedWriteContents ++ x = _
    rw [h.contents, List.flatMap_append, List.flatMap_singleton]
  · show t.stagedWriteCuLens ++ [(t.stagedWriteContents ++ x).length] = _
    rw [hlen, h.cuLens, List.map_append]
    exact (cumsum_snoc _ _).symm

/-- The program of a write stores its content into its row. -/
theorem mem_applyWriteKernel (h : Flat t writes) {pre post : List Write} {w : Write}
    (hw : writes = pre ++ w :: post) {s : Store Int} :
    s ∈ t.applyWriteKernel pre.length ↔ ∃ b, ∃ id, w.content[b]? = some id ∧
      s = ⟨cell t.stride w.row (w.start + b), id⟩ := by
  have hrow : t.stagedWriteIndices.getD pre.length 0 = w.row := by
    rw [h.indices, hw, List.getD_eq_getElem?_getD, List.map_append, List.map_cons,
      List.getElem?_append_right (by rw [List.length_map]), List.length_map, Nat.sub_self]
    rfl
  have hstart : t.stagedWriteStarts.getD pre.length 0 = w.start := by
    rw [h.starts, hw, List.getD_eq_getElem?_getD, List.map_append, List.map_cons,
      List.getElem?_append_right (by rw [List.length_map]), List.length_map, Nat.sub_self]
    rfl
  have hlens : writes.map (·.content.length) =
      pre.map (·.content.length) ++ w.content.length :: post.map (·.content.length) := by
    rw [hw, List.map_append, List.map_cons]
  have hend : t.stagedWriteCuLens.getD pre.length 0 =
      (pre.map (·.content.length)).sum + w.content.length := by
    have hat := getElem?_cumsum (pre.map (·.content.length)) w.content.length
      (post.map (·.content.length))
    rw [List.length_map] at hat
    rw [h.cuLens, hlens, List.getD_eq_getElem?_getD, hat]
    rfl
  -- the lengths before the write
  have hbegin : (if 0 < pre.length then t.stagedWriteCuLens.getD (pre.length - 1) 0 else 0) =
      (pre.map (·.content.length)).sum := by
    have hj : pre.length ≤ (writes.map (·.content.length)).length := by
      rw [hlens, List.length_append, List.length_map]
      exact Nat.le_add_right _ _
    have hat := getD_cons_cumsum hj
    have htake : (writes.map (·.content.length)).take pre.length =
        pre.map (·.content.length) := by
      rw [hlens, ← List.length_map (·.content.length), List.take_left]
    rw [htake, ← h.cuLens] at hat
    rw [← hat]
    cases pre with
    | nil => rfl
    | cons p pre => rfl
  have hcontent : ∀ {b : Nat}, b < w.content.length →
      t.stagedWriteContents.getD ((pre.map (·.content.length)).sum + b) 0 = w.content.getD b 0 := by
    intro b hb
    rw [h.contents, hw, List.getD_eq_getElem?_getD,
      getElem?_flatMap_segment (·.content) pre w post rfl hb, List.getD_eq_getElem?_getD]
  unfold StagedWriteTensor.applyWriteKernel
  rw [hrow, hstart, hend, hbegin]
  dsimp only
  rw [Nat.add_sub_cancel_left, List.mem_map]
  constructor
  · rintro ⟨b, hb, rfl⟩
    rw [mem_tiles laneTile_pos] at hb
    refine ⟨b, w.content[b], List.getElem?_eq_getElem hb, ?_⟩
    rw [hcontent hb, List.getD_eq_getElem _ _ hb, Nat.add_assoc]
    rfl
  · rintro ⟨b, id, hid, rfl⟩
    obtain ⟨hb, rfl⟩ := List.getElem?_eq_some_iff.mp hid
    refine ⟨b, (mem_tiles laneTile_pos).mpr hb, ?_⟩
    rw [hcontent hb, List.getD_eq_getElem _ _ hb, Nat.add_assoc]
    rfl

/-- The launch stores the contents of the writes into their rows. -/
theorem mem_applyWriteStores (h : Flat t writes) {s : Store Int} :
    s ∈ t.applyWriteStores ↔ ∃ w ∈ writes, ∃ b, ∃ id, w.content[b]? = some id ∧
      s = ⟨cell t.stride w.row (w.start + b), id⟩ := by
  have hcount : t.stagedWriteIndices.length = writes.length := by
    rw [h.indices, List.length_map]
  unfold StagedWriteTensor.applyWriteStores
  rw [List.mem_flatMap, hcount]
  constructor
  · rintro ⟨pid, hpid, hs⟩
    have hlt := List.mem_range.mp hpid
    have hsplit : writes = writes.take pid ++ writes[pid] :: writes.drop (pid + 1) := by
      rw [List.getElem_cons_drop, List.take_append_drop]
    have hlen : (writes.take pid).length = pid := List.length_take_of_le (Nat.le_of_lt hlt)
    rw [← hlen] at hs
    exact ⟨writes[pid], List.getElem_mem hlt, (h.mem_applyWriteKernel hsplit).mp hs⟩
  · rintro ⟨w, hw, hs⟩
    obtain ⟨pre, post, hsplit⟩ := List.append_of_mem hw
    refine ⟨pre.length, ?_, (h.mem_applyWriteKernel hsplit).mpr hs⟩
    rw [List.mem_range, hsplit, List.length_append, List.length_cons]
    omega

end Flat

/-! ## The invariant of a group -/

/-- The writes that wait to be applied: what was given is what was applied, cut where
the write starts, and the write. -/
structure Staged (given applied : Nat → List Int) (pending : List Nat) (numRows : Nat)
    (writes : List Write) : Prop where
  nodup : (writes.map (·.row)).Nodup
  pending_of_mem : ∀ w ∈ writes, w.row ∈ pending
  row_lt : ∀ w ∈ writes, w.row < numRows
  start_le : ∀ w ∈ writes, w.start ≤ (applied w.row).length
  given_eq : ∀ w ∈ writes, given w.row = (applied w.row).take w.start ++ w.content
  prefix_of_not_mem : ∀ r ∉ writes.map (·.row), given r <+: applied r
  eq_of_not_pending : ∀ r ∉ pending, given r = applied r

/-- The group has what was given to the requests: the lengths of the rows, the ids
of the applied calls in the table, and the others in the staged writes. -/
structure GroupInv (given applied : Nat → List Int) (pending : List Nat) (g : GroupTables) :
    Prop where
  numBlocks : ∀ r, g.numBlocks r = (given r).length
  numBlocksGpu : ∀ r, g.numBlocksGpu r = (applied r).length
  fits : ∀ r, (given r).length ≤ g.maxNumBlocks
  appliedFits : ∀ r, (applied r).length ≤ g.maxNumBlocks
  stored : ∀ r j id, (applied r)[j]? = some id →
    g.blockTable.gpu (cell g.maxNumBlocks r j) = id
  staged : ∃ writes, Flat g.blockTable writes ∧
    Staged given applied pending g.blockTable.numRows writes

namespace GroupInv

variable {given applied : Nat → List Int} {pending : List Nat} {g g' : GroupTables}

theorem init {maxNumReqs maxModelLen cpSize blockSize : Nat}
    (h : GroupTables.init maxNumReqs maxModelLen cpSize blockSize = .ok g) :
    GroupInv (fun _ => []) (fun _ => []) [] g := by
  unfold GroupTables.init at h
  split at h
  next => cases h
  next maxNumBlocks _ =>
    cases h
    constructor
    case numBlocks => exact fun _ => rfl
    case numBlocksGpu => exact fun _ => rfl
    case fits => exact fun _ => Nat.zero_le _
    case appliedFits => exact fun _ => Nat.zero_le _
    case stored =>
      intro r j id hid
      cases hid
    case staged =>
      refine ⟨[], Flat.nil _, ?_⟩
      constructor
      case nodup => exact List.nodup_nil
      case pending_of_mem => exact fun w hw => absurd hw List.not_mem_nil
      case row_lt => exact fun w hw => absurd hw List.not_mem_nil
      case start_le => exact fun w hw => absurd hw List.not_mem_nil
      case given_eq => exact fun w hw => absurd hw List.not_mem_nil
      case prefix_of_not_mem => exact fun _ _ => List.prefix_refl _
      case eq_of_not_pending => exact fun _ _ => rfl

/-- What a call of `append_block_ids` gives to a request. -/
def extend (given : Nat → List Int) (reqIndex : Nat) (blockIds : List Int) (overwrite : Bool) :
    Nat → List Int :=
  Function.update given reqIndex ((if overwrite then [] else given reqIndex) ++ blockIds)

theorem extend_self (given : Nat → List Int) (r : Nat) (ids : List Int) (overwrite : Bool) :
    extend given r ids overwrite r = (if overwrite then [] else given r) ++ ids :=
  Function.update_self _ _ _

theorem extend_of_ne (given : Nat → List Int) {r r' : Nat} (h : r' ≠ r) (ids : List Int)
    (overwrite : Bool) : extend given r ids overwrite r' = given r' :=
  Function.update_of_ne h _ _

/-- A call for a request that is not pending. -/
theorem appendBlockIds (hI : GroupInv given applied pending g) {reqIndex : Nat}
    {blockIds : Option (List Int)} {overwrite : Bool}
    (h : g.appendBlockIds reqIndex blockIds overwrite = .ok g') (hnew : reqIndex ∉ pending)
    (hfits : (extend given reqIndex (blockIds.getD []) overwrite reqIndex).length ≤
      g.maxNumBlocks) :
    g'.maxNumBlocks = g.maxNumBlocks ∧
      GroupInv (extend given reqIndex (blockIds.getD []) overwrite) applied
        (pending ++ [reqIndex]) g' := by
  unfold GroupTables.appendBlockIds at h
  dsimp only at h
  split at h
  next => cases h
  next =>
    cases blockIds with
    | none => cases h
    | some ids =>
      dsimp only at h
      split at h
      next => cases h
      next hlt =>
        cases h
        obtain ⟨writes, hflat, hstaged⟩ := hI.staged
        have hsame := hstaged.eq_of_not_pending reqIndex hnew
        rw [Option.getD_some] at hfits ⊢
        -- where the call starts to write
        have hstart : (if overwrite then 0 else g.numBlocks reqIndex) =
            (if overwrite then [] else given reqIndex).length := by
          cases overwrite with
          | true => rfl
          | false => exact hI.numBlocks reqIndex
        have hkept : (if overwrite then [] else given reqIndex) <+: applied reqIndex := by
          cases overwrite with
          | true => exact List.nil_prefix
          | false => exact hsame ▸ List.prefix_refl _
        have hextend := extend_self given reqIndex ids overwrite
        rw [hstart]
        generalize hbase : (if overwrite then [] else given reqIndex) = base at *
        have hgpu : ∀ (x : List Int), (g.blockTable.stageWrite reqIndex base.length x).gpu =
            g.blockTable.gpu ∧
            (g.blockTable.stageWrite reqIndex base.length x).stride = g.blockTable.stride ∧
            (g.blockTable.stageWrite reqIndex base.length x).numRows = g.blockTable.numRows := by
          intro x
          unfold StagedWriteTensor.stageWrite
          split
          next => exact ⟨rfl, rfl, rfl⟩
          next => exact ⟨rfl, rfl, rfl⟩
        obtain ⟨hmem, hstride, hrows⟩ := hgpu ids
        refine ⟨hstride, ?_⟩
        constructor
        case numBlocks =>
          intro r
          by_cases hr : r = reqIndex
          · subst hr
            rw [hextend, List.length_append]
            exact Function.update_self _ _ _
          · rw [extend_of_ne given hr]
            exact (Function.update_of_ne hr _ _).trans (hI.numBlocks r)
        case numBlocksGpu => exact hI.numBlocksGpu
        case fits =>
          intro r
          show _ ≤ (g.blockTable.stageWrite reqIndex base.length ids).stride
          rw [hstride]
          by_cases hr : r = reqIndex
          · subst hr
            exact hfits
          · rw [extend_of_ne given hr]
            exact hI.fits r
        case appliedFits =>
          intro r
          show _ ≤ (g.blockTable.stageWrite reqIndex base.length ids).stride
          rw [hstride]
          exact hI.appliedFits r
        case stored =>
          intro r j id hid
          show (g.blockTable.stageWrite reqIndex base.length ids).gpu
            (cell (g.blockTable.stageWrite reqIndex base.length ids).stride r j) = id
          rw [hmem, hstride]
          exact hI.stored r j id hid
        case staged =>
          show ∃ writes, Flat (g.blockTable.stageWrite reqIndex base.length ids) writes ∧
            Staged _ _ _ (g.blockTable.stageWrite reqIndex base.length ids).numRows writes
          rw [hrows]
          have hnotRow : reqIndex ∉ writes.map (·.row) := by
            intro hin
            obtain ⟨w, hw, hrow⟩ := List.mem_map.mp hin
            exact hnew (hrow ▸ hstaged.pending_of_mem w hw)
          have hother : ∀ w ∈ writes, w.row ≠ reqIndex := by
            rintro w hw rfl
            exact hnotRow (List.mem_map_of_mem hw)
          by_cases hids : ids = []
          · -- nothing is staged: the row at most gets shorter
            subst hids
            refine ⟨writes, hflat, hstaged.nodup,
              fun w hw => List.mem_append_left _ (hstaged.pending_of_mem w hw), hstaged.row_lt,
              hstaged.start_le, ?_, ?_, ?_⟩
            · intro w hw
              rw [extend_of_ne given (hother w hw)]
              exact hstaged.given_eq w hw
            · intro r hr
              by_cases heq : r = reqIndex
              · subst heq
                rw [hextend, List.append_nil]
                exact hkept
              · rw [extend_of_ne given heq]
                exact hstaged.prefix_of_not_mem r hr
            · intro r hr
              rw [List.mem_append, not_or, List.mem_singleton] at hr
              rw [extend_of_ne given hr.2]
              exact hstaged.eq_of_not_pending r hr.1
          · refine ⟨writes ++ [⟨reqIndex, base.length, ids⟩], hflat.stageWrite hids _ _, ?_⟩
            have hmemWrites : ∀ {P : Write → Prop}, (∀ w ∈ writes, P w) →
                P ⟨reqIndex, base.length, ids⟩ →
                ∀ w ∈ writes ++ [⟨reqIndex, base.length, ids⟩], P w := by
              intro P hold hlast w hw
              rcases List.mem_append.mp hw with hw | hw
              · exact hold w hw
              · exact List.mem_singleton.mp hw ▸ hlast
            constructor
            case nodup =>
              rw [List.map_append]
              exact List.perm_append_comm.nodup_iff.mpr
                (List.nodup_cons.mpr ⟨hnotRow, hstaged.nodup⟩)
            case pending_of_mem =>
              apply hmemWrites
              · exact fun w hw => List.mem_append_left _ (hstaged.pending_of_mem w hw)
              · exact List.mem_append_right _ (List.mem_singleton.mpr rfl)
            case row_lt => exact hmemWrites hstaged.row_lt (Nat.not_le.mp hlt)
            case start_le => exact hmemWrites hstaged.start_le hkept.length_le
            case given_eq =>
              apply hmemWrites
              · intro w hw
                rw [extend_of_ne given (hother w hw)]
                exact hstaged.given_eq w hw
              · show extend given reqIndex ids overwrite reqIndex = _
                rw [hextend, ← List.prefix_iff_eq_take.mp hkept]
            case prefix_of_not_mem =>
              intro r hr
              rw [List.map_append, List.mem_append, not_or, List.map_singleton,
                List.mem_singleton] at hr
              rw [extend_of_ne given hr.2]
              exact hstaged.prefix_of_not_mem r hr.1
            case eq_of_not_pending =>
              intro r hr
              rw [List.mem_append, not_or, List.mem_singleton] at hr
              rw [extend_of_ne given hr.2]
              exact hstaged.eq_of_not_pending r hr.1

/-- A cell of a given id is stored to by the request's own write at most, and with
the id. -/
theorem stored_of_performed (hI : GroupInv given applied pending g) (order : Order Int)
    {r j : Nat} {id : Int} (hid : (given r)[j]? = some id) :
    perform order g.blockTable.gpu g.blockTable.applyWriteStores
      (cell g.maxNumBlocks r j) = id := by
  obtain ⟨writes, hflat, hstaged⟩ := hI.staged
  obtain ⟨hj, -⟩ := List.getElem?_eq_some_iff.mp hid
  have hjw : j < g.maxNumBlocks := Nat.lt_of_lt_of_le hj (hI.fits r)
  -- a store to this cell is one of the request's own write
  have hown : ∀ s ∈ g.blockTable.applyWriteStores, s.address = cell g.maxNumBlocks r j →
      ∃ w ∈ writes, w.row = r ∧ w.start ≤ j ∧ w.content[j - w.start]? = some s.value := by
    intro s hs ha
    obtain ⟨w, hw, b, v, hv, rfl⟩ := hflat.mem_applyWriteStores.mp hs
    obtain ⟨hb, -⟩ := List.getElem?_eq_some_iff.mp hv
    have hlen := congrArg List.length (hstaged.given_eq w hw)
    rw [List.length_append, List.length_take, Nat.min_eq_left (hstaged.start_le w hw)] at hlen
    have hfit := hI.fits w.row
    have hcell : cell g.maxNumBlocks _ _ = cell g.maxNumBlocks r j := ha
    obtain ⟨hrow, hcol⟩ := cell_inj (by omega) hjw hcell
    refine ⟨w, hw, hrow, by omega, ?_⟩
    rw [← hcol, Nat.add_sub_cancel_left]
    exact hv
  by_cases hr : r ∈ writes.map (·.row)
  · obtain ⟨w, hw, rfl⟩ := List.mem_map.mp hr
    have hgiven := hstaged.given_eq w hw
    have htake : ((applied w.row).take w.start).length = w.start :=
      List.length_take_of_le (hstaged.start_le w hw)
    rcases Nat.lt_or_ge j w.start with hlt | hge
    · -- before the write: as it was
      rw [hgiven, List.getElem?_append_left (by omega), List.getElem?_take_of_lt hlt] at hid
      rw [perform_of_untouched]
      · exact hI.stored w.row j id hid
      · intro s hs ha
        obtain ⟨w', hw', hrow, hle, -⟩ := hown s hs ha
        obtain rfl : w' = w := List.inj_on_of_nodup_map hstaged.nodup hw' hw hrow
        omega
    · rw [hgiven, List.getElem?_append_right (by omega), htake] at hid
      apply perform_of_agree
      · refine ⟨⟨cell g.maxNumBlocks w.row j, id⟩, ?_, rfl⟩
        apply hflat.mem_applyWriteStores.mpr
        refine ⟨w, hw, j - w.start, id, hid, ?_⟩
        rw [Nat.add_sub_cancel' hge]
        rfl
      · intro s hs ha
        obtain ⟨w', hw', hrow, -, hv⟩ := hown s hs ha
        obtain rfl : w' = w := List.inj_on_of_nodup_map hstaged.nodup hw' hw hrow
        rw [hid] at hv
        exact (Option.some.inj hv).symm
  · -- no write for the request
    obtain ⟨rest, hrest⟩ := hstaged.prefix_of_not_mem r hr
    rw [perform_of_untouched]
    · apply hI.stored r j id
      rw [← hrest, List.getElem?_append_left hj]
      exact hid
    · intro s hs ha
      obtain ⟨w, hw, hrow, -⟩ := hown s hs ha
      exact hr (hrow ▸ List.mem_map_of_mem hw)

/-- After `apply_staged_writes` all that was given is applied. -/
theorem applyStagedWrites (hI : GroupInv given applied pending g) {order : Order Int}
    (h : g.applyStagedWrites order = .ok g') :
    g'.maxNumBlocks = g.maxNumBlocks ∧ GroupInv given given [] g' := by
  have hempty : ∀ numRows, Staged given given [] numRows [] := by
    intro numRows
    refine ⟨List.nodup_nil, ?_, ?_, ?_, ?_, fun _ _ => List.prefix_refl _, fun _ _ => rfl⟩
    all_goals exact fun w hw => absurd hw List.not_mem_nil
  obtain ⟨writes, hflat, hstaged⟩ := hI.staged
  unfold GroupTables.applyStagedWrites StagedWriteTensor.applyWrite at h
  dsimp only at h
  by_cases hn : g.blockTable.stagedWriteIndices.length = 0
  · -- nothing is staged
    rw [if_pos hn] at h
    cases h
    have hnil : writes = [] := by
      rw [hflat.indices, List.length_map] at hn
      exact List.eq_nil_of_length_eq_zero hn
    subst hnil
    refine ⟨rfl, hI.numBlocks, hI.numBlocks, hI.fits, hI.fits, ?_, [], hflat, hempty _⟩
    intro r j id hid
    obtain ⟨rest, hrest⟩ := hstaged.prefix_of_not_mem r List.not_mem_nil
    apply hI.stored r j id
    rw [← hrest, List.getElem?_append_left (List.getElem?_eq_some_iff.mp hid).1]
    exact hid
  · rw [if_neg hn] at h
    split at h
    next => cases h
    next blockTable hok =>
      split at hok
      next => cases hok
      next =>
        cases hok
        cases h
        exact ⟨rfl, hI.numBlocks, hI.numBlocks, hI.fits, hI.fits,
          fun r j id hid => hI.stored_of_performed order hid, [], Flat.nil _, hempty _⟩

/-- Gathering writes to the input table only. -/
theorem gather (hI : GroupInv given applied pending g) (order : Order Int) (width : Nat)
    (idxMapping : List Nat) (numReqsPadded : Nat) :
    GroupInv given applied pending (g.gather order width idxMapping numReqsPadded) :=
  ⟨hI.numBlocks, hI.numBlocksGpu, hI.fits, hI.appliedFits, hI.stored, hI.staged⟩

end GroupInv

end VllmEngine.Runner
