import VllmEngine.Lib.Raises
import VllmEngine.Runner.BlockTables

/-!
# Gathered block tables

Runs of `BlockTables`: ids are appended, staged writes applied and tables
gathered, in any order. `TracedTables` keeps along with the tables what was given
to the requests.

The kernel zeroes padded rows with the width of the first group's table and the
stride of each group's own. That is right in a group exactly if its table is not
narrower, and what is beyond the width is zero already (`PaddingFits`):

> `GroupInv.gathersHeld_iff`: one group,
> `TracedTables.gathered_iff`: every group, after any run.
-/

namespace VllmEngine.Runner

open Python Stores

/-! ## One group -/

/-- The rows of a group's input table after a call, `g'`, are those of the requests,
padded with zeros, and the launch stored to no other rows. -/
structure RightRows (applied : Nat → List Int) (g g' : GroupTables) (width : Nat)
    (idxMapping : List Nat) (numReqsPadded : Nat) : Prop where
  ids : ∀ i r, idxMapping[i]? = some r → ∀ j id, (applied r)[j]? = some id →
    j < g.maxNumBlocks ∧ g'.inputBlockTable (cell g.maxNumBlocks i j) = id
  zeros : ∀ i, idxMapping.length ≤ i → i < numReqsPadded → ∀ c < g.maxNumBlocks,
    g'.inputBlockTable (cell g.maxNumBlocks i c) = 0
  inBounds : ∀ s ∈ g.gatherStores width idxMapping numReqsPadded,
    s.address < numReqsPadded * g.maxNumBlocks

/-- The kernel's width is right for the padded rows of a group. -/
def PaddingFits (g : GroupTables) (width : Nat) (idxMapping : List Nat) (numReqsPadded : Nat) :
    Prop :=
  ∀ i, idxMapping.length ≤ i → i < numReqsPadded → width ≤ g.maxNumBlocks ∧
    ∀ c, width ≤ c → c < g.maxNumBlocks → g.inputBlockTable (cell g.maxNumBlocks i c) = 0

section

variable {g : GroupTables} {width : Nat} {idxMapping : List Nat} {numReqsPadded : Nat}

/-- The stores of the launch: zeros in the padded rows, ids in the others. -/
theorem mem_gatherStores {s : Store Int} :
    s ∈ g.gatherStores width idxMapping numReqsPadded ↔ ∃ i < numReqsPadded,
      (idxMapping.length ≤ i ∧ ∃ c < width, s = ⟨cell g.maxNumBlocks i c, 0⟩) ∨
      ∃ r, idxMapping[i]? = some r ∧ ∃ c < g.numBlocksGpu r,
        s = ⟨cell g.maxNumBlocks i c, g.blockTable.gpu (cell g.maxNumBlocks r c)⟩ := by
  unfold GroupTables.gatherStores
  rw [List.mem_flatMap]
  constructor
  · rintro ⟨i, hi, hs⟩
    refine ⟨i, List.mem_range.mp hi, ?_⟩
    unfold GroupTables.gatherKernel at hs
    dsimp only at hs
    split at hs
    next hpad =>
      obtain ⟨c, hc, rfl⟩ := List.mem_map.mp hs
      exact Or.inl ⟨hpad, c, (mem_tiles laneTile_pos).mp hc, rfl⟩
    next hreq =>
      obtain ⟨c, hc, rfl⟩ := List.mem_map.mp hs
      have hlt : i < idxMapping.length := Nat.not_le.mp hreq
      rw [List.getD_eq_getElem _ _ hlt] at hc ⊢
      exact Or.inr ⟨_, List.getElem?_eq_getElem hlt, c, (mem_tiles laneTile_pos).mp hc, rfl⟩
  · rintro ⟨i, hi, hs⟩
    refine ⟨i, List.mem_range.mpr hi, ?_⟩
    unfold GroupTables.gatherKernel
    dsimp only
    rcases hs with ⟨hpad, c, hc, rfl⟩ | ⟨r, hr, c, hc, rfl⟩
    · rw [if_pos hpad]
      exact List.mem_map.mpr ⟨c, (mem_tiles laneTile_pos).mpr hc, rfl⟩
    · obtain ⟨hlt, rfl⟩ := List.getElem?_eq_some_iff.mp hr
      rw [if_neg (Nat.not_le.mpr hlt), List.getD_eq_getElem _ _ hlt]
      exact List.mem_map.mpr ⟨c, (mem_tiles laneTile_pos).mpr hc, rfl⟩

variable {given applied : Nat → List Int} {pending : List Nat}

/-- A request's row has the ids that were applied for it, whatever the padded rows
get: those lie behind. -/
theorem GroupInv.gathered_ids (hI : GroupInv given applied pending g) (order : Order Int)
    (hle : idxMapping.length ≤ numReqsPadded) {i r : Nat} (hr : idxMapping[i]? = some r) {j : Nat}
    {id : Int} (hid : (applied r)[j]? = some id) : j < g.maxNumBlocks ∧
      (g.gather order width idxMapping numReqsPadded).inputBlockTable
        (cell g.maxNumBlocks i j) = id := by
  obtain ⟨hi, -⟩ := List.getElem?_eq_some_iff.mp hr
  obtain ⟨hj, -⟩ := List.getElem?_eq_some_iff.mp hid
  have hjw : j < g.maxNumBlocks := Nat.lt_of_lt_of_le hj (hI.appliedFits r)
  refine ⟨hjw, perform_of_agree ?_ ?_⟩
  · refine ⟨⟨cell g.maxNumBlocks i j, id⟩, ?_, rfl⟩
    apply mem_gatherStores.mpr
    refine ⟨i, Nat.lt_of_lt_of_le hi hle, Or.inr ⟨r, hr, j, ?_, ?_⟩⟩
    · rw [hI.numBlocksGpu]
      exact hj
    · rw [hI.stored r j id hid]
  · intro s hs ha
    obtain ⟨b, -, ⟨hpad, c, -, rfl⟩ | ⟨r', hr', c, hc, rfl⟩⟩ := mem_gatherStores.mp hs
    · -- a padded row lies behind this one
      have hlt := cell_lt_of_row_lt (Nat.lt_of_lt_of_le hi hpad) hjw c
      exact absurd ha.symm (Nat.ne_of_lt hlt)
    · rw [hI.numBlocksGpu] at hc
      obtain ⟨rfl, rfl⟩ := cell_inj (Nat.lt_of_lt_of_le hc (hI.appliedFits r')) hjw ha
      obtain rfl : r' = r := Option.some.inj (hr'.symm.trans hr)
      exact hI.stored r' c id hid

/-- A padded row is written below the kernel's width only, and with zeros. -/
theorem GroupInv.gatherStores_padded (hI : GroupInv given applied pending g) (hwidth : width ≤ g.maxNumBlocks)
    {i c : Nat} (hpad : idxMapping.length ≤ i) (hcw : c < g.maxNumBlocks) {s : Store Int}
    (hs : s ∈ g.gatherStores width idxMapping numReqsPadded) (ha : s.1 = cell g.maxNumBlocks i c) :
    c < width ∧ s.2 = 0 := by
  obtain ⟨b, -, ⟨-, d, hd, rfl⟩ | ⟨r, hr, d, hd, rfl⟩⟩ := mem_gatherStores.mp hs
  · obtain ⟨-, rfl⟩ := cell_inj (Nat.lt_of_lt_of_le hd hwidth) hcw ha
    exact ⟨hd, rfl⟩
  · rw [hI.numBlocksGpu] at hd
    obtain ⟨rfl, -⟩ := cell_inj (Nat.lt_of_lt_of_le hd (hI.appliedFits r)) hcw ha
    have hlt := (List.getElem?_eq_some_iff.mp hr).1
    omega

/-- Beyond the kernel's width a padded row is left as it was. -/
theorem GroupInv.gathered_beyond (hI : GroupInv given applied pending g) (order : Order Int)
    (hwidth : width ≤ g.maxNumBlocks) {i c : Nat} (hpad : idxMapping.length ≤ i)
    (hc : width ≤ c) (hcw : c < g.maxNumBlocks) :
    (g.gather order width idxMapping numReqsPadded).inputBlockTable (cell g.maxNumBlocks i c) =
      g.inputBlockTable (cell g.maxNumBlocks i c) := by
  apply perform_of_untouched
  intro s hs ha
  exact absurd (hI.gatherStores_padded hwidth hpad hcw hs ha).1 (Nat.not_lt.mpr hc)

/-- Below the kernel's width it is zero. -/
theorem GroupInv.gathered_below (hI : GroupInv given applied pending g) (order : Order Int)
    (hwidth : width ≤ g.maxNumBlocks) {i c : Nat} (hpad : idxMapping.length ≤ i)
    (hi : i < numReqsPadded) (hc : c < width) :
    (g.gather order width idxMapping numReqsPadded).inputBlockTable (cell g.maxNumBlocks i c) =
      0 := by
  have hcw : c < g.maxNumBlocks := Nat.lt_of_lt_of_le hc hwidth
  apply perform_of_agree
  · exact ⟨⟨cell g.maxNumBlocks i c, 0⟩,
      mem_gatherStores.mpr ⟨i, hi, Or.inl ⟨hpad, c, hc, rfl⟩⟩, rfl⟩
  · intro s hs ha
    exact (hI.gatherStores_padded hwidth hpad hcw hs ha).2

theorem GroupInv.gathersHeld_iff (hI : GroupInv given applied pending g) (order : Order Int)
    (hle : idxMapping.length ≤ numReqsPadded) :
    RightRows applied g (g.gather order width idxMapping numReqsPadded) width idxMapping
      numReqsPadded ↔ PaddingFits g width idxMapping numReqsPadded := by
  constructor
  · intro h i hpad hi
    have hwidth : width ≤ g.maxNumBlocks := by
      -- the last lane of the last row stays in the table
      rcases Nat.eq_zero_or_pos width with hzero | hpos
      · rw [hzero]
        exact Nat.zero_le _
      · have hb := h.inBounds ⟨cell g.maxNumBlocks (numReqsPadded - 1) (width - 1), 0⟩
          (mem_gatherStores.mpr ⟨numReqsPadded - 1, by omega,
            Or.inl ⟨by omega, width - 1, by omega, rfl⟩⟩)
        have hrows : numReqsPadded * g.maxNumBlocks =
            (numReqsPadded - 1) * g.maxNumBlocks + g.maxNumBlocks := by
          obtain ⟨n, rfl⟩ := Nat.exists_eq_add_of_lt (Nat.lt_of_le_of_lt (Nat.zero_le i) hi)
          rw [Nat.zero_add, Nat.add_sub_cancel, Nat.add_mul, Nat.one_mul]
        unfold cell at hb
        dsimp only at hb
        omega
    refine ⟨hwidth, fun c hc hcw => ?_⟩
    rw [← hI.gathered_beyond order hwidth hpad hc hcw]
    exact h.zeros i hpad hi c hcw
  · intro h
    constructor
    case ids =>
      intro i r hr j id hid
      exact hI.gathered_ids order hle hr hid
    case zeros =>
      intro i hpad hi c hcw
      obtain ⟨hwidth, hzero⟩ := h i hpad hi
      rcases Nat.lt_or_ge c width with hc | hc
      · exact hI.gathered_below order hwidth hpad hi hc
      · rw [hI.gathered_beyond order hwidth hpad hc hcw]
        exact hzero c hc hcw
    case inBounds =>
      intro s hs
      obtain ⟨b, hb, ⟨hpad, c, hc, rfl⟩ | ⟨r, hr, c, hc, rfl⟩⟩ := mem_gatherStores.mp hs
      · exact cell_lt hb (Nat.lt_of_lt_of_le hc (h b hpad hb).1)
      · rw [hI.numBlocksGpu] at hc
        exact cell_lt hb (Nat.lt_of_lt_of_le hc (hI.appliedFits r))

end

/-! ## Runs -/

/-- The calls of `BlockTables`; the device chooses the order of a launch's stores. -/
inductive TablesOp
  | appendBlockIds (reqIndex : Nat) (newBlockIds : List (List Int)) (overwrite : Bool)
  | applyStagedWrites (order : Order Int)
  | gatherBlockTables (order : Order Int) (idxMapping : List Nat) (numReqsPadded : Nat)

/-- The tables, and what was given to the requests in each group. -/
structure TracedTables where
  tables : BlockTables
  /-- The ids given to a request since its last overwrite, by group. -/
  given : Nat → Nat → List Int
  /-- The same, as of the last `apply_staged_writes`. -/
  applied : Nat → Nat → List Int
  /-- The requests of the calls since then. -/
  pending : List Nat

/-- The width that the kernel gets. -/
def BlockTables.kernelWidth (b : BlockTables) : Nat :=
  match b.groups with
  | [] => 0
  | g :: _ => g.maxNumBlocks

theorem BlockTables.appendBlockIds_groups {b b' : BlockTables} {reqIndex : Nat}
    {newBlockIds : List (List Int)} {overwrite : Bool}
    (h : b.appendBlockIds reqIndex newBlockIds overwrite = .ok b') :
    appendRounds reqIndex overwrite b.groups newBlockIds = .ok b'.groups := by
  unfold BlockTables.appendBlockIds at h
  split at h
  next => cases h
  next groups hok =>
    cases h
    exact hok

theorem BlockTables.applyStagedWrites_groups {b b' : BlockTables} {order : Order Int}
    (h : b.applyStagedWrites order = .ok b') :
    b.groups.mapM (GroupTables.applyStagedWrites order) = .ok b'.groups := by
  unfold BlockTables.applyStagedWrites at h
  split at h
  next => cases h
  next groups hok =>
    cases h
    exact hok

theorem BlockTables.gatherBlockTables_groups {b b' : BlockTables} {order : Order Int}
    {idxMapping : List Nat} {numReqsPadded : Nat}
    (h : b.gatherBlockTables order idxMapping numReqsPadded = .ok b') :
    b'.groups = b.groups.map
      (GroupTables.gather order b.kernelWidth idxMapping numReqsPadded) := by
  unfold BlockTables.gatherBlockTables at h
  unfold BlockTables.kernelWidth
  split at h
  next => cases h
  next g gs hgroups =>
    cases h
    rw [hgroups]

namespace TracedTables

def start (b : BlockTables) : TracedTables := ⟨b, fun _ _ => [], fun _ _ => [], []⟩

def step (t : TracedTables) : TablesOp → Except Error TracedTables
  | .appendBlockIds reqIndex newBlockIds overwrite =>
    match t.tables.appendBlockIds reqIndex newBlockIds overwrite with
    | .error e => .error e
    | .ok tables =>
      .ok { t with
        tables := tables
        given := fun k =>
          GroupInv.extend (t.given k) reqIndex (newBlockIds[k]?.getD []) overwrite
        pending := t.pending ++ [reqIndex] }
  | .applyStagedWrites order =>
    match t.tables.applyStagedWrites order with
    | .error e => .error e
    | .ok tables => .ok { tables := tables, given := t.given, applied := t.given, pending := [] }
  | .gatherBlockTables order idxMapping numReqsPadded =>
    match t.tables.gatherBlockTables order idxMapping numReqsPadded with
    | .error e => .error e
    | .ok tables => .ok { t with tables := tables }

/-- A request gets one call between two applications. -/
def OncePerApply (t : TracedTables) : TablesOp → Prop
  | .appendBlockIds reqIndex _ _ => reqIndex ∉ t.pending
  | _ => True

/-- The ids of the request fit in its row of every group. -/
def Fits (t : TracedTables) : TablesOp → Prop
  | .appendBlockIds reqIndex newBlockIds overwrite => ∀ k g, t.tables.groups[k]? = some g →
      (GroupInv.extend (t.given k) reqIndex (newBlockIds[k]?.getD []) overwrite reqIndex).length ≤
        g.maxNumBlocks
  | _ => True

/-- Every group is what the calls made it. -/
structure Tracked (t : TracedTables) : Prop where
  groups : ∀ k g, t.tables.groups[k]? = some g →
    GroupInv (t.given k) (t.applied k) t.pending g
  applied_eq : ∀ k r, r ∉ t.pending → t.applied k r = t.given k r

theorem Tracked.start {blockSizes : List Nat} {maxNumReqs maxModelLen cpSize : Nat}
    {b : BlockTables} (h : BlockTables.init blockSizes maxNumReqs maxModelLen cpSize = .ok b) :
    Tracked (start b) := by
  unfold BlockTables.init at h
  split at h
  next => cases h
  next groups hok =>
    cases h
    constructor
    case groups =>
      intro k g hg
      obtain ⟨blockSize, -, hinit⟩ := Raises.getElem?_left (Raises.mapM_ok hok) hg
      exact GroupInv.init hinit
    case applied_eq => exact fun _ _ _ => rfl

/-- The rounds of `append_block_ids` are one for each group. -/
theorem appendRounds_getElem? {reqIndex : Nat} {overwrite : Bool} :
    ∀ {gs gs' : List GroupTables} {newBlockIds : List (List Int)},
      BlockTables.appendRounds reqIndex overwrite gs newBlockIds = .ok gs' →
      ∀ {k : Nat} {g' : GroupTables}, gs'[k]? = some g' → ∃ g, gs[k]? = some g ∧
        g.appendBlockIds reqIndex newBlockIds[k]? overwrite = .ok g'
  | [], gs', newBlockIds, h, k, g', hg' => by
    cases h
    cases hg'
  | g :: gs, gs', newBlockIds, h, k, g', hg' => by
    unfold BlockTables.appendRounds at h
    split at h
    next => cases h
    next g₁ hfirst =>
      split at h
      next => cases h
      next gs₁ hrest =>
        cases h
        cases k with
        | zero =>
          obtain rfl : g₁ = g' := Option.some.inj hg'
          refine ⟨g, rfl, ?_⟩
          rw [← List.head?_eq_getElem?]
          exact hfirst
        | succ k =>
          obtain ⟨g₂, hg₂, hstep⟩ := appendRounds_getElem? hrest hg'
          rw [List.getElem?_tail] at hstep
          exact ⟨g₂, hg₂, hstep⟩

theorem Tracked.step {t t' : TracedTables} {op : TablesOp} (hI : t.Tracked)
    (hguard : t.OncePerApply op ∧ t.Fits op) (h : t.step op = .ok t') : t'.Tracked := by
  cases op with
  | appendBlockIds reqIndex newBlockIds overwrite =>
    obtain ⟨hnew, hfits⟩ := hguard
    unfold TracedTables.step at h
    dsimp only at h
    split at h
    next => cases h
    next tables hok =>
      cases h
      constructor
      case groups =>
        intro k g' hg'
        obtain ⟨g, hg, hround⟩ :=
          appendRounds_getElem? (BlockTables.appendBlockIds_groups hok) hg'
        exact ((hI.groups k g hg).appendBlockIds hround hnew (hfits k g hg)).2
      case applied_eq =>
        intro k r hr
        rw [List.mem_append, not_or, List.mem_singleton] at hr
        exact (hI.applied_eq k r hr.1).trans (GroupInv.extend_of_ne _ hr.2 _ _).symm
  | applyStagedWrites order =>
    unfold TracedTables.step at h
    dsimp only at h
    split at h
    next => cases h
    next tables hok =>
      cases h
      constructor
      case groups =>
        intro k g' hg'
        obtain ⟨g, hg, happly⟩ :=
          Raises.getElem?_left (Raises.mapM_ok (BlockTables.applyStagedWrites_groups hok)) hg'
        exact ((hI.groups k g hg).applyStagedWrites happly).2
      case applied_eq => exact fun _ _ _ => rfl
  | gatherBlockTables order idxMapping numReqsPadded =>
    unfold TracedTables.step at h
    dsimp only at h
    split at h
    next => cases h
    next tables hok =>
      cases h
      constructor
      case groups =>
        intro k g' hg'
        rw [BlockTables.gatherBlockTables_groups hok, List.getElem?_map] at hg'
        obtain ⟨g, hg, rfl⟩ := Option.map_eq_some_iff.mp hg'
        exact (hI.groups k g hg).gather order _ idxMapping numReqsPadded
      case applied_eq => exact hI.applied_eq

/-- After any run, the gathered tables are right in every group if and only if the
padded rows of every group fit the kernel's width. -/
theorem gathered_iff {blockSizes : List Nat} {maxNumReqs maxModelLen cpSize : Nat}
    {b : BlockTables} (hinit : BlockTables.init blockSizes maxNumReqs maxModelLen cpSize = .ok b)
    {ops : List TablesOp} {t t' : TracedTables}
    (hguard : Run.Guarded step (fun t op => t.OncePerApply op ∧ t.Fits op) (start b) ops)
    (hrun : Run.exec step (start b) ops = .ok t) {order : Order Int} {idxMapping : List Nat}
    {numReqsPadded : Nat} (hle : idxMapping.length ≤ numReqsPadded)
    (hgather : t.step (.gatherBlockTables order idxMapping numReqsPadded) = .ok t') :
    (∀ k r, r ∉ t.pending → t.applied k r = t.given k r) ∧
      ((∀ (k : Nat) g g', t.tables.groups[k]? = some g → t'.tables.groups[k]? = some g' →
          RightRows (t.applied k) g g' t.tables.kernelWidth idxMapping numReqsPadded) ↔
        ∀ (k : Nat) g, t.tables.groups[k]? = some g →
          PaddingFits g t.tables.kernelWidth idxMapping numReqsPadded) := by
  have hI : t.Tracked :=
    Run.exec_inv (fun s op s' hs hg hstep => hs.step hg hstep) ops (start b) t
      (Tracked.start hinit) hguard hrun
  refine ⟨hI.applied_eq, ?_⟩
  -- each group is gathered with the kernel's width
  have hgroup : ∀ (k : Nat) g, t.tables.groups[k]? = some g → t'.tables.groups[k]? =
      some (g.gather order t.tables.kernelWidth idxMapping numReqsPadded) := by
    intro k g hg
    unfold TracedTables.step at hgather
    dsimp only at hgather
    split at hgather
    next => cases hgather
    next tables hok =>
      cases hgather
      rw [BlockTables.gatherBlockTables_groups hok, List.getElem?_map, hg]
      rfl
  constructor
  · intro h k g hg
    exact ((hI.groups k g hg).gathersHeld_iff order hle).mp (h k g _ hg (hgroup k g hg))
  · intro h k g g' hg hg'
    obtain rfl : _ = g' := Option.some.inj ((hgroup k g hg).symm.trans hg')
    exact ((hI.groups k g hg).gathersHeld_iff order hle).mpr (h k g hg)

/-! ## Two groups -/

/-- New tables for two requests, of the given widths. -/
def newTables (widths : List Nat) : BlockTables :=
  ⟨widths.map fun width =>
    { blockTable := StagedWriteTensor.init 2 width
      numBlocks := fun _ => 0
      numBlocksGpu := fun _ => 0
      inputBlockTable := fun _ => 0 }⟩

/-- Ids for the first request in both groups, applied. -/
def oneRequest : List TablesOp :=
  [.appendBlockIds 0 [[7], [8, 9]] true, .applyStagedWrites Order.inOrder]

theorem oneRequest_guarded {b : BlockTables}
    (hwide : ∀ (k : Nat) g, b.groups[k]? = some g → 2 ≤ g.maxNumBlocks) :
    Run.Guarded step (fun t op => t.OncePerApply op ∧ t.Fits op) (start b) oneRequest := by
  refine ⟨⟨List.not_mem_nil, ?_⟩, fun _ _ => ⟨⟨trivial, trivial⟩, fun _ _ => trivial⟩⟩
  intro k g hg
  have hlen : ∀ k : Nat, (([[7], [8, 9]] : List (List Int))[k]?.getD []).length ≤ 2 := by
    intro k
    match k with
    | 0 => decide
    | 1 => decide
    | _ + 2 => exact Nat.zero_le 2
  rw [GroupInv.extend_self]
  exact Nat.le_trans (hlen k) (hwide k g hg)

/-- The first group's table is the narrower one, and the tables are new. -/
theorem new_tables_gathered : ∃ t t', Run.exec step (start (newTables [2, 4])) oneRequest = .ok t ∧
    t.step (.gatherBlockTables Order.inOrder [0] 2) = .ok t' ∧
    (∀ k r, r ∉ t.pending → t.applied k r = t.given k r) ∧
      ((∀ (k : Nat) g g', t.tables.groups[k]? = some g → t'.tables.groups[k]? = some g' →
          RightRows (t.applied k) g g' t.tables.kernelWidth [0] 2) ↔
        ∀ (k : Nat) g, t.tables.groups[k]? = some g →
          PaddingFits g t.tables.kernelWidth [0] 2) := by
  have hinit : BlockTables.init [2, 1] 2 4 1 = .ok (newTables [2, 4]) := rfl
  have hguard := oneRequest_guarded (b := newTables [2, 4]) (by
    intro k g hg
    match k with
    | 0 =>
      cases hg
      decide
    | 1 =>
      cases hg
      decide
    | k + 2 => cases hg)
  obtain ⟨t, ht⟩ := Raises.exists_of_isOk
    (x := Run.exec step (start (newTables [2, 4])) oneRequest) rfl
  obtain ⟨t', ht'⟩ : ∃ t', t.step (.gatherBlockTables Order.inOrder [0] 2) = .ok t' := by
    cases ht
    exact ⟨_, rfl⟩
  exact ⟨t, t', ht, ht', gathered_iff hinit hguard ht (by decide) ht'⟩

/-- With the wider table first, the padded row of the other group is overrun: the
launch zeroes two columns behind the group's table. -/
theorem padded_row_overruns :
    ¬ ∀ (blockSizes : List Nat) (maxNumReqs maxModelLen cpSize : Nat) (b : BlockTables)
        (ops : List TablesOp) (t t' : TracedTables) (order : Order Int) (idxMapping : List Nat)
        (numReqsPadded : Nat),
        BlockTables.init blockSizes maxNumReqs maxModelLen cpSize = .ok b →
        Run.Guarded step (fun t op => t.OncePerApply op ∧ t.Fits op) (start b) ops →
        Run.exec step (start b) ops = .ok t →
        idxMapping.length ≤ numReqsPadded → numReqsPadded ≤ maxNumReqs →
        (∀ r ∈ idxMapping, r < maxNumReqs) →
        t.step (.gatherBlockTables order idxMapping numReqsPadded) = .ok t' →
        ∀ (k : Nat) g g', t.tables.groups[k]? = some g → t'.tables.groups[k]? = some g' →
          RightRows (t.applied k) g g' t.tables.kernelWidth idxMapping numReqsPadded := by
  intro h
  have hinit : BlockTables.init [1, 2] 2 4 1 = .ok (newTables [4, 2]) := rfl
  have hright := h [1, 2] 2 4 1 _ [] _ _ Order.inOrder [0] 2 hinit trivial rfl (by decide)
    (by decide) (by decide) rfl 1 _ _ rfl rfl
  have hstore := hright.inBounds ⟨5, 0⟩
    (mem_gatherStores.mpr ⟨1, by decide, Or.inl ⟨by decide, 3, by decide, rfl⟩⟩)
  exact absurd hstore (by decide)

end TracedTables

end VllmEngine.Runner
