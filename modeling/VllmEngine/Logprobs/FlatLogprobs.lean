import VllmEngine.Lib.Dict
import VllmEngine.Lib.Slices

/-!
# Logprobs in flat lists

`FlatLogprobs` and `append_logprobs_for_next_position` (`vllm/logprobs.py`): the
logprobs of all positions one after the other in four lists, with the bounds of each
position in two more. It "could act as `list[LogprobsOnePosition]`".

`flatten bounds items` is the container with these bounds over these items, and
`Represents` says which dictionaries it stands for. Each call keeps this, except for a
slice without a position, whose first bound is read nevertheless:

> `listLike_iff`: a run acts as the same run on a list exactly if each slice in it
> chooses a position.

Mirroring notes:
- A logprob is a value of any type.
- Slices have a positive step, so the first position chosen starts first and nothing is
  subtracted from a smaller start. Bounds are natural numbers.
- The generator of `__iter__` is read to its end.
-/

namespace VllmEngine.Logprobs

open Python

variable {F : Type}

structure Logprob (F : Type) where
  logprob : F
  rank : Option Int
  decodedToken : Option String
deriving DecidableEq

abbrev LogprobsOnePosition (F : Type) : Type := Dict Int (Logprob F)

/-- The list that a `FlatLogprobs` stands for; `None` at a position without logprobs. -/
abbrev Positions (F : Type) : Type := List (Option (LogprobsOnePosition F))

structure FlatLogprobs (F : Type) where
  startIndices : List Nat
  endIndices : List Nat
  tokenIds : List Int
  logprobs : List F
  ranks : List (Option Int)
  decodedTokens : List (Option String)
deriving DecidableEq

/-- What `zip(token_ids, logprobs, ranks, decoded_tokens)` yields, with the ranks
`chain((rank,), range(1, num_logprobs + 1))`. -/
def nextItems (tokenIds : List Int) (logprobs : List F) (decodedTokens : List (Option String))
    (rank numLogprobs : Int) : List (Int × Logprob F) :=
  let numLogprobs := if numLogprobs = -1 then (logprobs.length : Int) else numLogprobs
  let topkRanks := (List.range numLogprobs.toNat).map fun i => (i : Int) + 1
  let ranks := rank :: topkRanks
  tokenIds.zip (((logprobs.zip ranks).zip decodedTokens).map fun e => ⟨e.1.1, some e.1.2, e.2⟩)

namespace FlatLogprobs

/-- `FlatLogprobs()`. -/
def empty : FlatLogprobs F := ⟨[], [], [], [], [], []⟩

/-- The body of the two appending loops. -/
def push (flat : FlatLogprobs F) (item : Int × Logprob F) : FlatLogprobs F :=
  { flat with
    tokenIds := flat.tokenIds ++ [item.1]
    logprobs := flat.logprobs ++ [item.2.logprob]
    ranks := flat.ranks ++ [item.2.rank]
    decodedTokens := flat.decodedTokens ++ [item.2.decodedToken] }

/-- The start of a position, its items, its end. -/
def appendItems (flat : FlatLogprobs F) (items : List (Int × Logprob F)) : FlatLogprobs F :=
  let flat := { flat with startIndices := flat.startIndices ++ [flat.logprobs.length] }
  let flat := items.foldl push flat
  { flat with endIndices := flat.endIndices ++ [flat.logprobs.length] }

/-- `append`. `None` and the empty dictionary have no items. -/
def append (flat : FlatLogprobs F) (logprobsOnePosition : Option (LogprobsOnePosition F)) :
    FlatLogprobs F :=
  flat.appendItems ((logprobsOnePosition.map Dict.entries).getD [])

/-- `append_fast`, with what its zip yields. -/
def appendFast (flat : FlatLogprobs F) (items : List (Int × Logprob F)) : FlatLogprobs F :=
  flat.appendItems items

/-- `extend`. -/
def extend (flat : FlatLogprobs F) (logprobsMultiPositions : Positions F) : FlatLogprobs F :=
  logprobsMultiPositions.foldl append flat

/-- `__len__`. -/
def len (flat : FlatLogprobs F) : Nat := flat.startIndices.length

/-- One item of the dictionary that `__getitem__` builds. -/
def item (flat : FlatLogprobs F) (i : Nat) : Except Error (Int × Logprob F) := do
  let tokenId ← getItem flat.tokenIds i
  let logprob ← getItem flat.logprobs i
  let rank ← getItem flat.ranks i
  let decodedToken ← getItem flat.decodedTokens i
  return (tokenId, ⟨logprob, rank, decodedToken⟩)

/-- `__getitem__` with an integer. -/
def getPosition (flat : FlatLogprobs F) (index : Int) : Except Error (LogprobsOnePosition F) := do
  let start ← getItem flat.startIndices index
  let stop ← getItem flat.endIndices index
  let items ← (List.range' start (stop - start)).mapM flat.item
  return Dict.ofItems items

/-- `__getitem__` with a slice. -/
def getPositions (flat : FlatLogprobs F) (s : Slice) : Except Error (FlatLogprobs F) := do
  let minIndex ← getItem (getSlice flat.startIndices s) 0
  let maxIndex ← getItem (getSlice flat.endIndices s) (-1)
  return {
    startIndices := (getSlice flat.startIndices s).map (· - minIndex)
    endIndices := (getSlice flat.endIndices s).map (· - minIndex)
    tokenIds := slice flat.tokenIds minIndex maxIndex
    logprobs := slice flat.logprobs minIndex maxIndex
    ranks := slice flat.ranks minIndex maxIndex
    decodedTokens := slice flat.decodedTokens minIndex maxIndex }

/-- `__iter__`. -/
def iter (flat : FlatLogprobs F) : Except Error (List (LogprobsOnePosition F)) :=
  (List.range flat.startIndices.length).mapM fun i : Nat => flat.getPosition i

end FlatLogprobs

/-! ## Runs -/

/-- The calls that a container gets. A slice is what goes on being used. -/
inductive Call (F : Type)
  | append (position : Option (LogprobsOnePosition F))
  | extend (positions : Positions F)
  | appendNext (tokenIds : List Int) (logprobs : List F) (decodedTokens : List (Option String))
      (rank numLogprobs : Int)
  | slice (s : Slice)

/-- A call on a `FlatLogprobs`; `append_logprobs_for_next_position` goes to `append_fast`. -/
def FlatLogprobs.call (flat : FlatLogprobs F) : Call F → Except Error (FlatLogprobs F)
  | .append position => .ok (flat.append position)
  | .extend positions => .ok (flat.extend positions)
  | .appendNext tokenIds logprobs decodedTokens rank numLogprobs =>
    .ok (flat.appendFast (nextItems tokenIds logprobs decodedTokens rank numLogprobs))
  | .slice s => flat.getPositions s

/-- The call on a list. -/
def listCall (xs : Positions F) : Call F → Positions F
  | .append position => xs ++ [position]
  | .extend positions => xs ++ positions
  | .appendNext tokenIds logprobs decodedTokens rank numLogprobs =>
    xs ++ [some (Dict.ofItems (nextItems tokenIds logprobs decodedTokens rank numLogprobs))]
  | .slice s => getSlice xs s

def FlatLogprobs.run (flat : FlatLogprobs F) (calls : List (Call F)) :
    Except Error (FlatLogprobs F) := calls.foldlM FlatLogprobs.call flat

def listRun (xs : Positions F) (calls : List (Call F)) : Positions F := calls.foldl listCall xs

/-- `None` read as the empty dictionary. -/
def reading (position : Option (LogprobsOnePosition F)) : LogprobsOnePosition F :=
  position.getD Dict.empty

/-- The container acts as the list. -/
structure ActsAs (flat : FlatLogprobs F) (xs : Positions F) : Prop where
  len : flat.len = xs.length
  position : ∀ index : Int, flat.getPosition index = (getItem xs index).map reading
  iter : flat.iter = .ok (xs.map reading)

/-- Each slice of the run chooses a position. -/
def SlicesNonempty : Positions F → List (Call F) → Prop
  | _, [] => True
  | xs, c :: calls =>
    (∀ s, c = .slice s → getSlice xs s ≠ []) ∧ SlicesNonempty (listCall xs c) calls

end VllmEngine.Logprobs

/-!
## `FlatLogprobs` acts as a list

A container is `flatten bounds items`: the bounds are in order and inside of the items,
and each position stands for the dictionary of its segment. Appending adds a segment at
the end. A slice chooses bounds, and moves them together with the items between the first
chosen start and the last chosen end.
-/

namespace VllmEngine.Logprobs

open Python

variable {F : Type}

/-- The items between two bounds. -/
def segment (items : List (Int × Logprob F)) (b : Nat × Nat) : List (Int × Logprob F) :=
  (items.take b.2).drop b.1

/-- The container with these bounds over these items. -/
def flatten (bounds : List (Nat × Nat)) (items : List (Int × Logprob F)) : FlatLogprobs F where
  startIndices := bounds.map Prod.fst
  endIndices := bounds.map Prod.snd
  tokenIds := items.map Prod.fst
  logprobs := items.map fun e => e.2.logprob
  ranks := items.map fun e => e.2.rank
  decodedTokens := items.map fun e => e.2.decodedToken

/-- Segments of `n` items, from left to right. -/
structure Bounded (bounds : List (Nat × Nat)) (n : Nat) : Prop where
  inside : ∀ b ∈ bounds, b.1 ≤ b.2 ∧ b.2 ≤ n
  ordered : bounds.Pairwise fun b c => b.2 ≤ c.1

/-- The container stands for these dictionaries. -/
structure Represents (flat : FlatLogprobs F) (ds : List (LogprobsOnePosition F)) : Prop where
  exists_flatten : ∃ bounds items, flat = flatten bounds items ∧ Bounded bounds items.length ∧
    ds = bounds.map fun b => Dict.ofItems (segment items b)

theorem represents_empty : Represents (FlatLogprobs.empty : FlatLogprobs F) [] :=
  ⟨[], [], rfl, ⟨fun _ h => absurd h List.not_mem_nil, List.Pairwise.nil⟩, rfl⟩

/-! ## Appending -/

theorem foldl_push (bounds : List (Nat × Nat)) (starts : List Nat) :
    ∀ (new items : List (Int × Logprob F)),
      new.foldl FlatLogprobs.push { flatten bounds items with startIndices := starts } =
        { flatten bounds (items ++ new) with startIndices := starts }
  | [], items => by
    rw [List.append_nil]
    rfl
  | item :: new, items => by
    have hpush : FlatLogprobs.push { flatten bounds items with startIndices := starts } item =
        { flatten bounds (items ++ [item]) with startIndices := starts } := by
      simp only [FlatLogprobs.push, flatten, List.map_append, List.map_cons, List.map_nil]
    rw [List.foldl_cons, hpush, foldl_push bounds starts new (items ++ [item]),
      List.append_assoc]
    rfl

theorem appendItems_flatten (bounds : List (Nat × Nat)) (items new : List (Int × Logprob F)) :
    (flatten bounds items).appendItems new =
      flatten (bounds ++ [(items.length, items.length + new.length)]) (items ++ new) := by
  unfold FlatLogprobs.appendItems
  dsimp only
  rw [show (flatten bounds items).logprobs.length = items.length from List.length_map _]
  rw [show ({ flatten bounds items with
      startIndices := (flatten bounds items).startIndices ++ [items.length] } : FlatLogprobs F) =
    { flatten bounds items with
      startIndices := bounds.map Prod.fst ++ [items.length] } from rfl]
  rw [foldl_push]
  simp only [flatten, List.length_map, List.length_append, List.map_append, List.map_cons,
    List.map_nil]

variable {b : Nat × Nat} {bounds : List (Nat × Nat)} {flat : FlatLogprobs F}
  {ds : List (LogprobsOnePosition F)}

theorem segment_append_left (items new : List (Int × Logprob F)) (h : b.2 ≤ items.length) :
    segment (items ++ new) b = segment items b := by
  unfold segment
  rw [List.take_append_of_le_length h]

theorem segment_append_right (items new : List (Int × Logprob F)) :
    segment (items ++ new) (items.length, items.length + new.length) = new := by
  unfold segment
  rw [List.take_of_length_le (Nat.le_of_eq List.length_append), List.drop_left]

theorem Bounded.append {n : Nat} (h : Bounded bounds n) (k : Nat) :
    Bounded (bounds ++ [(n, n + k)]) (n + k) where
  inside b hb := by
    rcases List.mem_append.mp hb with hb | hb
    · have := h.inside b hb
      exact ⟨this.1, by omega⟩
    · rw [List.mem_singleton.mp hb]
      exact ⟨Nat.le_add_right n k, Nat.le_refl _⟩
  ordered := by
    apply List.pairwise_append.mpr
    refine ⟨h.ordered, List.pairwise_singleton _ _, ?_⟩
    intro b hb c hc
    rw [List.mem_singleton.mp hc]
    exact (h.inside b hb).2

theorem Represents.appendItems (h : Represents flat ds) (new : List (Int × Logprob F)) :
    Represents (flat.appendItems new) (ds ++ [Dict.ofItems new]) := by
  obtain ⟨bounds, items, rfl, hb, rfl⟩ := h.exists_flatten
  refine ⟨bounds ++ [(items.length, items.length + new.length)], items ++ new,
    appendItems_flatten bounds items new, ?_, ?_⟩
  · rw [List.length_append]
    exact hb.append new.length
  · rw [List.map_append, List.map_singleton, segment_append_right]
    congr 1
    apply List.map_congr_left
    intro b hmem
    rw [segment_append_left items new (hb.inside b hmem).2]

theorem Represents.append (h : Represents flat ds) (position : Option (LogprobsOnePosition F)) :
    Represents (flat.append position) (ds ++ [reading position]) := by
  have hread : Dict.ofItems ((position.map Dict.entries).getD []) = reading position := by
    cases position with
    | none => rfl
    | some d => exact Dict.ofItems_entries d
  have := h.appendItems ((position.map Dict.entries).getD [])
  rw [hread] at this
  exact this

theorem Represents.extend : ∀ {positions : Positions F} {flat : FlatLogprobs F}
    {ds : List (LogprobsOnePosition F)}, Represents flat ds →
      Represents (flat.extend positions) (ds ++ positions.map reading)
  | [], _, ds, h => by
    rw [List.map_nil, List.append_nil]
    exact h
  | position :: positions, flat, ds, h => by
    have hrest : Represents ((flat.append position).extend positions)
        (ds ++ [reading position] ++ positions.map reading) := (h.append position).extend
    rw [List.append_assoc] at hrest
    exact hrest

/-! ## Reading -/

theorem item_flatten (bounds : List (Nat × Nat)) (items : List (Int × Logprob F)) {i : Nat}
    {e : Int × Logprob F} (h : items[i]? = some e) : (flatten bounds items).item i = .ok e := by
  have hget : getItem items (i : Int) = .ok e := getItem_natCast h
  unfold FlatLogprobs.item flatten
  simp only [getItem_map, hget]
  rfl

theorem getPosition_flatten {items : List (Int × Logprob F)} (hb : Bounded bounds items.length)
    (index : Int) :
    (flatten bounds items).getPosition index =
      (getItem bounds index).map fun b => Dict.ofItems (segment items b) := by
  have hstart : getItem (flatten bounds items).startIndices index =
      (getItem bounds index).map Prod.fst := getItem_map _ _ _
  have hstop : getItem (flatten bounds items).endIndices index =
      (getItem bounds index).map Prod.snd := getItem_map _ _ _
  unfold FlatLogprobs.getPosition
  rw [hstart, hstop]
  cases hget : getItem bounds index with
  | error e => rfl
  | ok b =>
    have hin := hb.inside b (mem_of_getItem hget)
    have hitems : (List.range' b.1 (b.2 - b.1)).mapM (flatten bounds items).item =
        .ok (segment items b) := by
      rw [mapM_range' (fun i e he => item_flatten bounds items he) (by omega)]
      unfold segment
      rw [List.drop_take]
    show ((List.range' b.1 (b.2 - b.1)).mapM (flatten bounds items).item >>= _) = _
    rw [hitems]
    rfl

theorem Represents.getPosition (h : Represents flat ds) (index : Int) :
    flat.getPosition index = getItem ds index := by
  obtain ⟨bounds, items, rfl, hb, rfl⟩ := h.exists_flatten
  rw [getPosition_flatten hb, getItem_map]

theorem Represents.len (h : Represents flat ds) : flat.len = ds.length := by
  obtain ⟨bounds, items, rfl, -, rfl⟩ := h.exists_flatten
  rw [List.length_map]
  exact List.length_map _

theorem Represents.iter (h : Represents flat ds) : flat.iter = .ok ds := by
  have hpos : ∀ (i : Nat) d, ds[i]? = some d → flat.getPosition (i : Int) = .ok d := by
    intro i d hi
    rw [h.getPosition]
    exact getItem_natCast hi
  have hlen : flat.startIndices.length = ds.length := h.len
  unfold FlatLogprobs.iter
  rw [hlen, List.range_eq_range', mapM_range' hpos (Nat.le_of_eq (Nat.zero_add _)),
    List.drop_zero, List.take_length]

theorem Represents.actsAs {xs : Positions F} (h : Represents flat (xs.map reading)) :
    ActsAs flat xs where
  len := by
    rw [h.len, List.length_map]
  position index := by
    rw [h.getPosition, getItem_map]
  iter := h.iter

/-! ## Slicing -/

theorem Bounded.head_le {n : Nat} (h : Bounded (b :: bounds) n) {c : Nat × Nat}
    (hc : c ∈ b :: bounds) : b.1 ≤ c.1 := by
  rcases List.mem_cons.mp hc with rfl | hc
  · exact Nat.le_refl _
  · have hbc := (List.pairwise_cons.mp h.ordered).1 c hc
    have hbb := h.inside b List.mem_cons_self
    omega

theorem Bounded.le_last {n : Nat} (h : Bounded bounds n) (hne : bounds ≠ []) {c : Nat × Nat}
    (hc : c ∈ bounds) : c.2 ≤ (bounds.getLast hne).2 := by
  have hlast := h.inside _ (List.getLast_mem hne)
  have hord := h.ordered
  rw [← List.dropLast_append_getLast hne] at hc hord
  rcases List.mem_append.mp hc with hc | hc
  · have := (List.pairwise_append.mp hord).2.2 c hc _ (List.mem_singleton_self _)
    omega
  · rw [List.mem_singleton.mp hc]

theorem Bounded.getSlice {n : Nat} (h : Bounded bounds n) (s : Slice) :
    Bounded (getSlice bounds s) n where
  inside b hb := h.inside b ((getSlice_sublist bounds s).mem hb)
  ordered := h.ordered.sublist (getSlice_sublist bounds s)

/-- A segment, counted from `m` on. -/
theorem segment_moved (items : List (Int × Logprob F)) {m M : Nat} (hm : m ≤ b.1) (hb : b.1 ≤ b.2)
    (hM : b.2 ≤ M) : segment ((items.take M).drop m) (b.1 - m, b.2 - m) = segment items b := by
  unfold segment
  rw [List.take_drop, List.take_take, List.drop_drop]
  rw [show min (m + (b.2 - m)) M = b.2 by omega, show m + (b.1 - m) = b.1 by omega]

theorem getPositions_flatten (items : List (Int × Logprob F)) {s : Slice} {rest : List (Nat × Nat)}
    (hs : getSlice bounds s = b :: rest) :
    (flatten bounds items).getPositions s =
      .ok (flatten ((b :: rest).map fun c => (c.1 - b.1, c.2 - b.1))
        ((items.take ((b :: rest).getLast (List.cons_ne_nil b rest)).2).drop b.1)) := by
  have hstart : getSlice (flatten bounds items).startIndices s = (b :: rest).map Prod.fst := by
    rw [← hs]
    exact getSlice_map _ _ _
  have hstop : getSlice (flatten bounds items).endIndices s = (b :: rest).map Prod.snd := by
    rw [← hs]
    exact getSlice_map _ _ _
  have hmin : getItem ((b :: rest).map Prod.fst) 0 = .ok b.1 := getItem_zero
  have hmax : getItem ((b :: rest).map Prod.snd) (-1) =
      .ok ((b :: rest).getLast (List.cons_ne_nil b rest)).2 := by
    rw [getItem_map, getItem_neg_one (List.cons_ne_nil b rest)]
    rfl
  unfold FlatLogprobs.getPositions
  rw [hstart, hstop, hmin, hmax]
  simp only [Raises.ok_bind, slice_natCast]
  simp only [flatten, List.map_map, List.map_drop, List.map_take]
  rfl

theorem Represents.getPositions (h : Represents flat ds) {s : Slice} (hne : getSlice ds s ≠ []) :
    ∃ flat', flat.getPositions s = .ok flat' ∧ Represents flat' (getSlice ds s) := by
  obtain ⟨bounds, items, rfl, hb, rfl⟩ := h.exists_flatten
  rw [getSlice_map] at hne ⊢
  cases hs : getSlice bounds s with
  | nil =>
    rw [hs] at hne
    exact absurd rfl hne
  | cons b rest =>
    have hbs : Bounded (b :: rest) items.length := hs ▸ hb.getSlice s
    refine ⟨_, getPositions_flatten items hs, _, _, rfl, ?_, ?_⟩
    · have hlast := hbs.inside _ (List.getLast_mem (List.cons_ne_nil b rest))
      constructor
      · intro c' hc'
        obtain ⟨c, hc, rfl⟩ := List.mem_map.mp hc'
        have hin := hbs.inside c hc
        have hfirst := hbs.head_le hc
        have hle := hbs.le_last (List.cons_ne_nil b rest) hc
        rw [List.length_drop, List.length_take]
        constructor
        · show c.1 - b.1 ≤ c.2 - b.1
          omega
        · show c.2 - b.1 ≤ _
          omega
      · apply List.pairwise_map.mpr
        exact hbs.ordered.imp fun {c d} hcd => Nat.sub_le_sub_right hcd b.1
    · rw [List.map_map]
      apply List.map_congr_left
      intro c hc
      have hin := hbs.inside c hc
      exact congrArg Dict.ofItems (segment_moved items (hbs.head_le hc) hin.1
        (hbs.le_last (List.cons_ne_nil b rest) hc)).symm

/-- The first bound of no position. -/
theorem Represents.getPositions_empty (h : Represents flat ds) {s : Slice} (hs : getSlice ds s = []) :
    flat.getPositions s = .error (.index "list index out of range") := by
  obtain ⟨bounds, items, rfl, -, rfl⟩ := h.exists_flatten
  have hbounds : getSlice bounds s = [] := by
    rw [getSlice_map] at hs
    exact List.map_eq_nil_iff.mp hs
  have hstart : getSlice (flatten bounds items).startIndices s = [] := by
    rw [show (flatten bounds items).startIndices = bounds.map Prod.fst from rfl, getSlice_map,
      hbounds]
    rfl
  unfold FlatLogprobs.getPositions
  rw [hstart]
  rfl

/-! ## Runs -/

theorem Represents.call {xs : Positions F} {c : Call F} (h : Represents flat (xs.map reading))
    (hc : ∀ s, c = .slice s → getSlice xs s ≠ []) :
    ∃ flat', flat.call c = .ok flat' ∧ Represents flat' ((listCall xs c).map reading) := by
  cases c with
  | append position =>
    refine ⟨_, rfl, ?_⟩
    show Represents _ ((xs ++ [position]).map reading)
    rw [List.map_append]
    exact h.append position
  | extend positions =>
    refine ⟨_, rfl, ?_⟩
    show Represents _ ((xs ++ positions).map reading)
    rw [List.map_append]
    exact h.extend
  | appendNext tokenIds logprobs decodedTokens rank numLogprobs =>
    refine ⟨_, rfl, ?_⟩
    show Represents _ ((xs ++ [some _]).map reading)
    rw [List.map_append]
    exact h.appendItems _
  | slice s =>
    show ∃ flat', flat.getPositions s = .ok flat' ∧ Represents flat' ((getSlice xs s).map reading)
    rw [← getSlice_map]
    apply h.getPositions
    rw [getSlice_map]
    exact fun hnil => hc s rfl (List.map_eq_nil_iff.mp hnil)

theorem Represents.run : ∀ {calls : List (Call F)} {flat : FlatLogprobs F} {xs : Positions F},
    Represents flat (xs.map reading) → SlicesNonempty xs calls →
      ∃ flat', flat.run calls = .ok flat' ∧ Represents flat' ((listRun xs calls).map reading)
  | [], flat, _, h, _ => ⟨flat, rfl, h⟩
  | c :: calls, flat, xs, h, hslices => by
    obtain ⟨flat', hcall, h'⟩ := h.call hslices.1
    obtain ⟨flat'', hrun, h''⟩ := h'.run hslices.2
    refine ⟨flat'', ?_, h''⟩
    unfold FlatLogprobs.run at hrun ⊢
    rw [List.foldlM_cons, hcall]
    exact hrun

theorem Represents.slicesNonempty : ∀ {calls : List (Call F)} {flat flat' : FlatLogprobs F}
    {xs : Positions F}, Represents flat (xs.map reading) → flat.run calls = .ok flat' →
      SlicesNonempty xs calls
  | [], _, _, _, _, _ => trivial
  | c :: calls, flat, flat', xs, h, hrun => by
    obtain ⟨flat₁, hcall, hrest⟩ := Raises.foldlM_cons_ok.mp hrun
    have hc : ∀ s, c = .slice s → getSlice xs s ≠ [] := by
      rintro s rfl hnil
      have herr : flat.getPositions s = .error (.index "list index out of range") := by
        apply h.getPositions_empty
        rw [getSlice_map, hnil]
        rfl
      rw [show flat.call (.slice s) = flat.getPositions s from rfl, herr] at hcall
      cases hcall
    obtain ⟨flat₂, hcall₂, h'⟩ := h.call hc
    rw [hcall] at hcall₂
    cases hcall₂
    exact ⟨hc, h'.slicesNonempty hrest⟩

/-- A run that starts with no position acts as the run on a list exactly if each of its
slices chooses a position. -/
theorem listLike_iff (calls : List (Call F)) :
    (∃ flat, FlatLogprobs.empty.run calls = .ok flat ∧ ActsAs flat (listRun [] calls)) ↔
      SlicesNonempty [] calls := by
  have hempty : Represents (FlatLogprobs.empty : FlatLogprobs F)
      (([] : Positions F).map reading) := represents_empty
  constructor
  · rintro ⟨flat, hrun, -⟩
    exact hempty.slicesNonempty hrun
  · intro h
    obtain ⟨flat, hrun, hrep⟩ := hempty.run h
    exact ⟨flat, hrun, hrep.actsAs⟩

/-- One position, and what comes after it. -/
def afterLast : List (Call Unit) := [.append none, .slice ⟨some 1, none, 1, Nat.one_pos⟩]

/-- A list gives no position, the container raises. -/
theorem empty_slice_raises :
    listRun [] afterLast = [] ∧
      ¬ ∃ flat, FlatLogprobs.empty.run afterLast = .ok flat ∧
        ActsAs flat (listRun [] afterLast) := by
  refine ⟨rfl, ?_⟩
  rintro ⟨flat, hrun, -⟩
  have hslices : SlicesNonempty [] afterLast :=
    @Represents.slicesNonempty _ _ _ _ [] represents_empty hrun
  exact hslices.2.1 _ rfl rfl

end VllmEngine.Logprobs
