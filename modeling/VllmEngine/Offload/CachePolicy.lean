import Mathlib.Data.Rat.Floor
import VllmEngine.Lib.Dict
import VllmEngine.Lib.Python

/-!
# Cache policies of the CPU offload

A `CachePolicy` keeps the blocks that hold offloaded data by key and decides
which of them give way. `LRUCachePolicy` keeps one ordered dictionary;
`ARCCachePolicy` keeps the keys seen once and those seen more often apart, with
ghost lists of what was evicted from either, and adapts the share of the first.

`CachePolicy.Lawful` says what the manager may rely on: each operation changes
the blocks of the keys it names and of no others, and eviction yields exactly
the number of blocks asked for, idle ones only, or nothing.

> `lruPolicy_lawful`, `arcPolicy_lawful`: both policies are lawful.
-/

namespace VllmEngine

/-- A value stored in a `c_int32` field. -/
def cInt32 (x : Int) : Int := (x + 2147483648) % 4294967296 - 2147483648

/-- `BlockStatus`: a slot of the CPU buffer and the number of transfers that read
it, `-1` until its data is there. -/
structure BlockStatus where
  refCnt : Int
  blockId : Nat
deriving DecidableEq, Repr

namespace BlockStatus

/-- `BlockStatus(block_id)`. -/
def new (blockId : Nat) : BlockStatus := ⟨-1, blockId⟩

def isReady (block : BlockStatus) : Bool := decide (0 ≤ block.refCnt)

end BlockStatus

/-- The operations of a policy with state `P` over keys `K`. `update` is not a
method: it is what a change of a block, found by `get`, does to the policy. -/
structure CachePolicy (K P : Type) where
  get : P → K → Option BlockStatus
  insert : P → K → BlockStatus → P
  remove : P → K → Except Python.Error P
  touch : P → List K → P
  evict : P → Nat → List K → Option (P × List (K × BlockStatus))
  update : P → K → (BlockStatus → BlockStatus) → P

/-- What the manager relies on, for states that are `Valid`. -/
structure CachePolicy.Lawful {K P : Type} [DecidableEq K] (C : CachePolicy K P)
    (Valid : P → Prop) : Prop where
  insert : ∀ {p k} (b : BlockStatus), Valid p → C.get p k = none →
    Valid (C.insert p k b) ∧
      ∀ k', C.get (C.insert p k b) k' = if k' = k then some b else C.get p k'
  remove : ∀ {p k b}, Valid p → C.get p k = some b →
    ∃ p', C.remove p k = .ok p' ∧ Valid p' ∧
      ∀ k', C.get p' k' = if k' = k then none else C.get p k'
  touch : ∀ {p} (ks : List K), Valid p →
    Valid (C.touch p ks) ∧ ∀ k, C.get (C.touch p ks) k = C.get p k
  evict : ∀ {p n prot p' evicted}, Valid p → C.evict p n prot = some (p', evicted) →
    Valid p' ∧ evicted.length = n ∧ (evicted.map Prod.fst).Nodup ∧
      (∀ k b, (k, b) ∈ evicted → C.get p k = some b ∧ b.refCnt = 0 ∧ k ∉ prot) ∧
      ∀ k, C.get p' k = if k ∈ evicted.map Prod.fst then none else C.get p k
  update : ∀ {p} (k : K) (f : BlockStatus → BlockStatus), Valid p →
    Valid (C.update p k f) ∧
      ∀ k', C.get (C.update p k f) k' = if k' = k then (C.get p k).map f else C.get p k'

/-! ## Least recently used -/

/-- `LRUCachePolicy`, the least recently used block first. -/
structure LRUCachePolicy (K : Type) where
  blocks : Dict K BlockStatus

variable {K : Type} [DecidableEq K]

namespace LRUCachePolicy

def init : LRUCachePolicy K := ⟨Dict.empty⟩

def get (p : LRUCachePolicy K) (key : K) : Option BlockStatus := p.blocks.get? key

def insert (p : LRUCachePolicy K) (key : K) (block : BlockStatus) : LRUCachePolicy K :=
  ⟨p.blocks.set key block⟩

def remove (p : LRUCachePolicy K) (key : K) : Except Python.Error (LRUCachePolicy K) :=
  if p.blocks.contains key then .ok ⟨p.blocks.erase key⟩ else .error (.key "key not in blocks")

def touch (p : LRUCachePolicy K) (keys : List K) : LRUCachePolicy K :=
  keys.reverse.foldl (fun p key => ⟨p.blocks.moveToEnd key⟩) p

def evict (p : LRUCachePolicy K) (n : Nat) (protect : List K) :
    Option (LRUCachePolicy K × List (K × BlockStatus)) :=
  if n = 0 then some (p, [])
  else
    -- the loop stops at the n-th candidate
    let candidates := (p.blocks.entries.filter fun e => e.2.refCnt = 0 ∧ e.1 ∉ protect).take n
    if candidates.length < n then none
    else some (⟨candidates.foldl (fun d e => d.erase e.1) p.blocks⟩, candidates)

end LRUCachePolicy

def lruPolicy : CachePolicy K (LRUCachePolicy K) where
  get := LRUCachePolicy.get
  insert := LRUCachePolicy.insert
  remove := LRUCachePolicy.remove
  touch := LRUCachePolicy.touch
  evict := LRUCachePolicy.evict
  update := fun p key f => ⟨p.blocks.modify key f⟩

/-- Erasing some keys of a dictionary. -/
theorem get?_foldl_erase {V : Type} (es : List (K × V)) : ∀ (d : Dict K V) (k : K),
    (es.foldl (fun d e => d.erase e.1) d).get? k
      = if k ∈ es.map Prod.fst then none else d.get? k := by
  induction es with
  | nil => intro d k; rfl
  | cons e es ih =>
    intro d k
    rw [List.foldl_cons, ih, Dict.get?_erase, List.map_cons]
    by_cases hk : k ∈ es.map Prod.fst
    · rw [if_pos hk, if_pos (List.mem_cons_of_mem _ hk)]
    · rw [if_neg hk]
      by_cases he : k = e.1
      · rw [if_pos he, if_pos (he ▸ List.mem_cons_self)]
      · rw [if_neg he, if_neg fun hmem => (List.mem_cons.mp hmem).elim he hk]

theorem lru_touch_get (keys : List K) : ∀ (p : LRUCachePolicy K) (k : K),
    (keys.foldl (fun p key => (⟨p.blocks.moveToEnd key⟩ : LRUCachePolicy K)) p).get k
      = p.get k := by
  induction keys with
  | nil => intro p k; rfl
  | cons key keys ih =>
    intro p k
    rw [List.foldl_cons, ih]
    exact Dict.get?_moveToEnd p.blocks key k

theorem lruPolicy_lawful : (lruPolicy : CachePolicy K (LRUCachePolicy K)).Lawful fun _ => True where
  insert := fun b _ _ => ⟨trivial, fun k' => Dict.get?_set _ _ k' b⟩
  remove := by
    intro p k b _ hget
    have hin : p.blocks.contains k = true := by
      show (p.blocks.get? k).isSome = true
      rw [show p.blocks.get? k = some b from hget]
      rfl
    exact ⟨_, if_pos hin, trivial, fun k' => Dict.get?_erase _ _ k'⟩
  touch := fun ks _ => ⟨trivial, fun k => lru_touch_get ks.reverse _ k⟩
  evict := by
    intro p n prot p' evicted _ h
    simp only [lruPolicy, LRUCachePolicy.evict] at h
    split at h
    · rename_i hn
      obtain ⟨rfl, rfl⟩ := Prod.mk.inj (Option.some.inj h)
      exact ⟨trivial, hn.symm, List.nodup_nil, fun k b hb => (nomatch hb), fun k => rfl⟩
    · split at h
      · cases h
      · rename_i hlen
        obtain ⟨rfl, rfl⟩ := Prod.mk.inj (Option.some.inj h)
        have hsub := (List.take_sublist n
          (p.blocks.entries.filter fun e => e.2.refCnt = 0 ∧ e.1 ∉ prot))
        refine ⟨trivial, ?_, ?_, fun k b hb => ?_, fun k => get?_foldl_erase _ _ k⟩
        · have hle := List.length_take_le n
            (p.blocks.entries.filter fun e => e.2.refCnt = 0 ∧ e.1 ∉ prot)
          omega
        · exact p.blocks.nodup.sublist ((hsub.trans List.filter_sublist).map _)
        · obtain ⟨hmem, hcond⟩ := List.mem_filter.mp (hsub.subset hb)
          have hcond : b.refCnt = 0 ∧ k ∉ prot := of_decide_eq_true hcond
          exact ⟨(Dict.get?_eq_some_iff p.blocks).mpr hmem, hcond.1, hcond.2⟩
  update := fun k f _ => ⟨trivial, fun k' => Dict.get?_modify _ k k' f⟩

end VllmEngine

/-!
## The adaptive replacement policy

`ARCCachePolicy` keeps the blocks used once in `t1`, those used again in `t2`,
and the keys evicted from either in the ghost lists `b1` and `b2`. A use of a
ghost key moves `target_t1_size`, a floating-point number, and eviction takes
from `t1` while it is at least that large.

Where a block comes from and which key it has do not depend on that number's
arithmetic, so it is a parameter.

> `arcPolicy_lawful`: no key is in `t1` and in `t2`, and the policy is lawful.
-/

namespace VllmEngine

set_option linter.unusedSectionVars false

/-- The arithmetic of Python's floats, as far as the policy uses it. -/
class PyFloat (F : Type) extends Add F, Sub F, Div F, Max F, Min F, NatCast F where
  /-- `int(x)`. -/
  toInt : F → Int

/-- Exact numbers in place of floats. -/
instance : PyFloat ℚ where
  toInt q := if 0 ≤ q then ⌊q⌋ else ⌈q⌉

structure ARCCachePolicy (K F : Type) where
  cacheCapacity : Nat
  targetT1Size : F
  t1 : Dict K BlockStatus
  t2 : Dict K BlockStatus
  b1 : Dict K Unit
  b2 : Dict K Unit

/-- A block chosen for eviction, and whether it is in `t1`. -/
structure ArcCandidate (K : Type) where
  key : K
  block : BlockStatus
  fromT1 : Bool

variable {K F : Type} [DecidableEq K] [PyFloat F]

namespace ARCCachePolicy

def init (cacheCapacity : Nat) : ARCCachePolicy K F :=
  ⟨cacheCapacity, ((0 : Nat) : F), Dict.empty, Dict.empty, Dict.empty, Dict.empty⟩

def get (p : ARCCachePolicy K F) (key : K) : Option BlockStatus :=
  (p.t1.get? key).or (p.t2.get? key)

def insert (p : ARCCachePolicy K F) (key : K) (block : BlockStatus) : ARCCachePolicy K F :=
  { p with t1 := p.t1.set key block, b1 := p.b1.erase key, b2 := p.b2.erase key }

def remove (p : ARCCachePolicy K F) (key : K) : Except Python.Error (ARCCachePolicy K F) :=
  if p.t1.contains key then .ok { p with t1 := p.t1.erase key }
  else .ok { p with t2 := p.t2.erase key }

/-- `max(1, a / b)`. -/
def delta (a b : Nat) : F := max ((1 : Nat) : F) ((a : F) / (b : F))

/-- One round of `touch`. -/
def touchKey (p : ARCCachePolicy K F) (key : K) : ARCCachePolicy K F :=
  match p.t1.get? key with
  | some block =>
    -- a block that was just prepared to be stored was not used twice
    if block.isReady then { p with t1 := p.t1.erase key, t2 := p.t2.set key block }
    else { p with t1 := (p.t1.erase key).set key block }
  | none =>
    if p.t2.contains key then { p with t2 := p.t2.moveToEnd key }
    else if p.b1.contains key then
      { p with
        targetT1Size := min (p.targetT1Size + delta p.b2.size p.b1.size) (p.cacheCapacity : F)
        b1 := p.b1.moveToEnd key }
    else if p.b2.contains key then
      { p with
        targetT1Size := max (p.targetT1Size - delta p.b1.size p.b2.size) ((0 : Nat) : F)
        b2 := p.b2.moveToEnd key }
    else p

def touch (p : ARCCachePolicy K F) (keys : List K) : ARCCachePolicy K F :=
  keys.reverse.foldl touchKey p

/-- The first block that is idle, not protected and not selected yet. -/
def findCandidate (d : Dict K BlockStatus) (protect selected : List K) :
    Option (K × BlockStatus) :=
  d.entries.find? fun e => e.2.refCnt = 0 ∧ e.1 ∉ protect ∧ e.1 ∉ selected

/-- The rounds that select `n` more candidates. -/
def selectCandidates (p : ARCCachePolicy K F) (protect : List K) :
    Nat → List (ArcCandidate K) → Int → Option (List (ArcCandidate K))
  | 0, candidates, _ => some candidates
  | n + 1, candidates, virtualT1Size =>
    let selected := candidates.map ArcCandidate.key
    let inT1 := if PyFloat.toInt p.targetT1Size ≤ virtualT1Size
      then findCandidate p.t1 protect selected else none
    match inT1 with
    | some (key, block) =>
      selectCandidates p protect n (candidates ++ [⟨key, block, true⟩]) (virtualT1Size - 1)
    | none =>
      match findCandidate p.t2 protect selected with
      | some (key, block) =>
        selectCandidates p protect n (candidates ++ [⟨key, block, false⟩]) virtualT1Size
      | none => none

def evictCandidate (p : ARCCachePolicy K F) (c : ArcCandidate K) : ARCCachePolicy K F :=
  if c.fromT1 then { p with t1 := p.t1.erase c.key, b1 := p.b1.set c.key () }
  else { p with t2 := p.t2.erase c.key, b2 := p.b2.set c.key () }

/-- Trim the ghost lists to `cache_capacity`. -/
def trimGhosts (p : ARCCachePolicy K F) : ARCCachePolicy K F :=
  { p with
    b1 := p.b1.dropFirst (p.b1.size - p.cacheCapacity)
    b2 := p.b2.dropFirst (p.b2.size - p.cacheCapacity) }

def evict (p : ARCCachePolicy K F) (n : Nat) (protect : List K) :
    Option (ARCCachePolicy K F × List (K × BlockStatus)) :=
  if n = 0 then some (p, [])
  else
    match selectCandidates p protect n [] p.t1.size with
    | none => none
    | some candidates =>
      some ((candidates.foldl evictCandidate p).trimGhosts,
        candidates.map fun c => (c.key, c.block))

/-- No key is in `t1` and in `t2`. -/
def Split (p : ARCCachePolicy K F) : Prop := ∀ k, p.t1.get? k = none ∨ p.t2.get? k = none

end ARCCachePolicy

/-- A change of a block that is found in `t1` or in `t2`. -/
def arcPolicy : CachePolicy K (ARCCachePolicy K F) where
  get := ARCCachePolicy.get
  insert := ARCCachePolicy.insert
  remove := ARCCachePolicy.remove
  touch := ARCCachePolicy.touch
  evict := ARCCachePolicy.evict
  update := fun p key f => { p with t1 := p.t1.modify key f, t2 := p.t2.modify key f }

namespace ARCCachePolicy

variable {p : ARCCachePolicy K F}

/-! ### Touching -/

theorem touchKey_spec (hp : p.Split) (key : K) :
    (p.touchKey key).Split ∧ ∀ k, (p.touchKey key).get k = p.get k := by
  unfold touchKey
  split
  · rename_i block h1
    have h2 : p.t2.get? key = none := (hp key).resolve_left (by rw [h1]; exact Option.some_ne_none _)
    split
    · -- promoted to `t2`
      refine ⟨fun k => ?_, fun k => ?_⟩
      · show (p.t1.erase key).get? k = none ∨ (p.t2.set key block).get? k = none
        rw [Dict.get?_erase, Dict.get?_set]
        by_cases hk : k = key
        · exact Or.inl (if_pos hk)
        · rw [if_neg hk, if_neg hk]
          exact hp k
      · show ((p.t1.erase key).get? k).or ((p.t2.set key block).get? k) = _
        rw [Dict.get?_erase, Dict.get?_set]
        by_cases hk : k = key
        · rw [if_pos hk, if_pos hk, hk]
          unfold get
          rw [h1]
          rfl
        · rw [if_neg hk, if_neg hk]
          rfl
    · have hget : ∀ k, ((p.t1.erase key).set key block).get? k = p.t1.get? k := by
        intro k
        rw [Dict.get?_set, Dict.get?_erase]
        by_cases hk : k = key
        · rw [if_pos hk, hk, h1]
        · rw [if_neg hk, if_neg hk]
      refine ⟨fun k => ?_, fun k => ?_⟩
      · show ((p.t1.erase key).set key block).get? k = none ∨ _
        rw [hget]
        exact hp k
      · show (((p.t1.erase key).set key block).get? k).or _ = _
        rw [hget]
        rfl
  · split
    · refine ⟨fun k => ?_, fun k => ?_⟩
      · show _ ∨ (p.t2.moveToEnd key).get? k = none
        rw [Dict.get?_moveToEnd]
        exact hp k
      · show (p.t1.get? k).or ((p.t2.moveToEnd key).get? k) = _
        rw [Dict.get?_moveToEnd]
        rfl
    · split
      · exact ⟨hp, fun k => rfl⟩
      · split
        · exact ⟨hp, fun k => rfl⟩
        · exact ⟨hp, fun k => rfl⟩

theorem touch_spec (keys : List K) : ∀ {p : ARCCachePolicy K F}, p.Split →
    (keys.foldl touchKey p).Split ∧ ∀ k, (keys.foldl touchKey p).get k = p.get k := by
  induction keys with
  | nil => intro p hp; exact ⟨hp, fun k => rfl⟩
  | cons key keys ih =>
    intro p hp
    obtain ⟨hsplit, hget⟩ := touchKey_spec hp key
    obtain ⟨hsplit', hget'⟩ := ih hsplit
    exact ⟨hsplit', fun k => (hget' k).trans (hget k)⟩

/-! ### Evicting -/

/-- The candidate is where it says. -/
def Has (p : ARCCachePolicy K F) (c : ArcCandidate K) : Prop :=
  (if c.fromT1 then p.t1.get? c.key else p.t2.get? c.key) = some c.block

theorem Has.get {c : ArcCandidate K} (hp : p.Split) (h : p.Has c) : p.get c.key = some c.block := by
  unfold Has at h
  unfold ARCCachePolicy.get
  split at h
  · rw [h]; rfl
  · have h1 : p.t1.get? c.key = none := (hp c.key).resolve_right (by rw [h]; exact Option.some_ne_none _)
    rw [h1, h]
    rfl

theorem evictCandidate_spec {c : ArcCandidate K} (hp : p.Split) (h : p.Has c) :
    (p.evictCandidate c).Split ∧
      (∀ k, (p.evictCandidate c).get k = if k = c.key then none else p.get k) ∧
      ∀ c', c'.key ≠ c.key → p.Has c' → (p.evictCandidate c).Has c' := by
  unfold Has at h
  unfold evictCandidate
  split at h
  · rename_i hfrom
    rw [if_pos hfrom]
    refine ⟨fun k => ?_, fun k => ?_, fun c' hne hc' => ?_⟩
    · show (p.t1.erase c.key).get? k = none ∨ _
      rw [Dict.get?_erase]
      by_cases hk : k = c.key
      · exact Or.inl (if_pos hk)
      · rw [if_neg hk]
        exact hp k
    · show ((p.t1.erase c.key).get? k).or (p.t2.get? k) = _
      rw [Dict.get?_erase]
      by_cases hk : k = c.key
      · rw [if_pos hk, if_pos hk, hk]
        exact (hp c.key).resolve_left (by rw [h]; exact Option.some_ne_none _)
      · rw [if_neg hk, if_neg hk]
        rfl
    · unfold Has at hc' ⊢
      show (if c'.fromT1 then (p.t1.erase c.key).get? c'.key else _) = _
      rw [Dict.get?_erase_ne _ hne]
      exact hc'
  · rename_i hfrom
    rw [if_neg hfrom]
    refine ⟨fun k => ?_, fun k => ?_, fun c' hne hc' => ?_⟩
    · show _ ∨ (p.t2.erase c.key).get? k = none
      rw [Dict.get?_erase]
      by_cases hk : k = c.key
      · exact Or.inr (if_pos hk)
      · rw [if_neg hk]
        exact hp k
    · show (p.t1.get? k).or ((p.t2.erase c.key).get? k) = _
      rw [Dict.get?_erase]
      by_cases hk : k = c.key
      · rw [if_pos hk, if_pos hk, hk, Option.or_none]
        exact (hp c.key).resolve_right (by rw [h]; exact Option.some_ne_none _)
      · rw [if_neg hk, if_neg hk]
        rfl
    · unfold Has at hc' ⊢
      show (if c'.fromT1 then _ else (p.t2.erase c.key).get? c'.key) = _
      rw [Dict.get?_erase_ne _ hne]
      exact hc'

/-- Evicting candidates with distinct keys. -/
theorem evictCandidates_spec (cs : List (ArcCandidate K)) : ∀ {p : ARCCachePolicy K F}, p.Split →
    (∀ c ∈ cs, p.Has c) → (cs.map ArcCandidate.key).Nodup →
    (cs.foldl evictCandidate p).Split ∧
      ∀ k, (cs.foldl evictCandidate p).get k
        = if k ∈ cs.map ArcCandidate.key then none else p.get k := by
  induction cs with
  | nil => intro p hp _ _; exact ⟨hp, fun k => rfl⟩
  | cons c cs ih =>
    intro p hp hhas hnodup
    rw [List.map_cons, List.nodup_cons] at hnodup
    obtain ⟨hsplit, hget, hrest⟩ := evictCandidate_spec hp (hhas c List.mem_cons_self)
    obtain ⟨hsplit', hget'⟩ := ih hsplit (fun c' hc' => by
      refine hrest c' (fun heq => hnodup.1 ?_) (hhas c' (List.mem_cons_of_mem c hc'))
      exact heq ▸ List.mem_map_of_mem hc') hnodup.2
    refine ⟨hsplit', fun k => ?_⟩
    rw [List.foldl_cons, hget', hget, List.map_cons]
    by_cases hk : k ∈ cs.map ArcCandidate.key
    · rw [if_pos hk, if_pos (List.mem_cons_of_mem _ hk)]
    · rw [if_neg hk]
      by_cases hc : k = c.key
      · rw [if_pos hc, if_pos (hc ▸ List.mem_cons_self)]
      · rw [if_neg hc, if_neg fun hmem => (List.mem_cons.mp hmem).elim hc hk]

/-- A found candidate is idle, not protected and new. -/
theorem findCandidate_spec {d : Dict K BlockStatus} {protect selected : List K} {key : K}
    {block : BlockStatus} (h : findCandidate d protect selected = some (key, block)) :
    d.get? key = some block ∧ block.refCnt = 0 ∧ key ∉ protect ∧ key ∉ selected := by
  unfold findCandidate at h
  have hmem := List.mem_of_find?_eq_some h
  have hcond := List.find?_some h
  exact ⟨(Dict.get?_eq_some_iff d).mpr hmem, of_decide_eq_true hcond⟩

/-- What is known of the candidates so far. -/
structure Selected (p : ARCCachePolicy K F) (protect : List K) (cs : List (ArcCandidate K)) :
    Prop where
  has : ∀ c ∈ cs, p.Has c
  idle : ∀ c ∈ cs, c.block.refCnt = 0
  free : ∀ c ∈ cs, c.key ∉ protect
  nodup : (cs.map ArcCandidate.key).Nodup

theorem Selected.snoc {protect : List K} {cs : List (ArcCandidate K)} {c : ArcCandidate K}
    (h : Selected p protect cs) (hhas : p.Has c) (hidle : c.block.refCnt = 0)
    (hfree : c.key ∉ protect) (hnew : c.key ∉ cs.map ArcCandidate.key) :
    Selected p protect (cs ++ [c]) := by
  have hall : ∀ P : ArcCandidate K → Prop, (∀ c' ∈ cs, P c') → P c → ∀ c' ∈ cs ++ [c], P c' := by
    intro P hcs hc c' hc'
    obtain hold | hlast := List.mem_append.mp hc'
    · exact hcs c' hold
    · exact List.mem_singleton.mp hlast ▸ hc
  refine ⟨hall _ h.has hhas, hall (fun c => c.block.refCnt = 0) h.idle hidle,
    hall (fun c => c.key ∉ protect) h.free hfree, ?_⟩
  rw [List.map_append]
  refine List.nodup_append.mpr ⟨h.nodup, List.nodup_singleton _, fun a ha b hb hab => hnew ?_⟩
  rw [← List.mem_singleton.mp hb, ← hab]
  exact ha

theorem selectCandidates_spec {protect : List K} : ∀ (n : Nat) (cs : List (ArcCandidate K))
    (v : Int) {cs' : List (ArcCandidate K)}, Selected p protect cs →
      selectCandidates p protect n cs v = some cs' →
      Selected p protect cs' ∧ cs'.length = cs.length + n := by
  intro n
  induction n with
  | zero =>
    intro cs v cs' hcs h
    obtain rfl := Option.some.inj h
    exact ⟨hcs, rfl⟩
  | succ n ih =>
    intro cs v cs' hcs h
    rw [selectCandidates] at h
    split at h
    · rename_i key block hfound
      split at hfound
      · obtain ⟨hget, hidle, hfree, hnew⟩ := findCandidate_spec hfound
        obtain ⟨hsel, hlen⟩ := ih _ _ (hcs.snoc (c := ⟨key, block, true⟩) hget hidle hfree hnew) h
        rw [List.length_append, List.length_singleton] at hlen
        exact ⟨hsel, by omega⟩
      · cases hfound
    · split at h
      · rename_i key block hfound
        obtain ⟨hget, hidle, hfree, hnew⟩ := findCandidate_spec hfound
        obtain ⟨hsel, hlen⟩ := ih _ _ (hcs.snoc (c := ⟨key, block, false⟩) hget hidle hfree hnew) h
        rw [List.length_append, List.length_singleton] at hlen
        exact ⟨hsel, by omega⟩
      · cases h

end ARCCachePolicy

theorem arcPolicy_lawful :
    (arcPolicy : CachePolicy K (ARCCachePolicy K F)).Lawful ARCCachePolicy.Split where
  insert := by
    intro p k b hp hget
    obtain ⟨h1, h2⟩ := Option.or_eq_none_iff.mp hget
    refine ⟨fun k' => ?_, fun k' => ?_⟩
    · show (p.t1.set k b).get? k' = none ∨ p.t2.get? k' = none
      rw [Dict.get?_set]
      by_cases hk : k' = k
      · exact Or.inr (hk ▸ h2)
      · rw [if_neg hk]
        exact hp k'
    · show ((p.t1.set k b).get? k').or (p.t2.get? k') = _
      rw [Dict.get?_set]
      by_cases hk : k' = k
      · rw [if_pos hk, if_pos hk]
        rfl
      · rw [if_neg hk, if_neg hk]
        rfl
  remove := by
    intro p k b hp hget
    have hget : (p.t1.get? k).or (p.t2.get? k) = some b := hget
    by_cases hin : p.t1.contains k = true
    · refine ⟨_, if_pos hin, fun k' => ?_, fun k' => ?_⟩
      · show (p.t1.erase k).get? k' = none ∨ _
        rw [Dict.get?_erase]
        by_cases hk : k' = k
        · exact Or.inl (if_pos hk)
        · rw [if_neg hk]
          exact hp k'
      · show ((p.t1.erase k).get? k').or (p.t2.get? k') = _
        rw [Dict.get?_erase]
        by_cases hk : k' = k
        · rw [if_pos hk, if_pos hk, hk]
          refine (hp k).resolve_left fun hnone => ?_
          unfold Dict.contains at hin
          rw [hnone] at hin
          cases hin
        · rw [if_neg hk, if_neg hk]
          rfl
    · have hnone : p.t1.get? k = none := by
        unfold Dict.contains at hin
        exact Option.not_isSome_iff_eq_none.mp hin
      refine ⟨_, if_neg hin, fun k' => ?_, fun k' => ?_⟩
      · show _ ∨ (p.t2.erase k).get? k' = none
        rw [Dict.get?_erase]
        by_cases hk : k' = k
        · exact Or.inr (if_pos hk)
        · rw [if_neg hk]
          exact hp k'
      · show (p.t1.get? k').or ((p.t2.erase k).get? k') = _
        rw [Dict.get?_erase]
        by_cases hk : k' = k
        · rw [if_pos hk, if_pos hk, hk, hnone]
          rfl
        · rw [if_neg hk, if_neg hk]
          rfl
  touch := fun ks hp => ARCCachePolicy.touch_spec ks.reverse hp
  evict := by
    intro p n prot p' evicted hp h
    simp only [arcPolicy, ARCCachePolicy.evict] at h
    split at h
    · rename_i hn
      obtain ⟨rfl, rfl⟩ := Prod.mk.inj (Option.some.inj h)
      exact ⟨hp, hn.symm, List.nodup_nil, fun k b hb => (nomatch hb), fun k => rfl⟩
    · split at h
      · cases h
      · rename_i cs hsel
        obtain ⟨rfl, rfl⟩ := Prod.mk.inj (Option.some.inj h)
        obtain ⟨hcs, hlen⟩ := ARCCachePolicy.selectCandidates_spec n [] _
          (p := p) ⟨fun c hc => (nomatch hc), fun c hc => (nomatch hc),
            fun c hc => (nomatch hc), List.nodup_nil⟩ hsel
        obtain ⟨hsplit, hget⟩ := ARCCachePolicy.evictCandidates_spec cs hp hcs.has hcs.nodup
        have hkeys : (cs.map fun c => (c.key, c.block)).map Prod.fst = cs.map ArcCandidate.key := by
          rw [List.map_map]
          rfl
        rw [hkeys]
        refine ⟨hsplit, by rw [List.length_map, hlen, List.length_nil, Nat.zero_add], hcs.nodup,
          fun k b hb => ?_, hget⟩
        obtain ⟨c, hc, heq⟩ := List.mem_map.mp hb
        obtain ⟨rfl, rfl⟩ := Prod.mk.inj heq
        exact ⟨(hcs.has c hc).get hp, hcs.idle c hc, hcs.free c hc⟩
  update := by
    intro p k f hp
    refine ⟨fun k' => ?_, fun k' => ?_⟩
    · show (p.t1.modify k f).get? k' = none ∨ (p.t2.modify k f).get? k' = none
      rw [Dict.get?_modify, Dict.get?_modify]
      by_cases hk : k' = k
      · rw [if_pos hk, if_pos hk]
        obtain h1 | h2 := hp k
        · exact Or.inl (by rw [h1]; rfl)
        · exact Or.inr (by rw [h2]; rfl)
      · rw [if_neg hk, if_neg hk]
        exact hp k'
    · show ((p.t1.modify k f).get? k').or ((p.t2.modify k f).get? k') = _
      rw [Dict.get?_modify, Dict.get?_modify]
      by_cases hk : k' = k
      · rw [if_pos hk, if_pos hk, if_pos hk]
        show _ = ((p.t1.get? k).or (p.t2.get? k)).map f
        cases p.t1.get? k with
        | none => rfl
        | some b => rfl
      · rw [if_neg hk, if_neg hk, if_neg hk]
        rfl

end VllmEngine
