import VllmEngine.Kv.BlockPool
import VllmEngine.Lib.Links

/-!
# The free block queue

`FreeKVCacheBlockQueue` (`vllm/v1/core/kv_cache_utils.py`): the free blocks as a doubly linked list
between two fake blocks, with a counter. The pointers belong to the blocks and are only changed by
the queue. `Represents` ties the pointers to the sequence of the free blocks, and each method keeps
it.

> `freeQueue_refines`: in every sequence of calls the queue answers as the list does,
> `appended_twice`: a block that is appended while it is in the queue breaks the links.
-/

namespace VllmEngine

/-- The blocks and the two fake ones. -/
inductive QueueNode (B : Type)
  | fakeFreeListHead
  | fakeFreeListTail
  | block (b : B)
deriving DecidableEq

/-- The counter, and `prev_free_block` and `next_free_block` of every block. -/
structure FreeKVCacheBlockQueue (B : Type) where
  numFreeBlocks : Int
  links : Links (QueueNode B)

open QueueNode

variable {B : Type} [DecidableEq B]

namespace FreeKVCacheBlockQueue

/-! ## The methods -/

/-- The loop of `__init__`: the links of consecutive blocks. -/
def linkConsecutive (h : Links (QueueNode B)) : List B → Links (QueueNode B)
  | a :: b :: rest =>
    linkConsecutive ((h.setNext (block a) (some (block b))).setPrev (block b) (some (block a)))
      (b :: rest)
  | _ => h

/-- `__init__`, of blocks that are in no queue. -/
def init (blocks : List B) : FreeKVCacheBlockQueue B :=
  let h := linkConsecutive ⟨fun _ => none, fun _ => none⟩ blocks
  match blocks.head?, blocks.getLast? with
  | some first, some last =>
    { numFreeBlocks := blocks.length
      links := (((h.setNext fakeFreeListHead (some (block first))).setPrev (block first)
        (some fakeFreeListHead)).setPrev fakeFreeListTail (some (block last))).setNext (block last)
        (some fakeFreeListTail) }
  | _, _ =>
    { numFreeBlocks := blocks.length
      links := (h.setNext fakeFreeListHead (some fakeFreeListTail)).setPrev fakeFreeListTail
        (some fakeFreeListHead) }

/-- The first branch of `popleft`. -/
def popleftEmpty (q : FreeKVCacheBlockQueue B) :
    Except Python.Error (FreeKVCacheBlockQueue B × QueueNode B) := do
  Python.require (decide (q.numFreeBlocks = 0))
    ("num_free_blocks (" ++ toString q.numFreeBlocks ++ ") is out of sync with the free list.")
  throw (.value "No free blocks available")

/-- `popleft`. -/
def popleft (q : FreeKVCacheBlockQueue B) :
    Except Python.Error (FreeKVCacheBlockQueue B × QueueNode B) :=
  match q.links.next fakeFreeListHead with
  | none => q.popleftEmpty
  | some fakeFreeListTail => q.popleftEmpty
  | some first =>
    match q.links.next first with
    | none => .error (.runtime
        "Invalid block found in popleft() which doesn't have a valid next_free_block")
    | some second =>
      .ok ({ numFreeBlocks := q.numFreeBlocks - 1
             links := ((q.links.setNext fakeFreeListHead (some second)).setPrev second
               (some fakeFreeListHead)).clear first }, first)

/-- The loop of `popleft_n`: the links, the block after the last popped one, and the popped
blocks. -/
def popLoop : Nat → Links (QueueNode B) → Option (QueueNode B) →
    Except Python.Error (Links (QueueNode B) × Option (QueueNode B) × List (QueueNode B))
  | 0, h, curr => .ok (h, curr, [])
  | _ + 1, _, none => .error (.assertion "")
  | n + 1, h, some b => do
    let (h', curr, ret) ← popLoop n (h.clear b) (h.next b)
    return (h', curr, b :: ret)

/-- `popleft_n`. -/
def popleftN (q : FreeKVCacheBlockQueue B) (n : Int) :
    Except Python.Error (FreeKVCacheBlockQueue B × List (QueueNode B)) :=
  if n = 0 then .ok (q, [])
  else do
    Python.require (decide (q.numFreeBlocks ≥ n)) ""
    let (h, curr, ret) ← popLoop n.toNat q.links (q.links.next fakeFreeListHead)
    let h := match curr with
      | none => h
      | some curr => (h.setNext fakeFreeListHead (some curr)).setPrev curr (some fakeFreeListHead)
    return ({ numFreeBlocks := q.numFreeBlocks - n, links := h }, ret)

/-- `remove`. The message goes on with the block's `repr`. -/
def remove (q : FreeKVCacheBlockQueue B) (b : B) :
    Except Python.Error (FreeKVCacheBlockQueue B) :=
  match q.links.prev (block b), q.links.next (block b) with
  | some prev, some next =>
    .ok { numFreeBlocks := q.numFreeBlocks - 1
          links := ((q.links.setNext prev (some next)).setPrev next (some prev)).clear (block b) }
  | _, _ => .error (.runtime "remove() called on an invalid block")

/-- `append`. -/
def append (q : FreeKVCacheBlockQueue B) (b : B) :
    Except Python.Error (FreeKVCacheBlockQueue B) :=
  match q.links.prev fakeFreeListTail with
  | none => .error (.runtime "prev_free_block of fake_free_list_tail should always exist")
  | some last =>
    .ok { numFreeBlocks := q.numFreeBlocks + 1
          links := (((q.links.setNext last (some (block b))).setPrev (block b) (some last)).setNext
            (block b) (some fakeFreeListTail)).setPrev fakeFreeListTail (some (block b)) }

/-- The loop of `append_n`: the links and the last block. -/
def appendLoop (h : Links (QueueNode B)) (last : QueueNode B) :
    List B → Links (QueueNode B) × QueueNode B
  | [] => (h, last)
  | b :: bs => appendLoop ((h.setPrev (block b) (some last)).setNext last (some (block b))) (block b) bs

/-- `append_n`. -/
def appendN (q : FreeKVCacheBlockQueue B) (blocks : List B) :
    Except Python.Error (FreeKVCacheBlockQueue B) :=
  if blocks.length = 0 then .ok q
  else
    match q.links.prev fakeFreeListTail with
    | none => .error (.assertion "prev_free_block of fake_free_list_tail should always exist")
    | some last =>
      let (h, last) := appendLoop q.links last blocks
      .ok { numFreeBlocks := q.numFreeBlocks + blocks.length
            links := (h.setNext last (some fakeFreeListTail)).setPrev fakeFreeListTail (some last) }

/-- The loop of `get_all_free_blocks`; `none` if the fuel runs out. -/
def collect (h : Links (QueueNode B)) : Nat → QueueNode B → Option (List (QueueNode B))
  | 0, _ => none
  | fuel + 1, curr =>
    match h.next curr with
    | none => some []
    | some next => (collect h fuel next).map (curr :: ·)

/-- `get_all_free_blocks`. -/
def getAllFreeBlocks (fuel : Nat) (q : FreeKVCacheBlockQueue B) :
    Except Python.Error (Option (List (QueueNode B))) :=
  match q.links.next fakeFreeListHead with
  | none => .error (.runtime "next_free_block of fake_free_list_head should always exist")
  | some curr => .ok (collect q.links fuel curr)

/-! ## The sequence of the free blocks -/

/-- The nodes of a queue with these free blocks. -/
def nodes (l : List B) : List (QueueNode B) :=
  fakeFreeListHead :: (l.map block ++ [fakeFreeListTail])

/-- The queue is the sequence `l`: neighbours point to each other, the fake blocks are its ends, and
the pointers of all other blocks are null. -/
structure Represents (q : FreeKVCacheBlockQueue B) (l : List B) : Prop where
  nodup : l.Nodup
  num : q.numFreeBlocks = l.length
  linked : q.links.Linked (nodes l)
  head : q.links.prev fakeFreeListHead = none
  tail : q.links.next fakeFreeListTail = none
  outside : ∀ b, b ∉ l → q.links.prev (block b) = none ∧ q.links.next (block b) = none

omit [DecidableEq B] in
theorem nodes_nodup {l : List B} (h : l.Nodup) : (nodes l).Nodup := by
  have hmap : (l.map block).Nodup := h.map fun a b heq => QueueNode.block.inj heq
  refine List.nodup_cons.mpr ⟨?_, List.nodup_append.mpr ⟨hmap, List.nodup_singleton _, ?_⟩⟩
  · simp
  · simp

omit [DecidableEq B] in

omit [DecidableEq B] in
theorem nodes_dropLast (l : List B) : (nodes l).dropLast = fakeFreeListHead :: l.map block := by
  rw [nodes, ← List.cons_append, List.dropLast_concat]

/-- The pointers are determined by the sequence. -/
theorem Represents.unique {q q' : FreeKVCacheBlockQueue B} {l : List B} (h : Represents q l)
    (h' : Represents q' l) : q = q' := by
  obtain ⟨num, ⟨prev, next⟩⟩ := q
  obtain ⟨num', ⟨prev', next'⟩⟩ := q'
  have hnum : num = num' := h.num.trans h'.num.symm
  have hnext : next = next' := by
    funext x
    by_cases hx : x ∈ (nodes l).dropLast
    · exact (h'.linked.next_eq h.linked x hx)
    · rw [nodes_dropLast] at hx
      cases x with
      | fakeFreeListHead => exact absurd List.mem_cons_self hx
      | fakeFreeListTail => exact h.tail.trans h'.tail.symm
      | block b =>
        have hb : b ∉ l := fun hb => hx (List.mem_cons_of_mem _ (List.mem_map_of_mem hb))
        exact (h.outside b hb).2.trans (h'.outside b hb).2.symm
  have hprev : prev = prev' := by
    funext x
    by_cases hx : x ∈ (nodes l).tail
    · exact (h'.linked.prev_eq h.linked x hx)
    · change x ∉ l.map block ++ [fakeFreeListTail] at hx
      cases x with
      | fakeFreeListHead => exact h.head.trans h'.head.symm
      | fakeFreeListTail => exact absurd (List.mem_append_right _ (List.mem_singleton_self _)) hx
      | block b =>
        have hb : b ∉ l := fun hb => hx (List.mem_append_left _ (List.mem_map_of_mem hb))
        exact (h.outside b hb).1.trans (h'.outside b hb).1.symm
  rw [hnum, hnext, hprev]

/-! ## Taking blocks out -/

section Out

variable {q : FreeKVCacheBlockQueue B} {l l₁ l₂ : List B} {b : B}

omit [DecidableEq B] in
/-- The node before the blocks behind the given ones. -/
theorem exists_before (l₁ : List B) : ∃ left x, fakeFreeListHead :: l₁.map block = left ++ [x] ∧
    (x = fakeFreeListHead ∨ ∃ a ∈ l₁, x = block a) ∧ (l₁ = [] → x = fakeFreeListHead) := by
  rcases List.eq_nil_or_concat l₁ with rfl | ⟨init, a, rfl⟩
  · exact ⟨[], fakeFreeListHead, rfl, Or.inl rfl, fun _ => rfl⟩
  · refine ⟨fakeFreeListHead :: init.map block, block a, ?_, Or.inr ⟨a, ?_, rfl⟩, fun h => ?_⟩
    · simp
    · simp
    · simp at h

omit [DecidableEq B] in
/-- The node behind the blocks in front of the given ones. -/
theorem exists_behind (l₂ : List B) : ∃ y right, l₂.map block ++ [fakeFreeListTail] = y :: right ∧
    (y = fakeFreeListTail ∨ ∃ a ∈ l₂, y = block a) := by
  cases l₂ with
  | nil => exact ⟨fakeFreeListTail, [], rfl, Or.inl rfl⟩
  | cons a l₂ =>
    exact ⟨block a, l₂.map block ++ [fakeFreeListTail], rfl, Or.inr ⟨a, List.mem_cons_self, rfl⟩⟩

/-- A block anywhere in the queue is unlinked. -/
theorem Represents.unlink (h : Represents q (l₁ ++ b :: l₂)) :
    ∃ x y, q.links.prev (block b) = some x ∧ q.links.next (block b) = some y ∧
      (l₁ = [] → x = fakeFreeListHead) ∧
      Represents
        { numFreeBlocks := q.numFreeBlocks - 1
          links := ((q.links.setNext x (some y)).setPrev y (some x)).clear (block b) }
        (l₁ ++ l₂) := by
  obtain ⟨left, x, hx, hxmem, hfirst⟩ := exists_before l₁
  obtain ⟨y, right, hy, hymem⟩ := exists_behind l₂
  have hnodes : nodes (l₁ ++ b :: l₂) = left ++ x :: block b :: y :: right := by
    rw [nodes, List.map_append, List.map_cons, List.append_assoc, List.cons_append, hy,
      ← List.cons_append, hx, List.append_assoc]
    rfl
  have hnodes' : nodes (l₁ ++ l₂) = left ++ x :: y :: right := by
    rw [nodes, List.map_append, List.append_assoc, hy, ← List.cons_append, hx, List.append_assoc]
    rfl
  have hnd := nodes_nodup h.nodup
  have hlinked := h.linked
  rw [hnodes] at hnd hlinked
  obtain ⟨-, -, hprev, hrest⟩ := Links.linked_append_cons_cons.mp hlinked
  have hmiddle := List.nodup_middle.mp h.nodup
  obtain ⟨hb, hnd'⟩ := List.nodup_cons.mp hmiddle
  refine ⟨x, y, hprev, hrest.1, hfirst, hnd', ?_, ?_, ?_, ?_, fun c hc => ?_⟩
  · show q.numFreeBlocks - 1 = _
    rw [h.num, List.length_append, List.length_append, List.length_cons]
    omega
  · rw [hnodes']
    exact hlinked.unlink hnd
  · have hne : fakeFreeListHead ≠ y := by
      rcases hymem with rfl | ⟨a, -, rfl⟩
      · simp
      · simp
    rw [Links.clear_prev_ne _ (by simp), Links.setPrev_prev_ne _ _ hne]
    exact h.head
  · have hne : fakeFreeListTail ≠ x := by
      rcases hxmem with rfl | ⟨a, -, rfl⟩
      · simp
      · simp
    rw [Links.clear_next_ne _ (by simp), Links.setPrev_next, Links.setNext_next_ne _ _ hne]
    exact h.tail
  · by_cases hcb : c = b
    · rw [hcb]
      exact ⟨Links.clear_prev_self _ _, Links.clear_next_self _ _⟩
    · have hne : block c ≠ block b := fun heq => hcb (QueueNode.block.inj heq)
      have hcl : c ∉ l₁ ++ b :: l₂ := by
        rw [List.mem_append, List.mem_cons]
        rw [List.mem_append] at hc
        tauto
      have hout := h.outside c hcl
      have hcy : block c ≠ y := by
        rcases hymem with rfl | ⟨a, ha, rfl⟩
        · simp
        · exact fun heq => hc (List.mem_append_right _ (QueueNode.block.inj heq ▸ ha))
      have hcx : block c ≠ x := by
        rcases hxmem with rfl | ⟨a, ha, rfl⟩
        · simp
        · exact fun heq => hc (List.mem_append_left _ (QueueNode.block.inj heq ▸ ha))
      rw [Links.clear_prev_ne _ hne, Links.clear_next_ne _ hne, Links.setPrev_prev_ne _ _ hcy,
        Links.setPrev_next, Links.setNext_next_ne _ _ hcx]
      exact hout

theorem Represents.remove (h : Represents q l) (hb : b ∈ l) :
    ∃ q', q.remove b = .ok q' ∧ Represents q' (l.erase b) := by
  obtain ⟨l₁, l₂, rfl⟩ := List.append_of_mem hb
  obtain ⟨x, y, hprev, hnext, -, hrep⟩ := h.unlink
  have hnot : b ∉ l₁ := by
    have hsep := (List.nodup_append.mp h.nodup).2.2
    exact fun hmem => hsep b hmem b List.mem_cons_self rfl
  rw [List.erase_append_right _ hnot, List.erase_cons_head]
  refine ⟨_, ?_, hrep⟩
  unfold FreeKVCacheBlockQueue.remove
  rw [hprev, hnext]

theorem Represents.popleft_nil (h : Represents q []) :
    q.popleft = .error (.value "No free blocks available") := by
  have hnext : q.links.next fakeFreeListHead = some fakeFreeListTail := h.linked.1
  unfold FreeKVCacheBlockQueue.popleft
  rw [hnext]
  dsimp only
  unfold popleftEmpty
  rw [h.num]
  rfl

theorem Represents.popleft_cons (h : Represents q (b :: l)) :
    ∃ q', q.popleft = .ok (q', block b) ∧ Represents q' l := by
  have happend : Represents q ([] ++ b :: l) := h
  obtain ⟨x, y, -, hnext, hx, hrep⟩ := happend.unlink
  obtain rfl := hx rfl
  have hfirst : q.links.next fakeFreeListHead = some (block b) := h.linked.1
  refine ⟨_, ?_, hrep⟩
  unfold FreeKVCacheBlockQueue.popleft
  rw [hfirst]
  dsimp only
  rw [hnext]

/-- The loop pops the nodes up to `y`. -/
theorem popLoop_ok {y : QueueNode B} {right : List (QueueNode B)} :
    ∀ {bs : List (QueueNode B)} {h : Links (QueueNode B)}, h.Linked (bs ++ y :: right) →
      (bs ++ y :: right).Nodup →
      popLoop bs.length h (bs ++ y :: right).head? = .ok (h.clearAll bs, some y, bs) := by
  intro bs
  induction bs with
  | nil => intro h _ _; rfl
  | cons b bs ih =>
    intro h hl hnd
    obtain ⟨hb, hnd⟩ := List.nodup_cons.mp hnd
    obtain ⟨-, hrest⟩ := (Links.linked_append_cons (l := [])).mp hl
    have hnext : h.next b = (bs ++ y :: right).head? := by
      cases bs with
      | nil => exact hrest.1
      | cons c bs => exact hrest.1
    have hchain : h.Linked (bs ++ y :: right) := by
      cases bs with
      | nil => exact hrest.2.2
      | cons c bs => exact hrest.2.2
    show (popLoop bs.length (h.clear b) (h.next b) >>= fun res =>
      pure (res.1, res.2.1, b :: res.2.2)) = _
    rw [hnext, ih (hchain.clear hb) hnd]
    rfl

theorem Represents.popleftN (h : Represents q (l₁ ++ l₂)) :
    ∃ q', q.popleftN l₁.length = .ok (q', l₁.map block) ∧ Represents q' l₂ := by
  cases hl₁ : l₁ with
  | nil =>
    subst hl₁
    exact ⟨q, rfl, h⟩
  | cons a rest =>
    rw [← hl₁]
    obtain ⟨y, right, hy, hymem⟩ := exists_behind l₂
    have hnodes : nodes (l₁ ++ l₂) = fakeFreeListHead :: (l₁.map block ++ y :: right) := by
      rw [nodes, List.map_append, List.append_assoc, hy]
    have hnodes' : nodes l₂ = fakeFreeListHead :: y :: right := by rw [nodes, hy]
    have hnd := nodes_nodup h.nodup
    have hlinked := h.linked
    rw [hnodes] at hnd hlinked
    have hnext : q.links.next fakeFreeListHead = (l₁.map block ++ y :: right).head? := by
      rw [hl₁] at hlinked ⊢
      exact hlinked.1
    have hchain : q.links.Linked (l₁.map block ++ y :: right) := by
      rw [hl₁] at hlinked ⊢
      exact hlinked.2.2
    have hloop := popLoop_ok hchain (List.nodup_cons.mp hnd).2
    rw [List.length_map] at hloop
    have hne : (l₁.length : Int) ≠ 0 := by
      rw [hl₁, List.length_cons]
      omega
    have hmany : q.numFreeBlocks ≥ l₁.length := by
      rw [h.num, List.length_append]
      omega
    obtain ⟨-, hnd₂, hsep⟩ := List.nodup_append.mp h.nodup
    refine ⟨{ numFreeBlocks := q.numFreeBlocks - l₁.length
              links := (q.links.clearAll (l₁.map block)).join fakeFreeListHead y }, ?_,
      ⟨hnd₂, ?_, hnodes' ▸ hlinked.skip hnd, ?_, ?_, fun c hc => ?_⟩⟩
    · unfold FreeKVCacheBlockQueue.popleftN
      rw [if_neg hne, decide_eq_true hmany, Int.toNat_natCast, hnext, hloop]
      rfl
    · show q.numFreeBlocks - l₁.length = _
      rw [h.num, List.length_append]
      omega
    · have hy' : fakeFreeListHead ≠ y := by
        rcases hymem with rfl | ⟨a, -, rfl⟩
        · simp
        · simp
      rw [Links.join_prev_ne _ hy', Links.clearAll_prev_of_not_mem (by simp)]
      exact h.head
    · rw [Links.join_next_ne _ (by simp), Links.clearAll_next_of_not_mem (by simp)]
      exact h.tail
    · have hcy : block c ≠ y := by
        rcases hymem with rfl | ⟨a, ha, rfl⟩
        · simp
        · exact fun heq => hc (QueueNode.block.inj heq ▸ ha)
      rw [Links.join_prev_ne _ hcy, Links.join_next_ne _ (by simp)]
      by_cases hcl : c ∈ l₁
      · exact (Links.clearAll_of_mem (List.mem_map_of_mem hcl)).symm
      · have hnot : block c ∉ l₁.map block := by
          intro hmem
          obtain ⟨a, ha, heq⟩ := List.mem_map.mp hmem
          exact hcl (QueueNode.block.inj heq ▸ ha)
        rw [Links.clearAll_prev_of_not_mem hnot, Links.clearAll_next_of_not_mem hnot]
        exact h.outside c fun hmem => (List.mem_append.mp hmem).elim hcl hc

end Out

/-! ## Putting blocks in -/

section In

variable {q : FreeKVCacheBlockQueue B} {l : List B}

theorem Represents.append (h : Represents q l) {b : B} (hb : b ∉ l) :
    ∃ q', q.append b = .ok q' ∧ Represents q' (l ++ [b]) := by
  obtain ⟨left, x, hx, hxmem, -⟩ := exists_before l
  have hnodes : nodes l = left ++ [x, fakeFreeListTail] := by
    rw [nodes, ← List.cons_append, hx, List.append_assoc]
    rfl
  have hnodes' : nodes (l ++ [b]) = left ++ [x, block b, fakeFreeListTail] := by
    rw [nodes, List.map_append, List.append_assoc, ← List.cons_append, hx, List.append_assoc]
    rfl
  have hnd : (l ++ [b]).Nodup := by
    refine List.nodup_append.mpr ⟨h.nodup, List.nodup_singleton b, fun a ha c hc heq => ?_⟩
    rw [List.mem_singleton.mp hc] at heq
    exact hb (heq ▸ ha)
  have hlinked := h.linked
  rw [hnodes] at hlinked
  have hprev : q.links.prev fakeFreeListTail = some x :=
    (Links.linked_append_cons_cons.mp hlinked).2.2.1
  refine ⟨{ numFreeBlocks := q.numFreeBlocks + 1
            links := (q.links.join x (block b)).join (block b) fakeFreeListTail }, ?_,
    ⟨hnd, ?_, ?_, ?_, ?_, fun c hc => ?_⟩⟩
  · unfold FreeKVCacheBlockQueue.append
    rw [hprev]
    rfl
  · show q.numFreeBlocks + 1 = _
    rw [h.num, List.length_append, List.length_singleton]
    rfl
  · have hall := nodes_nodup hnd
    rw [hnodes'] at hall ⊢
    exact hlinked.insert hall
  · rw [Links.join_prev_ne _ (by simp), Links.join_prev_ne _ (by simp)]
    exact h.head
  · have hne : fakeFreeListTail ≠ x := by
      rcases hxmem with rfl | ⟨a, -, rfl⟩
      · simp
      · simp
    rw [Links.join_next_ne _ (by simp), Links.join_next_ne _ hne]
    exact h.tail
  · rw [List.mem_append, List.mem_singleton, not_or] at hc
    have hcb : block c ≠ block b := fun heq => hc.2 (QueueNode.block.inj heq)
    have hcx : block c ≠ x := by
      rcases hxmem with rfl | ⟨a, ha, rfl⟩
      · simp
      · exact fun heq => hc.1 (QueueNode.block.inj heq ▸ ha)
    rw [Links.join_prev_ne _ (by simp), Links.join_prev_ne _ hcb, Links.join_next_ne _ hcb,
      Links.join_next_ne _ hcx]
    exact h.outside c hc.1

theorem appendLoop_eq : ∀ (bs : List B) (h : Links (QueueNode B)) (x : QueueNode B),
    (appendLoop h x bs).1 = h.joinAll x (bs.map block) := by
  intro bs
  induction bs with
  | nil => intro h x; rfl
  | cons b bs ih => intro h x; exact ih _ _

theorem appendLoop_last : ∀ (bs : List B) (h : Links (QueueNode B)) (x : QueueNode B),
    ∃ left, x :: bs.map block = left ++ [(appendLoop h x bs).2] := by
  intro bs
  induction bs with
  | nil => intro h x; exact ⟨[], rfl⟩
  | cons b bs ih =>
    intro h x
    obtain ⟨left, hleft⟩ :=
      ih ((h.setPrev (block b) (some x)).setNext x (some (block b))) (block b)
    refine ⟨x :: left, ?_⟩
    rw [List.map_cons, hleft, appendLoop]
    rfl

theorem Represents.appendN (h : Represents q l) {bs : List B} (hbs : bs.Nodup)
    (hnew : ∀ b ∈ bs, b ∉ l) : ∃ q', q.appendN bs = .ok q' ∧ Represents q' (l ++ bs) := by
  cases hcase : bs with
  | nil =>
    refine ⟨q, rfl, ?_⟩
    rw [List.append_nil]
    exact h
  | cons b rest =>
    rw [← hcase]
    obtain ⟨left, x, hx, hxmem, -⟩ := exists_before l
    have hnodes : nodes l = left ++ [x, fakeFreeListTail] := by
      rw [nodes, ← List.cons_append, hx, List.append_assoc]
      rfl
    have hnd : (l ++ bs).Nodup :=
      List.nodup_append.mpr ⟨h.nodup, hbs, fun a ha c hc heq => hnew c hc (heq ▸ ha)⟩
    have hlinked := h.linked
    rw [hnodes] at hlinked
    obtain ⟨hleft, -, hprev, -⟩ := Links.linked_append_cons_cons.mp hlinked
    obtain ⟨front, hfront⟩ := appendLoop_last bs q.links x
    obtain ⟨last, hlast⟩ : ∃ last, last = (appendLoop q.links x bs).2 := ⟨_, rfl⟩
    rw [← hlast] at hfront
    have hall := nodes_nodup hnd
    have hnodes' : nodes (l ++ bs) = (left ++ x :: bs.map block) ++ [fakeFreeListTail] := by
      rw [nodes, List.map_append, ← List.cons_append, ← List.cons_append, hx]
      simp
    have hassoc : (left ++ x :: bs.map block) ++ [fakeFreeListTail]
        = (left ++ front) ++ last :: [fakeFreeListTail] := by
      rw [hfront]
      simp
    have hextend : (q.links.joinAll x (bs.map block)).Linked ((left ++ front) ++ [last]) := by
      rw [List.append_assoc, ← hfront]
      refine hleft.extend ?_
      rw [hnodes'] at hall
      exact (List.nodup_append.mp hall).1
    have hlastmem : last = x ∨ ∃ a ∈ bs, last = block a := by
      have hmem : last ∈ x :: bs.map block := by
        rw [hfront]
        exact List.mem_append_right _ (List.mem_singleton_self _)
      rcases List.mem_cons.mp hmem with heq | hmem
      · exact Or.inl heq
      · obtain ⟨a, ha, heq⟩ := List.mem_map.mp hmem
        exact Or.inr ⟨a, ha, heq.symm⟩
    have hne : bs.length ≠ 0 := by
      rw [hcase, List.length_cons]
      omega
    refine ⟨{ numFreeBlocks := q.numFreeBlocks + bs.length
              links := (q.links.joinAll x (bs.map block)).join last fakeFreeListTail }, ?_,
      ⟨hnd, ?_, ?_, ?_, ?_, fun c hc => ?_⟩⟩
    · unfold FreeKVCacheBlockQueue.appendN
      rw [if_neg hne, hprev]
      show Except.ok _ = _
      rw [← appendLoop_eq, hlast]
      rfl
    · show q.numFreeBlocks + bs.length = _
      rw [h.num, List.length_append]
      rfl
    · rw [hnodes', hassoc] at hall ⊢
      exact hextend.join trivial hall
    · rw [Links.join_prev_ne _ (by simp), Links.joinAll_prev_of_not_mem (by simp)]
      exact h.head
    · have hx' : fakeFreeListTail ≠ x := by
        rcases hxmem with rfl | ⟨a, -, rfl⟩
        · simp
        · simp
      have hl' : fakeFreeListTail ≠ last := by
        rcases hlastmem with rfl | ⟨a, -, rfl⟩
        · exact hx'
        · simp
      rw [Links.join_next_ne _ hl', Links.joinAll_next_of_not_mem (by simp [hx'])]
      exact h.tail
    · rw [List.mem_append, not_or] at hc
      have hcx : block c ≠ x := by
        rcases hxmem with rfl | ⟨a, ha, rfl⟩
        · simp
        · exact fun heq => hc.1 (QueueNode.block.inj heq ▸ ha)
      have hcbs : block c ∉ bs.map block := by
        intro hmem
        obtain ⟨a, ha, heq⟩ := List.mem_map.mp hmem
        exact hc.2 (QueueNode.block.inj heq ▸ ha)
      have hcl : block c ≠ last := by
        rcases hlastmem with rfl | ⟨a, ha, rfl⟩
        · exact hcx
        · exact fun heq => hc.2 (QueueNode.block.inj heq ▸ ha)
      rw [Links.join_prev_ne _ (by simp), Links.joinAll_prev_of_not_mem hcbs,
        Links.join_next_ne _ hcl, Links.joinAll_next_of_not_mem (by simp [hcx, hcbs])]
      exact h.outside c hc.1

omit [DecidableEq B] in
/-- The walk ends at the fake tail. -/
theorem collect_eq {h : Links (QueueNode B)} {t : QueueNode B} (ht : h.next t = none) :
    ∀ {bs : List (QueueNode B)} {x : QueueNode B}, h.Linked (x :: (bs ++ [t])) →
      ∀ fuel > bs.length + 1, collect h fuel x = some (x :: bs) := by
  intro bs
  induction bs with
  | nil =>
    intro x hl fuel hfuel
    obtain ⟨fuel, rfl⟩ := Nat.exists_eq_add_of_lt hfuel
    have hnext : h.next x = some t := hl.1
    rw [show [].length + 1 + fuel + 1 = fuel + 1 + 1 from by simp; omega]
    simp [collect, hnext, ht]
  | cons b bs ih =>
    intro x hl fuel hfuel
    obtain ⟨fuel, rfl⟩ : ∃ n, fuel = n + 1 := ⟨fuel - 1, by omega⟩
    have hnext : h.next x = some b := hl.1
    rw [collect, hnext]
    dsimp only
    rw [ih hl.2.2 fuel (by rw [List.length_cons] at hfuel; omega)]
    rfl

omit [DecidableEq B] in
theorem Represents.getAllFreeBlocks (h : Represents q l) :
    ∀ fuel > l.length, q.getAllFreeBlocks fuel = .ok (some (l.map block)) := by
  intro fuel hfuel
  unfold FreeKVCacheBlockQueue.getAllFreeBlocks
  cases l with
  | nil =>
    have hnext : q.links.next fakeFreeListHead = some fakeFreeListTail := h.linked.1
    obtain ⟨fuel, rfl⟩ : ∃ n, fuel = n + 1 := ⟨fuel - 1, by omega⟩
    rw [hnext]
    simp [collect, h.tail]
  | cons b l =>
    have hnext : q.links.next fakeFreeListHead = some (block b) := h.linked.1
    have hcollect : collect q.links fuel (block b) = some (block b :: l.map block) :=
      collect_eq h.tail h.linked.2.2 fuel (by rw [List.length_map]; exact hfuel)
    rw [hnext]
    dsimp only
    rw [hcollect]
    rfl

end In

/-! ## A new queue -/

theorem linkConsecutive_eq : ∀ (rest : List B) (h : Links (QueueNode B)) (a : B),
    linkConsecutive h (a :: rest) = h.joinAll (block a) (rest.map block) := by
  intro rest
  induction rest with
  | nil => intro h a; rfl
  | cons b rest ih => intro h a; exact ih _ b

theorem init_represents {blocks : List B} (hnd : blocks.Nodup) :
    Represents (init blocks) blocks := by
  cases hcase : blocks with
  | nil =>
    refine ⟨List.nodup_nil, rfl, ⟨?_, ?_, trivial⟩, ?_, ?_, fun b _ => ?_⟩
    · simp [init]
    · simp [init]
    · simp [init, linkConsecutive, Links.setPrev, Links.setNext]
    · simp [init, linkConsecutive, Links.setPrev, Links.setNext]
    · simp [init, linkConsecutive, Links.setPrev, Links.setNext]
  | cons a rest =>
    obtain ⟨last, hlast⟩ : ∃ last, (a :: rest).getLast? = some last :=
      ⟨_, List.getLast?_eq_some_getLast (List.cons_ne_nil a rest)⟩
    obtain ⟨front, hfront⟩ : ∃ front, a :: rest = front ++ [last] :=
      ⟨_, (List.dropLast_append_getLast? last hlast).symm⟩
    obtain ⟨h₀, hh₀⟩ : ∃ h₀ : Links (QueueNode B), h₀ = ⟨fun _ => none, fun _ => none⟩ :=
      ⟨_, rfl⟩
    have hinit : init (a :: rest)
        = { numFreeBlocks := (a :: rest).length
            links := ((h₀.joinAll (block a) (rest.map block)).join fakeFreeListHead
              (block a)).join (block last) fakeFreeListTail } := by
      unfold init
      rw [hlast, hh₀]
      dsimp only [List.head?_cons]
      rw [linkConsecutive_eq rest]
      rfl
    rw [hcase] at hnd
    have hall := nodes_nodup hnd
    have hnodes : nodes (a :: rest)
        = (fakeFreeListHead :: front.map block) ++ block last :: [fakeFreeListTail] := by
      rw [nodes, hfront, List.map_append, List.append_assoc]
      rfl
    have hchain : (h₀.joinAll (block a) (rest.map block)).Linked
        (block a :: rest.map block) := by
      refine Links.Linked.extend (l := []) trivial ?_
      exact (List.nodup_append.mp (List.nodup_cons.mp hall).2).1
    have hhead : ((h₀.joinAll (block a) (rest.map block)).join fakeFreeListHead
        (block a)).Linked ((fakeFreeListHead :: front.map block) ++ [block last]) := by
      have hsame : (fakeFreeListHead :: front.map block) ++ [block last]
          = fakeFreeListHead :: block a :: rest.map block := by
        rw [List.cons_append, ← List.map_singleton, ← List.map_append, ← hfront, List.map_cons]
      rw [hsame]
      refine Links.Linked.join (l := []) trivial hchain ?_
      rw [nodes, ← List.cons_append] at hall
      exact (List.nodup_append.mp hall).1
    have houtside : ∀ x, x ∉ block a :: rest.map block →
        (h₀.joinAll (block a) (rest.map block)).prev x = none ∧
          (h₀.joinAll (block a) (rest.map block)).next x = none := by
      intro x hx
      rw [Links.joinAll_prev_of_not_mem fun hmem => hx (List.mem_cons_of_mem _ hmem),
        Links.joinAll_next_of_not_mem hx, hh₀]
      exact ⟨rfl, rfl⟩
    rw [hinit]
    refine ⟨hnd, rfl, ?_, ?_, ?_, fun c hc => ?_⟩
    · rw [hnodes] at hall ⊢
      exact hhead.join trivial hall
    · rw [Links.join_prev_ne _ (by simp), Links.join_prev_ne _ (by simp)]
      exact (houtside _ (by simp)).1
    · rw [Links.join_next_ne _ (by simp), Links.join_next_ne _ (by simp)]
      exact (houtside _ (by simp)).2
    · have hout : block c ∉ block a :: rest.map block := by
        intro hmem
        obtain ⟨d, hd, heq⟩ := List.mem_map.mp (List.map_cons ▸ hmem)
        exact hc (QueueNode.block.inj heq ▸ hd)
      have hca : block c ≠ block a := fun heq => hout (heq ▸ List.mem_cons_self)
      have hcl : block c ≠ block last := by
        intro heq
        refine hc (QueueNode.block.inj heq ▸ ?_)
        rw [hfront]
        exact List.mem_append_right _ (List.mem_singleton_self _)
      rw [Links.join_prev_ne _ (by simp), Links.join_prev_ne _ hca, Links.join_next_ne _ hcl,
        Links.join_next_ne _ (by simp)]
      exact houtside _ hout

/-! ## Several calls for one -/

/-- `popleft`, `n` times. -/
def poplefts : Nat → FreeKVCacheBlockQueue B →
    Except Python.Error (FreeKVCacheBlockQueue B × List (QueueNode B))
  | 0, q => .ok (q, [])
  | n + 1, q => do
    let (q, b) ← q.popleft
    let (q, bs) ← poplefts n q
    return (q, b :: bs)

theorem Represents.poplefts : ∀ {l₁ l₂ : List B} {q : FreeKVCacheBlockQueue B},
    Represents q (l₁ ++ l₂) → ∃ q', FreeKVCacheBlockQueue.poplefts l₁.length q
      = .ok (q', l₁.map block) ∧ Represents q' l₂ := by
  intro l₁
  induction l₁ with
  | nil => intro l₂ q h; exact ⟨q, rfl, h⟩
  | cons b l₁ ih =>
    intro l₂ q h
    obtain ⟨q₁, hpop, h₁⟩ := Represents.popleft_cons (l := l₁ ++ l₂) h
    obtain ⟨q₂, hrest, h₂⟩ := ih h₁
    refine ⟨q₂, ?_, h₂⟩
    rw [List.length_cons, FreeKVCacheBlockQueue.poplefts, hpop, Raises.ok_bind]
    dsimp only
    rw [hrest]
    rfl

/-- A batch is as good as single calls, on the pointers too. -/
theorem Represents.popleftN_eq {q : FreeKVCacheBlockQueue B} {l : List B} (h : Represents q l)
    {n : Nat} (hn : n ≤ l.length) :
    q.popleftN n = FreeKVCacheBlockQueue.poplefts n q := by
  have hsplit : Represents q (l.take n ++ l.drop n) := by rwa [List.take_append_drop]
  have hlen : (l.take n).length = n := List.length_take_of_le hn
  obtain ⟨q₁, hbatch, h₁⟩ := hsplit.popleftN
  obtain ⟨q₂, hsingle, h₂⟩ := hsplit.poplefts
  rw [hlen] at hbatch hsingle
  rw [hbatch, hsingle, h₁.unique h₂]

theorem Represents.appends : ∀ {bs l : List B} {q : FreeKVCacheBlockQueue B}, Represents q l →
    bs.Nodup → (∀ b ∈ bs, b ∉ l) →
    ∃ q', bs.foldlM FreeKVCacheBlockQueue.append q = .ok q' ∧ Represents q' (l ++ bs) := by
  intro bs
  induction bs with
  | nil =>
    intro l q h _ _
    refine ⟨q, rfl, ?_⟩
    rwa [List.append_nil]
  | cons b bs ih =>
    intro l q h hbs hnew
    obtain ⟨hb, hbs⟩ := List.nodup_cons.mp hbs
    obtain ⟨q₁, hone, h₁⟩ := h.append (hnew b List.mem_cons_self)
    obtain ⟨q₂, hrest, h₂⟩ := ih h₁ hbs fun c hc hmem => by
      rcases List.mem_append.mp hmem with hmem | hmem
      · exact hnew c (List.mem_cons_of_mem b hc) hmem
      · exact hb (List.mem_singleton.mp hmem ▸ hc)
    refine ⟨q₂, ?_, ?_⟩
    · rw [List.foldlM_cons, hone, Raises.ok_bind, hrest]
    · rwa [List.append_assoc] at h₂

theorem Represents.appendN_eq {q : FreeKVCacheBlockQueue B} {l bs : List B} (h : Represents q l)
    (hbs : bs.Nodup) (hnew : ∀ b ∈ bs, b ∉ l) :
    q.appendN bs = bs.foldlM FreeKVCacheBlockQueue.append q := by
  obtain ⟨q₁, hbatch, h₁⟩ := h.appendN hbs hnew
  obtain ⟨q₂, hsingle, h₂⟩ := h.appends hbs hnew
  rw [hbatch, hsingle, h₁.unique h₂]

end FreeKVCacheBlockQueue

/-! ## Sequences of calls -/

inductive QueueCall (B : Type)
  | popleft
  | popleftN (n : Int)
  | remove (b : B)
  | append (b : B)
  | appendN (blocks : List B)
  | getAllFreeBlocks

/-- What a call returns, or raises. -/
abbrev QueueReply (B : Type) := Except Python.Error (Option (List (QueueNode B)))

namespace FreeKVCacheBlockQueue

/-- One call. A call that raises has changed nothing. -/
def call (fuel : Nat) (q : FreeKVCacheBlockQueue B) :
    QueueCall B → FreeKVCacheBlockQueue B × QueueReply B
  | .popleft =>
    match q.popleft with
    | .ok (q', b) => (q', .ok (some [b]))
    | .error e => (q, .error e)
  | .popleftN n =>
    match q.popleftN n with
    | .ok (q', bs) => (q', .ok (some bs))
    | .error e => (q, .error e)
  | .remove b =>
    match q.remove b with
    | .ok q' => (q', .ok (some []))
    | .error e => (q, .error e)
  | .append b =>
    match q.append b with
    | .ok q' => (q', .ok (some []))
    | .error e => (q, .error e)
  | .appendN bs =>
    match q.appendN bs with
    | .ok q' => (q', .ok (some []))
    | .error e => (q, .error e)
  | .getAllFreeBlocks => (q, q.getAllFreeBlocks fuel)

/-- The calls in order, and what they return. -/
def calls (fuel : Nat) : FreeKVCacheBlockQueue B → List (QueueCall B) →
    FreeKVCacheBlockQueue B × List (QueueReply B)
  | q, [] => (q, [])
  | q, c :: cs =>
    let (q, reply) := q.call fuel c
    let (q, replies) := calls fuel q cs
    (q, reply :: replies)

/-- The calls on a plain list. -/
def listCall (l : List B) : QueueCall B → List B × Except Python.Error (List B)
  | .popleft =>
    match l with
    | [] => ([], .error (.value "No free blocks available"))
    | b :: l => (l, .ok [b])
  | .popleftN n =>
    if n ≤ l.length then (l.drop n.toNat, .ok (l.take n.toNat)) else (l, .error (.assertion ""))
  | .remove b => (l.erase b, .ok [])
  | .append b => (l ++ [b], .ok [])
  | .appendN bs => (l ++ bs, .ok [])
  | .getAllFreeBlocks => (l, .ok l)

def listCalls : List B → List (QueueCall B) → List B × List (Except Python.Error (List B))
  | l, [] => (l, [])
  | l, c :: cs =>
    let (l, reply) := listCall l c
    let (l, replies) := listCalls l cs
    (l, reply :: replies)

/-- The blocks of a list as a reply of the queue. -/
def asReply (reply : Except Python.Error (List B)) : QueueReply B :=
  reply.map fun bs => some (bs.map block)

/-- Each call is allowed on the list that the calls before it leave. -/
def Along (allowed : List B → QueueCall B → Prop) : List B → List (QueueCall B) → Prop
  | _, [] => True
  | l, c :: cs => allowed l c ∧ Along allowed (listCall l c).1 cs

/-- Only members are removed, and only blocks outside the queue are put into it. -/
def Allowed (l : List B) : QueueCall B → Prop
  | .popleftN n => 0 ≤ n
  | .remove b => b ∈ l
  | .append b => b ∉ l
  | .appendN bs => bs.Nodup ∧ ∀ b ∈ bs, b ∉ l
  | _ => True

theorem call_fuel (fuel fuel' : Nat) (q : FreeKVCacheBlockQueue B) (c : QueueCall B) :
    (q.call fuel c).1 = (q.call fuel' c).1 := by
  cases c with
  | getAllFreeBlocks => rfl
  | _ => rfl

/-- **One call** answers as the list does. -/
theorem Represents.call {q : FreeKVCacheBlockQueue B} {l : List B} (h : Represents q l)
    {c : QueueCall B} (hc : Allowed l c) {fuel : Nat} (hfuel : l.length < fuel) :
    Represents (q.call fuel c).1 (listCall l c).1 ∧
      (q.call fuel c).2 = asReply (listCall l c).2 := by
  cases c with
  | popleft =>
    cases l with
    | nil =>
      rw [FreeKVCacheBlockQueue.call, h.popleft_nil]
      exact ⟨h, rfl⟩
    | cons b l =>
      obtain ⟨q', hpop, h'⟩ := h.popleft_cons
      rw [FreeKVCacheBlockQueue.call, hpop]
      exact ⟨h', rfl⟩
  | popleftN n =>
    obtain ⟨k, rfl⟩ := Int.eq_ofNat_of_zero_le hc
    rw [FreeKVCacheBlockQueue.call, listCall]
    by_cases hk : (k : Int) ≤ l.length
    · have hsplit : Represents q (l.take k ++ l.drop k) := by rwa [List.take_append_drop]
      obtain ⟨q', hpop, h'⟩ := hsplit.popleftN
      rw [List.length_take_of_le (by omega)] at hpop
      rw [if_pos hk, hpop]
      exact ⟨h', rfl⟩
    · have hraise : q.popleftN k = .error (.assertion "") := by
        unfold FreeKVCacheBlockQueue.popleftN
        rw [if_neg (by omega), h.num, decide_eq_false hk]
        rfl
      rw [if_neg hk, hraise]
      exact ⟨h, rfl⟩
  | remove b =>
    obtain ⟨q', hremove, h'⟩ := h.remove hc
    rw [FreeKVCacheBlockQueue.call, hremove]
    exact ⟨h', rfl⟩
  | append b =>
    obtain ⟨q', happend, h'⟩ := h.append hc
    rw [FreeKVCacheBlockQueue.call, happend]
    exact ⟨h', rfl⟩
  | appendN bs =>
    obtain ⟨q', happend, h'⟩ := h.appendN hc.1 hc.2
    rw [FreeKVCacheBlockQueue.call, happend]
    exact ⟨h', rfl⟩
  | getAllFreeBlocks => exact ⟨h, h.getAllFreeBlocks fuel hfuel⟩

/-- **Sequences of calls**, by induction on the calls. Each call of `get_all_free_blocks` needs some
fuel, and the whole sequence the most of these. -/
theorem Represents.calls : ∀ {cs : List (QueueCall B)} {q : FreeKVCacheBlockQueue B} {l : List B},
    Represents q l → Along Allowed l cs → ∃ fuel₀, ∀ fuel ≥ fuel₀,
      Represents (q.calls fuel cs).1 (listCalls l cs).1 ∧
        (q.calls fuel cs).2 = (listCalls l cs).2.map asReply := by
  intro cs
  induction cs with
  | nil => intro q l h _; exact ⟨0, fun fuel _ => ⟨h, rfl⟩⟩
  | cons c cs ih =>
    intro q l h hcs
    obtain ⟨hrep, -⟩ := h.call hcs.1 (Nat.lt_succ_self l.length)
    obtain ⟨fuel₁, hrest⟩ := ih hrep hcs.2
    refine ⟨max fuel₁ (l.length + 1), fun fuel hfuel => ?_⟩
    obtain ⟨hone, hreply⟩ := h.call hcs.1 (show l.length < fuel by omega)
    obtain ⟨hlast, hreplies⟩ := hrest fuel (by omega)
    rw [call_fuel (l.length + 1) fuel q c] at hlast hreplies
    refine ⟨hlast, ?_⟩
    show (q.call fuel c).2 :: ((q.call fuel c).1.calls fuel cs).2 = _
    rw [hreply, hreplies]
    rfl

theorem listCall_no_runtime (l : List B) (c : QueueCall B) (msg : String) :
    (listCall l c).2 ≠ .error (.runtime msg) := by
  unfold listCall
  split
  · split
    · simp
    · simp
  · split
    · simp
    · simp
  · simp
  · simp
  · simp
  · simp

theorem listCalls_no_runtime : ∀ (cs : List (QueueCall B)) (l : List B),
    ∀ reply ∈ (listCalls l cs).2, ∀ msg, reply ≠ .error (.runtime msg) := by
  intro cs
  induction cs with
  | nil => intro l reply hreply; cases hreply
  | cons c cs ih =>
    intro l reply hreply msg
    rcases List.mem_cons.mp hreply with rfl | hreply
    · exact listCall_no_runtime l c msg
    · exact ih _ reply hreply msg

/-- **The free block queue is a list.** In every sequence of calls that remove members and put in
blocks from outside, the queue represents the list that the same calls leave, its replies are those
of the list, no `RuntimeError` is raised, and a batch is as good as single calls. -/
theorem freeQueue_refines {blocks : List B} (hblocks : blocks.Nodup) {cs : List (QueueCall B)}
    (hcs : Along Allowed blocks cs) : ∃ fuel₀, ∀ fuel ≥ fuel₀,
      Represents ((init blocks).calls fuel cs).1 (listCalls blocks cs).1 ∧
      ((init blocks).calls fuel cs).2 = (listCalls blocks cs).2.map asReply ∧
      (∀ reply ∈ ((init blocks).calls fuel cs).2, ∀ msg, reply ≠ .error (.runtime msg)) ∧
      (∀ n : Nat, n ≤ (listCalls blocks cs).1.length →
        ((init blocks).calls fuel cs).1.popleftN n
          = FreeKVCacheBlockQueue.poplefts n ((init blocks).calls fuel cs).1) ∧
      (∀ bs : List B, bs.Nodup → (∀ b ∈ bs, b ∉ (listCalls blocks cs).1) →
        ((init blocks).calls fuel cs).1.appendN bs
          = bs.foldlM FreeKVCacheBlockQueue.append ((init blocks).calls fuel cs).1) := by
  obtain ⟨fuel₀, hrun⟩ := (init_represents hblocks).calls hcs
  refine ⟨fuel₀, fun fuel hfuel => ?_⟩
  obtain ⟨hrep, hreplies⟩ := hrun fuel hfuel
  refine ⟨hrep, hreplies, fun reply hreply msg heq => ?_, fun n hn => hrep.popleftN_eq hn,
    fun bs hbs hnew => hrep.appendN_eq hbs hnew⟩
  rw [hreplies] at hreply
  obtain ⟨reply', hreply', rfl⟩ := List.mem_map.mp hreply
  have hno := listCalls_no_runtime cs blocks reply' hreply' msg
  cases reply' with
  | ok bs => cases heq
  | error e => exact hno (congrArg Except.error (Except.error.inj heq))

/-- Three blocks are taken and put back in another order. -/
def mixedCalls : List (QueueCall Nat) :=
  [.popleft, .remove 2, .popleftN 5, .append 0, .appendN [2], .popleftN 2, .getAllFreeBlocks]

theorem freeQueue_refines_mixed : ∃ fuel₀, ∀ fuel ≥ fuel₀,
    Represents ((init [0, 1, 2, 3]).calls fuel mixedCalls).1 [0, 2] := by
  have hcs : Along Allowed [0, 1, 2, 3] mixedCalls := by
    simp [mixedCalls, Along, Allowed, listCall]
  obtain ⟨fuel₀, hrun⟩ := freeQueue_refines (by decide) hcs
  exact ⟨fuel₀, fun fuel hfuel => (hrun fuel hfuel).1⟩

/-! ## A block that is appended twice -/

/-- Block `0` comes after block `1`, but it is also still the first one: the queue is `[0]` with
three blocks counted, where the list is `[0, 1, 0]`. -/
theorem appended_twice :
    ¬ ∀ (blocks : List Nat) (cs : List (QueueCall Nat)), blocks.Nodup →
      Along (fun l c => ∀ b, c = .remove b → b ∈ l) blocks cs → ∃ fuel₀, ∀ fuel ≥ fuel₀,
        ((init blocks).calls fuel cs).2 = (listCalls blocks cs).2.map asReply := by
  intro h
  obtain ⟨fuel₀, hrun⟩ := h [0, 1] [.append 0, .getAllFreeBlocks] (by decide)
    ⟨fun b hb => (by cases hb), fun b hb => (by cases hb), trivial⟩
  have hreplies := hrun (fuel₀ + 3) (Nat.le_add_right fuel₀ 3)
  have hqueue : ((init [0, 1]).calls (fuel₀ + 3) [.append 0, .getAllFreeBlocks]).2
      = [.ok (some []), .ok (some [block 0])] := rfl
  have hlist : (listCalls [0, 1] [.append 0, .getAllFreeBlocks]).2.map asReply
      = [.ok (some []), .ok (some [block 0, block 1, block 0])] := rfl
  rw [hqueue, hlist] at hreplies
  simp at hreplies

end FreeKVCacheBlockQueue

/-! ## The pool's queue -/

namespace BlockPool

open FreeKVCacheBlockQueue

variable {H : Type} {p p' : BlockPool H} {q : FreeKVCacheBlockQueue BlockId}

/-- What the pool says about its free blocks is what its queue does. -/
theorem popleftN_refines (hq : Represents q p.freeBlocks) {n : Nat} {bs : List BlockId}
    (h : p.popleftN n = .ok (p', bs)) :
    ∃ q', q.popleftN n = .ok (q', bs.map block) ∧ Represents q' p'.freeBlocks := by
  unfold BlockPool.popleftN at h
  split at h
  next hzero =>
    obtain ⟨rfl, rfl⟩ := Prod.mk.inj (Except.ok.inj h)
    refine ⟨q, ?_, hq⟩
    rw [FreeKVCacheBlockQueue.popleftN, if_pos hzero]
    rfl
  next =>
    split at h
    · split at h
      next hle =>
        obtain ⟨rfl, rfl⟩ := Prod.mk.inj (Except.ok.inj h)
        rw [Int.toNat_natCast] at hle ⊢
        have hsplit : Represents q (p.freeBlocks.take n ++ p.freeBlocks.drop n) := by
          rwa [List.take_append_drop]
        have hpop := hsplit.popleftN
        rwa [List.length_take_of_le hle] at hpop
      next => cases h
    · cases h

theorem removeFree_refines (hq : Represents q p.freeBlocks) {b : BlockId}
    (h : p.removeFree b = .ok p') :
    ∃ q', q.remove b = .ok q' ∧ Represents q' p'.freeBlocks := by
  unfold BlockPool.removeFree at h
  split at h
  next hb =>
    obtain rfl := Except.ok.inj h
    exact hq.remove hb
  next => cases h

/-- `free_blocks` appends the blocks whose count drops to zero. -/
theorem freeBlocksOf_refines (hq : Represents q p.freeBlocks) {bs : List BlockId}
    (hnd : (p.freeBlocksOf bs).freeBlocks.Nodup) :
    ∃ freed q', (p.freeBlocksOf bs).freeBlocks = p.freeBlocks ++ freed ∧
      q.appendN freed = .ok q' ∧ Represents q' (p.freeBlocksOf bs).freeBlocks := by
  obtain ⟨freed, hfreed⟩ : ∃ freed, (p.freeBlocksOf bs).freeBlocks = p.freeBlocks ++ freed :=
    ⟨_, rfl⟩
  rw [hfreed] at hnd ⊢
  obtain ⟨-, hnew, hsep⟩ := List.nodup_append.mp hnd
  obtain ⟨q', happend, h'⟩ := hq.appendN hnew fun b hb hmem => hsep b hmem b hb rfl
  exact ⟨freed, q', rfl, happend, h'⟩

end BlockPool

end VllmEngine
