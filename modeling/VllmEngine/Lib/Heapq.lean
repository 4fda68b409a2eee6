import Mathlib.Order.Basic

/-!
# Binary heaps in a list

Python's `heapq`: a binary heap in a plain list, ordered by a strict comparison
`lt` that may change between two calls. The loops move an item by exchanging
it with its parent or child, so that whatever `lt` says the list keeps its
elements:

> `heappush_perm`, `heappop_perm`: a push adds the item, a pop returns the head and
> leaves the rest.
-/

namespace Heapq

variable {α : Type}

/-- Exchange two entries; out of range nothing happens. -/
def swap (heap : List α) (i j : Nat) : List α :=
  match heap[i]?, heap[j]? with
  | some a, some b => (heap.set i b).set j a
  | _, _ => heap

/-- `_siftdown`: move the item at `pos` towards the root `startpos`. -/
def siftdown (lt : α → α → Bool) (startpos : Nat) : Nat → Nat → List α → List α
  | 0, _, heap => heap
  | bound + 1, pos, heap =>
    if pos > startpos then
      let parentpos := (pos - 1) / 2
      match heap[pos]?, heap[parentpos]? with
      | some newitem, some parent =>
        if lt newitem parent then siftdown lt startpos bound parentpos (swap heap pos parentpos)
        else heap
      | _, _ => heap
    else heap

/-- The child of `pos` that `_siftup` moves up: the right one unless the left
one is smaller. -/
def smallerChild (lt : α → α → Bool) (heap : List α) (pos : Nat) : Nat :=
  match heap[2 * pos + 1]?, heap[2 * pos + 2]? with
  | some left, some right => if lt left right then 2 * pos + 1 else 2 * pos + 2
  | _, _ => 2 * pos + 1

/-- `_siftup`: move the item at `pos` down to a leaf, then up to its place below
`startpos`. -/
def siftup (lt : α → α → Bool) (startpos : Nat) : Nat → Nat → List α → List α
  | 0, pos, heap => siftdown lt startpos heap.length pos heap
  | bound + 1, pos, heap =>
    if 2 * pos + 1 < heap.length then
      let childpos := smallerChild lt heap pos
      siftup lt startpos bound childpos (swap heap pos childpos)
    else siftdown lt startpos heap.length pos heap

/-- `heappush`. -/
def heappush (lt : α → α → Bool) (heap : List α) (item : α) : List α :=
  siftdown lt 0 (heap.length + 1) heap.length (heap ++ [item])

/-- `heappop`: the smallest item and the rest, `none` on an empty heap. -/
def heappop (lt : α → α → Bool) (heap : List α) : Option (α × List α) :=
  match heap with
  | [] => none
  | head :: tail =>
    match tail.getLast? with
    | none => some (head, [])
    | some lastelt => some (head, siftup lt 0 heap.length 0 (lastelt :: tail.dropLast))

/-- The loop of `heapify` over the positions `n - 1, …, 0`. -/
def heapifyLoop (lt : α → α → Bool) : Nat → List α → List α
  | 0, heap => heap
  | n + 1, heap => heapifyLoop lt n (siftup lt n heap.length n heap)

/-- `heapify`. -/
def heapify (lt : α → α → Bool) (heap : List α) : List α :=
  heapifyLoop lt (heap.length / 2) heap

/-- The items in the order of successive pops. -/
def popAll (lt : α → α → Bool) : Nat → List α → List α
  | 0, _ => []
  | bound + 1, heap =>
    match heappop lt heap with
    | none => []
    | some (item, rest) => item :: popAll lt bound rest

/-! ## The elements stay -/

variable {lt : α → α → Bool}

theorem swap_perm (heap : List α) (i j : Nat) : (swap heap i j).Perm heap := by
  unfold swap
  split
  · rename_i a b ha hb
    obtain ⟨hi, rfl⟩ := List.getElem?_eq_some_iff.mp ha
    obtain ⟨hj, rfl⟩ := List.getElem?_eq_some_iff.mp hb
    exact List.set_set_perm hi hj
  · exact List.Perm.refl heap

theorem siftdown_perm (startpos : Nat) :
    ∀ (bound pos : Nat) (heap : List α), (siftdown lt startpos bound pos heap).Perm heap := by
  intro bound
  induction bound with
  | zero => intro pos heap; exact List.Perm.refl heap
  | succ bound ih =>
    intro pos heap
    rw [siftdown]
    split
    · dsimp only
      split
      · split
        · exact (ih _ _).trans (swap_perm _ _ _)
        · exact List.Perm.refl heap
      · exact List.Perm.refl heap
    · exact List.Perm.refl heap

theorem siftup_perm (startpos : Nat) :
    ∀ (bound pos : Nat) (heap : List α), (siftup lt startpos bound pos heap).Perm heap := by
  intro bound
  induction bound with
  | zero => intro pos heap; exact siftdown_perm _ _ _ _
  | succ bound ih =>
    intro pos heap
    rw [siftup]
    split
    · exact (ih _ _).trans (swap_perm _ _ _)
    · exact siftdown_perm _ _ _ _

theorem heappush_perm (heap : List α) (item : α) : (heappush lt heap item).Perm (item :: heap) :=
  (siftdown_perm _ _ _ _).trans (List.perm_append_singleton item heap)

/-- A pop returns the head and leaves the other items. -/
theorem heappop_perm {heap rest : List α} {item : α} (h : heappop lt heap = some (item, rest)) :
    heap.head? = some item ∧ heap.Perm (item :: rest) := by
  unfold heappop at h
  cases heap with
  | nil => cases h
  | cons head tail =>
    dsimp only at h
    cases hlast : tail.getLast? with
    | none =>
      rw [hlast] at h
      obtain ⟨rfl, rfl⟩ := Prod.mk.inj (Option.some.inj h)
      rw [List.getLast?_eq_none_iff] at hlast
      rw [hlast]
      exact ⟨rfl, List.Perm.refl _⟩
    | some lastelt =>
      rw [hlast] at h
      obtain ⟨rfl, rfl⟩ := Prod.mk.inj (Option.some.inj h)
      refine ⟨rfl, List.Perm.cons _ (List.Perm.symm ?_)⟩
      obtain ⟨front, rfl⟩ := List.getLast?_eq_some_iff.mp hlast
      refine (siftup_perm _ _ _ _).trans ?_
      rw [List.dropLast_concat]
      exact (List.perm_append_singleton lastelt front).symm

end Heapq
