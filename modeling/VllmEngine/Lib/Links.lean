import Mathlib.Data.List.Basic

/-!
# Doubly linked lists

Nodes with a pointer to the previous and one to the next node. `Linked` says that a list of nodes
is a chain: the pointers of neighbours are inverse to each other. A chain is changed in four
places only: a node is taken out of it or put into it, nodes at its front are dropped, and nodes
are added at its end. The lemmas say what each change does to the chain, for any nodes.

> `Linked.unlink`, `Linked.insert`, `Linked.skip`, `Linked.extend`: the chain after each change,
> `Linked.next_eq`, `Linked.prev_eq`: a chain determines its pointers.
-/

structure Links (N : Type) where
  prev : N → Option N
  next : N → Option N

namespace Links

variable {N : Type} [DecidableEq N]

/-! ## Writing pointers -/

def setPrev (h : Links N) (x : N) (p : Option N) : Links N :=
  { h with prev := Function.update h.prev x p }

def setNext (h : Links N) (x : N) (p : Option N) : Links N :=
  { h with next := Function.update h.next x p }

/-- Both pointers of a node become null. -/
def clear (h : Links N) (x : N) : Links N := (h.setPrev x none).setNext x none

/-- `y` comes after `x`. -/
def join (h : Links N) (x y : N) : Links N := (h.setNext x (some y)).setPrev y (some x)

@[simp] theorem setPrev_next (h : Links N) (x : N) (p : Option N) :
    (h.setPrev x p).next = h.next := rfl

@[simp] theorem setPrev_prev_self (h : Links N) (x : N) (p : Option N) :
    (h.setPrev x p).prev x = p := by simp [setPrev]

@[simp] theorem setNext_next_self (h : Links N) (x : N) (p : Option N) :
    (h.setNext x p).next x = p := by simp [setNext]

theorem setPrev_prev_ne (h : Links N) {x y : N} (p : Option N) (hne : y ≠ x) :
    (h.setPrev x p).prev y = h.prev y := by simp [setPrev, hne]

theorem setNext_next_ne (h : Links N) {x y : N} (p : Option N) (hne : y ≠ x) :
    (h.setNext x p).next y = h.next y := by simp [setNext, hne]

@[simp] theorem join_next_self (h : Links N) (x y : N) : (h.join x y).next x = some y :=
  setNext_next_self h x (some y)

@[simp] theorem join_prev_self (h : Links N) (x y : N) : (h.join x y).prev y = some x :=
  setPrev_prev_self (h.setNext x (some y)) y (some x)

theorem join_next_ne (h : Links N) {x y z : N} (hne : z ≠ x) : (h.join x y).next z = h.next z :=
  setNext_next_ne h (some y) hne

theorem join_prev_ne (h : Links N) {x y z : N} (hne : z ≠ y) : (h.join x y).prev z = h.prev z :=
  setPrev_prev_ne (h.setNext x (some y)) (some x) hne

@[simp] theorem clear_next_self (h : Links N) (x : N) : (h.clear x).next x = none :=
  setNext_next_self (h.setPrev x none) x none

@[simp] theorem clear_prev_self (h : Links N) (x : N) : (h.clear x).prev x = none :=
  setPrev_prev_self h x none

theorem clear_next_ne (h : Links N) {x y : N} (hne : y ≠ x) : (h.clear x).next y = h.next y :=
  setNext_next_ne (h.setPrev x none) none hne

theorem clear_prev_ne (h : Links N) {x y : N} (hne : y ≠ x) : (h.clear x).prev y = h.prev y :=
  setPrev_prev_ne h none hne

/-! ## Chains -/

/-- The pointers of neighbours are inverse to each other. -/
def Linked (h : Links N) : List N → Prop
  | x :: y :: rest => h.next x = some y ∧ h.prev y = some x ∧ Linked h (y :: rest)
  | _ => True

variable {h h' : Links N} {l r : List N} {x y b : N}

omit [DecidableEq N] in
theorem linked_append_cons : ∀ {l : List N},
    Linked h (l ++ x :: r) ↔ Linked h (l ++ [x]) ∧ Linked h (x :: r) := by
  intro l
  induction l with
  | nil => exact ⟨fun hl => ⟨trivial, hl⟩, fun hl => hl.2⟩
  | cons a l ih =>
    cases l with
    | nil =>
      constructor
      · rintro ⟨hn, hp, hr⟩
        exact ⟨⟨hn, hp, trivial⟩, hr⟩
      · rintro ⟨⟨hn, hp, -⟩, hr⟩
        exact ⟨hn, hp, hr⟩
    | cons c l =>
      constructor
      · rintro ⟨hn, hp, hr⟩
        obtain ⟨hleft, hright⟩ := ih.mp hr
        exact ⟨⟨hn, hp, hleft⟩, hright⟩
      · rintro ⟨⟨hn, hp, hleft⟩, hright⟩
        exact ⟨hn, hp, ih.mpr ⟨hleft, hright⟩⟩

omit [DecidableEq N] in
/-- Neighbours anywhere in a chain. -/
theorem linked_append_cons_cons :
    Linked h (l ++ x :: y :: r) ↔ Linked h (l ++ [x]) ∧ h.next x = some y ∧ h.prev y = some x ∧
      Linked h (y :: r) := linked_append_cons

omit [DecidableEq N] in
/-- A chain only reads the next pointers of all but its last node, and the previous pointers of
all but its first one. -/
theorem Linked.congr : ∀ {l : List N}, Linked h l → (∀ z ∈ l.dropLast, h'.next z = h.next z) →
    (∀ z ∈ l.tail, h'.prev z = h.prev z) → Linked h' l := by
  intro l
  induction l with
  | nil => intro _ _ _; trivial
  | cons a l ih =>
    intro hl hnext hprev
    cases l with
    | nil => trivial
    | cons c l =>
      obtain ⟨hn, hp, hr⟩ := hl
      rw [List.dropLast_cons_cons] at hnext
      refine ⟨?_, ?_, ih hr (fun z hz => hnext z (List.mem_cons_of_mem a hz)) fun z hz => ?_⟩
      · rw [hnext a List.mem_cons_self, hn]
      · rw [hprev c List.mem_cons_self, hp]
      · exact hprev z (List.mem_cons_of_mem c hz)

omit [DecidableEq N] in
/-- A chain determines the next pointers of all but its last node. -/
theorem Linked.next_eq : ∀ {l : List N}, Linked h l → Linked h' l →
    ∀ z ∈ l.dropLast, h'.next z = h.next z := by
  intro l
  induction l with
  | nil => intro _ _ z hz; cases hz
  | cons a l ih =>
    intro hl hl' z hz
    cases l with
    | nil => cases hz
    | cons c l =>
      rw [List.dropLast_cons_cons] at hz
      rcases List.mem_cons.mp hz with rfl | hz
      · rw [hl.1, hl'.1]
      · exact ih hl.2.2 hl'.2.2 z hz

omit [DecidableEq N] in
/-- A chain determines the previous pointers of all but its first node. -/
theorem Linked.prev_eq : ∀ {l : List N}, Linked h l → Linked h' l →
    ∀ z ∈ l.tail, h'.prev z = h.prev z := by
  intro l
  induction l with
  | nil => intro _ _ z hz; cases hz
  | cons a l ih =>
    intro hl hl' z hz
    cases l with
    | nil => cases hz
    | cons c l =>
      rcases List.mem_cons.mp hz with rfl | hz
      · rw [hl.2.1, hl'.2.1]
      · exact ih hl.2.2 hl'.2.2 z hz

/-! ## Changing a chain -/

/-- Two chains become one. -/
theorem Linked.join (hleft : Linked h (l ++ [x])) (hright : Linked h (y :: r))
    (hnd : (l ++ x :: y :: r).Nodup) : Linked (h.join x y) (l ++ x :: y :: r) := by
  obtain ⟨-, hxy, hsep⟩ := List.nodup_append.mp hnd
  obtain ⟨hx, hyr⟩ := List.nodup_cons.mp hxy
  obtain ⟨hy, -⟩ := List.nodup_cons.mp hyr
  refine linked_append_cons_cons.mpr ⟨?_, join_next_self h x y, join_prev_self h x y, ?_⟩
  · refine hleft.congr (fun z hz => join_next_ne h ?_) fun z hz => join_prev_ne h ?_
    · rw [List.dropLast_concat] at hz
      exact hsep z hz x List.mem_cons_self
    · rcases List.mem_append.mp (List.mem_of_mem_tail hz) with hz | hz
      · exact hsep z hz y (List.mem_cons_of_mem x List.mem_cons_self)
      · rw [List.mem_singleton.mp hz]
        exact fun heq => hx (heq ▸ List.mem_cons_self)
  · refine hright.congr (fun z hz => join_next_ne h ?_) fun z hz => join_prev_ne h ?_
    · exact fun heq => hx (heq ▸ List.dropLast_subset _ hz)
    · exact fun heq => hy (heq ▸ hz)

/-- A chain does not depend on the pointers of other nodes. -/
theorem Linked.clear (hl : Linked h l) (hb : b ∉ l) : Linked (h.clear b) l :=
  hl.congr
    (fun _ hz => clear_next_ne h fun heq => hb (heq ▸ List.dropLast_subset _ hz))
    fun _ hz => clear_prev_ne h fun heq => hb (heq ▸ List.mem_of_mem_tail hz)

/-- A node is taken out. -/
theorem Linked.unlink (hl : Linked h (l ++ x :: b :: y :: r))
    (hnd : (l ++ x :: b :: y :: r).Nodup) :
    Linked ((h.join x y).clear b) (l ++ x :: y :: r) := by
  obtain ⟨hleft, -, -, hrest⟩ := linked_append_cons_cons.mp hl
  obtain ⟨-, hright⟩ := (linked_append_cons (l := [b])).mp hrest
  have hsub : (l ++ x :: y :: r).Sublist (l ++ x :: b :: y :: r) :=
    List.Sublist.append_left (List.Sublist.cons_cons x (List.sublist_cons_self b (y :: r))) l
  refine (hleft.join hright (hnd.sublist hsub)).clear ?_
  -- the node is not among the others
  obtain ⟨-, hxb, hsep⟩ := List.nodup_append.mp hnd
  obtain ⟨hx, hbr⟩ := List.nodup_cons.mp hxb
  obtain ⟨hb, -⟩ := List.nodup_cons.mp hbr
  intro hmem
  rcases List.mem_append.mp hmem with hmem | hmem
  · exact hsep b hmem b (List.mem_cons_of_mem x List.mem_cons_self) rfl
  · rcases List.mem_cons.mp hmem with heq | hmem
    · exact hx (heq ▸ List.mem_cons_self)
    · exact hb hmem

/-- A node is put between the last two. -/
theorem Linked.insert (hl : Linked h (l ++ [x, y])) (hnd : (l ++ [x, b, y]).Nodup) :
    Linked ((h.join x b).join b y) (l ++ [x, b, y]) := by
  obtain ⟨hleft, -⟩ := linked_append_cons_cons.mp hl
  have hassoc : l ++ [x, b, y] = (l ++ [x]) ++ b :: [y] := by simp
  have hsub : (l ++ [x, b]).Sublist (l ++ [x, b, y]) := by
    have happ : l ++ [x, b, y] = (l ++ [x, b]) ++ [y] := by simp
    rw [happ]
    exact List.sublist_append_left _ _
  have hone : Linked (h.join x b) (l ++ [x] ++ [b]) := by
    rw [List.append_assoc]
    exact hleft.join trivial (hnd.sublist hsub)
  rw [hassoc] at hnd ⊢
  exact hone.join trivial hnd

/-- The pointers of some nodes become null. -/
def clearAll (h : Links N) : List N → Links N
  | [] => h
  | b :: bs => (h.clear b).clearAll bs

theorem Linked.clearAll : ∀ {bs : List N} {h : Links N}, Linked h l → (∀ b ∈ bs, b ∉ l) →
    Linked (h.clearAll bs) l := by
  intro bs
  induction bs with
  | nil => intro h hl _; exact hl
  | cons b bs ih =>
    intro h hl hbs
    exact ih (hl.clear (hbs b List.mem_cons_self)) fun c hc => hbs c (List.mem_cons_of_mem b hc)

theorem clearAll_next_of_not_mem : ∀ {bs : List N} {h : Links N}, x ∉ bs →
    (h.clearAll bs).next x = h.next x := by
  intro bs
  induction bs with
  | nil => intro h _; rfl
  | cons b bs ih =>
    intro h hx
    obtain ⟨hne, hx⟩ := List.ne_and_not_mem_of_not_mem_cons hx
    rw [clearAll, ih hx, clear_next_ne h hne]

theorem clearAll_prev_of_not_mem : ∀ {bs : List N} {h : Links N}, x ∉ bs →
    (h.clearAll bs).prev x = h.prev x := by
  intro bs
  induction bs with
  | nil => intro h _; rfl
  | cons b bs ih =>
    intro h hx
    obtain ⟨hne, hx⟩ := List.ne_and_not_mem_of_not_mem_cons hx
    rw [clearAll, ih hx, clear_prev_ne h hne]

theorem clearAll_of_mem : ∀ {bs : List N} {h : Links N}, x ∈ bs →
    (h.clearAll bs).next x = none ∧ (h.clearAll bs).prev x = none := by
  intro bs
  induction bs with
  | nil => intro h hx; cases hx
  | cons b bs ih =>
    intro h hx
    rw [clearAll]
    by_cases hmem : x ∈ bs
    · exact ih hmem
    · obtain rfl := (List.mem_cons.mp hx).resolve_right hmem
      rw [clearAll_next_of_not_mem hmem, clearAll_prev_of_not_mem hmem]
      exact ⟨clear_next_self h x, clear_prev_self h x⟩

/-- The nodes behind the first one are dropped, up to `y`. -/
theorem Linked.skip {bs : List N} (hl : Linked h (x :: (bs ++ y :: r)))
    (hnd : (x :: (bs ++ y :: r)).Nodup) : Linked ((h.clearAll bs).join x y) (x :: y :: r) := by
  obtain ⟨hx, hbs⟩ := List.nodup_cons.mp hnd
  obtain ⟨-, hyr, hsep⟩ := List.nodup_append.mp hbs
  obtain ⟨-, hright⟩ := (linked_append_cons (l := x :: bs)).mp hl
  refine Linked.join (l := []) trivial (hright.clearAll fun b hb hmem => hsep b hb b hmem rfl) ?_
  exact List.nodup_cons.mpr ⟨fun hmem => hx (List.mem_append_right bs hmem), hyr⟩

/-- Each node comes after the one before it, the first one after `x`. -/
def joinAll (h : Links N) (x : N) : List N → Links N
  | [] => h
  | b :: bs => (h.join x b).joinAll b bs

theorem joinAll_next_of_not_mem : ∀ {bs : List N} {h : Links N} {x z : N}, z ∉ x :: bs →
    (h.joinAll x bs).next z = h.next z := by
  intro bs
  induction bs with
  | nil => intro h x z _; rfl
  | cons b bs ih =>
    intro h x z hz
    obtain ⟨hne, hz⟩ := List.ne_and_not_mem_of_not_mem_cons hz
    rw [joinAll, ih hz, join_next_ne h hne]

theorem joinAll_prev_of_not_mem : ∀ {bs : List N} {h : Links N} {x z : N}, z ∉ bs →
    (h.joinAll x bs).prev z = h.prev z := by
  intro bs
  induction bs with
  | nil => intro h x z _; rfl
  | cons b bs ih =>
    intro h x z hz
    obtain ⟨hne, hz⟩ := List.ne_and_not_mem_of_not_mem_cons hz
    rw [joinAll, ih hz, join_prev_ne h hne]

/-- Nodes are added at the end. -/
theorem Linked.extend : ∀ {bs l : List N} {h : Links N} {x : N}, Linked h (l ++ [x]) →
    (l ++ x :: bs).Nodup → Linked (h.joinAll x bs) (l ++ x :: bs) := by
  intro bs
  induction bs with
  | nil => intro l h x hl _; exact hl
  | cons b bs ih =>
    intro l h x hl hnd
    have hassoc : l ++ x :: b :: bs = (l ++ [x]) ++ b :: bs := by simp
    have hsub : (l ++ [x, b]).Sublist (l ++ x :: b :: bs) := by
      have happ : l ++ x :: b :: bs = (l ++ [x, b]) ++ bs := by simp
      rw [happ]
      exact List.sublist_append_left _ _
    have hone : Linked (h.join x b) (l ++ [x] ++ [b]) := by
      rw [List.append_assoc]
      exact hl.join trivial (hnd.sublist hsub)
    rw [hassoc] at hnd ⊢
    exact ih hone hnd

end Links
