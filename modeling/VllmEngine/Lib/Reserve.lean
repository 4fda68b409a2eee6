import Mathlib.Algebra.GroupWithZero.Nat
import Mathlib.Data.List.Nodup
import Mathlib.Data.List.Perm.Basic

/-!
# Reserved entries of a queue

Several consumers share one queue. Each takes first the entries it has reserved,
wherever they stand, and then a number of entries from the front. The consumers
come one after the other, so one of them can take from the front an entry that
a later one has reserved.

> `length_takeAll`: if that never happens, the queue gets shorter by the sum of
> the demands that were counted before the first consumer came.
-/

namespace Reserve

variable {α : Type} [DecidableEq α]

/-- The queue after one consumer: its reserved entries are gone, then the first
ones. -/
def takeShare (q : List α) (share : List α × Nat) : List α :=
  (q.filter fun x => decide (x ∉ share.1)).drop share.2

/-- The queue after all consumers. -/
def takeAll (q : List α) (shares : List (List α × Nat)) : List α :=
  shares.foldl takeShare q

/-- What a consumer takes from the queue. -/
def demand (q : List α) (share : List α × Nat) : Nat :=
  share.1.countP (fun x => decide (x ∈ q)) + share.2

/-- No consumer takes from the front what a later one has reserved. -/
def TakesNone : List α → List (List α × Nat) → Prop
  | _, [] => True
  | q, share :: later =>
    (∀ s ∈ later, ∀ x ∈ s.1, x ∉ (q.filter fun x => decide (x ∉ share.1)).take share.2) ∧
      TakesNone (takeShare q share) later

instance decidableTakesNone :
    (q : List α) → (shares : List (List α × Nat)) → Decidable (TakesNone q shares)
  | _, [] => isTrue trivial
  | q, share :: later =>
    haveI := decidableTakesNone (takeShare q share) later
    inferInstanceAs (Decidable ((∀ s ∈ later, ∀ x ∈ s.1,
      x ∉ (q.filter fun x => decide (x ∉ share.1)).take share.2) ∧
        TakesNone (takeShare q share) later))

/-- No entry is reserved twice. -/
structure Reserved (q : List α) (shares : List (List α × Nat)) : Prop where
  once : ∀ s ∈ shares, ∀ x ∈ q, s.1.count x ≤ 1
  disjoint : shares.Pairwise fun s t => ∀ x ∈ q, x ∈ s.1 → x ∉ t.1

theorem takeShare_sublist (q : List α) (share : List α × Nat) : (takeShare q share).Sublist q :=
  (List.drop_sublist _ _).trans List.filter_sublist

theorem takeAll_sublist (shares : List (List α × Nat)) :
    ∀ q : List α, (takeAll q shares).Sublist q := by
  induction shares with
  | nil => intro q; exact List.Sublist.refl q
  | cons share later ih => intro q; exact (ih _).trans (takeShare_sublist q share)

theorem length_filter_reserved {q l : List α} (hq : q.Nodup) (hl : ∀ x ∈ q, l.count x ≤ 1) :
    (q.filter fun x => decide (x ∉ l)).length + l.countP (fun x => decide (x ∈ q)) = q.length := by
  have hperm : (l.filter fun x => decide (x ∈ q)).Perm (q.filter fun x => decide (x ∈ l)) := by
    refine (List.perm_ext_iff_of_nodup ?_ (hq.filter _)).mpr fun x => ?_
    · refine List.nodup_iff_count_le_one.mpr fun x => ?_
      by_cases hx : x ∈ q
      · exact Nat.le_trans (List.Sublist.count_le _ List.filter_sublist) (hl x hx)
      · rw [List.count_eq_zero_of_not_mem fun hmem => hx (by simpa using (List.mem_filter.mp hmem).2)]
        exact Nat.zero_le 1
    · simp only [List.mem_filter, decide_eq_true_eq]
      exact And.comm
  have hsplit := List.length_eq_countP_add_countP (fun x => decide (x ∈ l)) (l := q)
  rw [List.countP_eq_length_filter, hperm.length_eq, ← List.countP_eq_length_filter,
    ← List.countP_eq_length_filter]
  simp only [decide_eq_true_eq, decide_not] at hsplit ⊢
  omega

theorem length_takeShare {q : List α} {share : List α × Nat} (hq : q.Nodup)
    (honce : ∀ x ∈ q, share.1.count x ≤ 1) (hle : demand q share ≤ q.length) :
    (takeShare q share).length + demand q share = q.length := by
  have hfilter := length_filter_reserved hq honce
  unfold takeShare demand at *
  rw [List.length_drop]
  omega

/-- The demand of a later consumer does not change. -/
theorem demand_takeShare {q : List α} {share t : List α × Nat}
    (hnone : ∀ x ∈ t.1, x ∉ (q.filter fun x => decide (x ∉ share.1)).take share.2)
    (hdisj : ∀ x ∈ q, x ∈ share.1 → x ∉ t.1) : demand (takeShare q share) t = demand q t := by
  unfold demand
  congr 1
  refine List.countP_congr fun x hx => ?_
  simp only [decide_eq_true_eq]
  refine ⟨fun h => (takeShare_sublist q share).mem h, fun h => ?_⟩
  have hfilter : x ∈ q.filter fun x => decide (x ∉ share.1) :=
    List.mem_filter.mpr ⟨h, by simpa using fun hs => hdisj x h hs hx⟩
  rw [← List.take_append_drop share.2 (q.filter _), List.mem_append] at hfilter
  exact hfilter.resolve_left (hnone x hx)

theorem Reserved.tail {q : List α} {share : List α × Nat} {later : List (List α × Nat)}
    (h : Reserved q (share :: later)) : Reserved (takeShare q share) later where
  once s hs x hx := h.once s (List.mem_cons_of_mem _ hs) x ((takeShare_sublist q share).mem hx)
  disjoint := (List.pairwise_cons.mp h.disjoint).2.imp fun hst x hx =>
    hst x ((takeShare_sublist q share).mem hx)

theorem sum_demand_takeShare {q : List α} {share : List α × Nat} {later : List (List α × Nat)}
    (h : Reserved q (share :: later)) (hnone : TakesNone q (share :: later)) :
    (later.map (demand (takeShare q share))).sum = (later.map (demand q)).sum := by
  congr 1
  refine List.map_congr_left fun t ht => ?_
  exact demand_takeShare (hnone.1 t ht) ((List.pairwise_cons.mp h.disjoint).1 t ht)

/-- **The demands add up.** -/
theorem length_takeAll (shares : List (List α × Nat)) :
    ∀ {q : List α}, q.Nodup → Reserved q shares → TakesNone q shares →
      (shares.map (demand q)).sum ≤ q.length →
      (takeAll q shares).length + (shares.map (demand q)).sum = q.length := by
  induction shares with
  | nil => intro q _ _ _ _; rfl
  | cons share later ih =>
    intro q hq hres hnone hle
    rw [List.map_cons, List.sum_cons] at hle ⊢
    have hone := length_takeShare hq (hres.once share List.mem_cons_self) (by omega)
    have hsum := sum_demand_takeShare hres hnone
    have hrest := ih (hq.sublist (takeShare_sublist q share)) hres.tail hnone.2 (by omega)
    show (takeAll (takeShare q share) later).length + _ = _
    omega

end Reserve
