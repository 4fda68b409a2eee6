import VllmEngine.Kv.Hybrid

/-!
# One consistent prefix from the hybrid lookup

`find_longest_cache_hit` of the hybrid coordinator should return, for every
group, a block list of exactly the agreed length. The groups that are looked up
in every round have it, because the last round shortens nothing; the first
full-attention entry is truncated to it. A second full-attention entry is
looked up in the first round only and never truncated, so it keeps its longer
list whenever a third entry shortens the hit:

> `consistent_iff`: every lookup is consistent exactly when at most one entry
> is full attention, or there are exactly two entries.

The proof follows the loops: `visit_cases` for one entry, `RoundOk` for the
`for` loop, `LoopOk` for the `while` loop.
-/

namespace VllmEngine

open HybridCoordinator

variable {H : Type} [DecidableEq H] {c : HybridCoordinator} {p : BlockPool H} {hashes : List H}

/-- The block lists of an entry's groups are the columns of `rows`. -/
def Held (hits : Hits) (a : AttentionGroup) (rows : List Row) : Prop :=
  ∀ g ∈ a.groupIds, hits g = some (column rows (a.groupIds.idxOf g))

/-- The entry's full-attention result is there already. -/
def Reused (hits : Hits) (a : AttentionGroup) : Prop :=
  a.spec.isFullAttention = true ∧ (a.groupIds.head?.bind hits).isSome = true

/-- The result of a lookup for the entry at some maximum. -/
def EntryHit (c : HybridCoordinator) (p : BlockPool H) (hashes : List H) (a : AttentionGroup)
    (maxLength : Nat) (rows : List Row) : Prop :=
  HitOk p (c.hashesOf hashes a.spec) a.groupIds a.spec.blockSize c.lcmBlockSize maxLength rows

/-! ## One entry -/

variable {a : AttentionGroup} {hits : Hits} {gs : List GroupId} {rows : List Row}
  {hs : List (List H)}

/-- What a visit does: cut the length of an earlier result, or look up. -/
theorem visit_cases {st st' : Hits × Nat} (h : c.visitGroup p hashes st a = .ok st') :
    (Reused st.1 a ∧ st' = (st.1, st.2 / a.spec.blockSize * a.spec.blockSize)) ∨
    (¬ Reused st.1 a ∧ ∃ rows, findLongestCacheHit p (c.hashesOf hashes a.spec) st.2 a.groupIds
        a.spec c.useEagle c.lcmBlockSize = .ok rows ∧
      st' = (setHits st.1 a.groupIds rows, rows.length * a.spec.blockSize)) := by
  unfold visitGroup at h
  by_cases hr : a.spec.isFullAttention = true ∧ (a.groupIds.head?.bind st.1).isSome = true
  · rw [if_pos hr] at h
    exact Or.inl ⟨hr, (Except.ok.inj h).symm⟩
  · rw [if_neg hr] at h
    simp only [Raises.bind_eq_ok, Raises.pure_eq_ok] at h
    obtain ⟨rows, hrows, rfl⟩ := h
    exact Or.inr ⟨hr, rows, hrows, rfl⟩

theorem setHits_held (hits : Hits) (a : AttentionGroup) (rows : List Row) :
    Held (setHits hits a.groupIds rows) a rows := by
  intro g hg
  rw [setHits, if_pos hg]

theorem setHits_frame {g : GroupId} (hg : g ∉ gs) : setHits hits gs rows g = hits g := by
  rw [setHits, if_neg hg]

theorem visit_frame {st st' : Hits × Nat} {g : GroupId} (h : c.visitGroup p hashes st a = .ok st')
    (hg : g ∉ a.groupIds) : st'.1 g = st.1 g := by
  rcases visit_cases h with ⟨-, rfl⟩ | ⟨-, rows, -, rfl⟩
  · rfl
  · exact setHits_frame hg

theorem Held.congr {hits' : Hits} (h : Held hits a rows) (heq : ∀ g ∈ a.groupIds, hits' g = hits g) :
    Held hits' a rows := by
  intro g hg
  rw [heq g hg, h g hg]

theorem reused_congr {hits' : Hits} (heq : ∀ g ∈ a.groupIds, hits' g = hits g) :
    Reused hits' a ↔ Reused hits a := by
  unfold Reused
  cases hgs : a.groupIds.head? with
  | none => simp
  | some g =>
    have hg : g ∈ a.groupIds := List.mem_of_mem_head? hgs
    simp only [Option.bind_some, heq g hg]

theorem Held.reused (h : Held hits a rows) (hne : a.groupIds ≠ [])
    (hfull : a.spec.isFullAttention = true) : Reused hits a := by
  refine ⟨hfull, ?_⟩
  obtain ⟨g, gs, hgs⟩ := List.exists_cons_of_ne_nil hne
  have hg : g ∈ a.groupIds := by rw [hgs]; exact List.mem_cons_self
  rw [hgs, List.head?_cons, Option.bind_some, h g hg]
  rfl

/-! ## One round -/

/-- What a round over the entries `as` does, from `(hits, curr)` to
`(hits', curr')`. -/
structure RoundOk (c : HybridCoordinator) (p : BlockPool H) (hashes : List H)
    (as : List AttentionGroup) (hits : Hits) (curr : Nat) (hits' : Hits) (curr' : Nat) : Prop where
  le : curr' ≤ curr
  frame : ∀ g, (∀ a ∈ as, g ∉ a.groupIds) → hits' g = hits g
  kept : ∀ a ∈ as, Reused hits a → ∀ g ∈ a.groupIds, hits' g = hits g
  fresh : ∀ a ∈ as, ¬ Reused hits a → ∃ rows, Held hits' a rows ∧
    EntryHit c p hashes a curr rows ∧ curr' ≤ rows.length * a.spec.blockSize ∧
    (as.getLast? = some a → rows.length * a.spec.blockSize = curr')
  aligned : c.lcmBlockSize ∣ curr ∨ (as ≠ [] ∧ ∀ a ∈ as, ¬ Reused hits a) →
    c.lcmBlockSize ∣ curr'

theorem HitOk.mono {p : BlockPool H} {bs align m m' : Nat} (h : HitOk p hs gs bs align m rows)
    (hle : m ≤ m') : HitOk p hs gs bs align m' rows :=
  ⟨Nat.le_trans h.le_max hle, h.aligned, h.rows_ok⟩

/-- The round, by induction on the entries. Entries share no group, so a later
visit leaves the lists of an earlier one alone. -/
theorem round_ok (hok : HybridOk c) :
    ∀ (as : List AttentionGroup) (hits : Hits) (curr : Nat) (hits' : Hits) (curr' : Nat),
      (∀ a ∈ as, a ∈ c.attentionGroups) → as.Nodup →
      as.foldlM (c.visitGroup p hashes) (hits, curr) = .ok (hits', curr') →
      RoundOk c p hashes as hits curr hits' curr' := by
  intro as
  induction as with
  | nil =>
    intro hits curr hits' curr' _ _ h
    obtain ⟨rfl, rfl⟩ := Prod.mk.inj (Raises.foldlM_nil_ok.mp h)
    exact ⟨Nat.le_refl _, fun _ _ => rfl, by simp, by simp,
      fun hal => hal.elim id fun hne => absurd rfl hne.1⟩
  | cons a as ih =>
    intro hits curr hits' curr' hmem hnodup h
    obtain ⟨⟨hits₁, curr₁⟩, h₁, h₂⟩ := Raises.foldlM_cons_ok.mp h
    have ha := hmem a List.mem_cons_self
    have hmem' : ∀ b ∈ as, b ∈ c.attentionGroups := fun b hb => hmem b (List.mem_cons_of_mem a hb)
    obtain ⟨hnotin, hnodup'⟩ := List.nodup_cons.mp hnodup
    have hr := ih hits₁ curr₁ hits' curr' hmem' hnodup' h₂
    -- the other entries have groups of their own
    have hdisj : ∀ b ∈ as, ∀ g ∈ a.groupIds, g ∉ b.groupIds := by
      intro b hb g hga hgb
      exact hnotin (hok.split.eq_of_mem ha (hmem' b hb) hga hgb ▸ hb)
    have hkeep : ∀ g ∈ a.groupIds, hits' g = hits₁ g := by
      intro g hg
      exact hr.frame g fun b hb => hdisj b hb g hg
    -- a visit changes only the groups of its entry
    have hvisit : ∀ g, g ∉ a.groupIds → hits₁ g = hits g := by
      intro g hg
      rcases visit_cases h₁ with ⟨-, heq⟩ | ⟨-, rows, -, heq⟩
      · exact congrFun (Prod.mk.inj heq).1 g
      · rw [(Prod.mk.inj heq).1]
        exact setHits_frame hg
    have hother : ∀ b ∈ as, ∀ g ∈ b.groupIds, hits₁ g = hits g := by
      intro b hb g hg
      exact hvisit g fun hga => hdisj b hb g hga hg
    have hle₁ : curr₁ ≤ curr := by
      rcases visit_cases h₁ with ⟨-, heq⟩ | ⟨-, rows, hrows, heq⟩
      · rw [(Prod.mk.inj heq).2]
        exact Nat.div_mul_le_self _ _
      · rw [(Prod.mk.inj heq).2]
        exact (findLongestCacheHit_hitOk (hok.blockSize_pos a ha) hrows).le_max
    refine ⟨Nat.le_trans hr.le hle₁, ?_, ?_, ?_, ?_⟩
    · intro g hg
      rw [hr.frame g fun b hb => hg b (List.mem_cons_of_mem a hb)]
      exact hvisit g (hg a List.mem_cons_self)
    · intro b hb hre g hg
      rcases List.mem_cons.mp hb with rfl | hb
      · rcases visit_cases h₁ with ⟨-, heq⟩ | ⟨hn, -⟩
        · rw [hkeep g hg, (Prod.mk.inj heq).1]
        · exact absurd hre hn
      · have hre' := (reused_congr (hother b hb)).mpr hre
        rw [hr.kept b hb hre' g hg, hother b hb g hg]
    · intro b hb hnr
      rcases List.mem_cons.mp hb with rfl | hb
      · rcases visit_cases h₁ with ⟨hre, -⟩ | ⟨-, rows, hrows, heq⟩
        · exact absurd hre hnr
        · obtain ⟨rfl, rfl⟩ := Prod.mk.inj heq
          refine ⟨rows, (setHits_held hits b rows).congr hkeep,
            findLongestCacheHit_hitOk (hok.blockSize_pos b ha) hrows, hr.le, ?_⟩
          intro hlast
          -- a first entry that is also the last one is alone
          cases as with
          | nil => exact (Prod.mk.inj (Raises.foldlM_nil_ok.mp h₂)).2
          | cons d ds =>
            rw [List.getLast?_cons_cons] at hlast
            exact absurd (List.mem_of_getLast? hlast) hnotin
      · have hnr' : ¬ Reused hits₁ b := fun hre => hnr ((reused_congr (hother b hb)).mp hre)
        obtain ⟨rows, hheld, hhit, hle, hlast⟩ := hr.fresh b hb hnr'
        refine ⟨rows, hheld, hhit.mono hle₁, hle, ?_⟩
        intro hl
        refine hlast ?_
        obtain ⟨d, ds, rfl⟩ := List.exists_cons_of_ne_nil (List.ne_nil_of_mem hb)
        rwa [List.getLast?_cons_cons] at hl
    · intro hal
      -- after the first visit the length is aligned, whichever way it came
      refine hr.aligned (Or.inl ?_)
      rcases visit_cases h₁ with ⟨hre, heq⟩ | ⟨-, rows, hrows, heq⟩
      · have hcurr : c.lcmBlockSize ∣ curr := by
          rcases hal with h | ⟨-, h⟩
          · exact h
          · exact absurd hre (h a List.mem_cons_self)
        rw [(Prod.mk.inj heq).2, Nat.div_mul_cancel (Nat.dvd_trans (hok.dvd_lcm a ha) hcurr)]
        exact hcurr
      · rw [(Prod.mk.inj heq).2]
        exact (findLongestCacheHit_hitOk (hok.blockSize_pos a ha) hrows).aligned

/-- A visited entry with nothing cached brings the length to zero. -/
theorem round_zero_of_miss (hok : HybridOk c) (hkind : a.spec.isHybridType = true)
    (hmiss : ∀ i, ¬ CachedAt p (c.hashesOf hashes a.spec) a.groupIds i) :
    ∀ (as : List AttentionGroup) (hits : Hits) (curr : Nat) (hits' : Hits) (curr' : Nat),
      (∀ b ∈ as, b ∈ c.attentionGroups) → as.Nodup → a ∈ as → ¬ Reused hits a →
      as.foldlM (c.visitGroup p hashes) (hits, curr) = .ok (hits', curr') → curr' = 0 := by
  intro as
  induction as with
  | nil => intro hits curr hits' curr' _ _ ha; cases ha
  | cons b bs ih =>
    intro hits curr hits' curr' hmem hnodup ha hnr h
    obtain ⟨⟨hits₁, curr₁⟩, h₁, h₂⟩ := Raises.foldlM_cons_ok.mp h
    have hmem' : ∀ d ∈ bs, d ∈ c.attentionGroups := fun d hd => hmem d (List.mem_cons_of_mem b hd)
    obtain ⟨hnotin, hnodup'⟩ := List.nodup_cons.mp hnodup
    rcases List.mem_cons.mp ha with rfl | ha
    · rcases visit_cases h₁ with ⟨hre, -⟩ | ⟨-, rows, hrows, heq⟩
      · exact absurd hre hnr
      · have hr := round_ok hok bs hits₁ curr₁ hits' curr' hmem' hnodup' h₂
        rw [findLongestCacheHit_miss hkind hmiss hrows, List.length_nil, Nat.zero_mul] at heq
        exact Nat.le_zero.mp ((Prod.mk.inj heq).2 ▸ hr.le)
    · refine ih hits₁ curr₁ hits' curr' hmem' hnodup' ha ?_ h₂
      intro hre
      refine hnr ((reused_congr fun g hg => visit_frame h₁ ?_).mp hre)
      intro hgb
      have hab := hok.split.eq_of_mem (hmem' a ha) (hmem b List.mem_cons_self) hg hgb
      exact hnotin (hab ▸ ha)

/-! ## The whole loop -/

/-- Before a round: nothing looked up yet, or an aligned length that every
full-attention result covers. -/
def LoopInv (c : HybridCoordinator) (p : BlockPool H) (hashes : List H) (hits : Hits)
    (hit : Nat) : Prop :=
  (∀ g, hits g = none) ∨ (c.lcmBlockSize ∣ hit ∧ c.isSimpleHybrid = false ∧
    ∀ a ∈ c.attentionGroups, a.spec.isFullAttention = true → ∃ rows, Held hits a rows ∧
      RowsOk p (c.hashesOf hashes a.spec) a.groupIds rows ∧ hit ≤ rows.length * a.spec.blockSize)

/-- After the loop: every entry has rows that reach the hit length; they end
there for the entries looked up in every round, and for the last entry of a
simple hybrid. -/
structure LoopOk (c : HybridCoordinator) (p : BlockPool H) (hashes : List H) (maxLength : Nat)
    (hits : Hits) (hit : Nat) : Prop where
  le : hit ≤ maxLength
  aligned : c.lcmBlockSize ∣ hit
  entries : ∀ a ∈ c.attentionGroups, ∃ rows, Held hits a rows ∧
    RowsOk p (c.hashesOf hashes a.spec) a.groupIds rows ∧ hit ≤ rows.length * a.spec.blockSize ∧
    (a.spec.isFullAttention = false → c.isSimpleHybrid = false →
      rows.length * a.spec.blockSize = hit) ∧
    (c.isSimpleHybrid = true → c.attentionGroups.getLast? = some a →
      rows.length * a.spec.blockSize = hit)

theorem not_reused_of_none (h : ∀ g, hits g = none) (a : AttentionGroup) : ¬ Reused hits a := by
  rintro ⟨-, hs⟩
  cases hgs : a.groupIds.head? <;> simp [hgs, h] at hs

/-- A round from a state of the loop leaves, for every entry, rows that reach
the new length. -/
theorem round_entries (hok : HybridOk c) {hits' : Hits} {hit curr : Nat}
    (hinv : LoopInv c p hashes hits hit)
    (hr : RoundOk c p hashes c.attentionGroups hits hit hits' curr) :
    c.lcmBlockSize ∣ curr ∧ ∀ a ∈ c.attentionGroups, ∃ rows, Held hits' a rows ∧
      RowsOk p (c.hashesOf hashes a.spec) a.groupIds rows ∧
      curr ≤ rows.length * a.spec.blockSize ∧
      (a.spec.isFullAttention = false → rows.length * a.spec.blockSize ≤ hit) ∧
      (c.isSimpleHybrid = true → rows.length * a.spec.blockSize ≤ hit ∧
        (c.attentionGroups.getLast? = some a → rows.length * a.spec.blockSize = curr)) := by
  have hne : c.attentionGroups ≠ [] := by
    intro h
    have := hok.two_le
    rw [h] at this
    simp at this
  constructor
  · refine hr.aligned ?_
    rcases hinv with hnone | ⟨hal, -⟩
    · exact Or.inr ⟨hne, fun a _ => not_reused_of_none hnone a⟩
    · exact Or.inl hal
  · intro a ha
    by_cases hre : Reused hits a
    · rcases hinv with hnone | ⟨-, hns, hfull⟩
      · exact absurd hre (not_reused_of_none hnone a)
      · obtain ⟨rows, hheld, hrows, hle⟩ := hfull a ha hre.1
        refine ⟨rows, hheld.congr (hr.kept a ha hre), hrows, Nat.le_trans hr.le hle, ?_, ?_⟩
        · intro hnf
          rw [hre.1] at hnf
          cases hnf
        · intro hs
          rw [hns] at hs
          cases hs
    · obtain ⟨rows, hheld, hhit, hle, hlast⟩ := hr.fresh a ha hre
      exact ⟨rows, hheld, hhit.rows_ok, hle, fun _ => hhit.le_max,
        fun _ => ⟨hhit.le_max, hlast⟩⟩

theorem attentionGroups_nodup (hok : HybridOk c) : c.attentionGroups.Nodup :=
  hok.split.distinct.imp fun {_ _} hne heq => hne (by rw [heq])

/-- A round that ends the loop leaves its length as the hit. -/
theorem loopOk_of_round (hok : HybridOk c) {hits' : Hits} {hit curr maxLength final : Nat}
    (hinv : LoopInv c p hashes hits hit) (hle : hit ≤ maxLength)
    (hr : RoundOk c p hashes c.attentionGroups hits hit hits' curr) (hfinal : final = curr)
    (hstop : curr = hit ∨ c.isSimpleHybrid = true) : LoopOk c p hashes maxLength hits' final := by
  obtain ⟨hal, hentries⟩ := round_entries hok hinv hr
  subst hfinal
  refine ⟨Nat.le_trans hr.le hle, hal, ?_⟩
  intro a ha
  obtain ⟨rows, hheld, hrows, hge, hnf, hsimple⟩ := hentries a ha
  refine ⟨rows, hheld, hrows, hge, ?_, fun hs hlast => (hsimple hs).2 hlast⟩
  intro hnotfull hns
  rcases hstop with heq | hs
  · exact Nat.le_antisymm (heq ▸ hnf hnotfull) hge
  · rw [hns] at hs
    cases hs

/-- The loop, by induction on the bound: every round that does not end it lowers
the hit length, so the bound is never used up. -/
theorem hitLoop_ok (hok : HybridOk c) {maxLength : Nat} :
    ∀ (bound : Nat) (hits : Hits) (hit : Nat) {hits' : Hits} {hit' : Nat}, hit ≤ bound →
      hit ≤ maxLength → LoopInv c p hashes hits hit →
      c.hitLoop p hashes bound hits hit = .ok (hits', hit') →
      LoopOk c p hashes maxLength hits' hit' := by
  intro bound
  induction bound with
  | zero =>
    intro hits hit hits' hit' hb hle hinv h
    simp only [hitLoop, Raises.bind_eq_ok, Raises.pure_eq_ok] at h
    obtain ⟨⟨hits₁, curr⟩, hround, heq⟩ := h
    obtain ⟨rfl, rfl⟩ := Prod.mk.inj heq
    have hr := round_ok hok _ _ _ _ _ (fun a ha => ha) (attentionGroups_nodup hok) hround
    have hcurr : curr = hit := by
      have := hr.le
      omega
    exact loopOk_of_round hok hinv hle hr hcurr.symm (Or.inl hcurr)
  | succ bound ih =>
    intro hits hit hits' hit' hb hle hinv h
    simp only [hitLoop, Raises.bind_eq_ok] at h
    obtain ⟨⟨hits₁, curr⟩, hround, h⟩ := h
    have hr := round_ok hok _ _ _ _ _ (fun a ha => ha) (attentionGroups_nodup hok) hround
    dsimp only at h
    by_cases hge : curr ≥ hit
    · rw [if_pos hge] at h
      obtain ⟨rfl, rfl⟩ := Prod.mk.inj (Raises.pure_eq_ok.mp h)
      have hcurr : curr = hit := Nat.le_antisymm hr.le hge
      exact loopOk_of_round hok hinv hle hr hcurr.symm (Or.inl hcurr)
    · rw [if_neg hge] at h
      by_cases hs : c.isSimpleHybrid = true
      · rw [if_pos hs] at h
        obtain ⟨rfl, rfl⟩ := Prod.mk.inj (Raises.pure_eq_ok.mp h)
        exact loopOk_of_round hok hinv hle hr rfl (Or.inr hs)
      · rw [if_neg hs] at h
        obtain ⟨hal, hentries⟩ := round_entries hok hinv hr
        refine ih hits₁ curr (by omega) (Nat.le_trans hr.le hle) (Or.inr ⟨hal, by simpa using hs, ?_⟩) h
        intro a ha _
        obtain ⟨rows, hheld, hrows, hge', -⟩ := hentries a ha
        exact ⟨rows, hheld, hrows, hge'⟩

/-! ## The lookup returns -/

omit [DecidableEq H] in
theorem blockHashList_length (hashes : List H) (hbs bs : Nat) :
    (blockHashList hashes hbs bs).length = hashes.length / (bs / hbs) := by
  simp [blockHashList]

/-- A length within the hashes stays within them at the group's granularity. -/
theorem div_le_hashes {hbs bs n m : Nat} (hbs_pos : 0 < bs) (hdvd : hbs ∣ bs) (hm : m ≤ n * hbs) :
    m / bs ≤ n / (bs / hbs) := by
  obtain ⟨k, rfl⟩ := hdvd
  have hh : 0 < hbs := Nat.pos_of_mul_pos_right hbs_pos
  have hk : 0 < k := Nat.pos_of_mul_pos_left hbs_pos
  rw [Nat.mul_div_cancel_left _ hh, Nat.le_div_iff_mul_le hk]
  refine Nat.le_of_mul_le_mul_right ?_ hh
  calc m / (hbs * k) * k * hbs
      = m / (hbs * k) * (hbs * k) := by rw [Nat.mul_assoc, Nat.mul_comm k hbs]
    _ ≤ m := Nat.div_mul_le_self _ _
    _ ≤ n * hbs := hm

theorem fullLookup_length_le (p : BlockPool H) (hs : List (List H)) (m : Nat) (gs : List GroupId)
    (bs : Nat) (e : Bool) (align : Nat) : (fullLookup p hs m gs bs e align).length ≤ hs.length := by
  have hscan := scanCached_length_le p gs (hs.take (m / bs))
  rw [List.length_take] at hscan
  unfold fullLookup
  dsimp only
  rw [alignRows_length]
  refine Nat.le_trans (alignedLen_le _ _ _) ?_
  cases e with
  | false => exact Nat.le_trans hscan (Nat.min_le_right _ _)
  | true =>
    rw [if_pos rfl, List.length_dropLast]
    omega

theorem findLongestCacheHit_full {m : Nat} {spec : KVCacheSpec} {e : Bool} {align : Nat}
    (hfull : spec.isFullAttention = true) :
    findLongestCacheHit p hs m gs spec e align
      = .ok (fullLookup p hs m gs spec.blockSize e align) := by
  unfold findLongestCacheHit
  unfold KVCacheSpec.isFullAttention at hfull
  cases hk : spec.kind <;> rw [hk] at hfull <;> first | rfl | cases hfull

/-- A visit returns when the hashes cover the length, or when full attention is
looked up; either way they cover the length it leaves. -/
theorem visit_total (p : BlockPool H) (hashes : List H) (hok : HybridOk c)
    (ha : a ∈ c.attentionGroups) (hkind : a.spec.isHybridType = true) (st : Hits × Nat)
    (hin : st.2 ≤ hashes.length * c.hashBlockSize ∨ (a.spec.isFullAttention = true ∧ ¬ Reused st.1 a)) :
    ∃ st', c.visitGroup p hashes st a = .ok st' ∧ st'.2 ≤ hashes.length * c.hashBlockSize := by
  have hpos := hok.blockSize_pos a ha
  have hdvd := hok.hash_dvd a ha
  unfold visitGroup
  by_cases hre : a.spec.isFullAttention = true ∧ (a.groupIds.head?.bind st.1).isSome = true
  · rw [if_pos hre]
    refine ⟨_, rfl, ?_⟩
    rcases hin with h | ⟨-, h⟩
    · exact Nat.le_trans (Nat.div_mul_le_self _ _) h
    · exact absurd hre h
  · rw [if_neg hre]
    have hlen : a.spec.isFullAttention = true ∨
        st.2 / a.spec.blockSize ≤ (c.hashesOf hashes a.spec).length := by
      rcases hin with h | ⟨h, -⟩
      · right
        rw [hashesOf, blockHashList_length]
        exact div_le_hashes hpos hdvd h
      · exact Or.inl h
    obtain ⟨rows, hrows⟩ := findLongestCacheHit_total p a.groupIds c.useEagle c.lcmBlockSize
      hkind hlen
    refine ⟨_, by rw [hrows]; rfl, ?_⟩
    rcases hin with h | ⟨hfull, -⟩
    · exact Nat.le_trans (findLongestCacheHit_hitOk hpos hrows).le_max h
    · rw [findLongestCacheHit_full hfull, Except.ok.injEq] at hrows
      have hle := fullLookup_length_le p (c.hashesOf hashes a.spec) st.2 a.groupIds
        a.spec.blockSize c.useEagle c.lcmBlockSize
      rw [hrows, hashesOf, blockHashList_length] at hle
      obtain ⟨k, hk⟩ := hdvd
      have hh : 0 < c.hashBlockSize := by
        rw [hk] at hpos
        exact Nat.pos_of_mul_pos_right hpos
      show rows.length * a.spec.blockSize ≤ _
      rw [hk, Nat.mul_div_cancel_left _ hh] at hle
      calc rows.length * a.spec.blockSize
          = rows.length * k * c.hashBlockSize := by rw [hk, Nat.mul_comm c.hashBlockSize, Nat.mul_assoc]
        _ ≤ hashes.length / k * k * c.hashBlockSize := by
            exact Nat.mul_le_mul_right _ (Nat.mul_le_mul_right _ hle)
        _ ≤ hashes.length * c.hashBlockSize := Nat.mul_le_mul_right _ (Nat.div_mul_le_self _ _)

/-- A round returns when the hashes cover the length, or when it starts with a
full-attention lookup. -/
theorem round_total (hok : HybridOk c) (hkind : ∀ a ∈ c.attentionGroups, a.spec.isHybridType = true)
    {curr : Nat}
    (hin : curr ≤ hashes.length * c.hashBlockSize ∨ ∃ a as, c.attentionGroups = a :: as ∧ a.spec.isFullAttention = true ∧ ¬ Reused hits a) :
    ∃ st', c.attentionGroups.foldlM (c.visitGroup p hashes) (hits, curr) = .ok st' ∧
      st'.2 ≤ hashes.length * c.hashBlockSize := by
  have hrest : ∀ (as : List AttentionGroup) (st : Hits × Nat), (∀ a ∈ as, a ∈ c.attentionGroups) →
      st.2 ≤ hashes.length * c.hashBlockSize →
      ∃ st', as.foldlM (c.visitGroup p hashes) st = .ok st' ∧
        st'.2 ≤ hashes.length * c.hashBlockSize := by
    intro as st hmem hst
    exact Raises.foldlM_total (I := fun st : Hits × Nat => st.2 ≤ hashes.length * c.hashBlockSize)
      as st (fun a ha t ht => visit_total p hashes hok (hmem a ha) (hkind a (hmem a ha)) t
        (Or.inl ht)) hst
  rcases hin with h | ⟨a, as, heq, hfull, hnr⟩
  · exact hrest _ _ (fun a ha => ha) h
  · have ha : a ∈ c.attentionGroups := by rw [heq]; exact List.mem_cons_self
    obtain ⟨st₁, h₁, hst₁⟩ := visit_total p hashes hok ha (hkind a ha) (hits, curr)
      (Or.inr ⟨hfull, hnr⟩)
    obtain ⟨st', h', hst'⟩ := hrest as st₁
      (fun b hb => by rw [heq]; exact List.mem_cons_of_mem a hb) hst₁
    rw [heq]
    exact ⟨st', Raises.foldlM_cons_ok.mpr ⟨st₁, h₁, h'⟩, hst'⟩

theorem hitLoop_total (hok : HybridOk c)
    (hkind : ∀ a ∈ c.attentionGroups, a.spec.isHybridType = true) :
    ∀ (bound : Nat) (hits : Hits) (hit : Nat),
      (hit ≤ hashes.length * c.hashBlockSize ∨
        ∃ a as, c.attentionGroups = a :: as ∧ a.spec.isFullAttention = true ∧ ¬ Reused hits a) →
      ∃ res, c.hitLoop p hashes bound hits hit = .ok res := by
  intro bound
  induction bound with
  | zero =>
    intro hits hit hin
    obtain ⟨⟨hits', curr⟩, hround, -⟩ := round_total (p := p) hok hkind hin
    refine ⟨(hits', hit), ?_⟩
    rw [hitLoop, hround]
    rfl
  | succ bound ih =>
    intro hits hit hin
    obtain ⟨⟨hits', curr⟩, hround, hle⟩ := round_total (p := p) hok hkind hin
    rw [hitLoop, hround, Raises.ok_bind]
    dsimp only
    split
    · exact ⟨_, rfl⟩
    · split
      · exact ⟨_, rfl⟩
      · exact ih hits' curr (Or.inl hle)

/-! ## Consistency -/

/-- One consistent prefix: an aligned length within the maximum, and for every
group a list of exactly that many blocks, each null or cached for the group
under its own hash of that index. -/
structure ConsistentHit (c : HybridCoordinator) (p : BlockPool H) (hashes : List H)
    (maxLength : Nat) (res : List (List BlockId) × Nat) : Prop where
  le : res.2 ≤ maxLength
  aligned : c.lcmBlockSize ∣ res.2
  blocks : ∀ (g : GroupId) spec, c.specs[g]? = some spec → ∃ blocks, res.1[g]? = some blocks ∧
    blocks.length = res.2 / spec.blockSize ∧
    ∀ (i : Nat) b, blocks[i]? = some b → b = nullBlock ∨ ∃ h,
      (blockHashList hashes c.hashBlockSize spec.blockSize)[i]? = some h ∧
      p.getOneBlock (h, g) = some b

/-- An entry of a group's column is null or cached for that group. -/
theorem column_entry {g : GroupId} (hrows : RowsOk p hs gs rows) (hg : g ∈ gs) {i : Nat}
    {b : BlockId} (hb : (column rows (gs.idxOf g))[i]? = some b) :
    b = nullBlock ∨ ∃ h, hs[i]? = some h ∧ p.getOneBlock (h, g) = some b := by
  rw [column, List.getElem?_map, Option.map_eq_some_iff] at hb
  obtain ⟨row, hrow, rfl⟩ := hb
  rcases hrows i row hrow with rfl | ⟨h, hi, hc⟩
  · left
    rw [nullRow, List.getD_eq_getElem?_getD, List.getElem?_replicate]
    split <;> rfl
  · right
    refine ⟨h, hi, ?_⟩
    have hidx : gs.idxOf g < gs.length := List.idxOf_lt_length_iff.mpr hg
    have hall := getCachedBlock_eq_some_iff.mp hc
    have hlen := hall.length_eq
    have := List.forall₂_iff_get.mp hall |>.2 (gs.idxOf g) hidx (hlen ▸ hidx)
    simpa [List.getD_eq_getElem?_getD, List.getElem?_eq_getElem (hlen ▸ hidx)] using this

/-- At most one full-attention entry, or exactly two entries. -/
def SingleTruncation (c : HybridCoordinator) : Prop :=
  (c.attentionGroups.filter (·.spec.isFullAttention)).length ≤ 1 ∨ c.attentionGroups.length = 2

theorem getLast_of_length_two {α : Type} {l : List α} {x y : α} (hlen : l.length = 2)
    (hhead : l.head? = some x) (hy : y ∈ l) (hne : y ≠ x) : l.getLast? = some y := by
  match l, hlen with
  | [u, v], _ =>
    obtain rfl : u = x := by simpa using hhead
    have hyv : y = v := by simpa [hne] using hy
    rw [hyv]
    rfl

/-- A full-attention entry behind the first one: there are two of them. -/
theorem two_fulls (hok : HybridOk c) {a₀ : AttentionGroup} {as : List AttentionGroup}
    (hgroups : c.attentionGroups = a₀ :: as) (ha : a ∈ c.attentionGroups) (hne : a ≠ a₀)
    (hfull : a.spec.isFullAttention = true) :
    a₀.spec.isFullAttention = true ∧
      1 < (c.attentionGroups.filter (·.spec.isFullAttention)).length := by
  have h0 : a₀.spec.isFullAttention = true := by
    obtain ⟨fulls, others, heq, hf, ho⟩ := hok.fullFirst
    cases fulls with
    | nil =>
      rw [List.nil_append] at heq
      have := ho a (heq ▸ ha)
      rw [hfull] at this
      cases this
    | cons f fs =>
      rw [hgroups, List.cons_append] at heq
      rw [(List.cons.inj heq).1]
      exact hf f List.mem_cons_self
  refine ⟨h0, ?_⟩
  rw [hgroups, List.filter_cons_of_pos (by simpa using h0), List.length_cons]
  have hmem : a ∈ as.filter (·.spec.isFullAttention) := by
    rw [hgroups] at ha
    exact List.mem_filter.mpr ⟨(List.mem_cons.mp ha).resolve_left hne, by simpa using hfull⟩
  have := List.length_pos_of_mem hmem
  omega

/-- Under `SingleTruncation` only the first entry, and only if it is full
attention, can have more rows than the hit. -/
theorem rows_eq_hit (hok : HybridOk c) (hone : SingleTruncation c) {a₀ : AttentionGroup}
    {as : List AttentionGroup} (hgroups : c.attentionGroups = a₀ :: as) (ha : a ∈ c.attentionGroups)
    (hne : a = a₀ → a.spec.isFullAttention = false) {n hit : Nat}
    (hnf : a.spec.isFullAttention = false → c.isSimpleHybrid = false → n = hit)
    (hlast : c.isSimpleHybrid = true → c.attentionGroups.getLast? = some a → n = hit) :
    n = hit := by
  have hhead : c.attentionGroups.head? = some a₀ := by rw [hgroups]; rfl
  by_cases hs : c.isSimpleHybrid = true
  · -- a simple hybrid starts with full attention, so the entry is its last one
    have hs' := hs
    unfold isSimpleHybrid at hs'
    obtain ⟨htwo, hfull⟩ := of_decide_eq_true hs'
    rw [hhead] at hfull
    refine hlast hs (getLast_of_length_two htwo hhead ha ?_)
    intro heq
    rw [← heq, Option.map_some, hne heq] at hfull
    cases hfull
  · refine hnf ?_ (by simpa using hs)
    by_contra hf
    have hf : a.spec.isFullAttention = true := by simpa using hf
    have hne' : a ≠ a₀ := fun heq => by rw [hne heq] at hf; cases hf
    obtain ⟨h0, hcount⟩ := two_fulls hok hgroups ha hne' hf
    rcases hone with h1 | h2
    · omega
    · refine hs ?_
      unfold isSimpleHybrid
      rw [hhead, Option.map_some, h0]
      exact decide_eq_true ⟨h2, rfl⟩

/-- The result of a loop that went well, truncated. -/
theorem consistent_of_loopOk (hok : HybridOk c) (hone : SingleTruncation c) {maxLength : Nat}
    {hit : Nat} (hl : LoopOk c p hashes maxLength hits hit) :
    ConsistentHit c p hashes maxLength
      ((List.range c.specs.length).map fun g => (c.truncateFirst hits hit g).getD [], hit) := by
  refine ⟨hl.le, hl.aligned, ?_⟩
  intro g spec hspec
  obtain ⟨hg, -⟩ := List.getElem?_eq_some_iff.mp hspec
  obtain ⟨a, ha, hga⟩ := hok.split.cover g hg
  obtain rfl : a.spec = spec := by
    have := (hok.split.spec_eq a ha g hga).2
    rw [hspec] at this
    exact (Option.some.inj this).symm
  have hpos := hok.blockSize_pos a ha
  obtain ⟨rows, hheld, hrows, hge, hnf, hlast⟩ := hl.entries a ha
  refine ⟨(c.truncateFirst hits hit g).getD [], by simp [List.getElem?_range hg], ?_⟩
  obtain ⟨a₀, as, hgroups⟩ := List.exists_cons_of_ne_nil
    (List.ne_nil_of_length_pos (Nat.lt_of_lt_of_le Nat.two_pos hok.two_le))
  have ha₀ : a₀ ∈ c.attentionGroups := by rw [hgroups]; exact List.mem_cons_self
  unfold truncateFirst
  rw [hgroups]
  dsimp only
  by_cases hfirst : a = a₀ ∧ a.spec.isFullAttention = true
  · -- the truncated entry
    obtain ⟨rfl, hfull⟩ := hfirst
    rw [if_pos hfull, if_pos hga, hheld g hga]
    refine ⟨?_, ?_⟩
    · have : hit / a.spec.blockSize ≤ rows.length :=
        Nat.div_le_of_le_mul (by rw [Nat.mul_comm]; exact hge)
      simp [column, List.length_take, this]
    · intro i b hb
      exact column_entry hrows hga (getElem?_of_take hb)
  · -- an entry that the truncation does not touch
    have hsame : (if a₀.spec.isFullAttention = true then fun g =>
        if g ∈ a₀.groupIds then (hits g).map (·.take (hit / a₀.spec.blockSize)) else hits g
        else hits) g = hits g := by
      by_cases hf0 : a₀.spec.isFullAttention = true
      · rw [if_pos hf0]
        refine if_neg fun hg0 => hfirst ?_
        obtain rfl := hok.split.eq_of_mem ha ha₀ hga hg0
        exact ⟨rfl, hf0⟩
      · rw [if_neg hf0]
    rw [hsame, hheld g hga]
    have hlen : rows.length * a.spec.blockSize = hit := by
      refine rows_eq_hit hok hone hgroups ha ?_ hnf hlast
      intro heq
      by_contra hf
      exact hfirst ⟨heq, by simpa using hf⟩
    refine ⟨?_, fun i b hb => column_entry hrows hga hb⟩
    simp [column, ← hlen, Nat.mul_div_cancel _ hpos]

/-! ## A second full-attention entry -/

/-- A hash map with one block under each of the given keys. -/
def cachedMap (keys : List (BlockKey H)) : Dict (BlockKey H) CachedBlocks :=
  keys.zipIdx.foldl (fun d e => d.set e.1 (.one (e.2 + 1))) Dict.empty

/-- A pool that holds one block under each of the given keys. -/
def cachedPool (keys : List (BlockKey H)) : BlockPool H where
  numGpuBlocks := keys.length + 1
  enableCaching := true
  hashBlockSize := 1
  refCnt := fun _ => 0
  blockHash := fun b => if b = 0 then none else keys[b - 1]?
  freeBlocks := (List.range (keys.length + 1)).tail
  numFreeBlocks := keys.length
  cachedBlockHashToBlock := cachedMap keys

theorem foldl_set_get? (es : List (BlockKey H × Nat)) :
    ∀ (d : Dict (BlockKey H) CachedBlocks) (k : BlockKey H),
      ((es.foldl (fun d e => d.set e.1 (.one (e.2 + 1))) d).get? k).isSome
        = ((d.get? k).isSome || decide (k ∈ es.map Prod.fst)) := by
  induction es with
  | nil => intro d k; simp
  | cons e es ih =>
    intro d k
    rw [List.foldl_cons, ih, Dict.get?_set, List.map_cons]
    by_cases hk : k = e.1
    · rw [if_pos hk, hk]
      simp
    · have hmem : k ∈ e.1 :: es.map Prod.fst ↔ k ∈ es.map Prod.fst := by
        rw [List.mem_cons]
        exact or_iff_right hk
      rw [if_neg hk, decide_eq_decide.mpr hmem]

theorem foldl_set_one (es : List (BlockKey H × Nat)) :
    ∀ (d : Dict (BlockKey H) CachedBlocks),
      (∀ k v, d.get? k = some v → ∃ b, v = .one b) →
      ∀ k v, (es.foldl (fun d e => d.set e.1 (.one (e.2 + 1))) d).get? k = some v →
        ∃ b, v = .one b := by
  induction es with
  | nil => intro d h; exact h
  | cons e es ih =>
    intro d h
    refine ih _ ?_
    intro k v hk
    rw [Dict.get?_set] at hk
    by_cases hke : k = e.1
    · rw [if_pos hke, Option.some.injEq] at hk
      exact ⟨_, hk.symm⟩
    · rw [if_neg hke] at hk
      exact h k v hk

/-- The pool holds a block under exactly the given keys. -/
theorem cachedPool_getOneBlock {keys : List (BlockKey H)} {k : BlockKey H} :
    (∃ b, (cachedPool keys).getOneBlock k = some b) ↔ k ∈ keys := by
  have hsome : ((cachedMap keys).get? k).isSome = decide (k ∈ keys) := by
    rw [cachedMap, foldl_set_get?, Dict.get?_empty, List.zipIdx_map_fst]
    rfl
  have hone : ∀ v, (cachedMap keys).get? k = some v → ∃ b, v = .one b :=
    foldl_set_one keys.zipIdx Dict.empty (by simp) k
  unfold BlockPool.getOneBlock cachedPool
  dsimp only
  cases hget : (cachedMap keys).get? k with
  | none =>
    rw [hget] at hsome
    simpa using hsome
  | some v =>
    rw [hget] at hsome hone
    obtain ⟨b, rfl⟩ := hone v rfl
    simpa [CachedBlocks.toList] using hsome

/-- Setting distinct keys one after the other files each of them at its own index. -/
theorem foldl_set_get?_iff (es : List (BlockKey H × Nat)) (hnd : (es.map Prod.fst).Nodup) :
    ∀ (d : Dict (BlockKey H) CachedBlocks) (k : BlockKey H) (v : CachedBlocks),
      (es.foldl (fun d e => d.set e.1 (.one (e.2 + 1))) d).get? k = some v ↔
        (∃ i, (k, i) ∈ es ∧ v = .one (i + 1)) ∨ k ∉ es.map Prod.fst ∧ d.get? k = some v := by
  induction es with
  | nil => intro d k v; simp
  | cons e es ih =>
    intro d k v
    rw [List.map_cons, List.nodup_cons] at hnd
    rw [List.foldl_cons, ih hnd.2, Dict.get?_set, List.map_cons, List.mem_cons]
    by_cases hk : k = e.1
    · subst hk
      rw [if_pos rfl, Option.some.injEq]
      constructor
      · rintro (⟨i, hi, rfl⟩ | ⟨-, rfl⟩)
        · exact Or.inl ⟨i, List.mem_cons_of_mem _ hi, rfl⟩
        · exact Or.inl ⟨e.2, List.mem_cons_self, rfl⟩
      · rintro (⟨i, hi, rfl⟩ | ⟨hnot, -⟩)
        · rcases List.mem_cons.mp hi with heq | hi
          · rw [← heq]
            exact Or.inr ⟨by rw [← heq] at hnd; exact hnd.1, rfl⟩
          · exact Or.inl ⟨i, hi, rfl⟩
        · exact absurd (Or.inl rfl) hnot
    · rw [if_neg hk]
      constructor
      · rintro (⟨i, hi, rfl⟩ | ⟨hnot, hd⟩)
        · exact Or.inl ⟨i, List.mem_cons_of_mem _ hi, rfl⟩
        · exact Or.inr ⟨by rintro (rfl | hmem); exacts [hk rfl, hnot hmem], hd⟩
      · rintro (⟨i, hi, rfl⟩ | ⟨hnot, hd⟩)
        · rcases List.mem_cons.mp hi with heq | hi
          · exact absurd (congrArg Prod.fst heq) hk
          · exact Or.inl ⟨i, hi, rfl⟩
        · exact Or.inr ⟨fun hmem => hnot (Or.inr hmem), hd⟩

/-- A full-attention result survives the loop. -/
theorem hitLoop_keeps (hok : HybridOk c) (ha : a ∈ c.attentionGroups)
    (hfull : a.spec.isFullAttention = true) :
    ∀ (bound : Nat) (hits : Hits) (hit : Nat) {hits' : Hits} {hit' : Nat}, Held hits a rows →
      c.hitLoop p hashes bound hits hit = .ok (hits', hit') → Held hits' a rows := by
  intro bound
  induction bound with
  | zero =>
    intro hits hit hits' hit' hheld h
    simp only [hitLoop, Raises.bind_eq_ok, Raises.pure_eq_ok] at h
    obtain ⟨⟨hits₁, curr⟩, hround, heq⟩ := h
    obtain ⟨rfl, -⟩ := Prod.mk.inj heq
    have hr := round_ok hok _ _ _ _ _ (fun a ha => ha) (attentionGroups_nodup hok) hround
    exact hheld.congr (hr.kept a ha (hheld.reused (hok.split.nonempty a ha) hfull))
  | succ bound ih =>
    intro hits hit hits' hit' hheld h
    simp only [hitLoop, Raises.bind_eq_ok] at h
    obtain ⟨⟨hits₁, curr⟩, hround, h⟩ := h
    have hr := round_ok hok _ _ _ _ _ (fun a ha => ha) (attentionGroups_nodup hok) hround
    have hheld' : Held hits₁ a rows :=
      hheld.congr (hr.kept a ha (hheld.reused (hok.split.nonempty a ha) hfull))
    dsimp only at h
    split at h
    · exact (Prod.mk.inj (Raises.pure_eq_ok.mp h)).1 ▸ hheld'
    · split at h
      · exact (Prod.mk.inj (Raises.pure_eq_ok.mp h)).1 ▸ hheld'
      · exact ih hits₁ curr hheld' h

/-- The key of group `g` when all block hashes are `x`. -/
def uniformKey (c : HybridCoordinator) (x : H) (a : AttentionGroup) (g : GroupId) : BlockKey H :=
  (List.replicate (a.spec.blockSize / c.hashBlockSize) x, g)

omit [DecidableEq H] in
theorem uniform_hash (c : HybridCoordinator) {x : H} {n : Nat} {i : Nat} {h : List H}
    (hi : (c.hashesOf (List.replicate n x) a.spec)[i]? = some h) :
    h = List.replicate (a.spec.blockSize / c.hashBlockSize) x := by
  rw [hashesOf, blockHashList, List.getElem?_map, Option.map_eq_some_iff] at hi
  obtain ⟨j, hj, rfl⟩ := hi
  obtain ⟨hlt, hget⟩ := List.getElem?_eq_some_iff.mp hj
  rw [List.length_range, List.length_replicate] at hlt
  rw [List.getElem_range] at hget
  subst hget
  have hle : (i + 1) * (a.spec.blockSize / c.hashBlockSize) ≤ n :=
    Nat.le_trans (Nat.mul_le_mul_right _ hlt) (Nat.div_mul_le_self _ _)
  rw [Nat.succ_mul] at hle
  rw [List.drop_replicate, List.take_replicate, Nat.min_eq_left (by omega)]

/-- With equal hashes, an entry is cached at all indices or at none. -/
theorem uniform_cachedAt {keys : List (BlockKey H)} {x : H} {n : Nat} {i : Nat}
    (hi : i < n / (a.spec.blockSize / c.hashBlockSize)) :
    CachedAt (cachedPool keys) (c.hashesOf (List.replicate n x) a.spec) a.groupIds i ↔
      ∀ g ∈ a.groupIds, uniformKey c x a g ∈ keys := by
  have hlt : i < (c.hashesOf (List.replicate n x) a.spec).length := by
    rw [hashesOf, blockHashList_length, List.length_replicate]
    exact hi
  obtain ⟨h, hh⟩ : ∃ h, (c.hashesOf (List.replicate n x) a.spec)[i]? = some h :=
    ⟨_, List.getElem?_eq_getElem hlt⟩
  have hx := uniform_hash c hh
  constructor
  · rintro ⟨h', h1, h2⟩ g hg
    have := h2 g hg
    rw [uniform_hash c h1] at this
    exact cachedPool_getOneBlock.mp this
  · intro hall
    refine ⟨h, hh, fun g hg => ?_⟩
    rw [hx]
    exact cachedPool_getOneBlock.mpr (hall g hg)

/-- The shape that goes wrong: two full-attention entries and a third one. -/
theorem three_entries (hok : HybridOk c) (hnot : ¬ SingleTruncation c) :
    ∃ a₁ a₂ x xs, c.attentionGroups = a₁ :: a₂ :: x :: xs ∧
      a₁.spec.isFullAttention = true ∧ a₂.spec.isFullAttention = true := by
  obtain ⟨hfulls, hlen⟩ := not_or.mp hnot
  obtain ⟨fulls, others, heq, hf, ho⟩ := hok.fullFirst
  have hfilter : c.attentionGroups.filter (·.spec.isFullAttention) = fulls := by
    have h1 : fulls.filter (·.spec.isFullAttention) = fulls :=
      List.filter_eq_self.mpr hf
    have h2 : others.filter (·.spec.isFullAttention) = [] :=
      List.filter_eq_nil_iff.mpr fun a ha => by simp [ho a ha]
    rw [heq, List.filter_append, h1, h2, List.append_nil]
  rw [hfilter] at hfulls
  have hlen' := congrArg List.length heq
  rw [List.length_append] at hlen'
  cases fulls with
  | nil => simp at hfulls
  | cons a₁ fs =>
    cases fs with
    | nil => simp at hfulls
    | cons a₂ fs =>
      have hne : fs ++ others ≠ [] := by
        intro hnil
        obtain ⟨rfl, rfl⟩ := List.append_eq_nil_iff.mp hnil
        exact hlen hlen'
      obtain ⟨x, xs, hx⟩ := List.exists_cons_of_ne_nil hne
      refine ⟨a₁, a₂, x, xs, ?_, hf a₁ (by simp), hf a₂ (by simp)⟩
      rw [heq, List.cons_append, List.cons_append, hx]

/-- A first visit to a full-attention entry that is cached for `k + 1` aligned
lengths keeps `k` of them, eagle or not. -/
theorem visit_full_cached (hok : HybridOk c) (ha : a ∈ c.attentionGroups)
    (hfull : a.spec.isFullAttention = true) {st st' : Hits × Nat} (hnr : ¬ Reused st.1 a) {k : Nat}
    (hcurr : (k + 1) * c.lcmBlockSize ≤ st.2)
    (hall : ∀ i < (k + 1) * c.lcmBlockSize / a.spec.blockSize, CachedAt p (c.hashesOf hashes a.spec) a.groupIds i)
    (h : c.visitGroup p hashes st a = .ok st') :
    ∃ rows, Held st'.1 a rows ∧ st'.2 = rows.length * a.spec.blockSize ∧
      k * c.lcmBlockSize ≤ st'.2 := by
  rcases visit_cases h with ⟨hre, -⟩ | ⟨-, rows, hrows, rfl⟩
  · exact absurd hre hnr
  · rw [findLongestCacheHit_full hfull, Except.ok.injEq] at hrows
    refine ⟨rows, setHits_held st.1 a rows, rfl, ?_⟩
    have hb := hok.blockSize_pos a ha
    obtain ⟨q, hq⟩ := hok.dvd_lcm a ha
    have hqpos : 0 < q := Nat.pos_of_mul_pos_left (hq ▸ hok.lcm_pos)
    have hmul : ∀ j, j * c.lcmBlockSize = j * q * a.spec.blockSize := by
      intro j
      rw [hq, Nat.mul_comm a.spec.blockSize, Nat.mul_assoc]
    have hge : k * q ≤ rows.length := by
      rw [← hrows]
      refine le_fullLookup hall (Nat.div_le_div_right hcurr) ?_ ?_
      · rw [hmul, Nat.mul_div_cancel _ hb]
        exact Nat.mul_lt_mul_of_pos_right (Nat.lt_succ_self k) hqpos
      · rw [← hmul]
        exact Nat.dvd_mul_left _ _
    calc k * c.lcmBlockSize = k * q * a.spec.blockSize := hmul k
      _ ≤ rows.length * a.spec.blockSize := Nat.mul_le_mul_right _ hge

/-- **The second full-attention list is not cut.** Cache both full-attention
entries for three aligned lengths and nothing else: the third entry brings the
hit to zero, and the second entry keeps its blocks. -/
theorem inconsistent_of_three (hok : HybridOk c)
    (hkind : ∀ a ∈ c.attentionGroups, a.spec.isHybridType = true) (x : H)
    (hnot : ¬ SingleTruncation c) :
    ∃ (p : BlockPool H) (hashes : List H) (maxLength : Nat),
      maxLength ≤ hashes.length * c.hashBlockSize ∧
      ∀ res, c.findLongestHit p hashes maxLength = .ok res →
        ¬ ConsistentHit c p hashes maxLength res := by
  obtain ⟨a₁, a₂, a₃, as, hgroups, hf₁, hf₂⟩ := three_entries hok hnot
  have hm₁ : a₁ ∈ c.attentionGroups := by simp [hgroups]
  have hm₂ : a₂ ∈ c.attentionGroups := by simp [hgroups]
  have hm₃ : a₃ ∈ c.attentionGroups := by simp [hgroups]
  have hnodup := attentionGroups_nodup hok
  rw [hgroups] at hnodup
  have h12 : a₁ ≠ a₂ := fun h => by simp [h] at hnodup
  have h13 : a₁ ≠ a₃ := fun h => by simp [h] at hnodup
  have h23 : a₂ ≠ a₃ := fun h => by simp [h] at hnodup
  have hdisj : ∀ {a b : AttentionGroup}, a ∈ c.attentionGroups → b ∈ c.attentionGroups → a ≠ b →
      ∀ g ∈ a.groupIds, g ∉ b.groupIds := fun ha hb hne g hga hgb =>
    hne (hok.split.eq_of_mem ha hb hga hgb)
  have hpos := hok.lcm_pos
  have hhash : c.hashBlockSize ∣ 3 * c.lcmBlockSize :=
    Nat.dvd_trans (Nat.dvd_trans (hok.hash_dvd a₁ hm₁) (hok.dvd_lcm a₁ hm₁)) (Nat.dvd_mul_left _ _)
  obtain ⟨n, hn⟩ : ∃ n, n = 3 * c.lcmBlockSize / c.hashBlockSize := ⟨_, rfl⟩
  have hn' : n * c.hashBlockSize = 3 * c.lcmBlockSize := by rw [hn, Nat.div_mul_cancel hhash]
  let keys := a₁.groupIds.map (uniformKey c x a₁) ++ a₂.groupIds.map (uniformKey c x a₂)
  -- both full-attention entries are cached throughout
  have hcached : ∀ a ∈ c.attentionGroups, (∀ g ∈ a.groupIds, uniformKey c x a g ∈ keys) →
      ∀ i < 3 * c.lcmBlockSize / a.spec.blockSize,
        CachedAt (cachedPool keys) (c.hashesOf (List.replicate n x) a.spec) a.groupIds i := by
    intro a ha hall i hi
    have hle := div_le_hashes (hok.blockSize_pos a ha) (hok.hash_dvd a ha) (Nat.le_of_eq hn'.symm)
    exact (uniform_cachedAt (Nat.lt_of_lt_of_le hi hle)).mpr hall
  have hc₁ := hcached a₁ hm₁ fun g hg =>
    List.mem_append_left _ (List.mem_map.mpr ⟨g, hg, rfl⟩)
  have hc₂ := hcached a₂ hm₂ fun g hg =>
    List.mem_append_right _ (List.mem_map.mpr ⟨g, hg, rfl⟩)
  -- the third entry is not
  have hmiss : ∀ i, ¬ CachedAt (cachedPool keys) (c.hashesOf (List.replicate n x) a₃.spec)
      a₃.groupIds i := by
    intro i hca
    obtain ⟨g, hg⟩ := List.exists_mem_of_ne_nil _ (hok.split.nonempty a₃ hm₃)
    obtain ⟨h, hh, hall⟩ := hca
    have hkey := cachedPool_getOneBlock.mp (hall g hg)
    rcases List.mem_append.mp hkey with hk | hk
    · obtain ⟨g', hg', heq⟩ := List.mem_map.mp hk
      exact hdisj hm₁ hm₃ h13 g' hg' ((Prod.mk.inj heq).2 ▸ hg)
    · obtain ⟨g', hg', heq⟩ := List.mem_map.mp hk
      exact hdisj hm₂ hm₃ h23 g' hg' ((Prod.mk.inj heq).2 ▸ hg)
  refine ⟨cachedPool keys, List.replicate n x, 3 * c.lcmBlockSize,
    by rw [List.length_replicate, hn'], ?_⟩
  intro res hres hcons
  simp only [findLongestHit, Raises.bind_eq_ok, Raises.pure_eq_ok] at hres
  obtain ⟨⟨hits', hit'⟩, hloop, rfl⟩ := hres
  obtain ⟨m, hm⟩ : ∃ m, 3 * c.lcmBlockSize = m + 1 := ⟨3 * c.lcmBlockSize - 1, by omega⟩
  have hround₀ := hloop
  rw [hm] at hround₀
  simp only [hitLoop, Raises.bind_eq_ok] at hround₀
  obtain ⟨⟨hits₄, curr₄⟩, hround, hrest⟩ := hround₀
  rw [← hm] at hround hrest
  have hr := round_ok hok _ _ _ _ _ (fun a ha => ha) (attentionGroups_nodup hok) hround
  have hcurr : curr₄ = 0 := round_zero_of_miss hok (hkind a₃ hm₃) hmiss _ _ _ _ _ (fun a ha => ha)
    (attentionGroups_nodup hok) hm₃ (not_reused_of_none (fun _ => rfl) a₃) hround
  -- the first round, entry by entry
  rw [hgroups] at hround
  obtain ⟨st₁, hv₁, hround⟩ := Raises.foldlM_cons_ok.mp hround
  obtain ⟨st₂, hv₂, hround⟩ := Raises.foldlM_cons_ok.mp hround
  have hframe₁ : ∀ g ∈ a₂.groupIds, st₁.1 g = none := fun g hg =>
    visit_frame hv₁ (hdisj hm₂ hm₁ h12.symm g hg)
  have hge₁ := visit_full_cached (k := 2) hok hm₁ hf₁ (not_reused_of_none (fun _ => rfl) a₁)
    (Nat.le_refl _) hc₁ hv₁
  obtain ⟨rows₂, hheld₂, hrows₂, hge₂⟩ := visit_full_cached (k := 1) hok hm₂ hf₂
    (fun hre => not_reused_of_none (fun _ => rfl) a₂ ((reused_congr hframe₁).mp hre))
    (by obtain ⟨_, _, _, h⟩ := hge₁; exact h)
    (fun i hi => hc₂ i (Nat.lt_of_lt_of_le hi (Nat.div_le_div_right (by omega)))) hv₂
  -- the blocks of the second entry stay as they were
  have hr' := round_ok hok (a₃ :: as) st₂.1 st₂.2 hits₄ curr₄ (fun b hb => by
    rw [hgroups]
    exact List.mem_cons_of_mem _ (List.mem_cons_of_mem _ hb))
    (List.nodup_cons.mp (List.nodup_cons.mp hnodup).2).2 hround
  have hheld₄ : Held hits₄ a₂ rows₂ := by
    refine hheld₂.congr fun g hg => hr'.frame g fun b hb => ?_
    refine hdisj hm₂ (by rw [hgroups]; exact List.mem_cons_of_mem _ (List.mem_cons_of_mem _ hb))
      ?_ g hg
    rintro rfl
    exact (List.nodup_cons.mp (List.nodup_cons.mp hnodup).2).1 hb
  have hns : c.isSimpleHybrid = false := by
    refine decide_eq_false fun hs => ?_
    rw [hgroups] at hs
    simp at hs
  dsimp only at hrest
  rw [hcurr, if_neg (by omega), hns] at hrest
  have hheld' := hitLoop_keeps hok hm₂ hf₂ m hits₄ 0 hheld₄ hrest
  -- and the loop ends at length zero
  obtain ⟨hal, hentries⟩ := round_entries hok (Or.inl fun _ => rfl) hr
  rw [hcurr] at hal
  have hinv : LoopInv c (cachedPool keys) (List.replicate n x) hits₄ 0 := by
    refine Or.inr ⟨hal, hns, fun a ha _ => ?_⟩
    obtain ⟨rows, hheld, hrows, -⟩ := hentries a ha
    exact ⟨rows, hheld, hrows, Nat.zero_le _⟩
  have hhit : hit' = 0 :=
    Nat.le_zero.mp (hitLoop_ok hok m hits₄ 0 (Nat.zero_le m) (Nat.le_refl 0) hinv hrest).le
  obtain ⟨g, hg⟩ := List.exists_mem_of_ne_nil _ (hok.split.nonempty a₂ hm₂)
  obtain ⟨hlt, hspec⟩ := hok.split.spec_eq a₂ hm₂ g hg
  obtain ⟨blocks, hb, hlen, -⟩ := hcons.blocks g a₂.spec hspec
  have htrunc : c.truncateFirst hits' hit' g = some (column rows₂ (a₂.groupIds.idxOf g)) := by
    rw [truncateFirst, hgroups]
    dsimp only
    rw [if_pos hf₁, if_neg (hdisj hm₂ hm₁ h12.symm g hg), hheld' g hg]
  have hblocks : blocks = column rows₂ (a₂.groupIds.idxOf g) := by
    simpa [List.getElem?_range hlt, htrunc] using hb.symm
  have hrows₀ : rows₂.length = 0 := by
    have : rows₂.length = blocks.length := by rw [hblocks, column, List.length_map]
    rw [this, hlen]
    show hit' / _ = 0
    rw [hhit, Nat.zero_div]
  rw [hrows₂, hrows₀] at hge₂
  omega

/-- **Consistency, exactly.** For a hybrid coordinator over full-attention,
sliding-window and mamba groups: every lookup within the hashes returns one
consistent prefix if and only if at most one entry is full attention or there
are exactly two entries. -/
theorem consistent_iff [Inhabited H] {specs : List KVCacheSpec} {hashBlockSize : Nat}
    {useEagle : Bool} {c : HybridCoordinator} (hpos : ∀ s ∈ specs, 0 < s.blockSize)
    (hkind : ∀ s ∈ specs, s.isHybridType = true)
    (hinit : HybridCoordinator.init specs hashBlockSize useEagle = .ok c) :
    (∀ (p : BlockPool H) (hashes : List H) (maxLength : Nat),
        maxLength ≤ hashes.length * hashBlockSize →
        ∃ res, c.findLongestHit p hashes maxLength = .ok res ∧
          ConsistentHit c p hashes maxLength res) ↔
      SingleTruncation c := by
  have hok := init_hybridOk hpos hinit
  obtain ⟨hspecs, hhash, -⟩ := init_fields hinit
  have hkind' : ∀ a ∈ c.attentionGroups, a.spec.isHybridType = true :=
    fun a ha => hkind _ (hspecs ▸ hok.mem_specs_iff.mpr ⟨a, ha, rfl⟩)
  rw [← hhash]
  constructor
  · intro hall
    by_contra hnot
    obtain ⟨p, hashes, m, hle, hbad⟩ := inconsistent_of_three hok hkind' (default : H) hnot
    obtain ⟨res, hres, hcons⟩ := hall p hashes m hle
    exact hbad res hres hcons
  · intro hone p hashes m hle
    obtain ⟨⟨hits, hit⟩, hloop⟩ := hitLoop_total (p := p) hok hkind' m (fun _ => none) m (Or.inl hle)
    refine ⟨_, by rw [findLongestHit, hloop]; rfl, ?_⟩
    exact consistent_of_loopOk hok hone
      (hitLoop_ok hok m _ m (Nat.le_refl m) (Nat.le_refl m) (Or.inl fun _ => rfl) hloop)

/-- Two full-attention layers that differ in their heads, and a sliding window. -/
def twoFullSpecs : List KVCacheSpec := [fullSpec 4 1, fullSpec 4 2, slidingSpec 4 1 8]

def twoFullCoordinator : HybridCoordinator where
  specs := twoFullSpecs
  hashBlockSize := 4
  useEagle := false
  attentionGroups := [⟨fullSpec 4 1, [0]⟩, ⟨fullSpec 4 2, [1]⟩, ⟨slidingSpec 4 1 8, [2]⟩]
  lcmBlockSize := 4

/-- One block of hash `7`, cached for the two full-attention groups. -/
def twoFullPool : BlockPool Nat := cachedPool [([7], 0), ([7], 1)]

example : twoFullCoordinator.findLongestHit twoFullPool [7] 4 = .ok ([[], [2], []], 0) := by rfl

/-- The hit has length zero, and group 1 still gets a block. -/
theorem second_full_list_not_truncated :
    ¬ ∀ (specs : List KVCacheSpec) (hashBlockSize : Nat) (useEagle : Bool) (c : HybridCoordinator)
      (p : BlockPool Nat) (hashes : List Nat) (maxLength : Nat),
      (∀ s ∈ specs, 0 < s.blockSize) → (∀ s ∈ specs, s.isHybridType = true) →
      HybridCoordinator.init specs hashBlockSize useEagle = .ok c →
      maxLength ≤ hashes.length * hashBlockSize →
      ∃ res, c.findLongestHit p hashes maxLength = .ok res ∧
        ConsistentHit c p hashes maxLength res := by
  intro hall
  obtain ⟨res, hres, hcons⟩ := hall twoFullSpecs 4 false twoFullCoordinator twoFullPool [7] 4
    (by decide) (by decide) (by rfl) (by decide)
  have hval : twoFullCoordinator.findLongestHit twoFullPool [7] 4 = .ok ([[], [2], []], 0) := by rfl
  rw [hval] at hres
  obtain rfl := Except.ok.inj hres
  obtain ⟨blocks, hb, hlen, -⟩ := hcons.blocks 1 (fullSpec 4 2) (by rfl)
  obtain rfl : [2] = blocks := Option.some.inj hb
  exact absurd hlen (by decide)

/-- One full-attention layer and a sliding window. -/
def oneFullCoordinator : HybridCoordinator where
  specs := [fullSpec 4 1, slidingSpec 4 1 8]
  hashBlockSize := 4
  useEagle := false
  attentionGroups := [⟨fullSpec 4 1, [0]⟩, ⟨slidingSpec 4 1 8, [1]⟩]
  lcmBlockSize := 4

theorem oneFullCoordinator_consistent :
    ∃ res, oneFullCoordinator.findLongestHit (cachedPool [([7], 0), ([7], 1)]) [7] 4 = .ok res ∧
      ConsistentHit oneFullCoordinator (cachedPool [([7], 0), ([7], 1)]) [7] 4 res := by
  have hinit : HybridCoordinator.init [fullSpec 4 1, slidingSpec 4 1 8] 4 false
      = .ok oneFullCoordinator := by rfl
  exact (consistent_iff (by decide) (by decide) hinit).mpr (Or.inr rfl) _ _ _ (by decide)

end VllmEngine
