import VllmEngine.Sample.ThinkingBudget

/-!
# The countdown against the sections

An entry of `_state` against the tokens of its request. Between two updates the entry is
`Synced`: the section, together with what is left of the countdown, stays below the budget,
or the section is full and a part of the end marker stands behind it. Before an update there
may be one token more (`Pending`); `_update_think_state` takes the one to the other.
-/

namespace VllmEngine.Sample.Thinking.Markers

open Occurrences

variable {R : Type} {m : Markers} {o : List Int} {st : ThinkState R} {c b : Nat}

/-- The section was full `j` tokens of the end marker ago. -/
def Ending (m : Markers) (b : Nat) (o : List Int) (j : Nat) : Prop :=
  j < m.reasoningEndTokenIds.length ∧
    ∃ o', o = o' ++ m.reasoningEndTokenIds.take j ∧ m.Section o' b

theorem Ending.section_eq {j : Nat} (hm : m.Apart) (h : m.Ending b o j) (hsec : m.Section o c) :
    c = b + j := by
  obtain ⟨hj, o', rfl, hfull⟩ := h
  exact hfull.append_take hm hj hsec

theorem Section.ending (h : m.Section o b) : m.Ending b o 0 :=
  ⟨m.end_pos, o, by rw [List.take_zero, List.append_nil], h⟩

/-- The entry between two updates. -/
inductive Synced (m : Markers) (st : ThinkState R) (o : List Int) : Prop
  | counting (inEnd : st.inEnd = false) (prev_le : st.prevOutputLength ≤ o.length)
      (counts : m.Counts (o.take st.prevOutputLength) st.inThink st.thinkCount)
      (countdown_le : st.checkCountDown ≤ st.thinkingTokenBudget)
      (below : ∀ c, m.Section o c → c + st.checkCountDown < st.thinkingTokenBudget)
  | ending (inEnd : st.inEnd = true) (inThink : st.inThink = false)
      (prev_eq : st.prevOutputLength = o.length)
      (ending : m.Ending st.thinkingTokenBudget o st.endCount)

/-- The entry before an update, when there may be a new token. -/
inductive Pending (m : Markers) (st : ThinkState R) (o : List Int) : Prop
  | counting (inEnd : st.inEnd = false) (prev_le : st.prevOutputLength ≤ o.length)
      (counts : m.Counts (o.take st.prevOutputLength) st.inThink st.thinkCount)
      (countdown_le : st.checkCountDown ≤ st.thinkingTokenBudget)
      (reached : ∀ c, m.Section o c → c + st.checkCountDown ≤ st.thinkingTokenBudget)
      (stale : st.prevOutputLength = o.length →
        ∀ c, m.Section o c → c + st.checkCountDown < st.thinkingTokenBudget)
  | same (inEnd : st.inEnd = true) (inThink : st.inThink = false)
      (prev_eq : st.prevOutputLength = o.length)
      (ending : m.Ending st.thinkingTokenBudget o st.endCount)
  | forced (o' : List Int) (t : Int) (inEnd : st.inEnd = true) (inThink : st.inThink = false)
      (snoc : o = o' ++ [t]) (prev_eq : st.prevOutputLength = o'.length)
      (ending : m.Ending st.thinkingTokenBudget o' st.endCount)
      (token : m.reasoningEndTokenIds[st.endCount]? = some t)

theorem Synced.pending (h : m.Synced st o) : m.Pending st o := by
  cases h with
  | counting hinEnd hprev hcounts hle hbelow =>
    exact .counting hinEnd hprev hcounts hle (fun c hc => Nat.le_of_lt (hbelow c hc))
      (fun _ => hbelow)
  | ending hinEnd hinThink hprev hending => exact .same hinEnd hinThink hprev hending

/-- The next token, which is the one of the end marker when the entry asks for it. -/
theorem Synced.pending_snoc {t : Int} (h : m.Synced st o)
    (hforced : st.inEnd = true → m.reasoningEndTokenIds[st.endCount]? = some t) :
    m.Pending st (o ++ [t]) := by
  have hlen : (o ++ [t]).length = o.length + 1 := by
    rw [List.length_append, List.length_singleton]
  cases h with
  | counting hinEnd hprev hcounts hle hbelow =>
    refine .counting hinEnd (by omega) ?_ hle ?_ (fun heq => by omega)
    · rw [List.take_append_of_le_length hprev]
      exact hcounts
    · intro c hsec
      rcases hsec.of_snoc with rfl | ⟨c', hsec', rfl⟩
      · -- the section begins here: the countdown has not passed the budget
        omega
      · have := hbelow c' hsec'
        omega
  | ending hinEnd hinThink hprev hending =>
    exact .forced o t hinEnd hinThink rfl hprev hending (hforced hinEnd)

/-- An entry made for outputs without a token in an open section. -/
theorem pending_initStateEntry (r : R) {promptTokIds : Option (List Int)}
    (hprompt : ∀ ids ∈ promptTokIds, m.inThinkOf ids = false)
    (hfresh : ∀ c, m.Section o c → c = 0) :
    m.Pending (m.initStateEntry promptTokIds b r) o := by
  have hinThink : (m.initStateEntry promptTokIds b r).inThink = false := by
    unfold initStateEntry
    cases promptTokIds with
    | none => rfl
    | some ids => exact hprompt ids rfl
  have hinEnd : (m.initStateEntry promptTokIds b r).inEnd = false := by
    show ((m.initStateEntry promptTokIds b r).inThink && decide (b = 0)) = false
    rw [hinThink, Bool.false_and]
  refine .counting hinEnd (Nat.zero_le _) ⟨?_, ?_⟩ (Nat.le_refl b) ?_ ?_
  · intro htrue
    rw [hinThink] at htrue
    exact absurd htrue (by simp)
  · intro _ c
    show ¬ m.Section (o.take 0) c
    rw [List.take_zero]
    exact not_section_nil
  · intro c hsec
    show c + b ≤ b
    rw [hfresh c hsec, Nat.zero_add]
  · intro hzero c hsec
    have hnil : o = [] := List.length_eq_zero_iff.mp hzero.symm
    rw [hnil] at hsec
    exact absurd hsec not_section_nil

/-- The look at new tokens. -/
theorem synced_inspect (hm : m.Apart) (hinEnd : st.inEnd = false)
    (hprev : st.prevOutputLength ≤ o.length)
    (hcounts : m.Counts (o.take st.prevOutputLength) st.inThink st.thinkCount)
    (hreached : ∀ c, m.Section o c → c ≤ st.thinkingTokenBudget) :
    m.Synced (m.inspect st o) o := by
  have hnew := recount_counts hm hprev hcounts
  unfold inspect
  generalize m.recount o st.prevOutputLength st.inThink st.thinkCount = found at hnew
  obtain ⟨inThink, thinkCount⟩ := found
  have htake : o.take o.length = o := List.take_length
  cases inThink with
  | false =>
    dsimp only
    rw [if_neg (by simp)]
    refine .counting hinEnd (Nat.le_refl _) ?_ (Nat.le_refl _) ?_
    · show m.Counts (o.take o.length) false thinkCount
      rw [htake]
      exact hnew
    · intro c hsec
      exact absurd hsec (hnew.2 rfl c)
  | true =>
    have hsec := hnew.1 rfl
    dsimp only at hsec ⊢
    split
    · rename_i hdue
      have hfull : thinkCount = st.thinkingTokenBudget := by
        have := hreached thinkCount hsec
        have := hdue.2
        omega
      rw [hfull] at hsec
      exact .ending rfl rfl rfl hsec.ending
    · rename_i hearly
      have hlt : thinkCount < st.thinkingTokenBudget :=
        Nat.lt_of_not_le fun hle => hearly ⟨rfl, hle⟩
      refine .counting hinEnd (Nat.le_refl _) ?_ ?_ ?_
      · show m.Counts (o.take o.length) true thinkCount
        rw [htake]
        exact hnew
      · show st.thinkingTokenBudget - thinkCount - 1 ≤ st.thinkingTokenBudget
        omega
      · intro c hsec'
        show c + (st.thinkingTokenBudget - thinkCount - 1) < st.thinkingTokenBudget
        have := hsec'.unique hsec
        omega

/-- A token of the end marker. -/
theorem synced_countEnd {t : Int} (hm : m.Apart) (hinThink : st.inThink = false)
    (hinEnd : st.inEnd = true) (hending : m.Ending st.thinkingTokenBudget o st.endCount)
    (htoken : m.reasoningEndTokenIds[st.endCount]? = some t) :
    m.Synced (m.countEnd st (o ++ [t])) (o ++ [t]) := by
  obtain ⟨hlt, o', ho, hfull⟩ := hending
  have hsnoc : o ++ [t] = o' ++ m.reasoningEndTokenIds.take (st.endCount + 1) := by
    rw [List.take_add_one, htoken, ho, List.append_assoc]
    rfl
  unfold countEnd
  dsimp only
  split
  · rename_i hle
    -- the marker is whole: there is no section any more
    have hwhole : o ++ [t] = o' ++ m.reasoningEndTokenIds := by
      rw [hsnoc, List.take_of_length_le hle]
    have hnone : ∀ c, ¬ m.Section (o ++ [t]) c := by
      intro c
      rw [hwhole]
      exact not_section_append_end hm
    refine .counting rfl (Nat.le_refl _) ⟨?_, ?_⟩ (Nat.le_refl _) ?_
    · intro htrue
      exact absurd (hinThink.symm.trans htrue) (by simp)
    · intro _ c
      show ¬ m.Section ((o ++ [t]).take (o ++ [t]).length) c
      rw [List.take_length]
      exact hnone c
    · intro c hsec
      exact absurd hsec (hnone c)
  · rename_i hlt'
    exact .ending hinEnd hinThink rfl ⟨Nat.lt_of_not_le hlt', o', hsnoc, hfull⟩

@[simp] theorem updateThinkState_outputTokIds (m : Markers) (st : ThinkState R) (o : List Int) :
    (m.updateThinkState st o).outputTokIds = st.outputTokIds := by
  unfold updateThinkState countEnd inspect
  dsimp only
  split_ifs <;> rfl

@[simp] theorem updateThinkState_thinkingTokenBudget (m : Markers) (st : ThinkState R)
    (o : List Int) : (m.updateThinkState st o).thinkingTokenBudget = st.thinkingTokenBudget := by
  unfold updateThinkState countEnd inspect
  dsimp only
  split_ifs <;> rfl

/-- The step lemma: `_update_think_state` catches up with the tokens. -/
theorem Pending.updateThinkState (hm : m.Apart) (h : m.Pending st o) :
    m.Synced (m.updateThinkState st o) o := by
  unfold Markers.updateThinkState
  cases h with
  | counting hinEnd hprev hcounts hle hreached hstale =>
    rcases Nat.eq_zero_or_pos st.checkCountDown with hzero | hpos
    · rw [if_neg (by omega)]
      rcases Nat.lt_or_ge st.prevOutputLength o.length with hlt | hge
      · have hne : o ≠ [] := by
          intro hnil
          rw [hnil] at hlt
          exact Nat.not_lt_zero _ hlt
        rw [if_neg hne, if_neg (Nat.not_le.mpr hlt), hinEnd, if_neg Bool.false_ne_true]
        refine synced_inspect hm hinEnd hprev hcounts fun c hsec => ?_
        have := hreached c hsec
        omega
      · -- no new token: the entry stays
        have hsame : m.Synced st o :=
          .counting hinEnd hprev hcounts hle (hstale (Nat.le_antisymm hprev hge))
        split
        · exact hsame
        · exact hsame
    · rw [if_pos ⟨hinEnd, hpos⟩]
      refine .counting hinEnd hprev hcounts ?_ fun c hsec => ?_
      · show st.checkCountDown - 1 ≤ st.thinkingTokenBudget
        omega
      · show c + (st.checkCountDown - 1) < st.thinkingTokenBudget
        have := hreached c hsec
        omega
  | same hinEnd hinThink hprev hending =>
    have hsame : m.Synced st o := .ending hinEnd hinThink hprev hending
    rw [if_neg (by rw [hinEnd]; simp)]
    split
    · exact hsame
    · rw [if_pos (Nat.le_of_eq hprev.symm)]
      exact hsame
  | forced o' t hinEnd hinThink hsnoc hprev hending htoken =>
    subst hsnoc
    have hlt : ¬ (o' ++ [t]).length ≤ st.prevOutputLength := by
      rw [List.length_append, List.length_singleton, hprev]
      omega
    rw [if_neg (by rw [hinEnd]; simp), if_neg (by simp), if_neg hlt, if_pos hinEnd]
    exact synced_countEnd hm hinThink hinEnd hending htoken

/-! ## What the token of a row is forced to -/

/-- A full section: the end marker is asked for, from the token it has got to. -/
theorem Synced.due (hm : m.Apart) (h : m.Synced st o) (hsec : m.Section o c)
    (hle : st.thinkingTokenBudget ≤ c) :
    st.inEnd = true ∧ m.Ending st.thinkingTokenBudget o st.endCount ∧
      c = st.thinkingTokenBudget + st.endCount := by
  cases h with
  | counting hinEnd hprev hcounts hcd hbelow =>
    have := hbelow c hsec
    omega
  | ending hinEnd hinThink hprev hending => exact ⟨hinEnd, hending, hending.section_eq hm hsec⟩

/-- Nothing is asked for before that. -/
theorem Synced.early (h : m.Synced st o) (hinEnd : st.inEnd = true) :
    m.Ending st.thinkingTokenBudget o st.endCount := by
  cases h with
  | counting hfalse => rw [hinEnd] at hfalse; exact absurd hfalse (by simp)
  | ending _ _ _ hending => exact hending

/-- No section exceeds the budget, but for the part of the end marker behind a full one. -/
def Bounded (m : Markers) (b : Nat) (o : List Int) : Prop :=
  ∀ c, m.Section o c → c ≤ b ∨ ∃ j, m.Ending b o j ∧ c = b + j

theorem Synced.bounded_snoc {t : Int} (hm : m.Apart) (h : m.Synced st o)
    (hforced : st.inEnd = true → m.reasoningEndTokenIds[st.endCount]? = some t) :
    m.Bounded st.thinkingTokenBudget (o ++ [t]) := by
  intro c hsec
  cases h with
  | counting hinEnd hprev hcounts hcd hbelow =>
    left
    rcases hsec.of_snoc with rfl | ⟨c', hsec', rfl⟩
    · exact Nat.zero_le _
    · have := hbelow c' hsec'
      omega
  | ending hinEnd hinThink hprev hending =>
    right
    obtain ⟨hlt, o', ho, hfull⟩ := hending
    have hsnoc : o ++ [t] = o' ++ m.reasoningEndTokenIds.take (st.endCount + 1) := by
      rw [List.take_add_one, hforced hinEnd, ho, List.append_assoc]
      rfl
    have hlt' : st.endCount + 1 < m.reasoningEndTokenIds.length := by
      refine Nat.lt_of_not_le fun hle => ?_
      rw [hsnoc, List.take_of_length_le hle] at hsec
      exact not_section_append_end hm hsec
    have hending' : m.Ending st.thinkingTokenBudget (o ++ [t]) (st.endCount + 1) :=
      ⟨hlt', o', hsnoc, hfull⟩
    exact ⟨st.endCount + 1, hending', hending'.section_eq hm hsec⟩

end VllmEngine.Sample.Thinking.Markers
