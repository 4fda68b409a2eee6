import VllmEngine.Lib.Dict
import VllmEngine.Lib.Occurrences

/-!
# The thinking budget

`ThinkingTokenBudgetLogitsProcessor` (`vllm/v1/sample/logits_processor/builtin.py`): for each
row of the batch a record of where its output stands, looked at again when a countdown has
run out, and the logits of a row that has to end its thinking section.

Mirroring notes:
- `output_tok_ids` is a reference to the request's list of output tokens. It is the request
  here, and the lists are those of the moment.
- `BatchUpdate.added` names the request whose parameters, prompt and outputs it carries.
- The marker sequences are not empty (`initialize_token_ids` raises where one is).
- Logits are of any type, and `1e9` is one of them.
-/

namespace VllmEngine.Sample.Thinking

variable {R : Type}

/-- `_find_last_sequence_index`, from an index down. -/
def findLastFrom (targetList tokenIds : List Int) : Nat → Int
  | 0 => if (targetList.drop 0).take tokenIds.length = tokenIds then 0 else -1
  | i + 1 =>
    if (targetList.drop (i + 1)).take tokenIds.length = tokenIds then (i + 1 : Nat)
    else findLastFrom targetList tokenIds i

/-- `_find_last_sequence_index`. -/
def findLastSequenceIndex (targetList tokenIds : List Int) : Int :=
  if tokenIds = [] then -1
  else if targetList.length < tokenIds.length then -1
  else findLastFrom targetList tokenIds (targetList.length - tokenIds.length)

/-- The two sequences of `ReasoningConfig`. -/
structure Markers where
  reasoningStartTokenIds : List Int
  reasoningEndTokenIds : List Int
  start_ne : reasoningStartTokenIds ≠ []
  end_ne : reasoningEndTokenIds ≠ []

/-- An entry of `_state`. -/
structure ThinkState (R : Type) where
  inThink : Bool
  inEnd : Bool
  checkCountDown : Nat
  thinkCount : Nat
  endCount : Nat
  promptTokIds : Option (List Int)
  outputTokIds : R
  thinkingTokenBudget : Nat
  prevOutputLength : Nat

/-- What a request brings along. -/
structure Request where
  thinkingTokenBudget : Option Nat
  promptTokIds : Option (List Int)

inductive MoveDirectionality
  | unidirectional
  | swap
deriving DecidableEq

structure BatchUpdate (R : Type) where
  removed : List Nat
  added : List (Nat × R)
  moved : List (Nat × Nat × MoveDirectionality)

namespace Markers

variable (m : Markers)

/-- The comparison of `_init_state_entry`. -/
def inThinkOf (promptTokIds : List Int) : Bool :=
  decide (findLastSequenceIndex promptTokIds m.reasoningEndTokenIds <
    findLastSequenceIndex promptTokIds m.reasoningStartTokenIds)

/-- `_init_state_entry`, with the reference to the outputs. -/
def initStateEntry (promptTokIds : Option (List Int)) (thinkingTokenBudget : Nat) (r : R) :
    ThinkState R :=
  let (inThink, thinkCount) := match promptTokIds with
    | none => (false, 0)
    | some promptTokIds =>
      let lastStart := findLastSequenceIndex promptTokIds m.reasoningStartTokenIds
      let inThink := m.inThinkOf promptTokIds
      (inThink,
        if inThink then promptTokIds.length - (lastStart.toNat + m.reasoningStartTokenIds.length)
        else 0)
  { inThink := inThink
    inEnd := inThink && decide (thinkingTokenBudget = 0)
    checkCountDown := thinkingTokenBudget
    thinkCount := thinkCount
    endCount := 0
    promptTokIds := promptTokIds
    outputTokIds := r
    thinkingTokenBudget := thinkingTokenBudget
    prevOutputLength := 0 }

/-- `in_think` and `think_count` from the recent tokens. -/
def recount (output : List Int) (prevLength : Nat) (inThink : Bool) (thinkCount : Nat) :
    Bool × Nat :=
  let startLen := m.reasoningStartTokenIds.length
  let endLen := m.reasoningEndTokenIds.length
  -- overlapping regions where sequences might span boundaries
  let checkStartIdx := prevLength + 1 - max startLen endLen
  let recentTokens := output.drop checkStartIdx
  let recentStartPos := findLastSequenceIndex recentTokens m.reasoningStartTokenIds
  let recentEndPos := findLastSequenceIndex recentTokens m.reasoningEndTokenIds
  let newThinkCount := output.length - (checkStartIdx + recentStartPos.toNat + startLen)
  if 0 ≤ recentStartPos ∧ 0 ≤ recentEndPos then
    if recentEndPos < recentStartPos then (true, newThinkCount) else (false, 0)
  else if 0 ≤ recentStartPos then (true, newThinkCount)
  else if 0 ≤ recentEndPos then (false, 0)
  else if inThink then (inThink, thinkCount + (output.length - prevLength))
  else (inThink, thinkCount)

/-- The branch of `_update_think_state` that looks at new tokens. -/
def inspect (st : ThinkState R) (output : List Int) : ThinkState R :=
  let (inThink, thinkCount) := m.recount output st.prevOutputLength st.inThink st.thinkCount
  let remainingBudget := st.thinkingTokenBudget - thinkCount
  let st :=
    { st with
      prevOutputLength := output.length
      inThink := inThink
      thinkCount := thinkCount
      checkCountDown := if inThink then remainingBudget - 1 else st.thinkingTokenBudget }
  if st.inThink ∧ st.thinkingTokenBudget ≤ st.thinkCount then
    { st with
      inThink := false
      inEnd := true
      endCount := 0
      checkCountDown := st.thinkingTokenBudget }
  else st

/-- The branch of `_update_think_state` in end mode. -/
def countEnd (st : ThinkState R) (output : List Int) : ThinkState R :=
  let st := { st with prevOutputLength := output.length, endCount := st.endCount + 1 }
  if m.reasoningEndTokenIds.length ≤ st.endCount then
    { st with inEnd := false, endCount := 0, checkCountDown := st.thinkingTokenBudget }
  else st

/-- `_update_think_state`. -/
def updateThinkState (st : ThinkState R) (output : List Int) : ThinkState R :=
  if st.inEnd = false ∧ 0 < st.checkCountDown then
    { st with checkCountDown := st.checkCountDown - 1 }
  else if output = [] then st
  else if output.length ≤ st.prevOutputLength then st
  else if st.inEnd then m.countEnd st output
  else m.inspect st output

end Markers

/-! ## The processor -/

/-- `ThinkingTokenBudgetLogitsProcessor`. -/
structure Processor (R : Type) where
  isEnabled : Bool
  markers : Markers
  state : Dict Nat (ThinkState R)

namespace Processor

variable (p : Processor R)

/-- An item of `batch_update.added`. -/
def add (requests : R → Request) (state : Dict Nat (ThinkState R)) (item : Nat × R) :
    Dict Nat (ThinkState R) :=
  match (requests item.2).thinkingTokenBudget with
  | some budget =>
    state.set item.1 (p.markers.initStateEntry (requests item.2).promptTokIds budget item.2)
  | none => state.erase item.1

/-- An item of `batch_update.moved`. -/
def move (state : Dict Nat (ThinkState R)) (item : Nat × Nat × MoveDirectionality) :
    Dict Nat (ThinkState R) :=
  let (i1, i2, direction) := item
  match direction with
  | .swap =>
    let state1 := state.get? i1
    let state := state.erase i1
    let state2 := state.get? i2
    let state := state.erase i2
    let state := match state1 with
      | some st => state.set i2 st
      | none => state
    match state2 with
    | some st => state.set i1 st
    | none => state
  | .unidirectional =>
    let state1 := state.get? i1
    let state := state.erase i1
    match state1 with
    | some st => state.set i2 st
    | none => state

/-- The changes of a batch update, in the order of `update_state`. -/
def applyBatchUpdate (requests : R → Request) (batchUpdate : BatchUpdate R) :
    Dict Nat (ThinkState R) :=
  let state := batchUpdate.added.foldl (p.add requests) p.state
  let state := batchUpdate.removed.foldl Dict.erase state
  batchUpdate.moved.foldl move state

/-- `update_state`. -/
def updateState (requests : R → Request) (outputs : R → List Int)
    (batchUpdate : Option (BatchUpdate R)) : Processor R :=
  if p.isEnabled then
    let state := match batchUpdate with
      | some batchUpdate => p.applyBatchUpdate requests batchUpdate
      | none => p.state
    { p with state := state.mapValues fun st =>
        p.markers.updateThinkState st (outputs st.outputTokIds) }
  else p

/-- The token that a row is forced to. -/
def forced (i : Nat) : Option Int :=
  if p.isEnabled then
    (p.state.get? i).bind fun st =>
      if st.inEnd then p.markers.reasoningEndTokenIds[st.endCount]? else none
  else none

/-- `apply`; a row of logits is a function of the token. -/
def apply {L : Type} (large : L) (logits : List (Int → L)) : List (Int → L) :=
  logits.mapIdx fun i row =>
    match p.forced i with
    | some t => fun t' => if t' = t then large else row t'
    | none => row

end Processor
end VllmEngine.Sample.Thinking

/-!
## Thinking sections

The section that a list of tokens ends in: what stands after the last start marker, when no
end marker ends after that. `recount` looks at a window of the recent tokens only; where
the record was right about the tokens before, it is right about all of them afterwards
(`recount_counts`).
-/

namespace VllmEngine.Sample.Thinking

open Occurrences

/-- What `_find_last_sequence_index` returns. -/
theorem findLastFrom_spec {l s : List Int} : ∀ {n : Nat}, n + s.length ≤ l.length →
    (findLastFrom l s n = -1 ∧ ∀ i ≤ n, ¬ EndsAt l s (i + s.length)) ∨
    ∃ i : Nat, findLastFrom l s n = i ∧ i ≤ n ∧ EndsAt l s (i + s.length) ∧
      ∀ k ≤ n, i < k → ¬ EndsAt l s (k + s.length) := by
  have hcmp : ∀ i, i + s.length ≤ l.length →
      ((l.drop i).take s.length = s ↔ EndsAt l s (i + s.length)) := by
    intro i hi
    rw [← isPrefixOf_drop_iff, List.isPrefixOf_iff_prefix, List.prefix_iff_eq_take]
    exact ⟨fun h => ⟨h.symm, hi⟩, fun h => h.1.symm⟩
  intro n
  induction n with
  | zero =>
    intro hn
    rw [findLastFrom]
    split
    · rename_i heq
      right
      refine ⟨0, rfl, Nat.le_refl 0, (hcmp 0 hn).mp heq, fun k hk hlt => ?_⟩
      omega
    · rename_i hne
      left
      refine ⟨rfl, fun i hi hends => hne ?_⟩
      obtain rfl : i = 0 := by omega
      exact (hcmp 0 hn).mpr hends
  | succ n ih =>
    intro hn
    rw [findLastFrom]
    split
    · rename_i heq
      right
      refine ⟨n + 1, rfl, Nat.le_refl _, (hcmp (n + 1) hn).mp heq, fun k hk hlt => ?_⟩
      omega
    · rename_i hne
      have hlast : ¬ EndsAt l s (n + 1 + s.length) := fun h => hne ((hcmp (n + 1) hn).mpr h)
      rcases ih (by omega) with ⟨heq, hnone⟩ | ⟨i, heq, hi, hends, hlater⟩
      · left
        refine ⟨heq, fun i hi hends => ?_⟩
        rcases Nat.lt_or_ge n i with hlt | hle
        · obtain rfl : i = n + 1 := by omega
          exact hlast hends
        · exact hnone i hle hends
      · right
        refine ⟨i, heq, by omega, hends, fun k hk hlt hends' => ?_⟩
        rcases Nat.lt_or_ge n k with hlt' | hle
        · obtain rfl : k = n + 1 := by omega
          exact hlast hends'
        · exact hlater k hle hlt hends'

theorem findLastSequenceIndex_spec {l s : List Int} (hs : s ≠ []) :
    (findLastSequenceIndex l s = -1 ∧ ∀ p, ¬ EndsAt l s p) ∨
    ∃ i : Nat, findLastSequenceIndex l s = i ∧ EndsAt l s (i + s.length) ∧
      ∀ p, i + s.length < p → ¬ EndsAt l s p := by
  rw [findLastSequenceIndex, if_neg hs]
  split
  · rename_i hlen
    left
    refine ⟨rfl, fun p hends => ?_⟩
    have := hends.1
    have := hends.length_le
    omega
  · rename_i hlen
    -- an end stands behind its occurrence, which begins at the difference
    rcases findLastFrom_spec (n := l.length - s.length) (l := l) (s := s) (by omega) with
      ⟨heq, hnone⟩ | ⟨i, heq, -, hends, hlater⟩
    · left
      refine ⟨heq, fun p hends => ?_⟩
      have hp := hends.1
      have hle := hends.length_le
      have hp' : p - s.length + s.length = p := by omega
      exact hnone (p - s.length) (by omega) (hp'.symm ▸ hends)
    · right
      refine ⟨i, heq, hends, fun p hlt hends' => ?_⟩
      have hp := hends'.1
      have hle := hends'.length_le
      have hp' : p - s.length + s.length = p := by omega
      exact hlater (p - s.length) (by omega) (by omega) (hp'.symm ▸ hends')

namespace Markers

variable {m : Markers} {o : List Int} {c : Nat}

/-- No occurrence of one marker overlaps one of the other. -/
def Apart (m : Markers) : Prop :=
  ∀ (l : List Int) (p q : Nat), EndsAt l m.reasoningStartTokenIds p →
    EndsAt l m.reasoningEndTokenIds q →
      p + m.reasoningEndTokenIds.length ≤ q ∨ q + m.reasoningStartTokenIds.length ≤ p

/-- The tokens end in a thinking section that holds `c` of them. -/
def Section (m : Markers) (o : List Int) (c : Nat) : Prop :=
  ∃ p, EndsAt o m.reasoningStartTokenIds p ∧
    (∀ p', p < p' → ¬ EndsAt o m.reasoningStartTokenIds p') ∧
    (∀ q, p < q → ¬ EndsAt o m.reasoningEndTokenIds q) ∧ c + p = o.length

theorem start_pos (m : Markers) : 0 < m.reasoningStartTokenIds.length :=
  List.length_pos_iff.mpr m.start_ne

theorem end_pos (m : Markers) : 0 < m.reasoningEndTokenIds.length :=
  List.length_pos_iff.mpr m.end_ne

theorem Section.unique {c' : Nat} (h : m.Section o c) (h' : m.Section o c') : c = c' := by
  obtain ⟨p, hp, hlast, -, hc⟩ := h
  obtain ⟨p', hp', hlast', -, hc'⟩ := h'
  have hle : p ≤ p' := Nat.le_of_not_lt fun hlt => hlast' p hlt hp
  have hge : p' ≤ p := Nat.le_of_not_lt fun hlt => hlast p' hlt hp'
  omega

theorem not_section_nil : ¬ m.Section [] c := by
  intro h
  obtain ⟨p, hp, -, -, -⟩ := h
  have hlen := hp.length_le
  have hle := hp.1
  have := m.start_pos
  rw [List.length_nil] at hle
  omega

/-- One token more begins a section or is one more in it. -/
theorem Section.of_snoc {t : Int} (h : m.Section (o ++ [t]) c) :
    c = 0 ∨ ∃ c', m.Section o c' ∧ c = c' + 1 := by
  obtain ⟨p, hp, hlast, hnoend, hc⟩ := h
  rw [List.length_append, List.length_singleton] at hc
  rcases Nat.lt_or_ge o.length p with hlt | hle
  · left
    omega
  · right
    refine ⟨o.length - p, ⟨p, (endsAt_append hle).mp hp, ?_, ?_, by omega⟩, by omega⟩
    · intro p' hp' hends
      exact hlast p' hp' ((endsAt_append hends.1).mpr hends)
    · intro q hq hends
      exact hnoend q hq ((endsAt_append hends.1).mpr hends)

/-- An occurrence at the very end. -/
theorem endsAt_append_self (o s : List Int) : EndsAt (o ++ s) s (o ++ s).length := by
  refine ⟨Nat.le_refl _, ?_⟩
  rw [List.take_length]
  exact List.suffix_append o s

/-- A whole end marker ends the section. -/
theorem not_section_append_end (hm : m.Apart) : ¬ m.Section (o ++ m.reasoningEndTokenIds) c := by
  intro h
  obtain ⟨p, hp, -, hnoend, -⟩ := h
  have hend := endsAt_append_self o m.reasoningEndTokenIds
  have hstart := m.start_pos
  have hpos := m.end_pos
  rcases hm _ p _ hp hend with hle | hle
  · exact hnoend _ (by omega) hend
  · have := hp.1
    omega

/-- A part of the end marker counts as tokens of the section. -/
theorem Section.append_take {j b : Nat} (hm : m.Apart) (h : m.Section o b)
    (hj : j < m.reasoningEndTokenIds.length)
    (h' : m.Section (o ++ m.reasoningEndTokenIds.take j) c) : c = b + j := by
  obtain ⟨p, hp, hlast, -, hc⟩ := h
  obtain ⟨p', hp', hlast', -, hc'⟩ := h'
  have hlen : (o ++ m.reasoningEndTokenIds.take j).length = o.length + j := by
    rw [List.length_append, List.length_take, Nat.min_eq_left (Nat.le_of_lt hj)]
  have hle' := hp'.1
  rw [hlen] at hle' hc'
  -- a start marker that ends in the part would overlap the whole end marker
  have hin : p' ≤ o.length := by
    have hwhole : o ++ m.reasoningEndTokenIds =
        o ++ m.reasoningEndTokenIds.take j ++ m.reasoningEndTokenIds.drop j := by
      rw [List.append_assoc, List.take_append_drop]
    have hends : EndsAt (o ++ m.reasoningEndTokenIds) m.reasoningStartTokenIds p' := by
      rw [hwhole]
      exact (endsAt_append hp'.1).mpr hp'
    have hstart := m.start_pos
    have htotal : (o ++ m.reasoningEndTokenIds).length =
        o.length + m.reasoningEndTokenIds.length := List.length_append
    rcases hm _ p' _ hends (endsAt_append_self o m.reasoningEndTokenIds) with hle | hle
    · omega
    · omega
  have hpo := hp.1
  have hle : p' ≤ p := Nat.le_of_not_lt fun hlt => hlast p' hlt ((endsAt_append hin).mp hp')
  have hge : p ≤ p' := Nat.le_of_not_lt fun hlt => hlast' p hlt ((endsAt_append hpo).mpr hp)
  omega

/-! ## The window of `_update_think_state` -/

/-- The record is right about the tokens. -/
def Counts (m : Markers) (o : List Int) (inThink : Bool) (thinkCount : Nat) : Prop :=
  (inThink = true → m.Section o thinkCount) ∧ (inThink = false → ∀ c, ¬ m.Section o c)

/-- Where the recent tokens begin. -/
def windowStart (m : Markers) (prevLength : Nat) : Nat :=
  prevLength + 1 - max m.reasoningStartTokenIds.length m.reasoningEndTokenIds.length

theorem recount_eq (m : Markers) (o : List Int) (n : Nat) (inThink : Bool) (count : Nat) :
    m.recount o n inThink count =
      let recentStartPos :=
        findLastSequenceIndex (o.drop (m.windowStart n)) m.reasoningStartTokenIds
      let recentEndPos := findLastSequenceIndex (o.drop (m.windowStart n)) m.reasoningEndTokenIds
      let newThinkCount := o.length -
        (m.windowStart n + recentStartPos.toNat + m.reasoningStartTokenIds.length)
      if 0 ≤ recentStartPos ∧ 0 ≤ recentEndPos then
        if recentEndPos < recentStartPos then (true, newThinkCount) else (false, 0)
      else if 0 ≤ recentStartPos then (true, newThinkCount)
      else if 0 ≤ recentEndPos then (false, 0)
      else if inThink then (inThink, count + (o.length - n))
      else (inThink, count) := rfl

/-- What a search in the recent tokens tells about all of them. -/
theorem recent_spec {s : List Int} (hs : s ≠ []) {w : Nat} (hw : w ≤ o.length) :
    (findLastSequenceIndex (o.drop w) s = -1 ∧ ∀ p, w + s.length ≤ p → ¬ EndsAt o s p) ∨
    ∃ i : Nat, findLastSequenceIndex (o.drop w) s = i ∧ EndsAt o s (w + i + s.length) ∧
      ∀ p, w + i + s.length < p → ¬ EndsAt o s p := by
  have hback : ∀ p, w + s.length ≤ p → EndsAt o s p → EndsAt (o.drop w) s (p - w) := by
    intro p hp hends
    rw [endsAt_drop hw]
    refine ⟨by omega, ?_⟩
    rw [Nat.add_sub_cancel' (by omega)]
    exact hends
  rcases findLastSequenceIndex_spec (l := o.drop w) hs with
    ⟨heq, hnone⟩ | ⟨i, heq, hends, hlater⟩
  · left
    exact ⟨heq, fun p hp hends => hnone _ (hback p hp hends)⟩
  · right
    refine ⟨i, heq, ?_, fun p hp hends' => ?_⟩
    · rw [Nat.add_assoc]
      exact ((endsAt_drop hw).mp hends).2
    · exact hlater (p - w) (by omega) (hback p (by omega) hends')

/-- The recent tokens hold no marker: the section, if there is one, is the one from before. -/
theorem section_iff_of_unseen {n : Nat} (hn : n ≤ o.length)
    (hstart : ∀ p, n < p → ¬ EndsAt o m.reasoningStartTokenIds p)
    (hend : ∀ q, n < q → ¬ EndsAt o m.reasoningEndTokenIds q) :
    m.Section o c ↔ ∃ c', m.Section (o.take n) c' ∧ c = c' + (o.length - n) := by
  have hlen : (o.take n).length = n := by
    rw [List.length_take]
    exact Nat.min_eq_left hn
  unfold Section
  rw [hlen]
  constructor
  · intro h
    obtain ⟨p, hp, hlast, hnoend, hc⟩ := h
    have hpn : p ≤ n := Nat.le_of_not_lt fun hlt => hstart p hlt hp
    refine ⟨n - p, ⟨p, (endsAt_take hn).mpr ⟨hpn, hp⟩, ?_, ?_, by omega⟩, by omega⟩
    · intro p' hlt hends
      exact hlast p' hlt ((endsAt_take hn).mp hends).2
    · intro q hlt hends
      exact hnoend q hlt ((endsAt_take hn).mp hends).2
  · intro h
    obtain ⟨c', ⟨p, hp, hlast, hnoend, hc'⟩, hc⟩ := h
    have hp' := (endsAt_take hn).mp hp
    refine ⟨p, hp'.2, ?_, ?_, by omega⟩
    · intro p' hlt hends
      rcases Nat.lt_or_ge n p' with hn' | hn'
      · exact hstart p' hn' hends
      · exact hlast p' hlt ((endsAt_take hn).mpr ⟨hn', hends⟩)
    · intro q hlt hends
      rcases Nat.lt_or_ge n q with hn' | hn'
      · exact hend q hn' hends
      · exact hnoend q hlt ((endsAt_take hn).mpr ⟨hn', hends⟩)

/-- The look at the recent tokens keeps the record right. -/
theorem recount_counts (hm : m.Apart) {n count : Nat} {inThink : Bool} (hn : n ≤ o.length)
    (h : m.Counts (o.take n) inThink count) :
    m.Counts o (m.recount o n inThink count).1 (m.recount o n inThink count).2 := by
  have hw : m.windowStart n ≤ n := by
    have := m.start_pos
    unfold windowStart
    omega
  -- what ends behind the old tokens lies in the window
  have hstartIn : ∀ p, n < p → m.reasoningStartTokenIds.length ≤ p →
      m.windowStart n + m.reasoningStartTokenIds.length ≤ p := by
    intro p hp hle
    unfold windowStart
    omega
  have hendIn : ∀ p, n < p → m.reasoningEndTokenIds.length ≤ p →
      m.windowStart n + m.reasoningEndTokenIds.length ≤ p := by
    intro p hp hle
    unfold windowStart
    omega
  have hspos := m.start_pos
  have hepos := m.end_pos
  have hwo : m.windowStart n ≤ o.length := Nat.le_trans hw hn
  rw [recount_eq]
  rcases recent_spec (o := o) m.start_ne hwo with ⟨hs, hsnone⟩ | ⟨i, hs, hstart, hslater⟩
  · rcases recent_spec (o := o) m.end_ne hwo with ⟨he, henone⟩ | ⟨j, he, hend, helater⟩
    · -- neither marker: the count goes on
      have hiff := fun c => section_iff_of_unseen (m := m) (c := c) hn
        (fun p hp hends => hsnone p (hstartIn p hp hends.length_le) hends)
        (fun q hq hends => henone q (hendIn q hq hends.length_le) hends)
      rw [hs, he]
      cases inThink with
      | true =>
        refine ⟨fun _ => (hiff _).mpr ⟨count, h.1 rfl, rfl⟩, fun hfalse => ?_⟩
        exact absurd hfalse (by simp)
      | false =>
        refine ⟨fun htrue => absurd htrue (by simp), fun _ c hsec => ?_⟩
        obtain ⟨c', hc', -⟩ := (hiff c).mp hsec
        exact h.2 rfl c' hc'
    · -- an end marker only: it ends behind every start marker
      rw [hs, he]
      refine ⟨fun htrue => absurd htrue (by simp), fun _ c hsec => ?_⟩
      obtain ⟨p, hp, -, hnoend, -⟩ := hsec
      have hplt : ¬ m.windowStart n + m.reasoningStartTokenIds.length ≤ p := fun hle =>
        hsnone p hle hp
      rcases hm o p _ hp hend with hle | hle
      · exact hnoend _ (by omega) hend
      · omega
  · have hsec : (∀ q, m.windowStart n + i + m.reasoningStartTokenIds.length < q →
        ¬ EndsAt o m.reasoningEndTokenIds q) →
        m.Section o (o.length - (m.windowStart n + i + m.reasoningStartTokenIds.length)) := by
      intro hnoend
      refine ⟨_, hstart, hslater, hnoend, ?_⟩
      have := hstart.1
      omega
    rcases recent_spec (o := o) m.end_ne hwo with ⟨he, henone⟩ | ⟨j, he, hend, helater⟩
    · -- a start marker only
      rw [hs, he]
      refine ⟨fun _ => ?_, fun hfalse => absurd hfalse (by simp)⟩
      show m.Section o (o.length - (m.windowStart n + i + m.reasoningStartTokenIds.length))
      refine hsec fun q hq hends => ?_
      rcases hm o _ q hstart hends with hle | hle
      · exact henone q (by omega) hends
      · omega
    · rw [hs, he]
      rcases Nat.lt_or_ge j i with hlt | hge
      · -- the start marker comes last
        have hcond : ((j : Int) < (i : Int)) := by omega
        simp only [Int.natCast_nonneg, and_self, if_true, hcond]
        refine ⟨fun _ => hsec fun q hq hends => ?_, fun hfalse => absurd hfalse (by simp)⟩
        rcases hm o _ q hstart hends with hle | hle
        · exact helater q (by omega) hends
        · omega
      · have hcond : ¬ ((j : Int) < (i : Int)) := by omega
        simp only [Int.natCast_nonneg, and_self, if_true, hcond, if_false]
        refine ⟨fun htrue => absurd htrue (by simp), fun _ c hopen => ?_⟩
        obtain ⟨p, hp, hlast, hnoend, -⟩ := hopen
        have hpeq : p ≤ m.windowStart n + i + m.reasoningStartTokenIds.length :=
          Nat.le_of_not_lt fun hlt => hslater p hlt hp
        rcases hm o _ _ hstart hend with hle | hle
        · exact hnoend _ (by omega) hend
        · omega

/-! ## Behind a prompt -/

/-- No start marker begins in the first part and ends behind it. -/
def Clear (m : Markers) (before o : List Int) : Prop :=
  ∀ p, EndsAt (before ++ o) m.reasoningStartTokenIds p →
    p ≤ before.length ∨ before.length + m.reasoningStartTokenIds.length ≤ p

theorem Clear.of_append {before more : List Int} (h : m.Clear before (o ++ more)) :
    m.Clear before o := by
  intro p hp
  apply h p
  rw [← List.append_assoc]
  exact (endsAt_append hp.1).mpr hp

theorem endsAt_behind {before s : List Int} {p : Nat} (hp : s.length ≤ p) :
    EndsAt (before ++ o) s (before.length + p) ↔ EndsAt o s p := by
  have hle : before.length ≤ (before ++ o).length := by
    rw [List.length_append]
    omega
  have hdrop := endsAt_drop (s := s) (p := p) hle
  rw [List.drop_left] at hdrop
  rw [hdrop]
  exact ⟨fun h => ⟨hp, h⟩, fun h => h.2⟩

/-- Behind a prompt without an open section the sections are those of the outputs. -/
theorem section_append_iff {before : List Int} (hm : m.Apart)
    (hbefore : ∀ c, ¬ m.Section before c) (hclear : m.Clear before o) :
    m.Section (before ++ o) c ↔ m.Section o c := by
  have hspos := m.start_pos
  have hepos := m.end_pos
  have hlen : (before ++ o).length = before.length + o.length := List.length_append
  constructor
  · intro h
    obtain ⟨p, hp, hlast, hnoend, hc⟩ := h
    rcases hclear p hp with hle | hge
    · -- a section that begins in the prompt is open in the prompt
      exfalso
      refine hbefore (before.length - p) ⟨p, (endsAt_append hle).mp hp, ?_, ?_, by omega⟩
      · intro p' hlt hends
        exact hlast p' hlt ((endsAt_append hends.1).mpr hends)
      · intro q hlt hends
        exact hnoend q hlt ((endsAt_append hends.1).mpr hends)
    · have hsplit : before.length + (p - before.length) = p := by omega
      refine ⟨p - before.length, ?_, ?_, ?_, by omega⟩
      · exact (endsAt_behind (by omega)).mp (hsplit.symm ▸ hp)
      · intro p' hlt hends
        exact hlast (before.length + p') (by omega) ((endsAt_behind hends.length_le).mpr hends)
      · intro q hlt hends
        exact hnoend (before.length + q) (by omega) ((endsAt_behind hends.length_le).mpr hends)
  · intro h
    obtain ⟨p, hp, hlast, hnoend, hc⟩ := h
    have hple := hp.length_le
    have hfull : EndsAt (before ++ o) m.reasoningStartTokenIds (before.length + p) :=
      (endsAt_behind hple).mpr hp
    refine ⟨before.length + p, hfull, ?_, ?_, by omega⟩
    · intro p' hlt hends
      have hsplit : before.length + (p' - before.length) = p' := by omega
      rcases hclear p' hends with hle | hge
      · omega
      · exact hlast (p' - before.length) (by omega)
          ((endsAt_behind (by omega)).mp (hsplit.symm ▸ hends))
    · intro q hlt hends
      have hsplit : before.length + (q - before.length) = q := by omega
      rcases hm _ _ q hfull hends with hle | hle
      · exact hnoend (q - before.length) (by omega)
          ((endsAt_behind (by omega)).mp (hsplit.symm ▸ hends))
      · omega

/-- What `_init_state_entry` sees in such a prompt. -/
theorem inThinkOf_eq_false (hm : m.Apart) (h : ∀ c, ¬ m.Section o c) :
    m.inThinkOf o = false := by
  unfold inThinkOf
  refine decide_eq_false fun hlt => ?_
  have hspos := m.start_pos
  rcases findLastSequenceIndex_spec (l := o) m.start_ne with ⟨hs, -⟩ | ⟨i, hs, hstart, hlast⟩
  · rcases findLastSequenceIndex_spec (l := o) m.end_ne with ⟨he, -⟩ | ⟨j, he, -, -⟩
    · rw [hs, he] at hlt
      omega
    · rw [hs, he] at hlt
      omega
  · -- the last start marker is open unless an end marker comes after it
    have hle := hstart.1
    refine h (o.length - (i + m.reasoningStartTokenIds.length))
      ⟨_, hstart, hlast, fun q hq hends => ?_, by omega⟩
    rcases findLastSequenceIndex_spec (l := o) m.end_ne with ⟨-, hnone⟩ | ⟨j, he, -, hlater⟩
    · exact hnone q hends
    · rw [hs, he] at hlt
      rcases hm o _ q hstart hends with hle' | hle'
      · exact hlater q (by omega) hends
      · omega

end Markers
end VllmEngine.Sample.Thinking
