import Mathlib.Tactic.IntervalCases
import VllmEngine.Lib.Run
import VllmEngine.Sample.BudgetCountdown

/-!
# The rows of a batch and the entries of a processor

What a batch update does to the rows, in the order that `BatchUpdate` documents, and to the
entries of the processor, in the order of `update_state`: an entry stays with its request.
-/

namespace VllmEngine.Sample.Thinking

variable {R : Type}

/-- The batch after an added item. -/
def addRow (rows : Nat → Option R) (item : Nat × R) : Nat → Option R :=
  Function.update rows item.1 (some item.2)

/-- The batch after a removed index. -/
def removeRow (rows : Nat → Option R) (index : Nat) : Nat → Option R :=
  Function.update rows index none

/-- The batch after a move. -/
def moveRow (rows : Nat → Option R) (item : Nat × Nat × MoveDirectionality) :
    Nat → Option R :=
  match item with
  | (i1, i2, .swap) => Function.update (Function.update rows i1 (rows i2)) i2 (rows i1)
  | (i1, i2, .unidirectional) => Function.update (Function.update rows i1 none) i2 (rows i1)

/-- The batch after an update, in the order that `BatchUpdate` documents. -/
def BatchUpdate.rowsAfter (batchUpdate : BatchUpdate R) (rows : Nat → Option R) :
    Nat → Option R :=
  batchUpdate.moved.foldl moveRow
    (batchUpdate.added.foldl addRow (batchUpdate.removed.foldl removeRow rows))

theorem foldl_removeRow (removed : List Nat) : ∀ (rows : Nat → Option R) (i : Nat),
    removed.foldl removeRow rows i = if i ∈ removed then none else rows i := by
  induction removed with
  | nil =>
    intro rows i
    rw [if_neg (List.not_mem_nil)]
    rfl
  | cons index removed ih =>
    intro rows i
    rw [List.foldl_cons, ih]
    by_cases hmem : i ∈ removed
    · rw [if_pos hmem, if_pos (List.mem_cons_of_mem _ hmem)]
    · rw [if_neg hmem, removeRow]
      by_cases heq : i = index
      · rw [heq, Function.update_self, if_pos List.mem_cons_self]
      · rw [Function.update_of_ne heq, if_neg (by simp [heq, hmem])]

/-- Rows that are not removed can be added before the others are removed, as `update_state`
does. -/
theorem foldl_addRow_removeRow (removed : List Nat) : ∀ {added : List (Nat × R)}
    {rows : Nat → Option R}, (∀ item ∈ added, item.1 ∉ removed) →
    added.foldl addRow (removed.foldl removeRow rows) =
      removed.foldl removeRow (added.foldl addRow rows) := by
  intro added
  induction added with
  | nil => intro rows _; rfl
  | cons item added ih =>
    intro rows hapart
    rw [List.foldl_cons, List.foldl_cons, ← ih fun a ha => hapart a (List.mem_cons_of_mem _ ha)]
    congr 1
    funext i
    rw [foldl_removeRow, addRow, addRow]
    by_cases heq : i = item.1
    · rw [heq, Function.update_self, Function.update_self,
        if_neg (hapart item List.mem_cons_self)]
    · rw [Function.update_of_ne heq, Function.update_of_ne heq, foldl_removeRow]

/-! ## The entries of a request -/

/-- Every row of the request has an entry as `P` says. -/
def Keeps (rows : Nat → Option R) (state : Dict Nat (ThinkState R)) (r : R)
    (P : ThinkState R → Prop) : Prop :=
  ∀ i, rows i = some r → ∃ st, state.get? i = some st ∧ P st

variable {rows : Nat → Option R} {state : Dict Nat (ThinkState R)} {r : R}
  {P : ThinkState R → Prop}

theorem Keeps.add {p : Processor R} {requests : R → Request} {item : Nat × R} {b : Nat}
    (h : Keeps rows state r P) (hbudget : (requests r).thinkingTokenBudget = some b)
    (hfresh : item.2 = r → P (p.markers.initStateEntry (requests r).promptTokIds b r)) :
    Keeps (addRow rows item) (p.add requests state item) r P := by
  intro i hi
  unfold addRow at hi
  unfold Processor.add
  by_cases heq : i = item.1
  · rw [heq, Function.update_self] at hi
    obtain rfl : item.2 = r := Option.some.inj hi
    rw [hbudget, heq]
    dsimp only
    rw [Dict.get?_set, if_pos rfl]
    exact ⟨_, rfl, hfresh rfl⟩
  · rw [Function.update_of_ne heq] at hi
    obtain ⟨st, hst, hP⟩ := h i hi
    refine ⟨st, ?_, hP⟩
    split
    · rw [Dict.get?_set_ne _ _ heq]
      exact hst
    · rw [Dict.get?_erase_ne _ heq]
      exact hst

theorem Keeps.remove {index : Nat} (h : Keeps rows state r P) :
    Keeps (removeRow rows index) (state.erase index) r P := by
  intro i hi
  unfold removeRow at hi
  by_cases heq : i = index
  · rw [heq, Function.update_self] at hi
    exact absurd hi (by simp)
  · rw [Function.update_of_ne heq] at hi
    rw [Dict.get?_erase_ne _ heq]
    exact h i hi

theorem get?_move_swap (i1 i2 i : Nat) :
    (Processor.move state (i1, i2, .swap)).get? i =
      if i = i2 then state.get? i1 else if i = i1 then state.get? i2 else state.get? i := by
  unfold Processor.move
  dsimp only
  by_cases h2 : i = i2
  · -- what is put back at the first index afterwards is not at the second
    rw [if_pos h2]
    by_cases h1 : i = i1
    · rw [← h2, ← h1, Dict.get?_erase_self]
      cases hst : state.get? i with
      | none => exact Dict.get?_erase_self _ _
      | some st => exact Dict.get?_set_self _ _ _
    · have hne : i2 ≠ i1 := h2 ▸ h1
      rw [Dict.get?_erase_ne _ hne]
      cases state.get? i1 with
      | none =>
        cases state.get? i2 with
        | none => rw [h2]; exact Dict.get?_erase_self _ _
        | some st => rw [Dict.get?_set_ne _ _ h1, h2]; exact Dict.get?_erase_self _ _
      | some st =>
        cases state.get? i2 with
        | none => rw [h2]; exact Dict.get?_set_self _ _ _
        | some st' => rw [Dict.get?_set_ne _ _ h1, h2]; exact Dict.get?_set_self _ _ _
  · rw [if_neg h2]
    by_cases h1 : i = i1
    · have hne : i2 ≠ i1 := fun heq => h2 (h1.trans heq.symm)
      rw [if_pos h1, Dict.get?_erase_ne _ hne]
      cases state.get? i2 with
      | some st => rw [h1]; exact Dict.get?_set_self _ _ _
      | none =>
        cases state.get? i1 with
        | none => dsimp only; rw [Dict.get?_erase_ne _ h2, h1]; exact Dict.get?_erase_self _ _
        | some st =>
          dsimp only
          rw [Dict.get?_set_ne _ _ h2, Dict.get?_erase_ne _ h2, h1]
          exact Dict.get?_erase_self _ _
    · rw [if_neg h1]
      have hother : ((state.erase i1).erase i2).get? i = state.get? i := by
        rw [Dict.get?_erase_ne _ h2, Dict.get?_erase_ne _ h1]
      cases state.get? i1 with
      | none =>
        cases (state.erase i1).get? i2 with
        | none => exact hother
        | some st => exact (Dict.get?_set_ne _ _ h1).trans hother
      | some st =>
        cases (state.erase i1).get? i2 with
        | none => exact (Dict.get?_set_ne _ _ h2).trans hother
        | some st' =>
          exact (Dict.get?_set_ne _ _ h1).trans ((Dict.get?_set_ne _ _ h2).trans hother)

theorem get?_move_unidirectional (i1 i2 i : Nat) :
    (Processor.move state (i1, i2, .unidirectional)).get? i =
      if i = i2 then (state.get? i1).or ((state.erase i1).get? i)
      else (state.erase i1).get? i := by
  unfold Processor.move
  dsimp only
  cases state.get? i1 with
  | none =>
    rw [Option.none_or]
    exact (ite_self _).symm
  | some st =>
    rw [Option.some_or]
    exact Dict.get?_set _ _ _ _

theorem Keeps.move {item : Nat × Nat × MoveDirectionality} (h : Keeps rows state r P) :
    Keeps (moveRow rows item) (Processor.move state item) r P := by
  obtain ⟨i1, i2, direction⟩ := item
  intro i hi
  cases direction with
  | swap =>
    change Function.update (Function.update rows i1 (rows i2)) i2 (rows i1) i = some r at hi
    rw [get?_move_swap]
    by_cases h2 : i = i2
    · rw [h2, Function.update_self] at hi
      rw [if_pos h2]
      exact h i1 hi
    · rw [Function.update_of_ne h2] at hi
      rw [if_neg h2]
      by_cases h1 : i = i1
      · rw [h1, Function.update_self] at hi
        rw [if_pos h1]
        exact h i2 hi
      · rw [Function.update_of_ne h1] at hi
        rw [if_neg h1]
        exact h i hi
  | unidirectional =>
    change Function.update (Function.update rows i1 none) i2 (rows i1) i = some r at hi
    rw [get?_move_unidirectional]
    by_cases h2 : i = i2
    · rw [h2, Function.update_self] at hi
      obtain ⟨st, hst, hP⟩ := h i1 hi
      exact ⟨st, by rw [if_pos h2, hst, Option.some_or], hP⟩
    · rw [Function.update_of_ne h2] at hi
      rw [if_neg h2]
      by_cases h1 : i = i1
      · rw [h1, Function.update_self] at hi
        exact absurd hi (by simp)
      · rw [Function.update_of_ne h1] at hi
        rw [Dict.get?_erase_ne _ h1]
        exact h i hi

/-- The run lemma for the items of an update. -/
theorem Keeps.applyBatchUpdate {p : Processor R} {requests : R → Request}
    {batchUpdate : BatchUpdate R} {b : Nat} (h : Keeps rows p.state r P)
    (hbudget : (requests r).thinkingTokenBudget = some b)
    (hapart : ∀ item ∈ batchUpdate.added, item.1 ∉ batchUpdate.removed)
    (hfresh : ∀ item ∈ batchUpdate.added, item.2 = r →
      P (p.markers.initStateEntry (requests r).promptTokIds b r)) :
    Keeps (batchUpdate.rowsAfter rows) (p.applyBatchUpdate requests batchUpdate) r P := by
  have hadd : ∀ (added : List (Nat × R)) (rows : Nat → Option R)
      (state : Dict Nat (ThinkState R)), (∀ item ∈ added, item.2 = r →
        P (p.markers.initStateEntry (requests r).promptTokIds b r)) → Keeps rows state r P →
      Keeps (added.foldl addRow rows) (added.foldl (p.add requests) state) r P := by
    intro added
    induction added with
    | nil => intro rows state _ h; exact h
    | cons item added ih =>
      intro rows state hfresh h
      exact ih _ _ (fun a ha => hfresh a (List.mem_cons_of_mem _ ha))
        (h.add hbudget (hfresh item List.mem_cons_self))
  have hremove : ∀ (removed : List Nat) (rows : Nat → Option R)
      (state : Dict Nat (ThinkState R)), Keeps rows state r P →
      Keeps (removed.foldl removeRow rows) (removed.foldl Dict.erase state) r P := by
    intro removed
    induction removed with
    | nil => intro rows state h; exact h
    | cons index removed ih => intro rows state h; exact ih _ _ h.remove
  have hmove : ∀ (moved : List (Nat × Nat × MoveDirectionality)) (rows : Nat → Option R)
      (state : Dict Nat (ThinkState R)), Keeps rows state r P →
      Keeps (moved.foldl moveRow rows) (moved.foldl Processor.move state) r P := by
    intro moved
    induction moved with
    | nil => intro rows state h; exact h
    | cons item moved ih => intro rows state h; exact ih _ _ h.move
  unfold BatchUpdate.rowsAfter
  rw [foldl_addRow_removeRow _ hapart]
  exact hmove _ _ _ (hremove _ _ _ (hadd _ _ _ hfresh h))

end VllmEngine.Sample.Thinking

/-!
## The thinking budget over the life of a batch

The batch and its processor, one `update_state` call after the other: the tokens sampled
from the rows of the last call are in the lists of their requests, then rows are removed,
added and moved. `_init_state_entry` looks at the prompt only, so a request that comes back
with tokens in an open thinking section has its whole budget again
(`returned_request_exceeds`); in the other runs the budget is enforced exactly
(`budget_enforced`).
-/

namespace VllmEngine.Sample.Thinking

open Occurrences

variable {R : Type}

/-- A batch with the processor and the lists that it refers to. -/
structure World (R : Type) where
  rows : Nat → Option R
  outputs : R → List Int
  processor : Processor R

/-- What comes with a call of `update_state`. -/
structure Call (R : Type) where
  sampled : R → Option Int
  batchUpdate : Option (BatchUpdate R)

namespace World

/-- A batch without requests. -/
def start (m : Markers) : World R :=
  { rows := fun _ => none
    outputs := fun _ => []
    processor := { isEnabled := true, markers := m, state := Dict.empty } }

/-- The outputs at the call. -/
def outputsAt (w : World R) (call : Call R) (r : R) : List Int :=
  w.outputs r ++ (call.sampled r).toList

/-- A call of `update_state`. -/
def step (requests : R → Request) (w : World R) (call : Call R) : Except Empty (World R) :=
  .ok
    { rows := match call.batchUpdate with
        | some batchUpdate => batchUpdate.rowsAfter w.rows
        | none => w.rows
      outputs := w.outputsAt call
      processor := w.processor.updateState requests (w.outputsAt call) call.batchUpdate }

/-- The calls there are: tokens come from rows of the batch and are the forced ones where
the logits force one, and no added row is removed in the same update. -/
structure Legal (w : World R) (call : Call R) : Prop where
  fromRow : ∀ r t, call.sampled r = some t → ∃ i, w.rows i = some r
  obeys : ∀ r t, call.sampled r = some t → ∀ i f, w.rows i = some r →
    w.processor.forced i = some f → t = f
  apart : ∀ batchUpdate ∈ call.batchUpdate, ∀ item ∈ batchUpdate.added,
    item.1 ∉ batchUpdate.removed

end World

/-- The prompt as a list. -/
def Request.promptTokens (request : Request) : List Int := request.promptTokIds.getD []

/-- The budget is enforced for the request: a section that holds the whole budget has the
next token of the end marker forced, nothing is forced otherwise, and no section has ever
held more than the budget and a part of the end marker behind it. -/
structure Enforced (requests : R → Request) (m : Markers) (r : R) (b : Nat) (w : World R) :
    Prop where
  due : ∀ i, w.rows i = some r → ∀ c, b ≤ c →
    m.Section ((requests r).promptTokens ++ w.outputs r) c →
      ∃ j, m.Ending b ((requests r).promptTokens ++ w.outputs r) j ∧ c = b + j ∧
        w.processor.forced i = m.reasoningEndTokenIds[j]?
  early : ∀ i, w.rows i = some r → ∀ t, w.processor.forced i = some t →
    ∃ j, m.Ending b ((requests r).promptTokens ++ w.outputs r) j ∧
      m.reasoningEndTokenIds[j]? = some t
  bounded : ∀ o, o <+: w.outputs r → m.Bounded b ((requests r).promptTokens ++ o)

/-- The request comes into the batch without a token in an open section, and no start marker
lies across the border between its prompt and its outputs. -/
structure Undisturbed (requests : R → Request) (m : Markers) (r : R) (w : World R)
    (call : Call R) : Prop where
  fresh : ∀ batchUpdate ∈ call.batchUpdate, ∀ item ∈ batchUpdate.added, item.2 = r →
    ∀ c, m.Section ((requests r).promptTokens ++ w.outputsAt call r) c → c = 0
  clear : m.Clear (requests r).promptTokens (w.outputsAt call r)

/-- What holds between the calls. -/
structure Tracked (requests : R → Request) (m : Markers) (r : R) (b : Nat) (w : World R) :
    Prop where
  enabled : w.processor.isEnabled = true
  markers : w.processor.markers = m
  entries : Keeps w.rows w.processor.state r fun st =>
    st.outputTokIds = r ∧ st.thinkingTokenBudget = b ∧ m.Synced st (w.outputs r)
  history : ∀ o, o <+: w.outputs r → m.Bounded b o
  clear : m.Clear (requests r).promptTokens (w.outputs r)

section
variable {requests : R → Request} {m : Markers} {r : R} {b : Nat} {w w' : World R}
  {call : Call R}

theorem Tracked.start : Tracked requests m r b (World.start m) where
  enabled := rfl
  markers := rfl
  entries := by
    intro i hi
    exact absurd hi (by simp [World.start])
  history := by
    intro o ho c hsec
    rw [List.prefix_nil.mp ho] at hsec
    exact absurd hsec Markers.not_section_nil
  clear := by
    intro p hp
    left
    have := hp.1
    rw [show (World.start m : World R).outputs r = [] from rfl, List.append_nil] at this
    exact this

/-- The token that a row with an entry is forced to. -/
theorem Tracked.forced_eq {i : Nat} {st : ThinkState R} (h : Tracked requests m r b w)
    (hst : w.processor.state.get? i = some st) :
    w.processor.forced i = if st.inEnd then m.reasoningEndTokenIds[st.endCount]? else none := by
  unfold Processor.forced
  rw [if_pos h.enabled, hst, h.markers]
  rfl

/-- The sampled token is the one that the entry asks for. -/
theorem Tracked.obeyed {i : Nat} {st : ThinkState R} {t : Int} {o : List Int}
    (h : Tracked requests m r b w) (hlegal : w.Legal call) (hi : w.rows i = some r)
    (ht : call.sampled r = some t) (hst : w.processor.state.get? i = some st)
    (hsynced : m.Synced st o) (hinEnd : st.inEnd = true) :
    m.reasoningEndTokenIds[st.endCount]? = some t := by
  have hlt := (hsynced.early hinEnd).1
  have hforced := h.forced_eq hst
  rw [if_pos hinEnd, List.getElem?_eq_getElem hlt] at hforced
  rw [List.getElem?_eq_getElem hlt, hlegal.obeys r t ht i _ hi hforced]

/-- The tokens that were sampled are there now: the entries wait for the update. -/
theorem Tracked.pending (h : Tracked requests m r b w) (hlegal : w.Legal call) :
    Keeps w.rows w.processor.state r fun st =>
      st.outputTokIds = r ∧ st.thinkingTokenBudget = b ∧ m.Pending st (w.outputsAt call r) := by
  intro i hi
  obtain ⟨st, hst, hr, hb, hsynced⟩ := h.entries i hi
  refine ⟨st, hst, hr, hb, ?_⟩
  unfold World.outputsAt
  cases ht : call.sampled r with
  | none =>
    rw [Option.toList_none, List.append_nil]
    exact hsynced.pending
  | some t =>
    exact hsynced.pending_snoc (h.obeyed hlegal hi ht hst hsynced)

/-- One token more does not take a section over the budget. -/
theorem Tracked.history_step (hm : m.Apart) (h : Tracked requests m r b w)
    (hlegal : w.Legal call) : ∀ o, o <+: w.outputsAt call r → m.Bounded b o := by
  intro o ho
  unfold World.outputsAt at ho
  cases ht : call.sampled r with
  | none =>
    rw [ht, Option.toList_none, List.append_nil] at ho
    exact h.history o ho
  | some t =>
    rw [ht] at ho
    rcases List.prefix_concat_iff.mp ho with rfl | hold
    · obtain ⟨i, hi⟩ := hlegal.fromRow r t ht
      obtain ⟨st, hst, -, hb, hsynced⟩ := h.entries i hi
      rw [← hb]
      exact hsynced.bounded_snoc hm (h.obeyed hlegal hi ht hst hsynced)
    · exact h.history o hold

/-- The step lemma. -/
theorem Tracked.step (hm : m.Apart) (hbudget : (requests r).thinkingTokenBudget = some b)
    (hprompt : ∀ c, ¬ m.Section (requests r).promptTokens c)
    (h : Tracked requests m r b w) (hlegal : w.Legal call)
    (hguard : Undisturbed requests m r w call) (hstep : w.step requests call = .ok w') :
    Tracked requests m r b w' := by
  cases hstep
  have hpending := h.pending hlegal
  have hinThink : ∀ ids ∈ (requests r).promptTokIds, m.inThinkOf ids = false := by
    intro ids hids
    refine Markers.inThinkOf_eq_false hm fun c => ?_
    have hnone := hprompt c
    rw [Request.promptTokens, Option.mem_def.mp hids] at hnone
    exact hnone
  -- the entries after the changes of the batch
  have hentries : Keeps
      (match call.batchUpdate with
        | some batchUpdate => batchUpdate.rowsAfter w.rows
        | none => w.rows)
      (match call.batchUpdate with
        | some batchUpdate => w.processor.applyBatchUpdate requests batchUpdate
        | none => w.processor.state) r fun st =>
      st.outputTokIds = r ∧ st.thinkingTokenBudget = b ∧ m.Pending st (w.outputsAt call r) := by
    cases hupdate : call.batchUpdate with
    | none => exact hpending
    | some batchUpdate =>
      refine hpending.applyBatchUpdate hbudget (hlegal.apart batchUpdate hupdate) ?_
      intro item hitem hr
      refine ⟨rfl, rfl, ?_⟩
      rw [h.markers]
      refine Markers.pending_initStateEntry r hinThink fun c hsec => ?_
      exact hguard.fresh batchUpdate hupdate item hitem hr c
        ((Markers.section_append_iff hm hprompt hguard.clear).mpr hsec)
  have hupdated : w.processor.updateState requests (w.outputsAt call) call.batchUpdate =
      { w.processor with
        state := (match call.batchUpdate with
          | some batchUpdate => w.processor.applyBatchUpdate requests batchUpdate
          | none => w.processor.state).mapValues fun st =>
            w.processor.markers.updateThinkState st (w.outputsAt call st.outputTokIds) } := by
    unfold Processor.updateState
    exact (if_pos h.enabled).trans rfl
  refine ⟨?_, ?_, ?_, h.history_step hm hlegal, hguard.clear⟩
  · show (w.processor.updateState _ _ _).isEnabled = true
    rw [hupdated]
    exact h.enabled
  · show (w.processor.updateState _ _ _).markers = m
    rw [hupdated]
    exact h.markers
  · intro i hi
    obtain ⟨st, hst, hr, hb, hpend⟩ := hentries i hi
    refine ⟨m.updateThinkState st (w.outputsAt call r), ?_, ?_, ?_, hpend.updateThinkState hm⟩
    · show (w.processor.updateState _ _ _).state.get? i = _
      rw [hupdated]
      dsimp only
      rw [Dict.get?_mapValues, hst, h.markers, ← hr]
      rfl
    · rw [Markers.updateThinkState_outputTokIds]
      exact hr
    · rw [Markers.updateThinkState_thinkingTokenBudget]
      exact hb

/-- What the entries say about the rows. -/
theorem Tracked.enforced (hm : m.Apart) (hprompt : ∀ c, ¬ m.Section (requests r).promptTokens c)
    (h : Tracked requests m r b w) : Enforced requests m r b w := by
  -- the sections of the whole tokens are those of the outputs
  have hiff : ∀ {o c}, o <+: w.outputs r →
      (m.Section ((requests r).promptTokens ++ o) c ↔ m.Section o c) := by
    intro o c ho
    obtain ⟨more, hmore⟩ := ho
    have hclear := h.clear
    rw [← hmore] at hclear
    exact Markers.section_append_iff hm hprompt hclear.of_append
  have hending : ∀ {o j}, o <+: w.outputs r → m.Ending b o j →
      m.Ending b ((requests r).promptTokens ++ o) j := by
    intro o j ho hend
    obtain ⟨hlt, o', rfl, hfull⟩ := hend
    refine ⟨hlt, (requests r).promptTokens ++ o', (List.append_assoc _ _ _).symm, ?_⟩
    exact (hiff ((List.prefix_append _ _).trans ho)).mpr hfull
  have hself : w.outputs r <+: w.outputs r := List.prefix_rfl
  refine ⟨?_, ?_, ?_⟩
  · intro i hi c hle hsec
    obtain ⟨st, hst, -, hb, hsynced⟩ := h.entries i hi
    rw [← hb] at hle
    obtain ⟨hinEnd, hend, hc⟩ := hsynced.due hm ((hiff hself).mp hsec) hle
    rw [hb] at hend hc
    refine ⟨st.endCount, hending hself hend, hc, ?_⟩
    rw [h.forced_eq hst, if_pos hinEnd]
  · intro i hi t hforced
    obtain ⟨st, hst, -, hb, hsynced⟩ := h.entries i hi
    rw [h.forced_eq hst] at hforced
    cases hinEnd : st.inEnd with
    | false =>
      rw [hinEnd, if_neg Bool.false_ne_true] at hforced
      exact absurd hforced (by simp)
    | true =>
      rw [hinEnd, if_pos rfl] at hforced
      have hend := hsynced.early hinEnd
      rw [hb] at hend
      exact ⟨st.endCount, hending hself hend, hforced⟩
  · intro o ho c hsec
    rcases h.history o ho c ((hiff ho).mp hsec) with hle | ⟨j, hend, hc⟩
    · left
      exact hle
    · right
      exact ⟨j, hending ho hend, hc⟩

end

/-! ## One request with a budget of one token -/

/-- Markers of one token each. -/
def shortMarkers : Markers :=
  { reasoningStartTokenIds := [1]
    reasoningEndTokenIds := [2]
    start_ne := List.cons_ne_nil _ _
    end_ne := List.cons_ne_nil _ _ }

theorem shortMarkers_apart : shortMarkers.Apart := by
  intro l p q hp hq
  show p + 1 ≤ q ∨ q + 1 ≤ p
  rcases Nat.lt_trichotomy p q with hlt | heq | hgt
  · left
    exact hlt
  · -- one token is not both
    exfalso
    subst heq
    have hsuffix : [(1 : Int)] <:+ [2] := List.suffix_of_suffix_length_le hp.2 hq.2 (Nat.le_refl 1)
    have := hsuffix.eq_of_length rfl
    simp at this
  · right
    exact hgt

/-- One request with a budget of one token. -/
def shortRequests : Unit → Request := fun _ =>
  { thinkingTokenBudget := some 1, promptTokIds := none }

/-- The request comes into the batch. -/
def addCall : Call Unit :=
  { sampled := fun _ => none
    batchUpdate := some { removed := [], added := [(0, ())], moved := [] } }

/-- A token, and no change of the batch. -/
def tokenCall (t : Int) : Call Unit :=
  { sampled := fun _ => some t, batchUpdate := none }

/-- A token, and the request leaves the batch. -/
def leaveCall (t : Int) : Call Unit :=
  { sampled := fun _ => some t
    batchUpdate := some { removed := [0], added := [], moved := [] } }

theorem shortPrompt_closed (c : Nat) :
    ¬ shortMarkers.Section (shortRequests ()).promptTokens c :=
  Markers.not_section_nil

theorem clear_short (o : List Int) :
    shortMarkers.Clear (shortRequests ()).promptTokens o := by
  intro p hp
  right
  exact hp.length_le

/-- A call without a token that adds the request. -/
theorem legal_addCall (w : World Unit) : w.Legal addCall where
  fromRow := by
    intro r t ht
    exact absurd ht (by simp [addCall])
  obeys := by
    intro r t ht
    exact absurd ht (by simp [addCall])
  apart := by
    intro batchUpdate hupdate item _
    rw [← Option.some.inj hupdate]
    exact List.not_mem_nil

/-- A token from the only row, when nothing is forced. -/
theorem legal_of_unforced {w : World Unit} {call : Call Unit}
    (hrow : w.rows 0 = some ()) (hother : ∀ i, w.rows (i + 1) = none)
    (hforced : w.processor.forced 0 = none)
    (hadded : ∀ batchUpdate ∈ call.batchUpdate, batchUpdate.added = []) : w.Legal call where
  fromRow := fun _ _ _ => ⟨0, hrow⟩
  obeys := by
    intro r t _ i f hi hf
    cases i with
    | zero =>
      rw [hforced] at hf
      exact absurd hf (by simp)
    | succ i =>
      rw [hother i] at hi
      exact absurd hi (by simp)
  apart := by
    intro batchUpdate hupdate item hitem
    rw [hadded batchUpdate hupdate] at hitem
    exact absurd hitem List.not_mem_nil

theorem section_three : shortMarkers.Section [1, 7, 8] 2 := by
  refine ⟨1, by decide, ?_, ?_, rfl⟩
  · intro p hp hends
    have hle : p ≤ 3 := hends.1
    revert hends
    interval_cases p
    · decide
    · decide
  · intro q hq hends
    have hle : q ≤ 3 := hends.1
    revert hends
    interval_cases q
    · decide
    · decide

/-! ## The budget in every run -/

/-- Markers that do not overlap, a prompt without an open section: in every run whose calls
leave the request undisturbed, its budget is enforced at every call. -/
theorem budget_enforced (requests : R → Request) (m : Markers) (hm : m.Apart) (r : R) (b : Nat)
    (hbudget : (requests r).thinkingTokenBudget = some b)
    (hprompt : ∀ c, ¬ m.Section (requests r).promptTokens c) (calls : List (Call R))
    (w : World R)
    (hcalls : Run.Guarded (World.step requests)
      (fun w call => w.Legal call ∧ Undisturbed requests m r w call) (World.start m) calls)
    (hrun : Run.exec (World.step requests) (World.start m) calls = .ok w) :
    Enforced requests m r b w := by
  refine Tracked.enforced hm hprompt ?_
  refine Run.exec_inv (I := Tracked requests m r b) ?_ calls _ w Tracked.start hcalls hrun
  intro w call w' hw hguard hstep
  exact hw.step hm hbudget hprompt hguard.1 hguard.2 hstep

/-- The request stays in the batch: its budget of one token is enforced. -/
theorem budget_enforced_short : ∃ w, Run.exec (World.step shortRequests)
      (World.start shortMarkers) [addCall, tokenCall 1, tokenCall 7] = .ok w ∧
    Enforced shortRequests shortMarkers () 1 w ∧ w.processor.forced 0 = some 2 := by
  refine ⟨_, rfl, ?_, rfl⟩
  refine budget_enforced shortRequests shortMarkers shortMarkers_apart () 1 rfl shortPrompt_closed
    [addCall, tokenCall 1, tokenCall 7] _ ?_ rfl
  refine ⟨⟨legal_addCall _, ?_, clear_short _⟩, fun w₁ h₁ => ?_⟩
  · -- it comes in without outputs
    intro batchUpdate _ item _ _ c hsec
    exact absurd hsec Markers.not_section_nil
  cases h₁
  refine ⟨⟨legal_of_unforced rfl (fun _ => rfl) rfl (by simp [tokenCall]), ?_, clear_short _⟩,
    fun w₂ h₂ => ?_⟩
  · intro batchUpdate hupdate
    exact absurd hupdate (by simp [tokenCall])
  cases h₂
  refine ⟨⟨legal_of_unforced rfl (fun _ => rfl) rfl (by simp [tokenCall]), ?_, clear_short _⟩,
    fun w₃ _ => ?_⟩
  · intro batchUpdate hupdate
    exact absurd hupdate (by simp [tokenCall])
  trivial

/-- The request leaves the batch with a full section and comes back: nothing is forced, and
the section becomes longer than the budget. -/
theorem returned_request_exceeds :
    shortMarkers.Apart ∧ (∀ c, ¬ shortMarkers.Section (shortRequests ()).promptTokens c) ∧
    Run.Guarded (World.step shortRequests) World.Legal (World.start shortMarkers)
      [addCall, tokenCall 1, leaveCall 7, addCall, tokenCall 8] ∧
    ∃ w, Run.exec (World.step shortRequests) (World.start shortMarkers)
        [addCall, tokenCall 1, leaveCall 7, addCall, tokenCall 8] = .ok w ∧
      w.outputs () = [1, 7, 8] ∧ shortMarkers.Section (w.outputs ()) 2 ∧
      ¬ Enforced shortRequests shortMarkers () 1 w := by
  refine ⟨shortMarkers_apart, shortPrompt_closed, ?_, ?_⟩
  · refine ⟨legal_addCall _, fun w₁ h₁ => ?_⟩
    cases h₁
    refine ⟨legal_of_unforced rfl (fun _ => rfl) rfl (by simp [tokenCall]), fun w₂ h₂ => ?_⟩
    cases h₂
    refine ⟨legal_of_unforced rfl (fun _ => rfl) rfl (by simp [leaveCall]), fun w₃ h₃ => ?_⟩
    cases h₃
    refine ⟨legal_addCall _, fun w₄ h₄ => ?_⟩
    cases h₄
    refine ⟨legal_of_unforced rfl (fun _ => rfl) rfl (by simp [tokenCall]), fun w₅ _ => ?_⟩
    trivial
  · refine ⟨_, rfl, rfl, section_three, fun h => ?_⟩
    rcases h.bounded [1, 7, 8] List.prefix_rfl 2 section_three with hle | ⟨j, hend, hj⟩
    · omega
    · have hlt : j < 1 := hend.1
      omega

end VllmEngine.Sample.Thinking
