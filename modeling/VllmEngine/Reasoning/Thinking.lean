import VllmEngine.Engine.Outputs
import VllmEngine.Lib.Markers

/-!
# Reasoning parsers that use thinking tokens

`BaseThinkingReasoningParser` (`vllm/reasoning/basic_parsers.py`) and
`DeepSeekR1ReasoningParser`: what of the output is reasoning and what is content,
once from the whole text and once delta by delta.

Mirroring notes:
- Of the arguments of `extract_reasoning_streaming` only the delta's text and
  the token ids are read; the previous and the current text are left out.
- The subclass's override is `DeepSeekR1.extractReasoningStreaming`, with the call
  of `super()` written out.
- The vocabulary is all that is used of the tokenizer. The name of the class in
  the constructor's message is passed in.
-/

namespace VllmEngine.Reasoning

open Python
open VllmEngine.Engine (Text)

/-- `DeltaMessage`, the two fields that a reasoning parser fills. -/
structure DeltaMessage where
  reasoning : Option Text
  content : Option Text
deriving DecidableEq

/-- `BaseThinkingReasoningParser`, with what its constructor has checked. -/
structure ThinkingParser where
  startToken : Text
  endToken : Text
  startTokenId : Token
  endTokenId : Token
  startToken_ne : startToken ≠ []
  endToken_ne : endToken ≠ []

namespace ThinkingParser

/-- `__init__`. -/
def init (className : String) (startToken endToken : Text) (vocab : Dict Text Token) :
    Except Error ThinkingParser :=
  if h : startToken ≠ [] ∧ endToken ≠ [] then
    match vocab.get? startToken, vocab.get? endToken with
    | some startTokenId, some endTokenId =>
      .ok ⟨startToken, endToken, startTokenId, endTokenId, h.1, h.2⟩
    | _, _ => .error (.runtime (className ++
        " reasoning parser could not locate think start/end tokens in the tokenizer!"))
  else .error (.value "start_token and end_token must be defined in subclasses")

variable (p : ThinkingParser)

/-- `content if content else None`. -/
def orNone (content : Text) : Option Text := if content ≠ [] then some content else none

/-- `delta_text` around the end token. -/
def aroundEnd (deltaText : Text) : DeltaMessage :=
  let endIndex := find deltaText p.endToken
  let reasoning := sliceTo deltaText endIndex
  let content := sliceFrom deltaText (endIndex + p.endToken.length)
  ⟨some reasoning, orNone content⟩

/-- `extract_reasoning_streaming` of the base class. -/
def extractReasoningStreaming (deltaText : Text) (previousTokenIds deltaTokenIds : List Token) :
    Option DeltaMessage :=
  -- skip single special tokens
  if deltaTokenIds = [p.startTokenId] ∨ deltaTokenIds = [p.endTokenId] then none
  else if p.startTokenId ∈ previousTokenIds then
    if p.endTokenId ∈ deltaTokenIds then some (p.aroundEnd deltaText)
    else if p.endTokenId ∈ previousTokenIds then some ⟨none, some deltaText⟩
    else some ⟨some deltaText, none⟩
  else if p.startTokenId ∈ deltaTokenIds then
    if p.endTokenId ∈ deltaTokenIds then
      let startIndex := find deltaText p.startToken
      let endIndex := find deltaText p.endToken
      let reasoning := slice deltaText (startIndex + p.startToken.length) endIndex
      let content := sliceFrom deltaText (endIndex + p.endToken.length)
      some ⟨some reasoning, orNone content⟩
    else some ⟨some deltaText, none⟩
  -- not find thinking start token
  else some ⟨none, some deltaText⟩

/-- `extract_reasoning`: reasoning and content. -/
def extractReasoning (modelOutput : Text) : Option Text × Option Text :=
  let parts := partition modelOutput p.startToken
  let modelOutput := if parts.2.1 ≠ [] then parts.2.2 else parts.1
  if find? p.endToken modelOutput = none then (some modelOutput, none)
  else
    let parts := partition modelOutput p.endToken
    (some parts.1, orNone parts.2.2)

end ThinkingParser

namespace DeepSeekR1

/-- The constructor, with the two properties of the class. -/
def init (vocab : Dict Text Token) : Except Error ThinkingParser :=
  ThinkingParser.init "DeepSeekR1ReasoningParser" "<think>".toList "</think>".toList vocab

/-- `DeepSeekR1ReasoningParser.extract_reasoning_streaming`. -/
def extractReasoningStreaming (p : ThinkingParser) (deltaText : Text)
    (previousTokenIds deltaTokenIds : List Token) : Option DeltaMessage :=
  match p.extractReasoningStreaming deltaText previousTokenIds deltaTokenIds with
  | none => none
  | some ret =>
    -- a model that does not generate the start token
    if p.startTokenId ∉ previousTokenIds ∧ p.startTokenId ∉ deltaTokenIds then
      if p.endTokenId ∈ deltaTokenIds then some (p.aroundEnd deltaText)
      else if p.endTokenId ∈ previousTokenIds then some ⟨none, some deltaText⟩
      else some ⟨some deltaText, none⟩
    else some ret

end DeepSeekR1

/-! ## The stream

Reasoning and content are compared as texts: `None` and the empty text are the
same to a reader. -/

/-- What a reader has got so far. -/
structure Answer where
  reasoning : Text
  content : Text
deriving DecidableEq

namespace Answer

def empty : Answer := ⟨[], []⟩

/-- The two texts, with `None` as the empty one. -/
def ofParts (parts : Option Text × Option Text) : Answer :=
  ⟨parts.1.getD [], parts.2.getD []⟩

def append (a b : Answer) : Answer := ⟨a.reasoning ++ b.reasoning, a.content ++ b.content⟩

/-- How much text it has. -/
def size (a : Answer) : Nat := a.reasoning.length + a.content.length

end Answer

namespace DeepSeekR1

variable (p : ThinkingParser) (text : Token → Text)

/-- What one delta adds, after the deltas with the ids `previous`. -/
def received (previous delta : List Token) : Answer :=
  match extractReasoningStreaming p (Markers.textOf text delta) previous delta with
  | none => .empty
  | some m => .ofParts (m.reasoning, m.content)

/-- The deltas' parts, concatenated; the ids of each delta are previous ones for the
next. -/
def streamedFrom (previous : List Token) : List (List Token) → Answer
  | [] => .empty
  | delta :: deltas =>
    (received p text previous delta).append (streamedFrom (previous ++ delta) deltas)

def streamed (deltas : List (List Token)) : Answer := streamedFrom p text [] deltas

/-- `extract_reasoning` on the text of all ids. -/
def extracted (ids : List Token) : Answer :=
  .ofParts (p.extractReasoning (Markers.textOf text ids))

end DeepSeekR1

end VllmEngine.Reasoning

/-!
## Streamed and one-shot reasoning

What `DeepSeekR1ReasoningParser` streams is compared with what it extracts from
the whole text, for any tokenizer that decodes token by token and whose markers
occur only as their own tokens.

The one-shot answer is `cut`: the ids after the first start marker (all ids, where
there is none), cut at the first end marker. One delta extends it correctly exactly
if it is `Handled`:

> `DeepSeekR1.step_iff`: one delta after an answer that was right so far,
> `DeepSeekR1.streamed_eq_extracted_iff`: the answer is right after every delta if
> and only if every delta is handled.
-/

namespace VllmEngine.Reasoning

open Python Markers
open VllmEngine.Engine (Text)

/-! ## Answers -/

namespace Answer

@[simp] theorem size_empty : empty.size = 0 := rfl

theorem size_mk (r c : Text) : (⟨r, c⟩ : Answer).size = r.length + c.length := rfl

theorem size_append (a b : Answer) : (a.append b).size = a.size + b.size := by
  unfold size append
  simp only [List.length_append]
  omega

theorem append_empty (a : Answer) : a.append empty = a := by
  unfold append empty
  simp only [List.append_nil]

theorem empty_append (a : Answer) : empty.append a = a := rfl

theorem append_assoc (a b c : Answer) : (a.append b).append c = a.append (b.append c) := by
  unfold append
  simp only [List.append_assoc]

theorem append_right_inj (a : Answer) {b c : Answer} : a.append b = a.append c ↔ b = c := by
  constructor
  · intro h
    obtain ⟨hr, hc⟩ := Answer.mk.injEq .. ▸ h
    cases b with
    | mk br bc =>
      cases c with
      | mk cr cc =>
        rw [Answer.mk.injEq]
        exact ⟨List.append_cancel_left hr, List.append_cancel_left hc⟩
  · rintro rfl
    rfl

theorem eq_empty_of_size {a : Answer} (h : a.size = 0) : a = empty := by
  cases a with
  | mk r c =>
    have hr : r = [] := List.eq_nil_of_length_eq_zero (Nat.eq_zero_of_add_eq_zero_right h)
    have hc : c = [] := List.eq_nil_of_length_eq_zero (Nat.eq_zero_of_add_eq_zero_left h)
    rw [hr, hc]
    rfl

end Answer

theorem getD_orNone (content : Text) : (ThinkingParser.orNone content).getD [] = content := by
  unfold ThinkingParser.orNone
  split
  next => rfl
  next h => exact (not_not.mp h).symm

namespace DeepSeekR1

variable (p : ThinkingParser) (text : Token → Text)

/-- The parser's markers are single tokens, and their text occurs in the output
only as these. -/
structure Decodes (ids : List Token) : Prop where
  start : text p.startTokenId = p.startToken
  stop : text p.endTokenId = p.endToken
  onlyStart : OnlyAs text p.startTokenId ids
  onlyStop : OnlyAs text p.endTokenId ids

/-- What is left of the ids when the first start marker and all before it is
removed, where there is one. -/
def answerIds (ids : List Token) : List Token :=
  if p.startTokenId ∈ ids then after p.startTokenId ids else ids

/-- Reasoning up to the first end marker, then content. -/
def cut (ids : List Token) : Answer :=
  if p.endTokenId ∈ ids then
    ⟨textOf text (before p.endTokenId ids), textOf text (after p.endTokenId ids)⟩
  else ⟨textOf text ids, []⟩

/-- The deltas that the parser handles as the whole text would be, after the ids
`previous`. The first start marker must stand alone or be followed by an end marker
in its delta, with nothing but a lone end marker before it; it is not handled when
it is repeated alone. An end marker is handled once, and where an end marker came
before the start marker, the reasoning must end in the next delta with any text. -/
def Handled (previous delta : List Token) : Prop :=
  if p.startTokenId ∈ previous ∨ p.startTokenId ∉ delta then
    delta ≠ [p.startTokenId] ∧
      if p.endTokenId ∈ answerIds p previous then p.endTokenId ∉ delta
      else p.endTokenId ∈ previous → p.endTokenId ∈ delta ∨ textOf text delta = []
  else
    (textOf text previous = [] ∨ textOf text previous = p.endToken) ∧
      (delta = [p.startTokenId] ∨ p.endTokenId ∈ after p.startTokenId delta ∧
        p.endTokenId ∉ before p.startTokenId delta)

section

variable {p text}

/-! ## Decoding -/

namespace Decodes

variable {ids ids' : List Token}

theorem start_ne (h : Decodes p text ids) : text p.startTokenId ≠ [] :=
  h.start ▸ p.startToken_ne

theorem stop_ne (h : Decodes p text ids) : text p.endTokenId ≠ [] :=
  h.stop ▸ p.endToken_ne

theorem left (h : Decodes p text (ids ++ ids')) : Decodes p text ids :=
  ⟨h.start, h.stop, h.onlyStart.of_append_left h.start_ne, h.onlyStop.of_append_left h.stop_ne⟩

theorem right (h : Decodes p text (ids ++ ids')) : Decodes p text ids' :=
  ⟨h.start, h.stop, h.onlyStart.of_append_right h.start_ne, h.onlyStop.of_append_right h.stop_ne⟩

theorem answer (h : Decodes p text ids) : Decodes p text (answerIds p ids) := by
  unfold answerIds
  split
  next hm =>
    rw [← before_append_after hm, ← List.singleton_append, ← List.append_assoc] at h
    exact h.right
  next => exact h

theorem length_start (h : Decodes p text ids) : 0 < (text p.startTokenId).length :=
  List.length_pos_iff.mpr h.start_ne

theorem length_stop (h : Decodes p text ids) : 0 < (text p.endTokenId).length :=
  List.length_pos_iff.mpr h.stop_ne

end Decodes

/-! ## The one-shot answer -/

theorem cut_nil : cut p text [] = .empty := by
  rw [cut, if_neg List.not_mem_nil]
  rfl

variable {ids delta : List Token}

theorem cut_of_mem (h : p.endTokenId ∈ ids) : cut p text ids =
    ⟨textOf text (before p.endTokenId ids), textOf text (after p.endTokenId ids)⟩ :=
  if_pos h

theorem cut_of_not_mem (h : p.endTokenId ∉ ids) : cut p text ids = ⟨textOf text ids, []⟩ :=
  if_neg h

theorem cut_append_of_mem (h : p.endTokenId ∈ ids) (ids' : List Token) :
    cut p text (ids ++ ids') = (cut p text ids).append ⟨[], textOf text ids'⟩ := by
  rw [cut_of_mem (List.mem_append_left ids' h), cut_of_mem h, before_append h, after_append h,
    textOf_append]
  unfold Answer.append
  rw [List.append_nil]

theorem cut_append_of_not_mem (h : p.endTokenId ∉ ids) (ids' : List Token) :
    cut p text (ids ++ ids') = (cut p text ids).append (cut p text ids') := by
  rw [cut_of_not_mem h]
  by_cases h' : p.endTokenId ∈ ids'
  · rw [cut_of_mem (List.mem_append_right ids h'), cut_of_mem h', before_append_of_not_mem h h',
      after_append_of_not_mem h h', textOf_append]
    rfl
  · have hnot : p.endTokenId ∉ ids ++ ids' := by
      rw [List.mem_append, not_or]
      exact ⟨h, h'⟩
    rw [cut_of_not_mem hnot, cut_of_not_mem h', textOf_append]
    rfl

theorem size_cut_of_mem (h : p.endTokenId ∈ ids) :
    (cut p text ids).size + (text p.endTokenId).length = (textOf text ids).length := by
  rw [cut_of_mem h, length_textOf_around h]
  show (textOf text (before p.endTokenId ids)).length +
    (textOf text (after p.endTokenId ids)).length + _ = _
  omega

theorem size_cut_le (ids : List Token) : (cut p text ids).size ≤ (textOf text ids).length := by
  by_cases h : p.endTokenId ∈ ids
  · have hs : (cut p text ids).size + _ = (textOf text ids).length := size_cut_of_mem h
    omega
  · rw [cut_of_not_mem h]
    show _ + 0 ≤ _
    rw [Nat.add_zero]

/-- One-shot extraction finds both markers where the tokens are. -/
theorem extracted_eq (h : Decodes p text ids) :
    extracted p text ids = cut p text (answerIds p ids) := by
  -- the output without the first start marker
  have hanswer : (let parts := partition (textOf text ids) p.startToken
      if parts.2.1 ≠ [] then parts.2.2 else parts.1) = textOf text (answerIds p ids) := by
    unfold answerIds
    by_cases hm : p.startTokenId ∈ ids
    · rw [← h.start, partition_textOf h.onlyStart hm, if_pos hm]
      exact if_pos h.start_ne
    · rw [← h.start, partition_textOf_none h.onlyStart hm, if_neg hm]
      exact if_neg (not_not.mpr rfl)
  have hd := h.answer
  rw [extracted, ThinkingParser.extractReasoning]
  simp only [] at hanswer ⊢
  rw [hanswer, ← h.stop]
  by_cases hm : p.endTokenId ∈ answerIds p ids
  · have hfind : find? (text p.endTokenId) (textOf text (answerIds p ids)) ≠ none := by
      have hsome := find?_textOf (by rw [before_append_after hm]; exact hd.onlyStop)
        (not_mem_before p.endTokenId (answerIds p ids))
      rw [before_append_after hm] at hsome
      rw [hsome]
      exact Option.some_ne_none _
    rw [if_neg hfind, partition_textOf hd.onlyStop hm, cut_of_mem hm, Answer.ofParts,
      getD_orNone]
    rfl
  · rw [if_pos (find?_textOf_none hd.onlyStop hm), cut_of_not_mem hm]
    rfl

/-! ## One delta -/

/-- The text around the end token. -/
theorem aroundEnd_eq (h : Decodes p text delta) (hm : p.endTokenId ∈ delta) :
    p.aroundEnd (textOf text delta) = ⟨some (textOf text (before p.endTokenId delta)),
      ThinkingParser.orNone (textOf text (after p.endTokenId delta))⟩ := by
  have hsplit := congrArg (textOf text) (before_append_after hm)
  rw [textOf_append, textOf_cons] at hsplit
  have hsum : ((textOf text (before p.endTokenId delta)).length : Int) +
      (text p.endTokenId).length =
      (((textOf text (before p.endTokenId delta)).length + (text p.endTokenId).length : Nat) :
        Int) := rfl
  rw [ThinkingParser.aroundEnd, ← h.stop, find_textOf h.onlyStop hm, hsum, sliceTo_natCast,
    sliceFrom_natCast, ← hsplit, List.take_left, ← List.append_assoc, ← List.length_append, List.drop_left]

section

variable {previous delta : List Token}

/-- A marker alone adds nothing. -/
theorem received_lone (h : delta = [p.startTokenId] ∨ delta = [p.endTokenId]) :
    received p text previous delta = .empty := by
  rw [received, extractReasoningStreaming, ThinkingParser.extractReasoningStreaming, if_pos h]

/-- An end marker cuts the delta, unless the delta brings the start marker. -/
theorem received_end (hd : Decodes p text delta) (hne : p.startTokenId ≠ p.endTokenId)
    (hs : p.startTokenId ∈ previous ∨ p.startTokenId ∉ delta) (he : p.endTokenId ∈ delta) :
    received p text previous delta = cut p text delta := by
  by_cases hlone : delta = [p.startTokenId] ∨ delta = [p.endTokenId]
  · rw [received_lone hlone]
    rcases hlone with rfl | rfl
    · exact absurd (List.mem_singleton.mp he).symm hne
    · rw [cut_of_mem he, before, after, List.takeWhile_cons_of_neg (by simp),
        List.dropWhile_cons_of_neg (by simp)]
      rfl
  · have haround : extractReasoningStreaming p (textOf text delta) previous delta =
        some (p.aroundEnd (textOf text delta)) := by
      rw [extractReasoningStreaming, ThinkingParser.extractReasoningStreaming, if_neg hlone]
      by_cases hprev : p.startTokenId ∈ previous
      · rw [if_pos hprev, if_pos he]
        exact if_neg fun hnot => hnot.1 hprev
      · have hdelta := hs.resolve_left hprev
        rw [if_neg hprev, if_neg hdelta]
        show (if _ then _ else _) = _
        rw [if_pos ⟨hprev, hdelta⟩, if_pos he]
    rw [received, haround, aroundEnd_eq hd he, cut_of_mem he]
    show Answer.ofParts _ = _
    rw [Answer.ofParts, getD_orNone]
    rfl

/-- Without any new marker the delta is reasoning until an end marker has come. -/
theorem received_plain (hs : p.startTokenId ∈ previous ∨ p.startTokenId ∉ delta)
    (hlone : delta ≠ [p.startTokenId]) (he : p.endTokenId ∉ delta) :
    received p text previous delta =
      if p.endTokenId ∈ previous then ⟨[], textOf text delta⟩ else ⟨textOf text delta, []⟩ := by
  have hlone' : ¬ (delta = [p.startTokenId] ∨ delta = [p.endTokenId]) := by
    rintro (h | h)
    · exact hlone h
    · exact he (h ▸ List.mem_singleton.mpr rfl)
  have hplain : extractReasoningStreaming p (textOf text delta) previous delta =
      if p.endTokenId ∈ previous then some ⟨none, some (textOf text delta)⟩
      else some ⟨some (textOf text delta), none⟩ := by
    rw [extractReasoningStreaming, ThinkingParser.extractReasoningStreaming, if_neg hlone']
    by_cases hprev : p.startTokenId ∈ previous
    · rw [if_pos hprev, if_neg he]
      by_cases hend : p.endTokenId ∈ previous
      · rw [if_pos hend]
        exact if_neg fun hnot => hnot.1 hprev
      · rw [if_neg hend]
        exact if_neg fun hnot => hnot.1 hprev
    · have hdelta := hs.resolve_left hprev
      rw [if_neg hprev, if_neg hdelta]
      show (if _ then _ else _) = _
      rw [if_pos ⟨hprev, hdelta⟩, if_neg he]
  rw [received, hplain]
  by_cases hend : p.endTokenId ∈ previous
  · rw [if_pos hend, if_pos hend]
    rfl
  · rw [if_neg hend, if_neg hend]
    rfl

/-- The first start marker with other tokens, and no end marker: all of the delta is
reasoning, the marker included. -/
theorem received_start (hprev : p.startTokenId ∉ previous) (hs : p.startTokenId ∈ delta)
    (hlone : delta ≠ [p.startTokenId]) (he : p.endTokenId ∉ delta) :
    received p text previous delta = ⟨textOf text delta, []⟩ := by
  have hlone' : ¬ (delta = [p.startTokenId] ∨ delta = [p.endTokenId]) := by
    rintro (h | h)
    · exact hlone h
    · exact he (h ▸ List.mem_singleton.mpr rfl)
  have hret : extractReasoningStreaming p (textOf text delta) previous delta =
      some ⟨some (textOf text delta), none⟩ := by
    rw [extractReasoningStreaming, ThinkingParser.extractReasoningStreaming, if_neg hlone',
      if_neg hprev, if_pos hs, if_neg he]
    exact if_neg fun hnot => hnot.2 hs
  rw [received, hret]
  rfl

/-- Both markers in the delta that brings the first start marker. -/
theorem received_both (hd : Decodes p text delta) (hne : p.startTokenId ≠ p.endTokenId)
    (hprev : p.startTokenId ∉ previous) (hs : p.startTokenId ∈ delta)
    (he : p.endTokenId ∈ delta) :
    received p text previous delta =
      ⟨((textOf text delta).take (textOf text (before p.endTokenId delta)).length).drop
          ((textOf text (before p.startTokenId delta)).length + (text p.startTokenId).length),
        textOf text (after p.endTokenId delta)⟩ := by
  have hlone : ¬ (delta = [p.startTokenId] ∨ delta = [p.endTokenId]) := by
    rintro (rfl | rfl)
    · exact hne (List.mem_singleton.mp he).symm
    · exact hne (List.mem_singleton.mp hs)
  have hsplit := congrArg (textOf text) (before_append_after he)
  rw [textOf_append, textOf_cons] at hsplit
  have hcontent : (textOf text delta).drop ((textOf text (before p.endTokenId delta)).length +
      (text p.endTokenId).length) = textOf text (after p.endTokenId delta) := by
    rw [← hsplit, ← List.append_assoc, ← List.length_append, List.drop_left]
  have hret : extractReasoningStreaming p (textOf text delta) previous delta =
      some ⟨some (((textOf text delta).take (textOf text (before p.endTokenId delta)).length).drop
          ((textOf text (before p.startTokenId delta)).length + (text p.startTokenId).length)),
        ThinkingParser.orNone (textOf text (after p.endTokenId delta))⟩ := by
    rw [extractReasoningStreaming, ThinkingParser.extractReasoningStreaming, if_neg hlone,
      if_neg hprev, if_pos hs, if_pos he, ← hd.start, ← hd.stop, find_textOf hd.onlyStart hs,
      find_textOf hd.onlyStop he]
    simp only []
    rw [← Int.natCast_add, ← Int.natCast_add, slice_natCast, sliceFrom_natCast, hcontent]
    exact if_neg fun hnot => hnot.2 hs
  rw [received, hret]
  show Answer.ofParts _ = _
  rw [Answer.ofParts, getD_orNone]
  rfl

/-- With the end marker after the start marker, what is between and after them. -/
theorem received_between (hd : Decodes p text delta) (hne : p.startTokenId ≠ p.endTokenId)
    (hprev : p.startTokenId ∉ previous) (hs : p.startTokenId ∈ delta)
    (hin : p.endTokenId ∈ after p.startTokenId delta)
    (hbefore : p.endTokenId ∉ before p.startTokenId delta) :
    received p text previous delta = cut p text (after p.startTokenId delta) := by
  have hsplit := before_append_after hs
  have hcons : before p.startTokenId delta ++ p.startTokenId :: after p.startTokenId delta =
      (before p.startTokenId delta ++ [p.startTokenId]) ++ after p.startTokenId delta := by
    rw [List.append_assoc, List.singleton_append]
  have hnot : p.endTokenId ∉ before p.startTokenId delta ++ [p.startTokenId] := by
    rw [List.mem_append, not_or, List.mem_singleton]
    exact ⟨hbefore, hne.symm⟩
  have he : p.endTokenId ∈ delta := by
    rw [← hsplit, hcons]
    exact List.mem_append_right _ hin
  -- the tokens before the end marker: up to the start marker, and the reasoning
  have hb : before p.endTokenId delta = (before p.startTokenId delta ++ [p.startTokenId]) ++
      before p.endTokenId (after p.startTokenId delta) := by
    rw [← before_append_of_not_mem hnot hin, ← hcons, hsplit]
  have ha : after p.endTokenId delta = after p.endTokenId (after p.startTokenId delta) := by
    rw [← after_append_of_not_mem hnot hin, ← hcons, hsplit]
  have htake : (textOf text delta).take (textOf text (before p.endTokenId delta)).length =
      textOf text (before p.endTokenId delta) := by
    have hall := congrArg (textOf text) (before_append_after he)
    rw [textOf_append] at hall
    rw [← hall, List.take_left]
  rw [received_both hd hne hprev hs he, cut_of_mem hin, htake, ha, hb, textOf_append _ (_ ++ _)]
  have hlen : (textOf text (before p.startTokenId delta)).length +
      (text p.startTokenId).length =
      (textOf text (before p.startTokenId delta ++ [p.startTokenId])).length := by
    rw [textOf_append, textOf_cons, textOf_nil, List.append_nil, List.length_append]
  rw [hlen, List.drop_left]

end

/-! ## One step -/

/-- The answer's ids grow by the delta, unless it brings the first start marker. -/
theorem answerIds_append {previous : List Token}
    (hs : p.startTokenId ∈ previous ∨ p.startTokenId ∉ delta) :
    answerIds p (previous ++ delta) = answerIds p previous ++ delta := by
  unfold answerIds
  by_cases hprev : p.startTokenId ∈ previous
  · rw [if_pos hprev, if_pos (List.mem_append_left delta hprev), after_append hprev]
  · have hnot : p.startTokenId ∉ previous ++ delta := by
      rw [List.mem_append, not_or]
      exact ⟨hprev, hs.resolve_left hprev⟩
    rw [if_neg hprev, if_neg hnot]

theorem answerIds_subset (ids : List Token) {t : Token} (h : t ∈ answerIds p ids) : t ∈ ids := by
  unfold answerIds at h
  split at h
  next hs =>
    rw [← before_append_after hs]
    exact List.mem_append_right _ (List.mem_cons_of_mem _ h)
  next => exact h

/-- An answer is empty when its tokens have no text, or only that of an end marker. -/
theorem cut_eq_empty_iff (h : Decodes p text ids) :
    cut p text ids = .empty ↔ textOf text ids = [] ∨ textOf text ids = p.endToken := by
  have hpos := h.length_stop
  have hstop : (text p.endTokenId).length = p.endToken.length := by rw [h.stop]
  constructor
  · intro he
    by_cases hm : p.endTokenId ∈ ids
    · right
      rw [cut_of_mem hm, Answer.empty, Answer.mk.injEq] at he
      rw [← before_append_after hm, textOf_append, textOf_cons, he.1, he.2, List.nil_append,
        List.append_nil, h.stop]
    · left
      rw [cut_of_not_mem hm, Answer.empty, Answer.mk.injEq] at he
      exact he.1
  · intro htext
    apply Answer.eq_empty_of_size
    rcases htext with ht | ht
    · have hle : (cut p text ids).size ≤ (textOf text ids).length := size_cut_le ids
      rw [ht, List.length_nil] at hle
      omega
    · obtain ⟨a, b, rfl, -⟩ := h.onlyStop [] [] (by
        rw [List.nil_append, List.append_nil, ht, h.stop])
      have hmem : p.endTokenId ∈ a ++ p.endTokenId :: b :=
        List.mem_append_right a List.mem_cons_self
      have hs : (cut p text (a ++ p.endTokenId :: b)).size + _ = _ := size_cut_of_mem hmem
      rw [ht] at hs
      omega

variable {previous delta : List Token}

/-- After the start marker, or without any. -/
theorem step_iff_of_old (h : Decodes p text (previous ++ delta))
    (hne : p.startTokenId ≠ p.endTokenId)
    (hs : p.startTokenId ∈ previous ∨ p.startTokenId ∉ delta) :
    (cut p text (answerIds p previous)).append (received p text previous delta) =
        cut p text (answerIds p (previous ++ delta)) ↔
      delta ≠ [p.startTokenId] ∧
        if p.endTokenId ∈ answerIds p previous then p.endTokenId ∉ delta
        else p.endTokenId ∈ previous → p.endTokenId ∈ delta ∨ textOf text delta = [] := by
  have hd := h.right
  rw [answerIds_append hs]
  -- a start marker alone is dropped, although its text belongs to the answer
  have hlone : delta = [p.startTokenId] → received p text previous delta = .empty ∧
      textOf text delta ≠ [] ∧ p.endTokenId ∉ delta := by
    rintro rfl
    refine ⟨received_lone (Or.inl rfl), ?_, fun he => hne (List.mem_singleton.mp he).symm⟩
    rw [textOf_cons, textOf_nil, List.append_nil]
    exact h.start_ne
  by_cases ha : p.endTokenId ∈ answerIds p previous
  · -- the reasoning has ended: all of the delta is content
    have hprev := answerIds_subset previous ha
    rw [if_pos ha, cut_append_of_mem ha, Answer.append_right_inj]
    constructor
    · intro heq
      constructor
      · intro hl
        obtain ⟨hr, ht, -⟩ := hlone hl
        rw [hr, Answer.empty, Answer.mk.injEq] at heq
        exact ht heq.2.symm
      · intro he
        -- the second end marker would be cut out
        have hsize : (cut p text _).size + _ = (textOf text _).length := size_cut_of_mem he
        rw [received_end hd hne hs he] at heq
        rw [heq] at hsize
        have hpos := h.length_stop
        rw [Answer.size_mk, List.length_nil] at hsize
        omega
    · rintro ⟨hl, he⟩
      rw [received_plain hs hl he, if_pos hprev]
  · rw [if_neg ha, cut_append_of_not_mem ha, Answer.append_right_inj]
    by_cases he : p.endTokenId ∈ delta
    · -- the delta ends the reasoning
      constructor
      · intro _
        refine ⟨fun hl => (hlone hl).2.2 he, fun _ => Or.inl he⟩
      · intro _
        exact received_end hd hne hs he
    · rw [cut_of_not_mem he]
      constructor
      · intro heq
        have hl : delta ≠ [p.startTokenId] := by
          intro hl
          obtain ⟨hr, ht, -⟩ := hlone hl
          rw [hr, Answer.empty, Answer.mk.injEq] at heq
          exact ht heq.1.symm
        refine ⟨hl, fun hprev => Or.inr ?_⟩
        rw [received_plain hs hl he, if_pos hprev, Answer.mk.injEq] at heq
        exact heq.1.symm
      · rintro ⟨hl, hend⟩
        rw [received_plain hs hl he]
        split
        next hprev =>
          rw [(hend hprev).resolve_left he]
        next => rfl

/-- At the first start marker. -/
theorem step_iff_of_new (h : Decodes p text (previous ++ delta))
    (hne : p.startTokenId ≠ p.endTokenId) (hprev : p.startTokenId ∉ previous)
    (hs : p.startTokenId ∈ delta) :
    (cut p text (answerIds p previous)).append (received p text previous delta) =
        cut p text (answerIds p (previous ++ delta)) ↔
      (textOf text previous = [] ∨ textOf text previous = p.endToken) ∧
        (delta = [p.startTokenId] ∨ p.endTokenId ∈ after p.startTokenId delta ∧
          p.endTokenId ∉ before p.startTokenId delta) := by
  have hd := h.right
  have hnew : answerIds p (previous ++ delta) = after p.startTokenId delta := by
    rw [answerIds, if_pos (List.mem_append_right previous hs), after_append_of_not_mem hprev hs]
  have hold : answerIds p previous = previous := if_neg hprev
  rw [hnew, hold, ← cut_eq_empty_iff h.left]
  have hpos := h.length_start
  have htext : (textOf text delta).length = _ := length_textOf_around hs
  have hafter : (cut p text (after p.startTokenId delta)).size ≤ _ :=
    size_cut_le (after p.startTokenId delta)
  constructor
  · intro heq
    have hsize := congrArg Answer.size heq
    rw [Answer.size_append] at hsize
    by_cases hlone : delta = [p.startTokenId]
    · refine ⟨?_, Or.inl hlone⟩
      -- nothing is left of the delta, so nothing may have come before it
      have hnil : after p.startTokenId delta = [] := by
        rw [hlone, after_self]
      apply Answer.eq_empty_of_size
      rw [hnil, cut_nil, Answer.size_empty] at hsize
      omega
    · by_cases he : p.endTokenId ∈ delta
      · by_cases hbefore : p.endTokenId ∈ before p.startTokenId delta
        · -- the content would have the start marker
          have hcontent : after p.endTokenId delta =
              after p.endTokenId (before p.startTokenId delta) ++
                p.startTokenId :: after p.startTokenId delta := by
            rw [← after_append hbefore, before_append_after hs]
          have hlen := congrArg (fun l => (textOf text l).length) hcontent
          simp only [textOf_append, textOf_cons, List.length_append] at hlen
          rw [received_both hd hne hprev hs he, Answer.size_mk (List.drop _ _)] at hsize
          omega
        · have hin : p.endTokenId ∈ after p.startTokenId delta := by
            have hmem := he
            rw [← before_append_after hs] at hmem
            rcases List.mem_append.mp hmem with hb | hb
            · exact absurd hb hbefore
            · exact (List.mem_cons.mp hb).resolve_left hne.symm
          refine ⟨?_, Or.inr ⟨hin, hbefore⟩⟩
          rw [received_between hd hne hprev hs hin hbefore] at hsize
          apply Answer.eq_empty_of_size
          omega
      · rw [received_start hprev hs hlone he, Answer.size_mk _ []] at hsize
        omega
  · rintro ⟨hempty, hcase⟩
    rw [hempty, Answer.empty_append]
    rcases hcase with rfl | ⟨hin, hbefore⟩
    · rw [received_lone (Or.inl rfl), after_self, cut_nil]
    · exact received_between hd hne hprev hs hin hbefore

theorem step_iff (h : Decodes p text (previous ++ delta))
    (hne : p.startTokenId ≠ p.endTokenId) :
    (extracted p text previous).append (received p text previous delta) =
        extracted p text (previous ++ delta) ↔ Handled p text previous delta := by
  rw [extracted_eq h.left, extracted_eq h]
  unfold Handled
  by_cases hs : p.startTokenId ∈ previous ∨ p.startTokenId ∉ delta
  · rw [if_pos hs]
    exact step_iff_of_old h hne hs
  · rw [if_neg hs]
    rw [not_or, not_not] at hs
    exact step_iff_of_new h hne hs.1 hs.2

/-! ## The whole stream -/

theorem streamedFrom_concat (delta : List Token) : ∀ (previous : List Token)
    (deltas : List (List Token)),
    streamedFrom p text previous (deltas ++ [delta]) =
      (streamedFrom p text previous deltas).append
        (received p text (previous ++ deltas.flatten) delta)
  | previous, [] => by
    show (received p text previous delta).append .empty = Answer.empty.append _
    rw [Answer.append_empty, Answer.empty_append, List.flatten_nil, List.append_nil]
  | previous, d :: deltas => by
    show (received p text previous d).append (streamedFrom p text (previous ++ d) (deltas ++ [delta]))
      = ((received p text previous d).append _).append _
    rw [streamedFrom_concat delta (previous ++ d) deltas, Answer.append_assoc, List.flatten_cons,
      List.append_assoc]

theorem extracted_nil : extracted p text [] = .empty := by
  have hstart : find? p.startToken [] = none := by
    rw [find?, if_neg p.startToken_ne]
  have hstop : find? p.endToken [] = none := by
    rw [find?, if_neg p.endToken_ne]
  rw [extracted, ThinkingParser.extractReasoning, textOf_nil, partition, hstart]
  show Answer.ofParts (if find? p.endToken [] = none then _ else _) = _
  rw [if_pos hstop]
  rfl

/-- The constructor sees two markers of the class, with different texts. -/
theorem init_markers {vocab : Dict Text Token} (h : init vocab = .ok p) :
    p.startToken ≠ p.endToken := by
  unfold init ThinkingParser.init at h
  split at h
  next =>
    split at h
    · injection h with h
      subst h
      show "<think>".toList ≠ "</think>".toList
      decide
    · cases h
  next => cases h

/-- The stream after some deltas: right so far, it stays right exactly if the next
delta is handled. -/
theorem streamed_concat_iff {deltas : List (List Token)}
    (h : Decodes p text (deltas.flatten ++ delta)) (hne : p.startTokenId ≠ p.endTokenId)
    (hright : streamed p text deltas = extracted p text deltas.flatten) :
    streamed p text (deltas ++ [delta]) = extracted p text (deltas ++ [delta]).flatten ↔
      Handled p text deltas.flatten delta := by
  have hconcat : streamed p text (deltas ++ [delta]) =
      (streamed p text deltas).append (received p text deltas.flatten delta) :=
    streamedFrom_concat delta [] deltas
  rw [hconcat, hright, List.flatten_append, List.flatten_singleton]
  exact step_iff h hne

/-- The answer after every delta is the one extracted from the text so far, if and
only if every delta is handled. -/
theorem streamed_eq_extracted_iff {vocab : Dict Text Token} (hinit : init vocab = .ok p)
    (deltas : List (List Token)) (h : Decodes p text deltas.flatten) :
    (∀ n, streamed p text (deltas.take n) = extracted p text (deltas.take n).flatten) ↔
      ∀ n delta, deltas[n]? = some delta → Handled p text (deltas.take n).flatten delta := by
  have hne : p.startTokenId ≠ p.endTokenId := by
    intro he
    exact init_markers hinit (by rw [← h.start, ← h.stop, he])
  have hparts : ∀ n, (deltas.take n).flatten ++ (deltas.drop n).flatten = deltas.flatten := by
    intro n
    rw [← List.flatten_append, List.take_append_drop]
  -- the next delta extends the deltas so far
  have hnext : ∀ n delta, deltas[n]? = some delta →
      deltas.take (n + 1) = deltas.take n ++ [delta] := by
    intro n delta hn
    rw [List.take_add_one, hn]
    rfl
  have hdecodes : ∀ n delta, deltas[n]? = some delta →
      Decodes p text ((deltas.take n).flatten ++ delta) := by
    intro n delta hn
    have hd := h
    rw [← hparts (n + 1), hnext n delta hn, List.flatten_append, List.flatten_singleton] at hd
    exact hd.left
  constructor
  · intro hall n delta hn
    have hstep := hall (n + 1)
    rw [hnext n delta hn] at hstep
    exact (streamed_concat_iff (hdecodes n delta hn) hne (hall n)).mp hstep
  · intro hall n
    -- induction on the number of deltas: each one is handled
    induction n with
    | zero =>
      rw [List.take_zero, List.flatten_nil, extracted_nil]
      rfl
    | succ n ih =>
      cases hn : deltas[n]? with
      | none =>
        have hlen := List.getElem?_eq_none_iff.mp hn
        rw [List.take_of_length_le hlen] at ih
        rw [List.take_of_length_le (Nat.le_succ_of_le hlen)]
        exact ih
      | some delta =>
        rw [hnext n delta hn]
        exact (streamed_concat_iff (hdecodes n delta hn) hne ih).mpr (hall n delta hn)

end

/-! ## Two streams -/

/-- Three tokens: the two markers and a letter. -/
def lettersVocab : Dict Text Token :=
  ((Dict.empty.set "<think>".toList 1).set "</think>".toList 2).set "a".toList 3

def lettersText (t : Token) : Text :=
  if t = 1 then "<think>".toList else if t = 2 then "</think>".toList else "a".toList

def lettersParser : ThinkingParser where
  startToken := "<think>".toList
  endToken := "</think>".toList
  startTokenId := 1
  endTokenId := 2
  startToken_ne := List.cons_ne_nil _ _
  endToken_ne := List.cons_ne_nil _ _

theorem lettersParser_init : init lettersVocab = .ok lettersParser := rfl

theorem lettersText_decodes {ids : List Token}
    (hstart : ∀ i ≤ (textOf lettersText ids).length,
      lettersText 1 <+: (textOf lettersText ids).drop i → ∃ k < ids.length, ids[k]? = some 1 ∧
        textOf lettersText (ids.take k) = (textOf lettersText ids).take i)
    (hstop : ∀ i ≤ (textOf lettersText ids).length,
      lettersText 2 <+: (textOf lettersText ids).drop i → ∃ k < ids.length, ids[k]? = some 2 ∧
        textOf lettersText (ids.take k) = (textOf lettersText ids).take i) :
    Decodes lettersParser lettersText ids :=
  ⟨rfl, rfl, onlyAs_of_positions hstart, onlyAs_of_positions hstop⟩

/-- Reasoning in one delta, content in the next: both are handled. -/
theorem thought_then_content :
    (∀ n, streamed lettersParser lettersText ([[1, 3, 2], [3]].take n) =
        extracted lettersParser lettersText ([[1, 3, 2], [3]].take n).flatten) ↔
      ∀ n delta, ([[1, 3, 2], [3]] : List (List Token))[n]? = some delta →
        Handled lettersParser lettersText ([[1, 3, 2], [3]].take n).flatten delta :=
  streamed_eq_extracted_iff lettersParser_init [[1, 3, 2], [3]]
    (lettersText_decodes (by decide) (by decide))

/-- The start marker with a letter in one delta: the marker's text is streamed as
reasoning, and is not in the extracted one. -/
theorem start_marker_streamed :
    ¬ ∀ (vocab : Dict Text Token) (p : ThinkingParser) (text : Token → Text)
        (deltas : List (List Token)), init vocab = .ok p → Decodes p text deltas.flatten →
        (∀ delta ∈ deltas, delta ≠ []) →
        streamed p text deltas = extracted p text deltas.flatten := by
  intro h
  have heq := h lettersVocab lettersParser lettersText [[1, 3]] lettersParser_init
    (lettersText_decodes (by decide) (by decide)) (by decide)
  have hstreamed : streamed lettersParser lettersText [[1, 3]] = ⟨"<think>a".toList, []⟩ := by
    decide
  have hextracted : extracted lettersParser lettersText [[1, 3]].flatten = ⟨"a".toList, []⟩ := by
    decide
  rw [hstreamed, hextracted] at heq
  exact absurd heq (by decide)

end DeepSeekR1

end VllmEngine.Reasoning
