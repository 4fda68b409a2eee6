import VllmEngine.Engine.Outputs

/-!
# Incremental detokenization

`BaseIncrementalDetokenizer`: the text grows token by token, a stop string cuts
it, and text that a stop string might still cut is held back. How one token is
decoded is the business of a tokenizer, so `decodeNext` is a parameter: it gets
the decoder's state and all token ids, as both the fast and the slow decoder do.

What is shown stays shown:

> `Detokenizer.update_spec`: an update changes nothing of the text outside the
> held-back part,
> `Detokenizer.getNextOutputText_delta`, `Detokenizer.getNextOutputText_full`:
> what the two kinds of output show of a text.
-/

namespace VllmEngine.Engine

variable {δ : Type}

/-! ## Strings -/

/-- `s.find(sub, start)`; `none` is `-1`. -/
def find (s sub : Text) (start : Int) : Option Nat :=
  let start := if start < 0 then (s.length + start).toNat else start.toNat
  (List.range (s.length + 1)).find? fun i => decide (start ≤ i) && sub.isPrefixOf (s.drop i)

/-- `check_stop_strings`: the stop string, and the length to cut the text to;
`none` there is `-1`, no truncation. -/
def checkStopStrings (outputText : Text) (newCharCount : Nat) (stop : List Text)
    (includeInOutput : Bool) : Option (Text × Option Nat) :=
  if newCharCount = 0 ∨ stop = [] then none
  else stop.findSome? fun stopStr =>
    -- avoid searching already-searched text
    match find outputText stopStr (1 - (newCharCount : Int) - stopStr.length) with
    | none => none
    | some stopIndex =>
      if includeInOutput then
        let stopIndex := stopIndex + stopStr.length
        if outputText.length ≤ stopIndex then some (stopStr, none)
        else some (stopStr, some stopIndex)
      else some (stopStr, some stopIndex)

/-! ## The detokenizer -/

/-- `BaseIncrementalDetokenizer`; the prompt's tokens head `tokenIds` in the slow
one, where `promptLen` counts them. -/
structure BaseDetokenizer (δ : Type) where
  promptLen : Nat
  stop : List Text
  minTokens : Nat
  includeStopStrInOutput : Bool
  tokenIds : List Token
  lastOutputTextOffset : Nat
  outputText : Text
  decoder : δ
deriving DecidableEq

namespace BaseDetokenizer

variable (d : BaseDetokenizer δ)

/-- The number of characters to hold back; stop strings are not empty. -/
def stopBufferLength : Nat :=
  if d.stop ≠ [] ∧ d.includeStopStrInOutput = false then
    (d.stop.map List.length).foldl max 0 - 1
  else 0

def outputTokenIds : List Token := d.tokenIds.drop d.promptLen

def numOutputTokens : Nat := d.tokenIds.length - d.promptLen

variable (decodeNext : δ → List Token → Token → Text × δ)

/-- The body of the loop of `update`; the second component is
`stop_check_offset`. -/
def appendToken (s : BaseDetokenizer δ × Nat) (newTokenId : Token) : BaseDetokenizer δ × Nat :=
  let d := s.1
  let tokenIds := d.tokenIds ++ [newTokenId]
  let (text, decoder) := decodeNext d.decoder tokenIds newTokenId
  let d := { d with tokenIds, outputText := d.outputText ++ text, decoder }
  (d, if d.minTokens ≠ 0 ∧ d.numOutputTokens ≤ d.minTokens then d.outputText.length else s.2)

/-- The first part of `update`: the tokens are decoded, except for a stop token
that is not to be shown; the second component is `stop_check_offset`. -/
def decodeTokens (newTokenIds : List Token) (stopTerminated : Bool) : BaseDetokenizer δ × Nat :=
  let skip := stopTerminated && !d.includeStopStrInOutput
  let decoded := if skip then newTokenIds.dropLast else newTokenIds
  let skipped := if skip then newTokenIds.getLast?.toList else []
  let s := decoded.foldl (appendToken decodeNext) (d, d.outputText.length)
  ({ s.1 with tokenIds := s.1.tokenIds ++ skipped }, s.2)

/-- The second part of `update`: a stop string cuts the text. -/
def evaluateStop (stopCheckOffset : Nat) : Option Text × BaseDetokenizer δ :=
  if d.stop ≠ [] ∧ d.minTokens < d.numOutputTokens then
    match checkStopStrings d.outputText (d.outputText.length - stopCheckOffset) d.stop
        d.includeStopStrInOutput with
    | some (stopString, some truncateTo) =>
      (some stopString, { d with outputText := d.outputText.take truncateTo })
    | some (stopString, none) => (some stopString, d)
    | none => (none, d)
  else (none, d)

/-- `update`: the matched stop string, and the detokenizer after it. -/
def update (newTokenIds : List Token) (stopTerminated : Bool) : Option Text × BaseDetokenizer δ :=
  if newTokenIds = [] then (none, d)
  else
    let s := d.decodeTokens decodeNext newTokenIds stopTerminated
    s.1.evaluateStop s.2

/-- `get_next_output_text`. -/
def getNextOutputText (finished delta : Bool) : Text × BaseDetokenizer δ :=
  let bufferLength := if finished then 0 else d.stopBufferLength
  let length := d.outputText.length - bufferLength
  if delta then
    if d.lastOutputTextOffset < length then
      ((d.outputText.take length).drop d.lastOutputTextOffset, { d with lastOutputTextOffset := length })
    else ([], d)
  else (d.outputText.take length, d)

/-- The length of the text that an unfinished request shows. -/
def shownLength : Nat := d.outputText.length - d.stopBufferLength

end BaseDetokenizer

/-- `IncrementalDetokenizer`: without a tokenizer the tokens are only counted. -/
inductive Detokenizer (δ : Type)
  | plain (tokenIds : List Token)
  | incremental (base : BaseDetokenizer δ)
deriving DecidableEq

namespace Detokenizer

def outputTokenIds : Detokenizer δ → List Token
  | plain tokenIds => tokenIds
  | incremental base => base.outputTokenIds

def numOutputTokens : Detokenizer δ → Nat
  | plain tokenIds => tokenIds.length
  | incremental base => base.numOutputTokens

def update (decodeNext : δ → List Token → Token → Text × δ) (newTokenIds : List Token)
    (stopTerminated : Bool) : Detokenizer δ → Option Text × Detokenizer δ
  | plain tokenIds => (none, plain (tokenIds ++ newTokenIds))
  | incremental base =>
    let (stopString, base) := base.update decodeNext newTokenIds stopTerminated
    (stopString, incremental base)

def getNextOutputText (finished delta : Bool) : Detokenizer δ → Text × Detokenizer δ
  | plain tokenIds => ([], plain tokenIds)
  | incremental base =>
    let (text, base) := base.getNextOutputText finished delta
    (text, incremental base)

end Detokenizer

/-! ## A match lies in the held-back part -/

theorem find_spec {s sub : Text} {start : Int} {i : Nat} (h : find s sub start = some i) :
    (s.length : Int) + start ≤ i ∨ 0 ≤ start := by
  unfold find at h
  have hstart := List.find?_some h
  rw [Bool.and_eq_true, decide_eq_true_eq] at hstart
  by_cases hneg : start < 0
  · rw [if_pos hneg] at hstart
    exact Or.inl (by omega)
  · exact Or.inr (by omega)

theorem le_foldl_max (xs : List Nat) : ∀ (b : Nat), b ≤ xs.foldl max b ∧ ∀ x ∈ xs, x ≤ xs.foldl max b := by
  induction xs with
  | nil => intro b; exact ⟨Nat.le_refl b, by simp⟩
  | cons y ys ih =>
    intro b
    obtain ⟨hb, hys⟩ := ih (max b y)
    rw [List.foldl_cons]
    refine ⟨Nat.le_trans (Nat.le_max_left b y) hb, ?_⟩
    intro x hx
    rcases List.mem_cons.mp hx with rfl | hx
    · exact Nat.le_trans (Nat.le_max_right b x) hb
    · exact hys x hx

theorem checkStopStrings_mem {text : Text} {newCharCount : Nat} {stop : List Text}
    {includeInOutput : Bool} {stopString : Text} {truncateTo : Option Nat}
    (h : checkStopStrings text newCharCount stop includeInOutput = some (stopString, truncateTo)) :
    stopString ∈ stop := by
  unfold checkStopStrings at h
  split at h
  · cases h
  · obtain ⟨s, hs, hfound⟩ := List.exists_of_findSome?_eq_some h
    have hsame : s = stopString := by
      split at hfound
      · cases hfound
      · split at hfound
        · dsimp only at hfound
          split at hfound
          · exact congrArg Prod.fst (Option.some.inj hfound)
          · exact congrArg Prod.fst (Option.some.inj hfound)
        · exact congrArg Prod.fst (Option.some.inj hfound)
    exact hsame ▸ hs

/-- The cut of a stop string leaves at least what was shown before the new
characters. -/
theorem checkStopStrings_keeps {text : Text} {newCharCount : Nat} {stop : List Text}
    {includeInOutput : Bool} {stopString : Text} {truncateTo : Nat}
    (hnew : newCharCount ≤ text.length) (hstop : ∀ s ∈ stop, s ≠ [])
    (h : checkStopStrings text newCharCount stop includeInOutput
      = some (stopString, some truncateTo)) :
    text.length - newCharCount
      - (if includeInOutput then 0 else (stop.map List.length).foldl max 0 - 1) ≤ truncateTo := by
  unfold checkStopStrings at h
  split at h
  · cases h
  · rename_i hsearch
    obtain ⟨s, hs, hfound⟩ := List.exists_of_findSome?_eq_some h
    have hlen : s.length ≤ (stop.map List.length).foldl max 0 :=
      (le_foldl_max _ 0).2 _ (List.mem_map_of_mem hs)
    have hpos : 0 < s.length := List.length_pos_iff.mpr (hstop s hs)
    have hcount : newCharCount ≠ 0 := fun hzero => hsearch (Or.inl hzero)
    cases hfind : find text s (1 - (newCharCount : Int) - s.length) with
    | none =>
      rw [hfind] at hfound
      cases hfound
    | some stopIndex =>
      rw [hfind] at hfound
      have hidx := find_spec hfind
      cases includeInOutput with
      | true =>
        dsimp only at hfound
        rw [if_pos rfl] at hfound
        split at hfound
        · cases hfound
        · cases hfound
          rw [if_pos rfl]
          omega
      | false =>
        dsimp only at hfound
        rw [if_neg Bool.false_ne_true] at hfound
        cases hfound
        rw [if_neg Bool.false_ne_true]
        omega

/-! ## Updates -/

namespace BaseDetokenizer

/-- What an update leaves alone. -/
structure SameConfig (d d' : BaseDetokenizer δ) : Prop where
  promptLen : d'.promptLen = d.promptLen
  stop : d'.stop = d.stop
  minTokens : d'.minTokens = d.minTokens
  include_ : d'.includeStopStrInOutput = d.includeStopStrInOutput
  offset : d'.lastOutputTextOffset = d.lastOutputTextOffset

theorem SameConfig.refl (d : BaseDetokenizer δ) : SameConfig d d := ⟨rfl, rfl, rfl, rfl, rfl⟩

theorem SameConfig.stopBufferLength {d d' : BaseDetokenizer δ} (h : SameConfig d d') :
    d'.stopBufferLength = d.stopBufferLength := by
  unfold BaseDetokenizer.stopBufferLength
  rw [h.stop, h.include_]

/-- The loop of `update`: tokens and text are appended, and the offset stays
between the old and the new length of the text. -/
theorem foldl_appendToken (decodeNext : δ → List Token → Token → Text × δ)
    (newTokenIds : List Token) :
    ∀ (s : BaseDetokenizer δ × Nat), s.2 ≤ s.1.outputText.length →
      ∃ text, SameConfig s.1 (newTokenIds.foldl (appendToken decodeNext) s).1 ∧
        (newTokenIds.foldl (appendToken decodeNext) s).1.outputText = s.1.outputText ++ text ∧
        (newTokenIds.foldl (appendToken decodeNext) s).1.tokenIds = s.1.tokenIds ++ newTokenIds ∧
        s.2 ≤ (newTokenIds.foldl (appendToken decodeNext) s).2 ∧
        (newTokenIds.foldl (appendToken decodeNext) s).2
          ≤ (newTokenIds.foldl (appendToken decodeNext) s).1.outputText.length := by
  induction newTokenIds with
  | nil =>
    intro s hs
    exact ⟨[], SameConfig.refl _, (List.append_nil _).symm, (List.append_nil _).symm, Nat.le_refl _, hs⟩
  | cons t ts ih =>
    intro s hs
    rw [List.foldl_cons]
    have hlen : (appendToken decodeNext s t).1.outputText
        = s.1.outputText ++ (decodeNext s.1.decoder (s.1.tokenIds ++ [t]) t).1 := rfl
    have hoffset : s.2 ≤ (appendToken decodeNext s t).2 ∧
        (appendToken decodeNext s t).2 ≤ (appendToken decodeNext s t).1.outputText.length := by
      have hgrow : s.1.outputText.length ≤ (appendToken decodeNext s t).1.outputText.length := by
        rw [hlen, List.length_append]
        omega
      unfold appendToken at hgrow ⊢
      dsimp only at hgrow ⊢
      split
      · exact ⟨by omega, Nat.le_refl _⟩
      · exact ⟨Nat.le_refl _, by omega⟩
    obtain ⟨text, hconfig, htext, htokens, hlo, hhi⟩ := ih _ hoffset.2
    refine ⟨(decodeNext s.1.decoder (s.1.tokenIds ++ [t]) t).1 ++ text, ?_, ?_, ?_,
      Nat.le_trans hoffset.1 hlo, hhi⟩
    · exact ⟨hconfig.promptLen, hconfig.stop, hconfig.minTokens, hconfig.include_, hconfig.offset⟩
    · rw [htext, hlen, List.append_assoc]
    · rw [htokens]
      show (s.1.tokenIds ++ [t]) ++ ts = _
      rw [List.append_assoc]
      rfl

/-- A text cut no shorter than `n` keeps what stands before `n`. -/
theorem take_prefix_take_append {text more : Text} {n m : Nat} (hn : n ≤ text.length) (hm : n ≤ m) :
    text.take n <+: (text ++ more).take m := by
  have hsame : text.take n = (text ++ more).take n := (List.take_append_of_le_length hn).symm
  rw [hsame]
  exact List.take_prefix_take_left hm

theorem decodeTokens_spec (d : BaseDetokenizer δ)
    (decodeNext : δ → List Token → Token → Text × δ) (newTokenIds : List Token)
    (stopTerminated : Bool) (hne : newTokenIds ≠ []) :
    ∃ text, SameConfig d (d.decodeTokens decodeNext newTokenIds stopTerminated).1 ∧
      (d.decodeTokens decodeNext newTokenIds stopTerminated).1.outputText = d.outputText ++ text ∧
      (d.decodeTokens decodeNext newTokenIds stopTerminated).1.tokenIds = d.tokenIds ++ newTokenIds ∧
      d.outputText.length ≤ (d.decodeTokens decodeNext newTokenIds stopTerminated).2 := by
  unfold decodeTokens
  dsimp only
  generalize (stopTerminated && !d.includeStopStrInOutput) = skip
  have htokens : (if skip = true then newTokenIds.dropLast else newTokenIds)
      ++ (if skip = true then newTokenIds.getLast?.toList else []) = newTokenIds := by
    cases skip with
    | true =>
      rw [if_pos rfl, if_pos rfl, List.getLast?_eq_some_getLast hne]
      exact List.dropLast_append_getLast hne
    | false =>
      rw [if_neg Bool.false_ne_true, if_neg Bool.false_ne_true, List.append_nil]
  obtain ⟨text, hconfig, htext, hids, hlo, -⟩ := foldl_appendToken decodeNext
    (if skip = true then newTokenIds.dropLast else newTokenIds) (d, d.outputText.length)
    (Nat.le_refl _)
  refine ⟨text, ⟨hconfig.promptLen, hconfig.stop, hconfig.minTokens, hconfig.include_,
    hconfig.offset⟩, htext, ?_, hlo⟩
  rw [hids, List.append_assoc, htokens]

theorem evaluateStop_spec (d : BaseDetokenizer δ) (offset : Nat) (hstop : ∀ s ∈ d.stop, s ≠ []) :
    SameConfig d (d.evaluateStop offset).2 ∧ (d.evaluateStop offset).2.tokenIds = d.tokenIds ∧
      ((d.evaluateStop offset).1 = none → (d.evaluateStop offset).2.outputText = d.outputText) ∧
      ∃ n, min offset d.outputText.length - d.stopBufferLength ≤ n ∧
        (d.evaluateStop offset).2.outputText = d.outputText.take n := by
  have hall : ∃ n, min offset d.outputText.length - d.stopBufferLength ≤ n ∧
      d.outputText = d.outputText.take n :=
    ⟨d.outputText.length, by omega, List.take_length.symm⟩
  unfold evaluateStop
  split
  · rename_i hsearch
    split
    · rename_i stopString truncateTo hcheck
      refine ⟨⟨rfl, rfl, rfl, rfl, rfl⟩, rfl, fun h => (by cases h), truncateTo, ?_, rfl⟩
      have hcut := checkStopStrings_keeps (Nat.sub_le _ _) hstop hcheck
      unfold stopBufferLength
      cases hinclude : d.includeStopStrInOutput with
      | true =>
        rw [hinclude, if_pos rfl] at hcut
        omega
      | false =>
        rw [hinclude, if_neg Bool.false_ne_true] at hcut
        rw [if_pos ⟨hsearch.1, rfl⟩]
        omega
    · exact ⟨SameConfig.refl d, rfl, fun _ => rfl, hall⟩
    · exact ⟨SameConfig.refl d, rfl, fun _ => rfl, hall⟩
  · exact ⟨SameConfig.refl d, rfl, fun _ => rfl, hall⟩

/-- An update appends the tokens, and keeps the text that was shown; without a
stop string it keeps all text. -/
theorem update_keeps_shown (d : BaseDetokenizer δ)
    (decodeNext : δ → List Token → Token → Text × δ) (hstop : ∀ s ∈ d.stop, s ≠ [])
    (newTokenIds : List Token) (stopTerminated : Bool) :
    SameConfig d (d.update decodeNext newTokenIds stopTerminated).2 ∧
      (d.update decodeNext newTokenIds stopTerminated).2.tokenIds = d.tokenIds ++ newTokenIds ∧
      d.outputText.take d.shownLength
        <+: (d.update decodeNext newTokenIds stopTerminated).2.outputText ∧
      ((d.update decodeNext newTokenIds stopTerminated).1 = none →
        d.outputText <+: (d.update decodeNext newTokenIds stopTerminated).2.outputText) := by
  unfold update
  by_cases hnil : newTokenIds = []
  · rw [if_pos hnil, hnil]
    exact ⟨SameConfig.refl d, (List.append_nil _).symm, List.take_prefix _ _, fun _ => List.prefix_refl _⟩
  · rw [if_neg hnil]
    dsimp only
    obtain ⟨text, hconfig, htext, hids, hlo⟩ := decodeTokens_spec d decodeNext newTokenIds
      stopTerminated hnil
    generalize d.decodeTokens decodeNext newTokenIds stopTerminated = r at hconfig htext hids hlo ⊢
    obtain ⟨hconfig', hids', hwhole, n, hn, hcut⟩ :=
      evaluateStop_spec r.1 r.2 (by rw [hconfig.stop]; exact hstop)
    refine ⟨⟨hconfig'.promptLen.trans hconfig.promptLen, hconfig'.stop.trans hconfig.stop,
      hconfig'.minTokens.trans hconfig.minTokens, hconfig'.include_.trans hconfig.include_,
      hconfig'.offset.trans hconfig.offset⟩, hids'.trans hids, ?_, ?_⟩
    · -- the cut is in the held-back part at the earliest
      rw [hcut, htext]
      refine take_prefix_take_append (Nat.sub_le _ _) ?_
      rw [htext, List.length_append, hconfig.stopBufferLength] at hn
      unfold shownLength
      omega
    · intro hnone
      rw [hwhole hnone, htext]
      exact List.prefix_append _ _

/-- The detokenizer with another offset. -/
def withOffset (d : BaseDetokenizer δ) (offset : Nat) : BaseDetokenizer δ :=
  { d with lastOutputTextOffset := offset }

theorem foldl_appendToken_withOffset (decodeNext : δ → List Token → Token → Text × δ)
    (offset : Nat) (newTokenIds : List Token) : ∀ (s : BaseDetokenizer δ × Nat),
      newTokenIds.foldl (appendToken decodeNext) (s.1.withOffset offset, s.2)
        = ((newTokenIds.foldl (appendToken decodeNext) s).1.withOffset offset,
          (newTokenIds.foldl (appendToken decodeNext) s).2) := by
  induction newTokenIds with
  | nil => intro s; rfl
  | cons t ts ih =>
    intro s
    rw [List.foldl_cons, List.foldl_cons, ← ih]
    rfl

theorem evaluateStop_withOffset (d : BaseDetokenizer δ) (offset stopCheckOffset : Nat) :
    (d.withOffset offset).evaluateStop stopCheckOffset
      = ((d.evaluateStop stopCheckOffset).1,
        (d.evaluateStop stopCheckOffset).2.withOffset offset) := by
  have hnum : (d.withOffset offset).numOutputTokens = d.numOutputTokens := rfl
  unfold evaluateStop
  rw [hnum]
  show (if d.stop ≠ [] ∧ d.minTokens < d.numOutputTokens then
      match checkStopStrings d.outputText (d.outputText.length - stopCheckOffset) d.stop
          d.includeStopStrInOutput with
      | some (stopString, some truncateTo) => _
      | some (stopString, none) => _
      | none => _
    else _) = _
  split
  · cases checkStopStrings d.outputText (d.outputText.length - stopCheckOffset) d.stop
      d.includeStopStrInOutput with
    | none => rfl
    | some found =>
      obtain ⟨stopString, truncateTo⟩ := found
      cases truncateTo with
      | none => rfl
      | some truncateTo => rfl
  · rfl

/-- An update that matches a stop string has new tokens. -/
theorem update_stop_spec (d : BaseDetokenizer δ)
    (decodeNext : δ → List Token → Token → Text × δ) (hstop : ∀ s ∈ d.stop, s ≠ [])
    {newTokenIds : List Token} {stopTerminated : Bool} {stopString : Text}
    (h : (d.update decodeNext newTokenIds stopTerminated).1 = some stopString) :
    stopString ≠ [] ∧ newTokenIds ≠ [] := by
  unfold update at h
  by_cases hnil : newTokenIds = []
  · rw [if_pos hnil] at h
    cases h
  · rw [if_neg hnil] at h
    dsimp only at h
    obtain ⟨_, hconfig, _, _, _⟩ := decodeTokens_spec d decodeNext newTokenIds stopTerminated hnil
    generalize d.decodeTokens decodeNext newTokenIds stopTerminated = r at hconfig h
    refine ⟨hstop stopString ?_, hnil⟩
    rw [← hconfig.stop]
    unfold evaluateStop at h
    split at h
    · split at h
      · rename_i hcheck
        cases h
        exact checkStopStrings_mem hcheck
      · rename_i hcheck
        cases h
        exact checkStopStrings_mem hcheck
      · cases h
    · cases h

/-- An update does not look at the offset. -/
theorem update_withOffset (d : BaseDetokenizer δ)
    (decodeNext : δ → List Token → Token → Text × δ) (offset : Nat) (newTokenIds : List Token)
    (stopTerminated : Bool) :
    (d.withOffset offset).update decodeNext newTokenIds stopTerminated
      = ((d.update decodeNext newTokenIds stopTerminated).1,
        (d.update decodeNext newTokenIds stopTerminated).2.withOffset offset) := by
  unfold update
  split
  · rfl
  · dsimp only
    have hdecode : (d.withOffset offset).decodeTokens decodeNext newTokenIds stopTerminated
        = ((d.decodeTokens decodeNext newTokenIds stopTerminated).1.withOffset offset,
          (d.decodeTokens decodeNext newTokenIds stopTerminated).2) := by
      unfold decodeTokens
      dsimp only
      have hfold := foldl_appendToken_withOffset decodeNext offset
        (if (stopTerminated && !d.includeStopStrInOutput) = true then newTokenIds.dropLast
          else newTokenIds) (d, d.outputText.length)
      dsimp only at hfold
      show (BaseDetokenizer.mk _ _ _ _ _ _ _ _, _) = _
      rw [show (d.withOffset offset).includeStopStrInOutput = d.includeStopStrInOutput from rfl,
        show (d.withOffset offset).outputText = d.outputText from rfl, hfold]
      rfl
    rw [hdecode]
    exact evaluateStop_withOffset _ _ _

end BaseDetokenizer

/-! ## The two kinds of detokenizer alike -/

namespace Detokenizer

/-- The text decoded so far. -/
def text : Detokenizer δ → Text
  | plain _ => []
  | incremental base => base.outputText

/-- How much of the text the outputs of an unfinished request show. -/
def shownLength : Detokenizer δ → Nat
  | plain _ => 0
  | incremental base => base.shownLength

/-- How much of the text the deltas have shown. -/
def offset : Detokenizer δ → Nat
  | plain _ => 0
  | incremental base => base.lastOutputTextOffset

/-- The prompt's tokens head the token ids, and no stop string is empty. -/
def WellFormed : Detokenizer δ → Prop
  | plain _ => True
  | incremental base => base.promptLen ≤ base.tokenIds.length ∧ ∀ s ∈ base.stop, s ≠ []

/-- The detokenizer before it has shown anything. -/
def reset : Detokenizer δ → Detokenizer δ
  | plain tokenIds => plain tokenIds
  | incremental base => incremental (base.withOffset 0)

theorem update_spec (d : Detokenizer δ) (decodeNext : δ → List Token → Token → Text × δ)
    (hd : d.WellFormed) (newTokenIds : List Token) (stopTerminated : Bool) :
    (d.update decodeNext newTokenIds stopTerminated).2.WellFormed ∧
      (d.update decodeNext newTokenIds stopTerminated).2.outputTokenIds
        = d.outputTokenIds ++ newTokenIds ∧
      (d.update decodeNext newTokenIds stopTerminated).2.offset = d.offset ∧
      d.text.take d.shownLength <+: (d.update decodeNext newTokenIds stopTerminated).2.text ∧
      ((d.update decodeNext newTokenIds stopTerminated).1 = none →
        d.shownLength ≤ (d.update decodeNext newTokenIds stopTerminated).2.shownLength) := by
  cases d with
  | plain tokenIds =>
    exact ⟨trivial, rfl, rfl, List.prefix_refl _, fun _ => Nat.le_refl _⟩
  | incremental base =>
    obtain ⟨hlen, hstop⟩ := hd
    obtain ⟨hconfig, htokens, hshown, hwhole⟩ :=
      base.update_keeps_shown decodeNext hstop newTokenIds stopTerminated
    show (_ ∧ _) ∧ List.drop _ _ = List.drop _ _ ++ _ ∧ _ ∧ _ ∧ _
    refine ⟨⟨?_, ?_⟩, ?_, hconfig.offset, hshown, ?_⟩
    · show (base.update decodeNext newTokenIds stopTerminated).2.promptLen
        ≤ (base.update decodeNext newTokenIds stopTerminated).2.tokenIds.length
      rw [hconfig.promptLen, htokens, List.length_append]
      omega
    · show ∀ s ∈ (base.update decodeNext newTokenIds stopTerminated).2.stop, s ≠ []
      rw [hconfig.stop]
      exact hstop
    · show List.drop (base.update decodeNext newTokenIds stopTerminated).2.promptLen
        (base.update decodeNext newTokenIds stopTerminated).2.tokenIds = _
      rw [hconfig.promptLen, htokens, List.drop_append_of_le_length hlen]
    · intro hnone
      have hgrow := (hwhole hnone).length_le
      show base.outputText.length - base.stopBufferLength
        ≤ (base.update decodeNext newTokenIds stopTerminated).2.outputText.length
          - (base.update decodeNext newTokenIds stopTerminated).2.stopBufferLength
      rw [hconfig.stopBufferLength]
      omega

theorem update_stop_spec (d : Detokenizer δ)
    (decodeNext : δ → List Token → Token → Text × δ) (hd : d.WellFormed)
    (newTokenIds : List Token) (stopTerminated : Bool) {stopString : Text}
    (h : (d.update decodeNext newTokenIds stopTerminated).1 = some stopString) :
    stopString ≠ [] ∧ newTokenIds ≠ [] := by
  cases d with
  | plain tokenIds => cases h
  | incremental base => exact base.update_stop_spec decodeNext hd.2 h

theorem update_reset (d : Detokenizer δ) (decodeNext : δ → List Token → Token → Text × δ)
    (newTokenIds : List Token) (stopTerminated : Bool) :
    d.reset.update decodeNext newTokenIds stopTerminated
      = ((d.update decodeNext newTokenIds stopTerminated).1,
        (d.update decodeNext newTokenIds stopTerminated).2.reset) := by
  cases d with
  | plain tokenIds => rfl
  | incremental base =>
    show (((base.withOffset 0).update decodeNext newTokenIds stopTerminated).1,
      incremental ((base.withOffset 0).update decodeNext newTokenIds stopTerminated).2) = _
    rw [base.update_withOffset]
    rfl

/-- How much of the text an output shows. -/
def lengthShown (d : Detokenizer δ) (finished : Bool) : Nat :=
  if finished then d.text.length else d.shownLength

theorem lengthShown_eq (base : BaseDetokenizer δ) (finished : Bool) :
    (incremental base).lengthShown finished
      = base.outputText.length - if finished = true then 0 else base.stopBufferLength := by
  cases finished with
  | true => rfl
  | false => rfl

/-- A delta shows what the earlier ones did not. -/
theorem getNextOutputText_delta (d : Detokenizer δ) (finished : Bool)
    (h : d.offset ≤ d.lengthShown finished) :
    d.text.take d.offset ++ (d.getNextOutputText finished true).1
        = d.text.take (d.lengthShown finished) ∧
      (d.getNextOutputText finished true).2.offset = d.lengthShown finished ∧
      (d.getNextOutputText finished true).2.reset = d.reset := by
  cases d with
  | plain tokenIds =>
    cases finished with
    | true => exact ⟨rfl, rfl, rfl⟩
    | false => exact ⟨rfl, rfl, rfl⟩
  | incremental base =>
    rw [lengthShown_eq] at h ⊢
    change base.lastOutputTextOffset ≤ _ at h
    generalize hlength : (base.outputText.length
      - if finished = true then 0 else base.stopBufferLength) = length at h ⊢
    show base.outputText.take base.lastOutputTextOffset ++ (base.getNextOutputText finished true).1
        = base.outputText.take length ∧
      (base.getNextOutputText finished true).2.lastOutputTextOffset = length ∧
      incremental ((base.getNextOutputText finished true).2.withOffset 0)
        = incremental (base.withOffset 0)
    unfold BaseDetokenizer.getNextOutputText
    dsimp only
    rw [hlength, if_pos rfl]
    by_cases hlt : base.lastOutputTextOffset < length
    · rw [if_pos hlt]
      refine ⟨?_, rfl, rfl⟩
      have htake : base.outputText.take base.lastOutputTextOffset
          = (base.outputText.take length).take base.lastOutputTextOffset := by
        rw [List.take_take, Nat.min_eq_left h]
      rw [htake]
      exact List.take_append_drop _ _
    · rw [if_neg hlt]
      have heq : base.lastOutputTextOffset = length := by omega
      exact ⟨by rw [heq, List.append_nil], heq, rfl⟩

/-- The other outputs show the text from the start. -/
theorem getNextOutputText_full (d : Detokenizer δ) (finished : Bool) :
    d.getNextOutputText finished false = (d.text.take (d.lengthShown finished), d) := by
  cases d with
  | plain tokenIds =>
    show ([], plain tokenIds) = (List.take _ [], plain tokenIds)
    rw [List.take_nil]
  | incremental base =>
    rw [lengthShown_eq]
    rfl

end Detokenizer

end VllmEngine.Engine
