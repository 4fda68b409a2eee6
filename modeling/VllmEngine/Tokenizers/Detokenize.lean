import VllmEngine.Engine.StopStrings
import VllmEngine.Lib.Utf8

/-!
# Decoding token by token

`detokenize_incrementally` (`vllm/tokenizers/detokenizer_utils.py`) and the slow
detokenizer that calls it (`vllm/v1/engine/detokenizer.py`). A call decodes the tokens
behind `prefix_offset`, and the ones between the offsets alone; the difference is the
new text.

Mirroring notes:
- The tokenizer is a parameter: its vocabulary, and how it turns tokens into text.
- The ids of a call come as those before the new one, and the new one.
- `convert_ids_to_tokens` is given lists, so it returns lists.
-/

namespace VllmEngine.Tokenizers

open Engine

/-- What is used of a tokenizer. -/
structure Tokenizer where
  isFast : Bool
  /-- `len(tokenizer)`. -/
  size : Nat
  /-- The token of an id; `None` for an id without one. -/
  idToToken : Token → Option Text
  isSpecialId : Token → Bool
  getAddedVocab : List Text
  allSpecialTokens : List Text
  convertTokensToString : List Text → Text

/-- `INITIAL_INCREMENTAL_DETOKENIZATION_OFFSET`. -/
def initialIncrementalDetokenizationOffset : Nat := 5

/-- `_replace_none_with_empty`. -/
def replaceNoneWithEmpty (tokens : List (Option Text)) : List Text := tokens.map (·.getD [])

/-- The loop of `_convert_tokens_to_string_with_added_encoders`: the texts so far, and
the tokens of the current one. -/
def addSubText (tk : Tokenizer) (skipSpecialTokens : Bool) (acc : List Text × List Text)
    (token : Text) : List Text × List Text :=
  if skipSpecialTokens ∧ token ∈ tk.allSpecialTokens then acc
  else if token ∈ tk.getAddedVocab then
    if acc.2 ≠ [] then (acc.1 ++ [tk.convertTokensToString acc.2] ++ [token], [])
    else (acc.1 ++ [token], acc.2)
  else (acc.1, acc.2 ++ [token])

/-- `_convert_tokens_to_string_with_added_encoders`. -/
def convertTokensToStringWithAddedEncoders (tk : Tokenizer) (outputTokens : List Text)
    (skipSpecialTokens spacesBetweenSpecialTokens : Bool) : Text :=
  let (subTexts, currentSubText) := outputTokens.foldl (addSubText tk skipSpecialTokens) ([], [])
  let subTexts :=
    if currentSubText ≠ [] then subTexts ++ [tk.convertTokensToString currentSubText]
    else subTexts
  if spacesBetweenSpecialTokens then [' '].intercalate subTexts else subTexts.flatten

namespace Tokenizer

variable (tk : Tokenizer)

/-- `convert_ids_to_tokens`. -/
def convertIdsToTokens (ids : List Token) (skipSpecialTokens : Bool) : List (Option Text) :=
  (if skipSpecialTokens then ids.filter fun i => !tk.isSpecialId i else ids).map tk.idToToken

/-- `convert_prompt_ids_to_tokens`: the tokens, `prefix_offset` and `read_offset`. -/
def convertPromptIdsToTokens (promptIds : List Token) (skipSpecialTokens : Bool) :
    List Text × Nat × Nat :=
  -- the last ids only
  let newTokens := tk.convertIdsToTokens
    (promptIds.drop (promptIds.length - (initialIncrementalDetokenizationOffset + 2)))
    skipSpecialTokens
  let readOffset := newTokens.length
  let prefixOffset := readOffset - initialIncrementalDetokenizationOffset
  (replaceNoneWithEmpty newTokens, prefixOffset, readOffset)

/-- The tokens of a new id. -/
def newTokens (newTokenId : Token) (skipSpecialTokens : Bool) : List Text :=
  if 0 ≤ newTokenId ∧ newTokenId < tk.size then
    replaceNoneWithEmpty (tk.convertIdsToTokens [newTokenId] skipSpecialTokens)
  else [[]]

/-- The text of a window of tokens. -/
def windowText (tokens : List Text) (skipSpecialTokens spacesBetweenSpecialTokens : Bool) : Text :=
  if tk.isFast ∨ tk.getAddedVocab = [] then tk.convertTokensToString tokens
  else convertTokensToStringWithAddedEncoders tk tokens skipSpecialTokens
    spacesBetweenSpecialTokens

/-- What a call returns. -/
structure Detokenized where
  newTokens : List Text
  newText : Text
  prefixOffset : Nat
  readOffset : Nat

/-- `detokenize_incrementally`. -/
def detokenizeIncrementally (inputIds : List Token) (newTokenId : Token)
    (prevTokens : Option (List Text)) (prefixOffset readOffset : Nat)
    (skipSpecialTokens spacesBetweenSpecialTokens : Bool) : Detokenized :=
  -- the first call converts the prompt
  let (prev, prefixOffset, readOffset) := match prevTokens with
    | none => tk.convertPromptIdsToTokens inputIds skipSpecialTokens
    | some prev => (prev, prefixOffset, readOffset)
  let newTokens := tk.newTokens newTokenId skipSpecialTokens
  let outputTokens := prev ++ newTokens
  let newTokens := if prevTokens.isNone then outputTokens else newTokens
  let prefixText := tk.windowText ((outputTokens.take readOffset).drop prefixOffset)
    skipSpecialTokens spacesBetweenSpecialTokens
  let newText := tk.windowText (outputTokens.drop prefixOffset) skipSpecialTokens
    spacesBetweenSpecialTokens
  if newText.length ≤ prefixText.length ∨ newText.getLast? = some (Char.ofNat 0xFFFD) then
    -- a potential unfinished byte sequence
    ⟨newTokens, [], prefixOffset, readOffset⟩
  else ⟨newTokens, newText.drop prefixText.length, readOffset, outputTokens.length⟩

end Tokenizer

/-! ## Successive calls -/

/-- What a caller keeps from one call to the next. -/
structure Offsets where
  prevTokens : Option (List Text)
  prefixOffset : Nat
  readOffset : Nat

namespace Offsets

variable (tk : Tokenizer) (skipSpecialTokens spacesBetweenSpecialTokens : Bool)

/-- One call: its text, and what is kept of it. -/
def call (t : Offsets) (inputIds : List Token) (newTokenId : Token) : Text × Offsets :=
  let r := tk.detokenizeIncrementally inputIds newTokenId t.prevTokens t.prefixOffset
    t.readOffset skipSpecialTokens spacesBetweenSpecialTokens
  (r.newText, ⟨some (t.prevTokens.getD [] ++ r.newTokens), r.prefixOffset, r.readOffset⟩)

/-- The calls for output ids, each with all ids before: their texts, and what is kept
of the last one. -/
def calls : Offsets → List Token → List Token → List Text × Offsets
  | t, _, [] => ([], t)
  | t, inputIds, newTokenId :: outputIds =>
    let first := call tk skipSpecialTokens spacesBetweenSpecialTokens t inputIds newTokenId
    let rest := calls first.2 (inputIds ++ [newTokenId]) outputIds
    (first.1 :: rest.1, rest.2)

/-- Before the first call: without tokens, or with those of the prompt, as
`SlowIncrementalDetokenizer.__init__` has them. -/
inductive Starts (promptIds : List Token) : Offsets → Prop
  | first (prefixOffset readOffset : Nat) : Starts promptIds ⟨none, prefixOffset, readOffset⟩
  | converted : Starts promptIds
      ⟨some (tk.convertPromptIdsToTokens promptIds skipSpecialTokens).1,
        (tk.convertPromptIdsToTokens promptIds skipSpecialTokens).2.1,
        (tk.convertPromptIdsToTokens promptIds skipSpecialTokens).2.2⟩

end Offsets

/-! ## The slow detokenizer -/

/-- `SlowIncrementalDetokenizer`, behind its base. -/
structure SlowDecoder where
  tokens : List Text
  prefixOffset : Nat
  readOffset : Nat

namespace SlowDecoder

variable (tk : Tokenizer) (skipSpecialTokens spacesBetweenSpecialTokens : Bool)

/-- `__init__`, with the ids of the prompt, or for embeddings with their number. -/
def init (promptTokenIds : Option (List Token)) (promptLen : Nat) : SlowDecoder :=
  match promptTokenIds with
  | some ids =>
    let (tokens, prefixOffset, readOffset) := tk.convertPromptIdsToTokens ids skipSpecialTokens
    ⟨tokens, prefixOffset, readOffset⟩
  | none => ⟨List.replicate promptLen [], 0, 0⟩

/-- `decode_next`; `tokenIds` ends with the new id. -/
def decodeNext (s : SlowDecoder) (tokenIds : List Token) (nextTokenId : Token) :
    Text × SlowDecoder :=
  let r := tk.detokenizeIncrementally tokenIds.dropLast nextTokenId (some s.tokens)
    s.prefixOffset s.readOffset skipSpecialTokens spacesBetweenSpecialTokens
  (r.newText, ⟨s.tokens ++ r.newTokens, r.prefixOffset, r.readOffset⟩)

end SlowDecoder

end VllmEngine.Tokenizers

/-!
## Incremental decoding is decoding

For a byte-level tokenizer, the text of some tokens is their bytes decoded as UTF-8 with
replacement. The texts of successive calls are then the decoding of what is behind the
prompt, up to the last place where nothing was left over (`Reading`). The decoder falls
back into step at the first character that starts in the window, so that it does not
matter where the window of the prompt begins.

> `Reading.call`: what a call does,
> `texts_eq_decode`: the texts at every step of a run,
> `outputText_decodeTokens`: the detokenizer appends them to its output.
-/

namespace VllmEngine.Tokenizers

open Engine

/-- A byte-level fast tokenizer: `bytes` are those of a token. -/
structure Tokenizer.ByteLevel (tk : Tokenizer) (bytes : Text → List UInt8) : Prop where
  fast : tk.isFast = true
  empty : bytes [] = []
  decodes : ∀ tokens, tk.convertTokensToString tokens = Utf8.decode (tokens.flatMap bytes)

/-- The bytes of an id: those of its token in the vocabulary, and none without a token or
when special ids are skipped and it is one. -/
def Tokenizer.tokenBytes (tk : Tokenizer) (bytes : Text → List UInt8) (skipSpecialTokens : Bool)
    (id : Token) : List UInt8 :=
  if skipSpecialTokens = true ∧ tk.isSpecialId id = true then []
  else
    match tk.idToToken id with
    | some token => bytes token
    | none => []

/-- The bytes of an output id; an id outside the vocabulary has none. -/
def Tokenizer.idBytes (tk : Tokenizer) (bytes : Text → List UInt8) (skipSpecialTokens : Bool)
    (id : Token) : List UInt8 :=
  if 0 ≤ id ∧ id < tk.size then tk.tokenBytes bytes skipSpecialTokens id else []

/-- The ids at the end of a prompt that are converted. -/
def windowIds (promptIds : List Token) : List Token :=
  promptIds.drop (promptIds.length - (initialIncrementalDetokenizationOffset + 2))

variable {tk : Tokenizer} {bytes : Text → List UInt8} {skip spaces : Bool}

/-- Converted ids have the bytes of their tokens. -/
theorem Tokenizer.ByteLevel.converted (h : tk.ByteLevel bytes) (ids : List Token) :
    (replaceNoneWithEmpty (tk.convertIdsToTokens ids skip)).flatMap bytes =
      ids.flatMap (tk.tokenBytes bytes skip) := by
  have hbytes : ∀ id, bytes ((tk.idToToken id).getD []) =
      match tk.idToToken id with
      | some token => bytes token
      | none => [] := by
    intro id
    cases tk.idToToken id with
    | none => exact h.empty
    | some token => rfl
  unfold replaceNoneWithEmpty Tokenizer.convertIdsToTokens Tokenizer.tokenBytes
  induction ids with
  | nil => cases skip <;> rfl
  | cons id ids ih =>
    cases skip with
    | false => simpa [hbytes] using ih
    | true => cases hspecial : tk.isSpecialId id <;> simpa [hspecial, hbytes] using ih

/-- The new tokens of a call have the bytes of the new id. -/
theorem Tokenizer.ByteLevel.newTokens (h : tk.ByteLevel bytes) (id : Token) :
    (tk.newTokens id skip).flatMap bytes = tk.idBytes bytes skip id := by
  unfold Tokenizer.newTokens Tokenizer.idBytes
  split
  · rw [h.converted, List.flatMap_singleton]
  · rw [List.flatMap_singleton, h.empty]

theorem Tokenizer.ByteLevel.windowText (h : tk.ByteLevel bytes) (tokens : List Text) :
    tk.windowText tokens skip spaces = Utf8.decode (tokens.flatMap bytes) := by
  unfold Tokenizer.windowText
  rw [if_pos (Or.inl h.fast), h.decodes]

/-! ## One call -/

/-- The offsets of some tokens, of which the part behind the prompt has the bytes
`output`, when `text` is returned: what is before `read_offset` is decoded and returned,
what is behind it is left over. -/
structure Reading (bytes : Text → List UInt8) (tokens : List Text) (prefixOffset readOffset : Nat)
    (output : List UInt8) (text : Text) : Prop where
  ordered : prefixOffset ≤ readOffset
  bounded : readOffset ≤ tokens.length
  window : Utf8.decoder.Aligned (((tokens.take readOffset).drop prefixOffset).flatMap bytes)
  returned : ∃ done, output = done ++ (tokens.drop readOffset).flatMap bytes ∧
    Utf8.decoder.Aligned done ∧ text = Utf8.decode done
  left : Utf8.decode ((tokens.drop readOffset).flatMap bytes) = [] ∨
    (Utf8.decode ((tokens.drop readOffset).flatMap bytes)).getLast? = some Utf8.replacement

variable {tokens : List Text} {prefixOffset readOffset : Nat} {output : List UInt8} {text : Text}

/-- Nothing of the prompt is returned. -/
theorem Reading.start (hwindow : Utf8.decoder.Aligned (tokens.flatMap bytes))
    (hordered : prefixOffset ≤ tokens.length) :
    Reading bytes tokens prefixOffset tokens.length [] [] where
  ordered := hordered
  bounded := Nat.le_refl _
  window := by
    rw [List.take_length]
    rw [← List.take_append_drop prefixOffset tokens, List.flatMap_append] at hwindow
    exact Utf8.synchronising.aligned_of_append hwindow
  returned := by
    refine ⟨[], ?_, Decoder.Aligned.nil, ?_⟩
    · rw [List.drop_length]
      rfl
    · exact Decoder.decode_nil.symm
  left := by
    left
    rw [List.drop_length]
    exact Decoder.decode_nil

/-- The two decodings of a call, and the text between them. -/
theorem Reading.window_append (h : Reading bytes tokens prefixOffset readOffset output text)
    (more : List Text) :
    ((tokens ++ more).take readOffset).drop prefixOffset =
      (tokens.take readOffset).drop prefixOffset ∧
    Utf8.decode (((tokens ++ more).drop prefixOffset).flatMap bytes) =
      Utf8.decode (((tokens.take readOffset).drop prefixOffset).flatMap bytes) ++
        Utf8.decode (((tokens ++ more).drop readOffset).flatMap bytes) := by
  have htake : (tokens ++ more).take readOffset = tokens.take readOffset :=
    List.take_append_of_le_length h.bounded
  have hsplit : (tokens ++ more).drop prefixOffset =
      (tokens.take readOffset).drop prefixOffset ++ (tokens ++ more).drop readOffset := by
    have hlen : prefixOffset ≤ (tokens.take readOffset).length := by
      rw [List.length_take]
      exact Nat.le_min.mpr ⟨h.ordered, Nat.le_trans h.ordered h.bounded⟩
    rw [← List.drop_append_of_le_length hlen, ← htake, List.take_append_drop]
  refine ⟨by rw [htake], ?_⟩
  rw [hsplit, List.flatMap_append]
  exact Decoder.decode_append h.window _

/-- What a call does. -/
theorem Reading.call (hbyte : tk.ByteLevel bytes)
    (h : Reading bytes tokens prefixOffset readOffset output text) (skip spaces : Bool)
    (inputIds : List Token) (id : Token) : ∃ r, tk.detokenizeIncrementally inputIds id (some tokens) prefixOffset
        readOffset skip spaces = r ∧ r.newTokens = tk.newTokens id skip ∧
      Reading bytes (tokens ++ tk.newTokens id skip) r.prefixOffset r.readOffset
        (output ++ tk.idBytes bytes skip id) (text ++ r.newText) := by
  obtain ⟨htake, hdecode⟩ := h.window_append (tk.newTokens id skip)
  obtain ⟨done, houtput, haligned, htext⟩ := h.returned
  have hdrop : (tokens ++ tk.newTokens id skip).drop readOffset =
      tokens.drop readOffset ++ tk.newTokens id skip := List.drop_append_of_le_length h.bounded
  have hnext : output ++ tk.idBytes bytes skip id =
      done ++ ((tokens ++ tk.newTokens id skip).drop readOffset).flatMap bytes := by
    rw [hdrop, List.flatMap_append, hbyte.newTokens, houtput, List.append_assoc]
  refine ⟨_, rfl, ?_⟩
  unfold Tokenizer.detokenizeIncrementally
  dsimp only
  rw [hbyte.windowText, hbyte.windowText, htake, hdecode, List.length_append]
  -- the new text is what the tokens behind `read_offset` decode to
  generalize hpending : Utf8.decode (((tokens ++ tk.newTokens id skip).drop readOffset).flatMap
    bytes) = pending
  have hlast : pending ≠ [] → (Utf8.decode (((tokens.take readOffset).drop prefixOffset).flatMap
      bytes) ++ pending).getLast? = pending.getLast? := by
    intro hne
    rw [List.getLast?_append, List.getLast?_eq_some_getLast hne]
    rfl
  have hempty : ∀ n, n + pending.length ≤ n ↔ pending = [] := by
    intro n
    rw [← List.length_eq_zero_iff]
    omega
  split
  next hheld =>
    rw [hempty] at hheld
    refine ⟨rfl, h.ordered, ?_, ?_, ?_, ?_⟩
    · rw [List.length_append]
      exact Nat.le_trans h.bounded (Nat.le_add_right _ _)
    · rw [htake]
      exact h.window
    · rw [List.append_nil]
      exact ⟨done, hnext, haligned, htext⟩
    · rw [hpending]
      by_cases hne : pending = []
      · exact Or.inl hne
      · right
        rw [← hlast hne]
        exact hheld.resolve_left hne
  next hshown =>
    rw [hempty, not_or] at hshown
    -- nothing is left over behind the new tokens
    have hall : Utf8.decoder.Aligned
        (((tokens ++ tk.newTokens id skip).drop readOffset).flatMap bytes) := by
      apply Utf8.marking.aligned
      show (Utf8.decode _).getLast? ≠ _
      rw [hpending, ← hlast hshown.1]
      exact hshown.2
    refine ⟨rfl, ?_, Nat.le_refl _, ?_, ?_, ?_⟩
    · rw [List.length_append]
      exact Nat.le_trans h.bounded (Nat.le_add_right _ _)
    · rw [List.take_length]
      exact hall
    · refine ⟨_, ?_, haligned.append hall, ?_⟩
      · rw [List.drop_length, List.flatMap_nil, List.append_nil]
        exact hnext
      · rw [List.drop_left, htext, ← hpending]
        exact (Decoder.decode_append haligned _).symm
    · left
      rw [List.drop_length]
      exact Decoder.decode_nil

/-- What has been returned, against the decoding of all output bytes. -/
structure Shown (output : List UInt8) (text : Text) : Prop where
  isPrefix : text <+: Utf8.decode output
  all : (Utf8.decode output).getLast? ≠ some Utf8.replacement → text = Utf8.decode output

theorem Reading.shown (h : Reading bytes tokens prefixOffset readOffset output text) :
    Shown output text := by
  obtain ⟨done, houtput, haligned, htext⟩ := h.returned
  have hdecode : Utf8.decode output =
      text ++ Utf8.decode ((tokens.drop readOffset).flatMap bytes) := by
    rw [houtput, htext]
    exact Decoder.decode_append haligned _
  constructor
  case isPrefix =>
    rw [hdecode]
    exact List.prefix_append _ _
  case all =>
    intro hend
    rw [hdecode] at hend ⊢
    rcases h.left with hnil | hmark
    · rw [hnil, List.append_nil]
    · exfalso
      apply hend
      rw [List.getLast?_append, hmark]
      rfl

/-! ## All calls -/

/-- The window of the prompt ends where a character ends when the prompt does; it does not
matter where it begins. -/
theorem aligned_window {promptIds : List Token}
    (h : Utf8.decoder.Aligned (promptIds.flatMap (tk.tokenBytes bytes skip))) :
    Utf8.decoder.Aligned ((windowIds promptIds).flatMap (tk.tokenBytes bytes skip)) := by
  unfold windowIds
  generalize promptIds.length - (initialIncrementalDetokenizationOffset + 2) = n
  rw [← List.take_append_drop n promptIds, List.flatMap_append] at h
  exact Utf8.synchronising.aligned_of_append h

/-- The offsets of the prompt. -/
theorem Reading.converted (hbyte : tk.ByteLevel bytes) {promptIds : List Token}
    (hprompt : Utf8.decoder.Aligned ((windowIds promptIds).flatMap (tk.tokenBytes bytes skip))) :
    Reading bytes (tk.convertPromptIdsToTokens promptIds skip).1
      (tk.convertPromptIdsToTokens promptIds skip).2.1
      (tk.convertPromptIdsToTokens promptIds skip).2.2 [] [] := by
  have hread : (tk.convertPromptIdsToTokens promptIds skip).2.2 =
      (tk.convertPromptIdsToTokens promptIds skip).1.length := by
    unfold Tokenizer.convertPromptIdsToTokens replaceNoneWithEmpty
    dsimp only
    rw [List.length_map]
  have hwindow : Utf8.decoder.Aligned ((tk.convertPromptIdsToTokens promptIds skip).1.flatMap bytes) := by
    rw [← hbyte.converted] at hprompt
    exact hprompt
  rw [hread]
  apply Reading.start hwindow
  rw [← hread]
  exact Nat.sub_le _ _

/-- A first call does what one with the tokens of the prompt does. -/
theorem call_first (promptIds : List Token) (id : Token) (prefixOffset readOffset : Nat) :
    Offsets.call tk skip spaces ⟨none, prefixOffset, readOffset⟩ promptIds id =
      Offsets.call tk skip spaces ⟨some (tk.convertPromptIdsToTokens promptIds skip).1,
        (tk.convertPromptIdsToTokens promptIds skip).2.1,
        (tk.convertPromptIdsToTokens promptIds skip).2.2⟩ promptIds id := by
  unfold Offsets.call Tokenizer.detokenizeIncrementally
  dsimp only
  split
  next => rfl
  next => rfl

namespace Offsets

/-- The calls for more ids come after those for the first ones. -/
theorem calls_append (first second : List Token) : ∀ (t : Offsets) (inputIds : List Token),
    calls tk skip spaces t inputIds (first ++ second) =
      ((calls tk skip spaces t inputIds first).1 ++
          (calls tk skip spaces (calls tk skip spaces t inputIds first).2 (inputIds ++ first)
            second).1,
        (calls tk skip spaces (calls tk skip spaces t inputIds first).2 (inputIds ++ first)
          second).2) := by
  induction first with
  | nil =>
    intro t inputIds
    rw [List.append_nil]
    rfl
  | cons id first ih =>
    intro t inputIds
    have hids : inputIds ++ id :: first = inputIds ++ [id] ++ first := by
      rw [List.append_assoc]
      rfl
    show (_ :: (calls tk skip spaces _ (inputIds ++ [id]) (first ++ second)).1,
      (calls tk skip spaces _ (inputIds ++ [id]) (first ++ second)).2) = _
    rw [ih, hids]
    rfl

/-- The tokens that are kept, and what was returned. -/
def Reads (bytes : Text → List UInt8) (t : Offsets) (output : List UInt8) (text : Text) : Prop :=
  ∃ tokens, t.prevTokens = some tokens ∧
    Reading bytes tokens t.prefixOffset t.readOffset output text

theorem Reads.call (hbyte : tk.ByteLevel bytes) {t : Offsets}
    (h : t.Reads bytes output text) (skip spaces : Bool) (inputIds : List Token) (id : Token) :
    (call tk skip spaces t inputIds id).2.Reads bytes (output ++ tk.idBytes bytes skip id)
      (text ++ (call tk skip spaces t inputIds id).1) := by
  obtain ⟨tokens, htokens, hreading⟩ := h
  obtain ⟨r, hr, hnew, hnext⟩ := hreading.call hbyte skip spaces inputIds id
  unfold Offsets.call
  dsimp only
  rw [htokens, hr]
  refine ⟨_, rfl, ?_⟩
  rw [Option.getD_some, hnew]
  exact hnext

/-- What all calls do. -/
theorem Reads.calls (hbyte : tk.ByteLevel bytes) (skip spaces : Bool) (outputIds : List Token) :
    ∀ {t : Offsets} {output : List UInt8} {text : Text} (inputIds : List Token),
      t.Reads bytes output text →
      (calls tk skip spaces t inputIds outputIds).2.Reads bytes
        (output ++ outputIds.flatMap (tk.idBytes bytes skip))
        (text ++ (calls tk skip spaces t inputIds outputIds).1.flatten) := by
  induction outputIds with
  | nil =>
    intro t output text inputIds h
    rw [List.flatMap_nil, List.append_nil]
    show t.Reads bytes output (text ++ [])
    rwa [List.append_nil]
  | cons id outputIds ih =>
    intro t output text inputIds h
    have hnext := ih (inputIds ++ [id]) (h.call hbyte skip spaces inputIds id)
    rw [List.append_assoc, List.append_assoc] at hnext
    exact hnext

end Offsets

/-- At every step of a run, the concatenation of the returned texts is a prefix of the
decoding of all output bytes so far, and the whole of it unless it ends in the
replacement character; the offsets are in order. -/
theorem texts_eq_decode (hbyte : tk.ByteLevel bytes) {promptIds : List Token}
    (hprompt : Utf8.decoder.Aligned ((windowIds promptIds).flatMap (tk.tokenBytes bytes skip)))
    {t : Offsets}
    (ht : Offsets.Starts tk skip promptIds t) (before after : List Token) :
    (t.calls tk skip spaces promptIds before).1 <+:
        (t.calls tk skip spaces promptIds (before ++ after)).1 ∧
      Shown (before.flatMap (tk.idBytes bytes skip))
        (t.calls tk skip spaces promptIds before).1.flatten ∧
      (before ≠ [] → ∃ tokens, (t.calls tk skip spaces promptIds before).2.prevTokens =
          some tokens ∧
        (t.calls tk skip spaces promptIds before).2.prefixOffset ≤
          (t.calls tk skip spaces promptIds before).2.readOffset ∧
        (t.calls tk skip spaces promptIds before).2.readOffset ≤ tokens.length) := by
  refine ⟨?_, ?_⟩
  · rw [Offsets.calls_append]
    exact List.prefix_append _ _
  · have hstart : Offsets.Reads bytes ⟨some (tk.convertPromptIdsToTokens promptIds skip).1,
        (tk.convertPromptIdsToTokens promptIds skip).2.1,
        (tk.convertPromptIdsToTokens promptIds skip).2.2⟩ [] [] :=
      ⟨_, rfl, Reading.converted hbyte hprompt⟩
    cases before with
    | nil => exact ⟨⟨List.nil_prefix, fun _ => Decoder.decode_nil.symm⟩, fun hne => absurd rfl hne⟩
    | cons id rest =>
      -- the first call converts the prompt when nobody else has
      have hfirst : t.calls tk skip spaces promptIds (id :: rest) =
          Offsets.calls tk skip spaces ⟨some (tk.convertPromptIdsToTokens promptIds skip).1,
            (tk.convertPromptIdsToTokens promptIds skip).2.1,
            (tk.convertPromptIdsToTokens promptIds skip).2.2⟩ promptIds (id :: rest) := by
        cases ht with
        | first prefixOffset readOffset =>
          unfold Offsets.calls
          rw [call_first]
        | converted => rfl
      obtain ⟨tokens, htokens, hreading⟩ :=
        hstart.calls hbyte skip spaces (id :: rest) promptIds
      rw [List.nil_append, List.nil_append] at hreading
      rw [hfirst]
      exact ⟨hreading.shown, fun _ => ⟨tokens, htokens, hreading.ordered, hreading.bounded⟩⟩

/-- The bytes of a token whose characters stand for a byte each. -/
def latinBytes (token : Text) : List UInt8 := token.map fun c => UInt8.ofNat c.toNat

/-- The tokens `a`, and the two bytes of `é` as one token each. -/
def latinTokenizer : Tokenizer where
  isFast := true
  size := 3
  idToToken := fun i => if i = 0 then some ['a'] else if i = 1 then some ['Ã'] else some ['©']
  isSpecialId := fun _ => false
  getAddedVocab := []
  allSpecialTokens := []
  convertTokensToString := fun tokens => Utf8.decode (tokens.flatMap latinBytes)

/-- Half a character is held back until its second byte; an id outside the vocabulary shows
nothing. -/
theorem split_character_shown :
    let t : Offsets := ⟨none, 0, 0⟩
    (t.calls latinTokenizer true true [0] [1, 2, 7, 0]).1 = [[], ['é'], [], ['a']] ∧
      [1, 2, 7, 0].flatMap (latinTokenizer.idBytes latinBytes true) = [0xC3, 0xA9, 0x61] ∧
      (t.calls latinTokenizer true true [0] [1, 2]).1 <+:
        (t.calls latinTokenizer true true [0] ([1, 2] ++ [7, 0])).1 ∧
      Shown ([1, 2].flatMap (latinTokenizer.idBytes latinBytes true))
        (t.calls latinTokenizer true true [0] [1, 2]).1.flatten ∧
      ([1, 2] ≠ ([] : List Token) → ∃ tokens,
        (t.calls latinTokenizer true true [0] [1, 2]).2.prevTokens = some tokens ∧
        (t.calls latinTokenizer true true [0] [1, 2]).2.prefixOffset ≤
          (t.calls latinTokenizer true true [0] [1, 2]).2.readOffset ∧
        (t.calls latinTokenizer true true [0] [1, 2]).2.readOffset ≤ tokens.length) := by
  have hbyte : latinTokenizer.ByteLevel latinBytes := ⟨rfl, rfl, fun _ => rfl⟩
  have hprompt : Utf8.decoder.Aligned
      ((windowIds [0]).flatMap (latinTokenizer.tokenBytes latinBytes true)) := rfl
  exact ⟨rfl, rfl, texts_eq_decode hbyte hprompt (.first 0 0) [1, 2] [7, 0]⟩

/-! ## The detokenizer -/

namespace SlowDecoder

variable (tk skip spaces)

/-- What the decoder keeps, as what a caller keeps. -/
def offsets (s : SlowDecoder) : Offsets := ⟨some s.tokens, s.prefixOffset, s.readOffset⟩

theorem decodeNext_eq (s : SlowDecoder) (inputIds : List Token) (id : Token) :
    (s.decodeNext tk skip spaces (inputIds ++ [id]) id).1 =
        (s.offsets.call tk skip spaces inputIds id).1 ∧
      (s.decodeNext tk skip spaces (inputIds ++ [id]) id).2.offsets =
        (s.offsets.call tk skip spaces inputIds id).2 := by
  unfold decodeNext
  rw [List.dropLast_concat]
  exact ⟨rfl, rfl⟩

/-- The loop of `update` calls the decoder for one id after the other. -/
theorem foldl_appendToken (ids : List Token) : ∀ (d : BaseDetokenizer SlowDecoder) (n : Nat),
    (ids.foldl (BaseDetokenizer.appendToken (decodeNext tk skip spaces)) (d, n)).1.outputText =
        d.outputText ++ (d.decoder.offsets.calls tk skip spaces d.tokenIds ids).1.flatten ∧
      (ids.foldl (BaseDetokenizer.appendToken (decodeNext tk skip spaces))
          (d, n)).1.decoder.offsets =
        (d.decoder.offsets.calls tk skip spaces d.tokenIds ids).2 := by
  induction ids with
  | nil =>
    intro d n
    exact ⟨(List.append_nil _).symm, rfl⟩
  | cons id ids ih =>
    intro d n
    obtain ⟨htext, hoffsets⟩ := decodeNext_eq tk skip spaces d.decoder d.tokenIds id
    rw [List.foldl_cons]
    generalize hfirst : BaseDetokenizer.appendToken (decodeNext tk skip spaces) (d, n) id = next
    obtain ⟨d', n'⟩ := next
    have hd : d' = (BaseDetokenizer.appendToken (decodeNext tk skip spaces) (d, n) id).1 := by
      rw [hfirst]
    have hids : d'.tokenIds = d.tokenIds ++ [id] := by
      rw [hd]
      rfl
    have houtput : d'.outputText =
        d.outputText ++ (d.decoder.offsets.call tk skip spaces d.tokenIds id).1 := by
      rw [hd, ← htext]
      rfl
    have hdecoder : d'.decoder.offsets =
        (d.decoder.offsets.call tk skip spaces d.tokenIds id).2 := by
      rw [hd, ← hoffsets]
      rfl
    obtain ⟨hrest, hlast⟩ := ih d' n'
    rw [hdecoder, hids] at hrest hlast
    refine ⟨?_, hlast⟩
    rw [hrest, houtput, List.append_assoc]
    rfl

end SlowDecoder

/-- A request's calls of its detokenizer. -/
inductive TextOp
  | update (newTokenIds : List Token) (stopTerminated : Bool)
  /-- `get_next_output_text`, for a delta. -/
  | nextText (finished : Bool)

/-- A detokenizer, the ids it has decoded, and the deltas so far. -/
structure ServedText where
  detokenizer : BaseDetokenizer SlowDecoder
  decoded : List Token
  shown : Text

namespace ServedText

variable (tk skip spaces)

/-- `SlowIncrementalDetokenizer.__init__` for the ids of a prompt. -/
def start (promptIds : List Token) (stop : List Text) (minTokens : Nat) (includeStopStrInOutput : Bool) :
    ServedText where
  detokenizer :=
    { promptLen := promptIds.length, stop, minTokens, includeStopStrInOutput, tokenIds := promptIds
      lastOutputTextOffset := 0, outputText := []
      decoder := SlowDecoder.init tk skip (some promptIds) promptIds.length }
  decoded := []
  shown := []

/-- A matched stop string ends the run. -/
def step (t : ServedText) : TextOp → Except Text ServedText
  | .update newTokenIds stopTerminated =>
    match t.detokenizer.update (SlowDecoder.decodeNext tk skip spaces) newTokenIds stopTerminated with
    | (some stopString, _) => .error stopString
    | (none, detokenizer) =>
      let hidden := stopTerminated && !t.detokenizer.includeStopStrInOutput
      .ok { t with detokenizer, decoded := t.decoded ++ if hidden then newTokenIds.dropLast else newTokenIds }
  | .nextText finished =>
    let (text, detokenizer) := t.detokenizer.getNextOutputText finished true
    .ok { t with detokenizer, shown := t.shown ++ text }

variable {tk skip spaces}

structure Inv (tk : Tokenizer) (bytes : Text → List UInt8) (skip : Bool) (t : ServedText) : Prop where
  reads : t.detokenizer.decoder.offsets.Reads bytes (t.decoded.flatMap (tk.idBytes bytes skip))
    t.detokenizer.outputText
  shown : t.shown = t.detokenizer.outputText.take t.detokenizer.lastOutputTextOffset
  bounded : t.detokenizer.lastOutputTextOffset ≤ t.detokenizer.outputText.length

theorem Inv.update (hbyte : tk.ByteLevel bytes) {t t' : ServedText} (h : t.Inv tk bytes skip)
    {newTokenIds : List Token} {stopTerminated : Bool}
    (hstep : t.step tk skip spaces (.update newTokenIds stopTerminated) = .ok t') : t'.Inv tk bytes skip := by
  unfold step at hstep
  dsimp only at hstep
  split at hstep
  next => cases hstep
  next d hupdate =>
    cases hstep
    unfold BaseDetokenizer.update at hupdate
    split at hupdate
    next hnil =>
      cases hupdate
      rw [hnil]
      constructor
      case reads => simpa using h.reads
      case shown => exact h.shown
      case bounded => exact h.bounded
    next hne =>
      have hd : d = (t.detokenizer.decodeTokens (SlowDecoder.decodeNext tk skip spaces) newTokenIds
          stopTerminated).1 := by
        rw [← BaseDetokenizer.evaluateStop_of_none _ (congrArg Prod.fst hupdate), hupdate]
      obtain ⟨more, hconfig, hmore, -, -⟩ := t.detokenizer.decodeTokens_spec
        (SlowDecoder.decodeNext tk skip spaces) newTokenIds stopTerminated hne
      rw [← hd] at hconfig hmore
      constructor
      case reads =>
        obtain ⟨htext, hoffsets⟩ := SlowDecoder.foldl_appendToken tk skip spaces
          (if stopTerminated && !t.detokenizer.includeStopStrInOutput then newTokenIds.dropLast else newTokenIds)
          t.detokenizer t.detokenizer.outputText.length
        have hreads := h.reads.calls hbyte skip spaces (if stopTerminated &&
          !t.detokenizer.includeStopStrInOutput then newTokenIds.dropLast else newTokenIds) t.detokenizer.tokenIds
        rw [← List.flatMap_append, ← htext, ← hoffsets] at hreads
        rw [hd]
        exact hreads
      case shown =>
        dsimp only
        rw [hmore, hconfig.offset, List.take_append_of_le_length h.bounded]
        exact h.shown
      case bounded =>
        dsimp only
        rw [hmore, hconfig.offset, List.length_append]
        exact Nat.le_add_right_of_le h.bounded

theorem Inv.nextText {t t' : ServedText} (h : t.Inv tk bytes skip) {finished : Bool}
    (hstep : t.step tk skip spaces (.nextText finished) = .ok t') :
    t'.Inv tk bytes skip ∧ t'.detokenizer.outputText = t.detokenizer.outputText ∧
      (finished = true → t'.shown = t'.detokenizer.outputText) := by
  generalize hget : t.detokenizer.getNextOutputText finished true = r
  have ht' : t' = { t with detokenizer := r.2, shown := t.shown ++ r.1 } := by
    rw [← hget]
    exact (Except.ok.inj hstep).symm
  rw [ht', ← hget]
  unfold BaseDetokenizer.getNextOutputText
  dsimp only
  generalize hlength : t.detokenizer.outputText.length - (if finished then 0 else t.detokenizer.stopBufferLength)
    = length
  rw [if_pos rfl]
  have hall : finished = true → length = t.detokenizer.outputText.length := by
    rintro rfl
    exact hlength.symm
  split
  next hmore =>
    have hshown : t.shown ++ (t.detokenizer.outputText.take length).drop t.detokenizer.lastOutputTextOffset
        = t.detokenizer.outputText.take length := by
      have hold := List.take_take (l := t.detokenizer.outputText) (i := t.detokenizer.lastOutputTextOffset)
        (j := length)
      rw [Nat.min_eq_left (Nat.le_of_lt hmore)] at hold
      rw [h.shown, ← hold, List.take_append_drop]
    refine ⟨⟨h.reads, hshown, ?_⟩, rfl, fun hfinished => ?_⟩
    · dsimp only
      omega
    · dsimp only
      rw [hshown, hall hfinished, List.take_length]
  next hnone =>
    refine ⟨⟨h.reads, ?_, h.bounded⟩, rfl, fun hfinished => ?_⟩
    · dsimp only
      rw [List.append_nil]
      exact h.shown
    · have hoffset : t.detokenizer.outputText.length ≤ t.detokenizer.lastOutputTextOffset := by
        rw [← hall hfinished]
        exact Nat.le_of_not_lt hnone
      dsimp only
      rw [List.append_nil, h.shown, List.take_of_length_le hoffset]

/-- **Text end to end.** After any calls, the deltas are a beginning of the output text, which is the decoding
of the decoded ids, but for an unfinished character; the last delta of a finished request completes it. -/
theorem outputText_decodeTokens (hbyte : tk.ByteLevel bytes) {promptIds : List Token}
    (hprompt : Utf8.decoder.Aligned (promptIds.flatMap (tk.tokenBytes bytes skip)))
    {stop : List Text} {minTokens : Nat} {includeStopStrInOutput : Bool} {ops : List TextOp} {t : ServedText}
    (hrun : Run.exec (step tk skip spaces) (start tk skip promptIds stop minTokens includeStopStrInOutput) ops
      = .ok t) :
    Shown (t.decoded.flatMap (tk.idBytes bytes skip)) t.detokenizer.outputText ∧
      t.shown <+: t.detokenizer.outputText ∧
      ∀ t', t.step tk skip spaces (.nextText true) = .ok t' → t'.shown = t.detokenizer.outputText := by
  have hstart : (start tk skip promptIds stop minTokens includeStopStrInOutput).Inv tk bytes skip :=
    ⟨⟨_, rfl, Reading.converted hbyte (aligned_window hprompt)⟩, rfl, Nat.le_refl 0⟩
  have hinv : t.Inv tk bytes skip := by
    refine Run.exec_inv (fun s op s' hs _ hstep => ?_) ops _ t hstart
      (Run.Guarded.of_forall (fun _ _ => trivial) ops _) hrun
    cases op with
    | update newTokenIds stopTerminated => exact hs.update hbyte hstep
    | nextText finished => exact (hs.nextText hstep).1
  obtain ⟨tokens, -, hreading⟩ := hinv.reads
  refine ⟨hreading.shown, ?_, fun t' hstep => ?_⟩
  · rw [hinv.shown]
    exact List.take_prefix _ _
  · obtain ⟨-, htext, hall⟩ := hinv.nextText hstep
    rw [← htext]
    exact hall rfl

/-- The second half of a character comes with an update of its own; the last id is a stop token. -/
theorem split_character_served :
    let run := Run.exec (step latinTokenizer true true) (start latinTokenizer true [0] [['x']] 0 false)
      [.update [0, 1] false, .nextText false, .update [2, 0] true, .nextText true]
    run.map (fun t => (t.decoded, t.shown)) = .ok ([0, 1, 2], ['a', 'é']) ∧ ∃ t, run = .ok t ∧
      Shown (t.decoded.flatMap (latinTokenizer.idBytes latinBytes true)) t.detokenizer.outputText := by
  have hbyte : latinTokenizer.ByteLevel latinBytes := ⟨rfl, rfl, fun _ => rfl⟩
  have hprompt : Utf8.decoder.Aligned
      (([0] : List Token).flatMap (latinTokenizer.tokenBytes latinBytes true)) := rfl
  refine ⟨rfl, ?_⟩
  obtain ⟨t, hrun⟩ : ∃ t, Run.exec (step latinTokenizer true true)
      (start latinTokenizer true [0] [['x']] 0 false)
      [.update [0, 1] false, .nextText false, .update [2, 0] true, .nextText true] = .ok t := ⟨_, rfl⟩
  exact ⟨t, hrun, (outputText_decodeTokens hbyte hprompt hrun).1⟩

end ServedText

end VllmEngine.Tokenizers
