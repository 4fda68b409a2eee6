import VllmEngine.Engine.OutputProcessor

/-!
# Streamed deltas and the final answer

One generating request, as the front-end follows it from the engine core's outputs
and an abort. Three states of one request that differ in their output kind only see
the same text and tokens (`View`); they differ in the cursors of what was sent.

The deltas add up to the final answer, and no cumulative text is taken back, unless
an output without tokens is made of a request that has logprobs: the slice
`logprobs[-0:]` sends all of them again (`Stream.repeats`).

> `step_joint`: one input, for the three kinds together,
> `deltas_add_up`: every sequence of inputs.
-/

namespace VllmEngine.Engine

open Python

variable {δ P R X F K D : Type}

/-- What happens to a request: an output of the engine core, or an abort. -/
inductive StreamInput (R X K D : Type)
  | output (output : EngineCoreOutput R X K D)
  | abort

namespace StreamInput

def newTokenIds : StreamInput R X K D → List Token
  | output o => o.newTokenIds
  | abort => []

def newLogprobs : StreamInput R X K D → Option (List R)
  | output o => o.newLogprobs
  | abort => none

def routedExperts : StreamInput R X K D → Option X
  | output o => o.routedExperts
  | abort => none

/-- Whether the engine core or an abort finishes the request. -/
def finishes : StreamInput R X K D → Bool
  | output o => o.finishReason.isSome
  | abort => true

/-- The output of a request that generates. -/
def Generates : StreamInput R X K D → Prop
  | output o => o.poolingOutput = none
  | abort => True

end StreamInput

/-- A request, while the front-end has it, and the completions sent for it. -/
structure Stream (δ P X F : Type) where
  state : Option (RequestState δ P F)
  emitted : List (CompletionOutput P X F)

namespace Stream

/-- The part of `process_outputs` and of `abort_requests` that follows step 3. -/
def send (emitted : List (CompletionOutput P X F)) (newTokenIds : List Token)
    (reasons : Option FinishReason × Option StopReason) (routedExperts : Option X)
    (r : RequestState δ P F) : Except Error (Stream δ P X F) := do
  let (completion, r) ← r.nextCompletion newTokenIds reasons.1 reasons.2 routedExperts
  return {
    state := if reasons.1.isSome then none else some r
    emitted := emitted ++ completion.toList }

/-- `process_outputs` and `abort_requests`, for one request. -/
def step (codec : Codec δ P R F) (s : Stream δ P X F) (input : StreamInput R X K D) :
    Except Error (Stream δ P X F) :=
  match s.state with
  | none => .ok s
  | some r =>
    match input with
    | .output o => do
      let (reasons, r) ← r.absorb codec o
      send s.emitted o.newTokenIds reasons o.routedExperts r
    | .abort => send s.emitted [] (some .abort, none) none r

/-- A request that nothing was sent for, with an output kind. -/
def start (r : RequestState δ P F) (kind : OutputKind) : Stream δ P X F :=
  ⟨some { r with outputKind := kind }, []⟩

/-- An output without tokens is made of a request that has logprobs. -/
def repeats (s : Stream δ P X F) (input : StreamInput R X K D) : Bool :=
  match s.state with
  | none => false
  | some r =>
    input.newTokenIds.isEmpty &&
      (decide (r.streamInterval ≤ 1) ||
        input.finishes && decide ((r.detokenizer.map (·.numOutputTokens)) = some r.sentTokensOffset)) &&
      !((r.logprobsProcessor.bind (·.logprobs)).getD []).isEmpty

end Stream

/-- The concatenated logprobs of completions. -/
def sentLogprobs (cs : List (CompletionOutput P X F)) : List P := cs.flatMap fun c => c.logprobs.getD []

/-- The deltas add up to the final completion, and every cumulative text is a prefix
of the final one. -/
structure AddsUp (deltas cumulatives : List (CompletionOutput P X F))
    (final : CompletionOutput P X F) : Prop where
  text : deltas.flatMap (·.text) = final.text
  tokenIds : deltas.flatMap (·.tokenIds) = final.tokenIds
  logprobs : sentLogprobs deltas = final.logprobs.getD []
  cumulative : ∀ c ∈ cumulatives, c.text <+: final.text

/-! ## Logprobs -/

namespace LogprobsProcessor

def entries (p : LogprobsProcessor P F) : List P := p.logprobs.getD []

/-- Logprobs are requested, or nothing of them is there. -/
def Consistent (p : LogprobsProcessor P F) : Prop :=
  p.numLogprobs.isSome = p.logprobs.isSome ∧ p.numLogprobs.isSome = p.cumulativeLogprob.isSome

/-- A requested row for each new token, and no others. -/
def Aligned (p : LogprobsProcessor P F) (newTokenIds : List Token) (newLogprobs : Option (List R)) :
    Prop :=
  match p.numLogprobs with
  | none => newLogprobs = none
  | some _ => (newLogprobs.getD []).length = newTokenIds.length

theorem updateSampleLogprobs_rows (codec : Codec δ P R F) (numLogprobs : Int) :
    ∀ (rows : List R) (logprobs : List P) (cumulativeLogprob : F), ∃ new : List P,
      (rows.foldl (fun s row =>
        (s.1 ++ [codec.nextPosition numLogprobs s.1 row], codec.addLogprob s.2 row))
        (logprobs, cumulativeLogprob)).1 = logprobs ++ new ∧ new.length = rows.length := by
  intro rows
  induction rows with
  | nil => intro logprobs _; exact ⟨[], (List.append_nil _).symm, rfl⟩
  | cons row rows ih =>
    intro logprobs cumulativeLogprob
    obtain ⟨new, hnew, hlen⟩ := ih (logprobs ++ [codec.nextPosition numLogprobs logprobs row])
      (codec.addLogprob cumulativeLogprob row)
    refine ⟨codec.nextPosition numLogprobs logprobs row :: new, ?_, congrArg (· + 1) hlen⟩
    rw [List.foldl_cons, hnew, List.append_assoc]
    rfl

theorem updateFromOutput_spec {p : LogprobsProcessor P F} (codec : Codec δ P R F)
    {newTokenIds : List Token} {newLogprobs : Option (List R)} (hp : p.Consistent)
    (haligned : p.Aligned newTokenIds newLogprobs) :
    ∃ p', p.updateFromOutput codec newLogprobs = .ok p' ∧ p'.Consistent ∧
      p'.numLogprobs = p.numLogprobs ∧ ∃ new, p'.entries = p.entries ++ new ∧
        (p.numLogprobs.isSome = true → new.length = newTokenIds.length) := by
  obtain ⟨logprobs, cumulativeLogprob, numLogprobs⟩ := p
  obtain ⟨hlogprobs, hcumulative⟩ := hp
  unfold Aligned at haligned
  unfold updateFromOutput
  cases numLogprobs with
  | none =>
    dsimp only at haligned
    rw [haligned]
    exact ⟨_, rfl, ⟨hlogprobs, hcumulative⟩, rfl, [], (List.append_nil _).symm, fun h => by cases h⟩
  | some numLogprobs =>
    dsimp only at haligned hlogprobs hcumulative
    cases newLogprobs with
    | none => exact ⟨_, rfl, ⟨hlogprobs, hcumulative⟩, rfl, [], (List.append_nil _).symm, fun _ => haligned⟩
    | some rows =>
      cases logprobs with
      | none => cases hlogprobs
      | some logprobs =>
        cases cumulativeLogprob with
        | none => cases hcumulative
        | some cumulativeLogprob =>
          obtain ⟨new, hnew, hlen⟩ :=
            updateSampleLogprobs_rows codec numLogprobs rows logprobs cumulativeLogprob
          exact ⟨_, rfl, ⟨rfl, rfl⟩, rfl, new, hnew, fun _ => hlen.trans haligned⟩

end LogprobsProcessor

/-! ## What the three kinds have in common -/

/-- The text, tokens and logprobs of a request, without the cursors of its outputs. -/
structure View (δ P F : Type) where
  detokenizer : Detokenizer δ
  logprobs : LogprobsProcessor P F

namespace View

def tokens (v : View δ P F) : List Token := v.detokenizer.outputTokenIds

def text (v : View δ P F) : Text := v.detokenizer.text

def entries (v : View δ P F) : List P := v.logprobs.entries

/-- When logprobs are requested every token has its entry. -/
structure WellFormed (v : View δ P F) : Prop where
  detokenizer : v.detokenizer.WellFormed
  consistent : v.logprobs.Consistent
  entries : v.logprobs.numLogprobs.isSome = true → v.entries.length = v.tokens.length

theorem WellFormed.entries_eq_nil {v : View δ P F} (hv : v.WellFormed)
    (h : v.logprobs.numLogprobs.isSome = false) : v.entries = [] := by
  have hnone := hv.consistent.1
  rw [h] at hnone
  unfold View.entries LogprobsProcessor.entries
  cases hl : v.logprobs.logprobs with
  | none => rfl
  | some l =>
    rw [hl] at hnone
    cases hnone

theorem WellFormed.take_entries {v : View δ P F} (hv : v.WellFormed) :
    v.entries.take v.tokens.length = v.entries := by
  cases hrequested : v.logprobs.numLogprobs.isSome with
  | false => rw [hv.entries_eq_nil hrequested, List.take_nil]
  | true => rw [← hv.entries hrequested, List.take_length]

end View

/-- The request's state has the view, with the cursors of what was sent. -/
structure Shows (r : RequestState δ P F) (kind : OutputKind) (interval : Nat) (v : View δ P F)
    (offset sent : Nat) : Prop where
  kind : r.outputKind = kind
  interval : r.streamInterval = interval
  detokenizer : ∃ d, r.detokenizer = some d ∧ d.reset = v.detokenizer ∧ d.offset = offset
  logprobs : r.logprobsProcessor = some v.logprobs
  sent : r.sentTokensOffset = sent

namespace Detokenizer

theorem reset_spec (d : Detokenizer δ) :
    d.reset.outputTokenIds = d.outputTokenIds ∧ d.reset.text = d.text ∧
      (∀ finished, d.reset.lengthShown finished = d.lengthShown finished) ∧
      (d.reset.WellFormed ↔ d.WellFormed) ∧ d.numOutputTokens = d.outputTokenIds.length := by
  cases d with
  | plain tokenIds => exact ⟨rfl, rfl, fun _ => rfl, Iff.rfl, rfl⟩
  | incremental base => exact ⟨rfl, rfl, fun _ => rfl, Iff.rfl, List.length_drop.symm⟩

end Detokenizer

/-- What an output does to the view: the tokens and their logprobs are appended, and
the text shown so far stays. -/
structure View.Extends (v v' : View δ P F) (newTokenIds : List Token) (finished : Bool) : Prop where
  wellFormed : v'.WellFormed
  tokens : v'.tokens = v.tokens ++ newTokenIds
  requested : v'.logprobs.numLogprobs = v.logprobs.numLogprobs
  entries : v.entries <+: v'.entries
  shown : v.text.take (v.detokenizer.lengthShown false) <+: v'.text
  grows : finished = false →
    v.detokenizer.lengthShown false ≤ v'.detokenizer.lengthShown false

variable {v : View δ P F} {r : RequestState δ P F} {interval offset sent : Nat} {kind : OutputKind}

/-- An output is absorbed in the same way whatever the cursors are. -/
theorem absorb_spec (codec : Codec δ P R F) (o : EngineCoreOutput R X K D) (hv : v.WellFormed)
    (hgen : o.poolingOutput = none) (haligned : v.logprobs.Aligned o.newTokenIds o.newLogprobs) :
    ∃ reasons v', v.Extends v' o.newTokenIds reasons.1.isSome ∧
      (o.newTokenIds = [] → reasons.1 = o.finishReason) ∧
      ∀ (r : RequestState δ P F) kind interval offset sent, Shows r kind interval v offset sent →
        ∃ r', r.absorb codec o = .ok (reasons, r') ∧ Shows r' kind interval v' offset sent := by
  obtain ⟨p', hp, hconsistent, hrequested, new, hentries, hnewlen⟩ :=
    LogprobsProcessor.updateFromOutput_spec codec hv.consistent haligned
  obtain ⟨hwf, htokens, -, hshown, hgrow⟩ := v.detokenizer.update_spec codec.decodeNext
    hv.detokenizer o.newTokenIds (o.finishReason = some .stop)
  have hstop : ∀ s, (v.detokenizer.update codec.decodeNext o.newTokenIds
      (o.finishReason = some .stop)).1 = some s → s ≠ [] ∧ o.newTokenIds ≠ [] :=
    fun s h => v.detokenizer.update_stop_spec codec.decodeNext hv.detokenizer _ _ h
  refine ⟨o.reasons (v.detokenizer.update codec.decodeNext o.newTokenIds
      (o.finishReason = some .stop)).1,
    ⟨(v.detokenizer.update codec.decodeNext o.newTokenIds (o.finishReason = some .stop)).2, p'⟩,
    ⟨⟨hwf, hconsistent, ?_⟩, htokens, hrequested, ⟨new, hentries.symm⟩, hshown, ?_⟩, ?_, ?_⟩
  · intro hsome
    rw [hrequested] at hsome
    have hold := hv.entries hsome
    show p'.entries.length = (Detokenizer.outputTokenIds _).length
    rw [hentries, htokens, List.length_append, List.length_append, hnewlen hsome]
    exact congrArg (· + o.newTokenIds.length) hold
  · intro hunfinished
    refine hgrow ?_
    cases hfound : (v.detokenizer.update codec.decodeNext o.newTokenIds
        (o.finishReason = some .stop)).1 with
    | none => rfl
    | some s =>
      rw [hfound] at hunfinished
      cases s with
      | nil => exact absurd rfl (hstop [] hfound).1
      | cons c cs => cases hunfinished
  · intro hnil
    cases hfound : (v.detokenizer.update codec.decodeNext o.newTokenIds
        (o.finishReason = some .stop)).1 with
    | none => rfl
    | some s => exact absurd hnil (hstop s hfound).2
  · intro r kind interval offset sent hr
    obtain ⟨d, hd, hdv, hoffset⟩ := hr.detokenizer
    have hdwf : d.WellFormed := d.reset_spec.2.2.2.1.mp (hdv ▸ hv.detokenizer)
    have hupdate := d.update_reset codec.decodeNext o.newTokenIds (o.finishReason = some .stop)
    rw [hdv] at hupdate
    refine ⟨{ r with
      detokenizer := some (d.update codec.decodeNext o.newTokenIds (o.finishReason = some .stop)).2
      logprobsProcessor := some p' }, ?_, hr.kind, hr.interval, ⟨_, rfl, ?_, ?_⟩, rfl, hr.sent⟩
    · unfold RequestState.absorb
      rw [hgen, hd, hr.logprobs]
      dsimp only
      rw [hp, hupdate]
      rfl
    · rw [hupdate]
    · exact (d.update_spec codec.decodeNext hdwf o.newTokenIds
        (o.finishReason = some .stop)).2.2.1.trans hoffset

/-! ## The completion of each kind -/

theorem finalOnly_waits (hr : Shows r .finalOnly interval v offset sent) (newTokenIds : List Token)
    (stopReason : Option StopReason) (routedExperts : Option X) :
    r.nextCompletion newTokenIds none stopReason routedExperts = .ok (none, r) := by
  unfold RequestState.nextCompletion RequestState.tokensToSend
  rw [hr.kind, if_pos ⟨rfl, rfl⟩]
  rfl

/-- Without deltas an output that is made shows everything. -/
theorem newCompletionOutput_full (hr : Shows r kind interval v offset sent) (hkind : kind ≠ .delta)
    (tokenIds : List Token) (finishReason : Option FinishReason) (stopReason : Option StopReason)
    (routedExperts : Option X) :
    ∃ c, r.newCompletionOutput tokenIds finishReason stopReason routedExperts = .ok (c, r) ∧
      c.text = v.text.take (v.detokenizer.lengthShown finishReason.isSome) ∧
      c.tokenIds = v.tokens ∧ c.logprobs = v.logprobs.logprobs := by
  obtain ⟨d, hd, hdv, -⟩ := hr.detokenizer
  obtain ⟨htokens, htext, hshown, -, -⟩ := d.reset_spec
  rw [hdv] at htokens htext hshown
  refine ⟨⟨r.requestIndex, d.text.take (d.lengthShown finishReason.isSome), d.outputTokenIds,
    v.logprobs.cumulativeLogprob, v.logprobs.logprobs, routedExperts, finishReason,
    if finishReason.isSome then stopReason else none⟩, ?_, ?_, htokens.symm, rfl⟩
  · unfold RequestState.newCompletionOutput
    rw [hd, hr.logprobs, hr.kind]
    dsimp only
    rw [decide_eq_false hkind, d.getNextOutputText_full]
    dsimp only
    have hlogprobs : ∀ tokenIds, RequestState.logprobsToSend v.logprobs.logprobs false tokenIds
        = v.logprobs.logprobs := by
      intro tokenIds
      unfold RequestState.logprobsToSend
      split
      · rename_i heq
        rw [heq]
        rfl
      · rfl
    rw [hlogprobs, ← hd, ← hr.kind, ← hr.logprobs]
    rfl
  · show d.text.take _ = List.take _ v.detokenizer.text
    rw [htext, hshown]

theorem tokensToSend_passes (hr : Shows r kind interval v offset sent) (hkind : kind ≠ .delta)
    {finished : Bool} (hdue : finished = true ∨ kind = .cumulative ∧ sent = 0)
    (newTokenIds : List Token) :
    r.tokensToSend newTokenIds finished = .ok (some newTokenIds, r) := by
  obtain ⟨d, hd, -, -⟩ := hr.detokenizer
  have hsends : ¬ (finished = false ∧ r.outputKind = .finalOnly) := by
    intro h
    rw [hr.kind] at h
    rcases hdue with hfinished | hcumulative
    · rw [hfinished] at h
      cases h.1
    · rw [hcumulative.1] at h
      cases h.2
  have hnow : r.due d finished ≠ false := by
    unfold RequestState.due
    rcases hdue with hfinished | hcumulative
    · rw [hfinished]
      simp
    · rw [hr.sent, hcumulative.2]
      simp
  unfold RequestState.tokensToSend
  rw [if_neg hsends, hd]
  dsimp only
  rw [if_neg hnow, hr.kind, if_neg hkind]
  exact ite_self _

theorem nextCompletion_full (hr : Shows r kind interval v offset sent) (hkind : kind ≠ .delta)
    (finishReason : Option FinishReason)
    (hdue : finishReason.isSome = true ∨ kind = .cumulative ∧ sent = 0) (newTokenIds : List Token)
    (stopReason : Option StopReason) (routedExperts : Option X) :
    ∃ c, r.nextCompletion newTokenIds finishReason stopReason routedExperts = .ok (some c, r) ∧
      c.text = v.text.take (v.detokenizer.lengthShown finishReason.isSome) ∧
      c.tokenIds = v.tokens ∧ c.logprobs = v.logprobs.logprobs := by
  obtain ⟨c, hc, hrest⟩ :=
    newCompletionOutput_full hr hkind newTokenIds finishReason stopReason routedExperts
  refine ⟨c, ?_, hrest⟩
  unfold RequestState.nextCompletion
  rw [tokensToSend_passes hr hkind hdue, Raises.ok_bind]
  dsimp only
  rw [hc]
  rfl

theorem newCompletionOutput_delta (hr : Shows r .delta interval v offset sent)
    (tokenIds : List Token) (finishReason : Option FinishReason) (stopReason : Option StopReason)
    (routedExperts : Option X) (hoffset : offset ≤ v.detokenizer.lengthShown finishReason.isSome) :
    ∃ c r', r.newCompletionOutput tokenIds finishReason stopReason routedExperts = .ok (c, r') ∧
      Shows r' .delta interval v (v.detokenizer.lengthShown finishReason.isSome) sent ∧
      v.text.take offset ++ c.text
        = v.text.take (v.detokenizer.lengthShown finishReason.isSome) ∧
      c.tokenIds = tokenIds ∧
      c.logprobs = RequestState.logprobsToSend v.logprobs.logprobs true tokenIds := by
  obtain ⟨d, hd, hdv, hdoffset⟩ := hr.detokenizer
  obtain ⟨-, htext, hshown, -, -⟩ := d.reset_spec
  rw [hdv] at htext hshown
  rw [hshown] at hoffset ⊢
  obtain ⟨hnext, hnextOffset, hreset⟩ :=
    d.getNextOutputText_delta finishReason.isSome (hdoffset ▸ hoffset)
  refine ⟨⟨r.requestIndex, (d.getNextOutputText finishReason.isSome true).1, tokenIds,
      v.logprobs.cumulativeLogprob, RequestState.logprobsToSend v.logprobs.logprobs true tokenIds,
      routedExperts, finishReason, if finishReason.isSome then stopReason else none⟩,
    { r with detokenizer := some (d.getNextOutputText finishReason.isSome true).2 }, ?_,
    ⟨hr.kind, hr.interval, ⟨_, rfl, hreset.trans hdv, hnextOffset⟩, hr.logprobs, hr.sent⟩, ?_, rfl, rfl⟩
  · unfold RequestState.newCompletionOutput
    rw [hd, hr.logprobs, hr.kind]
    rfl
  · rw [hdoffset] at hnext
    show List.take _ v.detokenizer.text ++ _ = List.take _ v.detokenizer.text
    rw [htext]
    exact hnext

/-- How many tokens the deltas have sent once an output was considered. -/
def cursor (interval : Nat) (v : View δ P F) (sent : Nat) : Nat :=
  if 1 < interval then sent else v.tokens.length

/-- What the deltas sent so far add up to; `repeated` is set once logprobs were sent
again. -/
structure Sent (v : View δ P F) (cursor offset : Nat) (repeated : Bool)
    (deltas : List (CompletionOutput P X F)) : Prop where
  text : deltas.flatMap (·.text) = v.text.take offset
  tokenIds : deltas.flatMap (·.tokenIds) = v.tokens.take cursor
  logprobs : repeated = false → sentLogprobs deltas = v.entries.take cursor
  excess : repeated = true → (v.entries.take cursor).length < (sentLogprobs deltas).length

theorem View.lengthShown_le (v : View δ P F) :
    v.detokenizer.lengthShown false ≤ v.text.length := by
  cases hdet : v.detokenizer with
  | plain tokenIds => exact Nat.zero_le _
  | incremental base =>
    unfold View.text
    rw [hdet]
    exact Nat.sub_le _ _

theorem take_of_isPrefix {α : Type} {l l' : List α} {n : Nat} (h : l <+: l') (hn : n ≤ l.length) :
    l'.take n = l.take n := by
  obtain ⟨rest, rfl⟩ := h
  exact List.take_append_of_le_length hn

namespace View.Extends

variable {v v' : View δ P F} {newTokenIds : List Token} {finished : Bool}

theorem take_text (h : v.Extends v' newTokenIds finished) {offset : Nat}
    (hoffset : offset ≤ v.detokenizer.lengthShown false) : v'.text.take offset = v.text.take offset := by
  have hle := v.lengthShown_le
  rw [take_of_isPrefix h.shown (by rw [List.length_take, Nat.min_eq_left hle]; exact hoffset),
    List.take_take, Nat.min_eq_left hoffset]

theorem take_tokens (h : v.Extends v' newTokenIds finished) {n : Nat} (hn : n ≤ v.tokens.length) :
    v'.tokens.take n = v.tokens.take n := by
  rw [h.tokens]
  exact List.take_append_of_le_length hn

/-- The entries before a sent token do not change. -/
theorem take_entries (h : v.Extends v' newTokenIds finished) (hv : v.WellFormed) {n : Nat}
    (hn : n ≤ v.tokens.length) : v'.entries.take n = v.entries.take n := by
  cases hrequested : v.logprobs.numLogprobs.isSome with
  | true => exact take_of_isPrefix h.entries ((hv.entries hrequested).symm ▸ hn)
  | false =>
    rw [hv.entries_eq_nil hrequested,
      h.wellFormed.entries_eq_nil (by rw [h.requested]; exact hrequested)]

theorem offset_le (h : v.Extends v' newTokenIds finished) {offset : Nat}
    (hoffset : offset ≤ v.detokenizer.lengthShown false) :
    offset ≤ v'.detokenizer.lengthShown finished := by
  cases finished with
  | true =>
    have hlen := congrArg List.length (h.take_text hoffset)
    have hle := v.lengthShown_le
    rw [List.length_take, List.length_take] at hlen
    show offset ≤ v'.text.length
    omega
  | false => exact Nat.le_trans hoffset (h.grows rfl)

end View.Extends

theorem logprobsToSend_delta (logprobs : Option (List P)) (tokenIds : List Token) :
    (RequestState.logprobsToSend logprobs true tokenIds).getD []
      = if tokenIds = [] then logprobs.getD []
        else (logprobs.getD []).drop ((logprobs.getD []).length - tokenIds.length) := by
  cases logprobs with
  | none =>
    show [] = _
    split
    · rfl
    · exact List.drop_nil.symm
  | some l =>
    cases l with
    | nil =>
      show [] = _
      split
      · rfl
      · exact List.drop_nil.symm
    | cons p ps =>
      show sliceFrom (p :: ps) (-(tokenIds.length : Int)) = _
      split
      · rename_i hnil
        rw [hnil]
        exact sliceFrom_neg_zero _
      · rename_i hne
        exact sliceFrom_neg _ (fun h => hne (List.length_eq_zero_iff.mp h))

/-- The logprobs of a delta follow the ones sent before, unless it carries no tokens:
then they are all sent again. -/
theorem logprobsToSend_spec {v' : View δ P F} {n : Nat} {tokenIds : List Token}
    (hv' : v'.WellFormed) (hn : n ≤ v'.tokens.length) (htake : v'.entries.take n = v.entries.take n)
    (hlen : tokenIds.length = v'.tokens.length - n) :
    (¬ (tokenIds = [] ∧ v'.entries ≠ []) →
        v.entries.take n ++ (RequestState.logprobsToSend v'.logprobs.logprobs true tokenIds).getD []
          = v'.entries) ∧
      ((tokenIds = [] ∧ v'.entries ≠ []) → v.entries.take n = v'.entries ∧
        (RequestState.logprobsToSend v'.logprobs.logprobs true tokenIds).getD [] = v'.entries) := by
  rw [logprobsToSend_delta, ← htake]
  show (_ → _ ++ (if _ then v'.entries else v'.entries.drop (v'.entries.length - _)) = _) ∧
    (_ → _ ∧ (if _ then v'.entries else _) = _)
  by_cases hnil : tokenIds = []
  · rw [if_pos hnil]
    have hall : v'.tokens.length = n := by
      rw [hnil, List.length_nil] at hlen
      omega
    constructor
    · intro hclean
      have hempty : v'.entries = [] := by
        by_contra hne
        exact hclean ⟨hnil, hne⟩
      rw [hempty, List.take_nil]
      rfl
    · intro _
      exact ⟨hall ▸ hv'.take_entries, if_pos hnil⟩
  · rw [if_neg hnil]
    refine ⟨fun _ => ?_, fun h => absurd h.1 hnil⟩
    cases hrequested : v'.logprobs.numLogprobs.isSome with
    | false =>
      rw [hv'.entries_eq_nil hrequested, List.take_nil, List.drop_nil]
      rfl
    | true =>
      have hcount := hv'.entries hrequested
      have hstart : v'.entries.length - tokenIds.length = n := by omega
      rw [hstart, List.take_append_drop]

/-- Whether a delta makes all logprobs be sent again, from the view before the input. -/
def View.repeats (v : View δ P F) (interval sent : Nat) (newTokenIds : List Token)
    (finishes : Bool) : Bool :=
  newTokenIds.isEmpty && (decide (interval ≤ 1) || finishes && decide (v.tokens.length = sent))
    && !v.entries.isEmpty

/-- The tokens of the delta that is made, if one is. -/
theorem tokensToSend_delta (hr : Shows r .delta interval v offset sent) (newTokenIds : List Token)
    (finished : Bool) :
    (1 < interval ∧ finished = false ∧ sent ≠ 0 ∧
        r.tokensToSend newTokenIds finished = .ok (none, r)) ∨
      ((1 < interval → finished = true ∨ sent = 0 ∨ interval ≤ v.tokens.length - sent) ∧
        ∃ r', r.tokensToSend newTokenIds finished
            = .ok (some (if 1 < interval then v.tokens.drop sent else newTokenIds), r') ∧
          Shows r' .delta interval v offset (if 1 < interval then v.tokens.length else sent)) := by
  obtain ⟨d, hd, hdv, hdoffset⟩ := hr.detokenizer
  obtain ⟨htokens, -, -, -, hnum⟩ := d.reset_spec
  rw [hdv] at htokens
  have hnumTokens : d.numOutputTokens = v.tokens.length := by rw [hnum, ← htokens]; rfl
  have hkind : ¬ (finished = false ∧ r.outputKind = .finalOnly) := by
    intro h
    rw [hr.kind] at h
    cases h.2
  unfold RequestState.tokensToSend
  rw [if_neg hkind, hr.interval]
  by_cases hinterval : 1 < interval
  · rw [if_pos hinterval, if_pos hinterval, if_pos hinterval, hd]
    dsimp only
    cases hdue : r.due d finished with
    | false =>
      unfold RequestState.due at hdue
      simp only [Bool.or_eq_false_iff, decide_eq_false_iff_not] at hdue
      exact Or.inl ⟨hinterval, hdue.1.1, hr.sent ▸ hdue.1.2, if_pos rfl⟩
    | true =>
      refine Or.inr ⟨fun _ => ?_, { r with sentTokensOffset := d.numOutputTokens }, ?_, ?_⟩
      · unfold RequestState.due at hdue
        rw [hr.sent, hr.interval, hnumTokens] at hdue
        simp only [Bool.or_eq_true, decide_eq_true_eq] at hdue
        rw [or_assoc] at hdue
        exact hdue
      · rw [if_neg (fun h => by cases h), hr.kind, if_pos rfl, hr.sent]
        show _ = Except.ok (some (v.detokenizer.outputTokenIds.drop sent), _)
        rw [htokens, ← hr.interval, ← hd]
      · exact ⟨hr.kind, hr.interval, ⟨d, hd, hdv, hdoffset⟩, hr.logprobs, hnumTokens⟩
  · rw [if_neg hinterval, if_neg hinterval, if_neg hinterval]
    exact Or.inr ⟨fun h => absurd h hinterval, r, rfl, hr⟩

/-- A delta that is due carries the tokens after the cursor, and sends logprobs again
when these are none. -/
theorem delta_tokens {v' : View δ P F} {newTokenIds : List Token} {finished : Bool}
    (hv : v.WellFormed) (hext : v.Extends v' newTokenIds finished) (hsent : sent ≤ v.tokens.length)
    (hdue : 1 < interval → finished = true ∨ sent = 0 ∨ interval ≤ v'.tokens.length - sent)
    {finishes : Bool} (hfinishes : newTokenIds = [] → finished = finishes) :
    v'.tokens.take (cursor interval v sent)
        ++ (if 1 < interval then v'.tokens.drop sent else newTokenIds) = v'.tokens ∧
      (v.repeats interval sent newTokenIds finishes = true ↔
        (if 1 < interval then v'.tokens.drop sent else newTokenIds) = [] ∧ v'.entries ≠ []) := by
  have hlength : v'.tokens.length = v.tokens.length + newTokenIds.length := by
    rw [hext.tokens, List.length_append]
  have hsame : newTokenIds = [] → (v.entries = [] ↔ v'.entries = []) := by
    intro hnil
    rw [hnil, List.length_nil, Nat.add_zero] at hlength
    have hentries := hext.take_entries hv (Nat.le_refl _)
    rw [hv.take_entries, ← hlength, hext.wellFormed.take_entries] at hentries
    rw [hentries]
  unfold cursor View.repeats
  simp only [Bool.and_eq_true, Bool.or_eq_true, decide_eq_true_eq, List.isEmpty_iff,
    Bool.not_eq_true', List.isEmpty_eq_false_iff]
  by_cases hinterval : 1 < interval
  · rw [if_pos hinterval, if_pos hinterval]
    refine ⟨List.take_append_drop _ _, ?_⟩
    rw [List.drop_eq_nil_iff]
    constructor
    · intro h
      obtain ⟨⟨hnil, hlast⟩, hne⟩ := h
      refine ⟨?_, fun h => hne ((hsame hnil).mpr h)⟩
      rcases hlast with h | h
      · omega
      · rw [hlength, hnil, List.length_nil]
        omega
    · intro h
      obtain ⟨hall, hne⟩ := h
      have hnil : newTokenIds = [] := List.length_eq_zero_iff.mp (by omega)
      have hne' : v.entries ≠ [] := fun h => hne ((hsame hnil).mp h)
      refine ⟨⟨hnil, Or.inr ⟨?_, ?_⟩⟩, hne'⟩
      · rw [← hfinishes hnil]
        rcases hdue hinterval with h | h | h
        · exact h
        · -- nothing was sent before the first token, and there are no logprobs yet
          refine absurd ?_ hne'
          have hnone : v.tokens.length = 0 := by omega
          cases hrequested : v.logprobs.numLogprobs.isSome with
          | false => exact hv.entries_eq_nil hrequested
          | true => exact List.length_eq_zero_iff.mp ((hv.entries hrequested).trans hnone)
        · omega
      · omega
  · rw [if_neg hinterval, if_neg hinterval]
    refine ⟨?_, ?_⟩
    · rw [hext.take_tokens (Nat.le_refl _), List.take_length, hext.tokens]
    · constructor
      · intro h
        exact ⟨h.1.1, fun he => h.2 ((hsame h.1.1).mpr he)⟩
      · intro h
        exact ⟨⟨h.1, Or.inl (by omega)⟩, fun he => h.2 ((hsame h.1).mp he)⟩

/-- One delta: what the deltas add up to, and whether logprobs were sent again. -/
theorem delta_step {v' : View δ P F} {newTokenIds : List Token} {finishReason : Option FinishReason}
    (hv : v.WellFormed) (hext : v.Extends v' newTokenIds finishReason.isSome)
    (hoffset : offset ≤ v.detokenizer.lengthShown false) (hsent : sent ≤ v.tokens.length)
    {repeated : Bool} {deltas : List (CompletionOutput P X F)}
    (hdeltas : Sent v (cursor interval v sent) offset repeated deltas)
    (hr : Shows r .delta interval v' offset sent) {finishes : Bool}
    (hfinishes : newTokenIds = [] → finishReason.isSome = finishes) (stopReason : Option StopReason)
    (routedExperts : Option X) :
    ∃ completion r' offset' sent',
      r.nextCompletion newTokenIds finishReason stopReason routedExperts = .ok (completion, r') ∧
      Shows r' .delta interval v' offset' sent' ∧ sent' ≤ v'.tokens.length ∧
      offset' ≤ v'.detokenizer.lengthShown finishReason.isSome ∧
      (finishReason.isSome = true →
        offset' = v'.text.length ∧ cursor interval v' sent' = v'.tokens.length) ∧
      Sent v' (cursor interval v' sent') offset'
        (repeated || v.repeats interval sent newTokenIds finishes) (deltas ++ completion.toList) := by
  have hcursor : cursor interval v sent ≤ v.tokens.length := by
    unfold cursor
    split
    · exact hsent
    · exact Nat.le_refl _
  have hgrow : v.tokens.length ≤ v'.tokens.length := by
    rw [hext.tokens, List.length_append]
    omega
  have htext := hext.take_text hoffset
  have htokens := hext.take_tokens hcursor
  have hentries := hext.take_entries hv hcursor
  rcases tokensToSend_delta hr newTokenIds finishReason.isSome with
    ⟨hinterval, hfinished, hzero, hsend⟩ | ⟨hdue, r', hsend, hr'⟩
  · -- nothing is due
    have hcursors : cursor interval v' sent = cursor interval v sent := by
      unfold cursor
      rw [if_pos hinterval, if_pos hinterval]
    have hclean : v.repeats interval sent newTokenIds finishes = false := by
      unfold View.repeats
      cases newTokenIds with
      | nil =>
        rw [← hfinishes rfl, hfinished, decide_eq_false (by omega)]
        rfl
      | cons t ts => rfl
    refine ⟨none, r, offset, sent, ?_, hr, by omega, hext.offset_le hoffset, ?_, ?_⟩
    · unfold RequestState.nextCompletion
      rw [hsend]
      rfl
    · intro h
      rw [hfinished] at h
      cases h
    · rw [hclean, Bool.or_false, hcursors]
      exact ⟨by rw [htext]; simpa using hdeltas.text, by rw [htokens]; simpa using hdeltas.tokenIds,
        by rw [hentries]; simpa using hdeltas.logprobs, by rw [hentries]; simpa using hdeltas.excess⟩
  · have hoffset' := hext.offset_le hoffset
    obtain ⟨hall, hrepeats⟩ := delta_tokens hv hext hsent hdue hfinishes
    generalize hids : (if 1 < interval then v'.tokens.drop sent else newTokenIds) = tokenIds
      at hsend hall hrepeats
    obtain ⟨c, r'', hc, hr'', hctext, hctokens, hclogprobs⟩ :=
      newCompletionOutput_delta hr' tokenIds finishReason stopReason routedExperts hoffset'
    have hcursors : cursor interval v' (if 1 < interval then v'.tokens.length else sent)
        = v'.tokens.length := by
      unfold cursor
      split
      · rfl
      · rfl
    have hlen : tokenIds.length = v'.tokens.length - cursor interval v sent := by
      have h := congrArg List.length hall
      rw [List.length_append, List.length_take] at h
      omega
    obtain ⟨hclean, hagain⟩ :=
      logprobsToSend_spec hext.wellFormed (by omega) hentries hlen
    rw [← hclogprobs] at hclean hagain
    refine ⟨some c, r'', _, _, ?_, hr'', ?_, Nat.le_refl _, ?_, ?_⟩
    · unfold RequestState.nextCompletion
      rw [hsend, Raises.ok_bind]
      dsimp only
      rw [hc]
      rfl
    · split
      · exact Nat.le_refl _
      · omega
    · intro hfinished
      rw [hfinished]
      exact ⟨rfl, hcursors⟩
    · have hlogprobs : sentLogprobs (deltas ++ [c]) = sentLogprobs deltas ++ c.logprobs.getD [] := by
        unfold sentLogprobs
        rw [List.flatMap_append, List.flatMap_singleton]
      have hwhole := hext.wellFormed.take_entries
      rw [hcursors]
      refine ⟨?_, ?_, ?_, ?_⟩
      · rw [Option.toList_some, List.flatMap_append, List.flatMap_singleton, hdeltas.text, ← htext]
        exact hctext
      · rw [Option.toList_some, List.flatMap_append, List.flatMap_singleton, hdeltas.tokenIds, ← htokens,
          hctokens, List.take_length]
        exact hall
      · intro h
        rw [Bool.or_eq_false_iff] at h
        have hnot : ¬ (tokenIds = [] ∧ v'.entries ≠ []) := by
          rw [← hrepeats, h.2]
          exact Bool.false_ne_true
        rw [Option.toList_some, hlogprobs, hdeltas.logprobs h.1, hwhole]
        exact hclean hnot
      · intro h
        rw [Option.toList_some, hlogprobs, List.length_append, hwhole]
        have hleast : (v.entries.take (cursor interval v sent)).length
            ≤ (sentLogprobs deltas).length := by
          cases repeated with
          | false => rw [hdeltas.logprobs rfl]
          | true => exact Nat.le_of_lt (hdeltas.excess rfl)
        by_cases hagain' : tokenIds = [] ∧ v'.entries ≠ []
        · obtain ⟨htake, hsame⟩ := hagain hagain'
          rw [htake] at hleast
          rw [hsame]
          have hpos := List.length_pos_iff.mpr hagain'.2
          omega
        · have hrep : repeated = true := by
            rcases Bool.or_eq_true_iff.mp h with h | h
            · exact h
            · exact absurd (hrepeats.mp h) hagain'
          have hmore := hdeltas.excess hrep
          have hsum := congrArg List.length (hclean hagain')
          rw [List.length_append] at hsum
          omega

/-! ## The three kinds together -/

theorem View.Extends.refl (hv : v.WellFormed) (finished : Bool) : v.Extends v [] finished :=
  ⟨hv, (List.append_nil _).symm, rfl, List.prefix_refl _, List.take_prefix _ _, fun _ => Nat.le_refl _⟩

/-- An input that the engine core can send for the request: with logprobs
requested, a row for each token. -/
def StreamInput.Fits (logprobs : LogprobsProcessor P F) (input : StreamInput R X K D) : Prop :=
  input.Generates ∧ logprobs.Aligned input.newTokenIds input.newLogprobs

theorem input_spec (codec : Codec δ P R F) (input : StreamInput R X K D) (hv : v.WellFormed)
    (hfits : input.Fits v.logprobs) :
    ∃ reasons v', v.Extends v' input.newTokenIds reasons.1.isSome ∧
      (input.newTokenIds = [] → reasons.1.isSome = input.finishes) ∧
      ∀ (s : Stream δ P X F) r kind interval offset sent, s.state = some r →
        Shows r kind interval v offset sent → ∃ r', Shows r' kind interval v' offset sent ∧
          s.step codec input = Stream.send s.emitted input.newTokenIds reasons input.routedExperts r' := by
  obtain ⟨hgen, haligned⟩ := hfits
  cases input with
  | output o =>
    obtain ⟨reasons, v', hext, hreasons, habsorb⟩ := absorb_spec codec o hv hgen haligned
    refine ⟨reasons, v', hext, fun hnil => congrArg Option.isSome (hreasons hnil), ?_⟩
    intro s r kind interval offset sent hs hr
    obtain ⟨r', hr', hshows⟩ := habsorb r kind interval offset sent hr
    refine ⟨r', hshows, ?_⟩
    unfold Stream.step
    rw [hs]
    dsimp only
    rw [hr']
    rfl
  | abort =>
    refine ⟨(some .abort, none), v, View.Extends.refl hv _, fun _ => rfl, ?_⟩
    intro s r kind interval offset sent hs hr
    refine ⟨r, hr, ?_⟩
    unfold Stream.step
    rw [hs]
    rfl

/-- The streams of one request under the three kinds: while it runs they share its
view, and once it is finished the final completion is out. -/
inductive Joint (requested : LogprobsProcessor P F) (repeated : Bool) :
    Stream δ P X F → Stream δ P X F → Stream δ P X F → Prop
  | running (v : View δ P F) (interval offset sent : Nat) (rd rf rc : RequestState δ P F)
      (deltas cumulatives : List (CompletionOutput P X F)) (hv : v.WellFormed)
      (hrequested : v.logprobs.numLogprobs = requested.numLogprobs)
      (hoffset : offset ≤ v.detokenizer.lengthShown false) (hsent : sent ≤ v.tokens.length)
      (hd : Shows rd .delta interval v offset sent) (hf : Shows rf .finalOnly interval v 0 0)
      (hc : Shows rc .cumulative interval v 0 0)
      (hdeltas : Sent v (cursor interval v sent) offset repeated deltas)
      (hcumulative : ∀ c ∈ cumulatives, c.text <+: v.text.take (v.detokenizer.lengthShown false)) :
      Joint requested repeated ⟨some rd, deltas⟩ ⟨some rf, []⟩ ⟨some rc, cumulatives⟩
  | finished (deltas cumulatives : List (CompletionOutput P X F)) (final : CompletionOutput P X F)
      (h : AddsUp deltas cumulatives final ↔ repeated = false) :
      Joint requested repeated ⟨none, deltas⟩ ⟨none, [final]⟩ ⟨none, cumulatives⟩

theorem Shows.repeats_eq (hr : Shows r kind interval v offset sent)
    (deltas : List (CompletionOutput P X F)) (input : StreamInput R X K D) :
    (Stream.mk (some r) deltas).repeats input
      = v.repeats interval sent input.newTokenIds input.finishes := by
  obtain ⟨d, hd, hdv, -⟩ := hr.detokenizer
  obtain ⟨htokens, -, -, -, hnum⟩ := d.reset_spec
  rw [hdv] at htokens
  have hnumTokens : d.numOutputTokens = v.tokens.length := by rw [hnum, ← htokens]; rfl
  unfold Stream.repeats View.repeats
  dsimp only
  rw [hr.interval, hr.sent, hr.logprobs, hd, Option.map_some, hnumTokens]
  simp only [Option.some.injEq]
  rfl

theorem Sent.addsUp {repeated : Bool} {deltas cumulatives : List (CompletionOutput P X F)}
    (hv : v.WellFormed) (h : Sent v v.tokens.length v.text.length repeated deltas)
    (hcumulative : ∀ c ∈ cumulatives, c.text <+: v.text) {final : CompletionOutput P X F}
    (htext : final.text = v.text) (htokens : final.tokenIds = v.tokens)
    (hlogprobs : final.logprobs = v.logprobs.logprobs) :
    AddsUp deltas cumulatives final ↔ repeated = false := by
  have hentries : final.logprobs.getD [] = v.entries := by rw [hlogprobs]; rfl
  constructor
  · intro hadds
    cases repeated with
    | false => rfl
    | true =>
      have hmore := h.excess rfl
      rw [hadds.logprobs, hentries, hv.take_entries] at hmore
      omega
  · intro hclean
    refine ⟨?_, ?_, ?_, ?_⟩
    · rw [h.text, htext, List.take_length]
    · rw [h.tokenIds, htokens, List.take_length]
    · rw [h.logprobs hclean, hentries, hv.take_entries]
    · rw [htext]
      exact hcumulative

theorem step_joint {requested : LogprobsProcessor P F} {repeated : Bool} {d f cu : Stream δ P X F}
    (codec : Codec δ P R F) (input : StreamInput R X K D) (hfits : input.Fits requested)
    (h : Joint requested repeated d f cu) :
    ∃ d' f' cu', d.step codec input = .ok d' ∧ f.step codec input = .ok f' ∧
      cu.step codec input = .ok cu' ∧ Joint requested (repeated || d.repeats input) d' f' cu' := by
  cases h with
  | finished deltas cumulatives final h =>
    refine ⟨_, _, _, rfl, rfl, rfl, ?_⟩
    show Joint requested (repeated || false) _ _ _
    rw [Bool.or_false]
    exact Joint.finished deltas cumulatives final h
  | running v interval offset sent rd rf rc deltas cumulatives hv hrequested hoffset hsent hd hf hc
      hdeltas hcumulative =>
    have hfits' : input.Fits v.logprobs := by
      unfold StreamInput.Fits LogprobsProcessor.Aligned at hfits ⊢
      rw [hrequested]
      exact hfits
    obtain ⟨reasons, v', hext, hreasons, hstep⟩ := input_spec (X := X) codec input hv hfits'
    obtain ⟨finishReason, stopReason⟩ := reasons
    dsimp only at hext hreasons
    obtain ⟨rd', hd', hdstep⟩ := hstep ⟨some rd, deltas⟩ rd _ _ _ _ rfl hd
    obtain ⟨rf', hf', hfstep⟩ := hstep ⟨some rf, []⟩ rf _ _ _ _ rfl hf
    obtain ⟨rc', hc', hcstep⟩ := hstep ⟨some rc, cumulatives⟩ rc _ _ _ _ rfl hc
    obtain ⟨completion, rd'', offset', sent', hdnext, hd'', hsent', hoffset', hall, hdeltas'⟩ :=
      delta_step hv hext hoffset hsent hdeltas hd' hreasons stopReason input.routedExperts
    obtain ⟨cumulative, hcnext, hctext, -, -⟩ := nextCompletion_full hc' (by decide)
      finishReason (Or.inr ⟨rfl, rfl⟩) input.newTokenIds stopReason input.routedExperts
    rw [hdstep, hfstep, hcstep, hd.repeats_eq]
    unfold Stream.send
    dsimp only
    rw [hdnext, hcnext, Raises.ok_bind, Raises.ok_bind]
    have hshown : v.text.take (v.detokenizer.lengthShown false) <+: v'.text := hext.shown
    cases finishReason with
    | none =>
      rw [finalOnly_waits hf']
      refine ⟨_, _, _, rfl, rfl, rfl, ?_⟩
      refine Joint.running v' interval offset' sent' rd'' rf' rc' _ _ hext.wellFormed
        (hext.requested.trans hrequested) hoffset' hsent' hd'' hf' hc' hdeltas' ?_
      intro c hcmem
      rcases List.mem_append.mp hcmem with hcmem | hcmem
      · refine (hcumulative c hcmem).trans ?_
        rw [← hext.take_text (Nat.le_refl _)]
        exact List.take_prefix_take_left (hext.grows rfl)
      · rw [List.mem_singleton.mp hcmem, hctext]
        exact List.prefix_refl _
    | some reason =>
      obtain ⟨final, hfnext, hftext, hftokens, hflogprobs⟩ := nextCompletion_full hf' (by decide)
        (some reason) (Or.inl rfl) input.newTokenIds stopReason input.routedExperts
      rw [hfnext]
      refine ⟨_, _, _, rfl, rfl, rfl, ?_⟩
      obtain ⟨hwholeText, hwholeTokens⟩ := hall rfl
      rw [hwholeText, hwholeTokens] at hdeltas'
      have hfull : ∀ c : CompletionOutput P X F,
          c.text = v'.text.take (v'.detokenizer.lengthShown true) → c.text = v'.text := by
        intro c hc
        rw [hc]
        exact List.take_length
      refine Joint.finished _ _ final
        (hdeltas'.addsUp hext.wellFormed ?_ (hfull final hftext) hftokens hflogprobs)
      intro c hcmem
      rcases List.mem_append.mp hcmem with hcmem | hcmem
      · exact (hcumulative c hcmem).trans hshown
      · have hwhole : c.text = v'.text := by rw [List.mem_singleton.mp hcmem, hfull cumulative hctext]
        exact hwhole ▸ List.prefix_refl _

/-- A run of the three kinds, with logprobs sent again or not so far. The induction
is on the inputs. -/
theorem run_joint {requested : LogprobsProcessor P F} (codec : Codec δ P R F) :
    ∀ (inputs : List (StreamInput R X K D)) (repeated : Bool) (d f cu : Stream δ P X F),
      (∀ i ∈ inputs, i.Fits requested) → Joint requested repeated d f cu →
      ∃ d' f' cu' repeated', Run.exec (Stream.step codec) d inputs = .ok d' ∧
        Run.exec (Stream.step codec) f inputs = .ok f' ∧
        Run.exec (Stream.step codec) cu inputs = .ok cu' ∧ Joint requested repeated' d' f' cu' ∧
        (repeated' = false ↔ repeated = false ∧
          Run.Guarded (Stream.step codec) (fun s i => s.repeats i = false) d inputs) := by
  intro inputs
  induction inputs with
  | nil =>
    intro repeated d f cu _ h
    exact ⟨d, f, cu, repeated, rfl, rfl, rfl, h, ⟨fun hr => ⟨hr, trivial⟩, fun hr => hr.1⟩⟩
  | cons i inputs ih =>
    intro repeated d f cu hfits h
    obtain ⟨d₁, f₁, cu₁, hd, hf, hcu, h₁⟩ := step_joint codec i (hfits i List.mem_cons_self) h
    obtain ⟨d', f', cu', repeated', hd', hf', hcu', h', hiff⟩ :=
      ih _ d₁ f₁ cu₁ (fun j hj => hfits j (List.mem_cons_of_mem i hj)) h₁
    refine ⟨d', f', cu', repeated', Run.exec_cons_ok.mpr ⟨d₁, hd, hd'⟩,
      Run.exec_cons_ok.mpr ⟨f₁, hf, hf'⟩, Run.exec_cons_ok.mpr ⟨cu₁, hcu, hcu'⟩, h', ?_⟩
    rw [hiff, Bool.or_eq_false_iff]
    constructor
    · intro hr
      refine ⟨hr.1.1, hr.1.2, ?_⟩
      intro s hs
      rw [hd] at hs
      cases hs
      exact hr.2
    · intro hr
      exact ⟨⟨hr.1, hr.2.1⟩, hr.2.2 d₁ hd⟩

/-- A request that has just been added: nothing is decoded, and logprobs are there if
they are requested. -/
structure RequestState.New (r : RequestState δ P F) (detokenizer : Detokenizer δ)
    (logprobs : LogprobsProcessor P F) : Prop where
  hasDetokenizer : r.detokenizer = some detokenizer
  hasLogprobs : r.logprobsProcessor = some logprobs
  sent : r.sentTokensOffset = 0
  wellFormed : detokenizer.WellFormed
  tokens : detokenizer.outputTokenIds = []
  text : detokenizer.text = []
  offset : detokenizer.offset = 0
  consistent : logprobs.Consistent
  entries : logprobs.entries = []

/-- On every sequence of inputs the three kinds return, and finish together; then the
deltas add up to the final completion, and no cumulative text is taken back, exactly
when no output without tokens is made of a request that has logprobs. -/
theorem deltas_add_up (codec : Codec δ P R F) {r : RequestState δ P F} {detokenizer : Detokenizer δ}
    {logprobs : LogprobsProcessor P F} (hnew : r.New detokenizer logprobs)
    (inputs : List (StreamInput R X K D)) (hfits : ∀ i ∈ inputs, i.Fits logprobs) :
    ∃ d f cu : Stream δ P X F,
      Run.exec (Stream.step codec) (Stream.start r .delta) inputs = .ok d ∧
      Run.exec (Stream.step codec) (Stream.start r .finalOnly) inputs = .ok f ∧
      Run.exec (Stream.step codec) (Stream.start r .cumulative) inputs = .ok cu ∧
      (f.state = none → d.state = none ∧ cu.state = none ∧ ∃ final, f.emitted = [final] ∧
        (AddsUp d.emitted cu.emitted final ↔
          Run.Guarded (Stream.step codec) (fun s i => s.repeats i = false)
            (Stream.start r .delta) inputs)) := by
  obtain ⟨htokens, htext, hshown, hwf, -⟩ := detokenizer.reset_spec
  have hview : (View.mk detokenizer.reset logprobs).WellFormed := by
    refine ⟨hwf.mpr hnew.wellFormed, hnew.consistent, fun _ => ?_⟩
    show logprobs.entries.length = detokenizer.reset.outputTokenIds.length
    rw [hnew.entries, htokens, hnew.tokens]
    rfl
  have hshows : ∀ kind, Shows { r with outputKind := kind } kind r.streamInterval
      ⟨detokenizer.reset, logprobs⟩ 0 0 :=
    fun kind => ⟨rfl, rfl, ⟨detokenizer, hnew.hasDetokenizer, rfl, hnew.offset⟩, hnew.hasLogprobs, hnew.sent⟩
  have hnothing : Sent (⟨detokenizer.reset, logprobs⟩ : View δ P F)
      (cursor r.streamInterval ⟨detokenizer.reset, logprobs⟩ 0) 0 false
      ([] : List (CompletionOutput P X F)) := by
    have hnone : (View.mk detokenizer.reset logprobs).tokens = [] := htokens.trans hnew.tokens
    refine ⟨rfl, ?_, fun _ => ?_, fun h => by cases h⟩
    · rw [hnone, List.take_nil]
      rfl
    · show [] = List.take _ logprobs.entries
      rw [hnew.entries, List.take_nil]
  obtain ⟨d, f, cu, repeated, hd, hf, hcu, hjoint, hiff⟩ := run_joint codec inputs false
    (Stream.start r .delta) (Stream.start r .finalOnly) (Stream.start r .cumulative) hfits
    (Joint.running _ _ 0 0 _ _ _ _ _ hview rfl (Nat.zero_le _) (Nat.zero_le _) (hshows .delta)
      (hshows .finalOnly) (hshows .cumulative) hnothing (fun c hc => by cases hc))
  refine ⟨d, f, cu, hd, hf, hcu, ?_⟩
  intro hfinished
  cases hjoint with
  | running v interval offset sent rd rf rc deltas cumulatives => cases hfinished
  | finished deltas cumulatives final h =>
    refine ⟨rfl, rfl, final, rfl, h.trans (hiff.trans ?_)⟩
    exact ⟨fun hr => hr.2, fun hr => ⟨rfl, hr⟩⟩

/-- A tokenizer that decodes every token to one letter. -/
def letterCodec : Codec Unit Nat Nat Nat := 
  ⟨fun _ => (), fun _ _ _ => (['a'], ()), fun _ _ row => row, 0, (· + ·)⟩

/-- A detokenizer with the stop string `bb`, which holds back one character. -/
def letterDetokenizer : Detokenizer Unit := .incremental ⟨0, [['b', 'b']], 0, false, [], 0, [], ()⟩

def noLogprobsYet : LogprobsProcessor Nat Nat := ⟨some [], some 0, some 0⟩

def letterRequest : RequestState Unit Nat Nat :=
  ⟨"r", "r", none, 0, .delta, some noLogprobsYet, some letterDetokenizer, some 0, 1, 0⟩

theorem letterRequest_new : letterRequest.New letterDetokenizer noLogprobsYet := by
  refine ⟨rfl, rfl, rfl, ⟨Nat.le_refl _, ?_⟩, rfl, rfl, rfl, ⟨rfl, rfl⟩, rfl⟩
  intro s hs
  rw [List.mem_singleton.mp hs]
  exact List.cons_ne_nil _ _

/-- A token with its row of logprobs. -/
def letterOutput (token : Token) (finishReason : Option FinishReason) :
    StreamInput Nat Nat Nat Nat :=
  .output ⟨"r", [token], some [7], none, finishReason, none, none, none⟩

theorem two_letters_add_up :
    ∃ d f cu : Stream Unit Nat Nat Nat,
      Run.exec (Stream.step letterCodec) (Stream.start letterRequest .delta)
        [letterOutput 5 none, letterOutput 6 (some .length)] = .ok d ∧
      Run.exec (Stream.step letterCodec) (Stream.start letterRequest .finalOnly)
        [letterOutput 5 none, letterOutput 6 (some .length)] = .ok f ∧
      Run.exec (Stream.step letterCodec) (Stream.start letterRequest .cumulative)
        [letterOutput 5 none, letterOutput 6 (some .length)] = .ok cu ∧
      (f.state = none → d.state = none ∧ cu.state = none ∧ ∃ final, f.emitted = [final] ∧
        (AddsUp d.emitted cu.emitted final ↔
          Run.Guarded (Stream.step letterCodec) (fun s i => s.repeats i = false)
            (Stream.start letterRequest .delta)
            [letterOutput 5 none, letterOutput 6 (some .length)])) := by
  refine deltas_add_up letterCodec letterRequest_new _ ?_
  intro i hi
  rcases List.mem_cons.mp hi with rfl | hi
  · exact ⟨rfl, rfl⟩
  · rw [List.mem_singleton.mp hi]
    exact ⟨rfl, rfl⟩

/-- The delta of an abort sends the logprobs of the token before it again. -/
theorem abort_sends_logprobs_again :
    ¬ ∀ (inputs : List (StreamInput Nat Nat Nat Nat)) (d f cu : Stream Unit Nat Nat Nat)
        (final : CompletionOutput Nat Nat Nat), (∀ i ∈ inputs, i.Fits noLogprobsYet) →
      Run.exec (Stream.step letterCodec) (Stream.start letterRequest .delta) inputs = .ok d →
      Run.exec (Stream.step letterCodec) (Stream.start letterRequest .finalOnly) inputs = .ok f →
      Run.exec (Stream.step letterCodec) (Stream.start letterRequest .cumulative) inputs = .ok cu →
      f.emitted = [final] → AddsUp d.emitted cu.emitted final := by
  intro h
  have hfits : ∀ i ∈ [letterOutput 5 none, .abort], i.Fits noLogprobsYet := by
    intro i hi
    rcases List.mem_cons.mp hi with rfl | hi
    · exact ⟨rfl, rfl⟩
    · rw [List.mem_singleton.mp hi]
      exact ⟨trivial, rfl⟩
  have hlogprobs := (h _ _ _ _ _ hfits rfl rfl rfl rfl).logprobs
  exact absurd hlogprobs (by decide)

end VllmEngine.Engine
