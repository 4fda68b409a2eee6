import VllmEngine.Engine.Outputs

/-!
# The output collector

`RequestOutputCollector` hands the outputs of one request to its consumer. When
the producer is ahead, a new output is merged into the pending one.

`record` is what a consumer that reads every output ends up with for one
completion index: the concatenated text, tokens and logprobs, and the fields of
the last completion. A merge keeps the record of every index unless it drops the
transfer parameters or the routed experts of one side (`Keeps`):

> `add_spec`: one merge,
> `collector_faithful`: every interleaving of puts and gets.
-/

namespace VllmEngine.Engine

open Python

variable {P X F K D : Type}

/-- What a collector holds. -/
inductive Pending (P X F K D : Type)
  | request (output : RequestOutput P X F K)
  | pooling (data : D)
  | exception (error : Error)
deriving DecidableEq

/-- `RequestOutputCollector`; `ready` is the event that `get` waits for. -/
structure Collector (P X F K D : Type) where
  aggregate : Bool
  output : Option (Pending P X F K D)
  ready : Bool

namespace Collector

/-- `RequestOutputCollector.put`. -/
def put (c : Collector P X F K D) (item : Pending P X F K D) : Except Error (Collector P X F K D) :=
  match c.output, item with
  | none, _ => .ok { c with output := some item, ready := true }
  | some _, .exception _ => .ok { c with output := some item, ready := true }
  | some (.request pending), .request output => do
    let merged ← pending.add output c.aggregate
    return { c with output := some (.request merged) }
  | some (.pooling _), .pooling _ => .ok { c with output := some item }
  | some _, _ => .ok c

/-- What `get` and `get_nowait` have in common: the pending item is taken, and an
exception is raised. `none` is a `get` that waits, or a `get_nowait` that found
nothing. -/
def take (c : Collector P X F K D) :
    Except Error (Option (Pending P X F K D) × Collector P X F K D) :=
  match c.output with
  | none => .ok (none, c)
  | some (.exception error) => .error error
  | some item => .ok (some item, { c with output := none, ready := false })

end Collector

/-! ## The collector between its producer and its consumer -/

inductive CollectorOp (P X F K : Type)
  | put (output : RequestOutput P X F K)
  | get
  | getNowait

/-- The collector, the outputs put so far, and the outputs obtained so far. -/
structure Session (P X F K D : Type) where
  collector : Collector P X F K D
  produced : List (RequestOutput P X F K)
  obtained : List (RequestOutput P X F K)

namespace Session

/-- A collector of a request whose outputs are deltas. -/
def start : Session P X F K D := ⟨⟨true, none, false⟩, [], []⟩

def consume (s : Session P X F K D) : Except Error (Session P X F K D) := do
  let (item, collector) ← s.collector.take
  match item with
  | some (.request output) => return { s with collector, obtained := s.obtained ++ [output] }
  | _ => return { s with collector }

def step (s : Session P X F K D) : CollectorOp P X F K → Except Error (Session P X F K D)
  | .put output => do
    let collector ← s.collector.put (.request output)
    return { s with collector, produced := s.produced ++ [output] }
  | .get => s.consume
  | .getNowait => s.consume

/-- What the consumer has obtained, and the pending output. -/
def delivered (s : Session P X F K D) : List (RequestOutput P X F K) :=
  s.obtained ++ match s.collector.output with
    | some (.request output) => [output]
    | _ => []

end Session

/-! ## What a consumer ends up with -/

/-- The fields of a completion that a later one replaces. -/
structure LastFields (X F : Type) where
  finishReason : Option FinishReason
  stopReason : Option StopReason
  cumulativeLogprob : Option F
  routedExperts : Option X
deriving DecidableEq

structure Record (P X F : Type) where
  text : Text
  tokenIds : List Token
  logprobs : List P
  last : Option (LastFields X F)
deriving DecidableEq

def CompletionOutput.lastFields (c : CompletionOutput P X F) : LastFields X F :=
  ⟨c.finishReason, c.stopReason, c.cumulativeLogprob, c.routedExperts⟩

def record (cs : List (CompletionOutput P X F)) : Record P X F where
  text := cs.flatMap (·.text)
  tokenIds := cs.flatMap (·.tokenIds)
  logprobs := cs.flatMap fun c => c.logprobs.getD []
  last := cs.getLast?.map (·.lastFields)

/-- One record after another. -/
def Record.append (a b : Record P X F) : Record P X F where
  text := a.text ++ b.text
  tokenIds := a.tokenIds ++ b.tokenIds
  logprobs := a.logprobs ++ b.logprobs
  last := b.last.or a.last

/-- The completions of one index. -/
def atIndex (i : Nat) (cs : List (CompletionOutput P X F)) : List (CompletionOutput P X F) :=
  cs.filter fun c => c.index = i

/-- The completions of one index in a sequence of outputs. -/
def completionsAt (i : Nat) (os : List (RequestOutput P X F K)) : List (CompletionOutput P X F) :=
  os.flatMap fun o => atIndex i o.outputs

/-- The consumer loses nothing: for every index it has the record of what was
put, every transfer parameters put, and the finish flag. -/
structure Session.Faithful (s : Session P X F K D) : Prop where
  record : ∀ i, Engine.record (completionsAt i s.delivered) = Engine.record (completionsAt i s.produced)
  kvTransferParams : ∀ o ∈ s.produced, ∀ kv, o.kvTransferParams = some kv →
    ∃ o' ∈ s.delivered, o'.kvTransferParams = some kv
  finished : (∃ o ∈ s.delivered, o.finished = true) ↔ ∃ o ∈ s.produced, o.finished = true

theorem record_append (a b : List (CompletionOutput P X F)) :
    record (a ++ b) = (record a).append (record b) := by
  unfold record Record.append
  rw [List.flatMap_append, List.flatMap_append, List.flatMap_append, List.getLast?_append]
  cases b.getLast? with
  | none => rfl
  | some c => rfl

theorem Record.append_assoc (a b c : Record P X F) :
    (a.append b).append c = a.append (b.append c) := by
  unfold Record.append
  rw [List.append_assoc, List.append_assoc, List.append_assoc, Option.or_assoc]

theorem Record.append_record_nil (a : Record P X F) :
    a.append (Engine.record ([] : List (CompletionOutput P X F))) = a := by
  unfold Record.append Engine.record
  simp

theorem atIndex_cons (i : Nat) (c : CompletionOutput P X F) (cs : List (CompletionOutput P X F)) :
    atIndex i (c :: cs) = if c.index = i then c :: atIndex i cs else atIndex i cs := by
  unfold atIndex
  rw [List.filter_cons]
  simp only [decide_eq_true_eq]

theorem atIndex_of_not_mem {i : Nat} {cs : List (CompletionOutput P X F)}
    (h : i ∉ cs.map (·.index)) : atIndex i cs = [] := by
  unfold atIndex
  rw [List.filter_eq_nil_iff]
  intro c hc hi
  rw [decide_eq_true_eq] at hi
  exact h (List.mem_map.mpr ⟨c, hc, hi⟩)

/-! ## One merge -/

/-- The completions of one request: an index occurs once in an output, and either
all of them carry logprobs or none does. -/
structure OfRequest (withLogprobs : Bool) (cs : List (CompletionOutput P X F)) : Prop where
  nodup : (cs.map (·.index)).Nodup
  logprobs : ∀ c ∈ cs, c.logprobs.isSome = withLogprobs

/-- A completion and the next one of its index carry the same routed experts. -/
def SameExperts (cs next : List (CompletionOutput P X F)) : Prop :=
  ∀ c ∈ cs, ∀ n ∈ next, c.index = n.index → c.routedExperts = n.routedExperts

theorem merge_spec {withLogprobs : Bool} {c n : CompletionOutput P X F}
    (hc : c.logprobs.isSome = withLogprobs) (hn : n.logprobs.isSome = withLogprobs)
    (hexperts : c.routedExperts = n.routedExperts) :
    ∃ m, c.merge n = .ok m ∧ m.index = c.index ∧ m.logprobs.isSome = withLogprobs ∧
      record [m] = (record [c]).append (record [n]) := by
  unfold CompletionOutput.merge
  cases hl : n.logprobs with
  | none =>
    refine ⟨_, rfl, rfl, hc, ?_⟩
    simp [record, Record.append, CompletionOutput.lastFields, hexperts, hl]
  | some ps =>
    cases hcl : c.logprobs with
    | none =>
      rw [hl] at hn
      rw [hcl, ← hn] at hc
      exact absurd hc (by simp)
    | some qs =>
      cases ps with
      | nil =>
        refine ⟨_, rfl, rfl, ?_, ?_⟩
        · rw [hcl] at hc
          exact hc
        · simp [record, Record.append, CompletionOutput.lastFields, hexperts, hl, hcl]
      | cons p ps =>
        refine ⟨_, rfl, rfl, ?_, ?_⟩
        · rw [hcl] at hc
          exact hc
        · simp [record, Record.append, CompletionOutput.lastFields, hexperts, hl, hcl]

/-- A completion merged into the ones of an output. The induction is on these. -/
theorem mergeInto_spec {withLogprobs : Bool} {n : CompletionOutput P X F}
    (hn : n.logprobs.isSome = withLogprobs) :
    ∀ {cs : List (CompletionOutput P X F)}, OfRequest withLogprobs cs → SameExperts cs [n] →
      ∃ cs', mergeInto true n cs = .ok cs' ∧
        (∀ j, j ∈ cs'.map (·.index) ↔ j ∈ cs.map (·.index) ∨ j = n.index) ∧
        OfRequest withLogprobs cs' ∧ (∀ c ∈ cs', c.index ≠ n.index → c ∈ cs) ∧
        ∀ i, record (atIndex i cs') = (record (atIndex i cs)).append (record (atIndex i [n])) := by
  intro cs
  induction cs with
  | nil =>
    intro _ _
    refine ⟨[n], rfl, by simp, ⟨List.nodup_singleton _, ?_⟩, ?_, ?_⟩
    · intro c hc
      rw [List.mem_singleton.mp hc]
      exact hn
    · intro c hc hne
      exact absurd (by rw [List.mem_singleton.mp hc]) hne
    · intro i
      rw [← record_append]
      rfl
  | cons c rest ih =>
    intro hcs hexperts
    obtain ⟨hnot, hnodup⟩ := List.nodup_cons.mp hcs.nodup
    have hrestOf : OfRequest withLogprobs rest :=
      ⟨hnodup, fun d hd => hcs.logprobs d (List.mem_cons_of_mem c hd)⟩
    by_cases hidx : c.index = n.index
    · obtain ⟨m, hm, hmidx, hmlog, hmrec⟩ := merge_spec (hcs.logprobs c List.mem_cons_self) hn
        (hexperts c List.mem_cons_self n (List.mem_singleton_self n) hidx)
      refine ⟨m :: rest, ?_, ?_, ⟨?_, ?_⟩, ?_, ?_⟩
      · unfold mergeInto
        rw [if_pos hidx, if_pos rfl, hm]
        rfl
      · intro j
        rw [List.map_cons, List.map_cons, hmidx, ← hidx]
        simp only [List.mem_cons]
        constructor
        · intro h
          exact Or.inl h
        · intro h
          rcases h with h | h
          · exact h
          · exact Or.inl h
      · rw [List.map_cons, hmidx]
        exact hcs.nodup
      · intro d hd
        rcases List.mem_cons.mp hd with rfl | hd
        · exact hmlog
        · exact hrestOf.logprobs d hd
      · intro d hd hne
        rcases List.mem_cons.mp hd with rfl | hd
        · exact absurd (hmidx.trans hidx) hne
        · exact List.mem_cons_of_mem c hd
      · intro i
        rw [atIndex_cons, atIndex_cons, atIndex_cons, hmidx, ← hidx]
        by_cases hi : c.index = i
        · -- the index stands nowhere else
          have hnone : atIndex i rest = [] := atIndex_of_not_mem (hi ▸ hnot)
          rw [if_pos hi, if_pos hi, if_pos hi, hnone]
          exact hmrec
        · rw [if_neg hi, if_neg hi, if_neg hi]
          exact (Record.append_record_nil _).symm
    · have hexpertsRest : SameExperts rest [n] :=
        fun d hd => hexperts d (List.mem_cons_of_mem c hd)
      obtain ⟨cs', hok, hidxs, hof, hkeep, hrec⟩ := ih hrestOf hexpertsRest
      refine ⟨c :: cs', ?_, ?_, ⟨?_, ?_⟩, ?_, ?_⟩
      · unfold mergeInto
        rw [if_neg hidx, hok]
        rfl
      · intro j
        rw [List.map_cons, List.map_cons, List.mem_cons, List.mem_cons, hidxs, or_assoc]
      · rw [List.map_cons]
        refine List.nodup_cons.mpr ⟨?_, hof.nodup⟩
        intro hin
        rcases (hidxs c.index).mp hin with h | h
        · exact hnot h
        · exact hidx h
      · intro d hd
        rcases List.mem_cons.mp hd with rfl | hd
        · exact hcs.logprobs d List.mem_cons_self
        · exact hof.logprobs d hd
      · intro d hd hne
        rcases List.mem_cons.mp hd with rfl | hd
        · exact List.mem_cons_self
        · exact List.mem_cons_of_mem c (hkeep d hd hne)
      · intro i
        have hcons : ∀ ds : List (CompletionOutput P X F),
            record (c :: ds) = (record [c]).append (record ds) := by
          intro ds
          rw [← record_append]
          rfl
        rw [atIndex_cons i c cs', atIndex_cons i c rest]
        by_cases hi : c.index = i
        · rw [if_pos hi, if_pos hi, hcons (atIndex i cs'), hcons (atIndex i rest), hrec,
            Record.append_assoc]
        · rw [if_neg hi, if_neg hi, hrec]

/-- A merge of the completions of two outputs. The induction is on those of the
second. -/
theorem foldlM_mergeInto_spec {withLogprobs : Bool} :
    ∀ (next cs : List (CompletionOutput P X F)), OfRequest withLogprobs next →
      OfRequest withLogprobs cs → SameExperts cs next →
      ∃ cs', next.foldlM (fun cs n => mergeInto true n cs) cs = .ok cs' ∧
        OfRequest withLogprobs cs' ∧
        ∀ i, record (atIndex i cs') = (record (atIndex i cs)).append (record (atIndex i next)) := by
  intro next
  induction next with
  | nil =>
    intro cs _ hcs _
    refine ⟨cs, rfl, hcs, ?_⟩
    intro i
    exact (Record.append_record_nil _).symm
  | cons n ns ih =>
    intro cs hnext hcs hexperts
    obtain ⟨hnot, hnodup⟩ := List.nodup_cons.mp hnext.nodup
    obtain ⟨cs₁, hok₁, -, hof₁, hkeep, hrec₁⟩ :=
      mergeInto_spec (hnext.logprobs n List.mem_cons_self) hcs
        (fun c hc m hm => hexperts c hc m (by rw [List.mem_singleton.mp hm]; exact List.mem_cons_self))
    have hexperts₁ : SameExperts cs₁ ns := by
      intro c hc m hm hidx
      have hne : c.index ≠ n.index := by
        intro heq
        exact hnot (List.mem_map.mpr ⟨m, hm, by rw [← hidx, heq]⟩)
      exact hexperts c (hkeep c hc hne) m (List.mem_cons_of_mem n hm) hidx
    obtain ⟨cs₂, hok₂, hof₂, hrec₂⟩ := ih cs₁
      ⟨hnodup, fun m hm => hnext.logprobs m (List.mem_cons_of_mem n hm)⟩ hof₁ hexperts₁
    refine ⟨cs₂, ?_, hof₂, ?_⟩
    · rw [List.foldlM_cons, hok₁]
      exact hok₂
    · intro i
      rw [hrec₂, hrec₁, Record.append_assoc, ← record_append, atIndex_cons i n ns, atIndex_cons i n []]
      split
      · rfl
      · rfl

/-- The pending output and the next one carry the same transfer parameters, or the
pending one none, and completions of one index the same routed experts. -/
def Keeps (pending next : RequestOutput P X F K) : Prop :=
  (pending.kvTransferParams = none ∨ pending.kvTransferParams = next.kvTransferParams) ∧
    SameExperts pending.outputs next.outputs

theorem add_spec {withLogprobs : Bool} {pending next : RequestOutput P X F K}
    (hp : OfRequest withLogprobs pending.outputs) (hn : OfRequest withLogprobs next.outputs)
    (hkeep : Keeps pending next) :
    ∃ m, pending.add next true = .ok m ∧ OfRequest withLogprobs m.outputs ∧
      (∀ i, record (atIndex i m.outputs)
        = (record (atIndex i pending.outputs)).append (record (atIndex i next.outputs))) ∧
      m.kvTransferParams = next.kvTransferParams ∧ m.finished = (pending.finished || next.finished) := by
  obtain ⟨cs, hok, hof, hrec⟩ := foldlM_mergeInto_spec next.outputs pending.outputs hn hp hkeep.2
  refine ⟨{ pending with
    outputs := cs
    finished := pending.finished || next.finished
    kvTransferParams := next.kvTransferParams }, ?_, hof, hrec, rfl, rfl⟩
  unfold RequestOutput.add
  rw [hok]
  rfl

/-! ## Whole sessions -/

/-- The condition on a put: the merge with a pending output keeps what both carry. -/
def PutKeeps (s : Session P X F K D) : CollectorOp P X F K → Prop
  | .put output => ∀ pending, s.collector.output = some (.request pending) → Keeps pending output
  | .get => True
  | .getNowait => True

/-- The outputs that a run puts are of one request. -/
def PutsOf (withLogprobs : Bool) : CollectorOp P X F K → Prop
  | .put output => OfRequest withLogprobs output.outputs
  | .get => True
  | .getNowait => True

/-- The invariant: nothing was lost, and the pending output is one of the request. -/
structure SessionInv (withLogprobs : Bool) (s : Session P X F K D) : Prop where
  aggregate : s.collector.aggregate = true
  pending : s.collector.output = none ∨
    ∃ o, s.collector.output = some (.request o) ∧ OfRequest withLogprobs o.outputs
  faithful : s.Faithful

theorem delivered_of_none {s : Session P X F K D} (h : s.collector.output = none) :
    s.delivered = s.obtained := by
  unfold Session.delivered
  rw [h, List.append_nil]

theorem delivered_of_pending {s : Session P X F K D} {o : RequestOutput P X F K}
    (h : s.collector.output = some (.request o)) : s.delivered = s.obtained ++ [o] := by
  unfold Session.delivered
  rw [h]

theorem completionsAt_append (i : Nat) (a b : List (RequestOutput P X F K)) :
    completionsAt i (a ++ b) = completionsAt i a ++ completionsAt i b := by
  unfold completionsAt
  exact List.flatMap_append

theorem completionsAt_single (i : Nat) (o : RequestOutput P X F K) :
    completionsAt i [o] = atIndex i o.outputs := by
  unfold completionsAt
  rw [List.flatMap_cons, List.flatMap_nil, List.append_nil]

/-- The last output delivered replaced by one of the same contents, and the same
output put. -/
theorem Session.Faithful.put_of_eq {s s' : Session P X F K D} {output : RequestOutput P X F K}
    (h : s.Faithful) (hproduced : s'.produced = s.produced ++ [output])
    (hrecord : ∀ i, Engine.record (completionsAt i s'.delivered)
      = (Engine.record (completionsAt i s.delivered)).append (Engine.record (atIndex i output.outputs)))
    (hkv : ∀ o ∈ s.delivered ++ [output], ∀ kv, o.kvTransferParams = some kv →
      ∃ o' ∈ s'.delivered, o'.kvTransferParams = some kv)
    (hfinished : (∃ o ∈ s'.delivered, o.finished = true)
      ↔ (∃ o ∈ s.delivered, o.finished = true) ∨ output.finished = true) : s'.Faithful where
  record := by
    intro i
    rw [hrecord, h.record, hproduced, completionsAt_append, record_append, completionsAt_single]
  kvTransferParams := by
    intro o ho kv hokv
    rw [hproduced, List.mem_append, List.mem_singleton] at ho
    rcases ho with ho | rfl
    · obtain ⟨o', ho', hkv'⟩ := h.kvTransferParams o ho kv hokv
      exact hkv o' (List.mem_append_left _ ho') kv hkv'
    · exact hkv o (List.mem_append_right _ (List.mem_singleton_self o)) kv hokv
  finished := by
    rw [hfinished, h.finished, hproduced]
    simp [or_and_right, exists_or]

variable {withLogprobs : Bool} {s s' : Session P X F K D}

/-- A put succeeds and keeps the invariant. -/
theorem put_inv {output : RequestOutput P X F K} (hs : SessionInv withLogprobs s)
    (hof : OfRequest withLogprobs output.outputs) (hkeeps : PutKeeps s (.put output)) :
    ∃ s', s.step (.put output) = .ok s' ∧ SessionInv withLogprobs s' := by
  rcases hs.pending with hnone | ⟨pending, hpending, hpendingOf⟩
  · refine ⟨{ s with
      collector := { s.collector with output := some (.request output), ready := true }
      produced := s.produced ++ [output] }, ?_, hs.aggregate, Or.inr ⟨output, rfl, hof⟩, ?_⟩
    · unfold Session.step Collector.put
      dsimp only
      rw [hnone]
      rfl
    · have hdelivered := delivered_of_none hnone
      refine hs.faithful.put_of_eq rfl ?_ ?_ ?_
      · intro i
        rw [delivered_of_pending rfl, completionsAt_append, record_append, completionsAt_single,
          hdelivered]
      · intro o ho kv hkv
        rw [delivered_of_pending rfl]
        rw [hdelivered] at ho
        exact ⟨o, ho, hkv⟩
      · rw [delivered_of_pending rfl, hdelivered]
        simp [or_and_right, exists_or]
  · have hkeep := hkeeps pending hpending
    obtain ⟨m, hok, hmof, hrec, hkv, hfin⟩ := add_spec hpendingOf hof hkeep
    refine ⟨{ s with
      collector := { s.collector with output := some (.request m) }
      produced := s.produced ++ [output] }, ?_, hs.aggregate, Or.inr ⟨m, rfl, hmof⟩, ?_⟩
    · unfold Session.step Collector.put
      dsimp only
      rw [hpending]
      dsimp only
      rw [hs.aggregate, hok]
      rfl
    · have hdelivered := delivered_of_pending hpending
      refine hs.faithful.put_of_eq rfl ?_ ?_ ?_
      · intro i
        rw [delivered_of_pending rfl, hdelivered, completionsAt_append, completionsAt_append,
          record_append, record_append, completionsAt_single, completionsAt_single, hrec,
          Record.append_assoc]
      · intro o ho kv hokv
        rw [delivered_of_pending rfl]
        rw [hdelivered] at ho
        simp only [List.mem_append, List.mem_singleton] at ho
        have hlast : ∃ o' ∈ s.obtained ++ [m], o'.kvTransferParams = output.kvTransferParams :=
          ⟨m, List.mem_append_right _ (List.mem_singleton_self m), hkv⟩
        rcases ho with (ho | rfl) | rfl
        · exact ⟨o, List.mem_append_left _ ho, hokv⟩
        · rcases hkeep.1 with hkvNone | hkvEq
          · rw [hkvNone] at hokv
            cases hokv
          · rw [← hokv, hkvEq]
            exact hlast
        · rw [← hokv]
          exact hlast
      · rw [delivered_of_pending rfl, hdelivered]
        simp only [List.mem_append, List.mem_singleton, or_and_right, exists_or, exists_eq_left, hfin,
          Bool.or_eq_true, or_assoc]

/-- A get succeeds and keeps the invariant. -/
theorem consume_inv (hs : SessionInv withLogprobs s) :
    ∃ s', s.consume = .ok s' ∧ SessionInv withLogprobs s' := by
  rcases hs.pending with hnone | ⟨pending, hpending, -⟩
  · refine ⟨s, ?_, hs⟩
    unfold Session.consume Collector.take
    rw [hnone]
    rfl
  · refine ⟨{ s with
      collector := { s.collector with output := none, ready := false }
      obtained := s.obtained ++ [pending] }, ?_, hs.aggregate, Or.inl rfl, ?_⟩
    · unfold Session.consume Collector.take
      rw [hpending]
      rfl
    · -- the pending output is now an obtained one
      have hsame : ∀ c : Collector P X F K D, c.output = none →
          (Session.mk c s.produced (s.obtained ++ [pending])).delivered = s.delivered := by
        intro c hc
        rw [delivered_of_none hc, delivered_of_pending hpending]
      constructor
      · intro i
        rw [hsame _ rfl]
        exact hs.faithful.record i
      · rw [hsame _ rfl]
        exact hs.faithful.kvTransferParams
      · rw [hsame _ rfl]
        exact hs.faithful.finished

theorem start_inv : SessionInv withLogprobs (Session.start : Session P X F K D) where
  aggregate := rfl
  pending := Or.inl rfl
  faithful := by
    constructor
    · intro i
      rfl
    · intro o ho
      exact absurd ho List.not_mem_nil
    · rfl

theorem step_inv (op : CollectorOp P X F K) (hs : SessionInv withLogprobs s)
    (hg : PutsOf withLogprobs op ∧ PutKeeps s op) :
    ∃ s', s.step op = .ok s' ∧ SessionInv withLogprobs s' := by
  cases op with
  | put output => exact put_inv hs hg.1 hg.2
  | get => exact consume_inv hs
  | getNowait => exact consume_inv hs

/-- In every run of puts of one request's outputs and gets, in which no merge
meets transfer parameters or routed experts that it would drop, no call raises and
the consumer loses nothing. -/
theorem collector_faithful (withLogprobs : Bool) (ops : List (CollectorOp P X F K))
    (hof : ∀ op ∈ ops, PutsOf withLogprobs op)
    (hkeeps : Run.Guarded Session.step PutKeeps (Session.start : Session P X F K D) ops) :
    ∃ s, Run.exec Session.step (Session.start : Session P X F K D) ops = .ok s ∧ s.Faithful := by
  have hguard := hkeeps.and_mem ops _ hof
  have hinv : ∀ (s : Session P X F K D) op s', SessionInv withLogprobs s →
      (PutsOf withLogprobs op ∧ PutKeeps s op) → s.step op = .ok s' → SessionInv withLogprobs s' := by
    intro s op s' hs hg h
    obtain ⟨s₁, h₁, hs₁⟩ := step_inv op hs hg
    rw [h₁] at h
    cases h
    exact hs₁
  obtain ⟨s, hs⟩ := Run.exec_total hinv
    (fun s op hs hg => (step_inv op hs hg).imp fun _ h => h.1) ops _ start_inv hguard
  exact ⟨s, hs, (Run.exec_inv hinv ops _ _ start_inv hguard hs).faithful⟩

/-- A delta of one token, one of two choices, and the final one, which carries the
routed experts. -/
def tokenDelta : RequestOutput Nat Nat Nat Nat :=
  ⟨"r", [⟨0, ['a'], [1], none, none, none, none, none⟩], false, none⟩

def choicesDelta : RequestOutput Nat Nat Nat Nat :=
  ⟨"r", [⟨1, ['c'], [3], none, none, none, none, none⟩, ⟨0, ['d'], [4], none, none, none, none, none⟩],
    false, none⟩

def finalDelta : RequestOutput Nat Nat Nat Nat :=
  ⟨"r", [⟨0, ['b'], [2], none, none, some 7, some .length, none⟩], true, some 3⟩

theorem deltas_ofRequest :
    ∀ o ∈ [tokenDelta, choicesDelta, finalDelta], OfRequest false o.outputs := by
  have hnodup : ∀ o ∈ [tokenDelta, choicesDelta, finalDelta], (o.outputs.map (·.index)).Nodup := by
    decide
  have hlogprobs : ∀ o ∈ [tokenDelta, choicesDelta, finalDelta],
      ∀ c ∈ o.outputs, c.logprobs.isSome = false := by decide
  exact fun o ho => ⟨hnodup o ho, hlogprobs o ho⟩

/-- The second delta is merged into the first; the final one comes after both were
got. -/
theorem two_gets_faithful :
    ∃ s, Run.exec Session.step (Session.start : Session Nat Nat Nat Nat Unit)
      [.put tokenDelta, .put choicesDelta, .get, .put finalDelta, .getNowait] = .ok s ∧ s.Faithful := by
  refine collector_faithful false _ ?_ ?_
  · intro op hop
    simp only [List.mem_cons, List.not_mem_nil, or_false] at hop
    rcases hop with rfl | rfl | rfl | rfl | rfl
    · exact deltas_ofRequest _ (by decide)
    · exact deltas_ofRequest _ (by decide)
    · trivial
    · exact deltas_ofRequest _ (by decide)
    · trivial
  · refine ⟨fun _ h => (by cases h), fun s₁ h₁ => ⟨?_, fun s₂ h₂ => ⟨trivial, fun s₃ h₃ => ⟨?_,
      fun _ _ => ⟨trivial, fun _ _ => trivial⟩⟩⟩⟩⟩
    · cases h₁
      intro pending h
      cases h
      exact ⟨Or.inl rfl, by unfold SameExperts; decide⟩
    · cases h₁
      cases h₂
      cases h₃
      intro pending h
      cases h

/-- A consumer that is late never obtains the routed experts of the final delta. -/
theorem late_get_loses :
    ¬ ∀ (ops : List (CollectorOp Nat Nat Nat Nat)) (s : Session Nat Nat Nat Nat Unit),
      (∀ op ∈ ops, PutsOf false op) → Run.exec Session.step Session.start ops = .ok s →
      s.Faithful := by
  intro h
  have hputs : ∀ op ∈ [CollectorOp.put tokenDelta, .put finalDelta, .get], PutsOf false op := by
    intro op hop
    simp only [List.mem_cons, List.not_mem_nil, or_false] at hop
    rcases hop with rfl | rfl | rfl
    · exact deltas_ofRequest _ (by decide)
    · exact deltas_ofRequest _ (by decide)
    · trivial
  have hrecord := (h _ _ hputs rfl).record 0
  have hlast := congrArg (fun r : Record Nat Nat Nat => r.last.map (·.routedExperts)) hrecord
  exact absurd hlast (by decide)

end VllmEngine.Engine
