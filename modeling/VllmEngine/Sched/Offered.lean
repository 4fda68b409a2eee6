import VllmEngine.Sched.Effects
import VllmEngine.Sched.Update

/-!
# What a request brings

The multimodal features of a request, and those of the session updates queued on
it, come from `add_request`; no other call makes new ones. `Offered Q` says that
all of them have a property `Q`, which must not depend on where a feature sits
in its prompt.

> `Scheduler.updateFromOutput` and the others keep it; `schedule` keeps it as it
> keeps the `fixed` part of every request, and the handling of KV load failures
> as it keeps their `stopView`.
-/

set_option linter.unusedSectionVars false

namespace VllmEngine

variable {H : Type} [DecidableEq H]

/-- A request less its count of computed tokens and its hashes, which play no
part in how it stops. -/
def Request.stopView (r : Request H) : Request H :=
  { r with numComputedTokens := 0, blockHashes := [] }

/-- A property of features that a shift in the prompt keeps. -/
structure Placeless (Q : MultiModalFeatureSpec → Prop) : Prop where
  shift : ∀ f n, Q f → Q (f.shift n)

/-- Every feature of the request, now or in a queued update, has `Q`. -/
structure Request.Offers (Q : MultiModalFeatureSpec → Prop) (r : Request H) : Prop where
  features : ∀ f ∈ r.mmFeatures, Q f
  queued : ∀ queue, r.streamingQueue = some queue → ∀ u, some u ∈ queue →
    ∀ f ∈ u.newFeatures, Q f

/-- A request with the fields blanked that its output may change. -/
def Request.lasting (r : Request H) : Request H :=
  { r with status := .waiting
           stopReason := none
           outputTokenIds := []
           allTokenIds := []
           blockHashes := []
           numOutputPlaceholders := 0
           discardLatestAsyncTokens := false
           numComputedTokens := 0
           resumable := false }

variable {Q : MultiModalFeatureSpec → Prop}

variable {r r' : Request H} {cfg : SchedulerConfig H}

theorem Request.Offers.of_eq (h : r.Offers Q) (hm : r'.mmFeatures = r.mmFeatures)
    (hq : r'.streamingQueue = r.streamingQueue) : r'.Offers Q :=
  ⟨by rw [hm]; exact h.features, by rw [hq]; exact h.queued⟩

theorem Request.Offers.of_fixed (h : r.Offers Q) (he : r'.fixed = r.fixed) : r'.Offers Q := by
  have hm : r'.fixed.mmFeatures = r.fixed.mmFeatures := by rw [he]
  have hq : r'.fixed.streamingQueue = r.fixed.streamingQueue := by rw [he]
  exact h.of_eq hm hq

theorem Request.Offers.of_stopView (h : r.Offers Q) (he : r'.stopView = r.stopView) :
    r'.Offers Q := by
  have hm : r'.stopView.mmFeatures = r.stopView.mmFeatures := by rw [he]
  have hq : r'.stopView.streamingQueue = r.stopView.streamingQueue := by rw [he]
  exact h.of_eq hm hq

theorem Request.Offers.of_lasting (h : r.Offers Q) (he : r'.lasting = r.lasting) : r'.Offers Q := by
  have hm : r'.lasting.mmFeatures = r.lasting.mmFeatures := by rw [he]
  have hq : r'.lasting.streamingQueue = r.lasting.streamingQueue := by rw [he]
  exact h.of_eq hm hq

/-! ## An output -/

theorem checkStop_lasting {maxModelLen : Nat} {stopped : Bool}
    (h : checkStop r maxModelLen = .ok (r', stopped)) : r'.lasting = r.lasting := by
  unfold checkStop at h
  split at h
  · cases h
  · cases h
  · split at h
    · obtain ⟨rfl, -⟩ := Prod.mk.inj (Except.ok.inj h)
      rfl
    · split at h
      · cases h
      · split at h
        · obtain ⟨rfl, -⟩ := Prod.mk.inj (Except.ok.inj h)
          rfl
        · split at h
          · obtain ⟨rfl, -⟩ := Prod.mk.inj (Except.ok.inj h)
            rfl
          · split at h
            · obtain ⟨rfl, -⟩ := Prod.mk.inj (Except.ok.inj h)
              rfl
            · split at h
              · obtain ⟨rfl, -⟩ := Prod.mk.inj (Except.ok.inj h)
                rfl
              · split at h
                · obtain ⟨rfl, -⟩ := Prod.mk.inj (Except.ok.inj h)
                  rfl
                · obtain ⟨rfl, -⟩ := Prod.mk.inj (Except.ok.inj h)
                  rfl

theorem append_lasting (hs : Option (BlockHasher H)) (r : Request H) (toks : List Token) :
    (r.appendOutputTokenIds hs toks).lasting = r.lasting := by
  unfold Request.appendOutputTokenIds
  obtain ⟨l, hl⟩ := updateBlockHashes_eq hs
    { r with outputTokenIds := r.outputTokenIds ++ toks, allTokenIds := r.allTokenIds ++ toks }
  rw [hl]
  rfl

/-- The induction is on the tokens. -/
theorem appendUntilStop_lasting (toks : List Token) :
    ∀ (r r' : Request H) (kept : List Token) (stopped : Bool),
      appendUntilStop cfg r toks = .ok (r', kept, stopped) → r'.lasting = r.lasting := by
  induction toks with
  | nil =>
    intro r r' kept stopped h
    obtain ⟨rfl, -⟩ := Prod.mk.inj (Except.ok.inj h)
    rfl
  | cons t ts ih =>
    intro r r' kept stopped h
    rw [appendUntilStop, Raises.bind_eq_ok] at h
    obtain ⟨⟨r₁, stopped₁⟩, hcheck, h⟩ := h
    have h₁ := (checkStop_lasting hcheck).trans (append_lasting cfg.blockHasher r [t])
    cases stopped₁ with
    | true =>
      obtain ⟨rfl, -⟩ := Prod.mk.inj (Except.ok.inj h)
      exact h₁
    | false =>
      dsimp only at h
      rw [if_neg Bool.false_ne_true] at h
      simp only [Raises.bind_eq_ok, Raises.pure_eq_ok] at h
      obtain ⟨⟨r₂, kept₂, stopped₂⟩, hrest, heq⟩ := h
      obtain ⟨rfl, -⟩ := Prod.mk.inj heq
      exact (ih r₁ r₂ kept₂ stopped₂ hrest).trans h₁

theorem receiveTokens_lasting {toks kept : List Token} {stopped : Bool}
    (h : receiveTokens cfg r toks = .ok (r', kept, stopped)) : r'.lasting = r.lasting := by
  unfold receiveTokens at h
  split at h
  · split at h
    · obtain ⟨rfl, -⟩ := Prod.mk.inj (Except.ok.inj h)
      rfl
    · simp only [Raises.bind_eq_ok, Raises.pure_eq_ok] at h
      obtain ⟨⟨r₁, kept₁, stopped₁⟩, happend, ⟨⟩, -, heq⟩ := h
      obtain ⟨rfl, -⟩ := Prod.mk.inj heq
      have h₁ := appendUntilStop_lasting toks _ _ _ _ happend
      exact h₁
  · exact appendUntilStop_lasting toks _ _ _ _ h

theorem receiveOutput_lasting {mro : ModelRunnerOutput} {kept : List Token} {stopped : Bool}
    (h : receiveOutput cfg mro r = .ok (r', kept, stopped)) : r'.lasting = r.lasting := by
  unfold receiveOutput at h
  dsimp only at h
  split at h
  · exact receiveTokens_lasting h
  · split at h
    · obtain ⟨rfl, -⟩ := Prod.mk.inj (Except.ok.inj h)
      rfl
    · obtain ⟨rfl, -⟩ := Prod.mk.inj (Except.ok.inj h)
      rfl

theorem rejectDrafts_lasting (out : SchedulerOutput) (mro : ModelRunnerOutput) (r : Request H) :
    (rejectDrafts out mro r).lasting = r.lasting := by
  unfold rejectDrafts
  dsimp only
  split
  · rfl
  · rfl

theorem checkGrammar_lasting (mro : ModelRunnerOutput) (r : Request H) (toks : List Token)
    (stopped : Bool) : (checkGrammar mro r toks stopped).1.lasting = r.lasting := by
  unfold checkGrammar
  split
  · rfl
  · rfl

/-! ## Sessions -/

theorem Request.Offers.session (hQ : Placeless Q) {hs : Option (BlockHasher H)}
    {u : StreamingUpdate} (h : r.Offers Q) (hu : ∀ f ∈ u.newFeatures, Q f)
    (hs' : updateRequestAsSession hs r u = .ok r') : r'.Offers Q := by
  unfold updateRequestAsSession at hs'
  dsimp only at hs'
  split at hs'
  · cases hs'
  · obtain rfl := Except.ok.inj hs'
    have hsame : ∀ x : Request H, (x.updateBlockHashes hs).mmFeatures = x.mmFeatures ∧
        (x.updateBlockHashes hs).streamingQueue = x.streamingQueue := by
      intro x
      obtain ⟨l, hl⟩ := updateBlockHashes_eq hs x
      rw [hl]
      exact ⟨rfl, rfl⟩
    refine ⟨fun f hf => ?_, fun queue hq => ?_⟩
    · have hf : f ∈ (Request.updateBlockHashes hs _).mmFeatures := hf
      rw [(hsame _).1] at hf
      obtain hf | hf := List.mem_append.mp hf
      · exact h.features f hf
      · obtain ⟨g, hg, rfl⟩ := List.mem_map.mp hf
        exact hQ.shift g _ (hu g hg)
    · have hq : (Request.updateBlockHashes hs _).streamingQueue = some queue := hq
      rw [(hsame _).2] at hq
      exact h.queued queue hq

theorem Request.Offers.pop {update : Option StreamingUpdate} {rest : List (Option StreamingUpdate)}
    (h : r.Offers Q) (hq : r.streamingQueue = some (update :: rest)) :
    ({ r with streamingQueue := some rest } : Request H).Offers Q := by
  refine ⟨h.features, fun queue heq u hu => ?_⟩
  obtain rfl := Option.some.inj heq
  exact h.queued _ hq u (List.mem_cons_of_mem _ hu)

/-- The features of a request as the engine receives it. -/
theorem fromEngineCoreRequest_offers {hs : Option (BlockHasher H)} {e : EngineCoreRequest}
    (he : ∀ f ∈ e.mmFeatures, Q f) (h : Request.fromEngineCoreRequest hs e = .ok r) :
    (∀ f ∈ r.mmFeatures, Q f) ∧ r.streamingQueue = none := by
  unfold Request.fromEngineCoreRequest at h
  simp only [Raises.bind_eq_ok, Raises.pure_eq_ok] at h
  obtain ⟨⟨maxTokens, status⟩, -, n, -, rfl⟩ := h
  obtain ⟨hashes, hhashes⟩ := updateBlockHashes_eq hs (Request.fresh e n maxTokens status)
  rw [hhashes]
  exact ⟨he, rfl⟩

theorem updateOf_offers {u : StreamingUpdate} (h : ∀ f ∈ r.mmFeatures, Q f)
    (hu : StreamingUpdate.fromRequest r = some u) : ∀ f ∈ u.newFeatures, Q f := by
  unfold StreamingUpdate.fromRequest at hu
  split at hu
  · obtain rfl := Option.some.inj hu
    exact h
  · cases hu

/-! ## KV load failures -/

namespace Scheduler

variable {cfg : SchedulerConfig H}

variable {s s' : Scheduler H} {invalid : List BlockId} {num : Dict ReqId Int}

theorem cacheNewTokens_effect {mro : ModelRunnerOutput} {before : Request H} {ref : ReqRef}
    (h : s.cacheNewTokens cfg mro before ref = .ok s') :
    ∃ kv, s' = { s with kvCacheManager := kv } := by
  unfold cacheNewTokens at h
  split at h
  · simp only [Raises.bind_eq_ok, Raises.pure_eq_ok] at h
    obtain ⟨kv, -, rfl⟩ := h
    exact ⟨kv, rfl⟩
  · obtain rfl := Except.ok.inj h
    exact ⟨s.kvCacheManager, rfl⟩

/-- The objects may differ in their computed tokens, and the block managers. -/
structure Rewound (s s' : Scheduler H) : Prop where
  stopView : ∀ r, (s'.obj r).stopView = (s.obj r).stopView

theorem Rewound.refl (s : Scheduler H) : Rewound s s := ⟨fun _ => rfl⟩

theorem Rewound.trans {s'' : Scheduler H} (h : Rewound s s') (h' : Rewound s' s'') :
    Rewound s s'' := ⟨fun r => (h'.stopView r).trans (h.stopView r)⟩

theorem scanRequest_rewound {evict : Bool} {scan scan' : InvalidScan} {ref : ReqRef}
    (h : scanRequest cfg invalid num evict (s, scan) ref = .ok (s', scan')) : Rewound s s' := by
  unfold scanRequest at h
  dsimp only at h
  split at h
  · split at h
    · obtain ⟨rfl, -⟩ := Prod.mk.inj (Except.ok.inj h)
      refine ⟨fun r => ?_⟩
      by_cases hr : r = ref
      · rw [hr, modify_obj_self]
        rfl
      · rw [modify_obj_ne s _ hr]
    · obtain ⟨rfl, -⟩ := Prod.mk.inj (Except.ok.inj h)
      exact Rewound.refl s
  · cases h

theorem updateRequestsWithInvalidBlocks_rewound {refs : List ReqRef} {evict : Bool}
    {scan : InvalidScan}
    (h : s.updateRequestsWithInvalidBlocks cfg refs invalid num evict = .ok (s', scan)) :
    Rewound s s' := by
  unfold updateRequestsWithInvalidBlocks at h
  exact Raises.foldlM_inv (I := fun st => Rewound s st.1) refs _ (s', scan)
    (fun _ _ _ _ ht hstep => ht.trans (scanRequest_rewound hstep)) (Rewound.refl s) h

theorem handleInvalidBlocks_rewound {failed : List ReqId}
    (h : s.handleInvalidBlocks cfg invalid num = .ok (s', failed)) : Rewound s s' := by
  unfold handleInvalidBlocks at h
  simp only [Raises.bind_eq_ok] at h
  obtain ⟨⟨s₁, scan₁⟩, h₁, ⟨s₂, scan₂⟩, h₂, h⟩ := h
  have hrw : Rewound s s₂ := (updateRequestsWithInvalidBlocks_rewound h₁).trans
    (updateRequestsWithInvalidBlocks_rewound h₂)
  dsimp only at h
  split at h
  · obtain ⟨rfl, -⟩ := Prod.mk.inj (Except.ok.inj h)
    exact hrw
  · rw [Raises.bind_eq_ok] at h
    obtain ⟨s₃, hevict, h⟩ := h
    have hevicted : ∃ kv, s₃ = { s₂ with kvCacheManager := kv } := by
      unfold evictInvalid at hevict
      split at hevict
      · simp only [Raises.bind_eq_ok, Raises.pure_eq_ok] at hevict
        obtain ⟨kv, -, rfl⟩ := hevict
        exact ⟨kv, rfl⟩
      · obtain rfl := Except.ok.inj hevict
        exact ⟨s₂.kvCacheManager, rfl⟩
    obtain ⟨kv, rfl⟩ := hevicted
    split at h
    · obtain ⟨rfl, -⟩ := Prod.mk.inj (Except.ok.inj h)
      exact hrw.trans ⟨fun _ => rfl⟩
    · obtain ⟨rfl, -⟩ := Prod.mk.inj (Except.ok.inj h)
      exact hrw.trans ⟨fun _ => rfl⟩

theorem reportedFailures_rewound {out : SchedulerOutput} {mro : ModelRunnerOutput}
    {failed : List ReqId} (h : s.reportedFailures cfg out mro = .ok (s', failed)) :
    Rewound s s' := by
  unfold reportedFailures at h
  split at h
  · obtain ⟨rfl, -⟩ := Prod.mk.inj (Except.ok.inj h)
    exact Rewound.refl s
  · split at h
    · exact handleInvalidBlocks_rewound h
    · obtain ⟨rfl, -⟩ := Prod.mk.inj (Except.ok.inj h)
      exact Rewound.refl s

end Scheduler

end VllmEngine
