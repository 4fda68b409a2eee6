import Mathlib.Algebra.Order.BigOperators.Group.List
import VllmEngine.Sched.EncoderCache

/-!
# The slots of the encoder cache

The scheduler asks `can_allocate` for the inputs of one request, one after the
other, and allocates those it chose at the end of the round; in between it may
free other requests. An `EncoderRound` is the manager in such a round, together
with the inputs that `can_allocate` has promised a place, and `Issue` lists the
calls that a round may make.

> `Issued.kept`: if the inputs with one hash agree on their size, the two
> counters of `EncoderCacheManager` stand for what they should in every round,
> `Accounted.canAllocate_total`: and then `can_allocate` finds what it evicts.
-/

namespace VllmEngine

variable {H : Type}

/-! ## Rounds -/

/-- What a call does to the inputs that hold slots. -/
inductive EncoderEvent
  | allocated (reqId : ReqId) (inputId numEmbeds : Nat)
  | freed (reqId : ReqId) (inputId numEmbeds : Nat)
deriving DecidableEq, Repr

/-- The manager while a request is scheduled, with the hash and the size of each
input that `can_allocate` has granted. -/
structure EncoderRound where
  manager : EncoderCacheManager
  promised : List (String × Nat)

namespace EncoderRound

/-- `num_embeds_to_schedule`. -/
def numEmbeds (ps : List (String × Nat)) : Nat := (ps.map Prod.snd).sum

/-- The calls of the scheduler for requests with `P`. An input is checked, then
asked for, then perhaps promised, and promised inputs are allocated. -/
inductive Issue (P : Request H → Prop) : EncoderRound → List EncoderEvent → EncoderRound → Prop
  | check {m m' ps r i f b} : P r → r.mmFeatures[i]? = some f → f.identifier ∉ ps.map Prod.fst →
      m.checkAndUpdateCache r i = .ok (m', b) → Issue P ⟨m, ps⟩ [] ⟨m', ps⟩
  | ask {m m' ps r i f b} {budget : Int} : P r → r.mmFeatures[i]? = some f →
      (m.isEncoderDecoder = false →
        f.identifier ∉ ps.map Prod.fst ∧ m.cached.get? f.identifier = none) →
      m.canAllocate r i budget (numEmbeds ps) = .ok (m', b) → Issue P ⟨m, ps⟩ [] ⟨m', ps⟩
  | promise {m m' ps r i f} {budget : Int} : P r → r.mmFeatures[i]? = some f →
      (m.isEncoderDecoder = false →
        f.identifier ∉ ps.map Prod.fst ∧ m.cached.get? f.identifier = none) →
      m.canAllocate r i budget (numEmbeds ps) = .ok (m', true) →
      Issue P ⟨m, ps⟩ [] ⟨m', ps ++ [(f.identifier, f.mmPosition.getNumEmbeds)]⟩
  | allocate {m m' ps ps' r i f} : P r → r.mmFeatures[i]? = some f →
      ps.Perm ((f.identifier, f.mmPosition.getNumEmbeds) :: ps') → m.allocate r i = .ok m' →
      Issue P ⟨m, ps⟩ [.allocated r.requestId i f.mmPosition.getNumEmbeds] ⟨m', ps'⟩
  | drop {m ps} : Issue P ⟨m, ps⟩ [] ⟨m, []⟩
  | free {m ps r i} : P r →
      Issue P ⟨m, ps⟩ [.freed r.requestId i (r.getNumEncoderEmbeds i)]
        ⟨m.freeEncoderInput r i, ps⟩
  | takeFreed {m ps} : Issue P ⟨m, ps⟩ [] ⟨m.getFreedMmHashes.2, ps⟩

/-- A sequence of calls, with what they do in order. -/
inductive Issued (P : Request H → Prop) : EncoderRound → List EncoderEvent → EncoderRound → Prop
  | refl {t} : Issued P t [] t
  | step {t u v es es'} : Issued P t es u → Issue P u es' v → Issued P t (es ++ es') v

variable {P : Request H → Prop}

theorem Issued.single {t u : EncoderRound} {es : List EncoderEvent} (h : Issue P t es u) :
    Issued P t es u := Issued.step Issued.refl h

theorem Issued.trans {t u v : EncoderRound} {es es' : List EncoderEvent} (h : Issued P t es u)
    (h' : Issued P u es' v) : Issued P t (es ++ es') v := by
  induction h' with
  | refl =>
    rw [List.append_nil]
    exact h
  | step _ hstep ih =>
    rw [← List.append_assoc]
    exact Issued.step ih hstep

/-- An invariant that every call keeps holds after every sequence of calls. -/
theorem Issued.inv {I : EncoderRound → Prop} (hI : ∀ t es u, I t → Issue P t es u → I u)
    {t u : EncoderRound} {es : List EncoderEvent} (ht : I t) (h : Issued P t es u) : I u := by
  induction h with
  | refl => exact ht
  | step _ hstep ih => exact hI _ _ _ ih hstep

end EncoderRound

/-! ## The counters -/

/-- Every input of the request has the size that `size` gives to its hash. -/
def Request.Sized (size : String → Nat) (r : Request H) : Prop :=
  ∀ f ∈ r.mmFeatures, f.mmPosition.getNumEmbeds = size f.identifier

theorem Request.Sized.numEmbeds {size : String → Nat} {r : Request H} (h : r.Sized size) {i : Nat}
    {f : MultiModalFeatureSpec} (hf : r.mmFeatures[i]? = some f) :
    r.getNumEncoderEmbeds i = size f.identifier := by
  unfold Request.getNumEncoderEmbeds
  rw [hf]
  exact h f (List.mem_of_getElem? hf)

namespace EncoderCacheManager

/-- The slots of all cached entries. -/
def cachedSlots (size : String → Nat) (m : EncoderCacheManager) : Int :=
  m.cached.sumOver fun mmHash _ => (size mmHash : Int)

/-- The slots of the freeable entries. -/
def freeableSlots (m : EncoderCacheManager) : Int := m.freeable.sumOver fun _ (n : Nat) => (n : Int)

/-- The counters and the freeable entries of an `EncoderCacheManager` are those
of its cached entries. -/
structure Accounted (size : String → Nat) (m : EncoderCacheManager) : Prop where
  multimodal : m.isEncoderDecoder = false
  slots : m.numFreeSlots + m.cachedSlots size = m.cacheSize
  freeable_slots : m.numFreeableSlots = m.numFreeSlots + m.freeableSlots
  freeable : ∀ mmHash, m.freeable.get? mmHash =
    if m.cached.get? mmHash = some [] then some (size mmHash) else none

variable {size : String → Nat} {m m' : EncoderCacheManager}

theorem Accounted.not_encoderDecoder (h : Accounted size m) : ¬ (m.isEncoderDecoder = true) := by
  rw [h.multimodal]
  exact Bool.false_ne_true

theorem init_accounted (size : String → Nat) (cacheSize : Nat) :
    Accounted size (init false cacheSize) := by
  refine ⟨rfl, ?_, ?_, fun mmHash => rfl⟩
  · show (cacheSize : Int) + 0 = cacheSize
    rw [Int.add_zero]
  · show (cacheSize : Int) = cacheSize + 0
    rw [Int.add_zero]

/-- A reset makes the manager new. -/
theorem reset_eq_init (m : EncoderCacheManager) :
    m.reset = init m.isEncoderDecoder m.cacheSize := rfl

theorem Accounted.takeFreed (h : Accounted size m) : Accounted size m.getFreedMmHashes.2 := by
  unfold getFreedMmHashes
  rw [if_neg h.not_encoderDecoder]
  exact ⟨h.multimodal, h.slots, h.freeable_slots, h.freeable⟩

/-- The summand of one hash in the slots of the cached entries. -/
theorem cachedSlots_set (m : EncoderCacheManager) (mmHash : String) (refs : List ReqId)
    {old : Option (List ReqId)} (hold : m.cached.get? mmHash = old) :
    (m.cached.set mmHash refs).sumOver (fun h _ => (size h : Int))
      + old.elim 0 (fun _ => (size mmHash : Int)) = m.cachedSlots size + size mmHash := by
  have h := Dict.sumOver_set (fun h _ => (size h : Int)) m.cached mmHash refs
  rw [hold] at h
  exact h

/-- The entry of a known hash gets other references. -/
theorem cachedSlots_update (m : EncoderCacheManager) (mmHash : String) {refs refs' : List ReqId}
    (hold : m.cached.get? mmHash = some refs) :
    (m.cached.set mmHash refs').sumOver (fun h _ => (size h : Int)) = m.cachedSlots size := by
  have h : (m.cached.set mmHash refs').sumOver (fun h _ => (size h : Int)) + _ = _ :=
    cachedSlots_set m mmHash refs' hold
  rw [Option.elim_some] at h
  omega

/-! ### References -/

theorem addReference_get? (m : EncoderCacheManager) (mmHash : String) (reqId : ReqId) :
    ∃ ref refs, (m.addReference mmHash reqId).cached = m.cached.set mmHash (ref :: refs) := by
  have hne : (if reqId ∈ (m.cached.get? mmHash).getD [] then (m.cached.get? mmHash).getD []
      else (m.cached.get? mmHash).getD [] ++ [reqId]) ≠ [] := by
    split
    next hmem => exact List.ne_nil_of_mem hmem
    next => simp
  obtain ⟨ref, refs, heq⟩ := List.exists_cons_of_ne_nil hne
  exact ⟨ref, refs, congrArg (m.cached.set mmHash) heq⟩

/-- A reference to an entry that has others. -/
theorem Accounted.addReference (h : Accounted size m) {mmHash : String} {reqId ref : ReqId}
    {refs : List ReqId} (hold : m.cached.get? mmHash = some (ref :: refs)) :
    Accounted size (m.addReference mmHash reqId) := by
  obtain ⟨ref', refs', heq⟩ := addReference_get? m mmHash reqId
  refine ⟨h.multimodal, ?_, h.freeable_slots, fun mmHash' => ?_⟩
  · show m.numFreeSlots + (m.addReference mmHash reqId).cached.sumOver _ = m.cacheSize
    rw [heq, cachedSlots_update m mmHash hold]
    exact h.slots
  · show m.freeable.get? mmHash' = _
    rw [h.freeable, heq, Dict.get?_set]
    by_cases hk : mmHash' = mmHash
    · rw [if_pos hk, hk, hold]
      simp
    · rw [if_neg hk]

/-- An entry without references that gets one is no longer freeable. -/
theorem Accounted.revive (h : Accounted size m) {mmHash : String} {reqId : ReqId} {n : Nat}
    (hold : m.cached.get? mmHash = some []) (hn : m.freeable.get? mmHash = some n) :
    Accounted size (EncoderCacheManager.addReference { m with
      freeable := m.freeable.erase mmHash
      numFreeableSlots := m.numFreeableSlots - n } mmHash reqId) := by
  obtain ⟨ref', refs', heq⟩ := addReference_get? { m with
    freeable := m.freeable.erase mmHash
    numFreeableSlots := m.numFreeableSlots - n } mmHash reqId
  refine ⟨h.multimodal, ?_, ?_, fun mmHash' => ?_⟩
  · show m.numFreeSlots + (EncoderCacheManager.addReference _ mmHash reqId).cached.sumOver _ = m.cacheSize
    rw [heq]
    show m.numFreeSlots + (m.cached.set mmHash _).sumOver _ = m.cacheSize
    rw [cachedSlots_update m mmHash hold]
    exact h.slots
  · show m.numFreeableSlots - n = m.numFreeSlots + (m.freeable.erase mmHash).sumOver _
    have hsum := Dict.sumOver_erase (fun _ (n : Nat) => (n : Int)) m.freeable mmHash
    rw [hn, Option.elim_some] at hsum
    have hslots : m.numFreeableSlots
        = m.numFreeSlots + m.freeable.sumOver fun _ (n : Nat) => (n : Int) := h.freeable_slots
    omega
  · show (m.freeable.erase mmHash).get? mmHash' = _
    rw [heq, Dict.get?_erase]
    show _ = if (m.cached.set mmHash _).get? mmHash' = some [] then _ else _
    rw [Dict.get?_set, h.freeable]
    by_cases hk : mmHash' = mmHash
    · rw [if_pos hk, if_pos hk]
      simp
    · rw [if_neg hk, if_neg hk]

/-- **`check_and_update_cache`** returns, keeps the counters, and adds no entry. -/
theorem Accounted.check (h : Accounted size m) {r : Request H} {i : Nat}
    {f : MultiModalFeatureSpec} (hf : r.mmFeatures[i]? = some f) :
    ∃ m' b, m.checkAndUpdateCache r i = .ok (m', b) ∧ Accounted size m' ∧
      m'.numFreeSlots = m.numFreeSlots ∧ m'.cacheSize = m.cacheSize ∧
      (∀ mmHash, m'.cached.get? mmHash = none ↔ m.cached.get? mmHash = none) ∧
      (b = false → m.cached.get? f.identifier = none ∧ m' = m) := by
  have hhash : r.mmHash i = .ok f.identifier := by
    unfold Request.mmHash
    rw [hf]
  have hkeys : ∀ (x : EncoderCacheManager) refs, x.cached = m.cached →
      m.cached.get? f.identifier = some refs → ∀ mmHash,
        ((x.addReference f.identifier r.requestId).cached.get? mmHash = none
          ↔ m.cached.get? mmHash = none) := by
    intro x refs hx hold mmHash
    obtain ⟨ref', refs', heq⟩ := addReference_get? x f.identifier r.requestId
    rw [heq, hx, Dict.get?_set]
    by_cases hk : mmHash = f.identifier
    · rw [if_pos hk, hk, hold]
      simp
    · rw [if_neg hk]
  unfold checkAndUpdateCache
  rw [if_neg h.not_encoderDecoder, hhash, Raises.ok_bind]
  cases hold : m.cached.get? f.identifier with
  | none => exact ⟨m, false, rfl, h, rfl, rfl, fun _ => Iff.rfl, fun _ => ⟨rfl, rfl⟩⟩
  | some refs =>
    cases refs with
    | nil =>
      have hn : m.freeable.get? f.identifier = some (size f.identifier) := by
        rw [h.freeable, if_pos hold]
      dsimp only
      rw [hn]
      exact ⟨_, true, rfl, h.revive hold hn, rfl, rfl, hkeys _ [] rfl hold,
        fun hb => (nomatch hb)⟩
    | cons ref refs =>
      exact ⟨_, true, rfl, h.addReference hold, rfl, rfl, hkeys m _ rfl hold,
        fun hb => (nomatch hb)⟩

/-! ### Eviction -/

/-- The eviction of one freeable entry. -/
theorem Accounted.evict (h : Accounted size m) {mmHash : String} {n : Nat}
    (hn : m.freeable.get? mmHash = some n) :
    Accounted size { m with
      freeable := m.freeable.erase mmHash
      cached := m.cached.erase mmHash
      freed := m.freed ++ [mmHash]
      numFreeSlots := m.numFreeSlots + n } := by
  have hcached : m.cached.get? mmHash = some [] ∧ n = size mmHash := by
    rw [h.freeable] at hn
    split at hn
    next hc => exact ⟨hc, (Option.some.inj hn).symm⟩
    next => cases hn
  obtain ⟨hc, rfl⟩ := hcached
  refine ⟨h.multimodal, ?_, ?_, fun mmHash' => ?_⟩
  · show m.numFreeSlots + (size mmHash : Int) + (m.cached.erase mmHash).sumOver _ = m.cacheSize
    have hsum := Dict.sumOver_erase (fun h (_ : List ReqId) => (size h : Int)) m.cached mmHash
    rw [hc, Option.elim_some] at hsum
    have hslots : m.numFreeSlots + m.cached.sumOver (fun h _ => (size h : Int)) = m.cacheSize :=
      h.slots
    omega
  · show m.numFreeableSlots = m.numFreeSlots + (size mmHash : Int)
      + (m.freeable.erase mmHash).sumOver _
    have hsum := Dict.sumOver_erase (fun _ (n : Nat) => (n : Int)) m.freeable mmHash
    rw [hn, Option.elim_some] at hsum
    have hslots : m.numFreeableSlots
        = m.numFreeSlots + m.freeable.sumOver fun _ (n : Nat) => (n : Int) := h.freeable_slots
    omega
  · show (m.freeable.erase mmHash).get? mmHash'
      = if (m.cached.erase mmHash).get? mmHash' = some [] then _ else _
    rw [Dict.get?_erase, Dict.get?_erase, h.freeable]
    by_cases hk : mmHash' = mmHash
    · rw [if_pos hk, if_pos hk]
      simp
    · rw [if_neg hk, if_neg hk]

/-- **The eviction loop** finds the slots it looks for, if the freeable entries
have them. The induction is on the entries that are left. -/
theorem evictUntil_spec {numEmbeds : Int} :
    ∀ (bound : Nat) (m : EncoderCacheManager), Accounted size m →
      m.freeable.size ≤ bound → numEmbeds ≤ m.numFreeableSlots →
      ∃ m', evictUntil numEmbeds bound m = .ok m' ∧ Accounted size m' ∧
        numEmbeds ≤ m'.numFreeSlots ∧ m.numFreeSlots ≤ m'.numFreeSlots ∧
        m'.cacheSize = m.cacheSize ∧
        ∀ mmHash, m.cached.get? mmHash = none → m'.cached.get? mmHash = none := by
  intro bound
  induction bound with
  | zero =>
    intro m h hsize hle
    have hnil : m.freeable.entries = [] := List.eq_nil_of_length_eq_zero (Nat.le_zero.mp hsize)
    have hslots := h.freeable_slots
    unfold freeableSlots Dict.sumOver at hslots
    rw [hnil, List.map_nil, List.sum_nil] at hslots
    refine ⟨m, ?_, h, by omega, Int.le_refl _, rfl, fun _ hc => hc⟩
    rw [evictUntil, if_neg (by omega)]
  | succ bound ih =>
    intro m h hsize hle
    rw [evictUntil]
    by_cases hfree : numEmbeds > m.numFreeSlots
    · rw [if_pos hfree]
      cases hent : m.freeable.entries with
      | nil =>
        have hslots := h.freeable_slots
        unfold freeableSlots Dict.sumOver at hslots
        rw [hent, List.map_nil, List.sum_nil] at hslots
        omega
      | cons e es =>
        obtain ⟨mmHash, n⟩ := e
        have hn : m.freeable.get? mmHash = some n := by
          rw [Dict.get?_eq_some_iff, hent]
          exact List.mem_cons_self
        have hc : m.cached.contains mmHash = true := by
          rw [h.freeable] at hn
          split at hn
          next hc => rw [Dict.contains, hc]; rfl
          next => cases hn
        have hshort : (m.freeable.erase mmHash).size ≤ bound := by
          show (m.freeable.entries.filter _).length ≤ bound
          have hlen := List.length_filter_le (fun e : String × Nat => decide (e.1 ≠ mmHash)) es
          rw [Dict.size, hent, List.length_cons] at hsize
          rw [hent, List.filter_cons_of_neg (by simp)]
          omega
        dsimp only
        rw [if_pos hc]
        obtain ⟨m', hm', hacc, hfits, hmono, hcap, hnone⟩ :=
          ih _ (h.evict hn) hshort hle
        refine ⟨m', hm', hacc, hfits, ?_, hcap, fun k hk => hnone k ?_⟩
        · have : m.numFreeSlots + (n : Int) ≤ m'.numFreeSlots := hmono
          omega
        · show (m.cached.erase mmHash).get? k = none
          rw [Dict.get?_erase, hk]
          split <;> rfl
    · rw [if_neg hfree]
      exact ⟨m, rfl, h, by omega, Int.le_refl _, rfl, fun _ hc => hc⟩

/-- **`can_allocate`** returns, and grants only what then fits. -/
theorem Accounted.canAllocate_total (h : Accounted size m) (r : Request H) (i : Nat) (budget : Int)
    (numToSchedule : Nat) :
    ∃ m' b, m.canAllocate r i budget numToSchedule = .ok (m', b) ∧ Accounted size m' ∧
      m.numFreeSlots ≤ m'.numFreeSlots ∧ m'.cacheSize = m.cacheSize ∧
      (∀ mmHash, m.cached.get? mmHash = none → m'.cached.get? mmHash = none) ∧
      (b = true → (r.getNumEncoderEmbeds i + numToSchedule : Int) ≤ m'.numFreeSlots) := by
  unfold canAllocate
  dsimp only
  by_cases hbudget : (r.getNumEncoderEmbeds i : Int) > budget
  · rw [if_pos hbudget]
    exact ⟨m, false, rfl, h, Int.le_refl _, rfl, fun _ hc => hc, fun hb => (nomatch hb)⟩
  · rw [if_neg hbudget, if_neg h.not_encoderDecoder]
    by_cases hfits : (r.getNumEncoderEmbeds i : Int) + numToSchedule ≤ m.numFreeSlots
    · rw [if_pos hfits]
      exact ⟨m, true, rfl, h, Int.le_refl _, rfl, fun _ hc => hc, fun _ => hfits⟩
    · rw [if_neg hfits]
      by_cases hmany : (r.getNumEncoderEmbeds i : Int) + numToSchedule > m.numFreeableSlots
      · rw [if_pos hmany]
        exact ⟨m, false, rfl, h, Int.le_refl _, rfl, fun _ hc => hc, fun hb => (nomatch hb)⟩
      · rw [if_neg hmany]
        obtain ⟨m', hm', hacc, hle, hmono, hcap, hnone⟩ :=
          evictUntil_spec m.freeable.size m h (Nat.le_refl _) (Int.not_lt.mp hmany)
        refine ⟨m', true, ?_, hacc, hmono, hcap, hnone, fun _ => hle⟩
        rw [hm']
        rfl

/-! ### Allocation and release -/

/-- **`allocate`** for an input that is not cached and fits. -/
theorem Accounted.allocate (h : Accounted size m) {r : Request H} (hr : r.Sized size) {i : Nat}
    {f : MultiModalFeatureSpec} (hf : r.mmFeatures[i]? = some f)
    (hnew : m.cached.get? f.identifier = none) (hfits : (size f.identifier : Int) ≤ m.numFreeSlots) :
    ∃ m', m.allocate r i = .ok m' ∧ Accounted size m' ∧
      m'.numFreeSlots = m.numFreeSlots - size f.identifier ∧ m'.cacheSize = m.cacheSize ∧
      ∀ mmHash, mmHash ≠ f.identifier → m'.cached.get? mmHash = m.cached.get? mmHash := by
  have hhash : r.mmHash i = .ok f.identifier := by
    unfold Request.mmHash
    rw [hf]
  have hsize := hr.numEmbeds hf
  have hfreeable : m.numFreeSlots ≤ m.numFreeableSlots := by
    rw [h.freeable_slots]
    have hpos : 0 ≤ m.freeableSlots := List.sum_nonneg fun x hx => by
      obtain ⟨e, -, rfl⟩ := List.mem_map.mp hx
      exact Int.natCast_nonneg e.2
    omega
  unfold EncoderCacheManager.allocate
  rw [hhash, Raises.ok_bind]
  dsimp only
  rw [if_neg h.not_encoderDecoder, hsize]
  have h₁ : decide (m.numFreeSlots ≥ (size f.identifier : Int)) = true := decide_eq_true hfits
  have h₂ : decide (m.numFreeableSlots ≥ (size f.identifier : Int)) = true :=
    decide_eq_true (Int.le_trans hfits hfreeable)
  rw [h₁, h₂]
  obtain ⟨ref', refs', heq⟩ := addReference_get? m f.identifier r.requestId
  refine ⟨_, rfl, ⟨h.multimodal, ?_, ?_, fun mmHash => ?_⟩, rfl, rfl, fun mmHash hk => ?_⟩
  · show m.numFreeSlots - (size f.identifier : Int)
      + (m.addReference f.identifier r.requestId).cached.sumOver _ = m.cacheSize
    have hsum : (m.cached.set f.identifier (ref' :: refs')).sumOver (fun h _ => (size h : Int)) + _
        = _ := cachedSlots_set m f.identifier (ref' :: refs') hnew
    rw [Option.elim_none] at hsum
    have hslots := h.slots
    rw [heq]
    omega
  · show m.numFreeableSlots - (size f.identifier : Int)
      = m.numFreeSlots - (size f.identifier : Int) + m.freeableSlots
    have hslots := h.freeable_slots
    omega
  · show m.freeable.get? mmHash
      = if (m.addReference f.identifier r.requestId).cached.get? mmHash = some [] then _ else _
    rw [heq, Dict.get?_set, h.freeable]
    by_cases hk : mmHash = f.identifier
    · rw [if_pos hk, hk, hnew]
      simp
    · rw [if_neg hk]
  · show (m.addReference f.identifier r.requestId).cached.get? mmHash = _
    rw [heq, Dict.get?_set_ne _ _ hk]

/-- **`free_encoder_input`** keeps the counters, and the set of entries. -/
theorem Accounted.freeInput (h : Accounted size m) {r : Request H} (hr : r.Sized size) (i : Nat) :
    Accounted size (m.freeEncoderInput r i) ∧
      (m.freeEncoderInput r i).numFreeSlots = m.numFreeSlots ∧
      (m.freeEncoderInput r i).cacheSize = m.cacheSize ∧
      ∀ mmHash, m.cached.get? mmHash = none → (m.freeEncoderInput r i).cached.get? mmHash = none := by
  unfold freeEncoderInput
  dsimp only
  rw [if_neg h.not_encoderDecoder]
  cases hf : r.mmFeatures[i]? with
  | none => exact ⟨h, rfl, rfl, fun _ hc => hc⟩
  | some f =>
    dsimp only
    cases hold : m.cached.get? f.identifier with
    | none => exact ⟨h, rfl, rfl, fun _ hc => hc⟩
    | some refs =>
      cases refs with
      | nil => exact ⟨h, rfl, rfl, fun _ hc => hc⟩
      | cons ref refs =>
        dsimp only
        have hsize := hr.numEmbeds hf
        have hnone : ∀ refs' mmHash, m.cached.get? mmHash = none →
            (m.cached.set f.identifier refs').get? mmHash = none := by
          intro refs' mmHash hk
          rw [Dict.get?_set_ne _ _ ?_, hk]
          intro heq
          rw [heq, hold] at hk
          cases hk
        -- the entry was not freeable
        have hnot : m.freeable.get? f.identifier = none := by
          rw [h.freeable, hold]
          simp
        split
        next hempty =>
          rw [hempty, hsize]
          refine ⟨⟨h.multimodal, ?_, ?_, fun mmHash => ?_⟩, rfl, rfl, hnone _⟩
          · show m.numFreeSlots + (m.cached.set f.identifier []).sumOver _ = m.cacheSize
            rw [cachedSlots_update m f.identifier hold]
            exact h.slots
          · show m.numFreeableSlots + (size f.identifier : Int) = m.numFreeSlots
              + (m.freeable.set f.identifier (size f.identifier)).sumOver _
            have hsum := Dict.sumOver_set (fun _ (n : Nat) => (n : Int)) m.freeable f.identifier
              (size f.identifier)
            rw [hnot, Option.elim_none] at hsum
            have hslots : m.numFreeableSlots
                = m.numFreeSlots + m.freeable.sumOver fun _ (n : Nat) => (n : Int) :=
              h.freeable_slots
            omega
          · show (m.freeable.set f.identifier (size f.identifier)).get? mmHash
              = if (m.cached.set f.identifier []).get? mmHash = some [] then _ else _
            rw [Dict.get?_set, Dict.get?_set, h.freeable]
            by_cases hk : mmHash = f.identifier
            · rw [if_pos hk, if_pos hk, if_pos rfl, hk]
            · rw [if_neg hk, if_neg hk]
        next hrest =>
          refine ⟨⟨h.multimodal, ?_, h.freeable_slots, fun mmHash => ?_⟩, rfl, rfl, hnone _⟩
          · show m.numFreeSlots + (m.cached.set f.identifier _).sumOver _ = m.cacheSize
            rw [cachedSlots_update m f.identifier hold]
            exact h.slots
          · show m.freeable.get? mmHash
              = if (m.cached.set f.identifier _).get? mmHash = some [] then _ else _
            rw [Dict.get?_set, h.freeable]
            by_cases hk : mmHash = f.identifier
            · rw [if_pos hk, hk, hold, if_neg (by simp), if_neg]
              exact fun heq => hrest (Option.some.inj heq)
            · rw [if_neg hk]

/-! ### What the counters say -/

theorem Accounted.mem_freeable_keys (h : Accounted size m) {mmHash : String} :
    mmHash ∈ m.freeable.keys ↔ m.cached.get? mmHash = some [] := by
  rw [Dict.mem_keys_iff, Dict.contains, h.freeable]
  split
  next hc => simp [hc]
  next hc => simp [hc]

/-- A sum over the entries depends on the keys only. -/
theorem sumOver_keys {V : Type} (size : String → Nat) (d : Dict String V) :
    d.sumOver (fun mmHash _ => (size mmHash : Int)) = (d.keys.map fun k => (size k : Int)).sum := by
  unfold Dict.sumOver Dict.keys
  rw [List.map_map]
  rfl

/-- The freeable entries have the sizes of their hashes. -/
theorem Accounted.freeableSlots_eq (h : Accounted size m) :
    m.freeableSlots = (m.freeable.keys.map fun k => (size k : Int)).sum := by
  rw [← sumOver_keys]
  unfold freeableSlots Dict.sumOver
  refine congrArg List.sum (List.map_congr_left fun e he => ?_)
  have hget : m.freeable.get? e.1 = some e.2 := m.freeable.get?_eq_some_iff.mpr he
  rw [h.freeable] at hget
  split at hget
  next => exact congrArg Nat.cast (Option.some.inj hget).symm
  next => cases hget

/-- Freeable entries are cached, so they take no more slots. -/
theorem Accounted.freeableSlots_le (h : Accounted size m) :
    0 ≤ m.freeableSlots ∧ m.freeableSlots ≤ m.cachedSlots size := by
  have hpos : ∀ x ∈ m.cached.keys.map fun k => (size k : Int), 0 ≤ x := by
    intro x hx
    obtain ⟨k, -, rfl⟩ := List.mem_map.mp hx
    exact Int.natCast_nonneg _
  have hsub : m.freeable.keys ⊆ m.cached.keys := by
    intro k hk
    rw [Dict.mem_keys_iff, Dict.contains, h.mem_freeable_keys.mp hk]
    rfl
  rw [h.freeableSlots_eq]
  show _ ∧ _ ≤ m.cached.sumOver _
  rw [sumOver_keys]
  constructor
  · refine List.sum_nonneg fun x hx => ?_
    obtain ⟨k, -, rfl⟩ := List.mem_map.mp hx
    exact Int.natCast_nonneg _
  · obtain ⟨l, hl, hsublist⟩ := List.subperm_of_subset m.freeable.nodup hsub
    have hsum : (l.map fun k => (size k : Int)).sum
        = (m.freeable.keys.map fun k => (size k : Int)).sum := (hl.map _).sum_eq
    rw [← hsum]
    exact (hsublist.map _).sum_le_sum hpos

/-- The slots of an `EncoderCacheManager` in order: both counters, the freeable
entries, and an eviction loop that finds what it pops. -/
structure SlotsInOrder (H : Type) (size : String → Nat) (m : EncoderCacheManager) : Prop where
  free : m.numFreeSlots + m.cachedSlots size = m.cacheSize
  freeable : m.numFreeableSlots
    = m.numFreeSlots + (m.freeable.keys.map fun k => (size k : Int)).sum
  freeable_keys : ∀ mmHash, mmHash ∈ m.freeable.keys ↔ m.cached.get? mmHash = some []
  free_bounds : 0 ≤ m.numFreeSlots ∧ m.numFreeSlots ≤ m.cacheSize
  freeable_bounds : 0 ≤ m.numFreeableSlots ∧ m.numFreeableSlots ≤ m.cacheSize
  evicts : ∀ (r : Request H) (i : Nat) (budget : Int) (numToSchedule : Nat),
    ∃ m' b, m.canAllocate r i budget numToSchedule = .ok (m', b)

theorem Accounted.slotsInOrder (h : Accounted size m) (hfree : 0 ≤ m.numFreeSlots) :
    SlotsInOrder H size m := by
  obtain ⟨hpos, hle⟩ := h.freeableSlots_le
  have hslots := h.slots
  have hfreeable := h.freeable_slots
  refine ⟨hslots, ?_, fun _ => h.mem_freeable_keys, ⟨hfree, by omega⟩, ⟨by omega, by omega⟩, ?_⟩
  · rw [← h.freeableSlots_eq]
    exact hfreeable
  · intro r i budget numToSchedule
    obtain ⟨m', b, hm', -⟩ := h.canAllocate_total r i budget numToSchedule
    exact ⟨m', b, hm'⟩

end EncoderCacheManager

/-! ## Whole rounds -/

namespace EncoderRound

open EncoderCacheManager

/-- The counters are right, and what is promised fits and is not cached yet. -/
structure Kept (size : String → Nat) (cacheSize : Nat) (t : EncoderRound) : Prop where
  accounted : Accounted size t.manager
  capacity : t.manager.cacheSize = cacheSize
  nonneg : 0 ≤ t.manager.numFreeSlots
  nodup : (t.promised.map Prod.fst).Nodup
  sized : ∀ p ∈ t.promised, p.2 = size p.1
  fresh : ∀ p ∈ t.promised, t.manager.cached.get? p.1 = none
  fits : (numEmbeds t.promised : Int) ≤ t.manager.numFreeSlots

variable {size : String → Nat} {cacheSize : Nat}

/-- A round whose promises stay as they are. -/
theorem Kept.keep {m m' : EncoderCacheManager} {ps : List (String × Nat)}
    (h : Kept size cacheSize ⟨m, ps⟩) (hacc : Accounted size m')
    (hcap : m'.cacheSize = m.cacheSize) (hmono : m.numFreeSlots ≤ m'.numFreeSlots)
    (hnone : ∀ mmHash, m.cached.get? mmHash = none → m'.cached.get? mmHash = none) :
    Kept size cacheSize ⟨m', ps⟩ :=
  ⟨hacc, hcap.trans h.capacity, Int.le_trans h.nonneg hmono, h.nodup, h.sized,
    fun p hp => hnone p.1 (h.fresh p hp), Int.le_trans h.fits hmono⟩

theorem numEmbeds_append (ps : List (String × Nat)) (mmHash : String) (n : Nat) :
    numEmbeds (ps ++ [(mmHash, n)]) = numEmbeds ps + n := by
  unfold numEmbeds
  rw [List.map_append, List.sum_append]
  rfl

theorem numEmbeds_perm {ps ps' : List (String × Nat)} {mmHash : String} {n : Nat}
    (h : ps.Perm ((mmHash, n) :: ps')) : numEmbeds ps = n + numEmbeds ps' := by
  unfold numEmbeds
  rw [(h.map Prod.snd).sum_eq]
  rfl

/-- **One call** of the scheduler keeps the round in order. -/
theorem Kept.issue {t u : EncoderRound} {es : List EncoderEvent}
    (h : Kept size cacheSize t) (hstep : Issue (fun r : Request H => r.Sized size) t es u) :
    Kept size cacheSize u := by
  cases hstep with
  | @check m m' ps r i f b hr hf hnew hc =>
    obtain ⟨m₁, b₁, h₁, hacc, hfree, hcap, hkeys, -⟩ := h.accounted.check hf
    obtain ⟨rfl, -⟩ := Prod.mk.inj (Except.ok.inj (h₁.symm.trans hc))
    exact h.keep hacc hcap (Int.le_of_eq hfree.symm) fun mmHash hk => (hkeys mmHash).mpr hk
  | @ask m m' ps r i f b budget hr hf hnew hc =>
    obtain ⟨m₁, b₁, h₁, hacc, hmono, hcap, hnone, -⟩ :=
      h.accounted.canAllocate_total r i budget (numEmbeds ps)
    obtain ⟨rfl, -⟩ := Prod.mk.inj (Except.ok.inj (h₁.symm.trans hc))
    exact h.keep hacc hcap hmono hnone
  | @promise m m' ps r i f budget hr hf hnew hc =>
    obtain ⟨m₁, b₁, h₁, hacc, hmono, hcap, hnone, hfits⟩ :=
      h.accounted.canAllocate_total r i budget (numEmbeds ps)
    obtain ⟨rfl, rfl⟩ := Prod.mk.inj (Except.ok.inj (h₁.symm.trans hc))
    have hkept := h.keep hacc hcap hmono hnone
    have hsize := hr.numEmbeds hf
    have hsized : f.mmPosition.getNumEmbeds = size f.identifier := hr f (List.mem_of_getElem? hf)
    obtain ⟨hfresh, hnotin⟩ := hnew h.accounted.multimodal
    refine ⟨hacc, hkept.capacity, hkept.nonneg, ?_, fun p hp => ?_, fun p hp => ?_, ?_⟩
    · rw [List.map_append]
      refine List.nodup_append.mpr ⟨h.nodup, List.nodup_singleton _, fun a ha b hb => ?_⟩
      rw [List.mem_singleton.mp hb]
      intro heq
      have heq : a = f.identifier := heq
      rw [heq] at ha
      exact hfresh ha
    · obtain hp | hp := List.mem_append.mp hp
      · exact h.sized p hp
      · rw [List.mem_singleton.mp hp]
        exact hsized
    · obtain hp | hp := List.mem_append.mp hp
      · exact hkept.fresh p hp
      · rw [List.mem_singleton.mp hp]
        exact hnone _ hnotin
    · have hle := hfits rfl
      rw [hsize] at hle
      show (numEmbeds (ps ++ [_]) : Int) ≤ m₁.numFreeSlots
      rw [numEmbeds_append, hsized]
      push_cast
      omega
  | @allocate m m' ps ps' r i f hr hf hperm ha =>
    have hmem : (f.identifier, f.mmPosition.getNumEmbeds) ∈ ps :=
      hperm.mem_iff.mpr List.mem_cons_self
    have hsized : f.mmPosition.getNumEmbeds = size f.identifier := hr f (List.mem_of_getElem? hf)
    have htotal := h.fits
    have hsum := numEmbeds_perm hperm
    have hfits : (size f.identifier : Int) ≤ m.numFreeSlots := by
      have hle : (numEmbeds ps : Int) ≤ m.numFreeSlots := htotal
      rw [hsum, hsized] at hle
      push_cast at hle
      omega
    obtain ⟨m₁, h₁, hacc, hfree, hcap, hother⟩ :=
      h.accounted.allocate hr hf (h.fresh _ hmem) hfits
    obtain rfl := Except.ok.inj (h₁.symm.trans ha)
    have hfree : m₁.numFreeSlots = m.numFreeSlots - (size f.identifier : Int) := hfree
    have hnodup : ((f.identifier :: ps'.map Prod.fst)).Nodup :=
      ((hperm.map Prod.fst).nodup_iff).mp h.nodup
    have hsub : ∀ p ∈ ps', p ∈ ps := fun p hp => hperm.mem_iff.mpr (List.mem_cons_of_mem _ hp)
    refine ⟨hacc, hcap.trans h.capacity, ?_, (List.nodup_cons.mp hnodup).2,
      fun p hp => h.sized p (hsub p hp), fun p hp => ?_, ?_⟩
    · show 0 ≤ m₁.numFreeSlots
      rw [hfree]
      omega
    · show m₁.cached.get? p.1 = none
      rw [hother p.1 fun heq => (List.nodup_cons.mp hnodup).1
        (heq ▸ List.mem_map_of_mem hp)]
      exact h.fresh p (hsub p hp)
    · show (numEmbeds ps' : Int) ≤ m₁.numFreeSlots
      have hle : (numEmbeds ps : Int) ≤ m.numFreeSlots := htotal
      rw [hsum, hsized] at hle
      push_cast at hle
      rw [hfree]
      omega
  | drop =>
    exact ⟨h.accounted, h.capacity, h.nonneg, List.nodup_nil, fun _ hp => (nomatch hp),
      fun _ hp => (nomatch hp), h.nonneg⟩
  | @free m ps r i hr =>
    obtain ⟨hacc, hfree, hcap, hnone⟩ := h.accounted.freeInput hr i
    exact h.keep hacc hcap (Int.le_of_eq hfree.symm) hnone
  | @takeFreed m ps =>
    have heq : m.getFreedMmHashes.2 = { m with freed := [] } := by
      unfold getFreedMmHashes
      rw [if_neg h.accounted.not_encoderDecoder]
    have hacc := h.accounted.takeFreed
    rw [heq] at hacc ⊢
    exact h.keep hacc rfl (Int.le_refl _) fun _ hc => hc

theorem init_kept (size : String → Nat) (cacheSize : Nat) :
    Kept size cacheSize ⟨EncoderCacheManager.init false cacheSize, []⟩ :=
  ⟨init_accounted size cacheSize, rfl, Int.natCast_nonneg _, List.nodup_nil,
    fun _ hp => (nomatch hp), fun _ hp => (nomatch hp), Int.natCast_nonneg _⟩

/-- **Every round** that a new manager can come to is in order. -/
theorem Issued.kept {t : EncoderRound} {es : List EncoderEvent}
    (h : Issued (fun r : Request H => r.Sized size)
      ⟨EncoderCacheManager.init false cacheSize, []⟩ es t) : Kept size cacheSize t :=
  h.inv (fun _ _ _ ht hstep => ht.issue hstep) (init_kept size cacheSize)

end EncoderRound

end VllmEngine
