import VllmEngine.Engine.Detokenizer
import VllmEngine.Lib.Occurrences
import Mathlib.Data.List.Find
import Mathlib.Data.Nat.Find

/-!
# Stop strings and the grouping of tokens

`update` looks for stop strings in what its tokens add to the text, so the answer can
depend on how the tokens are grouped. Until a stop string is reported, an update finds the
listed-first of the stop strings that are complete at its end (`update_decoded`); it cuts
the text at that string's first end, wherever in the group it is.

> `groupingFree_iff`: the grouping makes no difference, and no stop string stays in the
> text, exactly when no stop string that is listed earlier is completed by the rest of the
> group, and none ends before the reported one begins.
-/

namespace VllmEngine.Engine

open Occurrences

variable {δ : Type}

/-- `find` searches from where an occurrence ends behind the old text. -/
theorem find_eq_firstEnd {text s : Text} {newCharCount : Nat} (hs : s ≠ [])
    (hzero : newCharCount ≠ 0) (hnew : newCharCount ≤ text.length) :
    find text s (1 - (newCharCount : Int) - s.length) =
      (firstEnd text (text.length - newCharCount) s).map fun p => p - s.length := by
  have hpos : 0 < s.length := List.length_pos_iff.mpr hs
  have hstart : (if 1 - (newCharCount : Int) - s.length < 0
      then ((text.length : Int) + (1 - (newCharCount : Int) - s.length)).toNat
      else (1 - (newCharCount : Int) - s.length).toNat) =
      text.length + 1 - newCharCount - s.length := by
    split <;> omega
  have hfits : ∀ i, s.isPrefixOf (text.drop i) = true → i ≤ text.length →
      i + s.length ≤ text.length := by
    intro i hoccurs hi
    have hle := (List.isPrefixOf_iff_prefix.mp hoccurs).length_le
    rw [List.length_drop] at hle
    omega
  unfold find
  dsimp only
  rw [hstart]
  cases h : firstEnd text (text.length - newCharCount) s with
  | none =>
    rw [firstEnd_eq_none] at h
    show List.find? _ _ = none
    rw [List.find?_eq_none]
    intro i hi hfound
    rw [Bool.and_eq_true, decide_eq_true_eq] at hfound
    rw [List.mem_range] at hi
    have hend := isPrefixOf_drop_iff.mp ⟨hfound.2, hfits i hfound.2 (by omega)⟩
    exact h (i + s.length) (by omega) hend
  | some p =>
    obtain ⟨hlo, hends, hleast⟩ := firstEnd_eq_some.mp h
    have hlen := hends.length_le
    show List.find? _ _ = some (p - s.length)
    rw [List.find?_range_eq_some]
    have hsub : p - s.length + s.length = p := Nat.sub_add_cancel hlen
    refine ⟨?_, ?_, ?_⟩
    · rw [Bool.and_eq_true, decide_eq_true_eq]
      refine ⟨by omega, (isPrefixOf_drop_iff.mpr ?_).1⟩
      rw [hsub]
      exact hends
    · rw [List.mem_range]
      have := hends.1
      omega
    · intro j hj
      rw [Bool.not_eq_true', Bool.and_eq_false_iff]
      by_cases hoccurs : s.isPrefixOf (text.drop j) = true
      · -- an occurrence at `j` would end before `p`
        refine Or.inl (decide_eq_false fun hle => ?_)
        have hend := isPrefixOf_drop_iff.mp ⟨hoccurs, hfits j hoccurs (by have := hends.1; omega)⟩
        exact hleast (j + s.length) (by omega) (by omega) hend
      · exact Or.inr (Bool.eq_false_of_not_eq_true hoccurs)

theorem findSome?_eq_bind {α β : Type} (f : α → Option β) : ∀ (l : List α),
    l.findSome? f = (l.find? fun a => (f a).isSome).bind f
  | [] => rfl
  | a :: l => by
    rw [List.findSome?_cons, List.find?_cons]
    cases h : f a with
    | none => exact findSome?_eq_bind f l
    | some b => exact h.symm

theorem findSome?_congr {α β : Type} {f g : α → Option β} : ∀ {l : List α},
    (∀ a ∈ l, f a = g a) → l.findSome? f = l.findSome? g
  | [], _ => rfl
  | a :: l, h => by
    rw [List.findSome?_cons, List.findSome?_cons, h a List.mem_cons_self,
      findSome?_congr fun b hb => h b (List.mem_cons_of_mem a hb)]

/-- `check_stop_strings` on what stands behind an offset. -/
theorem checkStopStrings_eq {text : Text} {offset : Nat} {stop : List Text}
    (includeInOutput : Bool) (hstop : ∀ s ∈ stop, s ≠ []) (hoffset : offset ≤ text.length) :
    checkStopStrings text (text.length - offset) stop includeInOutput =
      (stop.find? fun s => (firstEnd text offset s).isSome).bind fun s =>
        (firstEnd text offset s).map fun p =>
          (s, if includeInOutput then if text.length ≤ p then none else some p
            else some (p - s.length)) := by
  have hsub : text.length - (text.length - offset) = offset := Nat.sub_sub_self hoffset
  unfold checkStopStrings
  by_cases hzero : text.length - offset = 0
  · -- nothing ends behind the end of the text
    rw [if_pos (Or.inl hzero)]
    have hnone : stop.find? (fun s => (firstEnd text offset s).isSome) = none := by
      rw [List.find?_eq_none]
      intro s _ hsome
      obtain ⟨p, hp⟩ := Option.isSome_iff_exists.mp hsome
      obtain ⟨hlo, hends, -⟩ := firstEnd_eq_some.mp hp
      have := hends.1
      omega
    rw [hnone]
    rfl
  · by_cases hnil : stop = []
    · rw [if_pos (Or.inr hnil), hnil]
      rfl
    · rw [if_neg fun h => h.elim hzero hnil]
      have hfind : ∀ s ∈ stop, find text s (1 - ((text.length - offset : Nat) : Int) - s.length) =
          (firstEnd text offset s).map fun p => p - s.length := by
        intro s hs
        rw [find_eq_firstEnd (hstop s hs) hzero (Nat.sub_le _ _), hsub]
      refine (findSome?_congr (g := fun s => (firstEnd text offset s).map fun p =>
        (s, if includeInOutput then if text.length ≤ p then none else some p
          else some (p - s.length))) fun s hs => ?_).trans ?_
      · rw [hfind s hs]
        cases h : firstEnd text offset s with
        | none => rfl
        | some p =>
          have hlen := (firstEnd_eq_some.mp h).2.1.length_le
          show (if includeInOutput then
              if text.length ≤ p - s.length + s.length then some (s, none)
              else some (s, some (p - s.length + s.length))
            else some (s, some (p - s.length))) = some _
          rw [Nat.sub_add_cancel hlen]
          cases includeInOutput with
          | true =>
            rw [if_pos rfl]
            show _ = some (s, if text.length ≤ p then none else some p)
            split <;> rfl
          | false => rfl
      rw [findSome?_eq_bind]
      have hisSome : (fun s => ((firstEnd text offset s).map fun p =>
          (s, if includeInOutput then if text.length ≤ p then none else some p
            else some (p - s.length))).isSome) = fun s => (firstEnd text offset s).isSome :=
        funext fun s => Option.isSome_map
      rw [hisSome]

namespace BaseDetokenizer

variable (d : BaseDetokenizer δ) (decodeNext : δ → List Token → Token → Text × δ)

/-- `update` with group after group, up to the first stop string. -/
def feed (d : BaseDetokenizer δ) : List (List Token) → Option Text × BaseDetokenizer δ
  | [] => (none, d)
  | newTokenIds :: groups =>
    match d.update decodeNext newTokenIds false with
    | (some stopString, d) => (some stopString, d)
    | (none, d) => feed d groups

/-- The detokenizer of a new request. -/
structure Fresh : Prop where
  outputText : d.outputText = []
  tokenIds : d.tokenIds.length = d.promptLen
  stop : ∀ s ∈ d.stop, s ≠ []

/-! ## The decoded text -/

/-- The detokenizer with all tokens decoded and no stop string evaluated. -/
def decoded (tokens : List Token) : BaseDetokenizer δ :=
  (tokens.foldl (appendToken decodeNext) (d, 0)).1

/-- The length of the text after some tokens. -/
def endOf (tokens : List Token) (i : Nat) : Nat :=
  (d.decoded decodeNext (tokens.take i)).outputText.length

theorem foldl_appendToken_fst : ∀ (tokens : List Token) (s : BaseDetokenizer δ × Nat) (o : Nat),
    (tokens.foldl (appendToken decodeNext) s).1 = (tokens.foldl (appendToken decodeNext) (s.1, o)).1
  | [], _, _ => rfl
  | t :: tokens, s, o => by
    rw [List.foldl_cons, List.foldl_cons, foldl_appendToken_fst tokens _ 0,
      foldl_appendToken_fst tokens (appendToken decodeNext (s.1, o) t) 0]
    rfl

theorem decoded_append (pre tokens : List Token) :
    d.decoded decodeNext (pre ++ tokens) = (d.decoded decodeNext pre).decoded decodeNext tokens := by
  unfold decoded
  rw [List.foldl_append, foldl_appendToken_fst decodeNext tokens _ 0]

/-- The tokens are kept and the text grows. -/
theorem decoded_spec (tokens : List Token) :
    SameConfig d (d.decoded decodeNext tokens) ∧
      (d.decoded decodeNext tokens).tokenIds = d.tokenIds ++ tokens ∧
      d.outputText <+: (d.decoded decodeNext tokens).outputText := by
  obtain ⟨text, hconfig, htext, hids, -⟩ :=
    foldl_appendToken decodeNext tokens (d, 0) (Nat.zero_le _)
  refine ⟨hconfig, hids, ?_⟩
  unfold decoded
  rw [htext]
  exact List.prefix_append _ _

theorem decoded_take_prefix (tokens : List Token) {i j : Nat} (h : i ≤ j) :
    (d.decoded decodeNext (tokens.take i)).outputText <+:
      (d.decoded decodeNext (tokens.take j)).outputText := by
  obtain ⟨rest, hrest⟩ := List.take_prefix_take_left h (l := tokens)
  rw [← hrest, decoded_append]
  exact (decoded_spec _ decodeNext rest).2.2

theorem endOf_le (tokens : List Token) {i j : Nat} (h : i ≤ j) :
    d.endOf decodeNext tokens i ≤ d.endOf decodeNext tokens j :=
  (d.decoded_take_prefix decodeNext tokens h).length_le

/-- The text of the first tokens is the first part of the text. -/
theorem take_endOf (tokens : List Token) (i : Nat) :
    (d.decoded decodeNext (tokens.take i)).outputText =
      (d.decoded decodeNext tokens).outputText.take (d.endOf decodeNext tokens i) := by
  have hoccurs : (d.decoded decodeNext (tokens.take i)).outputText <+:
      (d.decoded decodeNext tokens).outputText := by
    rcases Nat.le_total i tokens.length with hle | hge
    · have htake := d.decoded_take_prefix decodeNext tokens hle
      rw [List.take_length] at htake
      exact htake
    · rw [List.take_of_length_le hge]
  exact List.prefix_iff_eq_take.mp hoccurs

theorem endOf_le_length (tokens : List Token) (i : Nat) :
    d.endOf decodeNext tokens i ≤ (d.decoded decodeNext tokens).outputText.length := by
  have hlen := congrArg List.length (d.take_endOf decodeNext tokens i)
  rw [List.length_take] at hlen
  unfold endOf at hlen ⊢
  omega

/-! ## One update -/

/-- Behind this length stop strings count: behind the text of the first `min_tokens`. -/
def searchStart (tokens : List Token) : Nat := d.endOf decodeNext tokens d.minTokens

/-- The first end of a stop string in the text. -/
def stopEnd (tokens : List Token) (s : Text) : Option Nat :=
  firstEnd (d.decoded decodeNext tokens).outputText (d.searchStart decodeNext tokens) s

/-- The stop string is complete after `i` tokens. -/
def Completed (tokens : List Token) (i : Nat) (s : Text) : Prop :=
  ∃ p ∈ d.stopEnd decodeNext tokens s, p ≤ d.endOf decodeNext tokens i

instance (tokens : List Token) (i : Nat) (s : Text) :
    Decidable (d.Completed decodeNext tokens i s) := by
  unfold Completed
  exact match d.stopEnd decodeNext tokens s with
    | none => isFalse fun ⟨_, h, _⟩ => by cases h
    | some p => decidable_of_iff (p ≤ d.endOf decodeNext tokens i)
        ⟨fun h => ⟨p, rfl, h⟩, fun ⟨_, h, hle⟩ => (Option.mem_some.mp h) ▸ hle⟩

/-- The listed-first of the stop strings that are complete after `i` tokens. -/
def reported (tokens : List Token) (i : Nat) : Option Text :=
  d.stop.find? fun s => decide (d.Completed decodeNext tokens i s)

/-- Where a stop string cuts the text. -/
def cutOf (tokens : List Token) (s : Text) : Nat :=
  match d.stopEnd decodeNext tokens s with
  | some p => if d.includeStopStrInOutput then p else p - s.length
  | none => 0

/-- `stop_check_offset` behind the loop of `update`. -/
theorem foldl_appendToken_snd (hd : d.Fresh) (pre : List Token) (g : List Token) :
    g.foldl (appendToken decodeNext)
        (d.decoded decodeNext pre, (d.decoded decodeNext pre).outputText.length) =
      (d.decoded decodeNext (pre ++ g),
        d.endOf decodeNext (pre ++ g) (max pre.length d.minTokens)) := by
  induction g using List.reverseRecOn with
  | nil =>
    rw [List.foldl_nil, List.append_nil]
    unfold endOf
    rw [List.take_of_length_le (Nat.le_max_left _ _)]
  | append_singleton g t ih =>
    obtain ⟨hconfig, hids, -⟩ := d.decoded_spec decodeNext (pre ++ g ++ [t])
    have hnum : (d.decoded decodeNext (pre ++ g ++ [t])).numOutputTokens =
        (pre ++ g ++ [t]).length := by
      unfold numOutputTokens
      rw [hids, hconfig.promptLen, List.length_append, hd.tokenIds, Nat.add_sub_cancel_left]
    have hnext : ∀ o, appendToken decodeNext (d.decoded decodeNext (pre ++ g), o) t =
        (d.decoded decodeNext (pre ++ g ++ [t]),
          if d.minTokens ≠ 0 ∧ (pre ++ g ++ [t]).length ≤ d.minTokens then
            (d.decoded decodeNext (pre ++ g ++ [t])).outputText.length
          else o) := by
      intro o
      have hdecoded : d.decoded decodeNext (pre ++ g ++ [t]) =
          (appendToken decodeNext (d.decoded decodeNext (pre ++ g), o) t).1 := by
        rw [decoded_append]
        rfl
      rw [← hconfig.minTokens, ← hnum, hdecoded]
      rfl
    rw [List.foldl_append, ih, List.foldl_cons, List.foldl_nil, hnext, List.append_assoc]
    apply congrArg (Prod.mk _)
    rw [← List.append_assoc]
    unfold endOf
    split
    · next hmin =>
      -- still within the first `min_tokens`
      rw [List.take_of_length_le (Nat.le_trans hmin.2 (Nat.le_max_right _ _))]
    · next hmin =>
      have hle : max pre.length d.minTokens ≤ (pre ++ g).length := by
        rw [List.length_append, List.length_singleton] at hmin
        rw [List.length_append] at hmin ⊢
        omega
      rw [List.take_append_of_le_length hle]

/-- The second part of `update` reports the listed-first stop string that ends behind the
offset. -/
theorem evaluateStop_eq (hstop : ∀ s ∈ d.stop, s ≠ []) {offset : Nat}
    (hoffset : offset ≤ d.outputText.length)
    (hmin : d.numOutputTokens ≤ d.minTokens → offset = d.outputText.length) :
    (d.evaluateStop offset).1 =
        d.stop.find? (fun s => (firstEnd d.outputText offset s).isSome) ∧
      ∀ s p, (d.evaluateStop offset).1 = some s → firstEnd d.outputText offset s = some p →
        (d.evaluateStop offset).2.outputText =
          d.outputText.take (if d.includeStopStrInOutput then p else p - s.length) := by
  have hcheck := checkStopStrings_eq d.includeStopStrInOutput hstop hoffset
  have hends : offset = d.outputText.length →
      d.stop.find? (fun s => (firstEnd d.outputText offset s).isSome) = none := by
    rintro rfl
    rw [List.find?_eq_none]
    intro s _ hsome
    obtain ⟨p, hp⟩ := Option.isSome_iff_exists.mp hsome
    obtain ⟨hlo, hends, -⟩ := firstEnd_eq_some.mp hp
    exact absurd hends.1 (Nat.not_le_of_lt hlo)
  unfold evaluateStop
  by_cases hgate : d.stop ≠ [] ∧ d.minTokens < d.numOutputTokens
  · rw [if_pos hgate, hcheck]
    cases hfind : d.stop.find? (fun s => (firstEnd d.outputText offset s).isSome) with
    | none => exact ⟨rfl, fun s p h => by cases h⟩
    | some s =>
      have hsome := List.find?_some hfind
      obtain ⟨p, hp⟩ := Option.isSome_iff_exists.mp hsome
      rw [Option.bind_some, hp, Option.map_some]
      cases hinclude : d.includeStopStrInOutput with
      | true =>
        rw [if_pos rfl]
        by_cases hle : d.outputText.length ≤ p
        · -- the stop string ends the text
          rw [if_pos hle]
          refine ⟨rfl, fun s' p' hs hp' => ?_⟩
          cases hs
          rw [hp] at hp'
          cases hp'
          exact (List.take_of_length_le hle).symm
        · rw [if_neg hle]
          refine ⟨rfl, fun s' p' hs hp' => ?_⟩
          cases hs
          rw [hp] at hp'
          cases hp'
          rfl
      | false =>
        refine ⟨rfl, fun s' p' hs hp' => ?_⟩
        cases hs
        rw [hp] at hp'
        cases hp'
        rfl
  · rw [if_neg hgate]
    refine ⟨?_, fun s p h => by cases h⟩
    by_cases hnil : d.stop = []
    · rw [hnil]
      rfl
    · exact (hends (hmin (Nat.le_of_not_lt fun h => hgate ⟨hnil, h⟩))).symm

theorem evaluateStop_of_none {offset : Nat} (h : (d.evaluateStop offset).1 = none) :
    (d.evaluateStop offset).2 = d := by
  unfold evaluateStop at h ⊢
  split
  · next hgate =>
    rw [if_pos hgate] at h
    split at h
    · cases h
    · cases h
    · rfl
  · rfl

theorem reported_eq_none {tokens : List Token} {i : Nat} :
    d.reported decodeNext tokens i = none ↔
      ∀ s ∈ d.stop, ¬ d.Completed decodeNext tokens i s := by
  unfold reported
  rw [List.find?_eq_none]
  constructor
  · intro h s hs hcompleted
    exact h s hs (decide_eq_true hcompleted)
  · intro h s hs hcompleted
    exact h s hs (of_decide_eq_true hcompleted)

theorem endOf_take (tokens : List Token) (b k : Nat) :
    d.endOf decodeNext (tokens.take b) k = d.endOf decodeNext tokens (min k b) := by
  unfold endOf
  rw [List.take_take]

/-- What an update after `a` tokens finds at the end of token `b`. -/
theorem firstEnd_decoded {tokens : List Token} {a b : Nat} {s : Text} {p : Nat}
    (hprev : ¬ d.Completed decodeNext tokens a s) :
    firstEnd (d.decoded decodeNext (tokens.take b)).outputText
        (d.endOf decodeNext (tokens.take b) (max a d.minTokens)) s = some p ↔
      d.stopEnd decodeNext tokens s = some p ∧ p ≤ d.endOf decodeNext tokens b := by
  rw [take_endOf, endOf_take]
  apply firstEnd_take (d.endOf_le_length decodeNext tokens b)
  · rcases Nat.le_total d.minTokens b with hle | hge
    · exact Or.inl (d.endOf_le decodeNext tokens (Nat.le_min.mpr ⟨Nat.le_max_right _ _, hle⟩))
    · refine Or.inr (d.endOf_le decodeNext tokens ?_)
      exact Nat.le_min.mpr ⟨Nat.le_trans hge (Nat.le_max_right _ _), Nat.le_refl b⟩
  · intro q hlo hq _ hends
    rcases Nat.le_total a d.minTokens with hle | hge
    · rw [Nat.max_eq_right hle] at hq
      have hmono := d.endOf_le decodeNext tokens (Nat.min_le_left d.minTokens b)
      exact absurd (Nat.le_trans hq hmono) (Nat.not_le_of_lt hlo)
    · -- the earlier updates would have seen it
      rw [Nat.max_eq_left hge] at hq
      have hmono := d.endOf_le decodeNext tokens (Nat.min_le_left a b)
      obtain ⟨q', hq', hle⟩ := exists_firstEnd hlo hends
      exact hprev ⟨q', hq', Nat.le_trans hle (Nat.le_trans hq hmono)⟩

theorem decodeTokens_decoded (hd : d.Fresh) (pre g : List Token) :
    (d.decoded decodeNext pre).decodeTokens decodeNext g false =
      (d.decoded decodeNext (pre ++ g),
        d.endOf decodeNext (pre ++ g) (max pre.length d.minTokens)) := by
  unfold decodeTokens
  show (BaseDetokenizer.mk _ _ _ _ _ _ _ _, _) = _
  rw [Bool.false_and]
  simp only [Bool.false_eq_true, if_false]
  rw [d.foldl_appendToken_snd decodeNext hd pre g, List.append_nil]

/-- One update, when no stop string is complete before it. -/
theorem update_decoded (hd : d.Fresh) {tokens pre g post : List Token}
    (htokens : tokens = pre ++ g ++ post)
    (hprev : d.reported decodeNext tokens pre.length = none) :
    ((d.decoded decodeNext pre).update decodeNext g false).1 =
        d.reported decodeNext tokens (pre.length + g.length) ∧
      (((d.decoded decodeNext pre).update decodeNext g false).1 = none →
        ((d.decoded decodeNext pre).update decodeNext g false).2 =
          d.decoded decodeNext (pre ++ g)) ∧
      ∀ s, ((d.decoded decodeNext pre).update decodeNext g false).1 = some s →
        ((d.decoded decodeNext pre).update decodeNext g false).2.outputText =
          (d.decoded decodeNext tokens).outputText.take (d.cutOf decodeNext tokens s) := by
  by_cases hnil : g = []
  · subst hnil
    have hupdate : (d.decoded decodeNext pre).update decodeNext [] false =
        (none, d.decoded decodeNext pre) := rfl
    rw [hupdate, List.append_nil]
    exact ⟨hprev.symm, fun _ => rfl, fun s h => by cases h⟩
  · have hupdate : (d.decoded decodeNext pre).update decodeNext g false =
        (d.decoded decodeNext (pre ++ g)).evaluateStop
          (d.endOf decodeNext (pre ++ g) (max pre.length d.minTokens)) := by
      unfold update
      rw [if_neg hnil, d.decodeTokens_decoded decodeNext hd]
    have htake : pre ++ g = tokens.take (pre.length + g.length) := by
      rw [htokens, ← List.length_append, List.take_left]
    have hprev' := (d.reported_eq_none decodeNext).mp hprev
    obtain ⟨hconfig, hids, -⟩ := d.decoded_spec decodeNext (pre ++ g)
    have hnum : (d.decoded decodeNext (pre ++ g)).numOutputTokens = (pre ++ g).length := by
      unfold numOutputTokens
      rw [hids, hconfig.promptLen, List.length_append, hd.tokenIds, Nat.add_sub_cancel_left]
    have hends : ∀ s ∈ d.stop, ∀ p, firstEnd (d.decoded decodeNext (pre ++ g)).outputText
        (d.endOf decodeNext (pre ++ g) (max pre.length d.minTokens)) s = some p ↔
        d.stopEnd decodeNext tokens s = some p ∧
          p ≤ d.endOf decodeNext tokens (pre.length + g.length) := by
      intro s hs p
      rw [htake]
      exact d.firstEnd_decoded decodeNext (hprev' s hs)
    have heval := (d.decoded decodeNext (pre ++ g)).evaluateStop_eq
      (hconfig.stop ▸ hd.stop)
      (d.endOf_le_length decodeNext (pre ++ g) (max pre.length d.minTokens)) (fun hle => by
        rw [hnum, hconfig.minTokens] at hle
        unfold endOf
        rw [List.take_of_length_le (Nat.le_trans hle (Nat.le_max_right _ _))])
    rw [hconfig.stop] at heval
    rw [hupdate]
    refine ⟨?_, fun h => evaluateStop_of_none _ h, fun s hs => ?_⟩
    · rw [heval.1]
      unfold reported
      apply List.find?_congr
      intro s hs
      rw [Bool.eq_iff_iff, decide_eq_true_iff, Option.isSome_iff_exists]
      exact exists_congr (hends s hs)
    · have hmem : s ∈ d.stop := by
        rw [heval.1] at hs
        exact List.mem_of_find?_eq_some hs
      have hsome := hs
      rw [heval.1] at hsome
      have hisSome := List.find?_some hsome
      obtain ⟨p, hp⟩ := Option.isSome_iff_exists.mp hisSome
      obtain ⟨hstopEnd, hle⟩ := (hends s hmem p).mp hp
      have hcut : d.cutOf decodeNext tokens s =
          if d.includeStopStrInOutput then p else p - s.length := by
        unfold cutOf
        rw [hstopEnd]
      have hcut_le : d.cutOf decodeNext tokens s ≤
          d.endOf decodeNext tokens (pre.length + g.length) := by
        rw [hcut]
        split <;> omega
      rw [heval.2 s p hs hp, hconfig.include_, ← hcut, htake, take_endOf, List.take_take,
        Nat.min_eq_left hcut_le]

/-! ## A feed -/

/-- The numbers of tokens at the ends of the groups. -/
def groupEnds : Nat → List (List Token) → List Nat
  | _, [] => []
  | n, g :: groups => (n + g.length) :: groupEnds (n + g.length) groups

/-- What a feed leaves of the text. -/
def textAfter (tokens : List Token) : Option Text → Text
  | none => (d.decoded decodeNext tokens).outputText
  | some s => (d.decoded decodeNext tokens).outputText.take (d.cutOf decodeNext tokens s)

/-- The first group at whose end a stop string is complete decides. -/
theorem feed_decoded (hd : d.Fresh) {tokens : List Token} : ∀ {groups : List (List Token)}
    {pre : List Token}, tokens = pre ++ groups.flatten →
    d.reported decodeNext tokens pre.length = none →
    ((d.decoded decodeNext pre).feed decodeNext groups).1 =
        (groupEnds pre.length groups).findSome? (d.reported decodeNext tokens) ∧
      ((d.decoded decodeNext pre).feed decodeNext groups).2.outputText =
        d.textAfter decodeNext tokens ((d.decoded decodeNext pre).feed decodeNext groups).1
  | [], pre, htokens, _ => by
    rw [List.flatten_nil, List.append_nil] at htokens
    rw [htokens]
    exact ⟨rfl, rfl⟩
  | g :: groups, pre, htokens, hprev => by
    rw [List.flatten_cons, ← List.append_assoc] at htokens
    obtain ⟨hreported, hnone, hsome⟩ := d.update_decoded decodeNext hd htokens hprev
    unfold feed groupEnds
    rw [List.findSome?_cons, ← hreported]
    generalize hr : (d.decoded decodeNext pre).update decodeNext g false = r at hreported hnone hsome
    obtain ⟨stopString, d'⟩ := r
    cases stopString with
    | some s => exact ⟨rfl, hsome s rfl⟩
    | none =>
      have hd' : d' = d.decoded decodeNext (pre ++ g) := hnone rfl
      have hlen : (pre ++ g).length = pre.length + g.length := List.length_append
      have hnext := feed_decoded hd htokens (by rw [hlen]; exact hreported.symm)
      rw [hlen] at hnext
      subst hd'
      exact hnext

/-- Nothing is complete before the first token. -/
theorem reported_zero (hd : d.Fresh) (tokens : List Token) :
    d.reported decodeNext tokens 0 = none := by
  rw [reported_eq_none]
  rintro s - ⟨p, hp, hle⟩
  have hzero : d.endOf decodeNext tokens 0 = 0 := by
    show (d.outputText).length = 0
    rw [hd.outputText]
    rfl
  have hlo := (firstEnd_eq_some.mp hp).1
  omega

theorem feed_eq (hd : d.Fresh) (groups : List (List Token)) :
    (d.feed decodeNext groups).1 =
        (groupEnds 0 groups).findSome? (d.reported decodeNext groups.flatten) ∧
      (d.feed decodeNext groups).2.outputText =
        d.textAfter decodeNext groups.flatten (d.feed decodeNext groups).1 := by
  have htokens : groups.flatten = [] ++ groups.flatten := rfl
  exact d.feed_decoded decodeNext hd htokens (d.reported_zero decodeNext hd _)

/-! ## Where a group ends -/

theorem le_of_mem_groupEnds : ∀ {groups : List (List Token)} {n e : Nat},
    e ∈ groupEnds n groups → n ≤ e
  | g :: groups, n, e, he => by
    unfold groupEnds at he
    rcases List.mem_cons.mp he with rfl | he
    · exact Nat.le_add_right n _
    · exact Nat.le_trans (Nat.le_add_right n _) (le_of_mem_groupEnds he)

/-- The group of token `i` ends at `e`. -/
structure GroupEnd (n : Nat) (groups : List (List Token)) (i e : Nat) : Prop where
  mem : e ∈ groupEnds n groups
  le : i ≤ e
  least : ∀ e' ∈ groupEnds n groups, i ≤ e' → e ≤ e'

theorem exists_groupEnd {i : Nat} : ∀ {groups : List (List Token)} {n : Nat}, n < i →
    i ≤ n + groups.flatten.length → ∃ e, GroupEnd n groups i e
  | [], n, hn, hi => by
    rw [List.flatten_nil, List.length_nil] at hi
    omega
  | g :: groups, n, hn, hi => by
    rcases Nat.lt_or_ge (n + g.length) i with hlt | hge
    · rw [List.flatten_cons, List.length_append] at hi
      obtain ⟨e, he⟩ := @exists_groupEnd i groups _ hlt (by omega)
      refine ⟨e, List.mem_cons_of_mem _ he.mem, he.le, fun e' he' hle => ?_⟩
      rcases List.mem_cons.mp he' with rfl | he'
      · omega
      · exact he.least e' he' hle
    · refine ⟨n + g.length, List.mem_cons_self, hge, fun e' he' _ => ?_⟩
      rcases List.mem_cons.mp he' with rfl | he'
      · exact Nat.le_refl _
      · exact le_of_mem_groupEnds he'

/-- Where only ends from `i` on answer, the end of the group of `i` does. -/
theorem findSome?_groupEnds {f : Nat → Option Text} {i e : Nat} (hbefore : ∀ j < i, f j = none)
    (hfrom : ∀ j, i ≤ j → f j ≠ none) : ∀ {groups : List (List Token)} {n : Nat},
    GroupEnd n groups i e → (groupEnds n groups).findSome? f = f e
  | [], n, he => absurd he.mem List.not_mem_nil
  | g :: groups, n, he => by
    unfold groupEnds
    rw [List.findSome?_cons]
    rcases Nat.lt_or_ge (n + g.length) i with hlt | hge
    · rw [hbefore _ hlt]
      have hmem : e ∈ groupEnds (n + g.length) groups := by
        rcases List.mem_cons.mp he.mem with rfl | hmem
        · exact absurd he.le (Nat.not_le_of_lt hlt)
        · exact hmem
      exact findSome?_groupEnds hbefore hfrom
        ⟨hmem, he.le, fun e' he' => he.least e' (List.mem_cons_of_mem _ he')⟩
    · have heq : e = n + g.length := by
        have hle := he.least _ List.mem_cons_self hge
        rcases List.mem_cons.mp he.mem with heq | hmem
        · exact heq
        · exact Nat.le_antisymm hle (le_of_mem_groupEnds hmem)
      rw [heq]
      cases hf : f (n + g.length) with
      | none => exact absurd hf (hfrom _ hge)
      | some s => rfl

/-- Tokens one at a time. -/
def singles (tokens : List Token) : List (List Token) := tokens.map fun t => [t]

theorem flatten_singles (tokens : List Token) : (singles tokens).flatten = tokens := by
  unfold singles
  rw [← List.flatMap_def]
  exact List.flatMap_singleton' tokens

theorem groupEnds_singles : ∀ (tokens : List Token) (n : Nat),
    groupEnds n (singles tokens) = List.range' (n + 1) tokens.length
  | [], _ => rfl
  | _ :: tokens, n => congrArg (List.cons (n + 1)) (groupEnds_singles tokens (n + 1))

theorem groupEnd_singles {tokens : List Token} {i : Nat} (hi : 0 < i) (hle : i ≤ tokens.length) :
    GroupEnd 0 (singles tokens) i i := by
  refine ⟨?_, Nat.le_refl i, fun _ _ h => h⟩
  rw [groupEnds_singles, List.mem_range'_1]
  omega

/-! ## Groupings that make no difference -/

/-- Token `i` is the first to complete a stop string. -/
structure FirstCompletion (tokens : List Token) (i : Nat) : Prop where
  some : ∃ s ∈ d.stop, d.Completed decodeNext tokens i s
  least : ∀ j < i, ∀ s ∈ d.stop, ¬ d.Completed decodeNext tokens j s

/-- `s` is the listed-first of the stop strings that are complete after `i` tokens. -/
structure ListedFirst (tokens : List Token) (i : Nat) (before : List Text) (s : Text) : Prop where
  stop : ∃ after, d.stop = before ++ s :: after
  completed : d.Completed decodeNext tokens i s
  before : ∀ s' ∈ before, ¬ d.Completed decodeNext tokens i s'

/-- The condition on a grouping and the stop strings. -/
structure StopsApart (groups : List (List Token)) : Prop where
  /-- No stop string listed earlier is completed in the rest of the group. -/
  listed : ∀ i e, d.FirstCompletion decodeNext groups.flatten i → GroupEnd 0 groups i e →
    ∀ before s, d.ListedFirst decodeNext groups.flatten i before s →
      ∀ s' ∈ before, ¬ d.Completed decodeNext groups.flatten e s'
  /-- No stop string ends before the reported one begins. -/
  clear : d.includeStopStrInOutput = false →
    ∀ i, d.FirstCompletion decodeNext groups.flatten i →
    ∀ before s, d.ListedFirst decodeNext groups.flatten i before s →
    ∀ p ∈ d.stopEnd decodeNext groups.flatten s,
    ∀ s' ∈ d.stop, ∀ q ∈ d.stopEnd decodeNext groups.flatten s', p < q + s.length

/-- The grouping makes no difference, and no excluded stop string stays in the text. -/
structure GroupingFree (groups : List (List Token)) : Prop where
  stopString : (d.feed decodeNext (singles groups.flatten)).1 = (d.feed decodeNext groups).1
  outputText : (d.feed decodeNext (singles groups.flatten)).2.outputText =
    (d.feed decodeNext groups).2.outputText
  excluded : d.includeStopStrInOutput = false → ∀ s ∈ d.stop, ∀ p,
    d.searchStart decodeNext groups.flatten < p →
    ¬ EndsAt (d.feed decodeNext groups).2.outputText s p

section

variable {d} {decodeNext} {tokens : List Token} {i : Nat}

variable {s : Text} {before : List Text} {groups : List (List Token)}

theorem Completed.mono (h : d.Completed decodeNext tokens i s) {j : Nat} (hle : i ≤ j) :
    d.Completed decodeNext tokens j s := by
  obtain ⟨p, hp, hpi⟩ := h
  exact ⟨p, hp, Nat.le_trans hpi (d.endOf_le decodeNext tokens hle)⟩

theorem endOf_length : d.endOf decodeNext tokens tokens.length =
    (d.decoded decodeNext tokens).outputText.length := by
  unfold endOf
  rw [List.take_length]

theorem Completed.at_length (h : d.Completed decodeNext tokens i s) :
    d.Completed decodeNext tokens tokens.length s := by
  obtain ⟨p, hp, hpi⟩ := h
  refine ⟨p, hp, ?_⟩
  rw [endOf_length]
  exact Nat.le_trans hpi (d.endOf_le_length decodeNext tokens i)

theorem FirstCompletion.le (h : d.FirstCompletion decodeNext tokens i) : i ≤ tokens.length := by
  obtain ⟨s, hs, hcompleted⟩ := h.some
  exact Nat.le_of_not_lt fun hlt => h.least _ hlt s hs hcompleted.at_length

theorem FirstCompletion.pos (hd : d.Fresh) (h : d.FirstCompletion decodeNext tokens i) : 0 < i := by
  obtain ⟨s, hs, hcompleted⟩ := h.some
  refine Nat.pos_of_ne_zero fun hzero => ?_
  subst hzero
  exact (d.reported_eq_none decodeNext).mp (d.reported_zero decodeNext hd tokens) s hs hcompleted

theorem ListedFirst.reported (h : d.ListedFirst decodeNext tokens i before s) :
    d.reported decodeNext tokens i = Option.some s := by
  obtain ⟨after, hstop⟩ := h.stop
  unfold BaseDetokenizer.reported
  rw [List.find?_eq_some_iff_append]
  refine ⟨decide_eq_true h.completed, before, after, hstop, fun s' hs' => ?_⟩
  rw [decide_eq_false (h.before s' hs')]
  rfl

theorem listedFirst_of_reported (h : d.reported decodeNext tokens i = Option.some s) :
    ∃ before, d.ListedFirst decodeNext tokens i before s := by
  unfold BaseDetokenizer.reported at h
  obtain ⟨hcompleted, before, after, hstop, hbefore⟩ := List.find?_eq_some_iff_append.mp h
  refine ⟨before, ⟨after, hstop⟩, of_decide_eq_true hcompleted, fun s' hs' hc => ?_⟩
  have hnot := hbefore s' hs'
  rw [decide_eq_true hc] at hnot
  exact Bool.false_ne_true hnot

/-- What a feed reports when token `i` is the first to complete a stop string. -/
theorem FirstCompletion.feed (hd : d.Fresh) {e : Nat}
    (h : d.FirstCompletion decodeNext groups.flatten i) (he : GroupEnd 0 groups i e) :
    (d.feed decodeNext groups).1 = d.reported decodeNext groups.flatten e := by
  rw [(d.feed_eq decodeNext hd groups).1]
  apply findSome?_groupEnds (i := i)
  · intro j hj
    exact (d.reported_eq_none decodeNext).mpr (h.least j hj)
  · intro j hj hnone
    obtain ⟨s, hs, hcompleted⟩ := h.some
    exact (d.reported_eq_none decodeNext).mp hnone s hs (hcompleted.mono hj)
  · exact he

theorem FirstCompletion.feed_singles (hd : d.Fresh)
    (h : d.FirstCompletion decodeNext groups.flatten i) :
    (d.feed decodeNext (singles groups.flatten)).1 = d.reported decodeNext groups.flatten i := by
  have hflatten := flatten_singles groups.flatten
  have h' : d.FirstCompletion decodeNext (singles groups.flatten).flatten i := hflatten.symm ▸ h
  rw [h'.feed hd (groupEnd_singles (h.pos hd) h.le), hflatten]

/-- A feed of tokens that complete no stop string. -/
theorem feed_of_not_completed (hd : d.Fresh)
    (h : ∀ s ∈ d.stop, ¬ d.Completed decodeNext groups.flatten groups.flatten.length s) :
    (d.feed decodeNext groups).1 = none := by
  rw [(d.feed_eq decodeNext hd groups).1, List.findSome?_eq_none_iff]
  intro j _
  rw [reported_eq_none]
  exact fun s hs hcompleted => h s hs hcompleted.at_length

theorem exists_firstCompletion (hs : s ∈ d.stop) (h : d.Completed decodeNext tokens tokens.length s) :
    ∃ i, d.FirstCompletion decodeNext tokens i := by
  have hex : ∃ i, d.reported decodeNext tokens i ≠ none :=
    ⟨tokens.length, fun hnone => (d.reported_eq_none decodeNext).mp hnone s hs h⟩
  refine ⟨Nat.find hex, ?_, fun j hj => ?_⟩
  · obtain ⟨s', hs'⟩ := Option.ne_none_iff_exists'.mp (Nat.find_spec hex)
    obtain ⟨before, hfirst⟩ := listedFirst_of_reported hs'
    obtain ⟨after, hstop⟩ := hfirst.stop
    refine ⟨s', ?_, hfirst.completed⟩
    rw [hstop]
    exact List.mem_append_right before List.mem_cons_self
  · exact (d.reported_eq_none decodeNext).mp (not_not.mp (Nat.find_min hex hj))

theorem completed_of_endsAt {p : Nat} (hlo : d.searchStart decodeNext tokens < p)
    (hends : EndsAt (d.decoded decodeNext tokens).outputText s p) :
    d.Completed decodeNext tokens tokens.length s := by
  obtain ⟨q, hq, hle⟩ := exists_firstEnd hlo hends
  refine ⟨q, hq, ?_⟩
  rw [endOf_length]
  exact Nat.le_trans hle hends.1

theorem cutOf_excluded {p : Nat} (hinclude : d.includeStopStrInOutput = false)
    (hp : d.stopEnd decodeNext tokens s = some p) : d.cutOf decodeNext tokens s = p - s.length := by
  unfold cutOf
  rw [hp]
  show (if d.includeStopStrInOutput = true then p else p - s.length) = _
  rw [if_neg (by rw [hinclude]; exact Bool.false_ne_true)]

/-- The listed-first stop string at token `i` is the one at the end of its group, when none
before it is completed in between. -/
theorem ListedFirst.mono {e : Nat} (h : d.ListedFirst decodeNext tokens i before s) (hle : i ≤ e)
    (hbefore : ∀ s' ∈ before, ¬ d.Completed decodeNext tokens e s') :
    d.ListedFirst decodeNext tokens e before s :=
  ⟨h.stop, h.completed.mono hle, hbefore⟩

/-- A stop string before `s` in the list that is complete is reported instead of `s`. -/
theorem ListedFirst.reported_ne {s' : Text} {e : Nat}
    (h : d.ListedFirst decodeNext tokens i before s) (hs' : s' ∈ before)
    (hcompleted : d.Completed decodeNext tokens e s') :
    d.reported decodeNext tokens e ≠ some s := by
  intro hreported
  obtain ⟨after, hstop⟩ := h.stop
  unfold BaseDetokenizer.reported at hreported
  rw [hstop, List.find?_append] at hreported
  cases hfind : before.find? (fun s => decide (d.Completed decodeNext tokens e s)) with
  | none => exact List.find?_eq_none.mp hfind s' hs' (decide_eq_true hcompleted)
  | some s'' =>
    rw [hfind] at hreported
    cases hreported
    exact h.before s (List.mem_of_find?_eq_some hfind) h.completed

theorem StopsApart.groupingFree (hd : d.Fresh) (h : d.StopsApart decodeNext groups) :
    d.GroupingFree decodeNext groups := by
  have htext := (d.feed_eq decodeNext hd groups).2
  have htext' := (d.feed_eq decodeNext hd (singles groups.flatten)).2
  rw [flatten_singles] at htext'
  by_cases hnone : ∀ s ∈ d.stop, ¬ d.Completed decodeNext groups.flatten groups.flatten.length s
  · -- no stop string is ever complete
    have hfeed := feed_of_not_completed hd hnone
    have hfeed' : (d.feed decodeNext (singles groups.flatten)).1 = none := by
      apply feed_of_not_completed hd
      rw [flatten_singles]
      exact hnone
    rw [hfeed] at htext
    rw [hfeed'] at htext'
    refine ⟨hfeed'.trans hfeed.symm, htext'.trans htext.symm, fun _ s hs p hlo hends => ?_⟩
    rw [htext] at hends
    exact hnone s hs (completed_of_endsAt hlo hends)
  · obtain ⟨s₀, hs₀⟩ := not_forall.mp hnone
    obtain ⟨hmem, hcompleted⟩ := Classical.not_imp.mp hs₀
    obtain ⟨i, hi⟩ := exists_firstCompletion hmem (not_not.mp hcompleted)
    obtain ⟨e, he⟩ := @exists_groupEnd i groups 0 (hi.pos hd) (by rw [Nat.zero_add]; exact hi.le)
    have hsome : d.reported decodeNext groups.flatten i ≠ none := by
      obtain ⟨s, hs, hc⟩ := hi.some
      exact fun hzero => (d.reported_eq_none decodeNext).mp hzero s hs hc
    obtain ⟨s, hs⟩ := Option.ne_none_iff_exists'.mp hsome
    obtain ⟨before, hfirst⟩ := listedFirst_of_reported hs
    have hgroup := hfirst.mono he.le (h.listed i e hi he before s hfirst)
    have hfeed := (hi.feed hd he).trans hgroup.reported
    have hfeed' := (hi.feed_singles hd).trans hfirst.reported
    rw [hfeed] at htext
    rw [hfeed'] at htext'
    refine ⟨hfeed'.trans hfeed.symm, htext'.trans htext.symm, fun hinclude s' hs' q hlo hends => ?_⟩
    obtain ⟨p, hp, -⟩ := hfirst.completed
    have hlen := (firstEnd_eq_some.mp hp).2.1
    have hslen := hlen.length_le
    rw [htext] at hends
    have hcut := cutOf_excluded hinclude hp
    have hcut_le : p - s.length ≤ (d.decoded decodeNext groups.flatten).outputText.length :=
      Nat.le_trans (Nat.sub_le _ _) hlen.1
    have hends' : EndsAt ((d.decoded decodeNext groups.flatten).outputText.take (p - s.length))
        s' q := by
      rw [← hcut]
      exact hends
    obtain ⟨hq, hends'⟩ := (endsAt_take hcut_le).mp hends'
    obtain ⟨q', hq', hle⟩ := exists_firstEnd hlo hends'
    have hclear := h.clear hinclude i hi before s hfirst p hp s' hs' q' hq'
    omega

theorem GroupingFree.stopsApart (hd : d.Fresh) (h : d.GroupingFree decodeNext groups) :
    d.StopsApart decodeNext groups := by
  have hgroup : ∀ {i before s e}, d.FirstCompletion decodeNext groups.flatten i →
      d.ListedFirst decodeNext groups.flatten i before s → GroupEnd 0 groups i e →
      d.reported decodeNext groups.flatten e = some s := by
    intro i before s e hi hfirst he
    rw [← hi.feed hd he, ← h.stopString, hi.feed_singles hd]
    exact hfirst.reported
  refine ⟨fun i e hi he before s hfirst s' hs' hcompleted => ?_,
    fun hinclude i hi before s hfirst p hp s' hs' q hq => ?_⟩
  · exact hfirst.reported_ne hs' hcompleted (hgroup hi hfirst he)
  · obtain ⟨e, he⟩ := @exists_groupEnd i groups 0 (hi.pos hd) (by rw [Nat.zero_add]; exact hi.le)
    have htext := (d.feed_eq decodeNext hd groups).2
    rw [hi.feed hd he, hgroup hi hfirst he] at htext
    have hcut := cutOf_excluded hinclude hp
    obtain ⟨hlo, hends, -⟩ := firstEnd_eq_some.mp hq
    have hpends := (firstEnd_eq_some.mp hp).2.1
    refine Nat.lt_of_not_le fun hle => h.excluded hinclude s' hs' q hlo ?_
    rw [htext]
    show EndsAt (List.take (d.cutOf decodeNext groups.flatten s) _) s' q
    rw [hcut, endsAt_take (Nat.le_trans (Nat.sub_le _ _) hpends.1)]
    exact ⟨by omega, hends⟩

/-- Exactly the groupings and stop strings that meet the condition make no difference. -/
theorem groupingFree_iff (hd : d.Fresh) (groups : List (List Token)) :
    d.GroupingFree decodeNext groups ↔ d.StopsApart decodeNext groups :=
  ⟨fun h => h.stopsApart hd, fun h => h.groupingFree hd⟩

end

/-! ## Two stop strings in one group -/

/-- Tokens 1 and 2 are the texts `a` and `b`, other tokens are `c`; the stop strings are `b` and `a`. -/
def decodeLetter (_ : Unit) (_ : List Token) (t : Token) : Text × Unit :=
  (if t = 1 then ['a'] else if t = 2 then ['b'] else ['c'], ())

def stopAtLetters : BaseDetokenizer Unit where
  promptLen := 0
  stop := [['b'], ['a']]
  minTokens := 0
  includeStopStrInOutput := false
  tokenIds := []
  lastOutputTextOffset := 0
  outputText := []
  decoder := ()

theorem stopAtLetters_fresh : stopAtLetters.Fresh := by
  refine ⟨rfl, rfl, fun s hs => ?_⟩
  rcases List.mem_cons.mp hs with rfl | hs
  · exact List.cons_ne_nil _ _
  · rw [List.mem_singleton.mp hs]
    exact List.cons_ne_nil _ _

/-- One at a time `a` stops the text before its first character; together `b` stops it
behind `a`. -/
theorem grouping_changes_stop : ¬ stopAtLetters.GroupingFree decodeLetter [[1, 2]] := by
  intro h
  have hstop := h.stopString
  revert hstop
  decide

/-- With `c` in front of `b` it makes no difference that they come together. -/
theorem groupingFree_iff_letters : stopAtLetters.GroupingFree decodeLetter [[3, 2], [1]] ∧
    stopAtLetters.StopsApart decodeLetter [[3, 2], [1]] := by
  have hfree : stopAtLetters.GroupingFree decodeLetter [[3, 2], [1]] := by
    refine ⟨by decide, by decide, fun _ s hs p _ hends => ?_⟩
    obtain ⟨hle, hsuffix⟩ := hends
    have hle : p ≤ 1 := hle
    have hall : ∀ q ≤ 1, ∀ s ∈ stopAtLetters.stop, ¬ s <:+ (['c'].take q) := by decide
    exact hall p hle s hs hsuffix
  exact ⟨hfree, (groupingFree_iff stopAtLetters_fresh [[3, 2], [1]]).mp hfree⟩

end BaseDetokenizer
end VllmEngine.Engine
