import VllmEngine.Lib.Python

/-!
# Finding a marker in a text of tokens

`find` and `partition` are Python's. The second half is about a text that is put
together from the texts of tokens: where a marker's text occurs only through the
marker's own token, the first occurrence in the text is the first such token.

> `Markers.find_textOf`, `Markers.partition_textOf`: searching the text is
> searching the tokens.

`before` and `after` are the tokens on the two sides of the first marker.
-/

namespace Python

variable {α : Type} [DecidableEq α]

/-- Where `sub` first occurs in a sequence. -/
def find? (sub : List α) : List α → Option Nat
  | [] => if sub = [] then some 0 else none
  | c :: s => if sub.isPrefixOf (c :: s) then some 0 else (find? sub s).map (· + 1)

/-- `s.find(sub)`. -/
def find (s sub : List α) : Int :=
  match find? sub s with
  | some i => i
  | none => -1

/-- `s.partition(sep)`. -/
def partition (s sep : List α) : List α × List α × List α :=
  match find? sep s with
  | some i => (s.take i, sep, s.drop (i + sep.length))
  | none => (s, [], [])

theorem find?_of_prefix {sub s : List α} (h : sub <+: s) : find? sub s = some 0 := by
  cases s with
  | nil => rw [find?, if_pos (List.prefix_nil.mp h)]
  | cons c s => rw [find?, if_pos (List.isPrefixOf_iff_prefix.mpr h)]

theorem find?_cons_of_not {sub s : List α} {c : α} (h : ¬ sub <+: c :: s) :
    find? sub (c :: s) = (find? sub s).map (· + 1) := by
  rw [find?, if_neg fun hp => h (List.isPrefixOf_iff_prefix.mp hp)]

/-- An occurrence that no earlier one precedes is the one found. -/
theorem find?_eq_some {sub : List α} : ∀ {u v : List α},
    (∀ u' v', u ++ sub ++ v = u' ++ sub ++ v' → u.length ≤ u'.length) →
    find? sub (u ++ sub ++ v) = some u.length
  | [], v, _ => find?_of_prefix (List.prefix_append sub v)
  | c :: u, v, h => by
    have hnot : ¬ sub <+: c :: (u ++ sub ++ v) := by
      rintro ⟨v', hv'⟩
      have hle := h [] v' hv'.symm
      rw [List.length_cons, List.length_nil] at hle
      omega
    have ih : find? sub (u ++ sub ++ v) = some u.length := by
      apply find?_eq_some
      intro u' v' he
      have hle := h (c :: u') v' (congrArg (c :: ·) he)
      rw [List.length_cons, List.length_cons] at hle
      omega
    show find? sub (c :: (u ++ sub ++ v)) = some (c :: u).length
    rw [find?_cons_of_not hnot, ih]
    rfl

theorem find?_eq_none {sub : List α} : ∀ {s : List α},
    (∀ u v, s ≠ u ++ sub ++ v) → find? sub s = none
  | [], h => by
    have hne : sub ≠ [] := by
      rintro rfl
      exact h [] [] rfl
    rw [find?, if_neg hne]
  | c :: s, h => by
    have hnot : ¬ sub <+: c :: s := by
      rintro ⟨v, hv⟩
      exact h [] v hv.symm
    rw [find?_cons_of_not hnot,
      find?_eq_none fun u v he => h (c :: u) v (congrArg (c :: ·) he)]
    rfl

end Python

namespace Markers

variable {τ α : Type} (text : τ → List α)

/-! ## The text of tokens -/

/-- The text of a sequence of tokens that are decoded one by one. -/
def textOf (ids : List τ) : List α := ids.flatMap text

@[simp] theorem textOf_nil : textOf text [] = [] := rfl

@[simp] theorem textOf_cons (t : τ) (ids : List τ) :
    textOf text (t :: ids) = text t ++ textOf text ids := List.flatMap_cons

@[simp] theorem textOf_append (ids ids' : List τ) :
    textOf text (ids ++ ids') = textOf text ids ++ textOf text ids' := List.flatMap_append

/-- The text of `m` occurs in the text of the tokens only through `m` itself. -/
def OnlyAs (m : τ) (ids : List τ) : Prop :=
  ∀ u v, textOf text ids = u ++ text m ++ v →
    ∃ ids₁ ids₂, ids = ids₁ ++ m :: ids₂ ∧ textOf text ids₁ = u

section

variable {text} {m : τ}

variable {ids ids' : List τ}

/-- A part of the tokens inherits this: an occurrence in the part's text is one in
the whole text, and its token cannot lie outside the part. -/
theorem OnlyAs.part {ids₁ ids₂ : List τ} (h : OnlyAs text m (ids₁ ++ ids ++ ids₂))
    (hm : text m ≠ []) : OnlyAs text m ids := by
  intro u v hu
  have hpos := List.length_pos_iff.mpr hm
  have hlen := congrArg List.length hu
  rw [List.length_append, List.length_append] at hlen
  obtain ⟨a, b, he, ha⟩ := h (textOf text ids₁ ++ u) (v ++ textOf text ids₂) (by
    rw [textOf_append, textOf_append, hu]
    simp only [List.append_assoc])
  have halen := congrArg List.length ha
  rw [List.length_append] at halen
  rw [List.append_assoc] at he
  rcases List.append_eq_append_iff.mp he with ⟨c, rfl, hc⟩ | ⟨c, hc, he'⟩
  · -- the token comes after `ids₁`
    rw [textOf_append, List.append_cancel_left_eq] at ha
    rcases List.append_eq_append_iff.mp hc with ⟨e, rfl, he'⟩ | ⟨e, rfl, he'⟩
    · -- and after `ids`, which is too far
      rw [textOf_append] at ha
      have hue := congrArg List.length ha
      rw [List.length_append] at hue
      omega
    · cases e with
      | nil =>
        rw [List.append_nil] at hlen
        have hue := congrArg List.length ha
        omega
      | cons x e =>
        rw [List.cons_append, List.cons.injEq] at he'
        obtain ⟨rfl, -⟩ := he'
        exact ⟨c, e, rfl, ha⟩
  · cases c with
    | nil =>
      -- it is the first token after `ids₁`
      rw [List.append_nil] at hc
      subst hc
      rw [List.self_eq_append_right] at ha
      subst ha
      cases ids with
      | nil =>
        rw [textOf_nil, List.length_nil] at hlen
        omega
      | cons x ids =>
        rw [List.nil_append, List.cons_append, List.cons.injEq] at he'
        obtain ⟨rfl, -⟩ := he'
        exact ⟨[], ids, rfl, rfl⟩
    | cons x c =>
      -- within `ids₁` it would end before the part's text begins
      rw [List.cons_append, List.cons.injEq] at he'
      obtain ⟨rfl, -⟩ := he'
      rw [hc, textOf_append, textOf_cons, List.length_append, List.length_append] at halen
      omega

theorem OnlyAs.of_append_left (h : OnlyAs text m (ids ++ ids')) (hm : text m ≠ []) :
    OnlyAs text m ids :=
  OnlyAs.part (show OnlyAs text m ([] ++ ids ++ ids') from h) hm

theorem OnlyAs.of_append_right (h : OnlyAs text m (ids ++ ids')) (hm : text m ≠ []) :
    OnlyAs text m ids' :=
  OnlyAs.part (show OnlyAs text m (ids ++ ids' ++ []) by rwa [List.append_nil]) hm

/-- It is enough to look at every position of the text. -/
theorem onlyAs_of_positions [DecidableEq α]
    (h : ∀ i ≤ (textOf text ids).length, text m <+: (textOf text ids).drop i → ∃ k < ids.length, ids[k]? = some m ∧ textOf text (ids.take k) = (textOf text ids).take i) :
    OnlyAs text m ids := by
  intro u v hu
  have hlen : u.length ≤ (textOf text ids).length := by
    rw [hu, List.length_append, List.length_append]
    omega
  have hdrop : (textOf text ids).drop u.length = text m ++ v := by
    rw [hu, List.append_assoc, List.drop_left]
  have htake : (textOf text ids).take u.length = u := by
    rw [hu, List.append_assoc, List.take_left]
  obtain ⟨k, -, hk, ht⟩ := h u.length hlen (hdrop ▸ List.prefix_append _ v)
  obtain ⟨hlt, rfl⟩ := List.getElem?_eq_some_iff.mp hk
  refine ⟨ids.take k, ids.drop (k + 1), ?_, ht.trans htake⟩
  rw [List.getElem_cons_drop, List.take_append_drop]

/-! ## Searching -/

section

variable [DecidableEq α]

theorem find?_textOf {a b : List τ} (h : OnlyAs text m (a ++ m :: b)) (hm : m ∉ a) :
    Python.find? (text m) (textOf text (a ++ m :: b)) = some (textOf text a).length := by
  have hsplit : textOf text (a ++ m :: b) = textOf text a ++ text m ++ textOf text b := by
    rw [textOf_append, textOf_cons, List.append_assoc]
  rw [hsplit]
  apply Python.find?_eq_some
  intro u v he
  obtain ⟨a', b', he', rfl⟩ := h u v (hsplit.trans he)
  -- no occurrence of the token ends before the first one
  rcases List.append_eq_append_iff.mp he' with ⟨c, rfl, hc⟩ | ⟨c, hc, he''⟩
  · rw [textOf_append, List.length_append]
    omega
  · cases c with
    | nil =>
      rw [List.append_nil] at hc
      rw [hc]
    | cons x c =>
      rw [List.cons_append, List.cons.injEq] at he''
      exact absurd (hc ▸ List.mem_append_right a' (he''.1 ▸ List.mem_cons_self)) hm

theorem find?_textOf_none {ids : List τ} (h : OnlyAs text m ids) (hm : m ∉ ids) :
    Python.find? (text m) (textOf text ids) = none := by
  apply Python.find?_eq_none
  intro u v he
  obtain ⟨a, b, rfl, -⟩ := h u v he
  exact hm (List.mem_append_right a List.mem_cons_self)

theorem partition_textOf_none {ids : List τ} (h : OnlyAs text m ids) (hm : m ∉ ids) :
    Python.partition (textOf text ids) (text m) = (textOf text ids, [], []) := by
  rw [Python.partition, find?_textOf_none h hm]

end

/-! ## Around the first marker -/

variable [DecidableEq τ]

/-- The tokens before the first `m`. -/
def before (m : τ) (ids : List τ) : List τ := ids.takeWhile fun t => decide (t ≠ m)

/-- The tokens after the first `m`. -/
def after (m : τ) (ids : List τ) : List τ := (ids.dropWhile fun t => decide (t ≠ m)).drop 1

theorem not_mem_before (m : τ) : ∀ (ids : List τ), m ∉ before m ids
  | [] => List.not_mem_nil
  | t :: ids => by
    unfold before
    by_cases h : t = m
    · rw [List.takeWhile_cons_of_neg (by simp [h])]
      exact List.not_mem_nil
    · rw [List.takeWhile_cons_of_pos (by simp [h])]
      intro hm
      rcases List.mem_cons.mp hm with rfl | hm
      · exact h rfl
      · exact not_mem_before m ids hm

theorem before_append_after : ∀ {ids : List τ}, m ∈ ids → before m ids ++ m :: after m ids = ids
  | t :: ids, hm => by
    unfold before after
    by_cases h : t = m
    · rw [List.takeWhile_cons_of_neg (by simp [h]), List.dropWhile_cons_of_neg (by simp [h]), h]
      rfl
    · rw [List.takeWhile_cons_of_pos (by simp [h]), List.dropWhile_cons_of_pos (by simp [h])]
      have hm' : m ∈ ids := (List.mem_cons.mp hm).resolve_left fun he => h he.symm
      exact congrArg (t :: ·) (before_append_after hm')

theorem before_cons_self {a b : List τ} (hm : m ∉ a) :
    before m (a ++ m :: b) = a := by
  unfold before
  rw [List.takeWhile_append_of_pos fun t ht => decide_eq_true (by rintro rfl; exact hm ht),
    List.takeWhile_cons_of_neg (by simp), List.append_nil]

theorem after_cons_self {a b : List τ} (hm : m ∉ a) :
    after m (a ++ m :: b) = b := by
  unfold after
  rw [List.dropWhile_append_of_pos fun t ht => decide_eq_true (by rintro rfl; exact hm ht),
    List.dropWhile_cons_of_neg (by simp)]
  rfl

theorem after_self (m : τ) : after m [m] = [] :=
  after_cons_self (a := []) List.not_mem_nil

/-- More tokens do not move the first marker. -/
theorem after_append (hm : m ∈ ids) (ids' : List τ) :
    after m (ids ++ ids') = after m ids ++ ids' := by
  have h : ids ++ ids' = before m ids ++ m :: (after m ids ++ ids') := by
    rw [← List.cons_append, ← List.append_assoc, before_append_after hm]
  rw [h, after_cons_self (not_mem_before m ids)]

theorem before_append (hm : m ∈ ids) (ids' : List τ) : before m (ids ++ ids') = before m ids := by
  have h : ids ++ ids' = before m ids ++ m :: (after m ids ++ ids') := by
    rw [← List.cons_append, ← List.append_assoc, before_append_after hm]
  rw [h, before_cons_self (not_mem_before m ids)]

theorem after_append_of_not_mem (hm : m ∉ ids) (hm' : m ∈ ids') :
    after m (ids ++ ids') = after m ids' := by
  have h : ids ++ ids' = (ids ++ before m ids') ++ m :: after m ids' := by
    rw [List.append_assoc, before_append_after hm']
  have hnot : m ∉ ids ++ before m ids' := by
    rw [List.mem_append, not_or]
    exact ⟨hm, not_mem_before m ids'⟩
  rw [h, after_cons_self hnot]

theorem before_append_of_not_mem (hm : m ∉ ids) (hm' : m ∈ ids') :
    before m (ids ++ ids') = ids ++ before m ids' := by
  have h : ids ++ ids' = (ids ++ before m ids') ++ m :: after m ids' := by
    rw [List.append_assoc, before_append_after hm']
  have hnot : m ∉ ids ++ before m ids' := by
    rw [List.mem_append, not_or]
    exact ⟨hm, not_mem_before m ids'⟩
  rw [h, before_cons_self hnot]

/-- The marker's text is all that is missing. -/
theorem length_textOf_around (hm : m ∈ ids) :
    (textOf text ids).length =
      (textOf text (before m ids)).length + (text m).length + (textOf text (after m ids)).length := by
  have h := congrArg (fun l => (textOf text l).length) (before_append_after hm)
  simp only [textOf_append, textOf_cons, List.length_append] at h
  omega

variable [DecidableEq α]

theorem find_textOf (h : OnlyAs text m ids) (hm : m ∈ ids) :
    Python.find (textOf text ids) (text m) = ((textOf text (before m ids)).length : Int) := by
  have hfind := find?_textOf (by rwa [before_append_after hm]) (not_mem_before m ids)
  rw [before_append_after hm] at hfind
  rw [Python.find, hfind]

theorem partition_textOf (h : OnlyAs text m ids) (hm : m ∈ ids) :
    Python.partition (textOf text ids) (text m) =
      (textOf text (before m ids), text m, textOf text (after m ids)) := by
  obtain ⟨a, b, rfl, ha⟩ := List.eq_append_cons_of_mem hm
  rw [before_cons_self ha, after_cons_self ha, Python.partition, find?_textOf h ha, textOf_append,
    textOf_cons]
  show ((_ : List α), text m, _) = _
  rw [List.take_left, ← List.append_assoc, ← List.length_append, List.drop_left]

end

end Markers
