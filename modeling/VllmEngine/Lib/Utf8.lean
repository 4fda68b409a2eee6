import Mathlib.Data.List.Infix

/-!
# Decoders

A decoder reads symbols one by one, writes characters as it goes, and writes what is
left in its state at the end. A text that leaves it in its initial state is aligned: it
can be cut there, and both sides decoded on their own.

> `decode_append`: decoding cut at an aligned prefix,
> `Synchronising.aligned_of_append`: a decoder that falls back into step is aligned
> after every suffix of an aligned text,
> `Marking.aligned`: when what is left over ends in a mark, a text that does not
> decode to something with the mark at its end is aligned.
-/

/-- A decoder with states `S` from symbols `B` to characters `C`. -/
structure Decoder (S B C : Type) where
  initial : S
  step : S → B → S × List C
  /-- What is written for the state at the end. -/
  flush : S → List C
  flush_initial : flush initial = []

namespace Decoder

variable {S B C : Type} (d : Decoder S B C)

/-- The state after a text, and what was written. -/
def run : S → List B → S × List C
  | s, [] => (s, [])
  | s, b :: bs => ((run (d.step s b).1 bs).1, (d.step s b).2 ++ (run (d.step s b).1 bs).2)

def decode (bs : List B) : List C := (d.run d.initial bs).2 ++ d.flush (d.run d.initial bs).1

/-- The decoder is back in its initial state. -/
def Aligned (bs : List B) : Prop := (d.run d.initial bs).1 = d.initial

theorem run_append (s : S) (as bs : List B) : d.run s (as ++ bs) =
    ((d.run (d.run s as).1 bs).1, (d.run s as).2 ++ (d.run (d.run s as).1 bs).2) := by
  induction as generalizing s with
  | nil => rfl
  | cons a as ih => rw [List.cons_append, run, ih, run, List.append_assoc]

variable {d}

theorem decode_nil : d.decode [] = [] := by
  show [] ++ d.flush d.initial = []
  rw [d.flush_initial]
  rfl

theorem Aligned.nil : d.Aligned [] := rfl

theorem Aligned.append {as bs : List B} (ha : d.Aligned as) (hb : d.Aligned bs) :
    d.Aligned (as ++ bs) := by
  unfold Aligned at ha hb ⊢
  rw [run_append, ha]
  exact hb

theorem decode_append {as : List B} (ha : d.Aligned as) (bs : List B) :
    d.decode (as ++ bs) = d.decode as ++ d.decode bs := by
  unfold Aligned at ha
  unfold decode
  rw [run_append, ha, d.flush_initial, List.append_nil, List.append_assoc]

/-- A symbol takes a state where it takes the initial state, or it leaves the initial
state alone. -/
def Synchronising (d : Decoder S B C) : Prop :=
  ∀ s b, (d.step s b).1 = (d.step d.initial b).1 ∨ (d.step d.initial b).1 = d.initial

theorem Synchronising.run (h : d.Synchronising) : ∀ (bs : List B) (s : S),
    (d.run s bs).1 = d.initial → d.Aligned bs := by
  intro bs
  induction bs with
  | nil => intro s _; rfl
  | cons b bs ih =>
    intro s hs
    show (d.run (d.step d.initial b).1 bs).1 = d.initial
    rcases h s b with heq | hstay
    · rw [← heq]
      exact hs
    · rw [hstay]
      exact ih _ hs

theorem Synchronising.aligned_of_append (h : d.Synchronising) {as bs : List B}
    (hab : d.Aligned (as ++ bs)) : d.Aligned bs := by
  unfold Aligned at hab
  rw [run_append] at hab
  exact h.run bs _ hab

/-- What is left over ends in a mark. -/
def Marking (d : Decoder S B C) (mark : C) : Prop :=
  ∀ s, s ≠ d.initial → (d.flush s).getLast? = some mark

theorem Marking.aligned {mark : C} (h : d.Marking mark) {bs : List B}
    (hlast : (d.decode bs).getLast? ≠ some mark) : d.Aligned bs := by
  by_contra hstate
  apply hlast
  unfold decode
  rw [List.getLast?_append, h _ hstate]
  rfl

end Decoder

/-!
## UTF-8 with replacement

The decoder that writes U+FFFD for bytes that are not UTF-8, one for each byte that
cannot start a character and one for each character that breaks off. A byte that breaks
a character off is read again as the first of the next one.

> `synchronising`, `marking`: it falls back into step, and shows what is left over.
-/

namespace Utf8

/-- The second bytes that a first byte allows. -/
inductive Tail
  | any
  | fromA0
  | upTo9F
  | from90
  | upTo8F
deriving DecidableEq

def Tail.lower : Tail → Nat
  | .fromA0 => 0xA0
  | .from90 => 0x90
  | _ => 0x80

def Tail.upper : Tail → Nat
  | .upTo9F => 0x9F
  | .upTo8F => 0x8F
  | _ => 0xBF

/-- Between characters, or with `more` bytes to come after the next one. -/
inductive State
  | start
  | pending (more : Nat) (tail : Tail) (codePoint : Nat)
deriving DecidableEq

/-- `U+FFFD`. -/
def replacement : Char := Char.ofNat 0xFFFD

/-- A byte between characters. -/
def first (b : Nat) : State × List Char :=
  if b ≤ 0x7F then (.start, [Char.ofNat b])
  else if b < 0xC2 then (.start, [replacement])
  else if b ≤ 0xDF then (.pending 0 .any (b - 0xC0), [])
  else if b = 0xE0 then (.pending 1 .fromA0 0, [])
  else if b = 0xED then (.pending 1 .upTo9F 0xD, [])
  else if b ≤ 0xEF then (.pending 1 .any (b - 0xE0), [])
  else if b = 0xF0 then (.pending 2 .from90 0, [])
  else if b ≤ 0xF3 then (.pending 2 .any (b - 0xF0), [])
  else if b = 0xF4 then (.pending 2 .upTo8F 4, [])
  else (.start, [replacement])

def step : State → UInt8 → State × List Char
  | .start, b => first b.toNat
  | .pending more tail codePoint, b =>
    if tail.lower ≤ b.toNat ∧ b.toNat ≤ tail.upper then
      let codePoint := codePoint * 64 + (b.toNat - 0x80)
      match more with
      | 0 => (.start, [Char.ofNat codePoint])
      | more + 1 => (.pending more .any codePoint, [])
    else ((first b.toNat).1, replacement :: (first b.toNat).2)

def decoder : Decoder State UInt8 Char where
  initial := .start
  step := step
  flush
    | .start => []
    | .pending .. => [replacement]
  flush_initial := rfl

def decode : List UInt8 → List Char := decoder.decode

theorem Tail.bounds (t : Tail) : 0x80 ≤ t.lower ∧ t.upper ≤ 0xBF := by
  cases t <;> exact ⟨by decide, by decide⟩

theorem first_of_tail {b : Nat} (hlower : 0x80 ≤ b) (hupper : b ≤ 0xBF) :
    first b = (.start, [replacement]) := by
  unfold first
  rw [if_neg (by omega), if_pos (by omega)]

theorem synchronising : decoder.Synchronising := by
  intro s b
  show (step s b).1 = (first b.toNat).1 ∨ (first b.toNat).1 = .start
  cases s with
  | start => exact Or.inl rfl
  | pending more tail codePoint =>
    by_cases hin : tail.lower ≤ b.toNat ∧ b.toNat ≤ tail.upper
    · -- a byte that goes on with a character starts none
      right
      have hbounds := tail.bounds
      rw [first_of_tail (Nat.le_trans hbounds.1 hin.1) (Nat.le_trans hin.2 hbounds.2)]
    · left
      unfold step
      dsimp only
      rw [if_neg hin]

theorem marking : decoder.Marking replacement := by
  intro s hs
  cases s with
  | start => exact absurd rfl hs
  | pending more tail codePoint => rfl

end Utf8
