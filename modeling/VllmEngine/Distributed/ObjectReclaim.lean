import VllmEngine.Distributed.ObjectStorage
import VllmEngine.Lib.Run
import Mathlib.Algebra.Group.Action.Defs
import Mathlib.Tactic.IntervalCases
import Mathlib.Algebra.Order.BigOperators.Group.Finset

/-!
# Reclaiming shared-memory objects

The object storage with its readers. The sender touches keys and hands out a reference to
every reader; `ShmObjectStoreReceiverCache` touches what it was handed, then gets it. The
writer counts a reference when it is handed out and, for an item that was there before,
when it is touched. A reader's touch counts only once every reader has counted on the item,
so that a newly added item is not touched, but that also depends on who got it first.

> `ShmSystem.objects_reclaimed`: where the touches of the readers count exactly if the
> sender's did, no object goes too early and none stays.
-/

namespace VllmEngine.Distributed

open Python
open SingleWriterShmRingBuffer (Chunk)

/-- A reference as a reader holds it, with what the reader still has to do. -/
structure Reference where
  address : Nat
  id : Nat
  /-- The sender's touch counted for it. -/
  touched : Bool
  toTouch : Bool
  toGet : Bool
deriving DecidableEq, Repr

def Reference.afterTouch (r : Reference) : Reference := { r with toTouch := false }

def Reference.afterGet (r : Reference) : Reference := { r with toGet := false }

/-- What one reference adds to the debt of an object. -/
def Reference.owes (id : Nat) (r : Reference) : Nat :=
  if r.id = id then r.toGet.toNat + (r.toTouch && r.touched).toNat else 0

theorem Reference.owes_self (r : Reference) :
    Reference.owes r.id r = r.toGet.toNat + (r.toTouch && r.touched).toNat := if_pos rfl

theorem Reference.owes_afterTouch (r : Reference) :
    Reference.owes r.id r.afterTouch = r.toGet.toNat := if_pos rfl

theorem Reference.owes_afterGet (r : Reference) :
    Reference.owes r.id r.afterGet = (r.toTouch && r.touched).toNat :=
  (if_pos rfl).trans (Nat.zero_add _)

/-- The storage, the ids the sender touched without having handed out a reference since, and
what each reader has not consumed. -/
structure ShmSystem (Key : Type) where
  storage : SingleWriterShmObjectStorage Key
  untied : List Nat
  pending : Nat → List Reference

/-- Steps of the sender cache and of the receiver caches. -/
inductive ShmStep (Key : Type)
  | touch (key : Key)
  | update (key : Key) (objectSize : Nat)
  | evict
  | readerTouch (reader : Nat) (reference : Reference)
  | readerGet (reader : Nat) (reference : Reference)
deriving DecidableEq, Repr

namespace ShmSystem

variable {Key : Type} (s : ShmSystem Key)

/-- A reference goes to every reader. -/
def handOut (address id : Nat) : ShmSystem Key :=
  { s with
    untied := s.untied.erase id
    pending := fun i => ⟨address, id, decide (id ∈ s.untied), true, true⟩ :: s.pending i }

/-- A reader is done with a part of a reference; it is consumed when nothing is left. -/
def advance (reader : Nat) (before after : Reference) : ShmSystem Key :=
  let left := (if after.toTouch || after.toGet then [after] else [])
    ++ (s.pending reader).erase before
  { s with pending := Function.update s.pending reader left }

/-- One step; a reader's step on something it does not hold changes nothing. -/
def step [DecidableEq Key] (s : ShmSystem Key) : ShmStep Key → Except Error (ShmSystem Key)
  | .touch key => .ok { s with
      storage := s.storage.touchWriter key
      untied := match s.storage.keyIndex.get? key with
        | none => s.untied
        | some (_, id) => id :: s.untied }
  | .update key objectSize => do
    let (reference, storage) ← s.storage.getAndUpdateItem key objectSize
    match reference with
    | none => return { s with storage }
    | some (address, id) => return { s with storage }.handOut address id
  | .evict => do
    let storage ← s.storage.freeUnused
    return { s with storage }
  | .readerTouch reader reference =>
    if reader < s.storage.nReaders ∧ reference ∈ s.pending reader ∧ reference.toTouch = true then do
      let storage ← s.storage.touchReader reference.address
      return { s with storage }.advance reader reference reference.afterTouch
    else return s
  | .readerGet reader reference =>
    if reader < s.storage.nReaders ∧ reference ∈ s.pending reader ∧ reference.toGet = true then do
      let storage ← s.storage.get reference.address reference.id
      return { s with storage }.advance reader reference reference.afterGet
    else return s

/-- A storage with a fresh buffer, and nothing handed out. -/
def init (Key : Type) [DecidableEq Key] (nReaders maxObjectSize dataBufferSize : Nat) :
    ShmSystem Key where
  storage := ⟨maxObjectSize, nReaders, ⟨dataBufferSize, 0, 0, 0, 0, .empty, fun _ => none⟩,
    .empty, .empty, .empty⟩
  untied := []
  pending := fun _ => []

/-! ## What is owed -/

/-- What the readers still have to count for an object. -/
def owes (id : Nat) : Nat :=
  s.storage.nReaders * s.untied.count id
    + ∑ i ∈ Finset.range s.storage.nReaders, ((s.pending i).map (Reference.owes id)).sum

variable {s}

variable {r before : Reference} {reader : Nat} {storage : SingleWriterShmObjectStorage Key}

theorem owes_pos {i : Nat} (hi : i < s.storage.nReaders) (hr : r ∈ s.pending i)
    (hget : r.toGet = true) : s.owes r.id ≠ 0 := by
  have hone : 1 ≤ Reference.owes r.id r := by
    unfold Reference.owes
    rw [if_pos rfl, hget]
    exact Nat.le_add_right 1 _
  have hlist : Reference.owes r.id r ≤ ((s.pending i).map (Reference.owes r.id)).sum :=
    List.single_le_sum (fun _ _ => Nat.zero_le _) _ (List.mem_map_of_mem hr)
  have hsum : ((s.pending i).map (Reference.owes r.id)).sum
      ≤ ∑ j ∈ Finset.range s.storage.nReaders, ((s.pending j).map (Reference.owes r.id)).sum :=
    Finset.single_le_sum (f := fun j => ((s.pending j).map (Reference.owes r.id)).sum)
      (fun _ _ => Nat.zero_le _) (Finset.mem_range.mpr hi)
  unfold owes
  omega

/-- Every reader owes one more for a reference that is handed out. -/
theorem owes_handOut (address id i : Nat) :
    (s.handOut address id).owes i = s.owes i + if i = id then s.storage.nReaders else 0 := by
  unfold owes handOut
  dsimp only
  have hsum : ∑ j ∈ Finset.range s.storage.nReaders, (((⟨address, id, decide (id ∈ s.untied), true,
        true⟩ : Reference) :: s.pending j).map (Reference.owes i)).sum
      = s.storage.nReaders * (if i = id then 1 + (decide (id ∈ s.untied)).toNat else 0)
        + ∑ j ∈ Finset.range s.storage.nReaders, ((s.pending j).map (Reference.owes i)).sum := by
    simp only [List.map_cons, List.sum_cons, Finset.sum_add_distrib, Finset.sum_const,
      Finset.card_range, smul_eq_mul]
    refine congrArg (fun n => s.storage.nReaders * n + _) ?_
    unfold Reference.owes
    by_cases hid : i = id
    · rw [if_pos hid, if_pos hid.symm]
      rfl
    · rw [if_neg hid, if_neg (Ne.symm hid)]
  rw [hsum]
  by_cases hid : i = id
  · rw [if_pos hid, if_pos hid, hid]
    by_cases hmem : id ∈ s.untied
    · have hcount := List.count_pos_iff.mpr hmem
      obtain ⟨n, hn⟩ := Nat.exists_eq_add_of_lt hcount
      rw [List.count_erase_self, decide_eq_true hmem, hn]
      simp only [Bool.toNat_true, Nat.zero_add, Nat.add_sub_cancel, Nat.mul_add, Nat.mul_one]
      omega
    · rw [List.erase_of_not_mem hmem, decide_eq_false hmem]
      simp only [Bool.toNat_false, Nat.add_zero, Nat.mul_one]
      omega
  · rw [if_neg hid, if_neg hid, List.count_erase_of_ne hid]
    omega

theorem owes_advance (hreader : reader < s.storage.nReaders) (hmem : before ∈ s.pending reader)
    (after : Reference) (id : Nat) :
    (s.advance reader before after).owes id + Reference.owes id before
      = s.owes id + Reference.owes id after := by
  have hleft : ((if after.toTouch || after.toGet then [after] else []).map (Reference.owes id)).sum
      = Reference.owes id after := by
    by_cases hdone : (after.toTouch || after.toGet) = true
    · rw [if_pos hdone]
      exact Nat.add_zero _
    · rw [if_neg hdone]
      rw [Bool.not_eq_true, Bool.or_eq_false_iff] at hdone
      unfold Reference.owes
      rw [hdone.1, hdone.2]
      split
      · rfl
      · rfl
  have herase := List.sum_map_erase (Reference.owes id) hmem
  have hin := Finset.mem_range.mpr hreader
  unfold owes advance
  dsimp only
  rw [← Finset.add_sum_erase _ _ hin, ← Finset.add_sum_erase (Finset.range s.storage.nReaders)
    (fun j => ((s.pending j).map (Reference.owes id)).sum) hin, Function.update_self,
    List.map_append, List.sum_append, hleft]
  have hothers : ∑ j ∈ (Finset.range s.storage.nReaders).erase reader,
      ((Function.update s.pending reader ((if after.toTouch || after.toGet then [after] else [])
        ++ (s.pending reader).erase before) j).map (Reference.owes id)).sum
      = ∑ j ∈ (Finset.range s.storage.nReaders).erase reader,
        ((s.pending j).map (Reference.owes id)).sum := by
    refine Finset.sum_congr rfl fun j hj => ?_
    rw [Function.update_of_ne (Finset.ne_of_mem_erase hj)]
  rw [hothers]
  omega

theorem advance_owes_other (hreader : reader < s.storage.nReaders)
    (hmem : before ∈ s.pending reader) (after : Reference) (hsame : after.id = before.id) {i : Nat}
    (hi : i ≠ before.id) : (s.advance reader before after).owes i = s.owes i := by
  have h := owes_advance hreader hmem after i
  rw [show Reference.owes i before = 0 from if_neg (Ne.symm hi),
    show Reference.owes i after = 0 from if_neg (fun heq => hi (heq.symm.trans hsame))] at h
  exact h

/-! ## Steps that keep the order -/

/-- The condition on a step. A put fits into the machine numbers of the buffer. A reader
touches a reference before it gets it, and its touch counts exactly if the sender's did. -/
def Orderly (s : ShmSystem Key) : ShmStep Key → Prop
  | .touch _ => True
  | .update _ objectSize =>
    flagBytes + objectSize + mdSize < 2 ^ 31 ∧ s.storage.ringBuffer.liveCount + 1 < idMax
  | .evict => True
  | .readerTouch _ r => ∀ header, s.storage.ringBuffer.accessBuf r.address = .ok header →
    (s.storage.nReaders ≤ header.readerCount ↔ r.touched = true) ∧ header.readerCount + 1 < 2 ^ 31
  | .readerGet _ r => r.toTouch = false ∧
    ∀ header, s.storage.ringBuffer.accessBuf r.address = .ok header →
      header.readerCount + 1 < 2 ^ 31

instance (op : ShmStep Key) : Decidable (s.Orderly op) := by
  cases op <;> unfold Orderly <;> infer_instance

variable [DecidableEq Key]

/-- The accounts are those of the references, which point to live chunks and have not been
got yet. -/
structure Inv (s : ShmSystem Key) (chunks : List Chunk) : Prop where
  accounts : s.storage.Accounts s.owes chunks
  live : ∀ i < s.storage.nReaders, ∀ r ∈ s.pending i, r.toGet = true ∧
    ∃ c ∈ chunks, c.id = r.id ∧ c.address = r.address

omit [DecidableEq Key] in
theorem owes_storage (h : storage.nReaders = s.storage.nReaders) :
    ({ s with storage } : ShmSystem Key).owes = s.owes := by
  funext id
  show storage.nReaders * _ + ∑ i ∈ Finset.range storage.nReaders, _ = _
  rw [h]
  rfl

omit [DecidableEq Key] in
theorem owes_advance_storage (h : storage.nReaders = s.storage.nReaders) (reader : Nat)
    (before after : Reference) :
    (({ s with storage } : ShmSystem Key).advance reader before after).owes
      = (s.advance reader before after).owes :=
  owes_storage (s := s.advance reader before after) h

variable {chunks : List Chunk}

/-- After chunks were freed for which nothing is owed. -/
theorem Inv.freed (h : s.Inv chunks) {freed rest : List Chunk}
    (hreaders : storage.nReaders = s.storage.nReaders) (hsplit : chunks = freed ++ rest)
    (hpaid : ∀ c ∈ freed, s.owes c.id = 0) :
    ∀ i < storage.nReaders, ∀ r ∈ s.pending i, r.toGet = true ∧
      ∃ c ∈ rest, c.id = r.id ∧ c.address = r.address := by
  intro i hi r hr
  rw [hreaders] at hi
  obtain ⟨hget, c, hc, hid, haddress⟩ := h.live i hi r hr
  refine ⟨hget, c, ?_, hid, haddress⟩
  rw [hsplit] at hc
  rcases List.mem_append.mp hc with hfreed | hrest
  · have hzero := hpaid c hfreed
    rw [hid] at hzero
    exact absurd hzero (owes_pos hi hr hget)
  · exact hrest

theorem Inv.handOut {address id : Nat}
    (haccounts : storage.Accounts (({ s with storage } : ShmSystem Key).handOut address id).owes chunks)
    (hlive : ∀ i < storage.nReaders, ∀ r ∈ s.pending i, r.toGet = true ∧ ∃ c ∈ chunks, c.id = r.id ∧ c.address = r.address)
    (hnew : ∃ c ∈ chunks, c.id = id ∧ c.address = address) :
    (({ s with storage } : ShmSystem Key).handOut address id).Inv chunks := by
  refine ⟨haccounts, ?_⟩
  intro i hi r hr
  rcases List.mem_cons.mp hr with hfirst | hrest
  · rw [hfirst]
    exact ⟨rfl, hnew⟩
  · exact hlive i hi r hrest

theorem Inv.touch (h : s.Inv chunks) (key : Key) :
    ∃ s', s.step (.touch key) = .ok s' ∧ s'.storage.nReaders = s.storage.nReaders ∧
      s'.Inv chunks := by
  cases hkey : s.storage.keyIndex.get? key with
  | none =>
    refine ⟨s, ?_, rfl, h⟩
    simp only [step, SingleWriterShmObjectStorage.touchWriter, hkey]
  | some entry =>
    obtain ⟨address, id⟩ := entry
    refine ⟨{ s with storage := s.storage.incrementWriterFlag id, untied := id :: s.untied },
      ?_, rfl, ?_, h.live⟩
    · simp only [step, SingleWriterShmObjectStorage.touchWriter, hkey]
    obtain ⟨-, c, hc, hid, -⟩ := h.accounts.indexed key address id hkey
    refine h.accounts.incrementWriterFlag ⟨c, hc, hid⟩ ?_ ?_
    · intro i hi
      show s.storage.nReaders * (id :: s.untied).count i + _ = s.owes i
      rw [List.count_cons_of_ne (Ne.symm hi)]
      rfl
    · show s.storage.nReaders * (id :: s.untied).count id + _ = s.owes id + s.storage.nReaders
      rw [List.count_cons_self, Nat.mul_add, Nat.mul_one, Nat.add_right_comm]
      rfl

theorem Inv.evict (h : s.Inv chunks) :
    ∃ s' chunks', s.step .evict = .ok s' ∧ s'.storage.nReaders = s.storage.nReaders ∧
      s'.Inv chunks' := by
  obtain ⟨storage, freed, rest, hfree, hsplit, haccounts, hpaid, hreaders, -⟩ :=
    h.accounts.freeUnused
  refine ⟨{ s with storage }, rest, ?_, hreaders, ?_, h.freed hreaders hsplit hpaid⟩
  · show (s.storage.freeUnused >>= _) = _
    rw [hfree]
    rfl
  · rw [owes_storage hreaders]
    exact haccounts

theorem step_update {key : Key} {objectSize address id : Nat}
    (h : s.storage.getAndUpdateItem key objectSize = .ok (some (address, id), storage)) :
    s.step (.update key objectSize)
      = .ok (({ s with storage } : ShmSystem Key).handOut address id) := by
  show (s.storage.getAndUpdateItem key objectSize >>= _) = _
  rw [h]
  rfl

theorem step_update_none {key : Key} {objectSize : Nat}
    (h : s.storage.getAndUpdateItem key objectSize = .ok (none, storage)) :
    s.step (.update key objectSize) = .ok { s with storage } := by
  show (s.storage.getAndUpdateItem key objectSize >>= _) = _
  rw [h]
  rfl

theorem Inv.update (h : s.Inv chunks) (key : Key) {objectSize : Nat}
    (hfit : flagBytes + objectSize + mdSize < 2 ^ 31)
    (hroom : s.storage.ringBuffer.liveCount + 1 < idMax) :
    ∃ s' chunks', s.step (.update key objectSize) = .ok s' ∧
      s'.storage.nReaders = s.storage.nReaders ∧ s'.Inv chunks' := by
  rw [h.accounts.layout.liveCount_eq] at hroom
  cases hkey : s.storage.keyIndex.get? key with
  | some entry =>
    obtain ⟨address, id⟩ := entry
    have hupdate : s.storage.getAndUpdateItem key objectSize
        = .ok (some (address, id), s.storage.incrementWriterFlag id) := by
      unfold SingleWriterShmObjectStorage.getAndUpdateItem
      rw [hkey]
    refine ⟨_, chunks, step_update hupdate, rfl, ?_⟩
    obtain ⟨-, c, hc, hid, haddress⟩ := h.accounts.indexed key address id hkey
    refine Inv.handOut ?_ h.live ⟨c, hc, hid, haddress⟩
    refine h.accounts.incrementWriterFlag ⟨c, hc, hid⟩ ?_ ?_
    · intro i hi
      rw [owes_handOut, if_neg hi, owes_storage rfl]
      rfl
    · rw [owes_handOut, if_pos rfl, owes_storage rfl]
      rfl
  | none =>
    obtain ⟨reference, storage, freed, rest, hput, hreaders, hsplit, hpaid, hplaced⟩ :=
      h.accounts.put hkey hroom hfit
    have hupdate : s.storage.getAndUpdateItem key objectSize = .ok (reference, storage) := by
      unfold SingleWriterShmObjectStorage.getAndUpdateItem
      rw [hkey]
      exact hput
    have hlive := h.freed hreaders hsplit hpaid
    cases reference with
    | none =>
      refine ⟨_, rest, step_update_none hupdate, hreaders, ?_, hlive⟩
      rw [owes_storage hreaders]
      exact hplaced
    | some entry =>
      obtain ⟨address, id⟩ := entry
      obtain ⟨hzero, hany⟩ := hplaced
      obtain ⟨c, hid, haddress, haccounts⟩ := hany
        (({ s with storage } : ShmSystem Key).handOut address id).owes
        (fun i hi => by
          rw [owes_handOut, if_neg hi, owes_storage hreaders]
          rfl)
        (by
          rw [owes_handOut, if_pos rfl, owes_storage hreaders, hzero]
          exact Nat.zero_add _)
      refine ⟨_, rest ++ [c], step_update hupdate, hreaders, Inv.handOut haccounts ?_
        ⟨c, List.mem_append_right _ (List.mem_singleton_self c), hid, haddress⟩⟩
      intro i hi r hr
      obtain ⟨hget, d, hd, hr'⟩ := hlive i hi r hr
      exact ⟨hget, d, List.mem_append_left _ hd, hr'⟩

/-- The header of a reference that is not consumed. -/
theorem Inv.header (h : s.Inv chunks) {i : Nat} (hi : i < s.storage.nReaders) (hr : r ∈ s.pending i) :
    ∃ c ∈ chunks, c.id = r.id ∧ c.address = r.address ∧
      ∃ count, s.storage.ringBuffer.accessBuf r.address = .ok ⟨c.id, c.size, count⟩ := by
  obtain ⟨-, c, hc, hid, haddress⟩ := h.live i hi r hr
  obtain ⟨count, hcount⟩ := h.accounts.layout.accessBuf hc
  exact ⟨c, hc, hid, haddress, count, haddress ▸ hcount⟩

/-- A reader did its part on a reference, and the accounts follow. -/
theorem Inv.advance (h : s.Inv chunks) {after : Reference} (hbefore : before ∈ s.pending reader)
    (hreaders : storage.nReaders = s.storage.nReaders)
    (haccounts : storage.Accounts (({ s with storage } : ShmSystem Key).advance reader before after).owes chunks)
    (hafter : (after.toTouch || after.toGet) = true → after.toGet = true ∧ after.id = before.id ∧ after.address = before.address) :
    (({ s with storage } : ShmSystem Key).advance reader before after).Inv chunks := by
  refine ⟨haccounts, ?_⟩
  intro i hi r hr
  change i < storage.nReaders at hi
  rw [hreaders] at hi
  change r ∈ Function.update s.pending reader _ i at hr
  by_cases hir : i = reader
  · subst hir
    rw [Function.update_self] at hr
    rcases List.mem_append.mp hr with hleft | hold
    · split at hleft
      · rename_i hleftover
        rw [List.mem_singleton.mp hleft]
        obtain ⟨hget, hid, haddress⟩ := hafter hleftover
        rw [hid, haddress]
        exact ⟨hget, (h.live i hi before hbefore).2⟩
      · cases hleft
    · exact h.live i hi r (List.mem_of_mem_erase hold)
  · rw [Function.update_of_ne hir] at hr
    exact h.live i hi r hr

theorem Inv.readerTouch (h : s.Inv chunks)
    (horderly : s.Orderly (.readerTouch reader r : ShmStep Key)) :
    ∃ s', s.step (.readerTouch reader r) = .ok s' ∧ s'.storage.nReaders = s.storage.nReaders ∧
      s'.Inv chunks := by
  unfold step
  dsimp only
  by_cases hheld : reader < s.storage.nReaders ∧ r ∈ s.pending reader ∧ r.toTouch = true
  · rw [if_pos hheld]
    obtain ⟨hi, hr, htouch⟩ := hheld
    obtain ⟨hget, -⟩ := h.live reader hi r hr
    obtain ⟨c, hc, hid, haddress, count, hcount⟩ := h.header hi hr
    obtain ⟨hcounts, hfit⟩ := horderly _ hcount
    have hother : ∀ i, i ≠ r.id → (s.advance reader r r.afterTouch).owes i = s.owes i :=
      fun i hne => advance_owes_other hi hr r.afterTouch rfl hne
    have hself := owes_advance hi hr r.afterTouch r.id
    rw [r.owes_self, r.owes_afterTouch, hget, htouch, Bool.true_and] at hself
    unfold SingleWriterShmObjectStorage.touchReader
    rw [hcount, Raises.ok_bind]
    by_cases hcounted : s.storage.nReaders ≤ count
    · -- the reader's touch counts, as the sender's did
      rw [hcounts.mp hcounted, Bool.toNat_true] at hself
      obtain ⟨storage, hstorage, haccounts, hreaders⟩ := h.accounts.incrementReaderFlag hc
        (haddress ▸ hcount) hfit (fun i hne => hother i (hid ▸ hne)) (by rw [hid]; omega)
      rw [if_pos hcounted, ← haddress, hstorage]
      refine ⟨_, rfl, hreaders, h.advance hr hreaders ?_ fun _ => ⟨hget, rfl, rfl⟩⟩
      rw [owes_advance_storage hreaders]
      exact haccounts
    · have hnot : r.touched = false := Bool.eq_false_iff.mpr fun hyes => hcounted (hcounts.mpr hyes)
      rw [hnot, Bool.toNat_true, Bool.toNat_false] at hself
      rw [if_neg hcounted]
      refine ⟨_, rfl, rfl, h.advance hr rfl ?_ fun _ => ⟨hget, rfl, rfl⟩⟩
      have hsame : (s.advance reader r r.afterTouch).owes = s.owes := by
        funext i
        by_cases hne : i = r.id
        · rw [hne]
          omega
        · exact hother i hne
      rw [hsame]
      exact h.accounts
  · rw [if_neg hheld]
    exact ⟨s, rfl, rfl, h⟩

theorem Inv.readerGet (h : s.Inv chunks) (horderly : s.Orderly (.readerGet reader r : ShmStep Key)) :
    ∃ s', s.step (.readerGet reader r) = .ok s' ∧ s'.storage.nReaders = s.storage.nReaders ∧
      s'.Inv chunks := by
  unfold step
  dsimp only
  by_cases hheld : reader < s.storage.nReaders ∧ r ∈ s.pending reader ∧ r.toGet = true
  · rw [if_pos hheld]
    obtain ⟨hi, hr, hget⟩ := hheld
    obtain ⟨htouched, hfit⟩ := horderly
    obtain ⟨c, hc, hid, haddress, count, hcount⟩ := h.header hi hr
    have hother : ∀ i, i ≠ r.id → (s.advance reader r r.afterGet).owes i = s.owes i :=
      fun i hne => advance_owes_other hi hr r.afterGet rfl hne
    have hself := owes_advance hi hr r.afterGet r.id
    rw [r.owes_self, r.owes_afterGet, hget, htouched, Bool.false_and, Bool.toNat_true,
      Bool.toNat_false] at hself
    obtain ⟨storage, hstorage, haccounts, hreaders⟩ := h.accounts.incrementReaderFlag hc
      (haddress ▸ hcount) (hfit _ hcount) (fun i hne => hother i (hid ▸ hne)) (by rw [hid]; omega)
    unfold SingleWriterShmObjectStorage.get
    rw [hcount, Raises.ok_bind, if_neg (fun hne => hne hid), ← haddress, hstorage]
    refine ⟨_, rfl, hreaders, h.advance hr hreaders ?_ ?_⟩
    · rw [owes_advance_storage hreaders]
      exact haccounts
    · intro hleft
      rw [show r.afterGet.toTouch = false from htouched] at hleft
      cases hleft
  · rw [if_neg hheld]
    exact ⟨s, rfl, rfl, h⟩

/-- A step that meets the condition does not fail, and keeps the accounts. -/
theorem Inv.step (h : s.Inv chunks) {op : ShmStep Key} (horderly : s.Orderly op) :
    ∃ s' chunks', s.step op = .ok s' ∧ s'.Inv chunks' := by
  cases op with
  | touch key =>
    obtain ⟨s', hs', -, hinv⟩ := h.touch key
    exact ⟨s', chunks, hs', hinv⟩
  | update key objectSize =>
    obtain ⟨s', chunks', hs', -, hinv⟩ := h.update key horderly.1 horderly.2
    exact ⟨s', chunks', hs', hinv⟩
  | evict =>
    obtain ⟨s', chunks', hs', -, hinv⟩ := h.evict
    exact ⟨s', chunks', hs', hinv⟩
  | readerTouch reader r =>
    obtain ⟨s', hs', -, hinv⟩ := h.readerTouch horderly
    exact ⟨s', chunks, hs', hinv⟩
  | readerGet reader r =>
    obtain ⟨s', hs', -, hinv⟩ := h.readerGet horderly
    exact ⟨s', chunks, hs', hinv⟩

/-! ## Runs -/

/-- Every reference that is not consumed points to an object that is still there. -/
def Intact (s : ShmSystem Key) : Prop :=
  ∀ i < s.storage.nReaders, ∀ r ∈ s.pending i,
    s.storage.ringBuffer.metadata.get? r.id = some r.address ∧
      ∃ header, s.storage.ringBuffer.accessBuf r.address = .ok header ∧ header.id = r.id

/-- An object whose references are all consumed passes the check, unless the sender has
touched it for a reference that is still to be handed out. -/
def Reclaimable (s : ShmSystem Key) : Prop :=
  ∀ id address, s.storage.ringBuffer.metadata.get? id = some address → id ∉ s.untied →
    (∀ i < s.storage.nReaders, ∀ r ∈ s.pending i, r.id ≠ id) →
      ∃ header, s.storage.ringBuffer.accessBuf address = .ok header ∧
        s.storage.defaultIsFreeCheck id header = .ok true

theorem Inv.intact (h : s.Inv chunks) : s.Intact := by
  intro i hi r hr
  obtain ⟨c, hc, hid, haddress, count, hcount⟩ := h.header hi hr
  exact ⟨(h.accounts.layout.metadata _ _).mpr ⟨c, hc, hid, haddress⟩, _, hcount, hid⟩

theorem Inv.reclaimable (h : s.Inv chunks) : s.Reclaimable := by
  intro id address hlive huntied hconsumed
  obtain ⟨c, hc, hid, haddress⟩ := (h.accounts.layout.metadata _ _).mp hlive
  obtain ⟨count, hcount⟩ := h.accounts.layout.accessBuf hc
  have hpaid : s.owes c.id = 0 := by
    unfold owes
    rw [hid, List.count_eq_zero.mpr huntied, Nat.mul_zero, Nat.zero_add]
    refine Finset.sum_eq_zero fun i hi => List.sum_eq_zero fun n hn => ?_
    obtain ⟨r, hr, hrn⟩ := List.mem_map.mp hn
    rw [← hrn]
    exact if_neg (hconsumed i (Finset.mem_range.mp hi) r hr)
  obtain ⟨free, hfree, hiff⟩ := h.accounts.isFree_iff hc hcount
  rw [hiff.mpr hpaid] at hfree
  exact ⟨_, haddress ▸ hcount, hid ▸ hfree⟩

theorem init_inv (nReaders maxObjectSize : Nat) {dataBufferSize : Nat}
    (hsize : 0 < dataBufferSize) :
    (init Key nReaders maxObjectSize dataBufferSize).Inv [] := by
  have hnone : ∀ c ∈ ([] : List Chunk), False := fun c hc => absurd hc List.not_mem_nil
  refine ⟨⟨⟨hsize, rfl, Nat.two_pow_pos 31, Nat.two_pow_pos 31, Nat.le_refl 0, Nat.zero_le _,
    fun c hc => (hnone c hc).elim, ?_, fun c hc => (hnone c hc).elim⟩,
    fun c hc => (hnone c hc).elim, ?_, fun c hc => (hnone c hc).elim, ?_⟩, ?_⟩
  · intro id address
    constructor
    · intro h
      cases h
    · intro h
      obtain ⟨c, hc, -⟩ := h
      cases hc
  · intro key address id h
    cases h
  · intro id _
    refine ⟨rfl, ?_⟩
    unfold owes
    rw [show (init Key nReaders maxObjectSize dataBufferSize).untied = [] from rfl, List.count_nil,
      Nat.mul_zero, Nat.zero_add]
    exact Finset.sum_eq_zero fun i _ => rfl
  · intro i _ r hr
    cases hr

/-- In a run whose steps all meet the condition nothing fails, no object goes before every
reader has consumed its references, and every object that is consumed can be reclaimed. -/
theorem objects_reclaimed (nReaders maxObjectSize : Nat) {dataBufferSize : Nat}
    (hsize : 0 < dataBufferSize) (ops : List (ShmStep Key))
    (horderly : Run.Guarded step Orderly (init Key nReaders maxObjectSize dataBufferSize) ops) :
    ∃ s, Run.exec step (init Key nReaders maxObjectSize dataBufferSize) ops = .ok s ∧
      s.Intact ∧ s.Reclaimable := by
  have hkeep : ∀ (s : ShmSystem Key) op s', (∃ chunks, s.Inv chunks) → s.Orderly op →
      s.step op = .ok s' → ∃ chunks, s'.Inv chunks := by
    intro s op s' hinv hop hs'
    obtain ⟨chunks, hinv⟩ := hinv
    obtain ⟨s'', chunks', hs'', hinv'⟩ := hinv.step hop
    rw [hs'] at hs''
    cases hs''
    exact ⟨chunks', hinv'⟩
  have hok : ∀ (s : ShmSystem Key) op, (∃ chunks, s.Inv chunks) → s.Orderly op →
      ∃ s', s.step op = .ok s' := by
    intro s op hinv hop
    obtain ⟨chunks, hinv⟩ := hinv
    obtain ⟨s', -, hs', -⟩ := hinv.step hop
    exact ⟨s', hs'⟩
  have hstart : (init Key nReaders maxObjectSize dataBufferSize).Inv [] :=
    init_inv nReaders maxObjectSize hsize
  obtain ⟨s, hrun⟩ := Run.exec_total hkeep hok ops _ ⟨[], hstart⟩ horderly
  obtain ⟨chunks, hinv⟩ := Run.exec_inv hkeep ops _ _ ⟨[], hstart⟩ horderly hrun
  exact ⟨s, hrun, hinv.intact, hinv.reclaimable⟩

/-- An object is used twice. Both readers touch and get its first reference, each in its own
time, and then the second one. -/
theorem second_use_reclaimed : ∃ s, Run.exec step (init Nat 2 100 1000)
    [.update 7 10, .readerTouch 0 ⟨0, 0, false, true, true⟩, .readerTouch 1 ⟨0, 0, false, true, true⟩,
      .readerGet 0 ⟨0, 0, false, false, true⟩, .readerGet 1 ⟨0, 0, false, false, true⟩,
      .touch 7, .update 7 10, .readerTouch 1 ⟨0, 0, true, true, true⟩,
      .readerGet 1 ⟨0, 0, true, false, true⟩, .readerTouch 0 ⟨0, 0, true, true, true⟩,
      .readerGet 0 ⟨0, 0, true, false, true⟩] = .ok s ∧ s.Intact ∧ s.Reclaimable :=
  objects_reclaimed 2 100 (by decide) _ (Run.Guarded.of_decide _ _ (by decide))

/-- Two readers, and a key that is used a second time before both have got the first
reference. The first reader touches the second reference too early for it to count, and the
object is never free. With a new key twice in one request, the second reader's touches count
although the sender's did not, and the object goes while that reader still has to get it. -/
theorem early_touch_leaks : (∃ s, Run.exec step (init Nat 2 100 1000)
      [.update 7 10, .touch 7, .update 7 10,
        .readerTouch 0 ⟨0, 0, false, true, true⟩, .readerTouch 1 ⟨0, 0, false, true, true⟩,
        .readerGet 0 ⟨0, 0, false, false, true⟩, .readerTouch 0 ⟨0, 0, true, true, true⟩,
        .readerGet 0 ⟨0, 0, true, false, true⟩, .readerGet 1 ⟨0, 0, false, false, true⟩,
        .readerTouch 1 ⟨0, 0, true, true, true⟩, .readerGet 1 ⟨0, 0, true, false, true⟩] = .ok s ∧
      ¬ s.Reclaimable) ∧
    ∃ s, Run.exec step (init Nat 2 100 1000)
      [.touch 7, .touch 7, .update 7 10, .update 7 10,
        .readerTouch 0 ⟨0, 0, false, true, true⟩, .readerTouch 0 ⟨0, 0, false, true, true⟩,
        .readerGet 0 ⟨0, 0, false, false, true⟩, .readerGet 0 ⟨0, 0, false, false, true⟩,
        .readerTouch 1 ⟨0, 0, false, true, true⟩, .readerTouch 1 ⟨0, 0, false, true, true⟩,
        .evict] = .ok s ∧ ¬ s.Intact := by
  constructor
  · refine ⟨_, rfl, fun h => ?_⟩
    obtain ⟨header, hheader, hfree⟩ := h 0 0 rfl List.not_mem_nil (by
      intro i hi r hr
      have hi : i < 2 := hi
      interval_cases i
      · cases hr
      · cases hr)
    cases hheader
    cases hfree
  · refine ⟨_, rfl, fun h => ?_⟩
    have hgone := (h 1 (show 1 < 2 by omega) ⟨0, 0, false, false, true⟩ List.mem_cons_self).1
    cases hgone

end ShmSystem

end VllmEngine.Distributed
