import Mathlib.Algebra.Order.Ring.Nat
import Mathlib.Data.List.Nodup
import Mathlib.Data.List.Perm.Basic

/-!
# The ids of nodes

Nodes of a list are known by nonzero 32-bit ids.  The id of a removed node is used again, the
oldest one first; without one the ids are counted, and 0 is skipped when the counter wraps.

The nonzero ids form a circle.  The age of an id is its distance from the next one that will
be counted.  As long as there are fewer ids than the circle has, the next one is new.
-/

namespace Async2.Collections

open List

abbrev NodeId := BitVec 32

/-- `next_id_` and the queue `free_ids_` -/
structure IdSupply where
  nextId : NodeId
  freeIds : List NodeId
deriving DecidableEq

namespace IdSupply

def init : IdSupply := ⟨1, []⟩

def next (s : IdSupply) : NodeId × IdSupply :=
  match s.freeIds with
  | id :: rest => (id, { s with freeIds := rest })
  | [] =>
    let id := s.nextId
    let s := { s with nextId := s.nextId + 1 }
    -- skip 0 (sentinel/invalid)
    if id = 0 then (s.nextId, { s with nextId := s.nextId + 1 }) else (id, s)

def recycle (s : IdSupply) (id : NodeId) : IdSupply :=
  { s with freeIds := s.freeIds ++ [id] }

def clear (s : IdSupply) : IdSupply :=
  { s with freeIds := [] }

/-!
## The circle
-/

def period : Nat := 2 ^ 32 - 1

def counted (n : NodeId) : NodeId := if n = 0 then 1 else n

/-- How long ago an id has been counted. -/
def age (n id : NodeId) : Nat := ((counted n).toNat + period - id.toNat) % period

theorem counted_ne_zero (n : NodeId) : counted n ≠ 0 := by
  unfold counted
  split
  · decide
  case isFalse hn => exact hn

theorem toNat_pos {id : NodeId} (hid : id ≠ 0) : 0 < id.toNat := by
  apply Nat.pos_of_ne_zero
  intro hzero
  exact hid (BitVec.eq_of_toNat_eq hzero)

theorem age_counted (n : NodeId) : age n (counted n) = 0 := by
  unfold age
  rw [Nat.add_sub_cancel_left, Nat.mod_self]

theorem age_succ {n id : NodeId} (hid : id ≠ 0) (hage : age n id + 1 < period) :
    age (counted n + 1) id = age n id + 1 := by
  have hpos := toNat_pos hid
  have hpos' := toNat_pos (counted_ne_zero n)
  have hlt := id.isLt
  have hlt' := (counted n).isLt
  have hnext : (counted (counted n + 1)).toNat =
      if (counted n).toNat + 1 = 2 ^ 32 then 1 else (counted n).toNat + 1 := by
    generalize counted n = c at hlt'
    unfold counted
    have hsum : (c + 1).toNat = (c.toNat + 1) % 2 ^ 32 := by
      rw [BitVec.toNat_add]
      rfl
    by_cases hwrap : c.toNat + 1 = 2 ^ 32
    · have hzero : c + 1 = 0 := by
        apply BitVec.eq_of_toNat_eq
        rw [hsum, hwrap]
        rfl
      rw [if_pos hzero, if_pos hwrap]
      rfl
    · have hmod : (c.toNat + 1) % 2 ^ 32 = c.toNat + 1 := Nat.mod_eq_of_lt (by omega)
      have hne : c + 1 ≠ 0 := by
        intro hzero
        rw [hzero] at hsum
        have : (0 : BitVec 32).toNat = 0 := rfl
        omega
      rw [if_neg hne, if_neg hwrap, hsum, hmod]
  unfold age at hage ⊢
  rw [hnext]
  unfold period at hage ⊢
  split
  case isTrue hwrap => omega
  · omega

/-!
## Supplies
-/

/-- The ids of the nodes and the free ones are different, and have been counted since there
were none. -/
structure Fits (s : IdSupply) (used : List NodeId) : Prop where
  distinct : (used ++ s.freeIds).Nodup
  nonzero : forall id, id ∈ used ++ s.freeIds -> id ≠ 0
  recent : forall id, id ∈ used ++ s.freeIds ->
    0 < age s.nextId id ∧ age s.nextId id <= (used ++ s.freeIds).length

variable {s s' : IdSupply} {used used' : List NodeId} {id : NodeId}

theorem fits_nil (n : NodeId) : Fits ⟨n, []⟩ [] :=
  ⟨nodup_nil, fun _ hid => absurd hid not_mem_nil,
    fun _ hid => absurd hid not_mem_nil⟩

theorem Fits.of_perm (h : Fits s used) (hnext : s'.nextId = s.nextId)
    (hperm : (used' ++ s'.freeIds).Perm (used ++ s.freeIds)) : Fits s' used' := by
  refine ⟨hperm.nodup_iff.mpr h.distinct, ?_, ?_⟩
  · exact fun id hid => h.nonzero id (hperm.mem_iff.mp hid)
  · intro id hid
    rw [hnext, hperm.length_eq]
    exact h.recent id (hperm.mem_iff.mp hid)

theorem Fits.recycle (h : Fits s (id :: used)) : Fits (s.recycle id) used := by
  refine h.of_perm rfl ?_
  change (used ++ (s.freeIds ++ [id])).Perm (id :: (used ++ s.freeIds))
  rw [← append_assoc]
  exact perm_append_comm

theorem next_of_nil (hfree : s.freeIds = []) :
    s.next = (counted s.nextId, ⟨counted s.nextId + 1, []⟩) := by
  unfold next counted
  rw [hfree]
  dsimp only
  split
  case isTrue hzero =>
    rw [hzero]
    rfl
  · rfl

theorem next_of_cons {rest : List NodeId} (hfree : s.freeIds = id :: rest) :
    s.next = (id, ⟨s.nextId, rest⟩) := by
  unfold next
  rw [hfree]

/-- The ids that have been counted and not cleared. -/
def count (s : IdSupply) (used : List NodeId) : Nat := used.length + s.freeIds.length

theorem Fits.next (h : Fits s used) (hroom : s.freeIds = [] -> s.count used + 1 < period) :
    s.next.1 ≠ 0 ∧ s.next.1 ∉ used ∧ Fits s.next.2 (s.next.1 :: used) := by
  cases hfree : s.freeIds with
  | nil =>
    have hcount := hroom hfree
    unfold count at hcount
    have hdistinct := h.distinct
    have hnonzero := h.nonzero
    have hrecent := h.recent
    rw [hfree, append_nil] at hdistinct hnonzero hrecent
    rw [hfree, length_nil, Nat.add_zero] at hcount
    rw [next_of_nil hfree]
    have hnew : counted s.nextId ∉ used := by
      intro hmem
      have hpos := (hrecent _ hmem).left
      rw [age_counted] at hpos
      exact Nat.lt_irrefl 0 hpos
    refine ⟨counted_ne_zero _, hnew, ?_, ?_, ?_⟩
    · rw [append_nil]
      exact nodup_cons.mpr ⟨hnew, hdistinct⟩
    · intro id hid
      rw [append_nil] at hid
      rcases mem_cons.mp hid with rfl | hmem
      · exact counted_ne_zero _
      · exact hnonzero id hmem
    · intro id hid
      rw [append_nil] at hid ⊢
      rw [length_cons]
      have hage : id ≠ 0 ∧ age s.nextId id <= used.length := by
        rcases mem_cons.mp hid with rfl | hmem
        · rw [age_counted]
          exact ⟨counted_ne_zero _, Nat.zero_le _⟩
        · exact ⟨hnonzero id hmem, (hrecent id hmem).right⟩
      rw [age_succ hage.left (by omega)]
      omega
  | cons id rest =>
    have hperm : (id :: used ++ rest).Perm (used ++ s.freeIds) := by
      rw [hfree]
      exact perm_middle.symm
    rw [next_of_cons hfree]
    have hfits : Fits ⟨s.nextId, rest⟩ (id :: used) := h.of_perm rfl hperm
    refine ⟨hfits.nonzero id (by simp), ?_, hfits⟩
    intro hmem
    have hnodup : (id :: (used ++ rest)).Nodup := hfits.distinct
    exact (nodup_cons.mp hnodup).left (mem_append_left rest hmem)

theorem count_next (used : List NodeId) :
    s.next.2.count (s.next.1 :: used) =
      if s.freeIds = [] then s.count used + 1 else s.count used := by
  unfold count
  cases hfree : s.freeIds with
  | nil =>
    rw [next_of_nil hfree, if_pos rfl]
    rfl
  | cons id rest =>
    rw [next_of_cons hfree, if_neg (cons_ne_nil id rest), length_cons, length_cons]
    dsimp only
    omega

theorem count_recycle (used : List NodeId) : (s.recycle id).count used = s.count (id :: used) := by
  unfold count recycle
  rw [length_append, length_singleton, length_cons]
  omega

end IdSupply

end Async2.Collections
