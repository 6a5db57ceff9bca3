import Mathlib.Algebra.Order.BigOperators.Group.Finset

/-!
# Reference-counted heaps

Cells that hold references to other cells and count the references to themselves.
Releasing the last reference to a cell releases the references in its slots and frees
it.  Addresses are natural numbers and are never used again, so that a freed cell stays
visible as such.

An operation on the heap hands references out to its caller or takes them back.  What
it does to the counts is said by one equation, `Trades`, which holds of every operation
that succeeds and composes along a sequence of them; the counts are then exact at the
end if they were at the start.
-/

namespace Async2.RefCount

open Finset

/-- Contents of a cell, with the references in its slots. -/
class Body (B : Type) where
  slots : B -> List Nat

export Body (slots)

/-- The count has no bound; a counter of some bits agrees with it as long as it does not wrap. -/
structure Cell (B : Type) where
  refcount : Nat
  body : B

/-- Every address below `next` was handed out once. -/
@[ext] structure Heap (B : Type) where
  next : Nat
  cell : Nat -> Option (Cell B)
  unallocated : forall a, next <= a -> cell a = none

namespace Heap

section Operations

variable {B : Type}

def empty : Heap B where
  next := 0
  cell := fun _ => none
  unallocated := fun _ _ => rfl

/-- Allocate the cell at address `next`, with one reference for the caller. -/
def alloc (h : Heap B) (b : B) : Heap B where
  next := h.next + 1
  cell := fun x => if x = h.next then some ⟨1, b⟩ else h.cell x
  unallocated := by
    intro a ha
    rw [if_neg (Nat.ne_of_gt ha)]
    exact h.unallocated a (Nat.le_of_succ_le ha)

def update (h : Heap B) (a : Nat) (f : Cell B -> Option (Cell B)) : Heap B where
  next := h.next
  cell := fun x => if x = a then (h.cell x).bind f else h.cell x
  unallocated := by
    intro x hx
    rw [h.unallocated x hx]
    exact ite_self none

def setCount (h : Heap B) (a : Nat) (n : Nat) : Heap B :=
  h.update a fun c => some { c with refcount := n }

def setBody (h : Heap B) (a : Nat) (b : B) : Heap B :=
  h.update a fun c => some { c with body := b }

def free (h : Heap B) (a : Nat) : Heap B :=
  h.update a fun _ => none

def refcountOf (h : Heap B) (a : Nat) : Nat :=
  match h.cell a with
  | some c => c.refcount
  | none => 0

/-- The contents of a cell in use.  A cell without references is being destroyed. -/
def read (h : Heap B) (a : Nat) : Option B :=
  match h.cell a with
  | some ⟨_ + 1, b⟩ => some b
  | _ => none

def write (h : Heap B) (a : Nat) (b : B) : Option (Heap B) :=
  if h.refcountOf a = 0 then none else some (h.setBody a b)

def incref (h : Heap B) (a : Nat) : Option (Heap B) :=
  if h.refcountOf a = 0 then none else some (h.setCount a (h.refcountOf a + 1))

variable [Body B]

/-- Give a reference back.  There is no result if the cell is freed already or is being
destroyed, or if the recursion is deeper than `fuel`. -/
def decref : Nat -> Heap B -> Nat -> Option (Heap B)
  | 0, _, _ => none
  | fuel + 1, h, a =>
    match h.cell a with
    | some ⟨n + 2, _⟩ => some (h.setCount a (n + 1))
    | some ⟨1, b⟩ =>
      ((slots b).foldlM (decref fuel) (h.setCount a 0)).map fun h' => h'.free a
    | _ => none

def decrefAll (fuel : Nat) (h : Heap B) (as : List Nat) : Option (Heap B) :=
  as.foldlM (decref fuel) h

/-- Give references back; no chain of cells is longer than the heap. -/
def releaseAll (h : Heap B) (as : List Nat) : Option (Heap B) := h.decrefAll h.next as

def release (h : Heap B) (a : Nat) : Option (Heap B) := h.decref h.next a

/-- The references in the slots of a cell in use. -/
def held (h : Heap B) (a : Nat) : List Nat :=
  match h.read a with
  | some b => slots b
  | none => []

/-- The number of slots that hold a reference to a cell. -/
def incoming (h : Heap B) (x : Nat) : Nat :=
  ∑ b ∈ range h.next, (h.held b).count x

end Operations

/-!
## What the operations do to the cells
-/

section Cells

variable {B : Type} {h h' : Heap B} {a x : Nat} {b : B} {n : Nat} {c : Cell B}

theorem cell_alloc_self : (h.alloc b).cell h.next = some ⟨1, b⟩ := if_pos rfl

theorem cell_alloc_of_ne (hx : x ≠ h.next) : (h.alloc b).cell x = h.cell x := if_neg hx

@[simp] theorem next_alloc : (h.alloc b).next = h.next + 1 := rfl

variable {f : Cell B -> Option (Cell B)}

theorem cell_update_self : (h.update a f).cell a = (h.cell a).bind f := if_pos rfl

theorem cell_update_of_ne (hx : x ≠ a) : (h.update a f).cell x = h.cell x := if_neg hx

@[simp] theorem next_update : (h.update a f).next = h.next := rfl

theorem refcountOf_of_cell (hc : h.cell a = some c) : h.refcountOf a = c.refcount := by
  unfold refcountOf
  rw [hc]

theorem refcountOf_congr (hx : h'.cell x = h.cell x) : h'.refcountOf x = h.refcountOf x := by
  unfold refcountOf
  rw [hx]

theorem read_congr (hx : h'.cell x = h.cell x) : h'.read x = h.read x := by
  unfold read
  rw [hx]

theorem read_eq_some : h.read a = some b <-> exists n, h.cell a = some ⟨n + 1, b⟩ := by
  unfold read
  constructor
  · intro hread
    split at hread
    case h_1 n b' hc =>
      cases hread
      exact ⟨n, hc⟩
    · cases hread
  · rintro ⟨n, hc⟩
    rw [hc]

theorem read_eq_none : h.read a = none <-> h.refcountOf a = 0 := by
  unfold read refcountOf
  cases hc : h.cell a with
  | none => simp
  | some c =>
    rcases c with ⟨n, b⟩
    cases n with
    | zero | succ n => simp

theorem exists_read (ha : h.refcountOf a ≠ 0) : exists b, h.read a = some b :=
  Option.ne_none_iff_exists'.mp (mt read_eq_none.mp ha)

theorem live_of_read (hread : h.read a = some b) : h.refcountOf a ≠ 0 := by
  intro hzero
  rw [read_eq_none.mpr hzero] at hread
  cases hread

theorem refcountOf_unallocated (ha : h.next <= a) : h.refcountOf a = 0 := by
  unfold refcountOf
  rw [h.unallocated a ha]

theorem lt_next_of_refcountOf (ha : h.refcountOf a ≠ 0) : a < h.next := by
  by_contra hnot
  exact ha (refcountOf_unallocated (Nat.le_of_not_lt hnot))

theorem cell_of_refcountOf (ha : h.refcountOf a = n + 1) :
    exists b, h.cell a = some ⟨n + 1, b⟩ := by
  unfold refcountOf at ha
  split at ha
  case h_1 c hc =>
    rcases c with ⟨m, b⟩
    cases ha
    exact ⟨b, hc⟩
  · cases ha

theorem cell_setCount_self (hc : h.cell a = some c) :
    (h.setCount a n).cell a = some ⟨n, c.body⟩ := by
  unfold setCount
  rw [cell_update_self, hc]
  rfl

theorem cell_setCount_of_ne (hx : x ≠ a) : (h.setCount a n).cell x = h.cell x :=
  cell_update_of_ne hx

theorem cell_setBody_self (hc : h.cell a = some c) :
    (h.setBody a b).cell a = some ⟨c.refcount, b⟩ := by
  unfold setBody
  rw [cell_update_self, hc]
  rfl

theorem cell_setBody_of_ne (hx : x ≠ a) : (h.setBody a b).cell x = h.cell x :=
  cell_update_of_ne hx

theorem cell_free_of_ne (hx : x ≠ a) : (h.free a).cell x = h.cell x :=
  cell_update_of_ne hx

theorem cell_free_self : (h.free a).cell a = none := by
  unfold free
  rw [cell_update_self]
  cases h.cell a <;> rfl

@[simp] theorem refcountOf_setBody : (h.setBody a b).refcountOf x = h.refcountOf x := by
  by_cases hx : x = a
  · subst hx
    cases hc : h.cell x with
    | none =>
      have hnone : (h.setBody x b).cell x = none := by
        unfold setBody
        rw [cell_update_self, hc]
        rfl
      unfold refcountOf
      rw [hc, hnone]
    | some c => rw [refcountOf_of_cell (cell_setBody_self hc), refcountOf_of_cell hc]
  · exact refcountOf_congr (cell_update_of_ne hx)

theorem read_setBody_self (ha : h.refcountOf a ≠ 0) : (h.setBody a b).read a = some b := by
  rcases Nat.exists_eq_succ_of_ne_zero ha with ⟨n, hn⟩
  rcases cell_of_refcountOf hn with ⟨b', hc⟩
  exact read_eq_some.mpr ⟨n, cell_setBody_self hc⟩

theorem write_eq_some : h.write a b = some h' <-> h.refcountOf a ≠ 0 ∧ h' = h.setBody a b := by
  unfold write
  split
  case isTrue hzero => simp [hzero]
  case isFalse hzero => simp [hzero, eq_comm]

theorem incref_eq_some :
    h.incref a = some h' <-> h.refcountOf a ≠ 0 ∧ h' = h.setCount a (h.refcountOf a + 1) := by
  unfold incref
  split
  case isTrue hzero => simp [hzero]
  case isFalse hzero => simp [hzero, eq_comm]

theorem read_incref (hinc : h.incref a = some h') (x : Nat) : h'.read x = h.read x := by
  rcases incref_eq_some.mp hinc with ⟨hne, rfl⟩
  by_cases hx : x = a
  · subst hx
    rcases Nat.exists_eq_succ_of_ne_zero hne with ⟨n, hn⟩
    rcases cell_of_refcountOf hn with ⟨b, hcell⟩
    have hself : (h.setCount x (h.refcountOf x + 1)).read x = some b :=
      read_eq_some.mpr ⟨_, cell_setCount_self hcell⟩
    rw [hself, read_eq_some.mpr ⟨n, hcell⟩]
  · exact read_congr (cell_setCount_of_ne hx)

theorem next_incref (hinc : h.incref a = some h') : h'.next = h.next := by
  rcases incref_eq_some.mp hinc with ⟨_, rfl⟩
  rfl

variable [Body B]

theorem held_congr (hx : h'.cell x = h.cell x) : h'.held x = h.held x := by
  unfold held
  rw [read_congr hx]

theorem held_of_read (hread : h.read a = some b) : h.held a = slots b := by
  unfold held
  rw [hread]

theorem held_of_cell (hc : h.cell a = some ⟨n + 1, b⟩) : h.held a = slots b :=
  held_of_read (read_eq_some.mpr ⟨n, hc⟩)

theorem held_of_refcountOf (ha : h.refcountOf a = 0) : h.held a = [] := by
  unfold held
  rw [read_eq_none.mpr ha]

theorem live_of_mem_held (hx : x ∈ h.held a) : h.refcountOf a ≠ 0 := by
  intro hzero
  rw [held_of_refcountOf hzero] at hx
  exact List.not_mem_nil hx

end Cells

/-!
## Accounting
-/

section Accounting

variable {B : Type} [Body B] {h h' h'' : Heap B} {a x : Nat} {b : B}
variable {out back out' back' ext ext' : List Nat}

/-- A change of the heap that hands the references `out` to its caller and takes the
references `back`: every count changes by as much as the slots and the references of the
caller do together. -/
def Trades (h h' : Heap B) (out back : List Nat) : Prop :=
  forall x, h'.refcountOf x + h.incoming x + back.count x =
    h.refcountOf x + h'.incoming x + out.count x

/-- Every count is the number of references from slots and from outside, which are the
entries of `ext`. -/
def Exact (ext : List Nat) (h : Heap B) : Prop :=
  forall x, h.refcountOf x = ext.count x + h.incoming x

theorem Trades.refl (h : Heap B) : Trades h h [] [] := by
  intro x
  simp

theorem Trades.trans (h1 : Trades h h' out back) (h2 : Trades h' h'' out' back') :
    Trades h h'' (out ++ out') (back ++ back') := by
  intro x
  have e1 := h1 x
  have e2 := h2 x
  rw [List.count_append, List.count_append]
  omega

/-- References that are both handed out and taken back cancel. -/
theorem Trades.congr (h1 : Trades h h' out back)
    (hcount : forall x, out.count x + back'.count x = out'.count x + back.count x) :
    Trades h h' out' back' := by
  intro x
  have e1 := h1 x
  have e2 := hcount x
  omega

theorem Exact.trades (h1 : Exact ext h) (h2 : Trades h h' out back)
    (hcount : forall x, ext'.count x + back.count x = ext.count x + out.count x) :
    Exact ext' h' := by
  intro x
  have e1 := h1 x
  have e2 := h2 x
  have e3 := hcount x
  omega

theorem Exact.perm (h1 : Exact ext h) (hperm : ext.Perm ext') : Exact ext' h := by
  intro x
  rw [h1 x, hperm.count_eq x]

theorem Exact.empty : Exact [] (Heap.empty : Heap B) := fun _ => rfl

theorem Exact.live_of_mem (h1 : Exact ext h) (ha : a ∈ ext) : h.refcountOf a ≠ 0 := by
  have hpos := List.count_pos_iff.mpr ha
  have heq := h1 a
  omega

theorem count_le_incoming (hx : x ∈ h.held a) : 0 < h.incoming x := by
  have ha := lt_next_of_refcountOf (live_of_mem_held hx)
  have hle : (h.held a).count x <= h.incoming x :=
    single_le_sum (f := fun b : Nat => (h.held b).count x) (fun _ _ => Nat.zero_le _)
      (mem_range.mpr ha)
  exact Nat.lt_of_lt_of_le (List.count_pos_iff.mpr hx) hle

theorem exists_holder (hx : 0 < h.incoming x) : exists a, x ∈ h.held a := by
  rcases exists_ne_zero_of_sum_ne_zero (Nat.ne_of_gt hx) with ⟨a, _, ha⟩
  exact ⟨a, List.count_pos_iff.mp (Nat.pos_of_ne_zero ha)⟩

theorem Exact.live_of_held (h1 : Exact ext h) (hx : x ∈ h.held a) : h.refcountOf x ≠ 0 := by
  have hpos := count_le_incoming hx
  have heq := h1 x
  omega

/-- Where only one cell changes, the slots of the heap change by the slots of that cell. -/
theorem incoming_of_frame (hnext : h'.next = h.next)
    (hframe : forall x, x ≠ a -> h'.held x = h.held x) (x : Nat) :
    h'.incoming x + (h.held a).count x = h.incoming x + (h'.held a).count x := by
  unfold incoming
  rw [hnext]
  by_cases ha : a < h.next
  · have hmem := mem_range.mpr ha
    have hrest : ∑ b ∈ (range h.next).erase a, (h'.held b).count x =
        ∑ b ∈ (range h.next).erase a, (h.held b).count x := by
      apply sum_congr rfl
      intro b hb
      rw [hframe b (ne_of_mem_erase hb)]
    have hnew := add_sum_erase _ (fun b : Nat => (h'.held b).count x) hmem
    have hold := add_sum_erase _ (fun b : Nat => (h.held b).count x) hmem
    omega
  · have hle := Nat.le_of_not_lt ha
    have hrest : ∑ b ∈ range h.next, (h'.held b).count x =
        ∑ b ∈ range h.next, (h.held b).count x := by
      apply sum_congr rfl
      intro b hb
      rw [hframe b (Nat.ne_of_lt (Nat.lt_of_lt_of_le (mem_range.mp hb) hle))]
    rw [hrest, held_of_refcountOf (refcountOf_unallocated hle),
      held_of_refcountOf (refcountOf_unallocated (hnext.trans_le hle))]

theorem incoming_update {f : Cell B -> Option (Cell B)} (x : Nat) :
    (h.update a f).incoming x + (h.held a).count x =
      h.incoming x + ((h.update a f).held a).count x :=
  incoming_of_frame next_update (fun _ hx => held_congr (cell_update_of_ne hx)) x

theorem trades_setCount {n m : Nat} (hc : h.refcountOf a = n + 1)
    (hcount : forall x, (if x = a then m + 1 else h.refcountOf x) + back.count x =
      h.refcountOf x + out.count x) :
    Trades h (h.setCount a (m + 1)) out back := by
  intro x
  rcases cell_of_refcountOf hc with ⟨b, hcell⟩
  have hself := cell_setCount_self (n := m + 1) hcell
  have hin : (h.setCount a (m + 1)).incoming x + (h.held a).count x =
      h.incoming x + ((h.setCount a (m + 1)).held a).count x := incoming_update x
  rw [held_of_cell hcell, held_of_cell hself] at hin
  dsimp only at hin
  have hx : (h.setCount a (m + 1)).refcountOf x =
      if x = a then m + 1 else h.refcountOf x := by
    split
    case isTrue heq =>
      subst heq
      exact refcountOf_of_cell hself
    case isFalse hne => exact refcountOf_congr (cell_update_of_ne hne)
  have he := hcount x
  omega

theorem trades_incref (hinc : h.incref a = some h') : Trades h h' [a] [] := by
  rcases incref_eq_some.mp hinc with ⟨hne, rfl⟩
  rcases Nat.exists_eq_succ_of_ne_zero hne with ⟨n, hn⟩
  rw [hn]
  apply trades_setCount hn
  intro x
  split
  case isTrue heq =>
    subst heq
    simp [hn]
  case isFalse hx => simp [Ne.symm hx]

theorem trades_setBody {b' : B} (hread : h.read a = some b) :
    Trades h (h.setBody a b') (slots b) (slots b') := by
  intro x
  have hin : (h.setBody a b').incoming x + (h.held a).count x =
      h.incoming x + ((h.setBody a b').held a).count x := incoming_update x
  rw [held_of_read hread, held_of_read (read_setBody_self (live_of_read hread))] at hin
  rw [refcountOf_setBody]
  omega

theorem trades_alloc (h : Heap B) (b : B) : Trades h (h.alloc b) [h.next] (slots b) := by
  intro x
  have hrest : ∑ c ∈ range h.next, ((h.alloc b).held c).count x = h.incoming x := by
    apply sum_congr rfl
    intro c hc
    rw [held_congr (cell_alloc_of_ne (Nat.ne_of_lt (mem_range.mp hc)))]
  have hin : (h.alloc b).incoming x = h.incoming x + (slots b).count x := by
    unfold incoming at hrest ⊢
    rw [next_alloc, sum_range_succ, hrest, held_of_cell cell_alloc_self]
  rw [hin]
  by_cases hx : x = h.next
  · subst hx
    rw [refcountOf_of_cell cell_alloc_self, refcountOf_unallocated (Nat.le_refl _)]
    simp
    omega
  · rw [refcountOf_congr (cell_alloc_of_ne hx)]
    simp [Ne.symm hx]
    omega

end Accounting

end Heap
end Async2.RefCount
