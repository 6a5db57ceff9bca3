import Async2.Foundation.RefCount.Graph

/-!
# Building in a fresh region

An operation that allocates a structure, and frees the parts of it that it gives up,
works on the cells above a point of the heap only: cells below stay as they are, no
new cell is shared, and the slots of a new cell refer to cells that are newer still.
What is in use above that point at the end is then exactly what the references that
the operation hands out lead to.
-/

namespace Async2.RefCount.Heap

open List

variable {B : Type} [Body B] {h0 h h' : Heap B} {a x : Nat} {b : B}
variable {ext out : List Nat}

/-- The heap was changed by building on top of it. -/
structure Builds (h0 h : Heap B) : Prop where
  next_le : h0.next <= h.next
  old : forall x, x < h0.next -> h.cell x = h0.cell x
  single : forall x, h0.next <= x -> h.refcountOf x <= 1
  later : forall a x, h0.next <= a -> x ∈ h.held a -> a < x

theorem Builds.refl (h : Heap B) : Builds h h where
  next_le := Nat.le_refl _
  old := fun _ _ => rfl
  single := fun x hx => by
    rw [refcountOf_unallocated hx]
    exact Nat.zero_le 1
  later := fun a x ha hx => by
    rw [held_of_refcountOf (refcountOf_unallocated ha)] at hx
    cases hx

section

variable (h1 : Builds h0 h)
include h1

theorem Builds.trans (h2 : Builds h h') : Builds h0 h' where
  next_le := h1.next_le.trans h2.next_le
  old := fun x hx => (h2.old x (Nat.lt_of_lt_of_le hx h1.next_le)).trans (h1.old x hx)
  single := fun x hx => by
    by_cases hlt : x < h.next
    · rw [refcountOf_congr (h2.old x hlt)]
      exact h1.single x hx
    · exact h2.single x (Nat.le_of_not_lt hlt)
  later := fun a x ha hx => by
    by_cases hlt : a < h.next
    · rw [held_congr (h2.old a hlt)] at hx
      exact h1.later a x ha hx
    · exact h2.later a x (Nat.le_of_not_lt hlt) hx

theorem Builds.alloc (hslots : slots b = []) : Builds h0 (h.alloc b) where
  next_le := Nat.le_succ_of_le h1.next_le
  old := fun x hx => by
    rw [cell_alloc_of_ne (Nat.ne_of_lt (Nat.lt_of_lt_of_le hx h1.next_le))]
    exact h1.old x hx
  single := fun x hx => by
    by_cases hself : x = h.next
    · subst hself
      rw [refcountOf_of_cell cell_alloc_self]
    · rw [refcountOf_congr (cell_alloc_of_ne hself)]
      exact h1.single x hx
  later := fun a x ha hx => by
    by_cases hself : a = h.next
    · subst hself
      rw [held_of_cell cell_alloc_self, hslots] at hx
      cases hx
    · rw [held_congr (cell_alloc_of_ne hself)] at hx
      exact h1.later a x ha hx

theorem Builds.setBody (ha : h0.next <= a) (hslots : forall x, x ∈ slots b -> a < x) :
    Builds h0 (h.setBody a b) where
  next_le := h1.next_le
  old := fun x hx => by
    rw [cell_setBody_of_ne (Nat.ne_of_lt (Nat.lt_of_lt_of_le hx ha))]
    exact h1.old x hx
  single := fun x hx => by
    rw [refcountOf_setBody]
    exact h1.single x hx
  later := fun c x hc hx => by
    by_cases hself : c = a
    · subst hself
      have hlive := live_of_mem_held hx
      rw [refcountOf_setBody] at hlive
      rw [held_of_read (read_setBody_self hlive)] at hx
      exact hslots x hx
    · rw [held_congr (cell_setBody_of_ne hself)] at hx
      exact h1.later c x hc hx

theorem Builds.shrink (h2 : Shrinks h h') (hold : forall x, x < h0.next -> h'.cell x = h.cell x) :
    Builds h0 h' where
  next_le := h2.next ▸ h1.next_le
  old := fun x hx => (hold x hx).trans (h1.old x hx)
  single := fun x hx => (h2.refcountOf_le x).trans (h1.single x hx)
  later := fun a x ha hx => h1.later a x ha (h2.held_subset hx)

theorem Builds.closed (c : Nat) (hc : h0.next <= c) (y : Nat) (hy : y ∈ h.held c) : h0.next <= y :=
  hc.trans (Nat.le_of_lt (h1.later c y hc hy))

theorem Builds.releaseAll {as : List Nat} (has : forall a, a ∈ as -> h0.next <= a)
    (hrel : h.releaseAll as = some h') : Builds h0 h' := by
  apply h1.shrink (shrinks_decrefAll hrel)
  intro x hx
  exact decrefAll_frame h1.closed has hrel (Nat.not_le.mpr hx)

theorem Builds.release (ha : h0.next <= a) (hrel : h.release a = some h') : Builds h0 h' := by
  apply h1.shrink (shrinks_decref hrel)
  intro x hx
  exact decref_frame h1.closed ha hrel (Nat.not_le.mpr hx)

theorem Builds.reach_le (ha : h0.next <= a) (hreach : h.Reach a x) : a <= x := by
  induction hreach with
  | refl => exact Nat.le_refl a
  | tail _ hedge ih =>
    exact ih.trans (Nat.le_of_lt (h1.later _ _ (ha.trans ih) hedge))

theorem Builds.held_old (hin : InBounds h0) (ha : a < h0.next) (hx : x ∈ h.held a) :
    x < h0.next := by
  rw [held_congr (h1.old a ha)] at hx
  exact hin a x hx

theorem Builds.reach_old (hin : InBounds h0) (ha : a < h0.next) (hreach : h.Reach a x) :
    x < h0.next := by
  induction hreach with
  | refl => exact ha
  | tail _ hedge ih => exact h1.held_old hin ih hedge

theorem Builds.edge_old (ha : a < h0.next) (hedge : h.Edge a x) : h0.Edge a x := by
  unfold Edge at hedge ⊢
  rw [held_congr (h1.old a ha)] at hedge
  exact hedge

end

/-!
## What is in use afterwards
-/

theorem Exact.count_new (hexact : Exact ext h0) (hx : h0.next <= x) : ext.count x = 0 := by
  apply count_eq_zero.mpr
  intro hmem
  exact hexact.live_of_mem hmem (refcountOf_unallocated hx)

/-- A new cell in use is below a reference that was handed out. -/
theorem Builds.reached (h1 : Builds h0 h) (hexact : Exact ext h0)
    (hcounted : Exact (out ++ ext) h) (hx : h0.next <= x) (hlive : h.refcountOf x ≠ 0) :
    exists r, r ∈ out ∧ h.Reach r x := by
  -- Its holder is an earlier new cell, unless it was handed out itself.
  induction x using Nat.strong_induction_on with
  | _ x ih =>
    by_cases hmem : x ∈ out
    · exact ⟨x, hmem, .refl⟩
    · have heq := hcounted x
      rw [count_append, hexact.count_new hx, count_eq_zero.mpr hmem] at heq
      have hin : 0 < h.incoming x := by omega
      rcases exists_holder hin with ⟨a, ha⟩
      have hnew : h0.next <= a := by
        by_contra hold
        have hlt := h1.held_old hexact.inBounds (Nat.lt_of_not_le hold) ha
        exact absurd hlt (Nat.not_lt.mpr hx)
      rcases ih a (h1.later a x hnew ha) hnew (live_of_mem_held ha)
        with ⟨r, hr, hreach⟩
      exact ⟨r, hr, hreach.tail ha⟩

theorem Builds.not_held (h1 : Builds h0 h) (hcounted : Exact (out ++ ext) h)
    (hx : h0.next <= x) (hmem : x ∈ out) (a : Nat) : x ∉ h.held a := by
  intro hheld
  have hpos := count_pos_iff.mpr hmem
  have hin := count_le_incoming hheld
  have heq := hcounted x
  have hle := h1.single x hx
  rw [count_append] at heq
  omega

/-- The cells above a point are those that were handed out and what is below them, each
with a single reference. -/
structure OwnedBy (base : Nat) (out : List Nat) (h : Heap B) : Prop where
  reached : forall x, base <= x -> (h.refcountOf x ≠ 0 <-> exists r, r ∈ out ∧ h.Reach r x)
  single : forall x, base <= x -> h.refcountOf x ≠ 0 -> h.refcountOf x = 1
  root : forall r, r ∈ out -> h.incoming r = 0
  parent : forall x, base <= x -> h.refcountOf x ≠ 0 -> x ∉ out -> h.incoming x = 1

theorem Builds.ownedBy (h1 : Builds h0 h) (hexact : Exact ext h0)
    (hcounted : Exact (out ++ ext) h) (hout : forall r, r ∈ out -> h0.next <= r) :
    OwnedBy h0.next out h where
  reached := fun x hx => by
    constructor
    · exact h1.reached hexact hcounted hx
    · rintro ⟨r, hr, hreach⟩
      exact hcounted.live_of_reach (hcounted.live_of_mem (mem_append_left _ hr)) hreach
  single := fun x hx hlive => by
    have hle := h1.single x hx
    omega
  root := fun r hr => by
    by_contra hne
    rcases exists_holder (Nat.pos_of_ne_zero hne) with ⟨a, ha⟩
    exact h1.not_held hcounted (hout r hr) hr a ha
  parent := fun x hx hlive hnot => by
    have heq := hcounted x
    have hle := h1.single x hx
    rw [count_append, hexact.count_new hx, count_eq_zero.mpr hnot] at heq
    omega

end Async2.RefCount.Heap
