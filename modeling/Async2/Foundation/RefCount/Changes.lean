import Async2.Foundation.RefCount.Region

/-!
# Changes of a heap

A step of a program may write one cell, free cells and build new ones.  `Changes` says
what it leaves of the cells that were there before and which edges it adds; it holds of
the primitive steps and composes along a sequence of them.  A step that writes none of
the cells that were there is `Quiet`.
-/

namespace Async2.RefCount.Heap

open Relation List

variable {B : Type} [Body B] {h h' h'' : Heap B} {n a x y : Nat} {b b' : B}
variable {added added' : List Nat} {W W' : B -> B -> Prop}

/-- Of the cells that were there only `n` is written, as `W` says, and it may get the
references `added` and references to new cells.  The slots of a new cell refer to newer
ones. -/
structure Changes (h h' : Heap B) (n : Nat) (added : List Nat) (W : B -> B -> Prop) :
    Prop where
  next_le : h.next <= h'.next
  kept : forall x b', x < h.next -> h'.read x = some b' ->
    exists b, h.read x = some b ∧ (b' = b ∨ x = n ∧ W b b')
  old : forall x y, x < h.next -> h'.Edge x y ->
    h.Edge x y ∨ x = n ∧ (y ∈ added ∨ h.next <= y)
  new : forall x y, h.next <= x -> h'.Edge x y -> x < y

/-- No cell that was there is written. -/
def Quiet (h h' : Heap B) : Prop := forall n, Changes h h' n [] fun _ _ => False

theorem Quiet.changes (h1 : Quiet h h') (n : Nat) (added : List Nat) (W : B -> B -> Prop) :
    Changes h h' n added W where
  next_le := (h1 n).next_le
  kept := fun x b' hx hread => by
    rcases (h1 n).kept x b' hx hread with ⟨b, hb, heq | ⟨_, hfalse⟩⟩
    · exact ⟨b, hb, .inl heq⟩
    · exact hfalse.elim
  old := fun x y hx hedge => by
    rcases (h1 n).old x y hx hedge with hold | ⟨hxn, hmem | hnew⟩
    · exact .inl hold
    · cases hmem
    · exact .inr ⟨hxn, .inr hnew⟩
  new := (h1 n).new

theorem Quiet.read_eq (h1 : Quiet h h') (hx : x < h.next) (hread : h'.read x = some b) :
    h.read x = some b := by
  rcases (h1 0).kept x b hx hread with ⟨b', hb', heq | ⟨_, hfalse⟩⟩
  · rw [heq]
    exact hb'
  · exact hfalse.elim

/-!
## The primitive steps
-/

theorem Shrinks.quiet (h1 : Shrinks h h') : Quiet h h' := fun _ =>
  { next_le := Nat.le_of_eq h1.next.symm
    kept := fun x b' _ hread => ⟨b', h1.read_eq hread, .inl rfl⟩
    old := fun x y _ hedge => .inl (h1.edge x y hedge)
    new := fun x y hx hedge => by
      have hlive := live_of_mem_held (h1.held_subset hedge)
      exact absurd (refcountOf_unallocated hx) hlive }

theorem Quiet.refl (h : Heap B) : Quiet h h := (Shrinks.refl h).quiet

theorem Builds.quiet (h1 : Builds h h') : Quiet h h' := fun _ =>
  { next_le := h1.next_le
    kept := fun x b' hx hread => by
      rw [read_congr (h1.old x hx)] at hread
      exact ⟨b', hread, .inl rfl⟩
    old := fun x y hx hedge => .inl (h1.edge_old hx hedge)
    new := h1.later }

theorem quiet_incref (hinc : h.incref a = some h') : Quiet h h' := fun _ =>
  { next_le := Nat.le_of_eq (next_incref hinc).symm
    kept := fun x b' _ hread => by
      rw [read_incref hinc] at hread
      exact ⟨b', hread, .inl rfl⟩
    old := fun x y _ hedge => .inl ((edge_congr (held_incref hinc) x y).mp hedge)
    new := fun x y hx hedge => by
      have hold := (edge_congr (held_incref hinc) x y).mp hedge
      exact absurd (refcountOf_unallocated hx) (live_of_mem_held hold) }

theorem changes_setBody (hread : h.read n = some b) (hW : W b b')
    (hslots : forall y, y ∈ slots b' -> y ∈ slots b ∨ y ∈ added) :
    Changes h (h.setBody n b') n added W := by
  have hlive := live_of_read hread
  have hself : (h.setBody n b').read n = some b' := read_setBody_self hlive
  constructor
  · exact Nat.le_refl _
  · intro x c hx hc
    by_cases hxn : x = n
    · subst hxn
      rw [hself] at hc
      cases hc
      exact ⟨b, hread, .inr ⟨rfl, hW⟩⟩
    · rw [read_congr (cell_setBody_of_ne hxn)] at hc
      exact ⟨c, hc, .inl rfl⟩
  · intro x y _ hedge
    by_cases hxn : x = n
    · subst hxn
      rcases hslots y ((edge_iff hself).mp hedge) with hold | hnew
      · exact .inl ((edge_iff hread).mpr hold)
      · exact .inr ⟨rfl, .inl hnew⟩
    · unfold Edge at hedge
      rw [held_congr (cell_setBody_of_ne hxn)] at hedge
      exact .inl hedge
  · intro x y hx hedge
    have hused := live_of_mem_held hedge
    rw [refcountOf_setBody] at hused
    exact absurd (refcountOf_unallocated hx) hused

/-!
## Sequences of steps
-/

/-- A second change of the same cell; `W''` is what both amount to. -/
theorem Changes.trans {W'' : B -> B -> Prop} (h1 : Changes h h' n added W)
    (h2 : Changes h' h'' n added' W') (hn : n < h.next)
    (hfirst : forall b b', W b b' -> W'' b b') (hsecond : forall b b', W' b b' -> W'' b b')
    (hboth : forall b b' b'', W b b' -> W' b' b'' -> W'' b b'') :
    Changes h h'' n (added ++ added') W'' where
  next_le := h1.next_le.trans h2.next_le
  kept := fun x b'' hx hread => by
    rcases h2.kept x b'' (Nat.lt_of_lt_of_le hx h1.next_le) hread with ⟨b', hb', hcase⟩
    rcases h1.kept x b' hx hb' with ⟨b, hb, hcase'⟩
    refine ⟨b, hb, ?_⟩
    rcases hcase with rfl | ⟨hxn, hW'⟩
    · rcases hcase' with rfl | ⟨hxn, hW⟩
      · exact .inl rfl
      · exact .inr ⟨hxn, hfirst _ _ hW⟩
    · rcases hcase' with rfl | ⟨_, hW⟩
      · exact .inr ⟨hxn, hsecond _ _ hW'⟩
      · exact .inr ⟨hxn, hboth _ _ _ hW hW'⟩
  old := fun x y hx hedge => by
    rcases h2.old x y (Nat.lt_of_lt_of_le hx h1.next_le) hedge with hmid | ⟨hxn, hmem | hnew⟩
    · rcases h1.old x y hx hmid with hold | ⟨hxn, hmem | hnew⟩
      · exact .inl hold
      · exact .inr ⟨hxn, .inl (mem_append_left _ hmem)⟩
      · exact .inr ⟨hxn, .inr hnew⟩
    · exact .inr ⟨hxn, .inl (mem_append_right _ hmem)⟩
    · exact .inr ⟨hxn, .inr (h1.next_le.trans hnew)⟩
  new := fun x y hx hedge => by
    by_cases hlt : x < h'.next
    · rcases h2.old x y hlt hedge with hmid | ⟨hxn, _⟩
      · exact h1.new x y hx hmid
      · subst hxn
        exact absurd hn (Nat.not_lt.mpr hx)
    · exact h2.new x y (Nat.le_of_not_lt hlt) hedge

theorem Changes.quiet (h1 : Changes h h' n added W) (h2 : Quiet h' h'') (hn : n < h.next) :
    Changes h h'' n added W := by
  have hboth : Changes h h'' n (added ++ []) W := h1.trans (h2 n) hn (fun _ _ hW => hW)
    (fun _ _ hfalse => hfalse.elim) (fun _ _ _ _ hfalse => hfalse.elim)
  rw [append_nil] at hboth
  exact hboth

theorem Quiet.trans (h1 : Quiet h h') (h2 : Quiet h' h'') : Quiet h h'' := fun n =>
  { next_le := (h1 n).next_le.trans (h2 n).next_le
    kept := fun x b'' hx hread => by
      have hmid := h2.read_eq (Nat.lt_of_lt_of_le hx (h1 n).next_le) hread
      exact ⟨b'', h1.read_eq hx hmid, .inl rfl⟩
    old := fun x y hx hedge => by
      rcases (h2 n).old x y (Nat.lt_of_lt_of_le hx (h1 n).next_le) hedge
        with hmid | ⟨hxn, hmem | hnew⟩
      · exact (h1 n).old x y hx hmid
      · cases hmem
      · exact .inr ⟨hxn, .inr ((h1 n).next_le.trans hnew)⟩
    new := fun x y hx hedge => by
      by_cases hlt : x < h'.next
      · rcases (h2 (x + 1)).old x y hlt hedge with hmid | ⟨hxn, _⟩
        · exact (h1 n).new x y hx hmid
        · exact absurd hxn (Nat.ne_of_lt (Nat.lt_succ_self x))
      · exact (h2 n).new x y (Nat.le_of_not_lt hlt) hedge }

theorem Quiet.then (h1 : Quiet h h') (h2 : Changes h' h'' n added W) (hn : n < h.next) :
    Changes h h'' n added W := by
  exact (h1 n).trans h2 hn (fun _ _ hfalse => hfalse.elim) (fun _ _ hW => hW)
    (fun _ _ _ hfalse _ => hfalse.elim)

section

variable (h1 : Changes h h' n added W)
include h1

theorem Changes.imp (hW : forall b b', W b b' -> W' b b') : Changes h h' n added W' where
  next_le := h1.next_le
  kept := fun x b' hx hread => by
    rcases h1.kept x b' hx hread with ⟨b, hb, heq | ⟨hxn, hwrite⟩⟩
    · exact ⟨b, hb, .inl heq⟩
    · exact ⟨b, hb, .inr ⟨hxn, hW _ _ hwrite⟩⟩
  old := h1.old
  new := h1.new

theorem Changes.unwritten (hno : forall b b', h.read n = some b -> ¬ W b b') :
    Quiet h h' := fun m =>
  have hsame : forall x b', x < h.next -> h'.read x = some b' -> h.read x = some b' := by
    intro x b' hx hread
    rcases h1.kept x b' hx hread with ⟨b, hb, rfl | ⟨rfl, hW⟩⟩
    · exact hb
    · exact absurd hW (hno b b' hb)
  { next_le := h1.next_le
    kept := fun x b' hx hread => ⟨b', hsame x b' hx hread, .inl rfl⟩
    old := fun x y hx hedge => by
      rcases exists_read (live_of_mem_held hedge) with ⟨b, hb⟩
      exact .inl ((edge_iff (hsame x b hx hb)).mpr ((edge_iff hb).mp hedge))
    new := h1.new }

theorem Changes.fresh (hadded : forall y, y ∈ added -> h.next <= y) : Changes h h' n [] W where
  next_le := h1.next_le
  kept := h1.kept
  old := fun x y hx hedge => by
    rcases h1.old x y hx hedge with hold | ⟨hxn, hmem | hnew⟩
    · exact .inl hold
    · exact .inr ⟨hxn, .inr (hadded y hmem)⟩
    · exact .inr ⟨hxn, .inr hnew⟩
  new := h1.new

/-!
## What a change keeps
-/

theorem Changes.path_new (hx : h.next <= x) (hpath : TransGen h'.Edge x y) : x < y := by
  induction hpath with
  | single hedge => exact h1.new _ _ hx hedge
  | tail _ hedge ih => exact ih.trans (h1.new _ _ (hx.trans (Nat.le_of_lt ih)) hedge)

/-- A change closes no cycle if the cell that is written is not below its new children. -/
theorem Changes.acyclic (hacyclic : Acyclic h) (hadded : forall y, y ∈ added -> ¬ h.Reach y n) :
    Acyclic h' := by
  intro v hcycle
  by_cases hv : v < h.next
  · -- Every vertex of the cycle is old, since a new cell never leads back.
    have hinner : forall w, TransGen h'.Edge v w -> TransGen h'.Edge w v ->
        TransGen (fun x y => h'.Edge x y ∧ x < h.next ∧ y < h.next) v w := by
      have hback : forall w, TransGen h'.Edge w v -> w < h.next := by
        intro w hw
        by_contra hnew
        have hlt := h1.path_new (Nat.le_of_not_lt hnew) hw
        omega
      intro w hw
      induction hw with
      | single hedge => exact fun hwv => .single ⟨hedge, hv, hback _ hwv⟩
      | tail _ hedge ih =>
        intro hwv
        have hprev := TransGen.head hedge hwv
        exact (ih hprev).tail ⟨hedge, hback _ hprev, hback _ hwv⟩
    refine not_transGen_of_new_edges (S := fun y => y ∈ added) hacyclic ?_ hadded v
      (hinner v hcycle hcycle)
    rintro x y ⟨hedge, hx, hy⟩
    rcases h1.old x y hx hedge with hold | ⟨hxn, hmem | hnew⟩
    · exact .inl hold
    · exact .inr ⟨hxn, hmem⟩
    · exact absurd hy (Nat.not_lt.mpr hnew)
  · exact Nat.lt_irrefl v (h1.path_new (Nat.le_of_not_lt hv) hcycle)

end

theorem Quiet.acyclic (h1 : Quiet h h') (hacyclic : Acyclic h) : Acyclic h' :=
  (h1 0).acyclic hacyclic fun _ hy => absurd hy not_mem_nil

/-- A set that is closed under the slots stays so together with the new cells. -/
theorem Changes.closed {P : Nat -> Prop} (h1 : Changes h h' n added W)
    (hP : forall x y, P x -> h.Edge x y -> P y) (hadded : forall y, y ∈ added -> P y)
    (x y : Nat) (hx : P x ∨ h.next <= x) (hedge : h'.Edge x y) : P y ∨ h.next <= y := by
  by_cases hlt : x < h.next
  · rcases hx with hx | hx
    · rcases h1.old x y hlt hedge with hold | ⟨_, hmem | hnew⟩
      · exact .inl (hP x y hx hold)
      · exact .inl (hadded y hmem)
      · exact .inr hnew
    · exact absurd hlt (Nat.not_lt.mpr hx)
  · have hnew := Nat.le_of_not_lt hlt
    exact .inr (hnew.trans (Nat.le_of_lt (h1.new x y hnew hedge)))

end Async2.RefCount.Heap
