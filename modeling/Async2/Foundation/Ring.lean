import Mathlib.Data.List.Nodup

/-!
# Rings of cells

Cells have links to the next and to the previous cell.  A segment is a path along the links
that can be walked in both directions, and a ring is a segment from a cell back to itself.
The links are partial: a cell that has been freed has none.

A ring may be walked backwards, so that it is enough to say what happens at one end.
-/

namespace Async2.Ring

open List

variable {A : Type}

/-- The links from a cell over the cells of a list to another one, and back. -/
def Segment (next prev : A -> Option A) : A -> List A -> A -> Prop
  | a, [], b => next a = some b ∧ prev b = some a
  | a, x :: xs, b => (next a = some x ∧ prev x = some a) ∧ Segment next prev x xs b

/-- The links from a cell over the cells of a list back to the cell. -/
structure IsRing (next prev : A -> Option A) (s : A) (xs : List A) : Prop where
  segment : Segment next prev s xs s
  distinct : (s :: xs).Nodup

variable {next prev next' prev' : A -> Option A} {a b s x p q : A} {xs ys zs : List A}

/-!
## Segments
-/

theorem segment_append :
    Segment next prev a (xs ++ x :: ys) b <->
      Segment next prev a xs x ∧ Segment next prev x ys b := by
  induction xs generalizing a with
  | nil => exact Iff.rfl
  | cons y rest ih =>
    rw [cons_append, Segment, Segment, ih]
    exact and_assoc.symm

section

variable (h : Segment next prev a xs b)
include h

theorem Segment.congr (hnext : forall x, x ∈ a :: xs -> next' x = next x)
    (hprev : forall x, x ∈ xs ++ [b] -> prev' x = prev x) : Segment next' prev' a xs b := by
  induction xs generalizing a with
  | nil =>
    rw [Segment, hnext a mem_cons_self, hprev b (by simp)]
    exact h
  | cons x rest ih =>
    rw [Segment, hnext a mem_cons_self, hprev x (by simp)]
    refine ⟨h.left, ih h.right ?_ ?_⟩
    · exact fun y hy => hnext y (mem_cons_of_mem a hy)
    · exact fun y hy => hprev y (mem_cons_of_mem x hy)

theorem Segment.next_first : next a = (xs ++ [b]).head? := by
  cases xs with
  | nil => exact h.left
  | cons x rest => exact h.left.left

theorem Segment.exists_next : exists q, q ∈ xs ++ [b] ∧ next a = some q := by
  cases xs with
  | nil => exact ⟨b, mem_singleton_self b, h.left⟩
  | cons x rest => exact ⟨x, mem_cons_self, h.left.left⟩

theorem Segment.reverse : Segment prev next b xs.reverse a := by
  induction xs generalizing a with
  | nil => exact h.symm
  | cons x rest ih =>
    rw [reverse_cons]
    exact segment_append.mpr ⟨ih h.right, h.left.symm⟩

theorem Segment.prev_last : prev b = (a :: xs).getLast? := by
  rw [h.reverse.next_first, ← reverse_cons, List.head?_reverse]

theorem Segment.prev_mem (hp : prev b = some p) : p ∈ a :: xs :=
  mem_of_getLast? (h.prev_last.symm.trans hp)

/-- The end of a segment is moved. -/
theorem Segment.retarget (hdistinct : (a :: xs).Nodup) (hp : prev b = some p) {b' : A}
    (hlast : next' p = some b') (hnext : forall x, x ∈ a :: xs -> x ≠ p -> next' x = next x)
    (hprev : forall x, x ∈ xs -> prev' x = prev x) (hback : prev' b' = some p) :
    Segment next' prev' a xs b' := by
  induction xs generalizing a with
  | nil =>
    cases h.right.symm.trans hp
    exact ⟨hlast, hback⟩
  | cons x rest ih =>
    have hnotin := (nodup_cons.mp hdistinct).left
    have hne : a ≠ p := by
      rintro rfl
      exact hnotin (h.right.prev_mem hp)
    rw [Segment, hnext a mem_cons_self hne, hprev x mem_cons_self]
    refine ⟨h.left, ih h.right (nodup_cons.mp hdistinct).right ?_ ?_⟩
    · exact fun y hy => hnext y (mem_cons_of_mem a hy)
    · exact fun y hy => hprev y (mem_cons_of_mem x hy)

end

/-!
## Rings
-/

theorem isRing_single (hnext : next s = some s) (hprev : prev s = some s) : IsRing next prev s [] :=
  ⟨⟨hnext, hprev⟩, nodup_singleton s⟩

theorem IsRing.congr (h : IsRing next prev s xs)
    (hnext : forall x, x ∈ s :: xs -> next' x = next x)
    (hprev : forall x, x ∈ s :: xs -> prev' x = prev x) : IsRing next' prev' s xs := by
  refine ⟨h.segment.congr hnext fun x hx => hprev x ?_, h.distinct⟩
  rw [mem_cons, or_comm, ← mem_singleton, ← mem_append]
  exact hx

theorem IsRing.reverse (h : IsRing next prev s xs) : IsRing prev next s xs.reverse :=
  ⟨h.segment.reverse, ((reverse_perm xs).cons s).nodup_iff.mpr h.distinct⟩

theorem IsRing.exists_next (h : IsRing next prev s xs) (hx : x ∈ s :: xs) :
    exists q, q ∈ s :: xs ∧ next x = some q := by
  rcases mem_cons.mp hx with rfl | hmem
  · rcases h.segment.exists_next with ⟨q, hq, hnext⟩
    refine ⟨q, ?_, hnext⟩
    rw [mem_append, mem_singleton, or_comm] at hq
    exact mem_cons.mpr hq
  · rcases append_of_mem hmem with ⟨ys, zs, rfl⟩
    rcases (segment_append.mp h.segment).right.exists_next with ⟨q, hq, hnext⟩
    refine ⟨q, ?_, hnext⟩
    rw [mem_append, mem_singleton] at hq
    simp only [mem_cons, mem_append]
    tauto

theorem IsRing.exists_prev (h : IsRing next prev s xs) (hx : x ∈ s :: xs) :
    exists p, p ∈ s :: xs ∧ prev x = some p := by
  have hperm := (reverse_perm xs).cons s
  rcases h.reverse.exists_next (hperm.mem_iff.mpr hx) with ⟨p, hp, hprev⟩
  exact ⟨p, hperm.mem_iff.mp hp, hprev⟩

variable [DecidableEq A]

section

variable (h : IsRing next prev s xs) (hnew : x ∉ s :: xs)
include h hnew

theorem IsRing.insert_last (hp : prev s = some p)
    (hnext : forall y, next' y = if y = p then some x else if y = x then some s else next y)
    (hprev : forall y, prev' y = if y = s then some x else if y = x then some p else prev y) :
    IsRing next' prev' s (xs ++ [x]) := by
  have hmem : p ∈ s :: xs := h.segment.prev_mem hp
  have hxp : x ≠ p := fun hxp => hnew (hxp ▸ hmem)
  have hxs : x ≠ s := fun hxs => hnew (hxs ▸ mem_cons_self)
  constructor
  · rw [segment_append]
    constructor
    · apply h.segment.retarget h.distinct hp
      · rw [hnext, if_pos rfl]
      · intro y hy hyp
        have hyx : y ≠ x := fun hyx => hnew (hyx ▸ hy)
        rw [hnext, if_neg hyp, if_neg hyx]
      · intro y hy
        have hys : y ≠ s := fun hys => (nodup_cons.mp h.distinct).left (hys ▸ hy)
        have hyx : y ≠ x := fun hyx => hnew (hyx ▸ mem_cons_of_mem s hy)
        rw [hprev, if_neg hys, if_neg hyx]
      · rw [hprev, if_neg hxs, if_pos rfl]
    · rw [Segment, hnext, hprev, if_neg hxp, if_pos rfl, if_pos rfl]
      exact ⟨rfl, rfl⟩
  · have hperm : ([x] ++ s :: xs).Perm (s :: xs ++ [x]) := perm_append_comm
    exact hperm.nodup_iff.mp (nodup_cons.mpr ⟨hnew, h.distinct⟩)

theorem IsRing.insert_first (hq : next s = some q) (hp : prev q = some p)
    (hnext : forall y, next' y = if y = p then some x else if y = x then some q else next y)
    (hprev : forall y, prev' y = if y = q then some x else if y = x then some p else prev y) :
    IsRing next' prev' s (x :: xs) := by
  have hps : p = s := by
    cases xs with
    | nil =>
      cases h.segment.left.symm.trans hq
      exact Option.some.inj (hp.symm.trans h.segment.right)
    | cons y rest =>
      cases h.segment.left.left.symm.trans hq
      exact Option.some.inj (hp.symm.trans h.segment.left.right)
  subst hps
  -- In the ring walked backwards the new cell comes last.
  have hnew' : x ∉ p :: xs.reverse := by
    rw [((reverse_perm xs).cons p).mem_iff]
    exact hnew
  have hinserted := (h.reverse.insert_last hnew' hq hprev hnext).reverse
  rw [reverse_append, reverse_reverse] at hinserted
  exact hinserted

end

theorem IsRing.unlink (h : IsRing next prev s (ys ++ x :: zs)) (hp : prev x = some p)
    (hq : next x = some q) (hnext : forall y, next' y = if y = p then some q else next y)
    (hprev : forall y, prev' y = if y = q then some p else prev y) :
    IsRing next' prev' s (ys ++ zs) := by
  have hdistinct : (s :: (ys ++ zs)).Nodup := by
    have hsub : (s :: (ys ++ zs)).Sublist (s :: (ys ++ x :: zs)) :=
      ((sublist_cons_self x zs).append_left ys).cons_cons s
    exact hsub.nodup h.distinct
  rcases segment_append.mp h.segment with ⟨hbefore, hafter⟩
  have hsplit : (s :: ys).Nodup :=
    ((sublist_append_left ys zs).cons_cons s).nodup hdistinct
  have hpmem : p ∈ s :: ys := hbefore.prev_mem hp
  refine ⟨?_, hdistinct⟩
  -- The part before the cell now ends where the cell led to.
  have hjoined : (forall y, y ∈ ys -> y ≠ q) -> Segment next' prev' s ys q := by
    intro hne
    apply hbefore.retarget hsplit hp
    · rw [hnext, if_pos rfl]
    · exact fun y _ hyp => by rw [hnext, if_neg hyp]
    · exact fun y hy => by rw [hprev, if_neg (hne y hy)]
    · rw [hprev, if_pos rfl]
  cases zs with
  | nil =>
    cases hafter.left.symm.trans hq
    rw [append_nil]
    apply hjoined
    rintro y hy rfl
    exact (nodup_cons.mp hsplit).left hy
  | cons z rest =>
    cases hafter.left.left.symm.trans hq
    have hparts : (s :: ys ++ q :: rest).Nodup := hdistinct
    rw [nodup_append] at hparts
    have hdisjoint : forall y, y ∈ s :: ys -> y ∉ q :: rest :=
      fun y hy hz => hparts.right.right y hy y hz rfl
    rw [segment_append]
    constructor
    · apply hjoined
      rintro y hy rfl
      exact hdisjoint y (mem_cons_of_mem s hy) mem_cons_self
    · apply hafter.right.congr
      · intro y hy
        have hyp : y ≠ p := by
          rintro rfl
          exact hdisjoint y hpmem hy
        rw [hnext, if_neg hyp]
      · intro y hy
        have hyq : y ≠ q := by
          rintro rfl
          rcases mem_append.mp hy with hrest | hs
          · exact (nodup_cons.mp hparts.right.left).left hrest
          · rw [mem_singleton] at hs
            subst hs
            exact hdisjoint y mem_cons_self mem_cons_self
        rw [hprev, if_neg hyq]

end Async2.Ring
