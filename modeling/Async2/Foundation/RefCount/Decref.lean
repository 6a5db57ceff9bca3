import Async2.Foundation.RefCount.Heap

/-!
# Releasing references

What giving references back does to a heap: it takes exactly these references, it frees
cells and changes nothing else, and it succeeds where the counts are exact.  A slot may
still hold a reference while it is given back, as long as its cell stays in use: the
result is the same as if the slot was overwritten before.
-/

namespace Async2.RefCount.Heap

open Finset

/-!
## What stays of the cells
-/

section Shrinking

variable {B : Type} {h h' h'' : Heap B} {a x : Nat} {b : B}

/-- What giving references back leaves of a cell. -/
inductive CellShrinks : Option (Cell B) -> Option (Cell B) -> Prop
  | same (c : Option (Cell B)) : CellShrinks c c
  | less {n m : Nat} (b : B) (hle : n <= m) : CellShrinks (some ⟨m + 1, b⟩) (some ⟨n + 1, b⟩)
  | gone (n : Nat) (b : B) : CellShrinks (some ⟨n + 1, b⟩) none

theorem CellShrinks.trans {c d e : Option (Cell B)} (h1 : CellShrinks c d)
    (h2 : CellShrinks d e) : CellShrinks c e := by
  cases h1 with
  | same => exact h2
  | less b hle =>
    cases h2 with
    | same => exact .less b hle
    | less _ hle' => exact .less b (hle'.trans hle)
    | gone => exact .gone _ b
  | gone n b =>
    cases h2
    exact .gone n b

/-- No cell is allocated, written to or left without references. -/
structure Shrinks (h h' : Heap B) : Prop where
  next : h'.next = h.next
  cells : forall x, CellShrinks (h.cell x) (h'.cell x)

theorem Shrinks.refl (h : Heap B) : Shrinks h h := ⟨rfl, fun _ => .same _⟩

section

variable (h1 : Shrinks h h')
include h1

theorem Shrinks.trans (h2 : Shrinks h' h'') : Shrinks h h'' :=
  ⟨h2.next.trans h1.next, fun x => (h1.cells x).trans (h2.cells x)⟩

theorem Shrinks.refcountOf_le (x : Nat) : h'.refcountOf x <= h.refcountOf x := by
  have hx := h1.cells x
  unfold refcountOf
  generalize h.cell x = c at hx
  generalize h'.cell x = d at hx
  cases hx with
  | same => exact Nat.le_refl _
  | less b hle => exact Nat.succ_le_succ hle
  | gone => exact Nat.zero_le _

theorem Shrinks.live (hx : h'.refcountOf x ≠ 0) : h.refcountOf x ≠ 0 := by
  have hle := h1.refcountOf_le x
  omega

theorem Shrinks.cell_of_zero (hx : h.refcountOf x = 0) : h'.cell x = h.cell x := by
  have hcell := h1.cells x
  unfold refcountOf at hx
  generalize h.cell x = c at hcell hx
  generalize h'.cell x = d at hcell
  cases hcell with
  | same => rfl
  | less | gone => cases hx

theorem Shrinks.read_eq (hread : h'.read x = some b) : h.read x = some b := by
  rcases read_eq_some.mp hread with ⟨n, hc⟩
  have hcell := h1.cells x
  rw [hc] at hcell
  generalize hd : h.cell x = d at hcell
  cases hcell with
  | same => exact read_eq_some.mpr ⟨n, hd⟩
  | less b hle => exact read_eq_some.mpr ⟨_, hd⟩

theorem Shrinks.read_of_live (hread : h.read x = some b) (hlive : h'.refcountOf x ≠ 0) :
    h'.read x = some b := by
  rcases exists_read hlive with ⟨b', hb'⟩
  have heq := h1.read_eq hb'
  rw [hread] at heq
  cases heq
  exact hb'

end

/-- The number of cells in use. -/
def alive (h : Heap B) : Nat := ((range h.next).filter fun a => h.refcountOf a ≠ 0).card

theorem alive_le_next (h : Heap B) : h.alive <= h.next := by
  have hle := card_filter_le (range h.next) fun a => h.refcountOf a ≠ 0
  rw [card_range] at hle
  exact hle

theorem Shrinks.alive_le (h1 : Shrinks h h') : h'.alive <= h.alive := by
  unfold alive
  rw [h1.next]
  apply card_le_card
  intro x hx
  rw [mem_filter] at hx ⊢
  exact ⟨hx.left, h1.live hx.right⟩

theorem alive_setCount_zero (hc : h.cell a = some ⟨1, b⟩) : (h.setCount a 0).alive < h.alive := by
  have hrc : h.refcountOf a ≠ 0 := by
    rw [refcountOf_of_cell hc]
    exact Nat.one_ne_zero
  apply card_lt_card
  rw [ssubset_iff_of_subset]
  · refine ⟨a, ?_, ?_⟩
    · rw [mem_filter]
      exact ⟨mem_range.mpr (lt_next_of_refcountOf hrc), hrc⟩
    · rw [mem_filter]
      intro hmem
      exact hmem.right (refcountOf_of_cell (cell_setCount_self hc))
  · intro x hx
    rw [mem_filter] at hx ⊢
    have hne : x ≠ a := by
      rintro rfl
      exact hx.right (refcountOf_of_cell (cell_setCount_self hc))
    rw [refcountOf_congr (cell_setCount_of_ne hne)] at hx
    exact hx

/-- No cell is half destroyed. -/
def Settled (h : Heap B) : Prop := forall x c, h.cell x = some c -> c.refcount ≠ 0

theorem Shrinks.settled (h1 : Shrinks h h') (hsettled : Settled h) : Settled h' := by
  intro x c hc
  have hcell := h1.cells x
  rw [hc] at hcell
  generalize hd : h.cell x = d at hcell
  cases hcell with
  | same => exact hsettled x c hd
  | less => exact Nat.succ_ne_zero _

theorem Settled.setBody (hsettled : Settled h) : Settled (h.setBody a b) := by
  intro x c hc
  have hrc : (h.setBody a b).refcountOf x = c.refcount := refcountOf_of_cell hc
  rw [refcountOf_setBody] at hrc
  rw [← hrc]
  cases hold : h.cell x with
  | none =>
    unfold Heap.setBody at hc
    by_cases hx : x = a
    · subst hx
      rw [cell_update_self, hold] at hc
      cases hc
    · rw [cell_update_of_ne hx, hold] at hc
      cases hc
  | some d =>
    rw [refcountOf_of_cell hold]
    exact hsettled x d hold

end Shrinking

section Decref

variable {B : Type} [Body B] {h h' h'' : Heap B} {a x : Nat} {b : B} {fuel : Nat}
variable {as ext : List Nat} {P : Nat -> Prop}

theorem decref_eq_some (hdec : h.decref (fuel + 1) a = some h') :
    (exists n b, h.cell a = some ⟨n + 2, b⟩ ∧ h' = h.setCount a (n + 1)) ∨
      exists b h1, h.cell a = some ⟨1, b⟩ ∧
        (h.setCount a 0).decrefAll fuel (slots b) = some h1 ∧ h' = h1.free a := by
  rw [decref] at hdec
  split at hdec
  case h_1 n b hc =>
    cases hdec
    exact .inl ⟨n, b, hc, rfl⟩
  case h_2 b hc =>
    rcases Option.map_eq_some_iff.mp hdec with ⟨h1, hfold, rfl⟩
    exact .inr ⟨b, h1, hc, hfold, rfl⟩
  case h_3 => cases hdec

theorem decref_shared {n : Nat} (hc : h.cell a = some ⟨n + 2, b⟩) :
    h.decref (fuel + 1) a = some (h.setCount a (n + 1)) := by
  rw [decref, hc]

theorem decref_last (hc : h.cell a = some ⟨1, b⟩)
    (hfold : (h.setCount a 0).decrefAll fuel (slots b) = some h') :
    h.decref (fuel + 1) a = some (h'.free a) := by
  unfold decrefAll at hfold
  rw [decref, hc]
  change Option.map _ _ = _
  rw [hfold]
  rfl

theorem decrefAll_cons :
    h.decrefAll fuel (a :: as) = (h.decref fuel a).bind fun h' => h'.decrefAll fuel as := by
  unfold decrefAll
  rw [List.foldlM_cons]
  rfl

theorem decrefAll_cons_eq_some :
    h.decrefAll fuel (a :: as) = some h' <->
      exists h1, h.decref fuel a = some h1 ∧ h1.decrefAll fuel as = some h' := by
  rw [decrefAll_cons]
  exact Option.bind_eq_some_iff

theorem Shrinks.held_subset (h1 : Shrinks h h') (hx : x ∈ h'.held a) : x ∈ h.held a := by
  rcases exists_read (live_of_mem_held hx) with ⟨b, hb⟩
  rw [held_of_read hb] at hx
  rw [held_of_read (h1.read_eq hb)]
  exact hx

theorem shrinks_decrefAll_of
    (hdec : forall (g g' : Heap B) a, g.decref fuel a = some g' -> Shrinks g g')
    (hall : h.decrefAll fuel as = some h') : Shrinks h h' := by
  induction as generalizing h with
  | nil =>
    cases hall
    exact Shrinks.refl _
  | cons a as ih =>
    rcases decrefAll_cons_eq_some.mp hall with ⟨h1, hfirst, hrest⟩
    exact (hdec _ h1 a hfirst).trans (ih hrest)

theorem shrinks_decref (hdec : h.decref fuel a = some h') : Shrinks h h' := by
  induction fuel generalizing h h' a with
  | zero => cases hdec
  | succ fuel ih =>
    rcases decref_eq_some hdec with ⟨n, b, hc, rfl⟩ | ⟨b, h1, hc, hfold, rfl⟩
    · refine ⟨rfl, fun x => ?_⟩
      by_cases hx : x = a
      · subst hx
        rw [hc, cell_setCount_self hc]
        exact .less b (Nat.le_succ n)
      · rw [setCount, cell_update_of_ne hx]
        exact .same _
    · have hshrinks := shrinks_decrefAll_of (fun _ _ _ => ih) hfold
      refine ⟨hshrinks.next, fun x => ?_⟩
      by_cases hx : x = a
      · subst hx
        rw [hc, cell_free_self]
        exact .gone 0 b
      · have hcell := hshrinks.cells x
        rw [setCount, cell_update_of_ne hx] at hcell
        rw [free, cell_update_of_ne hx]
        exact hcell

theorem shrinks_decrefAll (hall : h.decrefAll fuel as = some h') : Shrinks h h' :=
  shrinks_decrefAll_of (fun _ _ _ => shrinks_decref) hall

/-- Starting to destroy a cell makes its caller the owner of its slots. -/
theorem trades_setCount_zero (hc : h.cell a = some ⟨1, b⟩) :
    Trades h (h.setCount a 0) (slots b) [a] := by
  intro x
  have hself := cell_setCount_self (n := 0) hc
  have hin : (h.setCount a 0).incoming x + (h.held a).count x =
      h.incoming x + ((h.setCount a 0).held a).count x := incoming_update x
  rw [held_of_cell hc, held_of_refcountOf (refcountOf_of_cell hself), List.count_nil] at hin
  by_cases hx : x = a
  · subst hx
    rw [refcountOf_of_cell hself, refcountOf_of_cell hc, List.count_singleton_self]
    dsimp only
    omega
  · rw [refcountOf_congr (cell_setCount_of_ne hx)]
    simp [Ne.symm hx]
    omega

theorem trades_free (ha : h.refcountOf a = 0) : Trades h (h.free a) [] [] := by
  intro x
  have hzero : (h.free a).refcountOf a = 0 := by
    unfold refcountOf
    rw [cell_free_self]
  have hin : (h.free a).incoming x + (h.held a).count x =
      h.incoming x + ((h.free a).held a).count x := incoming_update x
  rw [held_of_refcountOf ha, held_of_refcountOf hzero] at hin
  have hrc : (h.free a).refcountOf x = h.refcountOf x := by
    by_cases hx : x = a
    · subst hx
      rw [hzero, ha]
    · exact refcountOf_congr (cell_update_of_ne hx)
  rw [hrc]
  omega

theorem trades_decrefAll_of
    (hdec : forall (g g' : Heap B) a, g.decref fuel a = some g' -> Trades g g' [] [a])
    (hall : h.decrefAll fuel as = some h') : Trades h h' [] as := by
  induction as generalizing h with
  | nil =>
    cases hall
    exact Trades.refl _
  | cons a as ih =>
    rcases decrefAll_cons_eq_some.mp hall with ⟨h1, hfirst, hrest⟩
    exact (hdec _ h1 a hfirst).trans (ih hrest)

/-- Releasing takes one reference back, whatever else is freed by it. -/
theorem trades_decref (hdec : h.decref fuel a = some h') : Trades h h' [] [a] := by
  induction fuel generalizing h h' a with
  | zero => cases hdec
  | succ fuel ih =>
    rcases decref_eq_some hdec with ⟨n, b, hc, rfl⟩ | ⟨b, h1, hc, hfold, rfl⟩
    · have hrc : h.refcountOf a = n + 1 + 1 := refcountOf_of_cell hc
      apply trades_setCount hrc
      intro x
      split
      case isTrue heq =>
        subst heq
        rw [List.count_singleton_self, hrc]
        rfl
      case isFalse hx => simp [Ne.symm hx]
    · have hstart := trades_setCount_zero hc
      have hslots := trades_decrefAll_of (fun _ _ _ => ih) hfold
      have hself : (h.setCount a 0).refcountOf a = 0 :=
        refcountOf_of_cell (cell_setCount_self hc)
      have hdying : h1.refcountOf a = 0 := by
        rw [refcountOf_congr ((shrinks_decrefAll hfold).cell_of_zero hself)]
        exact hself
      refine ((hstart.trans hslots).trans (trades_free hdying)).congr ?_
      intro x
      simp only [List.count_append, List.count_nil]
      omega

theorem trades_decrefAll (hall : h.decrefAll fuel as = some h') : Trades h h' [] as :=
  trades_decrefAll_of (fun _ _ _ => trades_decref) hall

theorem decrefAll_frame_of
    (hdec : forall (g g' : Heap B) a, (forall c, P c -> forall y, y ∈ g.held c -> P y) -> P a ->
      g.decref fuel a = some g' -> g'.cell x = g.cell x)
    (hclosed : forall c, P c -> forall y, y ∈ h.held c -> P y) (has : forall a, a ∈ as -> P a)
    (hall : h.decrefAll fuel as = some h') : h'.cell x = h.cell x := by
  induction as generalizing h with
  | nil =>
    cases hall
    rfl
  | cons a as ih =>
    rcases decrefAll_cons_eq_some.mp hall with ⟨h1, hfirst, hrest⟩
    rw [← hdec _ _ a hclosed (has a List.mem_cons_self) hfirst]
    refine ih ?_ (fun c hc => has c (List.mem_cons_of_mem a hc)) hrest
    intro c hPc y hy
    exact hclosed c hPc y ((shrinks_decref hfirst).held_subset hy)

section

variable (hclosed : forall c, P c -> forall y, y ∈ h.held c -> P y)
include hclosed

theorem decref_frame (ha : P a) (hdec : h.decref fuel a = some h') (hx : ¬ P x) :
    h'.cell x = h.cell x := by
  induction fuel generalizing h h' a with
  | zero => cases hdec
  | succ fuel ih =>
    have hne : x ≠ a := by
      rintro rfl
      exact hx ha
    rcases decref_eq_some hdec with ⟨n, b, hc, rfl⟩ | ⟨b, h1, hc, hfold, rfl⟩
    · exact cell_setCount_of_ne hne
    · rw [cell_free_of_ne hne]
      have hslots : forall y, y ∈ slots b -> P y := by
        intro y hy
        rw [← held_of_cell hc] at hy
        exact hclosed a ha y hy
      have hclosed0 : forall c, P c -> forall y, y ∈ (h.setCount a 0).held c -> P y := by
        intro c hPc y hy
        by_cases hca : c = a
        · subst hca
          rw [held_of_refcountOf (refcountOf_of_cell (cell_setCount_self hc))] at hy
          cases hy
        · rw [held_congr (cell_setCount_of_ne hca)] at hy
          exact hclosed c hPc y hy
      rw [decrefAll_frame_of (fun _ _ _ => ih) hclosed0 hslots hfold]
      exact cell_setCount_of_ne hne

theorem decrefAll_frame (has : forall a, a ∈ as -> P a) (hall : h.decrefAll fuel as = some h')
    (hx : ¬ P x) : h'.cell x = h.cell x :=
  decrefAll_frame_of (fun _ _ _ hc ha hdec => decref_frame hc ha hdec hx) hclosed has hall

end

/-!
## Releasing succeeds where the counts are exact
-/

theorem Exact.decref_trades (h1 : Exact (a :: ext) h) (hdec : h.decref fuel a = some h') :
    Exact ext h' := by
  apply h1.trades (trades_decref hdec)
  intro x
  simp only [List.count_cons, List.count_nil]
  omega

theorem Exact.decrefAll_of
    (hdec : forall (g : Heap B) a ext, Exact (a :: ext) g -> g.alive <= fuel ->
      exists g', g.decref fuel a = some g')
    (h1 : Exact (as ++ ext) h) (hfuel : h.alive <= fuel) :
    exists h', h.decrefAll fuel as = some h' := by
  induction as generalizing h with
  | nil => exact ⟨h, rfl⟩
  | cons a as ih =>
    rcases hdec _ a (as ++ ext) h1 hfuel with ⟨h2, hfirst⟩
    have hle := (shrinks_decref hfirst).alive_le
    rcases ih (h1.decref_trades hfirst) (hle.trans hfuel) with ⟨h3, hrest⟩
    exact ⟨h3, decrefAll_cons_eq_some.mpr ⟨h2, hfirst, hrest⟩⟩

theorem Exact.decref (h1 : Exact (a :: ext) h) (hfuel : h.alive <= fuel) :
    exists h', h.decref fuel a = some h' := by
  induction fuel generalizing h a ext with
  | zero =>
    have hlive := h1.live_of_mem List.mem_cons_self
    have hmem : a ∈ (range h.next).filter fun a => h.refcountOf a ≠ 0 :=
      mem_filter.mpr ⟨mem_range.mpr (lt_next_of_refcountOf hlive), hlive⟩
    exact absurd (card_pos.mpr ⟨a, hmem⟩) (Nat.not_lt.mpr hfuel)
  | succ fuel ih =>
    rcases Nat.exists_eq_succ_of_ne_zero (h1.live_of_mem List.mem_cons_self) with ⟨n, hn⟩
    rcases cell_of_refcountOf hn with ⟨b, hc⟩
    cases n with
    | zero =>
      have hlt := alive_setCount_zero hc
      have hslots : Exact (slots b ++ ext) (h.setCount a 0) := by
        apply h1.trades (trades_setCount_zero hc)
        intro x
        simp only [List.count_append, List.count_cons, List.count_nil]
        omega
      rcases Exact.decrefAll_of (fun _ _ _ => ih) hslots (by omega) with ⟨h2, hfold⟩
      exact ⟨_, decref_last hc hfold⟩
    | succ n => exact ⟨_, decref_shared hc⟩

theorem Exact.decrefAll (h1 : Exact (as ++ ext) h) (hfuel : h.alive <= fuel) :
    exists h', h.decrefAll fuel as = some h' :=
  Exact.decrefAll_of (fun _ _ _ => Exact.decref) h1 hfuel

end Decref

/-!
## Releasing what a slot still holds
-/

section Overwriting

variable {B : Type}

theorem update_comm {h : Heap B} {a c : Nat} (hne : a ≠ c) (f g : Cell B -> Option (Cell B)) :
    (h.update a f).update c g = (h.update c g).update a f := by
  apply Heap.ext
  · rfl
  · funext x
    by_cases hxa : x = a
    · subst hxa
      rw [cell_update_of_ne hne, cell_update_self, cell_update_self, cell_update_of_ne hne]
    · rw [cell_update_of_ne hxa]
      by_cases hxc : x = c
      · subst hxc
        rw [cell_update_self, cell_update_self, cell_update_of_ne hxa]
      · rw [cell_update_of_ne hxc, cell_update_of_ne hxc, cell_update_of_ne hxa]

theorem setCount_setBody (h : Heap B) (a x : Nat) (b : B) (n : Nat) :
    (h.setBody a b).setCount x n = (h.setCount x n).setBody a b := by
  by_cases hx : a = x
  · subst hx
    apply Heap.ext
    · rfl
    · funext y
      unfold setBody setCount
      by_cases hy : y = a
      · subst hy
        rw [cell_update_self, cell_update_self, cell_update_self, cell_update_self]
        cases h.cell y <;> rfl
      · rw [cell_update_of_ne hy, cell_update_of_ne hy, cell_update_of_ne hy,
          cell_update_of_ne hy]
  · exact update_comm hx _ _

variable [Body B] {h g : Heap B} {a x : Nat} {b : B} {fuel : Nat} {as : List Nat}

theorem decrefAll_of_setBody_of
    (hdec : forall (h g : Heap B) x, (h.setBody a b).decref fuel x = some g ->
      g.refcountOf a ≠ 0 -> exists h', h.decref fuel x = some h' ∧ g = h'.setBody a b)
    (hall : (h.setBody a b).decrefAll fuel as = some g) (hlive : g.refcountOf a ≠ 0) :
    exists h', h.decrefAll fuel as = some h' ∧ g = h'.setBody a b := by
  induction as generalizing h with
  | nil =>
    cases hall
    exact ⟨_, rfl, rfl⟩
  | cons x as ih =>
    rcases decrefAll_cons_eq_some.mp hall with ⟨g1, hfirst, hrest⟩
    rcases hdec _ g1 x hfirst ((shrinks_decrefAll hrest).live hlive) with ⟨h1, hfirst', rfl⟩
    rcases ih hrest with ⟨h2, hrest', hg⟩
    exact ⟨h2, decrefAll_cons_eq_some.mpr ⟨h1, hfirst', hrest'⟩, hg⟩

/-- The contents of a cell that stays in use do not matter for what is released. -/
theorem decref_of_setBody (hdec : (h.setBody a b).decref fuel x = some g)
    (hlive : g.refcountOf a ≠ 0) : exists h', h.decref fuel x = some h' ∧ g = h'.setBody a b := by
  induction fuel generalizing h g x with
  | zero => cases hdec
  | succ fuel ih =>
    by_cases hx : x = a
    · -- The cell itself is not the one that is destroyed, since it is in use afterwards.
      subst hx
      rcases decref_eq_some hdec with ⟨n, b', hc, rfl⟩ | ⟨b', g1, hc, hfold, rfl⟩
      · have hrc : h.refcountOf x = n + 2 := by
          rw [← refcountOf_setBody, refcountOf_of_cell hc]
        rcases cell_of_refcountOf hrc with ⟨b0, hc0⟩
        exact ⟨_, decref_shared hc0, setCount_setBody h x x b (n + 1)⟩
      · unfold refcountOf at hlive
        rw [cell_free_self] at hlive
        exact absurd rfl hlive
    · rcases decref_eq_some hdec with ⟨n, b', hc, rfl⟩ | ⟨b', g1, hc, hfold, rfl⟩
      · rw [cell_setBody_of_ne hx] at hc
        exact ⟨_, decref_shared hc, setCount_setBody h a x b (n + 1)⟩
      · rw [cell_setBody_of_ne hx] at hc
        rw [setCount_setBody] at hfold
        rw [refcountOf_congr (cell_free_of_ne (Ne.symm hx))] at hlive
        rcases decrefAll_of_setBody_of (fun _ _ _ => ih) hfold hlive with ⟨h1, hfold', rfl⟩
        exact ⟨_, decref_last hc hfold', update_comm (Ne.symm hx) _ _⟩

theorem decrefAll_of_setBody (hall : (h.setBody a b).decrefAll fuel as = some g)
    (hlive : g.refcountOf a ≠ 0) : exists h', h.decrefAll fuel as = some h' ∧ g = h'.setBody a b :=
  decrefAll_of_setBody_of (fun _ _ _ => decref_of_setBody) hall hlive

end Overwriting

/-!
## Counted heaps

The counts are exact and no cell is half destroyed: what is without references is freed.
-/

section Counted

variable {B : Type} [Body B] {h h' : Heap B} {a x : Nat} {b b' : B}
variable {ext ext' as : List Nat}

structure Counted (ext : List Nat) (h : Heap B) : Prop where
  exact : Exact ext h
  settled : Settled h

theorem Counted.empty : Counted [] (Heap.empty : Heap B) :=
  ⟨Exact.empty, fun _ _ hc => nomatch hc⟩

theorem Counted.perm (h1 : Counted ext h) (hperm : ext.Perm ext') : Counted ext' h :=
  ⟨h1.exact.perm hperm, h1.settled⟩

/-- A cell is freed exactly if nothing refers to it. -/
theorem Counted.freed_iff (h1 : Counted ext h) (x : Nat) :
    h.cell x = none <-> ext.count x + h.incoming x = 0 := by
  rw [← h1.exact x]
  cases hc : h.cell x with
  | none =>
    unfold refcountOf
    rw [hc]
    exact ⟨fun _ => rfl, fun _ => rfl⟩
  | some c =>
    rw [refcountOf_of_cell hc]
    have hne := h1.settled x c hc
    constructor
    · intro hnone
      cases hnone
    · intro hzero
      exact absurd hzero hne

theorem Counted.live (h1 : Counted ext h) (ha : a ∈ ext) : exists b, h.read a = some b :=
  exists_read (h1.exact.live_of_mem ha)

theorem Counted.alloc (h1 : Counted (slots b ++ ext) h) : Counted (h.next :: ext) (h.alloc b) := by
  constructor
  · apply h1.exact.trades (trades_alloc h b)
    intro x
    simp only [List.count_append, List.count_cons, List.count_nil]
    omega
  · intro x c hc
    by_cases hx : x = h.next
    · subst hx
      rw [cell_alloc_self] at hc
      cases hc
      exact Nat.one_ne_zero
    · rw [cell_alloc_of_ne hx] at hc
      exact h1.settled x c hc

theorem Counted.setBody (h1 : Counted ext h) (hread : h.read a = some b)
    (hcount : forall x, ext'.count x + (slots b').count x = ext.count x + (slots b).count x) :
    Counted ext' (h.setBody a b') :=
  ⟨h1.exact.trades (trades_setBody hread) hcount, h1.settled.setBody⟩

theorem Counted.incref (h1 : Counted ext h) (ha : h.refcountOf a ≠ 0) :
    exists h', h.incref a = some h' ∧ Counted (a :: ext) h' := by
  have hinc := incref_eq_some.mpr ⟨ha, rfl⟩
  refine ⟨_, hinc, ?_, ?_⟩
  · apply h1.exact.trades (trades_incref hinc)
    intro x
    simp only [List.count_cons, List.count_nil]
    omega
  · intro x c hc
    by_cases hx : x = a
    · subst hx
      rcases Nat.exists_eq_succ_of_ne_zero ha with ⟨n, hn⟩
      rcases cell_of_refcountOf hn with ⟨b, hcell⟩
      rw [cell_setCount_self hcell] at hc
      cases hc
      exact Nat.succ_ne_zero _
    · rw [cell_setCount_of_ne hx] at hc
      exact h1.settled x c hc

theorem Counted.releaseAll (h1 : Counted (as ++ ext) h) :
    exists h', h.releaseAll as = some h' ∧ Counted ext h' ∧ Shrinks h h' := by
  rcases h1.exact.decrefAll h.alive_le_next with ⟨h', hall⟩
  have hshrinks := shrinks_decrefAll hall
  refine ⟨h', hall, ⟨?_, hshrinks.settled h1.settled⟩, hshrinks⟩
  apply h1.exact.trades (trades_decrefAll hall)
  intro x
  simp only [List.count_append, List.count_nil]
  omega

theorem Counted.release (h1 : Counted (a :: ext) h) :
    exists h', h.release a = some h' ∧ Counted ext h' ∧ Shrinks h h' := by
  rcases h1.exact.decref h.alive_le_next with ⟨h', hdec⟩
  have hshrinks := shrinks_decref hdec
  exact ⟨h', hdec, ⟨h1.exact.decref_trades hdec, hshrinks.settled h1.settled⟩, hshrinks⟩

/-- The references that leave the slots of a cell may be given back before the cell is
written, if the cell is referred to from outside. -/
theorem Counted.overwrite (h1 : Counted ext h) (hread : h.read a = some b)
    (hcount : forall x, (as ++ ext').count x + (slots b').count x = ext.count x + (slots b).count x)
    (ha : a ∈ ext') :
    exists h', h.releaseAll as = some h' ∧ Shrinks h h' ∧ h'.read a = some b ∧
      Counted ext' (h'.setBody a b') := by
  have hwritten : Counted (as ++ ext') (h.setBody a b') := h1.setBody hread hcount
  rcases hwritten.releaseAll with ⟨g, hall, hg, _⟩
  have hlive := hg.exact.live_of_mem ha
  rcases decrefAll_of_setBody hall hlive with ⟨h', hall', rfl⟩
  have hshrinks := shrinks_decrefAll hall'
  rw [refcountOf_setBody] at hlive
  exact ⟨h', hall', hshrinks, hshrinks.read_of_live hread hlive, hg⟩

end Counted

end Async2.RefCount.Heap
