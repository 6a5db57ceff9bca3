import Async2.Foundation.RefCount.Decref

/-!
# The graph of a heap

Containment is the relation between a cell in use and the references in its slots.  Where
it has no cycle, the number of cells below a cell bounds every walk from it, and a heap
that nothing refers to from outside is empty.
-/

namespace Async2

open Relation

/-- Adding edges from one vertex closes no cycle if none of their ends led to it. -/
theorem not_transGen_of_new_edges {V : Type} {r r' : V -> V -> Prop} {a : V} {S : V -> Prop}
    (hr : forall v, ¬ TransGen r v v) (hnew : forall v w, r' v w -> r v w ∨ v = a ∧ S w)
    (hS : forall w, S w -> ¬ ReflTransGen r w a) (v : V) : ¬ TransGen r' v v := by
  -- A path with new edges leads to the vertex first and goes on from the last new edge.
  have hpath : forall w, TransGen r' v w ->
      TransGen r v w ∨ ReflTransGen r v a ∧ exists u, S u ∧ ReflTransGen r u w := by
    intro w hw
    induction hw with
    | single hedge =>
      rcases hnew _ _ hedge with hold | ⟨rfl, hu⟩
      · exact .inl (.single hold)
      · exact .inr ⟨.refl, _, hu, .refl⟩
    | tail _ hedge ih =>
      rcases hnew _ _ hedge with hold | ⟨rfl, hu⟩
      · rcases ih with hpre | ⟨ha, u, hSu, hu⟩
        · exact .inl (hpre.tail hold)
        · exact .inr ⟨ha, u, hSu, hu.tail hold⟩
      · rcases ih with hpre | ⟨ha, _⟩
        · exact .inr ⟨hpre.to_reflTransGen, _, hu, .refl⟩
        · exact .inr ⟨ha, _, hu, .refl⟩
  intro hcycle
  rcases hpath v hcycle with hold | ⟨ha, u, hSu, hu⟩
  · exact hr v hold
  · exact hS u hSu (hu.trans ha)

namespace RefCount
namespace Heap

open Finset

variable {B : Type} [Body B] {h h' : Heap B} {a x y : Nat} {b b' : B} {ext : List Nat}

/-- A cell in use has a reference to another one in a slot. -/
def Edge (h : Heap B) (a x : Nat) : Prop := x ∈ h.held a

theorem edge_iff (hread : h.read a = some b) : h.Edge a x <-> x ∈ slots b := by
  unfold Edge
  rw [held_of_read hread]

def Reach (h : Heap B) : Nat -> Nat -> Prop := ReflTransGen h.Edge

def Acyclic (h : Heap B) : Prop := forall a, ¬ TransGen h.Edge a a

/-- No cycle can be reached from a cell. -/
def AcyclicFrom (h : Heap B) (a : Nat) : Prop :=
  forall x, h.Reach a x -> ¬ TransGen h.Edge x x

theorem Acyclic.acyclicFrom (h1 : Acyclic h) (a : Nat) : h.AcyclicFrom a :=
  fun x _ => h1 x

theorem AcyclicFrom.edge (h1 : h.AcyclicFrom a) (hedge : h.Edge a x) : h.AcyclicFrom x :=
  fun y hy => h1 y (.head hedge hy)

theorem Acyclic.mono (h1 : Acyclic h) (hedges : forall a x, h'.Edge a x -> h.Edge a x) :
    Acyclic h' :=
  fun a hcycle => h1 a (TransGen.mono hedges a a hcycle)

theorem Shrinks.edge (h1 : Shrinks h h') (a x : Nat) (hedge : h'.Edge a x) : h.Edge a x :=
  h1.held_subset hedge

theorem Shrinks.acyclic (h1 : Shrinks h h') (hacyclic : Acyclic h) : Acyclic h' :=
  hacyclic.mono h1.edge

theorem Exact.live_of_reach (h1 : Exact ext h) (ha : h.refcountOf a ≠ 0)
    (hreach : h.Reach a x) : h.refcountOf x ≠ 0 := by
  induction hreach with
  | refl => exact ha
  | tail _ hedge _ => exact h1.live_of_held hedge

/-- The slots of the cells in use refer to addresses that were handed out. -/
def InBounds (h : Heap B) : Prop := forall a x, x ∈ h.held a -> x < h.next

theorem Exact.inBounds (h1 : Exact ext h) : InBounds h :=
  fun _ _ hx => lt_next_of_refcountOf (h1.live_of_held hx)

theorem Shrinks.inBounds (h1 : Shrinks h h') (hin : InBounds h) : InBounds h' := by
  intro a x hx
  rw [h1.next]
  exact hin a x (h1.held_subset hx)

/-!
## Changes of the graph
-/

theorem edge_congr (hx : forall x, h'.held x = h.held x) (a x : Nat) :
    h'.Edge a x <-> h.Edge a x := by
  unfold Edge
  rw [hx a]

theorem held_setCount {n m : Nat} (hc : h.refcountOf a = n + 1) (x : Nat) :
    (h.setCount a (m + 1)).held x = h.held x := by
  by_cases hx : x = a
  · subst hx
    rcases cell_of_refcountOf hc with ⟨b, hcell⟩
    rw [held_of_cell hcell, held_of_cell (cell_setCount_self hcell)]
  · exact held_congr (cell_setCount_of_ne hx)

theorem held_incref (hinc : h.incref a = some h') (x : Nat) : h'.held x = h.held x := by
  rcases incref_eq_some.mp hinc with ⟨hne, rfl⟩
  rcases Nat.exists_eq_succ_of_ne_zero hne with ⟨n, hn⟩
  exact held_setCount hn x

/-- After references were given back, what is reached from outside when a cell is
overwritten is in use, whether or not the cell is overwritten already. -/
theorem Shrinks.live_of_reach (h1 : Shrinks h h') (hcounted : Counted ext (h'.setBody a b))
    {r : Nat} (hr : r ∈ ext) (hreach : (h.setBody a b).Reach r x) : h'.refcountOf x ≠ 0 := by
  have hpath : (h'.setBody a b).Reach r x := by
    induction hreach with
    | refl => exact .refl
    | @tail y z _ hedge ih =>
      refine ih.tail ?_
      have hlive := hcounted.exact.live_of_reach (hcounted.exact.live_of_mem hr) ih
      rw [refcountOf_setBody] at hlive
      by_cases hy : y = a
      · subst hy
        rw [edge_iff (read_setBody_self hlive)]
        exact (edge_iff (read_setBody_self (h1.live hlive))).mp hedge
      · unfold Edge at hedge ⊢
        rw [held_congr (cell_setBody_of_ne hy)] at hedge ⊢
        rcases exists_read hlive with ⟨c, hc⟩
        exact (edge_iff hc).mpr ((edge_iff (h1.read_eq hc)).mp hedge)
  rw [← refcountOf_setBody (a := a) (b := b)]
  exact hcounted.exact.live_of_reach (hcounted.exact.live_of_mem hr) hpath

/-!
## The depth of a graph without cycles
-/

open Classical in
/-- The number of cells below a cell. -/
noncomputable def rank (h : Heap B) (a : Nat) : Nat :=
  ((range h.next).filter fun x => TransGen h.Edge a x).card

theorem rank_lt (hedge : h.Edge a x) (hlive : h.refcountOf x ≠ 0)
    (hcycle : ¬ TransGen h.Edge x x) : h.rank x < h.rank a := by
  classical
  unfold rank
  apply card_lt_card
  rw [ssubset_iff_of_subset]
  · refine ⟨x, ?_, ?_⟩
    · rw [mem_filter]
      exact ⟨mem_range.mpr (lt_next_of_refcountOf hlive), .single hedge⟩
    · rw [mem_filter]
      exact fun hmem => hcycle hmem.right
  · intro y hy
    rw [mem_filter] at hy ⊢
    exact ⟨hy.left, .head hedge hy.right⟩

theorem rank_lt_next (hlive : h.refcountOf a ≠ 0) (hcycle : ¬ TransGen h.Edge a a) :
    h.rank a < h.next := by
  classical
  unfold rank
  refine Nat.lt_of_lt_of_eq (card_lt_card ?_) (card_range h.next)
  rw [ssubset_iff_of_subset (filter_subset _ _)]
  refine ⟨a, mem_range.mpr (lt_next_of_refcountOf hlive), ?_⟩
  rw [mem_filter]
  exact fun hmem => hcycle hmem.right

/-- Without cycles every cell in use is below a reference from outside: the holders of any
other cell would be ever higher. -/
theorem Exact.reached_of_live (h1 : Exact ext h) (hacyclic : Acyclic h)
    (hlive : h.refcountOf x ≠ 0) : exists r, r ∈ ext ∧ h.Reach r x := by
  have hbounded : forall n x, h.next <= h.rank x + n -> h.refcountOf x ≠ 0 ->
      exists r, r ∈ ext ∧ h.Reach r x := by
    intro n
    induction n with
    | zero =>
      intro x hx hused
      exact absurd (rank_lt_next hused (hacyclic x)) (Nat.not_lt.mpr hx)
    | succ n ih =>
      intro x hx hused
      by_cases hmem : x ∈ ext
      · exact ⟨x, hmem, .refl⟩
      · have heq := h1 x
        rw [List.count_eq_zero.mpr hmem] at heq
        have hin : 0 < h.incoming x := by omega
        rcases exists_holder hin with ⟨a, ha⟩
        have hlt := rank_lt ha hused (hacyclic x)
        rcases ih a (by omega) (live_of_mem_held ha) with ⟨r, hr, hreach⟩
        exact ⟨r, hr, hreach.tail ha⟩
  exact hbounded h.next x (Nat.le_add_left _ _) hlive

/-- Without references from outside and without cycles nothing is in use. -/
theorem Exact.all_unused (h1 : Exact [] h) (hacyclic : Acyclic h) (x : Nat) :
    h.refcountOf x = 0 := by
  by_contra hlive
  rcases h1.reached_of_live hacyclic hlive with ⟨r, hr, _⟩
  cases hr

theorem Counted.all_freed (h1 : Counted [] h) (hacyclic : Acyclic h) (x : Nat) :
    h.cell x = none := by
  rw [h1.freed_iff, ← h1.exact x]
  exact h1.exact.all_unused hacyclic x

end Heap
end RefCount
end Async2
