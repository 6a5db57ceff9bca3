import Async2.Collections.LinkedList
import Async2.Foundation.Ring

/-!
# Links in memory

The links of the nodes in memory as partial functions, and what `InsertBefore` and `Unlink`
make of a ring.  Only the links of cells of the ring are written.
-/

namespace Async2.Collections

open Async2.Ring Function List Option

namespace Memory

def next (m : Memory) (a : Address) : Option Address := (m.cells a).map Node.next

def prev (m : Memory) (a : Address) : Option Address := (m.cells a).map Node.prev

/-- What a cell has for the sequence. -/
def content (m : Memory) (a : Address) : Option (NodeId × Cell) :=
  (m.cells a).map fun n => (n.id, n.value)

variable {m m' m'' : Memory} {a x pos node p q : Address} {n : Node}
  {next prev : Address -> Option Address} {foot foot' : List Address}

theorem cells_write : (m.write a n).cells x = if x = a then some n else m.cells x :=
  update_apply _ _ _ _

theorem cells_delete : (m.delete a).cells x = if x = a then none else m.cells x :=
  update_apply _ _ _ _

theorem modify_of_some (ha : m.cells a = some n) (f : Node -> Node) :
    m.modify a f = some (m.write a (f n)) := by
  unfold modify
  rw [ha]
  rfl

theorem exists_of_next (h : m.next a = some q) : exists n, m.cells a = some n ∧ n.next = q :=
  map_eq_some_iff.mp h

theorem exists_of_prev (h : m.prev a = some p) : exists n, m.cells a = some n ∧ n.prev = p :=
  map_eq_some_iff.mp h

theorem isSome_content : (m.content a).isSome = (m.cells a).isSome :=
  isSome_map

/-!
## Writing links
-/

/-- The links of the memory after some writes; contents and other cells are as before. -/
structure Relinked (m m' : Memory) (foot : List Address) (next prev : Address -> Option Address) :
    Prop where
  next_eq : m'.next = next
  prev_eq : m'.prev = prev
  content_eq : m'.content = m.content
  frame : forall x, x ∉ foot -> m'.cells x = m.cells x
  top_eq : m'.top = m.top

theorem Relinked.isSome (h : Relinked m m' foot next prev) (ha : (m.cells a).isSome) :
    (m'.cells a).isSome := by
  rw [← isSome_content, h.content_eq, isSome_content]
  exact ha

theorem Relinked.trans {next' prev' : Address -> Option Address}
    (h : Relinked m m' foot next prev) (h' : Relinked m' m'' foot' next' prev') :
    Relinked m m'' (foot ++ foot') next' prev' := by
  refine ⟨h'.next_eq, h'.prev_eq, h'.content_eq.trans h.content_eq, ?_, h'.top_eq.trans h.top_eq⟩
  intro x hx
  rw [mem_append, not_or] at hx
  rw [h'.frame x hx.right, h.frame x hx.left]

theorem map_cells_write {B : Type} (g : Node -> B) :
    ((m.write a n).cells x).map g = if x = a then some (g n) else (m.cells x).map g := by
  rw [cells_write]
  split <;> rfl

theorem map_cells_same {B : Type} {g : Node -> B} {n' : Node} (ha : m.cells a = some n)
    (hg : g n' = g n) :
    (fun x => ((m.write a n').cells x).map g) = fun x => (m.cells x).map g := by
  funext x
  rw [map_cells_write]
  split
  case isTrue hx => rw [hx, ha, hg, map_some]
  · rfl

theorem frame_write (x : Address) (hx : x ∉ [a]) : (m.write a n).cells x = m.cells x := by
  rw [cells_write, if_neg (mem_singleton.not.mp hx)]

theorem modify_next (ha : (m.cells a).isSome) (q : Address) :
    exists m', m.modify a (fun n => { n with next := q }) = some m' ∧
      Relinked m m' [a] (update m.next a (some q)) m.prev := by
  rcases isSome_iff_exists.mp ha with ⟨n, hn⟩
  refine ⟨_, modify_of_some hn _, ?_, map_cells_same hn rfl, map_cells_same hn rfl,
    frame_write, rfl⟩
  funext x
  rw [update_apply]
  exact map_cells_write Node.next

theorem modify_prev (ha : (m.cells a).isSome) (p : Address) :
    exists m', m.modify a (fun n => { n with prev := p }) = some m' ∧
      Relinked m m' [a] m.next (update m.prev a (some p)) := by
  rcases isSome_iff_exists.mp ha with ⟨n, hn⟩
  refine ⟨_, modify_of_some hn _, map_cells_same hn rfl, ?_, map_cells_same hn rfl,
    frame_write, rfl⟩
  funext x
  rw [update_apply]
  exact map_cells_write Node.prev

theorem insertBefore_relinked (hpos : m.prev pos = some p) (hnode : (m.cells node).isSome)
    (hp : (m.cells p).isSome) (hne : node ≠ pos) :
    exists m', m.insertBefore pos node = some m' ∧
      Relinked m m' [node, node, p, pos]
        (update (update m.next node (some pos)) p (some node))
        (update (update m.prev node (some p)) pos (some node)) := by
  rcases exists_of_prev hpos with ⟨n, hn, rfl⟩
  rcases modify_prev hnode n.prev with ⟨m1, hm1, h1⟩
  rcases modify_next (h1.isSome hnode) pos with ⟨m2, hm2, h2⟩
  have h12 := h1.trans h2
  have hpos2 : m2.prev pos = some n.prev := by
    rw [h2.prev_eq, h1.prev_eq, update_of_ne (Ne.symm hne), hpos]
  rcases exists_of_prev hpos2 with ⟨n2, hn2, hprev2⟩
  rcases modify_next (h12.isSome hp) node with ⟨m3, hm3, h3⟩
  have h13 := h12.trans h3
  have hlive : (m.cells pos).isSome := isSome_of_eq_some hn
  rcases modify_prev (h13.isSome hlive) node with ⟨m4, hm4, h4⟩
  refine ⟨m4, ?_, ?_⟩
  · unfold insertBefore
    rw [hn, some_bind, hm1]
    simp only [some_bind, hm2, hn2, hprev2, hm3, hm4]
  · have h14 := h13.trans h4
    rw [h3.next_eq, h3.prev_eq, h2.next_eq, h2.prev_eq, h1.next_eq, h1.prev_eq] at h14
    exact h14

theorem unlink_relinked (hp : m.prev node = some p) (hq : m.next node = some q)
    (hlive : (m.cells p).isSome) (hlive' : (m.cells q).isSome) (hne : p ≠ node) :
    exists m', m.unlink node = some m' ∧
      Relinked m m' [p, q] (update m.next p (some q)) (update m.prev q (some p)) := by
  rcases exists_of_prev hp with ⟨n, hn, rfl⟩
  rcases exists_of_next hq with ⟨n', hn', rfl⟩
  cases hn.symm.trans hn'
  rcases modify_next hlive n.next with ⟨m1, hm1, h1⟩
  have hn1 : m1.cells node = some n := by
    rw [h1.frame node, hn]
    rw [mem_singleton]
    exact Ne.symm hne
  rcases modify_prev (h1.isSome hlive') n.prev with ⟨m2, hm2, h2⟩
  refine ⟨m2, ?_, ?_⟩
  · unfold unlink
    rw [hn, some_bind, hm1]
    simp only [some_bind, hn1, hm2]
  · have h12 := h1.trans h2
    rw [h1.next_eq, h1.prev_eq] at h12
    exact h12

/-!
## Rings in memory
-/

/-- Only links of the given cells have been written. -/
structure Rearranged (m m' : Memory) (foot : List Address) : Prop where
  content_eq : m'.content = m.content
  frame : forall x, x ∉ foot -> m'.cells x = m.cells x
  top_eq : m'.top = m.top

theorem Relinked.rearranged (h : Relinked m m' foot next prev)
    (hfoot : forall x, x ∈ foot -> x ∈ foot') : Rearranged m m' foot' :=
  ⟨h.content_eq, fun x hx => h.frame x fun hmem => hx (hfoot x hmem), h.top_eq⟩

theorem Rearranged.trans (h : Rearranged m m' foot) (h' : Rearranged m' m'' foot) :
    Rearranged m m'' foot :=
  ⟨h'.content_eq.trans h.content_eq, fun x hx => (h'.frame x hx).trans (h.frame x hx),
    h'.top_eq.trans h.top_eq⟩

variable {s : Address} {xs ys zs : List Address}

theorem isSome_of_ring (h : IsRing m.next m.prev s xs) (ha : a ∈ s :: xs) : (m.cells a).isSome := by
  rcases h.exists_next ha with ⟨q, _, hq⟩
  rcases exists_of_next hq with ⟨n, hn, _⟩
  exact isSome_of_eq_some hn

theorem isRing_of_cells (h : IsRing m.next m.prev s xs)
    (hcells : forall x, x ∈ s :: xs -> m'.cells x = m.cells x) : IsRing m'.next m'.prev s xs := by
  apply h.congr
  · intro x hx
    rw [next, next, hcells x hx]
  · intro x hx
    rw [prev, prev, hcells x hx]

theorem unlink_of_ring (h : IsRing m.next m.prev s (ys ++ a :: zs)) :
    exists m', m.unlink a = some m' ∧ Rearranged m m' (s :: (ys ++ a :: zs)) ∧
      IsRing m'.next m'.prev s (ys ++ zs) := by
  have ha : a ∈ s :: (ys ++ a :: zs) := by simp
  rcases h.exists_prev ha with ⟨p, hpmem, hp⟩
  rcases h.exists_next ha with ⟨q, hqmem, hq⟩
  have hne : p ≠ a := by
    have hbefore := (segment_append.mp h.segment).left.prev_mem hp
    have hdistinct : (s :: ys ++ a :: zs).Nodup := h.distinct
    exact fun heq => (nodup_append.mp hdistinct).right.right p hbefore a
      mem_cons_self heq
  rcases unlink_relinked hp hq (isSome_of_ring h hpmem) (isSome_of_ring h hqmem) hne
    with ⟨m', hunlink, hlinks⟩
  refine ⟨m', hunlink, hlinks.rearranged ?_, ?_⟩
  · intro x hx
    rw [mem_cons, mem_singleton] at hx
    rcases hx with rfl | rfl
    · exact hpmem
    · exact hqmem
  · apply h.unlink hp hq
    · intro y
      rw [hlinks.next_eq, update_apply]
    · intro y
      rw [hlinks.prev_eq, update_apply]

variable (h : IsRing m.next m.prev s xs) (hnew : node ∉ s :: xs) (hnode : (m.cells node).isSome)
include h hnew hnode

theorem insertBefore_of_ring (hpos : pos ∈ s :: xs) :
    exists p m', m.prev pos = some p ∧ m.insertBefore pos node = some m' ∧
      Rearranged m m' (node :: s :: xs) ∧
      (forall y, m'.next y = if y = p then some node else if y = node then some pos else m.next y) ∧
      (forall y, m'.prev y =
        if y = pos then some node else if y = node then some p else m.prev y) := by
  rcases h.exists_prev hpos with ⟨p, hpmem, hp⟩
  have hne : node ≠ pos := fun heq => hnew (heq ▸ hpos)
  rcases insertBefore_relinked hp hnode (isSome_of_ring h hpmem) hne with ⟨m', hinsert, hlinks⟩
  refine ⟨p, m', hp, hinsert, hlinks.rearranged ?_, ?_, ?_⟩
  · intro x hx
    simp only [mem_cons, not_mem_nil, or_false] at hx
    rcases hx with rfl | rfl | rfl | rfl
    · exact mem_cons_self
    · exact mem_cons_self
    · exact mem_cons_of_mem _ hpmem
    · exact mem_cons_of_mem _ hpos
  · intro y
    rw [hlinks.next_eq, update_apply, update_apply]
  · intro y
    rw [hlinks.prev_eq, update_apply, update_apply]

theorem insertLast_of_ring :
    exists m', m.insertBefore s node = some m' ∧ Rearranged m m' (node :: s :: xs) ∧
      IsRing m'.next m'.prev s (xs ++ [node]) := by
  rcases insertBefore_of_ring h hnew hnode mem_cons_self
    with ⟨p, m', hp, hinsert, hrest, hnext, hprev⟩
  exact ⟨m', hinsert, hrest, h.insert_last hnew hp hnext hprev⟩

theorem insertFirst_of_ring (hq : m.next s = some q) :
    exists m', m.insertBefore q node = some m' ∧ Rearranged m m' (node :: s :: xs) ∧
      IsRing m'.next m'.prev s (node :: xs) := by
  rcases h.exists_next mem_cons_self with ⟨q', hqmem, hq'⟩
  cases hq.symm.trans hq'
  rcases insertBefore_of_ring h hnew hnode hqmem with ⟨p, m', hp, hinsert, hrest, hnext, hprev⟩
  exact ⟨m', hinsert, hrest, h.insert_first hnew hq hp hnext hprev⟩

end Memory

end Async2.Collections
