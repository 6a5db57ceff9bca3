import Async2.Collections.Links
import Async2.Collections.Sequence

/-!
# Linked lists as sequences

A list represents a sequence if its ring has the elements of the sequence in order and its
table has their ids.  Every operation that is given a list which represents a sequence gives
a result, and its list represents the sequence that the operation makes of it.  No other
cells than those of the list are changed.
-/

namespace Async2.Collections

open Function List Option
open AssocList (keys)
open Async2.Ring

/-- The elements of a sequence with the addresses of their nodes. -/
abbrev Placed := List (Address × NodeId × Cell)

namespace Placed

def addresses (items : Placed) : List Address := items.map Prod.fst

def elements (items : Placed) : Elements := items.map Prod.snd

def ids (items : Placed) : List NodeId := keys items.elements

end Placed

open Placed (addresses elements ids)

/-- The nodes and the table of a list have the elements, in any order. -/
structure Holds (m : Memory) (l : LinkedList) (items : Placed) : Prop where
  contents : forall it, it ∈ items -> m.content it.1 = some it.2
  index : forall id a, l.nodes.find id = some a <-> exists v, (a, id, v) ∈ items
  size : l.nodes.entries.length = items.length
  fits : l.ids.Fits (ids items)
  below : forall a, a ∈ l.sentinel :: addresses items -> a < m.top

/-- The ring has the elements in order. -/
structure Represents (m : Memory) (l : LinkedList) (items : Placed) : Prop where
  ring : IsRing m.next m.prev l.sentinel (addresses items)
  holds : Holds m l items

/-- A list becomes another one, and other cells stay as they are. -/
structure Performs (m : Memory) (l : LinkedList) (items : Placed) (m' : Memory)
    (l' : LinkedList) (items' : Placed) : Prop where
  represents : Represents m' l' items'
  sentinel_eq : l'.sentinel = l.sentinel
  frame : forall x, x < m.top -> x ∉ l.sentinel :: addresses items -> m'.cells x = m.cells x
  top_le : m.top <= m'.top
  inside : forall a, a ∈ addresses items' -> a ∈ addresses items ∨ m.top <= a

variable {m m' : Memory} {l : LinkedList} {items items' ys zs : Placed} {a : Address}
variable {id : NodeId} {v value : Cell} {n : Node}

theorem Holds.of_perm (h : Holds m l items) (hcontent : m'.content = m.content)
    (htop : m'.top = m.top) (hperm : items'.Perm items) : Holds m' l items' := by
  constructor
  · rw [hcontent]
    exact fun it hit => h.contents it (hperm.mem_iff.mp hit)
  · intro id a
    rw [h.index]
    exact exists_congr fun v => hperm.mem_iff.symm
  · rw [h.size, hperm.length_eq]
  · apply h.fits.of_perm rfl
    exact ((hperm.map Prod.snd).map Prod.fst).append_right _
  · rw [htop]
    exact fun a ha => h.below a (((hperm.map Prod.fst).cons _).mem_iff.mp ha)

section

variable (h : Represents m l items)
include h

theorem Represents.reorder (hm : Memory.Rearranged m m' (l.sentinel :: addresses items))
    (hring : IsRing m'.next m'.prev l.sentinel (addresses items')) (hperm : items'.Perm items) :
    Performs m l items m' l items' := by
  refine ⟨⟨hring, h.holds.of_perm hm.content_eq hm.top_eq hperm⟩, rfl, ?_, ?_, ?_⟩
  · exact fun x _ hx => hm.frame x hx
  · exact Nat.le_of_eq hm.top_eq.symm
  · exact fun a ha => .inl ((hperm.map Prod.fst).mem_iff.mp ha)

theorem Represents.refl : Performs m l items m l items :=
  ⟨h, rfl, fun _ _ _ => rfl, Nat.le_refl _, fun _ ha => .inl ha⟩

theorem Represents.split (hfind : l.nodes.find id = some a) :
    exists ys v zs, items = ys ++ (a, id, v) :: zs := by
  rcases (h.holds.index id a).mp hfind with ⟨v, hmem⟩
  rcases append_of_mem hmem with ⟨ys, zs, hsplit⟩
  exact ⟨ys, v, zs, hsplit⟩

end

theorem Represents.cell (h : Represents m l items) (hit : (a, id, v) ∈ items) :
    exists n, m.cells a = some n ∧ n.id = id ∧ n.value = v := by
  rcases map_eq_some_iff.mp (h.holds.contents _ hit) with ⟨n, hn, hnv⟩
  exact ⟨n, hn, Prod.mk.inj hnv⟩

theorem ids_append (ys zs : Placed) : ids (ys ++ zs) = ids ys ++ ids zs := by
  unfold ids elements
  rw [map_append, AssocList.keys_append]

theorem addresses_append (ys zs : Placed) : addresses (ys ++ zs) = addresses ys ++ addresses zs :=
  map_append

theorem elements_append (ys zs : Placed) : elements (ys ++ zs) = elements ys ++ elements zs :=
  map_append

theorem Holds.distinct (h : Holds m l items) : (ids items).Nodup :=
  (nodup_append.mp h.fits.distinct).left

theorem Represents.not_mem_ids (h : Represents m l (ys ++ (a, id, v) :: zs)) :
    id ∉ ids ys ∧ id ∉ ids zs := by
  have hdistinct := h.holds.distinct
  rw [ids_append] at hdistinct
  change (ids ys ++ id :: ids zs).Nodup at hdistinct
  rw [nodup_append, nodup_cons] at hdistinct
  exact ⟨fun hmem => hdistinct.right.right id hmem id mem_cons_self rfl, hdistinct.right.left.left⟩

theorem Represents.find_eq_none (h : Represents m l items) (hfind : l.nodes.find id = none) :
    id ∉ ids items := by
  intro hmem
  rcases mem_map.mp hmem with ⟨e, he, rfl⟩
  rcases mem_map.mp he with ⟨⟨a, id, v⟩, hit, rfl⟩
  have hsome := (h.holds.index id a).mpr ⟨v, hit⟩
  rw [hfind] at hsome
  cases hsome

/-!
## Taking nodes out
-/

def LinkedList.without (l : LinkedList) (id : NodeId) : LinkedList :=
  { l with nodes := l.nodes.erase id, ids := l.ids.recycle id }

theorem Holds.without (h : Holds m l ((a, id, v) :: items))
    (hcontent : forall it, it ∈ items -> m'.content it.1 = m.content it.1)
    (htop : m'.top = m.top) : Holds m' (l.without id) items := by
  have hdistinct := nodup_cons.mp h.distinct
  constructor
  · intro it hit
    rw [hcontent it hit]
    exact h.contents it (mem_cons_of_mem _ hit)
  · intro id' a'
    change (l.nodes.erase id).find id' = some a' <-> _
    rw [Dict.find_erase]
    split
    case isTrue heq =>
      subst heq
      constructor
      · intro hfind
        cases hfind
      · rintro ⟨v', hit⟩
        exact absurd (mem_map_of_mem (mem_map_of_mem hit)) hdistinct.left
    case isFalse hne =>
      rw [h.index]
      apply exists_congr
      intro v'
      rw [mem_cons]
      constructor
      · rintro (hit | hit)
        · cases hit
          exact absurd rfl hne
        · exact hit
      · exact .inr
  · have hfind : l.nodes.find id = some a := (h.index id a).mpr ⟨v, mem_cons_self⟩
    have hlength := Dict.length_erase hfind
    rw [h.size, length_cons] at hlength
    exact Nat.add_right_cancel hlength
  · exact h.fits.recycle
  · intro x hx
    rw [htop]
    apply h.below
    rcases mem_cons.mp hx with rfl | hx
    · exact mem_cons_self
    · exact mem_cons_of_mem _ (mem_cons_of_mem _ hx)

theorem Represents.ring_middle (h : Represents m l (ys ++ (a, id, v) :: zs)) :
    IsRing m.next m.prev l.sentinel (addresses ys ++ a :: addresses zs) := by
  have hring := h.ring
  rw [addresses_append] at hring
  exact hring

theorem addresses_middle :
    (a :: l.sentinel :: addresses (ys ++ zs)).Perm
      (l.sentinel :: addresses (ys ++ (a, id, v) :: zs)) := by
  rw [addresses_append, addresses_append]
  exact (List.Perm.swap _ _ _).trans (perm_middle.symm.cons _)

section

variable (h : Represents m l (ys ++ (a, id, v) :: zs))
include h

theorem Represents.unlink :
    exists m', m.unlink a = some m' ∧
      Memory.Rearranged m m' (l.sentinel :: addresses (ys ++ (a, id, v) :: zs)) ∧
      IsRing m'.next m'.prev l.sentinel (addresses (ys ++ zs)) ∧
      a ∉ l.sentinel :: addresses (ys ++ zs) := by
  rcases Memory.unlink_of_ring h.ring_middle with ⟨m', hunlink, hm, hring⟩
  refine ⟨m', hunlink, ?_, ?_, ?_⟩
  · rw [addresses_append]
    exact hm
  · rw [addresses_append]
    exact hring
  · exact (nodup_cons.mp (addresses_middle.nodup_iff.mpr h.ring.distinct)).left

theorem Represents.take :
    exists m', l.take m a id = some (v, m', l.without id) ∧
      Performs m l (ys ++ (a, id, v) :: zs) m' (l.without id) (ys ++ zs) := by
  rcases h.unlink with ⟨m1, hunlink, hm1, hring1, hdeleted⟩
  rcases h.cell (by simp : (a, id, v) ∈ _) with ⟨n, hn, rfl, rfl⟩
  have hcells : forall x, x ∈ l.sentinel :: addresses (ys ++ zs) ->
      (m1.delete a).cells x = m1.cells x := by
    intro x hx
    rw [Memory.cells_delete, if_neg]
    rintro rfl
    exact hdeleted hx
  have hperm : ((a, n.id, n.value) :: (ys ++ zs)).Perm (ys ++ (a, n.id, n.value) :: zs) :=
    perm_middle.symm
  refine ⟨m1.delete a, ?_, ⟨⟨?_, ?_⟩, rfl, ?_, Nat.le_of_eq hm1.top_eq.symm, ?_⟩⟩
  · unfold LinkedList.take
    rw [hn, some_bind, hunlink]
    rfl
  · exact Memory.isRing_of_cells hring1 hcells
  · apply (h.holds.of_perm hm1.content_eq hm1.top_eq hperm).without
    · intro it hit
      unfold Memory.content
      rw [hcells it.1 (mem_cons_of_mem _ (mem_map_of_mem hit))]
    · rfl
  · intro x _ hx
    have hne : x ≠ a := by
      rintro rfl
      exact hx (addresses_middle.mem_iff.mp mem_cons_self)
    rw [Memory.cells_delete, if_neg hne, hm1.frame x hx]
  · intro x hx
    exact .inl ((hperm.map Prod.fst).mem_iff.mp (mem_cons_of_mem _ hx))

end

theorem Represents.nodes_nil (h : Represents m l items) : l.nodes.entries = [] <-> items = [] := by
  rw [← length_eq_zero_iff, h.holds.size, length_eq_zero_iff]

theorem count_without :
    (l.without id).ids.count (ids (ys ++ zs)) = l.ids.count (ids (ys ++ (a, id, v) :: zs)) := by
  change (l.ids.recycle id).count _ = _
  rw [IdSupply.count_recycle]
  unfold IdSupply.count
  rw [ids_append, ids_append]
  have hperm : (id :: (ids ys ++ ids zs)).Perm (ids ys ++ ids ((a, id, v) :: zs)) :=
    perm_middle.symm
  rw [hperm.length_eq]

/-- An operation that may take an element out returns a value and leaves the sequence. -/
def Takes (m : Memory) (l : LinkedList) (items : Placed)
    (result : Option (Cell × Memory × LinkedList)) (value : Cell) (xs : Elements) : Prop :=
  exists m' l' items', result = some (value, m', l') ∧ Performs m l items m' l' items' ∧
    elements items' = xs ∧ l'.ids.count (ids items') = l.ids.count (ids items)

theorem Represents.takes (h : Represents m l (ys ++ (a, id, v) :: zs)) :
    Takes m l (ys ++ (a, id, v) :: zs) (l.take m a id) v (elements (ys ++ zs)) := by
  rcases h.take with ⟨m', htake, hperforms⟩
  exact ⟨m', _, _, htake, hperforms, rfl, count_without⟩

section

variable (h : Represents m l items)
include h

theorem Represents.popFront :
    Takes m l items (l.popFront m) (((elements items).head?.map Prod.snd).getD 0)
      (elements items).tail := by
  unfold LinkedList.popFront
  cases items with
  | nil =>
    rw [if_pos (h.nodes_nil.mpr rfl)]
    exact ⟨m, l, [], rfl, h.refl, rfl, rfl⟩
  | cons it rest =>
    rcases it with ⟨a, id, v⟩
    rcases Memory.exists_of_next h.ring.segment.next_first with ⟨s, hs, hnext⟩
    rcases h.cell mem_cons_self with ⟨n, hn, rfl, _⟩
    rw [if_neg (by rw [h.nodes_nil]; exact cons_ne_nil _ _), hs]
    simp only [some_bind, hnext, hn]
    have hsplit : Represents m l ([] ++ (a, n.id, v) :: rest) := h
    exact hsplit.takes

theorem Represents.popBack :
    Takes m l items (l.popBack m) (((elements items).getLast?.map Prod.snd).getD 0)
      (elements items).dropLast := by
  unfold LinkedList.popBack
  rcases eq_nil_or_concat' items with rfl | ⟨rest, ⟨a, id, v⟩, rfl⟩
  · rw [if_pos (h.nodes_nil.mpr rfl)]
    exact ⟨m, l, [], rfl, h.refl, rfl, rfl⟩
  · have hring := h.ring
    rw [addresses_append] at hring
    rcases Memory.exists_of_prev (segment_append.mp hring.segment).right.right
      with ⟨s, hs, hprev⟩
    rcases h.cell (by simp : (a, id, v) ∈ _) with ⟨n, hn, rfl, _⟩
    have helements : elements (rest ++ [(a, n.id, v)]) = elements rest ++ [(n.id, v)] :=
      elements_append _ _
    have htakes := h.takes
    rw [if_neg (by rw [h.nodes_nil]; simp), hs, helements, List.getLast?_concat,
      dropLast_concat]
    rw [append_nil] at htakes
    simp only [some_bind, hprev, hn]
    exact htakes

end

/-!
## New nodes
-/

def Memory.grown (m : Memory) (n : Node) : Memory :=
  ⟨update m.cells m.top (some n), m.top + 1⟩

def LinkedList.extended (l : LinkedList) (a : Address) : LinkedList :=
  { l with ids := l.ids.next.2, nodes := l.nodes.insert l.ids.next.1 a }

theorem newNode_eq (m : Memory) (l : LinkedList) (value : Cell) :
    l.newNode m value = some (m.top, m.grown ⟨value, 0, 0, l.ids.next.1⟩,
      { l with ids := l.ids.next.2 }) := by
  unfold LinkedList.newNode Memory.modify Memory.new Memory.grown Memory.write
  simp

theorem cells_grown {x : Address} (hx : x < m.top) : (m.grown n).cells x = m.cells x :=
  update_of_ne (Nat.ne_of_lt hx) _ _

theorem cells_grown_top : (m.grown n).cells m.top = some n :=
  update_self _ _ _

theorem Holds.extended (h : Holds m l items)
    (hroom : l.ids.freeIds = [] -> l.ids.count (ids items) + 1 < IdSupply.period)
    (hnew : m'.content m.top = some (l.ids.next.1, v))
    (hcontent : forall it, it ∈ items -> m'.content it.1 = m.content it.1)
    (htop : m'.top = m.top + 1) :
    Holds m' (l.extended m.top) ((m.top, l.ids.next.1, v) :: items) := by
  rcases h.fits.next hroom with ⟨_, hnotin, hfits⟩
  have hnone : l.nodes.find l.ids.next.1 = none := by
    rw [eq_none_iff_forall_ne_some]
    intro a hfind
    rcases (h.index _ a).mp hfind with ⟨v', hit⟩
    exact hnotin (mem_map_of_mem (mem_map_of_mem hit))
  constructor
  · intro it hit
    rcases mem_cons.mp hit with rfl | hit
    · exact hnew
    · rw [hcontent it hit]
      exact h.contents it hit
  · intro id a
    change (l.nodes.insert l.ids.next.1 m.top).find id = some a <-> _
    rw [Dict.find_insert]
    split
    case isTrue heq =>
      subst heq
      constructor
      · intro hfind
        cases hfind
        exact ⟨v, mem_cons_self⟩
      · rintro ⟨v', hit⟩
        rcases mem_cons.mp hit with hit | hit
        · cases hit
          rfl
        · exact absurd (mem_map_of_mem (mem_map_of_mem hit)) hnotin
    case isFalse hne =>
      rw [h.index]
      apply exists_congr
      intro v'
      rw [mem_cons]
      constructor
      · exact .inr
      · rintro (hit | hit)
        · cases hit
          exact absurd rfl hne
        · exact hit
  · change (l.nodes.insert l.ids.next.1 m.top).entries.length = _
    rw [Dict.length_insert_of_none hnone, h.size, length_cons]
  · exact hfits
  · intro x hx
    rw [htop]
    rcases mem_cons.mp hx with rfl | hx
    · exact Nat.lt_succ_of_lt (h.below _ mem_cons_self)
    · rcases mem_cons.mp hx with rfl | hx
      · exact Nat.lt_succ_self m.top
      · exact Nat.lt_succ_of_lt (h.below x (mem_cons_of_mem _ hx))

variable (h : Represents m l items)
  (hroom : l.ids.freeIds = [] -> l.ids.count (ids items) + 1 < IdSupply.period)

include h

theorem Represents.ring_grown (n : Node) :
    IsRing (m.grown n).next (m.grown n).prev l.sentinel (addresses items) :=
  Memory.isRing_of_cells h.ring fun x hx => cells_grown (h.holds.below x hx)

theorem Represents.top_not_mem : m.top ∉ l.sentinel :: addresses items :=
  fun hmem => Nat.lt_irrefl m.top (h.holds.below m.top hmem)

include hroom

theorem Represents.pushed
    (hm : Memory.Rearranged (m.grown ⟨v, 0, 0, l.ids.next.1⟩) m'
      (m.top :: l.sentinel :: addresses items))
    (hring : IsRing m'.next m'.prev l.sentinel (addresses items'))
    (hperm : items'.Perm ((m.top, l.ids.next.1, v) :: items)) :
    LinkedList.indexNode m' { l with ids := l.ids.next.2 } m.top =
        some (l.ids.next.1, m', l.extended m.top) ∧
      Performs m l items m' (l.extended m.top) items' := by
  have hcontent : forall x, x < m.top -> m'.content x = m.content x := by
    intro x hx
    rw [hm.content_eq]
    unfold Memory.content
    rw [cells_grown hx]
  have hnew : m'.content m.top = some (l.ids.next.1, v) := by
    rw [hm.content_eq]
    unfold Memory.content
    rw [cells_grown_top]
    rfl
  constructor
  · rcases map_eq_some_iff.mp hnew with ⟨n, hn, hnv⟩
    unfold LinkedList.indexNode LinkedList.extended
    rw [hn, some_bind, (Prod.mk.inj hnv).left]
    rfl
  · refine ⟨⟨hring, ?_⟩, rfl, ?_, ?_, ?_⟩
    · refine Holds.of_perm ?_ rfl rfl hperm
      apply h.holds.extended hroom hnew
      · exact fun it hit => hcontent it.1
          (h.holds.below _ (mem_cons_of_mem _ (mem_map_of_mem hit)))
      · exact hm.top_eq
    · intro x hx hfoot
      rw [hm.frame x, cells_grown hx]
      rw [mem_cons, not_or]
      exact ⟨Nat.ne_of_lt hx, hfoot⟩
    · rw [hm.top_eq]
      exact Nat.le_succ m.top
    · intro x hx
      rcases mem_cons.mp ((hperm.map Prod.fst).mem_iff.mp hx) with rfl | hx
      · exact .inr (Nat.le_refl _)
      · exact .inl hx

theorem Represents.pushFront (value : Cell) :
    exists m', l.pushFront m value = some (l.ids.next.1, m', l.extended m.top) ∧
      Performs m l items m' (l.extended m.top) ((m.top, l.ids.next.1, value) :: items) := by
  have hring := h.ring_grown ⟨value, 0, 0, l.ids.next.1⟩
  have hnode : ((m.grown ⟨value, 0, 0, l.ids.next.1⟩).cells m.top).isSome :=
    isSome_of_eq_some cells_grown_top
  rcases hring.exists_next mem_cons_self with ⟨q, _, hq⟩
  rcases Memory.insertFirst_of_ring hring h.top_not_mem hnode hq with ⟨m', hinsert, hm, hring'⟩
  have hring'' : IsRing m'.next m'.prev l.sentinel
      (addresses ((m.top, l.ids.next.1, value) :: items)) := hring'
  rcases h.pushed hroom hm hring'' (List.Perm.refl _) with ⟨hindex, hperforms⟩
  refine ⟨m', ?_, hperforms⟩
  rcases Memory.exists_of_next hq with ⟨s, hs, rfl⟩
  unfold LinkedList.pushFront
  rw [newNode_eq]
  simp only [some_bind, hs, hinsert]
  exact hindex

theorem Represents.pushBack (value : Cell) :
    exists m', l.pushBack m value = some (l.ids.next.1, m', l.extended m.top) ∧
      Performs m l items m' (l.extended m.top) (items ++ [(m.top, l.ids.next.1, value)]) := by
  have hring := h.ring_grown ⟨value, 0, 0, l.ids.next.1⟩
  have hnode : ((m.grown ⟨value, 0, 0, l.ids.next.1⟩).cells m.top).isSome :=
    isSome_of_eq_some cells_grown_top
  rcases Memory.insertLast_of_ring hring h.top_not_mem hnode with ⟨m', hinsert, hm, hring'⟩
  have hring'' : IsRing m'.next m'.prev l.sentinel
      (addresses (items ++ [(m.top, l.ids.next.1, value)])) := by
    rw [addresses_append]
    exact hring'
  rcases h.pushed hroom hm hring'' perm_append_comm with ⟨hindex, hperforms⟩
  refine ⟨m', ?_, hperforms⟩
  unfold LinkedList.pushBack
  rw [newNode_eq]
  simp only [some_bind, hinsert]
  exact hindex

end Async2.Collections
