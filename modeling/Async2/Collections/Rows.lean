import Async2.Collections.Reference

/-!
# Rows in a list of nodes

The caches have a node for every row, in the order of their last use.  The lemmas follow the
rows through the operations on the list.
-/

namespace Async2.Collections

open List Elements
open AssocList (keys)

/-- The nodes are those of the rows, with a value for each of them. -/
structure Listed {K : Type} (lru : NodeList) (val : Row K -> Cell) (rows : List (Row K)) :
    Prop where
  elements_eq : lru.elements = rows.map fun row => (row.id, val row)
  fits : lru.ids.Fits (rows.map Row.id)

variable {K : Type} {lru : NodeList} {val : Row K -> Cell} {rows ys zs : List (Row K)}
variable {row row' : Row K}

theorem listed_create : Listed NodeList.create val [] :=
  ⟨rfl, IdSupply.fits_nil 1⟩

theorem keys_map_node (rows : List (Row K)) :
    keys (rows.map fun row => (row.id, val row)) = rows.map Row.id := by
  unfold AssocList.keys
  rw [map_map]
  rfl

section

variable (h : Listed lru val rows)
include h

theorem Listed.count : lru.count = rows.length + lru.ids.freeIds.length := by
  unfold NodeList.count IdSupply.count
  rw [h.elements_eq, keys_map_node, length_map]

theorem Listed.distinct : (rows.map Row.id).Nodup :=
  (nodup_append.mp h.fits.distinct).left

theorem Listed.ne_zero (hrow : row ∈ rows) : row.id ≠ 0 :=
  h.fits.nonzero _ (mem_append_left _ (mem_map_of_mem hrow))

theorem Listed.size : lru.size = BitVec.ofNat 32 rows.length := by
  unfold NodeList.size
  rw [h.elements_eq, length_map]

end

section

variable (h : Listed lru val (ys ++ row :: zs))
include h

theorem Listed.not_mem_keys :
    row.id ∉ keys (ys.map fun row => (row.id, val row)) ∧
      row.id ∉ keys (zs.map fun row => (row.id, val row)) := by
  rw [keys_map_node, keys_map_node]
  exact not_mem_of_nodup h.distinct

theorem Listed.elements_split :
    lru.elements = (ys.map fun row => (row.id, val row)) ++ (row.id, val row) ::
      zs.map fun row => (row.id, val row) := by
  rw [h.elements_eq, map_append, map_cons]

theorem Listed.getValue : lru.getValue row.id = val row := by
  unfold NodeList.getValue
  rw [h.elements_split]
  exact getValue_middle h.not_mem_keys.left

end

def lastId (rows : List (Row K)) : NodeId := (rows.getLast?.map Row.id).getD 0

theorem last_eq_lastId (rows : List (Row K)) :
    last (rows.map fun row => (row.id, val row)) = lastId rows := by
  unfold last lastId
  rw [← map_reverse, List.getLast?_eq_head?_reverse]
  cases rows.reverse with
  | nil | cons row rest => rfl

theorem lastId_concat (ys : List (Row K)) (row : Row K) : lastId (ys ++ [row]) = row.id := by
  unfold lastId
  rw [List.getLast?_append]
  rfl

theorem Listed.last_eq (h : Listed lru val rows) : lru.last = lastId rows := by
  unfold NodeList.last
  rw [h.elements_eq, last_eq_lastId]

section

variable (h : Listed lru val (ys ++ row :: zs))
include h

theorem Listed.prev : lru.prev row.id = lastId ys := by
  unfold NodeList.prev
  rw [h.elements_split, ← last_eq_lastId]
  exact prev_middle h.not_mem_keys.right

section

variable (hid : row'.id = row.id) (hval : val row' = val row)
include hid hval

theorem Listed.moveToFront : Listed (lru.moveToFront row.id) val (row' :: (ys ++ zs)) := by
  constructor
  · unfold NodeList.moveToFront
    rw [h.elements_split, moveToFront_middle h.not_mem_keys.left, map_cons, map_append, hid, hval]
  · apply h.fits.of_perm rfl
    rw [map_cons, hid]
    exact (perm_middle.symm.map Row.id).append_right _

theorem count_moveToFront : (lru.moveToFront row.id).count = lru.count := by
  rw [h.count, (h.moveToFront hid hval).count, length_cons, length_append,
    length_append, length_cons]
  rfl

end

theorem Listed.remove_eq :
    lru.remove row.id = ⟨(ys ++ zs).map fun row => (row.id, val row), lru.ids.recycle row.id⟩ := by
  unfold NodeList.remove
  have hmem : row.id ∈ keys lru.elements := by
    rw [h.elements_split, AssocList.keys_append]
    exact mem_append_right _ mem_cons_self
  rw [if_pos hmem, h.elements_split, remove_middle h.not_mem_keys.left, map_append]

theorem Listed.remove : Listed (lru.remove row.id) val (ys ++ zs) := by
  rw [h.remove_eq]
  refine ⟨rfl, ?_⟩
  apply IdSupply.Fits.recycle
  apply h.fits.of_perm rfl
  exact (perm_middle.symm.map Row.id).append_right _

theorem Listed.count_remove : (lru.remove row.id).count = lru.count := by
  rw [h.remove.count, h.count, h.remove_eq]
  change (ys ++ zs).length + (lru.ids.freeIds ++ [row.id]).length = _
  rw [length_append, length_append, length_append, length_singleton, length_cons]
  omega

end

theorem Listed.pushFront (h : Listed lru val rows)
    (hroom : lru.ids.freeIds = [] -> lru.count + 1 < IdSupply.period)
    (hid : row.id = (lru.pushFront (val row)).1) :
    Listed (lru.pushFront (val row)).2 val (row :: rows) := by
  have hcount : lru.ids.freeIds = [] ->
      lru.ids.count (rows.map Row.id) + 1 < IdSupply.period := by
    rw [← keys_map_node, ← h.elements_eq]
    exact hroom
  constructor
  · unfold NodeList.pushFront
    rw [h.elements_eq, map_cons, hid]
    rfl
  · rw [map_cons, hid]
    exact (h.fits.next hcount).right.right

theorem Listed.id_not_mem (h : Listed lru val (row :: rows)) : row.id ∉ rows.map Row.id :=
  (nodup_cons.mp h.distinct).left

theorem count_pushFront (lru : NodeList) (value : Cell) :
    (lru.pushFront value).2.count = if lru.ids.freeIds = [] then lru.count + 1 else lru.count :=
  IdSupply.count_next _

end Async2.Collections
