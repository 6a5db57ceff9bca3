import Async2.Collections.LinkedList
import Async2.Foundation.Tables

/-!
# Sequences

What a linked list is for: a finite sequence of values, each under an id of its own.  The
operations say nothing about cells and links.
-/

namespace Async2.Collections

open List AssocList
open AssocList (find keys)

/-- The values in order, with their ids. -/
abbrev Elements := List (NodeId × Cell)

namespace Elements

def remove (xs : Elements) (id : NodeId) : Elements := xs.eraseP fun e => e.1 = id

def setValue (xs : Elements) (id : NodeId) (value : Cell) : Elements :=
  xs.map fun e => if e.1 = id then (id, value) else e

def moveToFront (xs : Elements) (id : NodeId) : Elements :=
  match find id xs with
  | none => xs
  | some value => (id, value) :: xs.remove id

def moveToBack (xs : Elements) (id : NodeId) : Elements :=
  match find id xs with
  | none => xs
  | some value => xs.remove id ++ [(id, value)]

def getValue (xs : Elements) (id : NodeId) : Cell := (find id xs).getD 0

def first : Elements -> NodeId
  | [] => 0
  | e :: _ => e.1

/-- The id after another one, and 0 if there is none. -/
def next (id : NodeId) : Elements -> NodeId
  | [] => 0
  | e :: rest => if e.1 = id then first rest else next id rest

def last (xs : Elements) : NodeId := first xs.reverse

def prev (id : NodeId) (xs : Elements) : NodeId := next id xs.reverse

/-!
## Elements at their places
-/

variable {xs ys zs : Elements} {id : NodeId} {value : Cell}

theorem remove_middle (hys : id ∉ keys ys) : remove (ys ++ (id, value) :: zs) id = ys ++ zs :=
  eraseP_middle hys

theorem remove_of_not_mem (hid : id ∉ keys xs) : remove xs id = xs :=
  eraseP_of_not_mem hid

section

variable (hys : id ∉ keys ys)
include hys

theorem moveToFront_middle :
    moveToFront (ys ++ (id, value) :: zs) id = (id, value) :: (ys ++ zs) := by
  unfold moveToFront
  rw [find_middle hys, remove_middle hys]

theorem moveToBack_middle :
    moveToBack (ys ++ (id, value) :: zs) id = ys ++ zs ++ [(id, value)] := by
  unfold moveToBack
  rw [find_middle hys, remove_middle hys]

theorem getValue_middle : getValue (ys ++ (id, value) :: zs) id = value := by
  unfold getValue
  rw [find_middle hys]
  rfl

end

theorem setValue_of_not_mem (hid : id ∉ keys xs) : setValue xs id value = xs := by
  unfold setValue
  conv_rhs => rw [← map_id xs]
  apply map_congr_left
  intro e he
  rw [if_neg]
  · rfl
  · rintro rfl
    exact hid (mem_map_of_mem he)

theorem setValue_middle {old : Cell} (hys : id ∉ keys ys) (hzs : id ∉ keys zs) :
    setValue (ys ++ (id, old) :: zs) id value = ys ++ (id, value) :: zs := by
  have hsplit : setValue (ys ++ (id, old) :: zs) id value =
      setValue ys id value ++ (id, value) :: setValue zs id value := by
    unfold setValue
    rw [map_append, map_cons, if_pos rfl]
  rw [hsplit, setValue_of_not_mem hys, setValue_of_not_mem hzs]

section

variable (hid : id ∉ keys xs)
include hid

theorem moveToFront_of_not_mem : moveToFront xs id = xs := by
  unfold moveToFront
  rw [find_eq_none_iff.mpr hid]

theorem moveToBack_of_not_mem : moveToBack xs id = xs := by
  unfold moveToBack
  rw [find_eq_none_iff.mpr hid]

theorem getValue_of_not_mem : getValue xs id = 0 := by
  unfold getValue
  rw [find_eq_none_iff.mpr hid]
  rfl

theorem next_of_not_mem : next id xs = 0 := by
  induction xs with
  | nil => rfl
  | cons e rest ih =>
    rw [AssocList.keys_cons, mem_cons, not_or] at hid
    rw [next, if_neg (Ne.symm hid.left), ih hid.right]

end

theorem next_middle (hys : id ∉ keys ys) : next id (ys ++ (id, value) :: zs) = first zs := by
  induction ys with
  | nil => rw [nil_append, next, if_pos rfl]
  | cons e rest ih =>
    rw [AssocList.keys_cons, mem_cons, not_or] at hys
    rw [cons_append, next, if_neg (Ne.symm hys.left), ih hys.right]

theorem mem_keys_reverse : id ∈ keys xs.reverse <-> id ∈ keys xs := by
  unfold AssocList.keys
  rw [map_reverse, mem_reverse]

theorem prev_of_not_mem (hid : id ∉ keys xs) : prev id xs = 0 :=
  next_of_not_mem fun hmem => hid (mem_keys_reverse.mp hmem)

theorem prev_middle (hzs : id ∉ keys zs) : prev id (ys ++ (id, value) :: zs) = last ys := by
  unfold prev last
  rw [reverse_append, reverse_cons, append_assoc]
  exact next_middle fun hmem => hzs (mem_keys_reverse.mp hmem)

end Elements

end Async2.Collections
