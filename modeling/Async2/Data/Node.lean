import Async2.Foundation.AssocList
import Async2.Foundation.BigEndian

/-!
# Data nodes

`DataNode` is the value type that the JSON, HJSON and MessagePack components
share: a tagged union of scalars, strings, binaries, arrays and two kinds of
maps.  At this level a node is the tree that it and its children form; sharing
and reference counts appear in the ownership model.

A hash map is the list of its entries in iteration order.  The order depends on
the hash function and the insertion history, so every statement about all nodes
speaks about all iteration orders as well.  A float is its 64-bit pattern.
-/

namespace Async2

open List

/-- The values that a data node can hold. -/
inductive DataNode where
  | null
  | bool (boolVal : Bool)
  | int (intVal : Int64)
  | float (floatVal : UInt64)
  | string (str : Bytes)
  | array (arr : List DataNode)
  | object (obj : List (Bytes × DataNode))
  | intMap (intmap : List (Int64 × DataNode))
  | binary (bin : Bytes)

namespace DataNode

open AssocList

/-!
## Induction over trees

The induction hypotheses range over the members of a container, whatever kind
of container it is.
-/

/-- Induction over the tree below a node. -/
@[elab_as_elim]
theorem treeInduction {motive : DataNode -> Prop}
    (null : motive .null)
    (bool : forall b, motive (.bool b))
    (int : forall v, motive (.int v))
    (float : forall bits, motive (.float bits))
    (string : forall s, motive (.string s))
    (array : forall es, (forall e, e ∈ es -> motive e) -> motive (.array es))
    (object : forall es : List (Bytes × DataNode),
      (forall e, e ∈ es -> motive e.2) -> motive (.object es))
    (intMap : forall es : List (Int64 × DataNode),
      (forall e, e ∈ es -> motive e.2) -> motive (.intMap es))
    (binary : forall b, motive (.binary b)) (n : DataNode) : motive n := by
  have hcons {α : Type} {P : α -> Prop} (e : α) (rest : List α) (he : P e)
      (hrest : forall x, x ∈ rest -> P x) : forall x, x ∈ e :: rest -> P x :=
    forall_mem_cons.mpr ⟨he, hrest⟩
  exact @DataNode.rec motive
    (fun es => forall e, e ∈ es -> motive e)
    (fun es => forall e, e ∈ es -> motive e.2)
    (fun es => forall e, e ∈ es -> motive e.2)
    (fun e => motive e.2) (fun e => motive e.2)
    null bool int float string array object intMap binary
    (forall_mem_nil _) hcons (forall_mem_nil _) hcons (forall_mem_nil _) hcons
    (fun _ _ h => h) (fun _ _ h => h) n

/-!
## Nesting height

The root of a tree lies at depth zero, so `height n` is the greatest depth at
which a node of `n` lies.
-/

mutual

/-- The greatest depth of a node below `n`, the root lying at depth zero. -/
def height : DataNode -> Nat
  | .array es => heightElems es
  | .object es => heightEntries es
  | .intMap es => heightIntEntries es
  | _ => 0

def heightElems : List DataNode -> Nat
  | [] => 0
  | e :: rest => max (height e + 1) (heightElems rest)

def heightEntries : List (Bytes × DataNode) -> Nat
  | [] => 0
  | (_, e) :: rest => max (height e + 1) (heightEntries rest)

def heightIntEntries : List (Int64 × DataNode) -> Nat
  | [] => 0
  | (_, e) :: rest => max (height e + 1) (heightIntEntries rest)

end

theorem height_lt_of_mem_array {e : DataNode} {es : List DataNode}
    (he : e ∈ es) : height e < height (.array es) := by
  change height e < heightElems es
  induction es with
  | nil => cases he
  | cons x rest ih =>
    rw [heightElems]
    rcases mem_cons.mp he with rfl | hrest
    · omega
    · have := ih hrest
      omega

theorem height_lt_of_mem_object {e : Bytes × DataNode} {es : List (Bytes × DataNode)}
    (he : e ∈ es) : height e.2 < height (.object es) := by
  change height e.2 < heightEntries es
  induction es with
  | nil => cases he
  | cons x rest ih =>
    rw [heightEntries]
    rcases mem_cons.mp he with rfl | hrest
    · omega
    · have := ih hrest
      omega

theorem height_lt_of_mem_intMap {e : Int64 × DataNode} {es : List (Int64 × DataNode)}
    (he : e ∈ es) : height e.2 < height (.intMap es) := by
  change height e.2 < heightIntEntries es
  induction es with
  | nil => cases he
  | cons x rest ih =>
    rw [heightIntEntries]
    rcases mem_cons.mp he with rfl | hrest
    · omega
    · have := ih hrest
      omega

/-!
## Properties of every node of a tree
-/

mutual

/-- The property holds at the node and at every node below it. -/
def Everywhere (P : DataNode -> Prop) : DataNode -> Prop
  | .array es => P (.array es) ∧ EverywhereElems P es
  | .object es => P (.object es) ∧ EverywhereEntries P es
  | .intMap es => P (.intMap es) ∧ EverywhereIntEntries P es
  | n => P n

def EverywhereElems (P : DataNode -> Prop) : List DataNode -> Prop
  | [] => True
  | e :: rest => Everywhere P e ∧ EverywhereElems P rest

def EverywhereEntries (P : DataNode -> Prop) : List (Bytes × DataNode) -> Prop
  | [] => True
  | (_, e) :: rest => Everywhere P e ∧ EverywhereEntries P rest

def EverywhereIntEntries (P : DataNode -> Prop) :
    List (Int64 × DataNode) -> Prop
  | [] => True
  | (_, e) :: rest => Everywhere P e ∧ EverywhereIntEntries P rest

end

variable {P : DataNode -> Prop}

theorem everywhere_array {es : List DataNode} :
    Everywhere P (.array es) <-> P (.array es) ∧ forall e, e ∈ es -> Everywhere P e := by
  have haux : EverywhereElems P es <-> forall e, e ∈ es -> Everywhere P e := by
    induction es with
    | nil => simp [EverywhereElems]
    | cons x rest ih => simp [EverywhereElems, ih]
  rw [Everywhere, haux]

theorem everywhere_object {es : List (Bytes × DataNode)} :
    Everywhere P (.object es) <-> P (.object es) ∧ forall e, e ∈ es -> Everywhere P e.2 := by
  have haux : EverywhereEntries P es <->
      forall e, e ∈ es -> Everywhere P e.2 := by
    induction es with
    | nil => simp [EverywhereEntries]
    | cons x rest ih =>
      obtain ⟨k, v⟩ := x
      rw [EverywhereEntries, ih]
      simp only [mem_cons, forall_eq_or_imp]
  rw [Everywhere, haux]

theorem everywhere_intMap {es : List (Int64 × DataNode)} :
    Everywhere P (.intMap es) <-> P (.intMap es) ∧ forall e, e ∈ es -> Everywhere P e.2 := by
  have haux : EverywhereIntEntries P es <->
      forall e, e ∈ es -> Everywhere P e.2 := by
    induction es with
    | nil => simp [EverywhereIntEntries]
    | cons x rest ih =>
      obtain ⟨k, v⟩ := x
      rw [EverywhereIntEntries, ih]
      simp only [mem_cons, forall_eq_or_imp]
  rw [Everywhere, haux]

/-!
## Well-formed trees
-/

def MapKeysDistinct : DataNode -> Prop
  | .object es => DistinctKeys es
  | .intMap es => DistinctKeys es
  | _ => True

/-- A tree in which every map holds each of its keys once. -/
def WellFormed (n : DataNode) : Prop := Everywhere MapKeysDistinct n

end DataNode

/-- A data node whose maps are maps: no key occurs twice in one of them. -/
structure Tree where
  node : DataNode
  wellFormed : node.WellFormed

end Async2
