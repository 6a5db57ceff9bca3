import Async2.Data.Node
import Async2.Foundation.Dict
import Async2.Foundation.RefCount.Changes

/-!
# Data nodes on the heap

A node is a cell with a tag, a value under that tag and a mutation counter; a container
holds the addresses of its children.  A function without result has touched a node that
is freed or being freed, or does not return.  The counter of references has 32 bits; here it
has no bound, so nothing is said of a node with `2 ^ 32` references or more.

Objects and int-maps have the same helpers, which are written once over the kind of map.
-/

namespace Async2.Ownership

open RefCount

/-- The value of a node under its tag. -/
inductive Content where
  | null
  | bool (boolVal : Bool)
  | int (intVal : Int64)
  | float (floatVal : UInt64)
  | string (strVal : Bytes)
  | array (arr : List Nat)
  | object (obj : Dict Bytes Nat)
  | intMap (intmap : Dict Int64 Nat)
  | binary (bin : Bytes)

/-- The children of a node, one for each slot. -/
def Content.children : Content -> List Nat
  | .array arr => arr
  | .object obj => obj.values
  | .intMap intmap => intmap.values
  | _ => []

/-- A node with its 24-bit mutation counter. -/
structure Node where
  version : BitVec 24
  content : Content

instance : Body Node where
  slots node := node.content.children

abbrev NodeHeap := Heap Node

theorem slots_node (v : BitVec 24) (c : Content) : slots (⟨v, c⟩ : Node) = c.children := rfl

/-!
## Making nodes
-/

/-- The factories: a new node with one reference. -/
def makeNode (c : Content) (h : NodeHeap) : Nat × NodeHeap := (h.next, h.alloc ⟨0, c⟩)

/-- What a C string holds of some bytes. -/
def cStr (s : Bytes) : Bytes := s.takeWhile fun b => b ≠ 0

/-!
## Maps
-/

/-- A kind of map among the contents of nodes. -/
structure MapKind (K : Type) where
  get : Content -> Option (Dict K Nat)
  make : Dict K Nat -> Content
  get_make : forall m, get (make m) = some m
  make_of_get : forall c m, get c = some m -> c = make m
  children_make : forall m, (make m).children = m.values

/-- Objects, whose keys are strings. -/
def objects : MapKind Bytes where
  get
    | .object obj => some obj
    | _ => none
  make := .object
  get_make := fun _ => rfl
  make_of_get := fun c m h => by
    split at h
    case h_1 obj =>
      cases h
      rfl
    · cases h
  children_make := fun _ => rfl

/-- Int-maps, whose keys are 64-bit integers. -/
def intMaps : MapKind Int64 where
  get
    | .intMap intmap => some intmap
    | _ => none
  make := .intMap
  get_make := fun _ => rfl
  make_of_get := fun c m h => by
    split at h
    case h_1 intmap =>
      cases h
      rfl
    · cases h
  children_make := fun _ => rfl

/-- Give references back that are still in slots of a node, then write the node. -/
def releaseThenWrite (h : NodeHeap) (n : Nat) (released : List Nat) (node : Node) :
    Option NodeHeap := do
  let h ← h.releaseAll released
  h.write n node

section

variable {K : Type} [DecidableEq K] (M : MapKind K)

/-- The child under a key, if the node is a map of this kind. -/
def mapFind (h : NodeHeap) (n : Nat) (key : K) : Option (Option Nat) := do
  let node ← h.read n
  return (M.get node.content).bind fun m => m.find key

/-- Put a reference that the caller gives away under a key; the value that was there is
released. -/
def mapInsert (h : NodeHeap) (n : Nat) (key : K) (val : Nat) : Option NodeHeap := do
  let node ← h.read n
  match M.get node.content with
  | none => h.release val
  | some m =>
    let h ← h.write n { node with version := node.version + 1 }
    releaseThenWrite h n (m.find key).toList
      ⟨node.version + 1, M.make (m.insert key val)⟩

def mapErase (h : NodeHeap) (n : Nat) (key : K) : Option (Bool × NodeHeap) := do
  let node ← h.read n
  match M.get node.content with
  | none => return (false, h)
  | some m =>
    match m.find key with
    | none => return (false, h)
    | some old =>
      let h ← h.write n { node with version := node.version + 1 }
      let h ← releaseThenWrite h n [old] ⟨node.version + 1, M.make (m.erase key)⟩
      return (true, h)

def mapClear (h : NodeHeap) (n : Nat) : Option NodeHeap := do
  let node ← h.read n
  match M.get node.content with
  | none => return h
  | some m =>
    let h ← h.write n { node with version := node.version + 1 }
    releaseThenWrite h n m.values ⟨node.version + 1, M.make .empty⟩

end

/-- `emplace` on the map of an object; another node has no such map. -/
def objEmplace (h : NodeHeap) (n : Nat) (key : Bytes) (val : Nat) : Option NodeHeap := do
  let node ← h.read n
  match node.content with
  | .object obj => h.write n { node with content := .object (obj.emplace key val) }
  | _ => none

def objFind (h : NodeHeap) := mapFind objects h

def objInsert (h : NodeHeap) := mapInsert objects h

def objErase (h : NodeHeap) := mapErase objects h

def objClear (h : NodeHeap) := mapClear objects h

def intMapFind (h : NodeHeap) := mapFind intMaps h

def intMapInsert (h : NodeHeap) := mapInsert intMaps h

def intMapErase (h : NodeHeap) := mapErase intMaps h

def intMapClear (h : NodeHeap) := mapClear intMaps h

/-!
## Arrays

The mutation counter belongs to the maps: no array helper touches it.
-/

def arrRemove (h : NodeHeap) (n index : Nat) : Option (Bool × NodeHeap) := do
  let node ← h.read n
  match node.content with
  | .array arr =>
    match arr[index]? with
    | none => return (false, h)
    | some old =>
      let h ← releaseThenWrite h n [old] { node with content := .array (arr.eraseIdx index) }
      return (true, h)
  | _ => return (false, h)

def arrSet (h : NodeHeap) (n index val : Nat) : Option NodeHeap := do
  let node ← h.read n
  match node.content with
  | .array arr =>
    match arr[index]? with
    | none => h.release val
    | some old =>
      releaseThenWrite h n [old] { node with content := .array (arr.set index val) }
  | _ => h.release val

def arrClear (h : NodeHeap) (n : Nat) : Option NodeHeap := do
  let node ← h.read n
  match node.content with
  | .array arr => releaseThenWrite h n arr { node with content := .array [] }
  | _ => return h

/-- `push_back` on the vector of an array; another node has no vector. -/
def arrPush (h : NodeHeap) (n val : Nat) : Option NodeHeap := do
  let node ← h.read n
  match node.content with
  | .array arr => h.write n { node with content := .array (arr ++ [val]) }
  | _ => none

end Async2.Ownership
