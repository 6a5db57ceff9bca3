import Async2.Collections.Ids
import Async2.Foundation.Dict
import Async2.Foundation.TransitionSystem

/-!
# Linked lists

The nodes of a list form a ring of cells through a sentinel.  A table leads from the ids of
nodes to their addresses.

Reading and writing through an address that has no node gives no result, and so does a loop
that runs out of fuel.  Addresses are not used again, which is of no importance as no address
of a deleted node is kept.
-/

namespace Async2.Collections

abbrev Cell := BitVec 32

abbrev Address := Nat

structure Node where
  value : Cell
  prev : Address
  next : Address
  id : NodeId
deriving DecidableEq

/-- The nodes of all lists. -/
structure Memory where
  cells : Address -> Option Node
  /-- The address of the next node. -/
  top : Address

namespace Memory

def init : Memory := ⟨fun _ => none, 1⟩

def write (m : Memory) (a : Address) (n : Node) : Memory :=
  { m with cells := Function.update m.cells a (some n) }

def modify (m : Memory) (a : Address) (f : Node -> Node) : Option Memory := do
  let n ← m.cells a
  return m.write a (f n)

def new (m : Memory) : Address × Memory :=
  (m.top, { (m.write m.top ⟨0, 0, 0, 0⟩) with top := m.top + 1 })

def delete (m : Memory) (a : Address) : Memory :=
  { m with cells := Function.update m.cells a none }

def insertBefore (m : Memory) (pos node : Address) : Option Memory := do
  let p ← m.cells pos
  let m ← m.modify node fun n => { n with prev := p.prev }
  let m ← m.modify node fun n => { n with next := pos }
  let p ← m.cells pos
  let m ← m.modify p.prev fun n => { n with next := node }
  m.modify pos fun n => { n with prev := node }

def unlink (m : Memory) (node : Address) : Option Memory := do
  let n ← m.cells node
  let m ← m.modify n.prev fun p => { p with next := n.next }
  let n ← m.cells node
  m.modify n.next fun q => { q with prev := n.prev }

end Memory

/-- A list; the sentinel is a node of its own. -/
structure LinkedList where
  sentinel : Address
  ids : IdSupply
  nodes : Dict NodeId Address

namespace LinkedList

def create (m : Memory) : Memory × LinkedList :=
  let (a, m) := m.new
  (m.write a ⟨0, a, a, 0⟩, ⟨a, .init, .empty⟩)

/-- The first part of `PushFront` and `PushBack`. -/
def newNode (m : Memory) (l : LinkedList) (value : Cell) :
    Option (Address × Memory × LinkedList) := do
  let (node, m) := m.new
  let (id, ids) := l.ids.next
  let m ← m.modify node fun n => { n with value := value, id := id }
  return (node, m, { l with ids := ids })

/-- The last part of `PushFront` and `PushBack`. -/
def indexNode (m : Memory) (l : LinkedList) (node : Address) :
    Option (NodeId × Memory × LinkedList) := do
  let n ← m.cells node
  return (n.id, m, { l with nodes := l.nodes.insert n.id node })

def pushFront (m : Memory) (l : LinkedList) (value : Cell) :
    Option (NodeId × Memory × LinkedList) := do
  let (node, m, l) ← l.newNode m value
  let s ← m.cells l.sentinel
  let m ← m.insertBefore s.next node
  l.indexNode m node

def pushBack (m : Memory) (l : LinkedList) (value : Cell) :
    Option (NodeId × Memory × LinkedList) := do
  let (node, m, l) ← l.newNode m value
  let m ← m.insertBefore l.sentinel node
  l.indexNode m node

/-- A node is taken out of the list and deleted, and its value is returned. -/
def take (m : Memory) (l : LinkedList) (node : Address) (id : NodeId) :
    Option (Cell × Memory × LinkedList) := do
  let n ← m.cells node
  let m ← m.unlink node
  return (n.value, m.delete node,
    { l with nodes := l.nodes.erase id, ids := l.ids.recycle id })

def popFront (m : Memory) (l : LinkedList) : Option (Cell × Memory × LinkedList) :=
  if l.nodes.entries = [] then some (0, m, l)
  else do
    let s ← m.cells l.sentinel
    let n ← m.cells s.next
    l.take m s.next n.id

def popBack (m : Memory) (l : LinkedList) : Option (Cell × Memory × LinkedList) :=
  if l.nodes.entries = [] then some (0, m, l)
  else do
    let s ← m.cells l.sentinel
    let n ← m.cells s.prev
    l.take m s.prev n.id

def remove (m : Memory) (l : LinkedList) (id : NodeId) : Option (Cell × Memory × LinkedList) :=
  match l.nodes.find id with
  | none => some (0, m, l)
  | some node => l.take m node id

def moveToFront (m : Memory) (l : LinkedList) (id : NodeId) : Option Memory :=
  match l.nodes.find id with
  | none => some m
  | some node => do
    let s ← m.cells l.sentinel
    if node = s.next then return m
    else
      let m ← m.unlink node
      let s ← m.cells l.sentinel
      m.insertBefore s.next node

def moveToBack (m : Memory) (l : LinkedList) (id : NodeId) : Option Memory :=
  match l.nodes.find id with
  | none => some m
  | some node => do
    let s ← m.cells l.sentinel
    if node = s.prev then return m
    else
      let m ← m.unlink node
      m.insertBefore l.sentinel node

def getValue (m : Memory) (l : LinkedList) (id : NodeId) : Option Cell :=
  match l.nodes.find id with
  | none => some 0
  | some node => do
    let n ← m.cells node
    return n.value

def setValue (m : Memory) (l : LinkedList) (id : NodeId) (value : Cell) : Option Memory :=
  match l.nodes.find id with
  | none => some m
  | some node => m.modify node fun n => { n with value := value }

/-!
## Walking through a list
-/

def idOf (m : Memory) (l : LinkedList) (a : Address) : Option NodeId :=
  if a = l.sentinel then some 0
  else do
    let n ← m.cells a
    return n.id

def first (m : Memory) (l : LinkedList) : Option NodeId := do
  let s ← m.cells l.sentinel
  l.idOf m s.next

def last (m : Memory) (l : LinkedList) : Option NodeId := do
  let s ← m.cells l.sentinel
  l.idOf m s.prev

def next (m : Memory) (l : LinkedList) (id : NodeId) : Option NodeId :=
  match l.nodes.find id with
  | none => some 0
  | some node => do
    let n ← m.cells node
    l.idOf m n.next

def prev (m : Memory) (l : LinkedList) (id : NodeId) : Option NodeId :=
  match l.nodes.find id with
  | none => some 0
  | some node => do
    let n ← m.cells node
    l.idOf m n.prev

def size (l : LinkedList) : Cell := BitVec.ofNat 32 l.nodes.entries.length

/-!
## Whole lists
-/

def copyLoop (sentinel : Address) : Nat -> Address -> Memory -> LinkedList ->
    Option (Memory × LinkedList)
  | 0, _, _, _ => none
  | fuel + 1, cur, m, copy =>
    if cur = sentinel then some (m, copy)
    else do
      let n ← m.cells cur
      let (_, m, copy) ← copy.pushBack m n.value
      let n ← m.cells cur
      copyLoop sentinel fuel n.next m copy

def deepCopy (m : Memory) (l : LinkedList) : Option (Memory × LinkedList) := do
  let (m, copy) := create m
  let s ← m.cells l.sentinel
  copyLoop l.sentinel (l.nodes.entries.length + 1) s.next m copy

def clearLoop (sentinel : Address) : Nat -> Address -> Memory -> Option Memory
  | 0, _, _ => none
  | fuel + 1, node, m =>
    if node = sentinel then some m
    else do
      let n ← m.cells node
      clearLoop sentinel fuel n.next (m.delete node)

def clear (m : Memory) (l : LinkedList) : Option (Memory × LinkedList) := do
  let s ← m.cells l.sentinel
  let m ← clearLoop l.sentinel (l.nodes.entries.length + 1) s.next m
  let m ← m.modify l.sentinel fun s => { s with next := l.sentinel }
  let m ← m.modify l.sentinel fun s => { s with prev := l.sentinel }
  return (m, { l with nodes := .empty, ids := l.ids.clear })

def destroy (m : Memory) (l : LinkedList) : Option Memory := do
  let (m, l) ← l.clear m
  return m.delete l.sentinel

end LinkedList

end Async2.Collections
