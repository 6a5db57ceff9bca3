import Async2.Collections.Operations

/-!
# Lists of plugins

The natives work on any number of lists, whose nodes share one memory.  Each of them behaves
as a finite sequence, as long as fewer ids than there are have been counted since the list was
cleared, and what is done to one list is not seen in the others.
-/

namespace Async2.Collections

open Function
open AssocList (keys DistinctKeys)
open TransitionSystem

abbrev ListId := Nat

/-- The lists behind handles. -/
structure Lists where
  memory : Memory
  lists : ListId -> Option LinkedList

inductive Call where
  | create (h : ListId)
  | pushFront (h : ListId) (value : Cell)
  | pushBack (h : ListId) (value : Cell)
  | popFront (h : ListId)
  | popBack (h : ListId)
  | remove (h : ListId) (id : NodeId)
  | moveToFront (h : ListId) (id : NodeId)
  | moveToBack (h : ListId) (id : NodeId)
  | getValue (h : ListId) (id : NodeId)
  | setValue (h : ListId) (id : NodeId) (value : Cell)
  | first (h : ListId)
  | last (h : ListId)
  | next (h : ListId) (id : NodeId)
  | prev (h : ListId) (id : NodeId)
  | size (h : ListId)
  | clear (h : ListId)
  | deepCopy (h copy : ListId)
  | close (h : ListId)
deriving DecidableEq

namespace Lists

def init : Lists := ⟨.init, fun _ => none⟩

/-- The list and the memory after an operation. -/
def put (w : Lists) (h : ListId) (m : Memory) (l : Option LinkedList) : Lists :=
  ⟨m, update w.lists h l⟩

/-- What a call returns, and the lists after it; natives without a result return 0.  Calls of
a list that does not exist, which also return 0, are left out. -/
def call (w : Lists) : Call -> Option (Cell × Lists)
  | .create h =>
    if (w.lists h).isNone then
      let (m, l) := LinkedList.create w.memory
      some (0, w.put h m (some l))
    else none
  | .pushFront h value => do
    let (id, m, l) ← (← w.lists h).pushFront w.memory value
    return (id, w.put h m (some l))
  | .pushBack h value => do
    let (id, m, l) ← (← w.lists h).pushBack w.memory value
    return (id, w.put h m (some l))
  | .popFront h => do
    let (value, m, l) ← (← w.lists h).popFront w.memory
    return (value, w.put h m (some l))
  | .popBack h => do
    let (value, m, l) ← (← w.lists h).popBack w.memory
    return (value, w.put h m (some l))
  | .remove h id => do
    let (value, m, l) ← (← w.lists h).remove w.memory id
    return (value, w.put h m (some l))
  | .moveToFront h id => do
    let l ← w.lists h
    let m ← l.moveToFront w.memory id
    return (0, w.put h m (some l))
  | .moveToBack h id => do
    let l ← w.lists h
    let m ← l.moveToBack w.memory id
    return (0, w.put h m (some l))
  | .getValue h id => do
    let value ← (← w.lists h).getValue w.memory id
    return (value, w)
  | .setValue h id value => do
    let l ← w.lists h
    let m ← l.setValue w.memory id value
    return (0, w.put h m (some l))
  | .first h => do
    let id ← (← w.lists h).first w.memory
    return (id, w)
  | .last h => do
    let id ← (← w.lists h).last w.memory
    return (id, w)
  | .next h id => do
    let next ← (← w.lists h).next w.memory id
    return (next, w)
  | .prev h id => do
    let prev ← (← w.lists h).prev w.memory id
    return (prev, w)
  | .size h => do
    let l ← w.lists h
    return (l.size, w)
  | .clear h => do
    let (m, l) ← (← w.lists h).clear w.memory
    return (0, w.put h m (some l))
  | .deepCopy h copy => do
    let l ← w.lists h
    if (w.lists copy).isNone then
      let (m, c) ← l.deepCopy w.memory
      return (0, w.put copy m (some c))
    else none
  | .close h => do
    let m ← (← w.lists h).destroy w.memory
    return (0, w.put h m none)

/-!
## Walks
-/

/-- The elements from an id on. -/
def walk (next : NodeId -> Option NodeId) (value : NodeId -> Option Cell) :
    Nat -> NodeId -> Option Elements
  | 0, _ => none
  | fuel + 1, id =>
    if id = 0 then some []
    else do
      let v ← value id
      let rest ← walk next value fuel (← next id)
      return (id, v) :: rest

def forward (m : Memory) (l : LinkedList) : Option Elements := do
  walk (l.next m) (l.getValue m) (l.nodes.entries.length + 1) (← l.first m)

def backward (m : Memory) (l : LinkedList) : Option Elements := do
  walk (l.prev m) (l.getValue m) (l.nodes.entries.length + 1) (← l.last m)

end Lists

abbrev Sequences := ListId -> Option Elements

/-- The sequences of the lists, as they are seen by walking through them. -/
def Lists.sequences (w : Lists) : Sequences := fun h =>
  (w.lists h).bind fun l => Lists.forward w.memory l

/-!
## The calls on sequences
-/

/-- What a call does to the sequences, and what it returns. -/
def Specifies (q : Sequences) (ret : Cell) (q' : Sequences) : Call -> Prop
  | .create h => ret = 0 ∧ q' = update q h (some [])
  | .pushFront h value => exists xs, q h = some xs ∧ ret ≠ 0 ∧ ret ∉ keys xs ∧
      q' = update q h (some ((ret, value) :: xs))
  | .pushBack h value => exists xs, q h = some xs ∧ ret ≠ 0 ∧ ret ∉ keys xs ∧
      q' = update q h (some (xs ++ [(ret, value)]))
  | .popFront h => exists xs, q h = some xs ∧ ret = (xs.head?.map Prod.snd).getD 0 ∧
      q' = update q h (some xs.tail)
  | .popBack h => exists xs, q h = some xs ∧ ret = (xs.getLast?.map Prod.snd).getD 0 ∧
      q' = update q h (some xs.dropLast)
  | .remove h id => exists xs, q h = some xs ∧ ret = xs.getValue id ∧
      q' = update q h (some (xs.remove id))
  | .moveToFront h id => exists xs, q h = some xs ∧ ret = 0 ∧
      q' = update q h (some (xs.moveToFront id))
  | .moveToBack h id => exists xs, q h = some xs ∧ ret = 0 ∧
      q' = update q h (some (xs.moveToBack id))
  | .getValue h id => exists xs, q h = some xs ∧ ret = xs.getValue id ∧ q' = q
  | .setValue h id value => exists xs, q h = some xs ∧ ret = 0 ∧
      q' = update q h (some (xs.setValue id value))
  | .first h => exists xs, q h = some xs ∧ ret = xs.first ∧ q' = q
  | .last h => exists xs, q h = some xs ∧ ret = xs.last ∧ q' = q
  | .next h id => exists xs, q h = some xs ∧ ret = xs.next id ∧ q' = q
  | .prev h id => exists xs, q h = some xs ∧ ret = xs.prev id ∧ q' = q
  | .size h => exists xs, q h = some xs ∧ ret = BitVec.ofNat 32 xs.length ∧ q' = q
  | .clear h => exists xs, q h = some xs ∧ ret = 0 ∧ q' = update q h (some [])
  | .deepCopy h copy => exists xs ys, q h = some xs ∧ ret = 0 ∧ DistinctKeys ys ∧
      0 ∉ keys ys ∧ ys.map Prod.snd = xs.map Prod.snd ∧
      q' = update q copy (some ys)
  | .close h => exists xs, q h = some xs ∧ ret = 0 ∧ q' = update q h none

/-- The call names an id that its list does not have. -/
def Unknown (q : Sequences) : Call -> Prop
  | .remove h id | .moveToFront h id | .moveToBack h id | .getValue h id | .setValue h id _
  | .next h id | .prev h id => forall xs, q h = some xs -> id ∉ keys xs
  | _ => False

/-- The lists that a call needs are there. -/
def Possible (w : Lists) : Call -> Prop
  | .create h => w.lists h = none
  | .pushFront h _ | .pushBack h _ | .popFront h | .popBack h | .remove h _ | .moveToFront h _
  | .moveToBack h _ | .getValue h _ | .setValue h _ _ | .first h | .last h | .next h _
  | .prev h _ | .size h | .clear h | .close h => (w.lists h).isSome
  | .deepCopy h copy => (w.lists h).isSome ∧ w.lists copy = none

/-!
## Counting ids
-/

/-- The lists, and for each of them how many nodes have been pushed without a recycled id
since it was last cleared. -/
structure Counted where
  lists : Lists
  fresh : ListId -> Nat

def Lists.countsId (w : Lists) (h : ListId) : Bool :=
  (w.lists h).any fun l => l.ids.freeIds = []

namespace Counted

def count (s : Counted) : Call -> ListId -> Nat
  | .pushFront h _ | .pushBack h _ =>
    if s.lists.countsId h then update s.fresh h (s.fresh h + 1) else s.fresh
  | .create h | .clear h => update s.fresh h 0
  -- The copy is made by pushing every node of the list.
  | .deepCopy h copy => update s.fresh copy
      ((s.lists.lists h).elim 0 fun l => l.nodes.entries.length)
  | _ => s.fresh

end Counted

/-- The lists with the calls of plugins. -/
def plugins : System Counted Call where
  init := ⟨.init, fun _ => 0⟩
  step := fun c s => (s.lists.call c).map fun result => ⟨result.2, s.count c⟩

/-- Fewer than 2^32 - 1 nodes are pushed without a recycled id. -/
def Room (s : Counted) : Call -> Prop
  | .pushFront h _ | .pushBack h _ =>
    s.lists.countsId h = true -> s.fresh h + 1 < 2 ^ 32 - 1
  | _ => True

instance (s : Counted) (c : Call) : Decidable (Room s c) := by
  cases c <;> unfold Room <;> infer_instance

end Async2.Collections
