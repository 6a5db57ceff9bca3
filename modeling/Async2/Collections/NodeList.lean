import Async2.Collections.Operations
import Async2.Foundation.TransitionSystem

/-!
# Lists of nodes

A linked list without its cells: the elements in order and the supply of ids.  The caches are
modelled over these lists.  The calls that change such a list change a linked list in memory
alike, and then both have the same answers.
-/

namespace Async2.Collections

open AssocList (keys)
open TransitionSystem

structure NodeList where
  elements : Elements
  ids : IdSupply

namespace NodeList

def create : NodeList := ⟨[], .init⟩

def pushFront (l : NodeList) (value : Cell) : NodeId × NodeList :=
  (l.ids.next.1, ⟨(l.ids.next.1, value) :: l.elements, l.ids.next.2⟩)

def moveToFront (l : NodeList) (id : NodeId) : NodeList :=
  { l with elements := l.elements.moveToFront id }

def remove (l : NodeList) (id : NodeId) : NodeList :=
  if id ∈ keys l.elements then ⟨l.elements.remove id, l.ids.recycle id⟩ else l

def getValue (l : NodeList) (id : NodeId) : Cell := l.elements.getValue id

def last (l : NodeList) : NodeId := l.elements.last

def prev (l : NodeList) (id : NodeId) : NodeId := l.elements.prev id

def size (l : NodeList) : Cell := BitVec.ofNat 32 l.elements.length

/-- The ids that have been counted. -/
def count (l : NodeList) : Nat := l.ids.count (keys l.elements)

/-!
## Linked lists
-/

/-- The linked list has the elements and the supply of ids. -/
structure Realizes (m : Memory) (ll : LinkedList) (l : NodeList) : Prop where
  elements : exists items, Represents m ll items ∧ Placed.elements items = l.elements
  ids_eq : ll.ids = l.ids

variable {m : Memory} {ll : LinkedList} {l : NodeList}

theorem realizes_create (m : Memory) :
    Realizes (LinkedList.create m).1 (LinkedList.create m).2 create :=
  ⟨⟨[], represents_create m, rfl⟩, rfl⟩

section

variable (h : Realizes m ll l)
include h

theorem Realizes.pushFront (value : Cell)
    (hroom : l.ids.freeIds = [] -> l.count + 1 < IdSupply.period) :
    exists m' ll', ll.pushFront m value = some ((l.pushFront value).1, m', ll') ∧
      Realizes m' ll' (l.pushFront value).2 := by
  rcases h.elements with ⟨items, hrep, helements⟩
  have hcount : ll.ids.freeIds = [] ->
      ll.ids.count (Placed.ids items) + 1 < IdSupply.period := by
    unfold Placed.ids
    rw [h.ids_eq, helements]
    exact hroom
  rcases hrep.pushFront hcount value with ⟨m', hpush, hperforms⟩
  rw [h.ids_eq] at hpush hperforms
  refine ⟨m', _, hpush, ⟨_, hperforms.represents, ?_⟩, ?_⟩
  · exact congrArg _ helements
  · change ll.ids.next.2 = l.ids.next.2
    rw [h.ids_eq]

theorem Realizes.moveToFront (id : NodeId) :
    exists m', ll.moveToFront m id = some m' ∧ Realizes m' ll (l.moveToFront id) := by
  rcases h.elements with ⟨items, hrep, helements⟩
  rcases hrep.moveToFront id with ⟨m', items', hmove, hperforms, helements'⟩
  refine ⟨m', hmove, ⟨items', hperforms.represents, ?_⟩, h.ids_eq⟩
  rw [helements', helements]
  rfl

theorem Realizes.remove (id : NodeId) :
    exists m' ll', ll.remove m id = some (l.getValue id, m', ll') ∧
      Realizes m' ll' (l.remove id) := by
  rcases h.elements with ⟨items, hrep, helements⟩
  unfold LinkedList.remove NodeList.remove NodeList.getValue
  rw [← helements]
  cases hfind : ll.nodes.find id with
  | none =>
    have hid : id ∉ keys (Placed.elements items) := hrep.find_eq_none hfind
    rw [Elements.getValue_of_not_mem hid, if_neg hid]
    exact ⟨m, ll, rfl, h⟩
  | some a =>
    rcases hrep.split hfind with ⟨ys, v, zs, rfl⟩
    rcases hrep.take with ⟨m', htake, hperforms⟩
    have hid : id ∈ keys (Placed.elements (ys ++ (a, id, v) :: zs)) := by
      rw [elements_append, AssocList.keys_append]
      exact List.mem_append_right _ List.mem_cons_self
    rw [if_pos hid]
    refine ⟨m', ll.without id, ?_, ⟨_, hperforms.represents, hrep.remove_middle.symm⟩, ?_⟩
    · rw [hrep.getValue_middle]
      exact htake
    · change ll.ids.recycle id = l.ids.recycle id
      rw [h.ids_eq]

/-- What a cache reads of its list. -/
structure ReadsAlike (m : Memory) (ll : LinkedList) (l : NodeList) : Prop where
  getValue : forall id, ll.getValue m id = some (l.getValue id)
  last : ll.last m = some l.last
  prev : forall id, ll.prev m id = some (l.prev id)
  size : ll.size = l.size

theorem Realizes.readsAlike : ReadsAlike m ll l := by
  rcases h.elements with ⟨items, hrep, helements⟩
  refine ⟨fun id => ?_, ?_, fun id => ?_, ?_⟩
  · rw [hrep.getValue, helements]
    rfl
  · rw [hrep.last, helements]
    rfl
  · rw [hrep.prev, helements]
    rfl
  · rw [hrep.size, helements]
    rfl

end

/-!
## Calls
-/

/-- The calls by which a cache changes its list. -/
inductive ListCall where
  | pushFront (value : Cell)
  | moveToFront (id : NodeId)
  | remove (id : NodeId)

def call (l : NodeList) : ListCall -> NodeList
  | .pushFront value => (l.pushFront value).2
  | .moveToFront id => l.moveToFront id
  | .remove id => l.remove id

/-- A list in memory. -/
def inMemory : System (Memory × LinkedList) ListCall where
  init := LinkedList.create .init
  step
    | .pushFront value, (m, ll) => (ll.pushFront m value).map Prod.snd
    | .moveToFront id, (m, ll) => (ll.moveToFront m id).map fun m => (m, ll)
    | .remove id, (m, ll) => (ll.remove m id).map Prod.snd

/-- There is an id for another node. -/
def Room (l : NodeList) : ListCall -> Prop
  | .pushFront _ => l.ids.freeIds = [] -> l.count + 1 < IdSupply.period
  | _ => True

theorem Realizes.call (h : Realizes m ll l) (call : ListCall) (hroom : l.Room call) :
    exists m' ll', inMemory.step call (m, ll) = some (m', ll') ∧
      Realizes m' ll' (l.call call) := by
  cases call with
  | pushFront value =>
    rcases h.pushFront value hroom with ⟨m', ll', hpush, h'⟩
    exact ⟨m', ll', congrArg (Option.map Prod.snd) hpush, h'⟩
  | moveToFront id =>
    rcases h.moveToFront id with ⟨m', hmove, h'⟩
    exact ⟨m', ll, congrArg (Option.map _) hmove, h'⟩
  | remove id =>
    rcases h.remove id with ⟨m', ll', hremove, h'⟩
    exact ⟨m', ll', congrArg (Option.map Prod.snd) hremove, h'⟩

/-- The list is the outcome of calls which have, in memory, a list with the same answers. -/
def RunsInMemory (l : NodeList) : Prop :=
  exists calls m ll, calls.foldl NodeList.call .create = l ∧
    inMemory.run calls inMemory.init = some (m, ll) ∧ Realizes m ll l ∧ ReadsAlike m ll l

theorem runsInMemory_create : RunsInMemory create :=
  have h := realizes_create .init
  ⟨[], _, _, rfl, rfl, h, h.readsAlike⟩

theorem RunsInMemory.call (h : RunsInMemory l) (call : ListCall) (hroom : l.Room call) :
    RunsInMemory (l.call call) := by
  rcases h with ⟨calls, m, ll, rfl, hrun, hrealizes, _⟩
  rcases hrealizes.call call hroom with ⟨m', ll', hstep, h'⟩
  refine ⟨calls ++ [call], m', ll', List.foldl_concat .., ?_, h', h'.readsAlike⟩
  rw [inMemory.run_append calls [call] hrun, System.run, hstep]
  rfl

end NodeList

end Async2.Collections
