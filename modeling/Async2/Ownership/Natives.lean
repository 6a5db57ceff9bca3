import Async2.Hjson.OnHeap
import Async2.Json.OnHeap
import Async2.MsgPack.OnHeap
import Async2.Ownership.Access
import Async2.Ownership.Merge
import Async2.Ownership.Text
import Async2.Foundation.TransitionSystem

/-!
# The data natives

A plugin works on the nodes through handles.  A handle is a data handle on a node or an
iterator over a map; either holds a reference.  A native looks its handles up, works on
the nodes and may make or free handles.  Each family of natives is written once; the
natives themselves are listed in `Surface`.

The id of a new handle is an argument: any unused id, or 0 if there is none left.  A node
that is sent is a copy that the event thread gives back later.

A position in a hash map is valid as long as no key is added or removed.  The model counts
these changes for every map, and a position remembers the count.
-/

namespace Async2.Ownership

/-!
## Handles
-/

inductive IteratorType where
  | object | intMap
deriving DecidableEq

/-- The map that an iterator of a type goes over. -/
def IteratorType.dataType : IteratorType -> DataType
  | .object => .object
  | .intMap => .intMap

/-- An iterator with the key and the value of its last step. -/
structure DataIterator where
  type : IteratorType
  node : Nat
  version : BitVec 24
  position : Nat
  epoch : Nat
  key : Option MapKey
  value : Option Nat

inductive Handle where
  | json (node : Nat)
  | iterator (it : DataIterator)

def Handle.node : Handle -> Nat
  | .json node => node
  | .iterator it => it.node

structure State where
  heap : NodeHeap
  handles : Dict Int Handle
  /-- The roots of copies that the event thread has not given back yet. -/
  sent : List Nat
  /-- How often the keys of the map at an address have changed. -/
  epoch : Nat -> Nat

namespace State

def init : State where
  heap := .empty
  handles := .empty
  sent := []
  epoch := fun _ => 0

def getDataHandle (s : State) (id : Int) : Option Nat :=
  match s.handles.find id with
  | some (.json node) => some node
  | _ => none

def getDataIterator (s : State) (id : Int) : Option DataIterator :=
  match s.handles.find id with
  | some (.iterator it) => some it
  | _ => none

/-- Store a handle that comes with its reference; without an id the object is deleted. -/
def createHandle (s : State) (hd : Handle) (id : Int) : Run (Answer × State) :=
  if id = 0 then do
    let h ← orFreed (s.heap.release hd.node)
    return (.handle 0, { s with heap := h })
  else return (.handle id, { s with handles := s.handles.insert id hd })

def freeHandle (s : State) (id : Int) : Run State :=
  match s.handles.find id with
  | none => return s
  | some hd => do
    let h ← orFreed (s.heap.release hd.node)
    return { s with heap := h, handles := s.handles.erase id }

/-- Continue with the node of a data handle. -/
def withData (s : State) (id : Int) (invalid : Answer) (f : Nat -> Run (Answer × State)) :
    Run (Answer × State) :=
  match s.getDataHandle id with
  | none => return (invalid, s)
  | some n => f n

/-- A new handle on a node that is in use already. -/
def wrapChildNode (s : State) (val : Nat) (id : Int) : Run (Answer × State) := do
  let h ← orFreed (s.heap.incref val)
  createHandle { s with heap := h } (.json val) id

end State

/-!
## Making nodes
-/

/-- The parts of the environment that the natives use. -/
structure Env where
  iterate : Bytes -> Except String Json.OdValue
  avx2 : Bool
  build : MsgPack.Build
  widen : UInt32 -> UInt64
  layout : Layout

/-- What a native makes a node from. -/
inductive Source where
  | object
  | array
  | intMap
  | json (data : Bytes)
  | hjson (data : Bytes)
  | msgPack (maxElements : Nat) (data : Bytes)

/-- Make the node, or none if a text cannot be read. -/
def Source.make (env : Env) (h : NodeHeap) : Source -> Run (Option Nat × NodeHeap)
  | .object => return (some h.next, (makeNode (.object .empty) h).2)
  | .array => return (some h.next, (makeNode (.array []) h).2)
  | .intMap => return (some h.next, (makeNode (.intMap .empty) h).2)
  | .json data => orFreed (Json.OnHeap.dataParseJson env.iterate data h)
  | .hjson data =>
    match Hjson.OnHeap.hjsonParse (Hjson.initScanner env.avx2) data h with
    | some (.ok root, h) => return (some root, h)
    | some (.null, h) => return (none, h)
    | some (.thrown, _) => .error .uncaught
    | some (.stuck, _) => .error .freed
    | none => .error .freed
  | .msgPack maxElements data =>
    match MsgPack.OnHeap.msgPackParse env.build env.widen maxElements data h with
    | some (.ok root, h) => return (some root, h)
    | some (.null, h) => return (none, h)
    | some (.fault, _) => .error .outside
    | some (.thrown, _) => .error .uncaught
    | none => .error .freed

/-!
## Mutators
-/

inductive Scalar where
  | null
  | bool (b : Bool)
  | int (v : Int64)
  | float (bits : UInt64)
  | string (s : Bytes)

/-- The node of a scalar; strings come from C strings. -/
def Scalar.content : Scalar -> Content
  | .null => .null
  | .bool b => .bool b
  | .int v => .int v
  | .float bits => .float bits
  | .string s => .string (cStr s)

inductive Mutator where
  | set (key : Bytes) (val : Scalar)
  | intMapSet (key : Int64) (val : Scalar)
  | arraySet (index : Nat) (val : Scalar)
  | arrayAppend (val : Scalar)
  | removeKey (key : Bytes)
  | intMapRemoveKey (key : Int64)
  | arrayRemove (index : Nat)
  | objectClear
  | intMapClear
  | arrayClear

/-- Make a scalar and store it, if the node has the type. -/
def setScalar (type : DataType) (store : NodeHeap -> Nat -> Run NodeHeap) (val : Scalar)
    (h : NodeHeap) (n : Nat) : Run (Answer × NodeHeap) := do
  let c ← contentAt h n
  if c.type ≠ type then return (.void, h)
  else do
    let (v, h) := makeNode val.content h
    let h ← store h v
    return (.void, h)

def reported (res : Option (Bool × NodeHeap)) : Run (Answer × NodeHeap) := do
  let (removed, h) ← orFreed res
  return (.flag removed, h)

def unreported (res : Option NodeHeap) : Run (Answer × NodeHeap) := do
  let h ← orFreed res
  return (.void, h)

/-- A mutator on the node of its handle. -/
def Mutator.run (h : NodeHeap) (n : Nat) : Mutator -> Run (Answer × NodeHeap)
  | .set key val =>
    setScalar .object (fun h v => orFreed (objInsert h n (cStr key) v)) val h n
  | .intMapSet key val =>
    setScalar .intMap (fun h v => orFreed (intMapInsert h n key v)) val h n
  | .arraySet index val =>
    let (v, h) := makeNode val.content h
    unreported (arrSet h n index v)
  | .arrayAppend val => setScalar .array (fun h v => pushBack h n v) val h n
  | .removeKey key => reported (objErase h n (cStr key))
  | .intMapRemoveKey key => reported (intMapErase h n key)
  | .arrayRemove index => reported (arrRemove h n index)
  | .objectClear => unreported (objClear h n)
  | .intMapClear => unreported (Ownership.intMapClear h n)
  | .arrayClear => unreported (arrClear h n)

/-- Where a native stores the node of another handle. -/
inductive Slot where
  | member (key : Bytes)
  | intMember (key : Int64)
  | element (index : Nat)
  | append

/-- Store a reference that the caller gives away.  Appending does not look at the type of
the node. -/
def Slot.store (h : NodeHeap) (n val : Nat) : Slot -> Run NodeHeap
  | .member key => orFreed (objInsert h n (cStr key) val)
  | .intMember key => orFreed (intMapInsert h n key val)
  | .element index => orFreed (arrSet h n index val)
  | .append => pushBack h n val

inductive Merger where
  | object (overwrite : Bool)
  | intMap (overwrite : Bool)
  | extend

def Merger.run (h : NodeHeap) (n other : Nat) : Merger -> Run NodeHeap
  | .object overwrite => orFreed (objMerge h n other overwrite)
  | .intMap overwrite => orFreed (intMapMerge h n other overwrite)
  | .extend => orFreed (arrExtend h n other)

/-!
## Queries
-/

inductive Query where
  | get (g : Getter) (at_ : Locator)
  | getStrict (g : Getter) (at_ : Locator)
  | objectSize
  | arrayLength
  | intMapSize
  | hasKey (key : Bytes)
  | intMapHasKey (key : Int64)
  | buffer
  | serialize (pretty : Bool)
  | msgPackSerialize
  | memorySize

/-- The answer for a handle that is not a data handle. -/
def Query.invalid : Query -> Answer
  | .buffer => .bytes []
  | .msgPackSerialize => .bytes []
  | _ => .thrown

def mapSize {K : Type} (M : MapKind K) (type : DataType) (h : NodeHeap) (n : Nat) :
    Run Answer := do
  let c ← contentAt h n
  if c.type ≠ type then return .size 0
  else return .size (← getMap M c).entries.length

/-- Read the node that a locator leads to. -/
def readAt (h : NodeHeap) (n : Nat) (at_ : Locator) (missing : Answer)
    (read : Content -> Run Answer) : Run Answer := do
  match ← at_.find h n with
  | none => return missing
  | some val => do
    let c ← contentAt h val
    read c

def Query.run (env : Env) (h : NodeHeap) (n : Nat) : Query -> Run Answer
  | .get g at_ => readAt h n at_ g.default g.lenient
  | .getStrict g at_ => readAt h n at_ g.default g.strict
  | .objectSize => mapSize objects .object h n
  | .intMapSize => mapSize intMaps .intMap h n
  | .arrayLength => do
    let c ← contentAt h n
    if c.type ≠ .array then return .size 0
    else return .size (← c.getArr).length
  | .hasKey key => do return .flag (← orFreed (objFind h n (cStr key))).isSome
  | .intMapHasKey key => do return .flag (← orFreed (intMapFind h n key)).isSome
  | .buffer => do
    let c ← contentAt h n
    if c.type ≠ .binary then return .bytes []
    else return .bytes (← c.getBin)
  | .serialize pretty => do return .bytes (← orFreed (dataSerializeJson h n pretty))
  | .msgPackSerialize => do return .bytes (← orFreed (Ownership.msgPackSerialize h n))
  | .memorySize => do return .size (← orFreed (estimateBytes env.layout h.next h n))

/-!
## Iterators
-/

/-- The entries of the map of an iterator, `Obj()` or `Intmap()`. -/
def IteratorType.entries : IteratorType -> Content -> Run (List (MapKey × Nat))
  | .object, c => do
    return (← getMap objects c).entries.map fun e => (.member e.1, e.2)
  | .intMap, c => do
    return (← getMap intMaps c).entries.map fun e => (.intMember e.1, e.2)

/-- An iterator at the begin of the map of a node of its type. -/
def DataIterator.create (type : IteratorType) (s : State) (n : Nat) : Run DataIterator := do
  let node ← orFreed (s.heap.read n)
  let _ ← type.entries node.content
  return ⟨type, n, node.version, 0, s.epoch n, none, none⟩

/-- The key at the position and the iterator behind it, if there is one and the container
has the version of the iterator. -/
def DataIterator.next (it : DataIterator) (s : State) :
    Run (Option (MapKey × DataIterator)) := do
  let node ← orFreed (s.heap.read it.node)
  if node.version ≠ it.version then return none
  else do
    let entries ← it.type.entries node.content
    if s.epoch it.node ≠ it.epoch then .error .position
    else
      match entries[it.position]? with
      | none => return none
      | some (key, val) =>
        return some (key,
          { it with position := it.position + 1, key := some key, value := some val })

/-!
## Natives
-/

inductive Native where
  /-- Create or parse. -/
  | make (source : Source) (id : Int)
  /-- Read something at or below a node. -/
  | query (json : Int) (q : Query)
  | equals (json other : Int)
  /-- A handle on a node at or below another one. -/
  | wrap (json : Int) (at_ : Locator) (filter : ChildFilter) (id : Int)
  | copy (json : Int) (id : Int)
  | mutate (json : Int) (m : Mutator)
  /-- Store the node of a handle, which is used up. -/
  | setObject (json : Int) (slot : Slot) (child : Int)
  | merge (json : Int) (m : Merger) (other : Int)
  | close (json : Int)
  | iterCreate (json : Int) (type : IteratorType) (id : Int)
  | iterNext (iter : Int) (type : IteratorType)
  | iterGet (iter : Int) (g : Getter)
  | iterGetObject (iter : Int) (id : Int)
  | iterClose (iter : Int)
  /-- Take a copy for the event thread; the handle is used up. -/
  | send (json : Int)
  /-- Free any handle: a request or connection is not there, or the plugin is unloaded. -/
  | free (id : Int)
  /-- The event thread gives a copy back. -/
  | delivered (root : Nat)

def State.withHeap (s : State) (res : Run (Answer × NodeHeap)) : Run (Answer × State) := do
  let (answer, h) ← res
  return (answer, { s with heap := h })

/-- A native, but for the count of the changes of keys. -/
def Native.call (env : Env) (s : State) : Native -> Run (Answer × State)
  | .make source id => do
    let (root, h) ← source.make env s.heap
    match root with
    | none => return (.handle 0, { s with heap := h })
    | some root => State.createHandle { s with heap := h } (.json root) id
  | .query json q => s.withData json q.invalid fun n => do
    return (← q.run env s.heap n, s)
  | .equals json other => s.withData json .thrown fun n =>
    s.withData other (.flag false) fun n' => do
      return (.flag (← orFreed (nodesEqual s.heap n n')), s)
  | .wrap json at_ filter id => s.withData json .thrown fun n => do
    match ← at_.find s.heap n with
    | none => return (.handle 0, s)
    | some val => do
      let c ← contentAt s.heap val
      if filter.admits c.type then s.wrapChildNode val id
      else return (.handle 0, s)
  | .copy json id => s.withData json .thrown fun n => do
    let (root, h) ← orFreed (copyNode n s.heap)
    State.createHandle { s with heap := h } (.json root) id
  | .mutate json m => s.withData json .thrown fun n => s.withHeap (m.run s.heap n)
  | .setObject json slot child => s.withData json .thrown fun n =>
    s.withData child .void fun val =>
      if n = val then return (.thrown, s)
      else do
        let h ← orFreed (s.heap.incref val)
        let h ← slot.store h n val
        let s ← State.freeHandle { s with heap := h } child
        return (.void, s)
  | .merge json m other => s.withData json .thrown fun n =>
    s.withData other .void fun n' =>
      if n = n' then return (.void, s)
      else do
        let h ← m.run s.heap n n'
        return (.void, { s with heap := h })
  | .close json => s.withData json .void fun _ => do return (.void, ← s.freeHandle json)
  | .iterCreate json type id => s.withData json (.handle 0) fun n => do
    let c ← contentAt s.heap n
    if c.type ≠ type.dataType then return (.handle 0, s)
    else do
      let it ← DataIterator.create type s n
      let h ← orFreed (s.heap.incref n)
      State.createHandle { s with heap := h } (.iterator it) id
  | .iterNext iter type =>
    match s.getDataIterator iter with
    | none => return (.flag false, s)
    | some it =>
      if it.type ≠ type then return (.flag false, s)
      else do
        match ← it.next s with
        | none => return (.flag false, s)
        | some (key, it') =>
          return (.key key, { s with handles := s.handles.insert iter (.iterator it') })
  | .iterGet iter g =>
    match (s.getDataIterator iter).bind DataIterator.value with
    | none => return (g.default, s)
    | some val => do
      let c ← contentAt s.heap val
      return (← g.lenient c, s)
  | .iterGetObject iter id =>
    match (s.getDataIterator iter).bind DataIterator.value with
    | none => return (.handle 0, s)
    | some val => do
      let c ← contentAt s.heap val
      if ChildFilter.container.admits c.type then s.wrapChildNode val id
      else return (.handle 0, s)
  | .iterClose iter =>
    match s.getDataIterator iter with
    | none => return (.void, s)
    | some _ => do return (.void, ← s.freeHandle iter)
  | .send json => s.withData json (.code 2) fun n => do
    let (root, h) ← orFreed (copyNode n s.heap)
    let s ← State.freeHandle { s with heap := h, sent := root :: s.sent } json
    return (.code 0, s)
  | .free id => do return (.code 2, ← s.freeHandle id)
  | .delivered root =>
    if root ∈ s.sent then do
      let h ← orFreed (s.heap.release root)
      return (.void, { s with heap := h, sent := s.sent.erase root })
    else return (.void, s)

def keysAt (h : NodeHeap) (n : Nat) : List MapKey :=
  match h.read n with
  | some ⟨_, .object obj⟩ => obj.entries.map fun e => .member e.1
  | some ⟨_, .intMap intmap⟩ => intmap.entries.map fun e => .intMember e.1
  | _ => []

def countChanges (h h' : NodeHeap) (epoch : Nat -> Nat) : Nat -> Nat :=
  fun n => if keysAt h' n = keysAt h n then epoch n else epoch n + 1

def Native.run (env : Env) (a : Native) (s : State) : Run (Answer × State) := do
  let (answer, s') ← a.call env s
  return (answer, { s' with epoch := countChanges s.heap s'.heap s.epoch })

/-- The id that a native may give to a new handle. -/
def Native.newId : Native -> Option Int
  | .make _ id => some id
  | .wrap _ _ _ id => some id
  | .copy _ id => some id
  | .iterCreate _ _ id => some id
  | .iterGetObject _ id => some id
  | _ => none

def Native.FreshId (a : Native) (s : State) : Prop :=
  forall id, a.newId = some id -> s.handles.find id = none

theorem Native.freshId_of_none {a : Native} {s : State} (h : a.newId = none) : a.FreshId s := by
  intro id hid
  rw [h] at hid
  cases hid

instance (a : Native) (s : State) : Decidable (a.FreshId s) :=
  inferInstanceAs (Decidable (forall id, id ∈ a.newId -> s.handles.find id = none))

/-- The plugins and the event thread call natives one after another. -/
def natives (env : Env) : TransitionSystem.System State Native where
  init := .init
  step := fun a s =>
    if a.FreshId s then
      match a.run env s with
      | .ok (_, s') => some s'
      | .error _ => none
    else none

end Async2.Ownership
