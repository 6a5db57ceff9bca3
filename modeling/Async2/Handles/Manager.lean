import Mathlib.Algebra.Order.Ring.Nat
import Mathlib.Data.Finset.Erase
import Mathlib.Data.Finset.Insert
import Async2.Foundation.Dict
import Async2.Foundation.TransitionSystem

/-!
# The handle manager

Handles are nonzero 32-bit ids of objects.  A cursor goes through the ids, wraps around and
skips the ids that are in use and 0, which stands for no handle.  A second table has the ids
that each plugin owns.

The loop of `CreateHandle` that looks for an id is written with fuel; without enough of it
there is no result.  The objects behind the handles are not part of this model.
-/

namespace Async2.Handles

/-- The ids, an `int` in the source. -/
abbrev HandleId := BitVec 32

/-- The address of a plugin context. -/
abbrev Context := Nat

inductive HandleType where
  | httpRequest
  | jsonValue
  | tcpSocket
  | udpSocket
  | wsSocket
  | linkedList
  | iterator
  | none
deriving DecidableEq

structure Handle where
  type : HandleType
  pointer : Nat
  owner : Option Context
  closed : Bool
deriving DecidableEq

structure HandleManager where
  nextHandle : HandleId
  usedHandles : Dict HandleId Handle
  pluginHandles : Dict Context (Finset HandleId)

/-!
## The search for an id
-/

/-- The loop of `CreateHandle` from a candidate on.  It ends with an id that is not in use, or
with 0 when it is back at its start. -/
def scan (used : HandleId -> Bool) (start : HandleId) : Nat -> HandleId -> Option HandleId
  | 0, _ => none
  | fuel + 1, candidate =>
    let candidate := if candidate = 0 then 1 else candidate
    if used candidate = false then some candidate
    else if candidate + 1 = start then some 0
    else scan used start fuel (candidate + 1)

namespace HandleManager

def init : HandleManager where
  nextHandle := 1
  usedHandles := .empty
  pluginHandles := .empty

def isUsed (m : HandleManager) (id : HandleId) : Bool := (m.usedHandles.find id).isSome

/-- `plugin_handles_[owner].insert(id)` -/
def addToPluginSet (m : HandleManager) (owner : Option Context) (id : HandleId) : HandleManager :=
  match owner with
  | none => m
  | some ctx =>
    let ids := (m.pluginHandles.find ctx).getD ∅
    { m with pluginHandles := m.pluginHandles.insert ctx (insert id ids) }

def removeFromPluginSet (m : HandleManager) (owner : Option Context) (id : HandleId) :
    HandleManager :=
  match owner with
  | none => m
  | some ctx =>
    match m.pluginHandles.find ctx with
    | none => m
    | some ids =>
      if ids.erase id = ∅ then { m with pluginHandles := m.pluginHandles.erase ctx }
      else { m with pluginHandles := m.pluginHandles.insert ctx (ids.erase id) }

/-- The most turns that the search can take. -/
def searchFuel : Nat := 2 ^ 32

/-- The new id, or 0, with the manager; nothing if the search does not end. -/
def createHandle (m : HandleManager) (pointer : Nat) (type : HandleType)
    (owner : Option Context) : Option (HandleId × HandleManager) :=
  match scan m.isUsed m.nextHandle searchFuel m.nextHandle with
  | none => none
  | some id =>
    if id = 0 then some (0, m)
    else
      let m' : HandleManager :=
        { m with
          nextHandle := id + 1
          usedHandles := m.usedHandles.insert id ⟨type, pointer, owner, false⟩ }
      some (id, m'.addToPluginSet owner id)

def freeHandle (m : HandleManager) (id : HandleId) : HandleManager :=
  match m.usedHandles.find id with
  | none => m
  | some h =>
    let m := m.removeFromPluginSet h.owner id
    { m with usedHandles := m.usedHandles.erase id }

def markHandleClosed (m : HandleManager) (id : HandleId) : HandleManager :=
  match m.usedHandles.find id with
  | none => m
  | some h => { m with usedHandles := m.usedHandles.insert id { h with closed := true } }

def transferHandle (m : HandleManager) (id : HandleId) (newOwner : Option Context) :
    Bool × HandleManager :=
  match m.usedHandles.find id with
  | none => (false, m)
  | some h =>
    if h.closed then (false, m)
    else if h.owner = newOwner then (true, m)
    else
      let m := m.removeFromPluginSet h.owner id
      let m := { m with usedHandles := m.usedHandles.insert id { h with owner := newOwner } }
      (true, m.addToPluginSet newOwner id)

/-- Take the handles of a plugin, which have no owner afterwards. -/
def takePluginHandles (m : HandleManager) (ctx : Context) :
    List (HandleId × Handle) × HandleManager :=
  match m.pluginHandles.find ctx with
  | none => ([], m)
  | some ids =>
    let used := m.usedHandles.mapValues fun id h =>
      if id ∈ ids then { h with owner := none } else h
    (used.entries.filter fun e => e.1 ∈ ids,
      { m with usedHandles := used, pluginHandles := m.pluginHandles.erase ctx })

end HandleManager

/-!
## Sequences of calls
-/

inductive Call where
  | createHandle (pointer : Nat) (type : HandleType) (owner : Option Context)
  | freeHandle (id : HandleId)
  | markHandleClosed (id : HandleId)
  | transferHandle (id : HandleId) (newOwner : Option Context)
  | takePluginHandles (ctx : Context)

def Call.run (m : HandleManager) : Call -> Option HandleManager
  | .createHandle pointer type owner => (m.createHandle pointer type owner).map Prod.snd
  | .freeHandle id => some (m.freeHandle id)
  | .markHandleClosed id => some (m.markHandleClosed id)
  | .transferHandle id newOwner => some (m.transferHandle id newOwner).2
  | .takePluginHandles ctx => some (m.takePluginHandles ctx).2

/-- The id that a call gives out. -/
def Call.returned (m : HandleManager) : Call -> Option HandleId
  | .createHandle pointer type owner => (m.createHandle pointer type owner).map Prod.fst
  | _ => none

/-- The manager and the calls of the game thread. -/
def manager : TransitionSystem.System HandleManager Call where
  init := .init
  step := fun c m => c.run m

end Async2.Handles
