import Async2.Http.Conservation

/-!
# Natives that reach requests by the way

Some natives free a handle that they were given as an argument without looking
at its type: the natives that take a data handle as the body of a request or of
a message free it even when the first argument is refused.  The dispatcher of
the socket events frees the handle that an event names.  Handles of requests may
be passed there like any other.
-/

namespace Async2.Http

open TransitionSystem

namespace State

/-- The check of the natives that change a request: it is invalid or with the event thread. -/
def unavailable (s : State) (id : HandleId) : Bool :=
  match s.getHttpRequest id with
  | none => true
  | some a => (s.mem a).inEventThread

/-- `SetBodyJSON` and `SetBodyMsgPack`.  Once the request is accepted, only a
data handle is freed. -/
def setBodyNode (s : State) (id json : HandleId) : State :=
  if s.unavailable id then s.freeHandle json else s

/-- `WsSendNode`; `found` tells whether the first argument is a WebSocket. -/
def wsSendNode (s : State) (found : Bool) (json : HandleId) : State :=
  if found then s else s.freeHandle json

def dropOwner (s : State) (id : HandleId) (h : Handle) : State :=
  match h.owner with
  | some owner => s.removeFromPluginSet owner id
  | none => s

def adopt (s : State) (id : HandleId) (h : Handle) (target : Option Context) : State :=
  let s := { s with
    usedHandles := Function.update s.usedHandles id (some { h with owner := target }) }
  match target with
  | some ctx =>
    { s with
      pluginHandles :=
        Function.update s.pluginHandles ctx ((s.pluginHandles ctx).insert id) }
  | none => s

/-- Without a target the request is detached. -/
def transferHandle (s : State) (id : HandleId) (target : Option Context) : State :=
  match s.usedHandles id with
  | none => s
  | some h =>
    if h.closed ∨ h.owner = target then s
    else (s.dropOwner id h).adopt id h target

def httpCloseResult (s : State) (id : HandleId) : Int :=
  match s.getHttpRequest id with
  | none => 2
  | some _ => 0

end State

inductive Native where
  | http (action : Action)
  | setBodyNode (id json : HandleId)
  | wsSendNode (found : Bool) (json : HandleId)
  | setHandlePlugin (id : HandleId) (target : Option Context)
  /-- `DispatchSocketEvent` after the callback of a close event. -/
  | closeEvent (id : HandleId)

def Native.step (native : Native) (s : State) : Option State :=
  match native with
  | .http action => Http.step action s
  | .setBodyNode id json => if s.InPlugin then some (s.setBodyNode id json) else none
  | .wsSendNode found json => if s.InPlugin then some (s.wsSendNode found json) else none
  | .setHandlePlugin id target =>
    if s.InPlugin then some (s.transferHandle id target) else none
  | .closeEvent id =>
    if s.InPlugin ∧ s.delivering = none then some (s.freeHandle id) else none

/-- The HTTP subsystem with every native that can reach a request. -/
def natives : System State Native where
  init := State.init
  step := Native.step

/-!
## Considerate runs
-/

/-- The native executes, closes or frees the request `a` through its handle. -/
def Native.EndsOwn (s : State) (a : Address) : Native -> Prop
  | .http action => action.EndsRequest s a
  | _ => False

instance (s : State) (a : Address) : DecidablePred (Native.EndsOwn s a) := fun native => by
  cases native <;> dsimp only [Native.EndsOwn] <;> infer_instance

/-- The handle that the native frees without looking at its type. -/
def Native.freesUnseen (s : State) : Native -> Option HandleId
  | .setBodyNode id json => if s.unavailable id then some json else none
  | .wsSendNode found json => if found then none else some json
  | .closeEvent id => some id
  | .http _ | .setHandlePlugin _ _ => none

/-- The request is with the event thread or in its callback. -/
def State.InUse (s : State) (a : Address) : Prop :=
  (s.mem a).inEventThread = true ∨ s.delivering = some a

instance (s : State) (a : Address) : Decidable (s.InUse a) :=
  inferInstanceAs (Decidable (_ ∨ _))

/-- A callback does not execute or end the request that it is called for, and
nothing is freed unseen that is a request in use. -/
structure Considerate (s : State) (native : Native) : Prop where
  own : forall a, a ∈ s.delivering -> ¬ native.EndsOwn s a
  unseen : forall id, id ∈ native.freesUnseen s -> forall a, a ∈ s.pointerOf id -> ¬ s.InUse a

instance (s : State) (native : Native) : Decidable (Considerate s native) :=
  decidable_of_iff
    ((forall a, a ∈ s.delivering -> ¬ native.EndsOwn s a) ∧
      forall id, id ∈ native.freesUnseen s -> forall a, a ∈ s.pointerOf id -> ¬ s.InUse a)
    ⟨fun h => ⟨h.1, h.2⟩, fun h => ⟨h.own, h.unseen⟩⟩

end Async2.Http
