import Async2.Handles.Owners
import Async2.Socket.Event

/-!
# The handles of unloaded plugins

`OnPluginUnloaded` takes all handles of a plugin.  Handles are also created while events are
dispatched: for an accepted connection, for a parsed message and for a parsed response.  The
last two are created only if the plugin of the event is loaded.

The event thread may report any event of a socket at any time, and the game thread may free
or close any handle; only new connections are reported by listeners alone.
-/

namespace Async2.Unload

open TransitionSystem Handles Function Option HandleManager
open Socket (SocketEventType isCloseEvent)

abbrev Address := Nat

/-- A request or a socket. -/
structure Object where
  type : HandleType
  pluginContext : Context
  handleId : HandleId
  handleClosed : Bool
  inEventThread : Bool
  listening : Bool
deriving DecidableEq

def Object.new (type : HandleType) (ctx : Context) : Object where
  type := type
  pluginContext := ctx
  handleId := 0
  handleClosed := false
  inEventThread := false
  listening := false

structure SocketEvent where
  type : SocketEventType
  handleId : HandleId
  pluginCtx : Context
  handleClosed : Bool
  /-- The accepted socket, `accepted_handle_id`. -/
  accepted : Option Address
  /-- A message in a parse mode that has been or can be parsed. -/
  parsed : Bool
deriving DecidableEq

structure Extension where
  manager : HandleManager
  /-- `g_plugin_contexts` -/
  contexts : Finset Context
  objects : Address -> Option Object
  /-- `socket_done_queue` -/
  events : List SocketEvent
  /-- `done_queue` -/
  completed : List Address
  /-- The requests whose callbacks run. -/
  finishing : List HandleId

namespace Extension

def init : Extension where
  manager := .init
  contexts := ∅
  objects := fun _ => none
  events := []
  completed := []
  finishing := []

def setObject (s : Extension) (a : Address) (o : Object) : Extension :=
  { s with objects := update s.objects a (some o) }

def modify (s : Extension) (a : Address) (f : Object -> Object) : Extension :=
  { s with objects := update s.objects a ((s.objects a).map f) }

def freeHandle (s : Extension) (id : HandleId) : Extension :=
  { s with manager := s.manager.freeHandle id }

def markHandleClosed (s : Extension) (id : HandleId) : Extension :=
  { s with manager := s.manager.markHandleClosed id }

/-- `CreateHandle` for an object; without an id the object is deleted. -/
def register (s : Extension) (a : Address) (type : HandleType) (owner : Context) :
    Option Extension := do
  let (id, manager) ← s.manager.createHandle a type (some owner)
  let s := { s with manager := manager }
  if id = 0 then return { s with objects := update s.objects a none }
  else return s.modify a fun o => { o with handleId := id }

/-!
## Plugins
-/

def onPluginLoaded (s : Extension) (ctx : Context) : Extension :=
  { s with contexts := insert ctx s.contexts }

/-- One turn of the loop of `OnPluginUnloaded`. -/
def closeTaken (s : Extension) (e : HandleId × Handle) : Extension :=
  match e.2.type with
  | .httpRequest =>
    match s.objects e.2.pointer with
    | some request =>
      if request.inEventThread then
        (s.modify e.2.pointer fun o => { o with handleClosed := true }).markHandleClosed e.1
      else s.freeHandle e.1
    | none => s.freeHandle e.1
  | .tcpSocket => s.modify e.2.pointer fun o => { o with handleClosed := true }
  | .udpSocket => s.modify e.2.pointer fun o => { o with handleClosed := true }
  | .wsSocket => s.modify e.2.pointer fun o => { o with handleClosed := true }
  | .jsonValue => s.freeHandle e.1
  | .linkedList => s.freeHandle e.1
  | .iterator => s.freeHandle e.1
  | .none => s

def onPluginUnloaded (s : Extension) (ctx : Context) : Extension :=
  let (taken, manager) := s.manager.takePluginHandles ctx
  let s := { s with contexts := s.contexts.erase ctx, manager := manager }
  taken.foldl closeTaken s

/-!
## Natives
-/

/-- A native of a loaded plugin that makes an object with a handle. -/
def new (s : Extension) (ctx : Context) (type : HandleType) (a : Address) : Option Extension :=
  if ctx ∈ s.contexts ∧ s.objects a = none then
    (s.setObject a (.new type ctx)).register a type ctx
  else none

/-- `Native_SetHandlePlugin`: a plugin that can be named is loaded, and only requests may have
no owner. -/
def setHandlePlugin (s : Extension) (id : HandleId) : Option Context -> Option Extension
  | some target =>
    if target ∈ s.contexts then
      some { s with manager := (s.manager.transferHandle id (some target)).2 }
    else none
  | none =>
    match s.manager.usedHandles.find id with
    | some h =>
      if h.type = .httpRequest then
        some { s with manager := (s.manager.transferHandle id none).2 }
      else some s
    | none => some s

/-!
## The event thread
-/

/-- A listener of a socket that is not closed. -/
def listen (s : Extension) (a : Address) : Option Extension :=
  match s.objects a with
  | some sock =>
    if sock.type = .tcpSocket ∧ sock.handleClosed = false then
      some (s.setObject a { sock with listening := true })
    else none
  | none => none

/-- The connection has the context of its listener and no handle yet. -/
def onTcpNewConnection (s : Extension) (a client : Address) : Option Extension :=
  match s.objects a with
  | some listener =>
    if listener.listening ∧ listener.handleClosed = false ∧ s.objects client = none then
      let s := s.setObject client (.new .tcpSocket listener.pluginContext)
      some { s with
        events := s.events ++ [⟨.tcpAccepted, listener.handleId, listener.pluginContext, false,
          some client, false⟩] }
    else none
  | none => none

/-- Any other event of a socket. -/
def pushSocketEvent (s : Extension) (a : Address) (type : SocketEventType) (closed parsed : Bool) :
    Option Extension :=
  match s.objects a with
  | some sock =>
    if type = .tcpAccepted then none
    else some { s with
      events := s.events ++ [⟨type, sock.handleId, sock.pluginContext, closed, none, parsed⟩] }
  | none => none

def complete (s : Extension) (a : Address) : Option Extension :=
  match s.objects a with
  | some request =>
    if request.inEventThread then some { s with completed := s.completed ++ [a] } else none
  | none => none

/-!
## Dispatch
-/

def hasFunction (s : Extension) (ctx : Context) (valid : Bool) : Bool :=
  ctx ∈ s.contexts && valid

/-- `DispatchSocketEvent`; the callback itself runs natives before a close event frees its
handle, and after a new handle is created. -/
def dispatchSocketEvent (s : Extension) (evt : SocketEvent) (valid : Bool) (node : Address) :
    Option Extension :=
  if evt.handleClosed && !isCloseEvent evt.type then some s
  else
    match evt.type, evt.accepted with
    | .tcpAccepted, some client =>
      match s.objects client with
      | some sock => s.register client .tcpSocket sock.pluginContext
      | none => none
    | .wsMessage, _ =>
      if s.hasFunction evt.pluginCtx valid && evt.parsed then
        s.register node .jsonValue evt.pluginCtx
      else some s
    | type, _ => some (if isCloseEvent type then s.freeHandle evt.handleId else s)

def dispatch (s : Extension) (valid : Bool) (node : Address) : Option Extension :=
  match s.events with
  | [] => none
  | evt :: rest => { s with events := rest }.dispatchSocketEvent evt valid node

/-- `OnCompletedGameThread` up to its callback. -/
def onCompleted (s : Extension) (valid parsed : Bool) (node : Address) : Option Extension :=
  match s.completed with
  | [] => none
  | a :: rest =>
    match s.objects a with
    | none => none
    | some request =>
      let s := { s with completed := rest }
      let s := s.modify a fun o => { o with inEventThread := false }
      if s.hasFunction request.pluginContext valid then
        let s := { s with finishing := request.handleId :: s.finishing }
        if parsed && !request.handleClosed then
          s.register node .jsonValue request.pluginContext
        else some s
      else some (s.freeHandle request.handleId)

/-- What `OnCompletedGameThread` does after its callback. -/
def finish (s : Extension) : Option Extension :=
  match s.finishing with
  | [] => none
  | id :: rest => some ({ s with finishing := rest }.freeHandle id)

end Extension

inductive Action where
  | load (ctx : Context)
  | unload (ctx : Context)
  | new (ctx : Context) (type : HandleType) (a : Address)
  | free (id : HandleId)
  | markClosed (id : HandleId)
  | setHandlePlugin (id : HandleId) (target : Option Context)
  /-- `HttpExecute` -/
  | execute (a : Address)
  /-- `TcpClose`, `UdpClose` and `WsClose` -/
  | close (a : Address)
  | listen (a : Address)
  | newConnection (a client : Address)
  | event (a : Address) (type : SocketEventType) (closed parsed : Bool)
  | complete (a : Address)
  | dispatch (valid : Bool) (node : Address)
  | completed (valid parsed : Bool) (node : Address)
  | finish

def step (s : Extension) : Action -> Option Extension
  | .load ctx => some (s.onPluginLoaded ctx)
  | .unload ctx => some (s.onPluginUnloaded ctx)
  | .new ctx type a => s.new ctx type a
  | .free id => some (s.freeHandle id)
  | .markClosed id => some (s.markHandleClosed id)
  | .setHandlePlugin id target => s.setHandlePlugin id target
  | .execute a => some (s.modify a fun o => { o with inEventThread := true })
  | .close a => some (s.modify a fun o => { o with handleClosed := true })
  | .listen a => s.listen a
  | .newConnection a client => s.onTcpNewConnection a client
  | .event a type closed parsed => s.pushSocketEvent a type closed parsed
  | .complete a => s.complete a
  | .dispatch valid node => s.dispatch valid node
  | .completed valid parsed node => s.onCompleted valid parsed node
  | .finish => s.finish

def extension : System Extension Action where
  init := .init
  step := fun a s => step s a

/-- The socket of the connection that is accepted next. -/
def Extension.accepting (s : Extension) : Option Object := do
  let evt ← s.events.head?
  let client ← evt.accepted
  s.objects client

/-- A connection is accepted only for a loaded plugin. -/
def AcceptsLoaded (s : Extension) : Action -> Prop
  | .dispatch _ _ => s.accepting.all (fun sock => sock.pluginContext ∈ s.contexts)
  | _ => True

instance (s : Extension) (a : Action) : Decidable (AcceptsLoaded s a) := by
  cases a <;> unfold AcceptsLoaded <;> infer_instance

structure OwnersLoaded (s : Extension) : Prop where
  indexed : s.manager.Indexed
  loaded : forall ctx id, s.manager.Owns ctx id -> ctx ∈ s.contexts

namespace OwnersLoaded

variable {s s' : Extension} {ctx : Context} {a : Address} {id : HandleId} {parsed valid : Bool}
  {type : HandleType}

theorem of_same (hs : OwnersLoaded s) (hmanager : s'.manager = s.manager)
    (hcontexts : s'.contexts = s.contexts) : OwnersLoaded s' := by
  constructor
  · rw [hmanager]
    exact hs.indexed
  · rw [hmanager, hcontexts]
    exact hs.loaded

theorem modify (hs : OwnersLoaded s) (a : Address) (f : Object -> Object) :
    OwnersLoaded (s.modify a f) :=
  hs.of_same rfl rfl

theorem setObject (hs : OwnersLoaded s) (a : Address) (o : Object) :
    OwnersLoaded (s.setObject a o) :=
  hs.of_same rfl rfl

/-!
## Steps
-/

theorem init : OwnersLoaded .init := by
  refine ⟨indexed_init, ?_⟩
  rintro ctx id ⟨h, hfind, _⟩
  cases hfind

section

variable (hs : OwnersLoaded s)
include hs

theorem freeHandle (id : HandleId) : OwnersLoaded (s.freeHandle id) :=
  ⟨hs.indexed.freeHandle id, fun ctx y howns =>
    hs.loaded ctx y (owns_freeHandle.mp howns).right⟩

theorem markHandleClosed (id : HandleId) : OwnersLoaded (s.markHandleClosed id) :=
  ⟨hs.indexed.markHandleClosed id, fun ctx y howns =>
    hs.loaded ctx y (owns_markHandleClosed.mp howns)⟩

theorem register (hctx : ctx ∈ s.contexts) (hregister : s.register a type ctx = some s') :
    OwnersLoaded s' := by
  unfold Extension.register at hregister
  rcases bind_eq_some_iff.mp hregister with ⟨⟨id, m⟩, hcreate, hrest⟩
  have hm : OwnersLoaded { s with manager := m } := by
    refine ⟨hs.indexed.createHandle hcreate, fun ctx' y howns => ?_⟩
    rcases createHandle_eq_some hcreate with ⟨_, hsame⟩ | ⟨hid, _, _⟩
    · rw [hsame] at howns
      exact hs.loaded ctx' y howns
    · rcases (owns_createHandle hcreate hid).mp howns with ⟨howner, _⟩ | hold
      · cases howner
        exact hctx
      · exact hs.loaded ctx' y hold
  dsimp only at hrest
  split at hrest
  · cases hrest
    exact hm.of_same rfl rfl
  cases hrest
  exact hm.of_same rfl rfl

theorem transferHandle {owner : Option Context}
    (howner : forall ctx, owner = some ctx -> ctx ∈ s.contexts) :
    OwnersLoaded { s with manager := (s.manager.transferHandle id owner).2 } := by
  refine ⟨hs.indexed.transferHandle id owner, fun ctx y howns => ?_⟩
  by_cases hmoves : exists h, s.manager.usedHandles.find id = some h ∧ h.closed = false ∧
      h.owner ≠ owner
  · rcases hmoves with ⟨h, hfind, hopen, hother⟩
    rcases (owns_transferHandle hfind hopen hother).mp howns with hnew | hold
    · exact howner ctx hnew.left
    · exact hs.loaded ctx y hold.right
  · rw [transferHandle_same] at howns
    · exact hs.loaded ctx y howns
    · intro h hfind
      by_contra hnot
      rw [not_or] at hnot
      exact hmoves ⟨h, hfind, Bool.eq_false_iff.mpr hnot.left, hnot.right⟩

theorem closeTaken (e : HandleId × Handle) : OwnersLoaded (s.closeTaken e) := by
  unfold Extension.closeTaken
  cases e.2.type with
  | httpRequest =>
    dsimp only
    split
    · split
      · exact (hs.modify _ _).markHandleClosed e.1
      · exact hs.freeHandle e.1
    · exact hs.freeHandle e.1
  | tcpSocket | udpSocket | wsSocket => exact hs.modify _ _
  | jsonValue | linkedList | iterator => exact hs.freeHandle e.1
  | none => exact hs

end

theorem foldl_closeTaken (taken : List (HandleId × Handle)) (hs : OwnersLoaded s) :
    OwnersLoaded (taken.foldl Extension.closeTaken s) := by
  induction taken generalizing s with
  | nil => exact hs
  | cons e rest ih => exact ih (hs.closeTaken e)

section

variable (hs : OwnersLoaded s)
include hs

theorem onPluginLoaded (ctx : Context) : OwnersLoaded (s.onPluginLoaded ctx) :=
  ⟨hs.indexed, fun ctx' y howns => Finset.mem_insert_of_mem (hs.loaded ctx' y howns)⟩

theorem onPluginUnloaded (ctx : Context) : OwnersLoaded (s.onPluginUnloaded ctx) := by
  apply foldl_closeTaken
  refine ⟨hs.indexed.takePluginHandles ctx, fun ctx' y howns => ?_⟩
  have hne : ctx' ≠ ctx := by
    rintro rfl
    exact hs.indexed.owns_taken.mp howns
  exact Finset.mem_erase.mpr
    ⟨hne, hs.loaded ctx' y (owns_takePluginHandles.mp howns).left⟩

theorem new (hnew : s.new ctx type a = some s') : OwnersLoaded s' := by
  unfold Extension.new at hnew
  split at hnew
  case isTrue hctx => exact (hs.setObject a _).register hctx.left hnew
  · cases hnew

theorem setHandlePlugin {target : Option Context} (hset : s.setHandlePlugin id target = some s') :
    OwnersLoaded s' := by
  cases target with
  | some ctx =>
    unfold Extension.setHandlePlugin at hset
    dsimp only at hset
    split at hset
    case isTrue hctx =>
      cases hset
      exact hs.transferHandle fun _ howner => Option.some.inj howner ▸ hctx
    · cases hset
  | none =>
    unfold Extension.setHandlePlugin at hset
    dsimp only at hset
    split at hset
    · split at hset
      · cases hset
        exact hs.transferHandle nofun
      cases hset
      exact hs
    cases hset
    exact hs

theorem listen (hlisten : s.listen a = some s') : OwnersLoaded s' := by
  unfold Extension.listen at hlisten
  split at hlisten
  · split at hlisten
    · cases hlisten
      exact hs.of_same rfl rfl
    · cases hlisten
  · cases hlisten

theorem onTcpNewConnection {client : Address} (hconn : s.onTcpNewConnection a client = some s') :
    OwnersLoaded s' := by
  unfold Extension.onTcpNewConnection at hconn
  split at hconn
  · split at hconn
    · cases hconn
      exact hs.of_same rfl rfl
    · cases hconn
  · cases hconn

theorem pushSocketEvent {type : SocketEventType} {closed : Bool}
    (hpush : s.pushSocketEvent a type closed parsed = some s') : OwnersLoaded s' := by
  unfold Extension.pushSocketEvent at hpush
  split at hpush
  · split at hpush
    · cases hpush
    cases hpush
    exact hs.of_same rfl rfl
  · cases hpush

theorem complete (hcomplete : s.complete a = some s') : OwnersLoaded s' := by
  unfold Extension.complete at hcomplete
  split at hcomplete
  · split at hcomplete
    · cases hcomplete
      exact hs.of_same rfl rfl
    · cases hcomplete
  · cases hcomplete

end

theorem mem_of_hasFunction (hfn : s.hasFunction ctx valid = true) : ctx ∈ s.contexts :=
  of_decide_eq_true (Bool.and_eq_true_iff.mp hfn).left

variable (hs : OwnersLoaded s)
include hs

theorem dispatchSocketEvent {evt : SocketEvent}
    (haccepts : forall client sock, evt.accepted = some client -> s.objects client = some sock ->
      sock.pluginContext ∈ s.contexts)
    (hdispatch : s.dispatchSocketEvent evt valid a = some s') : OwnersLoaded s' := by
  unfold Extension.dispatchSocketEvent at hdispatch
  split at hdispatch
  · cases hdispatch
    exact hs
  split at hdispatch
  case h_1 client _ haccepted =>
    split at hdispatch
    case h_1 sock hsock => exact hs.register (haccepts client sock haccepted hsock) hdispatch
    · cases hdispatch
  · split at hdispatch
    case isTrue hfn =>
      exact hs.register (mem_of_hasFunction (Bool.and_eq_true_iff.mp hfn).left) hdispatch
    cases hdispatch
    exact hs
  cases hdispatch
  split
  · exact hs.freeHandle evt.handleId
  · exact hs

theorem dispatch (hallowed : AcceptsLoaded s (.dispatch valid a))
    (hdispatch : s.dispatch valid a = some s') : OwnersLoaded s' := by
  unfold Extension.dispatch at hdispatch
  split at hdispatch
  · cases hdispatch
  case h_2 evt rest hevents =>
    have hrest : OwnersLoaded { s with events := rest } := hs.of_same rfl rfl
    apply hrest.dispatchSocketEvent _ hdispatch
    intro client sock haccepted hsock
    have haccepting : s.accepting = some sock := by
      unfold Extension.accepting
      rw [hevents]
      exact bind_eq_some_iff.mpr ⟨evt, rfl, bind_eq_some_iff.mpr ⟨client, haccepted, hsock⟩⟩
    unfold AcceptsLoaded at hallowed
    rw [haccepting] at hallowed
    exact of_decide_eq_true hallowed

theorem onCompleted (hdone : s.onCompleted valid parsed a = some s') : OwnersLoaded s' := by
  unfold Extension.onCompleted at hdone
  split at hdone
  · cases hdone
  case h_2 b rest _ =>
    split at hdone
    · cases hdone
    dsimp only at hdone
    have hrest : OwnersLoaded { s with completed := rest } := hs.of_same rfl rfl
    replace hrest := hrest.modify b fun o => { o with inEventThread := false }
    split at hdone
    case isTrue hfn =>
      split at hdone
      · refine register (hrest.of_same ?_ ?_) ?_ hdone
        · rfl
        · rfl
        · exact mem_of_hasFunction hfn
      cases hdone
      exact hrest.of_same rfl rfl
    cases hdone
    exact hrest.freeHandle _

theorem finish (hfinish : s.finish = some s') : OwnersLoaded s' := by
  unfold Extension.finish at hfinish
  split at hfinish
  · cases hfinish
  case h_2 id rest _ =>
    cases hfinish
    have hrest : OwnersLoaded { s with finishing := rest } := hs.of_same rfl rfl
    exact hrest.freeHandle id

theorem of_step {action : Action} (hallowed : AcceptsLoaded s action)
    (hstep : step s action = some s') : OwnersLoaded s' := by
  cases action with
  | load ctx =>
    cases hstep
    exact hs.onPluginLoaded ctx
  | unload ctx =>
    cases hstep
    exact hs.onPluginUnloaded ctx
  | new ctx type a => exact hs.new hstep
  | free id =>
    cases hstep
    exact hs.freeHandle id
  | markClosed id =>
    cases hstep
    exact hs.markHandleClosed id
  | setHandlePlugin id target => exact hs.setHandlePlugin hstep
  | execute a | close a =>
    cases hstep
    exact hs.modify a _
  | listen a => exact hs.listen hstep
  | newConnection a client => exact hs.onTcpNewConnection hstep
  | event a type closed parsed => exact hs.pushSocketEvent hstep
  | complete a => exact hs.complete hstep
  | dispatch valid node => exact hs.dispatch hallowed hstep
  | completed valid parsed node => exact hs.onCompleted hstep
  | finish => exact hs.finish hstep

end OwnersLoaded

/-!
## Runs
-/

/-- A plugin that is not loaded owns no handle. -/
theorem unloaded_owns_nothing {s : Extension} (hreach : Reaches extension AcceptsLoaded s)
    {ctx : Context} (hunloaded : ctx ∉ s.contexts) (id : HandleId) : ¬ s.manager.Owns ctx id := by
  have howners : OwnersLoaded s :=
    hreach.invariant OwnersLoaded .init fun _ _ _ hs hallowed hstep => hs.of_step hallowed hstep
  exact fun howns => hunloaded (howners.loaded ctx id howns)

/-- A plugin accepts a connection and is unloaded. -/
def acceptedThenUnloaded : List Action :=
  [.load 1, .new 1 .tcpSocket 64, .listen 64, .newConnection 64 80, .dispatch true 96, .unload 1]

/-- A plugin is unloaded before its connection is accepted. -/
def unloadedThenAccepted : List Action :=
  [.load 1, .new 1 .tcpSocket 64, .listen 64, .newConnection 64 80, .unload 1, .dispatch true 96]

theorem owns_nothing_acceptedThenUnloaded :
    exists s, extension.run acceptedThenUnloaded .init = some s ∧ 1 ∉ s.contexts ∧
      (s.manager.usedHandles.find 2).isSome ∧ ¬ s.manager.Owns 1 2 := by
  refine ⟨_, rfl, by decide, by decide, ?_⟩
  apply unloaded_owns_nothing
  · exact reaches_of_run acceptedThenUnloaded .init (by decide) rfl
  · decide

theorem owns_accepted_after_unload :
    exists s, extension.run unloadedThenAccepted .init = some s ∧ 1 ∉ s.contexts ∧
      s.manager.Owns 1 2 :=
  ⟨_, rfl, by decide, _, rfl, rfl⟩

end Async2.Unload
