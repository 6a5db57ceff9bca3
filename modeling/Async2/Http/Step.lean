import Async2.Http.State

/-!
# Steps of the two threads

Every function of the source that moves a request is a function on states here.
A handler of the event thread that empties a queue is taken one entry at a
time, and so are the loops of the game thread over handles and over completed
requests; steps of the other thread may fall between any two entries.

The completion callback runs between `deliver` and `release`.  Whatever the
plugin does there is a step of its own.
-/

namespace Async2.Http

open Function

namespace HttpRequest

/-- What a transfer ended with: the code of the transfer and the status of the
response. -/
structure Result where
  curlcode : Int
  httpcode : Int

def curleOk : Int := 0

def curleAbortedByCallback : Int := 42

/-- `httpcode` is what the transfer's response code is asked for. -/
def shouldRetry (r : HttpRequest) (httpcode : Int) : Bool :=
  if r.maxRetries = 0 ∨ (r.maxRetries > 0 ∧ r.retryCount >= r.maxRetries) then false
  else if r.handleClosed then false
  -- Transport errors are always retryable
  else if r.curlcode ≠ curleOk then true
  -- 429 Too Many Requests
  else if httpcode = 429 then true
  -- 5xx Server Error
  else if httpcode >= 500 ∧ httpcode < 600 then true
  else false

def prepareForRetry (r : HttpRequest) : HttpRequest :=
  { r with
    retryCount := r.retryCount + 1
    curlcode := -1
    completed := false
    inRetryWait := true }

end HttpRequest

namespace State

/-!
## Handles
-/

/-- The request behind a handle that is in use and not closed. -/
def getHttpRequest (s : State) (id : HandleId) : Option Address :=
  match s.usedHandles id with
  | none => none
  | some h => if h.closed then none else some h.pointer

def createHandle (s : State) (id : HandleId) (pointer : Address) (owner : Context) : State :=
  { s with
    usedHandles := update s.usedHandles id (some ⟨pointer, some owner, false⟩)
    pluginHandles :=
      update s.pluginHandles owner ((s.pluginHandles owner).insert id) }

def removeFromPluginSet (s : State) (owner : Context) (id : HandleId) : State :=
  { s with
    pluginHandles :=
      update s.pluginHandles owner ((s.pluginHandles owner).erase id) }

/-- Frees the object together with its handle. -/
def freeHandle (s : State) (id : HandleId) : State :=
  match s.usedHandles id with
  | none => s
  | some h =>
    let s := match h.owner with
      | some owner => s.removeFromPluginSet owner id
      | none => s
    { s with
      live := update s.live h.pointer false
      usedHandles := update s.usedHandles id none }

def markHandleClosed (s : State) (id : HandleId) : State :=
  match s.usedHandles id with
  | none => s
  | some h =>
    { s with
      usedHandles := update s.usedHandles id (some { h with closed := true }) }

def detachHandle (s : State) (id : HandleId) (h : Handle) : State :=
  { s with
    usedHandles := update s.usedHandles id (some { h with owner := none }) }

/-- The loop of `TakePluginHandles`: detaches each handle from its owner and
collects it. -/
def detachHandles (s : State) : List HandleId -> State × List Task
  | [] => (s, [])
  | id :: rest =>
    match s.usedHandles id with
    | none => s.detachHandles rest
    | some h =>
      let taken := (s.detachHandle id h).detachHandles rest
      (taken.1, .unload id h.pointer :: taken.2)

def clearPluginSet (s : State) (ctx : Context) : State :=
  { s with pluginHandles := update s.pluginHandles ctx [] }

/-- `ids` is the set of the plugin's handles in the order of its iteration. -/
def takePluginHandles (s : State) (ctx : Context) (ids : List HandleId) : State × List Task :=
  (s.clearPluginSet ctx).detachHandles ids

def trackClientHandle (s : State) (client : Client) (id : HandleId) : State :=
  if client <= 0 then s
  else
    { s with
      clientHandles :=
        update s.clientHandles client (s.clientHandles client ++ [id]) }

def untrackClientHandle (s : State) (client : Client) (id : HandleId) : State :=
  if client <= 0 then s
  else
    { s with
      clientHandles := update s.clientHandles client
        ((s.clientHandles client).filter (fun x => x ≠ id)) }

/-!
## Queues
-/

def enqueueRequest (s : State) (a : Address) : State :=
  let s := s.modify a fun r => { r with inEventThread := true }
  { s with
    statsPending := s.statsPending + 1
    pendingQueue := s.pendingQueue ++ [a]
    executed := update s.executed a true }

def cancelRequest (s : State) (a : Address) : State :=
  { s with cancelQueue := s.cancelQueue ++ [a] }

/-- What every path that ends a request does: it is marked as completed,
counted, forgotten by the event thread and pushed to the done queue. -/
def complete (s : State) (a : Address) : State :=
  let s := s.modify a fun r => { r with completed := true }
  { s with
    statsCompleted := s.statsCompleted + 1
    activeHttpRequests := s.activeHttpRequests.erase a
    doneQueue := s.doneQueue ++ [a]
    pushed := s.pushed ++ [a] }

def startTransfer (s : State) (a : Address) : State :=
  { s with
    statsActive := s.statsActive + 1
    curlMulti := s.curlMulti.insert a
    starts := update s.starts a (s.starts a + 1) }

def removeTransfer (s : State) (a : Address) : State :=
  { s with
    statsActive := s.statsActive - 1
    curlMulti := s.curlMulti.erase a }

/-- Takes the first entry of the pending queue over into the event thread. -/
def takePending (s : State) (a : Address) (rest : List Address) : State :=
  { s with
    pendingQueue := rest
    statsPending := s.statsPending - 1
    activeHttpRequests := s.activeHttpRequests.insert a }

/-- Starts a retry timer for the request. -/
def armTimer (s : State) (a : Address) : State :=
  { s with
    statsRetries := s.statsRetries + 1
    retryTimers := s.retryTimers.insert a }

def setCurlcode (s : State) (a : Address) (code : Int) : State :=
  s.modify a fun r => { r with curlcode := code }

def clearRetryWait (s : State) (a : Address) : State :=
  s.modify a fun r => { r with inRetryWait := false }

def dropCancel (s : State) (rest : List Address) : State :=
  { s with cancelQueue := rest }

def dropTimer (s : State) (a : Address) : State :=
  { s with retryTimers := s.retryTimers.erase a }

/-!
## Event thread
-/

def onAsyncAdd (s : State) : Option State :=
  match s.pendingQueue with
  | [] => none
  | a :: rest =>
    let s := s.takePending a rest
    -- Closed before we picked it up: never added to `curl_multi`
    if (s.mem a).handleClosed then some (s.complete a)
    else some (s.startTransfer a)

def onAsyncCancel (s : State) : Option State :=
  match s.cancelQueue with
  | [] => none
  | a :: rest =>
    let s := s.dropCancel rest
    -- Already completed and handed to the game thread
    if a ∉ s.activeHttpRequests then some s
    else
      let s := if (s.mem a).inRetryWait then s.dropTimer a else s.removeTransfer a
      let s := s.clearRetryWait a
      some (s.complete a)

/-- A transfer has ended with the given result. -/
def checkCompletedJobs (s : State) (a : Address) (result : HttpRequest.Result) : Option State :=
  if a ∉ s.curlMulti then none
  else
    let s := s.removeTransfer a
    let s := s.setCurlcode a result.curlcode
    if (s.mem a).shouldRetry result.httpcode then
      let s := s.modify a HttpRequest.prepareForRetry
      some (s.armTimer a)
    else some (s.complete a)

def onRetryTimer (s : State) (a : Address) : Option State :=
  if a ∉ s.retryTimers then none
  else
    let s := s.dropTimer a
    -- Already completed by the cancel path
    if (s.mem a).completed then some s
    else
      let s := s.clearRetryWait a
      -- Cancelled during the wait
      if (s.mem a).handleClosed then some (s.complete a)
      else some (s.startTransfer a)

/-!
## Game thread
-/

/-- The game thread runs plugin code: outside of a frame, or in a callback. -/
def InPlugin (s : State) : Prop :=
  s.work = [] ∧ (s.drained = [] ∨ s.delivering ≠ none)

instance (s : State) : Decidable s.InPlugin :=
  inferInstanceAs (Decidable (s.work = [] ∧ (s.drained = [] ∨ s.delivering ≠ none)))

/-- The handle and the address come from the handle manager's scan and from the
allocator; neither of them is in use. -/
def httpNew (s : State) (ctx : Context) (a : Address) (id : HandleId) : Option State :=
  if s.live a ∨ (s.usedHandles id).isSome ∨ id = 0 then none
  else
    let s := { s with
      mem := update s.mem a { HttpRequest.new with handleId := id }
      live := update s.live a true
      used := update s.used a true }
    some (s.createHandle id a ctx)

/-- A request in the event thread is closed and cancelled, any other is freed. -/
def closeOrFree (s : State) (id : HandleId) (a : Address) : State :=
  if (s.mem a).inEventThread then
    let s := s.modify a fun r => { r with handleClosed := true }
    let s := s.markHandleClosed id
    s.cancelRequest a
  else s.freeHandle id

def httpClose (s : State) (id : HandleId) : State :=
  match s.getHttpRequest id with
  | none => s
  | some a =>
    (s.untrackClientHandle (s.mem a).clientIndex (s.mem a).handleId).closeOrFree id a

/-- The guard of the natives that need a request outside of the event thread. -/
def withIdleRequest (s : State) (id : HandleId) (f : Address -> State) : State :=
  match s.getHttpRequest id with
  | none => s
  | some a => if (s.mem a).inEventThread then s else f a

def httpExecute (s : State) (id : HandleId) : State :=
  s.withIdleRequest id fun a => s.enqueueRequest a

def setRetry (s : State) (id : HandleId) (maxRetries : Int) : State :=
  s.withIdleRequest id fun a => s.modify a fun r => { r with maxRetries := maxRetries }

def setOwner (s : State) (id : HandleId) (client : Client) : State :=
  s.withIdleRequest id fun a =>
    if client = (s.mem a).clientIndex then s
    else
      let s := s.untrackClientHandle (s.mem a).clientIndex (s.mem a).handleId
      let s := s.modify a fun r => { r with clientIndex := client }
      s.trackClientHandle client (s.mem a).handleId

def setWork (s : State) (tasks : List Task) : State :=
  { s with work := tasks }

def onPluginUnloaded (s : State) (ctx : Context) (ids : List HandleId) : Option State :=
  if ids.isPerm (s.pluginHandles ctx) then
    let taken := s.takePluginHandles ctx ids
    some (taken.1.setWork taken.2)
  else none

def clearClientHandles (s : State) (client : Client) : State :=
  { s with clientHandles := update s.clientHandles client [] }

def onClientDisconnecting (s : State) (client : Client) : State :=
  (s.clearClientHandles client).setWork ((s.clientHandles client).map Task.disconnect)

/-- One handle of the loops of `OnPluginUnloaded` and `OnClientDisconnecting`. -/
def runTask (s : State) : Option State :=
  match s.work with
  | [] => none
  | .unload id a :: rest =>
    let s := s.setWork rest
    let s := s.untrackClientHandle (s.mem a).clientIndex (s.mem a).handleId
    some (s.closeOrFree id a)
  | .disconnect id :: rest =>
    let s := s.setWork rest
    match s.getHttpRequest id with
    | none => some s
    | some a => some (s.closeOrFree id a)

/-- `OnGameFrame` takes over what the done queue holds. -/
def drainCompleted (s : State) : State :=
  { s with
    doneQueue := []
    drained := s.doneQueue
    delivered := s.delivered ++ s.doneQueue }

def startCallback (s : State) (a : Address) (rest : List Address) : State :=
  let s := s.modify a fun r =>
    { r with
      inEventThread := false
      curlcode :=
        if r.handleClosed then HttpRequest.curleAbortedByCallback else r.curlcode }
  { s with drained := rest, delivering := some a }

/-- `OnCompletedGameThread` up to the callback. -/
def deliver (s : State) : Option State :=
  match s.drained, s.delivering with
  | a :: rest, none => some (s.startCallback a rest)
  | _, _ => none

def endCallback (s : State) : State :=
  { s with delivering := none }

def release (s : State) : Option State :=
  match s.delivering with
  | none => none
  | some a =>
    let s := s.untrackClientHandle (s.mem a).clientIndex (s.mem a).handleId
    let s := s.freeHandle (s.mem a).handleId
    some s.endCallback

end State

/-!
## The system
-/

inductive Action where
  -- game thread
  | httpNew (ctx : Context) (a : Address) (id : HandleId)
  | httpClose (id : HandleId)
  | httpExecute (id : HandleId)
  | setRetry (id : HandleId) (maxRetries : Int)
  | setOwner (id : HandleId) (client : Client)
  | pluginUnloaded (ctx : Context) (ids : List HandleId)
  | clientDisconnecting (client : Client)
  | task
  | gameFrame
  | deliver
  | release
  -- event thread
  | asyncAdd
  | asyncCancel
  | transferDone (a : Address) (result : HttpRequest.Result)
  | retryTimer (a : Address)

def step (action : Action) (s : State) : Option State :=
  match action with
  | .httpNew ctx a id => if s.InPlugin then s.httpNew ctx a id else none
  | .httpClose id => if s.InPlugin then some (s.httpClose id) else none
  | .httpExecute id => if s.InPlugin then some (s.httpExecute id) else none
  | .setRetry id n => if s.InPlugin then some (s.setRetry id n) else none
  | .setOwner id client => if s.InPlugin then some (s.setOwner id client) else none
  | .pluginUnloaded ctx ids => if s.InPlugin then s.onPluginUnloaded ctx ids else none
  | .clientDisconnecting client =>
    if s.InPlugin then some (s.onClientDisconnecting client) else none
  | .task => s.runTask
  | .gameFrame =>
    if s.InPlugin ∧ s.delivering = none then some s.drainCompleted else none
  | .deliver => if s.work.isEmpty then s.deliver else none
  | .release => if s.work.isEmpty then s.release else none
  | .asyncAdd => s.onAsyncAdd
  | .asyncCancel => s.onAsyncCancel
  | .transferDone a result => s.checkCompletedJobs a result
  | .retryTimer a => s.onRetryTimer a

def system : TransitionSystem.System State Action where
  init := State.init
  step := step

end Async2.Http
