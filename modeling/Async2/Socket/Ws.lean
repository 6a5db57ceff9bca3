import Async2.Socket.Event
import Mathlib.Data.List.Basic

/-!
# WebSocket connections

One WebSocket connection as the two threads see it.  Its library objects are curl
easy handles, polls and timers; each is known by its number.  An easy handle is in
`ws_curl_handles_` while its connect has not completed.

The receive loop of `OnWsPollActivity` is taken one result of `curl_ws_recv` at a
time: natives may run between two of them, other work of the event thread may not.

The last fields are not part of the program.  They record the operations that were
issued and processed, the events that were pushed, the reconnect attempts since the
last successful connect, and whether the event thread has reached a deleted object
through an operation or through `ws_connections_`.
-/

namespace Async2.Ws

open Socket

inductive WsState where
  | created
  | connecting
  | connected
  | closing
  | closed
  | reconnecting
deriving DecidableEq

inductive WsOp where
  | connect
  | send (data : List UInt8)
  | close (code : Int) (reason : List UInt8)
  | setOption (option value : Int)
deriving DecidableEq

/-- The operation carries the address of the connection. -/
def WsOp.hasConnPtr : WsOp -> Bool
  | .connect => true
  | .send _ | .close _ _ | .setOption _ _ => false

def WsOp.isClose : WsOp -> Bool
  | .close _ _ => true
  | .connect | .send _ | .setOption _ _ => false

inductive TimerKind where
  | close
  | ping
  | reconnect
deriving DecidableEq

structure WsConnection where
  -- the object and its handle
  live : Bool := true
  hasHandle : Bool := true
  handleClosed : Bool := false
  state : WsState := .created
  curlHandle : Option Nat := none
  uvPoll : Option Nat := none
  closeTimer : Option Nat := none
  pingTimer : Option Nat := none
  reconnectTimer : Option Nat := none
  closeSent : Bool := false
  closeEventPushed : Bool := false
  maxMessageSize : Int := 16 * 1024 * 1024
  pingInterval : Int := 0
  closeTimeout : Int := 5
  hasPongCallback : Bool := false
  maxReconnects : Int := 0
  reconnectCount : Int := 0
  messageBuf : List UInt8 := []
  isBinaryMessage : Bool := false
  inFragmentedMessage : Bool := false
  -- `ws_connections_`, the library and the receive loop
  registered : Bool := false
  easies : List Nat := []
  awaiting : List Nat := []
  polls : List Nat := []
  timers : List (Nat × TimerKind) := []
  next : Nat := 0
  receiving : Bool := false
  -- the queues
  ops : List WsOp := []
  events : List SocketEvent := []
  dispatching : Option SocketEvent := none
  -- what has happened so far
  issued : List WsOp := []
  processed : List WsOp := []
  pushed : List SocketEvent := []
  created : List Nat := []
  attempts : Nat := 0
  usedAfterFree : Bool := false

namespace WsConnection

/-!
## Game thread
-/

def new : WsConnection := {}

def enqueueWsOp (c : WsConnection) (op : WsOp) : WsConnection :=
  { c with ops := c.ops ++ [op], issued := c.issued ++ [op] }

/-- `Native_WsConnect` and the natives that send. -/
def request (c : WsConnection) (op : WsOp) : Option WsConnection :=
  if c.hasHandle then some (c.enqueueWsOp op) else none

/-- `Native_WsClose`, and what `OnPluginUnloaded` does with the connection. -/
def requestClose (c : WsConnection) (code : Int) (reason : List UInt8) : Option WsConnection :=
  if c.hasHandle then
    some ({ c with handleClosed := true }.enqueueWsOp (.close code reason))
  else none

/-- What `Native_WsSetOption` and `ProcessWsSetOption` store; the other options are
read by the library only. -/
def storeOption (c : WsConnection) (option value : Int) : WsConnection :=
  if option = 0 then
    { c with maxMessageSize := if value > 0 then value else 16 * 1024 * 1024 }
  else if option = 2 then { c with pingInterval := if value > 0 then value else 0 }
  else if option = 3 then { c with closeTimeout := if value > 0 then value else 5 }
  else c

/-- `Native_WsSetOption`: the ping interval goes to the event thread as well. -/
def setOption (c : WsConnection) (option value : Int) : Option WsConnection :=
  if c.hasHandle then
    let c := c.storeOption option value
    if option = 2 then some (c.enqueueWsOp (.setOption option value)) else some c
  else none

def setReconnect (c : WsConnection) (maxReconnects : Int) : Option WsConnection :=
  if c.hasHandle then some { c with maxReconnects := maxReconnects } else none

/-- `Native_WsSetCallbacks`: the callback for pongs may be left out. -/
def setCallbacks (c : WsConnection) (hasPongCallback : Bool) : Option WsConnection :=
  if c.hasHandle then some { c with hasPongCallback := hasPongCallback } else none

def freeHandle (c : WsConnection) : WsConnection :=
  if c.hasHandle then { c with live := false, hasHandle := false } else c

def dispatch (c : WsConnection) : Option WsConnection :=
  match c.events, c.dispatching with
  | e :: rest, none =>
    if dispatches e then some { c with events := rest, dispatching := some e }
    else some { c with events := rest }
  | _, _ => none

def finish (c : WsConnection) : Option WsConnection :=
  match c.dispatching with
  | none => none
  | some e =>
    let c := { c with dispatching := none }
    if isCloseEvent e.type then some c.freeHandle else some c

/-!
## Helpers of the event thread
-/

def pushSocketEvent (c : WsConnection) (e : SocketEvent) : WsConnection :=
  { c with events := c.events ++ [e], pushed := c.pushed ++ [e] }

def pushError (c : WsConnection) (code : Int) : WsConnection :=
  c.pushSocketEvent (makeErrorEvent .wsError false code)

/-- The guard by which a connection reports its end once. -/
def pushWsClosedOnce (c : WsConnection) (e : SocketEvent) : WsConnection :=
  if c.closeEventPushed then c
  else { c with closeEventPushed := true }.pushSocketEvent e

/-- The object is reached through an operation or through `ws_connections_`. -/
def touch (c : WsConnection) : WsConnection :=
  { c with usedAfterFree := c.usedAfterFree || !c.live }

def register (c : WsConnection) : WsConnection :=
  { c with registered := true }

def unregister (c : WsConnection) : WsConnection :=
  { c with registered := false }

def setState (c : WsConnection) (state : WsState) : WsConnection :=
  { c with state := state }

def takeTimer (c : WsConnection) (t : Nat) : WsConnection :=
  { c with timers := c.timers.filter fun entry => entry.1 ≠ t }

def startTimer (c : WsConnection) (kind : TimerKind) : WsConnection :=
  { c with timers := (c.next, kind) :: c.timers, next := c.next + 1 }

def stopCloseTimer (c : WsConnection) : WsConnection :=
  match c.closeTimer with
  | none => c
  | some t => { c.takeTimer t with closeTimer := none }

def stopPingTimer (c : WsConnection) : WsConnection :=
  match c.pingTimer with
  | none => c
  | some t => { c.takeTimer t with pingTimer := none }

def stopReconnectTimer (c : WsConnection) : WsConnection :=
  match c.reconnectTimer with
  | none => c
  | some t => { c.takeTimer t with reconnectTimer := none }

def wsStopTimers (c : WsConnection) : WsConnection :=
  c.stopCloseTimer.stopPingTimer.stopReconnectTimer

def wsStartPingTimer (c : WsConnection) : WsConnection :=
  { c.startTimer .ping with pingTimer := some c.next }

def startCloseTimer (c : WsConnection) : WsConnection :=
  { c.startTimer .close with closeTimer := some c.next }

def startReconnectTimer (c : WsConnection) : WsConnection :=
  { c.startTimer .reconnect with reconnectTimer := some c.next }

def stopPoll (c : WsConnection) : WsConnection :=
  match c.uvPoll with
  | none => c
  | some p => { c with polls := c.polls.filter fun q => q ≠ p, uvPoll := none }

/-- `curl_multi_remove_handle` and `curl_easy_cleanup` on the easy handle `e`. -/
def cleanupEasy (c : WsConnection) (e : Nat) : WsConnection :=
  { c with
    easies := c.easies.filter fun x => x ≠ e
    awaiting := c.awaiting.filter fun x => x ≠ e
    curlHandle := none }

def removeEasy (c : WsConnection) : WsConnection :=
  match c.curlHandle with
  | none => c
  | some e => c.cleanupEasy e

/-- What `WsCleanup` does to the fields at its end. -/
def leave (c : WsConnection) (keepConnection : Bool) : WsConnection :=
  if keepConnection then
    { c with
      messageBuf := []
      inFragmentedMessage := false
      closeSent := false
      state := .reconnecting }
  else { c with state := .closed, registered := false }

def wsCleanup (c : WsConnection) (keepConnection : Bool) : WsConnection :=
  c.wsStopTimers.stopPoll.removeEasy.leave keepConnection

def wsShouldReconnect (c : WsConnection) : Bool :=
  if c.handleClosed then false
  -- user-initiated close
  else if c.state = .closing then false
  else if c.maxReconnects = 0 then false
  else if c.maxReconnects > 0 ∧ c.reconnectCount >= c.maxReconnects then false
  else true

def wsStartReconnect (c : WsConnection) : WsConnection :=
  let c := c.wsCleanup true
  { c with reconnectCount := c.reconnectCount + 1 }.startReconnectTimer

/-- Tears the connection down and reports its end. -/
def wsClose (c : WsConnection) (e : SocketEvent) : WsConnection :=
  (c.wsCleanup false).pushWsClosedOnce e

/-- `code` and `reason` are those of a close frame. -/
def wsDisconnectOrReconnect (c : WsConnection) (code : Int) (reason : List UInt8) : WsConnection :=
  if c.wsShouldReconnect then c.wsStartReconnect
  else
    c.wsClose { makeSocketEvent .wsClosed c.handleClosed with
      errorCode := code, errorMsg := reason }

/-- `curl_easy_init` and the start of the connect. -/
def startEasy (c : WsConnection) : WsConnection :=
  { c with
    curlHandle := some c.next
    state := .connecting
    easies := c.next :: c.easies
    awaiting := c.next :: c.awaiting
    created := c.next :: c.created
    next := c.next + 1 }

/-!
## Operations
-/

/-- `ok` tells whether `curl_easy_init` succeeds. -/
def processWsConnect (c : WsConnection) (ok : Bool) : WsConnection :=
  let c := c.register.touch
  if c.handleClosed then c
  else if ok then c.startEasy
  else (c.pushError (-1)).unregister

/-- `rc` is what `curl_ws_send` returns, and `again` whether it is `CURLE_AGAIN`. -/
def processWsSend (c : WsConnection) (rc : Int) (again : Bool) : WsConnection :=
  if c.registered then
    let c := c.touch
    if c.handleClosed ∨ c.curlHandle = none ∨ c.state ≠ .connected then c
    else if rc ≠ 0 ∧ again = false then c.pushError rc
    else c
  else c

/-- The close handshake: the frame is sent, and a timer waits for the answer. -/
def startClose (c : WsConnection) : WsConnection :=
  { c with state := .closing, closeSent := true }.startCloseTimer

def processWsClose (c : WsConnection) : WsConnection :=
  if c.registered then
    let c := c.touch
    if c.state = .closing ∨ c.state = .closed then c
    -- Cancel pending reconnect
    else if c.state = .reconnecting then
      ((c.wsStopTimers.setState .closed).unregister).pushWsClosedOnce
        (makeSocketEvent .wsClosed c.handleClosed)
    else if c.curlHandle ≠ none ∧ c.uvPoll ≠ none ∧ c.state = .connected ∧
        c.closeSent = false then c.startClose
    -- Not connected yet or no poll handle
    else c.wsClose (makeSocketEvent .wsClosed c.handleClosed)
  else c

/-- A new ping interval replaces the ping timer of a connected socket. -/
def restartPing (c : WsConnection) : WsConnection :=
  let c := c.stopPingTimer
  if c.pingInterval > 0 then c.wsStartPingTimer else c

def processWsSetOption (c : WsConnection) (option value : Int) : WsConnection :=
  if c.registered then
    let c := c.touch.storeOption option value
    if option = 2 ∧ c.state = .connected then c.restartPing else c
  else c

/-- What the library answers to an operation. -/
structure Answer where
  ok : Bool
  rc : Int
  again : Bool
deriving DecidableEq

def processWsOp (c : WsConnection) (answer : Answer) : WsOp -> WsConnection
  | .connect => c.processWsConnect answer.ok
  | .send _ => c.processWsSend answer.rc answer.again
  | .close _ _ => c.processWsClose
  | .setOption option value => c.processWsSetOption option value

def takeOp (c : WsConnection) (op : WsOp) (rest : List WsOp) : WsConnection :=
  { c with ops := rest, processed := c.processed ++ [op] }

def onAsyncWsOp (c : WsConnection) (answer : Answer) : Option WsConnection :=
  match c.ops with
  | [] => none
  | op :: rest =>
    some ((c.takeOp op rest).processWsOp answer op)

/-!
## Completion of a connect
-/

/-- The connect of the easy handle `e` has completed. -/
def completeConnect (c : WsConnection) (e : Nat) : WsConnection :=
  { c with awaiting := c.awaiting.filter fun x => x ≠ e }

def openPoll (c : WsConnection) : WsConnection :=
  { c with
    uvPoll := some c.next
    polls := c.next :: c.polls
    next := c.next + 1
    state := .connected
    reconnectCount := 0
    attempts := 0 }

/-- `result` is the code of the transfer. -/
def checkCompletedJobs (c : WsConnection) (e : Nat) (result : Int) : Option WsConnection :=
  if e ∉ c.awaiting then none
  else
    let c := c.completeConnect e
    if c.handleClosed then
      some ((((c.cleanupEasy e).setState .closed).unregister).pushWsClosedOnce
        (makeSocketEvent .wsClosed true))
    else if result = 0 then
      let c := c.openPoll
      let c := if c.pingInterval > 0 then c.wsStartPingTimer else c
      some (c.pushSocketEvent (makeSocketEvent .wsConnected false))
    else some (((c.pushError result).cleanupEasy e).wsDisconnectOrReconnect 0 [])

/-!
## Frames
-/

structure Frame where
  close : Bool := false
  ping : Bool := false
  pong : Bool := false
  binary : Bool := false
  cont : Bool := false
  bytesleft : Nat := 0
  data : List UInt8 := []
deriving DecidableEq

/-- What `curl_ws_recv` returns. -/
inductive Recv where
  | again
  | gotNothing
  | error (rc : Int)
  | noMeta
  | frame (f : Frame)
deriving DecidableEq

def closeCode : List UInt8 -> Int
  | b0 :: b1 :: _ => b0.toNat * 256 + b1.toNat
  | _ => 1005

/-- The peer closes: the close is answered unless ours was sent before. -/
def recvClose (c : WsConnection) (data : List UInt8) : WsConnection :=
  { c with closeSent := true, receiving := false }.wsDisconnectOrReconnect
    (closeCode data) (data.drop 2)

def recvPong (c : WsConnection) (data : List UInt8) : WsConnection :=
  if c.hasPongCallback then
    c.pushSocketEvent { makeSocketEvent .wsPong false with data := data }
  else c

/-- The first frame of a message decides its type. -/
def beginMessage (c : WsConnection) (binary : Bool) : WsConnection :=
  if c.inFragmentedMessage then c
  else { c with isBinaryMessage := binary, messageBuf := [] }

/-- The message is too big: error 1009, and the connection is torn down. -/
def rejectMessage (c : WsConnection) : WsConnection :=
  { c.pushError 1009 with closeSent := true, receiving := false }.wsClose
    (makeSocketEvent .wsClosed c.handleClosed)

def completeMessage (c : WsConnection) : WsConnection :=
  let c := { c with inFragmentedMessage := false }
  let e := { makeSocketEvent .wsMessage false with
    data := c.messageBuf, isBinary := c.isBinaryMessage }
  { c with messageBuf := [] }.pushSocketEvent e

def appendData (c : WsConnection) (data : List UInt8) : WsConnection :=
  { c with messageBuf := c.messageBuf ++ data }

def recvData (c : WsConnection) (f : Frame) : WsConnection :=
  let c := c.beginMessage f.binary
  if (c.messageBuf.length + f.data.length : Int) > c.maxMessageSize then c.rejectMessage
  else
    let c := c.appendData f.data
    if f.cont ∨ f.bytesleft > 0 then { c with inFragmentedMessage := true }
    else c.completeMessage

def recvFrame (c : WsConnection) (f : Frame) : WsConnection :=
  if f.close then c.recvClose f.data
  else if f.ping then c
  else if f.pong then c.recvPong f.data
  -- stop processing if closed mid-loop
  else if c.handleClosed then { c with receiving := false }
  else c.recvData f

/-- One round of the receive loop. -/
def recv (c : WsConnection) : Recv -> Option WsConnection
  | r =>
    if c.receiving = false then none
    else
      match r with
      | .again => some { c with receiving := false }
      | .gotNothing => some ({ c with receiving := false }.wsDisconnectOrReconnect 0 [])
      | .error rc =>
        some (({ c with receiving := false }.pushError rc).wsDisconnectOrReconnect 0 [])
      | .noMeta => some c
      | .frame f => some (c.recvFrame f)

/-- `OnWsPollActivity` up to the receive loop. -/
def onWsPollActivity (c : WsConnection) (p : Nat) (status : Int) : Option WsConnection :=
  if p ∉ c.polls then none
  else if c.handleClosed then some (c.wsClose (makeSocketEvent .wsClosed true))
  else if status < 0 then some ((c.pushError status).wsDisconnectOrReconnect 0 [])
  else some { c with receiving := true }

/-!
## Timers
-/

def onWsCloseTimeout (c : WsConnection) (t : Nat) : Option WsConnection :=
  if (t, TimerKind.close) ∉ c.timers then none
  else
    some ({ c.takeTimer t with closeTimer := none }.wsClose
      (makeSocketEvent .wsClosed c.handleClosed))

/-- The ping itself goes to the library. -/
def onWsPingTimer (c : WsConnection) (t : Nat) : Option WsConnection :=
  if (t, TimerKind.ping) ∉ c.timers then none else some c

/-- `ok` tells whether `curl_easy_init` succeeds. -/
def wsReconnect (c : WsConnection) (ok : Bool) : WsConnection :=
  let c := { c with attempts := c.attempts + 1 }
  if ok then c.startEasy
  else
    (((c.pushError (-1)).setState .closed).unregister).pushWsClosedOnce
      (makeSocketEvent .wsClosed false)

def onWsReconnectTimer (c : WsConnection) (t : Nat) (ok : Bool) : Option WsConnection :=
  if (t, TimerKind.reconnect) ∉ c.timers then none
  else
    let c := { c.takeTimer t with reconnectTimer := none }
    if c.handleClosed then
      some (((c.setState .closed).unregister).pushWsClosedOnce
        (makeSocketEvent .wsClosed true))
    else some (c.wsReconnect ok)

end WsConnection

/-!
## The machine
-/

inductive Action where
  -- game thread
  | request (op : WsOp)
  | requestClose (code : Int) (reason : List UInt8)
  | setOption (option value : Int)
  | setReconnect (maxReconnects : Int)
  | setCallbacks (hasPongCallback : Bool)
  | freeArgument
  | dispatch
  | finish
  -- event thread
  | op (answer : WsConnection.Answer)
  | connectDone (e : Nat) (result : Int)
  | pollActivity (p : Nat) (status : Int)
  | recv (r : WsConnection.Recv)
  | closeTimeout (t : Nat)
  | pingTimer (t : Nat)
  | reconnectTimer (t : Nat) (ok : Bool)

/-- The natives that only enqueue an operation. -/
def WsOp.isRequest : WsOp -> Bool
  | .connect | .send _ => true
  | .close _ _ | .setOption _ _ => false

/-- The event thread does nothing else during the receive loop. -/
def whenIdle (c : WsConnection) (x : Option WsConnection) : Option WsConnection :=
  if c.receiving then none else x

def step (action : Action) (c : WsConnection) : Option WsConnection :=
  match action with
  | .request op => if op.isRequest then c.request op else none
  | .requestClose code reason => c.requestClose code reason
  | .setOption option value => c.setOption option value
  | .setReconnect n => c.setReconnect n
  | .setCallbacks b => c.setCallbacks b
  -- `WsSendNode`, `SetBodyJSON` and `SetBodyMsgPack` free the handle in their second argument,
  -- of whatever kind it is, when the first one is invalid or its request is in flight
  | .freeArgument => some c.freeHandle
  | .dispatch => c.dispatch
  | .finish => c.finish
  | .op answer => whenIdle c (c.onAsyncWsOp answer)
  | .connectDone e result => whenIdle c (c.checkCompletedJobs e result)
  | .pollActivity p status => whenIdle c (c.onWsPollActivity p status)
  | .recv r => c.recv r
  | .closeTimeout t => whenIdle c (c.onWsCloseTimeout t)
  | .pingTimer t => whenIdle c (c.onWsPingTimer t)
  | .reconnectTimer t ok => whenIdle c (c.onWsReconnectTimer t ok)

end Async2.Ws
