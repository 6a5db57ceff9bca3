import Async2.Socket.Event
import Mathlib.Data.List.Basic

/-!
# TCP sockets

One TCP socket as the two threads see it: the natives enqueue operations, the
event thread processes them and receives the callbacks of the resolver and of the
library, and the game thread dispatches the events.

The memory of a deleted socket keeps its last contents, and `live` tells whether
the object exists.  The last fields are not part of the program: they record the
operations that were issued and processed, the events that were pushed, whether
the event thread has reached a deleted object through an operation or through
`tcp_sockets_`, and whether a callback found another handle than its own in the
socket.
-/

namespace Async2.Tcp

open Socket

inductive TcpState where
  | created
  | resolving
  | connecting
  | connected
  | listening
  | closing
  | closed
deriving DecidableEq

/-- Host, port and backlog only decide what the resolver and the library answer. -/
inductive TcpOp where
  | connect
  | send (data : List UInt8)
  | close
  | listen
  | bind
  | setOption (option value : Int)
  | acceptConfig
deriving DecidableEq

/-- The operation carries the address of the socket. -/
def TcpOp.hasSocketPtr : TcpOp -> Bool
  | .connect | .listen | .bind | .acceptConfig => true
  | .send _ | .close | .setOption _ _ => false

/-- The callbacks that are passed to the resolver. -/
inductive Lookup where
  | connect
  | listen
  | bind
deriving DecidableEq

structure TcpSocket where
  -- the object and its handle
  live : Bool := true
  hasHandle : Bool := true
  handleClosed : Bool := false
  maxChunkSize : Int := 4096
  uvHandle : Option Nat := none
  state : TcpState := .created
  -- `tcp_sockets_`, the resolver and the library
  registered : Bool := false
  lookups : List Lookup := []
  uv : UvTable := {}
  -- the queues
  ops : List TcpOp := []
  events : List SocketEvent := []
  dispatching : Option SocketEvent := none
  -- what has happened so far
  issued : List TcpOp := []
  processed : List TcpOp := []
  pushed : List SocketEvent := []
  usedAfterFree : Bool := false
  foreignCallback : Bool := false

namespace TcpSocket

/-!
## Game thread
-/

def new : TcpSocket := {}

/-- The socket that `OnTcpNewConnection` makes for an accepted connection, with the
chunk size of the listener. -/
def accepted (maxChunkSize : Int) : TcpSocket :=
  { hasHandle := false, maxChunkSize := maxChunkSize, state := .connected,
    uv := UvTable.init {}, uvHandle := some 0 }

def enqueueTcpOp (s : TcpSocket) (op : TcpOp) : TcpSocket :=
  { s with ops := s.ops ++ [op], issued := s.issued ++ [op] }

/-- `Native_TcpConnect`, `Native_TcpBind`, `Native_TcpListen`, `Native_TcpSend` and
`Native_TcpSetOption`: they need a handle and enqueue their operation. -/
def request (s : TcpSocket) (op : TcpOp) : Option TcpSocket :=
  if s.hasHandle then some (s.enqueueTcpOp op) else none

/-- `Native_TcpClose`, and what `OnPluginUnloaded` does with the socket. -/
def requestClose (s : TcpSocket) : Option TcpSocket :=
  if s.hasHandle then some ({ s with handleClosed := true }.enqueueTcpOp .close) else none

def freeHandle (s : TcpSocket) : TcpSocket :=
  if s.hasHandle then { s with live := false, hasHandle := false } else s

/-- `DispatchSocketEvent` gives an accepted socket its handle. -/
def adopt (s : TcpSocket) : Option TcpSocket :=
  if s.hasHandle ∨ s.live = false then none
  else some ({ s with hasHandle := true }.enqueueTcpOp .acceptConfig)

def dispatch (s : TcpSocket) : Option TcpSocket :=
  match s.events, s.dispatching with
  | e :: rest, none =>
    if dispatches e then some { s with events := rest, dispatching := some e }
    else some { s with events := rest }
  | _, _ => none

def finish (s : TcpSocket) : Option TcpSocket :=
  match s.dispatching with
  | none => none
  | some e =>
    let s := { s with dispatching := none }
    if isCloseEvent e.type then some s.freeHandle else some s

/-!
## Helpers of the event thread
-/

def pushSocketEvent (s : TcpSocket) (e : SocketEvent) : TcpSocket :=
  { s with events := s.events ++ [e], pushed := s.pushed ++ [e] }

def pushError (s : TcpSocket) (code : Int) : TcpSocket :=
  s.pushSocketEvent (makeErrorEvent .tcpError s.handleClosed code)

def pushClosed (s : TcpSocket) : TcpSocket :=
  s.pushSocketEvent (makeSocketEvent .tcpClosed s.handleClosed)

/-- The object is reached through an operation or through `tcp_sockets_`. -/
def touch (s : TcpSocket) : TcpSocket :=
  { s with usedAfterFree := s.usedAfterFree || !s.live }

/-- A callback of the handle `h` runs. -/
def callbackOf (s : TcpSocket) (h : Nat) : TcpSocket :=
  { s with foreignCallback := s.foreignCallback || s.uvHandle != some h }

/-- A new handle becomes the socket's handle. -/
def newHandle (s : TcpSocket) : TcpSocket :=
  { s with uv := s.uv.init, uvHandle := some s.uv.next }

/-- Initialises the handle unless an earlier operation did. -/
def ensureHandle (s : TcpSocket) : TcpSocket :=
  match s.uvHandle with
  | none => s.newHandle
  | some _ => s

/-- The socket gives its handle up before the handle is closed. -/
def closeTcpHandle (s : TcpSocket) : TcpSocket :=
  match s.uvHandle with
  | none => s
  | some h => { s with uvHandle := none, uv := s.uv.close h .deleteHandle }

def register (s : TcpSocket) : TcpSocket :=
  { s with registered := true }

def unregister (s : TcpSocket) : TcpSocket :=
  { s with registered := false }

def setState (s : TcpSocket) (state : TcpState) : TcpSocket :=
  { s with state := state }

def resolve (s : TcpSocket) (lookup : Lookup) : TcpSocket :=
  { s with lookups := s.lookups ++ [lookup] }

def modifyHandle (s : TcpSocket) (h : Nat) (f : UvHandle -> UvHandle) : TcpSocket :=
  { s with uv := s.uv.modify h f }

def uvClose (s : TcpSocket) (h : Nat) : TcpSocket :=
  { s with uv := s.uv.close h .onClosed }

def startReading (s : TcpSocket) : TcpSocket :=
  match s.uvHandle with
  | none => s
  | some h => s.modifyHandle h fun u => { u with reading := true }

def deleteHandle (s : TcpSocket) : TcpSocket :=
  match s.uvHandle with
  | none => s
  | some h => { s with uv := s.uv.delete h, uvHandle := none }

/-!
## Operations
-/

def processTcpConnect (s : TcpSocket) : TcpSocket :=
  let s := s.register.touch
  if s.handleClosed then s
  else (s.setState .resolving).resolve .connect

def processTcpListen (s : TcpSocket) : TcpSocket :=
  let s := s.register.touch
  if s.handleClosed then s else s.resolve .listen

def processTcpBind (s : TcpSocket) : TcpSocket :=
  let s := s.register.touch
  if s.handleClosed then s else s.resolve .bind

/-- `rc` is what `uv_write` returns. -/
def processTcpSend (s : TcpSocket) (rc : Int) : TcpSocket :=
  if s.registered then
    let s := s.touch
    match s.uvHandle with
    | none => s
    | some h =>
      if s.handleClosed ∨ s.state ≠ .connected then s
      else if rc ≠ 0 then s.pushError rc
      else s.modifyHandle h fun u => { u with writes := u.writes + 1 }
  else s

def processTcpClose (s : TcpSocket) : TcpSocket :=
  if s.registered then
    let s := s.touch
    if s.state = .closing ∨ s.state = .closed then s
    else
      match s.uvHandle with
      | some h => (s.setState .closing).uvClose h
      -- Never connected, just push closed event
      | none => (s.setState .closed).pushClosed.unregister
  else s

def setMaxChunkSize (s : TcpSocket) (value : Int) : TcpSocket :=
  { s with maxChunkSize := if value > 0 then value else 4096 }

/-- The other options go to the library. -/
def processTcpSetOption (s : TcpSocket) (option value : Int) : TcpSocket :=
  if s.registered then
    let s := s.touch
    if option = 0 then s.setMaxChunkSize value else s
  else s

def processTcpAcceptConfig (s : TcpSocket) : TcpSocket :=
  let s := s.register.touch
  if s.handleClosed then s else s.startReading

def processTcpOp (s : TcpSocket) (op : TcpOp) (rc : Int) : TcpSocket :=
  match op with
  | .connect => s.processTcpConnect
  | .send _ => s.processTcpSend rc
  | .close => s.processTcpClose
  | .listen => s.processTcpListen
  | .bind => s.processTcpBind
  | .setOption option value => s.processTcpSetOption option value
  | .acceptConfig => s.processTcpAcceptConfig

def takeOp (s : TcpSocket) (op : TcpOp) (rest : List TcpOp) : TcpSocket :=
  { s with ops := rest, processed := s.processed ++ [op] }

def onAsyncTcpOp (s : TcpSocket) (rc : Int) : Option TcpSocket :=
  match s.ops with
  | [] => none
  | op :: rest =>
    some ((s.takeOp op rest).processTcpOp op rc)

/-!
## Callbacks of the resolver
-/

/-- `rc` is what `uv_tcp_connect` returns. -/
def resolvedConnect (s : TcpSocket) (rc : Int) : TcpSocket :=
  let s := s.ensureHandle.setState .connecting
  if rc ≠ 0 then s.pushError rc
  else
    match s.uvHandle with
    | none => s
    | some h => s.modifyHandle h fun u => { u with connects := u.connects + 1 }

/-- `bindRc` and `listenRc` are what `uv_tcp_bind` and `uv_listen` return. -/
def resolvedListen (s : TcpSocket) (bindRc listenRc : Int) : TcpSocket :=
  -- The handle is a new one even if an earlier operation made one
  let s := s.newHandle
  if bindRc ≠ 0 then s.closeTcpHandle.pushError bindRc
  else if listenRc ≠ 0 then s.closeTcpHandle.pushError listenRc
  else
    match s.uvHandle with
    | none => s
    | some h => (s.modifyHandle h fun u => { u with listening := true }).setState .listening

/-- `rc` is what `uv_tcp_bind` returns. -/
def resolvedBind (s : TcpSocket) (rc : Int) : TcpSocket :=
  let s := s.ensureHandle
  if rc ≠ 0 then s.closeTcpHandle.pushError rc else s

/-- What the resolver and the calls of its callback return. -/
structure Answer where
  status : Int
  rc : Int
  listenRc : Int
deriving DecidableEq

def takeLookup (s : TcpSocket) (lookup : Lookup) : TcpSocket :=
  { s with lookups := s.lookups.erase lookup }

def resolved (s : TcpSocket) (lookup : Lookup) (answer : Answer) : Option TcpSocket :=
  if lookup ∉ s.lookups then none
  else
    let s := s.takeLookup lookup
    if s.registered = false then some s
    else
      let s := s.touch
      if s.handleClosed then some s
      else if answer.status ≠ 0 then some (s.pushError answer.status)
      else
        match lookup with
        | .connect => some (s.resolvedConnect answer.rc)
        | .listen => some (s.resolvedListen answer.rc answer.listenRc)
        | .bind => some (s.resolvedBind answer.rc)

/-!
## Callbacks of the library

Each needs a handle on which it is pending.  A request on a handle that is being
closed ends with an error.
-/

/-- The connect request of the handle `h` has ended. -/
def connectDone (s : TcpSocket) (h : Nat) : TcpSocket :=
  (s.callbackOf h).modifyHandle h fun u => { u with connects := u.connects - 1 }

def onTcpConnected (s : TcpSocket) (h : Nat) (status : Int) : Option TcpSocket :=
  match s.uv.handles h with
  | none => none
  | some u =>
    if u.connects = 0 ∨ (u.closing.isSome ∧ status = 0) then none
    else
      let s := s.connectDone h
      if s.handleClosed then some s
      else if status ≠ 0 then some (s.pushError status)
      else
        let s := (s.setState .connected).startReading
        some (s.pushSocketEvent (makeSocketEvent .tcpConnected false))

/-- The pieces in which received data is handed on. -/
def chunks (size : Nat) : Nat -> List UInt8 -> List (List UInt8)
  | 0, _ => []
  | _, [] => []
  | fuel + 1, data => data.take size :: chunks size fuel (data.drop size)

def pushData (s : TcpSocket) (data : List UInt8) : TcpSocket :=
  let size := if s.maxChunkSize > 0 then s.maxChunkSize.toNat else 4096
  (chunks size data.length data).foldl
    (fun s chunk =>
      s.pushSocketEvent { makeSocketEvent .tcpData false with data := chunk }) s

/-- What `uv_read_start` reports. -/
inductive ReadResult where
  | data (bytes : List UInt8)
  | eof
  | error (code : Int)
deriving DecidableEq

/-- Connection closed by peer: trigger close. -/
def closedByPeer (s : TcpSocket) (h : Nat) : TcpSocket :=
  let s := s.modifyHandle h fun u => { u with reading := false }
  match s.uvHandle with
  | none => s.setState .closing
  | some k => (s.setState .closing).uvClose k

def onTcpRead (s : TcpSocket) (h : Nat) (result : ReadResult) : Option TcpSocket :=
  match s.uv.handles h with
  | none => none
  | some u =>
    if u.reading = false then none
    else
      let s := s.callbackOf h
      match result with
      | .data bytes => if s.handleClosed then some s else some (s.pushData bytes)
      | .eof => some (s.closedByPeer h)
      | .error code => some (s.pushError code)

/-- A write request of the handle `h` has ended. -/
def writeDone (s : TcpSocket) (h : Nat) : TcpSocket :=
  (s.callbackOf h).modifyHandle h fun u => { u with writes := u.writes - 1 }

def onTcpWriteDone (s : TcpSocket) (h : Nat) (status : Int) : Option TcpSocket :=
  match s.uv.handles h with
  | none => none
  | some u =>
    if u.writes = 0 ∨ (u.closing.isSome ∧ status = 0) then none
    else
      let s := s.writeDone h
      if status ≠ 0 ∧ s.handleClosed = false then some (s.pushError status) else some s

def onTcpClosed (s : TcpSocket) (h : Nat) : TcpSocket :=
  ((s.callbackOf h).setState .closed).deleteHandle.pushClosed.unregister

def closed (s : TcpSocket) (h : Nat) : Option TcpSocket :=
  match s.uv.handles h with
  | none => none
  | some u =>
    if u.readyToClose .onClosed then some (s.onTcpClosed h)
    else if u.readyToClose .deleteHandle then some { s with uv := s.uv.delete h }
    else none

/-- The connection itself becomes a socket of its own. -/
def onTcpNewConnection (s : TcpSocket) (h : Nat) (status : Int) : Option TcpSocket :=
  match s.uv.handles h with
  | none => none
  | some u =>
    if u.listening = false then none
    else if status ≠ 0 ∨ s.handleClosed then some s
    else some (s.pushSocketEvent (makeSocketEvent .tcpAccepted false))

end TcpSocket

/-!
## The machine
-/

inductive Action where
  -- game thread
  | request (op : TcpOp)
  | requestClose
  | adopt
  | freeArgument
  | dispatch
  | finish
  -- event thread
  | op (rc : Int)
  | resolved (lookup : Lookup) (answer : TcpSocket.Answer)
  | connected (h : Nat) (status : Int)
  | read (h : Nat) (result : TcpSocket.ReadResult)
  | writeDone (h : Nat) (status : Int)
  | closed (h : Nat)
  | newConnection (h : Nat) (status : Int)

/-- The natives that only enqueue an operation. -/
def TcpOp.isRequest : TcpOp -> Bool
  | .close | .acceptConfig => false
  | _ => true

def step (action : Action) (s : TcpSocket) : Option TcpSocket :=
  match action with
  | .request op => if op.isRequest then s.request op else none
  | .requestClose => s.requestClose
  | .adopt => s.adopt
  -- `WsSendNode`, `SetBodyJSON` and `SetBodyMsgPack` free the handle in their second argument,
  -- of whatever kind it is, when the first one is invalid or its request is in flight
  | .freeArgument => some s.freeHandle
  | .dispatch => s.dispatch
  | .finish => s.finish
  | .op rc => s.onAsyncTcpOp rc
  | .resolved lookup answer => s.resolved lookup answer
  | .connected h status => s.onTcpConnected h status
  | .read h result => s.onTcpRead h result
  | .writeDone h status => s.onTcpWriteDone h status
  | .closed h => s.closed h
  | .newConnection h status => s.onTcpNewConnection h status

end Async2.Tcp
