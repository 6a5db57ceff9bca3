import Async2.Socket.Event
import Mathlib.Data.List.Basic

/-!
# UDP sockets

One UDP socket as the two threads see it.  Only Bind registers the socket and
gives it a library handle; a datagram waits for the resolver by itself.
-/

namespace Async2.Udp

open Socket

inductive UdpState where
  | created
  | bound
  | closing
  | closed
deriving DecidableEq

inductive UdpOp where
  | bind
  | send (data : List UInt8)
  | close
  | setOption (option value : Int)
deriving DecidableEq

/-- The operation carries the address of the socket. -/
def UdpOp.hasSocketPtr : UdpOp -> Bool
  | .bind => true
  | .send _ | .close | .setOption _ _ => false

/-- The callbacks that are passed to the resolver. -/
inductive Lookup where
  | bind
  | send (data : List UInt8)
deriving DecidableEq

def Lookup.isBind : Lookup -> Bool
  | .bind => true
  | .send _ => false

structure UdpSocket where
  -- the object and its handle
  live : Bool := true
  hasHandle : Bool := true
  handleClosed : Bool := false
  uvHandle : Option Nat := none
  state : UdpState := .created
  -- `udp_sockets_`, the resolver and the library
  registered : Bool := false
  lookups : List Lookup := []
  uv : UvTable := {}
  -- the queues
  ops : List UdpOp := []
  events : List SocketEvent := []
  dispatching : Option SocketEvent := none
  -- what has happened so far
  issued : List UdpOp := []
  processed : List UdpOp := []
  pushed : List SocketEvent := []
  usedAfterFree : Bool := false
  foreignCallback : Bool := false

namespace UdpSocket

/-!
## Game thread
-/

def new : UdpSocket := {}

def enqueueUdpOp (s : UdpSocket) (op : UdpOp) : UdpSocket :=
  { s with ops := s.ops ++ [op], issued := s.issued ++ [op] }

/-- `Native_UdpBind`, `Native_UdpSend` and `Native_UdpSetOption`. -/
def request (s : UdpSocket) (op : UdpOp) : Option UdpSocket :=
  if s.hasHandle then some (s.enqueueUdpOp op) else none

/-- `Native_UdpClose`, and what `OnPluginUnloaded` does with the socket. -/
def requestClose (s : UdpSocket) : Option UdpSocket :=
  if s.hasHandle then some ({ s with handleClosed := true }.enqueueUdpOp .close) else none

def freeHandle (s : UdpSocket) : UdpSocket :=
  if s.hasHandle then { s with live := false, hasHandle := false } else s

def dispatch (s : UdpSocket) : Option UdpSocket :=
  match s.events, s.dispatching with
  | e :: rest, none =>
    if dispatches e then some { s with events := rest, dispatching := some e }
    else some { s with events := rest }
  | _, _ => none

def finish (s : UdpSocket) : Option UdpSocket :=
  match s.dispatching with
  | none => none
  | some e =>
    let s := { s with dispatching := none }
    if isCloseEvent e.type then some s.freeHandle else some s

/-!
## Helpers of the event thread
-/

def pushSocketEvent (s : UdpSocket) (e : SocketEvent) : UdpSocket :=
  { s with events := s.events ++ [e], pushed := s.pushed ++ [e] }

def pushError (s : UdpSocket) (code : Int) : UdpSocket :=
  s.pushSocketEvent (makeErrorEvent .udpError s.handleClosed code)

def pushClosed (s : UdpSocket) : UdpSocket :=
  s.pushSocketEvent (makeSocketEvent .udpClosed s.handleClosed)

/-- The object is reached through an operation or through `udp_sockets_`. -/
def touch (s : UdpSocket) : UdpSocket :=
  { s with usedAfterFree := s.usedAfterFree || !s.live }

/-- A callback of the handle `h` runs. -/
def callbackOf (s : UdpSocket) (h : Nat) : UdpSocket :=
  { s with foreignCallback := s.foreignCallback || s.uvHandle != some h }

def newHandle (s : UdpSocket) : UdpSocket :=
  { s with uv := s.uv.init, uvHandle := some s.uv.next }

def register (s : UdpSocket) : UdpSocket :=
  { s with registered := true }

def unregister (s : UdpSocket) : UdpSocket :=
  { s with registered := false }

def setState (s : UdpSocket) (state : UdpState) : UdpSocket :=
  { s with state := state }

def resolve (s : UdpSocket) (lookup : Lookup) : UdpSocket :=
  { s with lookups := s.lookups ++ [lookup] }

def modifyHandle (s : UdpSocket) (h : Nat) (f : UvHandle -> UvHandle) : UdpSocket :=
  { s with uv := s.uv.modify h f }

def uvClose (s : UdpSocket) (h : Nat) : UdpSocket :=
  { s with uv := s.uv.close h .onClosed }

def deleteHandle (s : UdpSocket) : UdpSocket :=
  match s.uvHandle with
  | none => s
  | some h => { s with uv := s.uv.delete h, uvHandle := none }

/-!
## Operations
-/

def processUdpBind (s : UdpSocket) : UdpSocket :=
  let s := s.register.touch
  if s.handleClosed then s else s.resolve .bind

def processUdpSend (s : UdpSocket) (data : List UInt8) : UdpSocket :=
  if s.registered then
    let s := s.touch
    if s.handleClosed ∨ s.uvHandle = none then s else s.resolve (.send data)
  else s

def processUdpClose (s : UdpSocket) : UdpSocket :=
  if s.registered then
    let s := s.touch
    if s.state = .closing ∨ s.state = .closed then s
    else
      match s.uvHandle with
      | some h => (s.setState .closing).uvClose h
      | none => (s.setState .closed).pushClosed.unregister
  else s

/-- The options of the event thread go to the library. -/
def processUdpSetOption (s : UdpSocket) : UdpSocket :=
  if s.registered then s.touch else s

def processUdpOp (s : UdpSocket) : UdpOp -> UdpSocket
  | .bind => s.processUdpBind
  | .send data => s.processUdpSend data
  | .close => s.processUdpClose
  | .setOption _ _ => s.processUdpSetOption

def takeOp (s : UdpSocket) (op : UdpOp) (rest : List UdpOp) : UdpSocket :=
  { s with ops := rest, processed := s.processed ++ [op] }

def onAsyncUdpOp (s : UdpSocket) : Option UdpSocket :=
  match s.ops with
  | [] => none
  | op :: rest => some ((s.takeOp op rest).processUdpOp op)

/-!
## Callbacks of the resolver
-/

/-- What the resolver and the calls of its callback return. -/
structure Answer where
  status : Int
  rc : Int
  recvRc : Int
deriving DecidableEq

/-- `bindRc` and `recvRc` are what `uv_udp_bind` and `uv_udp_recv_start` return. -/
def resolvedBind (s : UdpSocket) (bindRc recvRc : Int) : UdpSocket :=
  let h := s.uv.next
  let s := s.newHandle
  if bindRc ≠ 0 then s.pushError bindRc
  else if recvRc ≠ 0 then s.pushError recvRc
  else (s.modifyHandle h fun u => { u with reading := true }).setState .bound

/-- `rc` is what `uv_udp_send` returns; its failure is not reported. -/
def resolvedSend (s : UdpSocket) (rc : Int) : UdpSocket :=
  match s.uvHandle with
  | none => s
  | some h =>
    if rc ≠ 0 then s else s.modifyHandle h fun u => { u with writes := u.writes + 1 }

def takeLookup (s : UdpSocket) (lookup : Lookup) : UdpSocket :=
  { s with lookups := s.lookups.erase lookup }

def resolved (s : UdpSocket) (lookup : Lookup) (answer : Answer) : Option UdpSocket :=
  if lookup ∉ s.lookups then none
  else
    let s := s.takeLookup lookup
    if s.registered = false then some s
    else
      let s := s.touch
      match lookup with
      | .bind =>
        if s.handleClosed then some s
        else if answer.status ≠ 0 then some (s.pushError answer.status)
        else some (s.resolvedBind answer.rc answer.recvRc)
      | .send _ =>
        if s.handleClosed ∨ s.uvHandle = none then some s
        else if answer.status ≠ 0 then some (s.pushError answer.status)
        else some (s.resolvedSend answer.rc)

/-!
## Callbacks of the library
-/

/-- What `uv_udp_recv_start` reports: a datagram with its sender, or an error. -/
inductive ReadResult where
  | datagram (bytes : List UInt8) (hasSender : Bool)
  | error (code : Int)
deriving DecidableEq

def onUdpRead (s : UdpSocket) (h : Nat) (result : ReadResult) : Option UdpSocket :=
  match s.uv.handles h with
  | none => none
  | some u =>
    if u.reading = false then none
    else
      let s := s.callbackOf h
      match result with
      | .datagram bytes hasSender =>
        if bytes = [] ∨ hasSender = false ∨ s.handleClosed then some s
        else
          some (s.pushSocketEvent
            { makeSocketEvent .udpData false with data := bytes })
      | .error code => some (s.pushError code)

def onUdpSendDone (s : UdpSocket) (h : Nat) : Option UdpSocket :=
  match s.uv.handles h with
  | none => none
  | some u =>
    if u.writes = 0 then none
    else
      some ((s.callbackOf h).modifyHandle h fun u => { u with writes := u.writes - 1 })

def onUdpClosed (s : UdpSocket) (h : Nat) : UdpSocket :=
  ((s.callbackOf h).setState .closed).deleteHandle.pushClosed.unregister

def closed (s : UdpSocket) (h : Nat) : Option UdpSocket :=
  match s.uv.handles h with
  | none => none
  | some u => if u.readyToClose .onClosed then some (s.onUdpClosed h) else none

end UdpSocket

/-!
## The machine
-/

inductive Action where
  -- game thread
  | request (op : UdpOp)
  | requestClose
  | freeArgument
  | dispatch
  | finish
  -- event thread
  | op
  | resolved (lookup : Lookup) (answer : UdpSocket.Answer)
  | read (h : Nat) (result : UdpSocket.ReadResult)
  | sendDone (h : Nat)
  | closed (h : Nat)

def UdpOp.isRequest : UdpOp -> Bool
  | .close => false
  | _ => true

def step (action : Action) (s : UdpSocket) : Option UdpSocket :=
  match action with
  | .request op => if op.isRequest then s.request op else none
  | .requestClose => s.requestClose
  -- `WsSendNode`, `SetBodyJSON` and `SetBodyMsgPack` free the handle in their second argument,
  -- of whatever kind it is, when the first one is invalid or its request is in flight
  | .freeArgument => some s.freeHandle
  | .dispatch => s.dispatch
  | .finish => s.finish
  | .op => s.onAsyncUdpOp
  | .resolved lookup answer => s.resolved lookup answer
  | .read h result => s.onUdpRead h result
  | .sendDone h => s.onUdpSendDone h
  | .closed h => s.closed h

end Async2.Udp
