import Async2.Socket.System

/-!
# Sockets that are over

A socket whose object is deleted and for which nothing is queued or pending in
either thread never does anything again.
-/

namespace Async2

/-- Deleted, and nothing is left of it in the queues, the resolver and the
library. -/
structure Tcp.TcpSocket.Inert (s : Tcp.TcpSocket) : Prop where
  live : s.live = false
  hasHandle : s.hasHandle = false
  lookups : s.lookups = []
  handles : forall h, s.uv.handles h = none
  ops : s.ops = []
  events : s.events = []
  dispatching : s.dispatching = none

structure Udp.UdpSocket.Inert (s : Udp.UdpSocket) : Prop where
  live : s.live = false
  hasHandle : s.hasHandle = false
  lookups : s.lookups = []
  handles : forall h, s.uv.handles h = none
  ops : s.ops = []
  events : s.events = []
  dispatching : s.dispatching = none

structure Ws.WsConnection.Inert (c : Ws.WsConnection) : Prop where
  live : c.live = false
  hasHandle : c.hasHandle = false
  awaiting : c.awaiting = []
  polls : c.polls = []
  timers : c.timers = []
  receiving : c.receiving = false
  ops : c.ops = []
  events : c.events = []
  dispatching : c.dispatching = none

theorem Tcp.TcpSocket.Inert.step {s s' : Tcp.TcpSocket} (h : s.Inert) {action : Tcp.Action}
    (hstep : Tcp.step action s = some s') : s' = s := by
  cases action <;>
    simp [Tcp.step, request, requestClose, adopt, dispatch, finish, onAsyncTcpOp, resolved,
      onTcpConnected, onTcpRead, onTcpWriteDone, closed, onTcpNewConnection, freeHandle,
      h.live, h.hasHandle, h.lookups, h.handles, h.ops, h.events, h.dispatching] at hstep
  exact hstep.symm

theorem Udp.UdpSocket.Inert.step {s s' : Udp.UdpSocket} (h : s.Inert) {action : Udp.Action}
    (hstep : Udp.step action s = some s') : s' = s := by
  cases action <;>
    simp [Udp.step, request, requestClose, dispatch, finish, onAsyncUdpOp, resolved, onUdpRead,
      onUdpSendDone, closed, freeHandle, h.hasHandle, h.lookups, h.handles, h.ops,
      h.events, h.dispatching] at hstep
  exact hstep.symm

theorem Ws.WsConnection.Inert.step {c c' : Ws.WsConnection} (h : c.Inert) {action : Ws.Action}
    (hstep : Ws.step action c = some c') : c' = c := by
  cases action <;>
    simp [Ws.step, whenIdle, request, requestClose, setOption, setReconnect, setCallbacks,
      dispatch, finish, onAsyncWsOp, checkCompletedJobs, onWsPollActivity, recv,
      onWsCloseTimeout, onWsPingTimer, onWsReconnectTimer, freeHandle, h.hasHandle,
      h.awaiting, h.polls, h.timers, h.receiving, h.ops, h.events, h.dispatching] at hstep
  exact hstep.symm

namespace Socket

def AnySocket.Inert : AnySocket -> Prop
  | .absent => True
  | .tcp s => s.Inert
  | .udp s => s.Inert
  | .ws c => c.Inert

def Action.isNew : Action -> Bool
  | .newTcp | .acceptTcp _ | .newUdp | .newWs => true
  | .tcp _ | .udp _ | .ws _ => false

theorem AnySocket.Inert.step {s s' : AnySocket} (h : s.Inert) {action : Action}
    (hnew : action.isNew = false) (hstep : machine.step action s = some s') : s' = s := by
  cases step_of_eq_some hstep with
  | newTcp | acceptTcp n | newUdp | newWs => cases hnew
  | tcp ht => exact congrArg AnySocket.tcp (Tcp.TcpSocket.Inert.step h ht)
  | udp ht => exact congrArg AnySocket.udp (Udp.UdpSocket.Inert.step h ht)
  | ws hc => exact congrArg AnySocket.ws (Ws.WsConnection.Inert.step h hc)

end Socket
end Async2
