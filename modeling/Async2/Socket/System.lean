import Async2.Foundation.Family
import Async2.Socket.Tcp
import Async2.Socket.Udp
import Async2.Socket.Ws

/-!
# All sockets

The extension has any number of sockets of the three kinds.  They share the queues
of the two threads, but an operation or event names its socket, and one socket finds
its own entries in the order in which they were queued; so each socket is a machine
of its own.  A socket is known here by the number of its object.
-/

namespace Async2.Socket

open TransitionSystem Option

inductive AnySocket where
  | absent
  | tcp (s : Tcp.TcpSocket)
  | udp (s : Udp.UdpSocket)
  | ws (c : Ws.WsConnection)

inductive Action where
  | newTcp
  | acceptTcp (maxChunkSize : Int)
  | newUdp
  | newWs
  | tcp (a : Tcp.Action)
  | udp (a : Udp.Action)
  | ws (a : Ws.Action)

def step : Action -> AnySocket -> Option AnySocket
  | .newTcp, .absent => some (.tcp .new)
  | .acceptTcp maxChunkSize, .absent => some (.tcp (.accepted maxChunkSize))
  | .newUdp, .absent => some (.udp .new)
  | .newWs, .absent => some (.ws .new)
  | .tcp a, .tcp s => (Tcp.step a s).map .tcp
  | .udp a, .udp s => (Udp.step a s).map .udp
  | .ws a, .ws c => (Ws.step a c).map .ws
  | _, _ => none

def machine : System AnySocket Action where
  init := .absent
  step := step

def sockets : System (Nat -> AnySocket) (Nat × Action) := family machine

section

variable {action : Action} {s s' : AnySocket}

/-- A step creates the socket or is a step of its machine. -/
inductive Step : Action -> AnySocket -> AnySocket -> Prop where
  | newTcp : Step .newTcp .absent (.tcp .new)
  | acceptTcp (n : Int) : Step (.acceptTcp n) .absent (.tcp (.accepted n))
  | newUdp : Step .newUdp .absent (.udp .new)
  | newWs : Step .newWs .absent (.ws .new)
  | tcp {a : Tcp.Action} {t t' : Tcp.TcpSocket} (h : Tcp.step a t = some t') :
      Step (.tcp a) (.tcp t) (.tcp t')
  | udp {a : Udp.Action} {t t' : Udp.UdpSocket} (h : Udp.step a t = some t') :
      Step (.udp a) (.udp t) (.udp t')
  | ws {a : Ws.Action} {c c' : Ws.WsConnection} (h : Ws.step a c = some c') :
      Step (.ws a) (.ws c) (.ws c')

theorem step_of_eq_some (h : machine.step action s = some s') : Step action s s' := by
  change step action s = some s' at h
  unfold step at h
  split at h
  · cases h
    exact .newTcp
  case h_2 n =>
    cases h
    exact .acceptTcp n
  case h_3 =>
    cases h
    exact .newUdp
  case h_4 =>
    cases h
    exact .newWs
  case h_5 =>
    rcases map_eq_some_iff.mp h with ⟨t, ht, rfl⟩
    exact .tcp ht
  case h_6 =>
    rcases map_eq_some_iff.mp h with ⟨t, ht, rfl⟩
    exact .udp ht
  case h_7 =>
    rcases map_eq_some_iff.mp h with ⟨c, hc, rfl⟩
    exact .ws hc
  case h_8 => cases h

end

/-- The runs in which every socket keeps to a condition on its own actions. -/
def Runs (Allowed : AnySocket -> Action -> Prop) (s : Nat -> AnySocket) : Prop :=
  Reaches sockets (fun s action => Allowed (s action.1) action.2) s

/-- What a new socket has and every allowed step of a socket keeps holds of all
sockets. -/
theorem Runs.invariant {Allowed : AnySocket -> Action -> Prop} (Inv : AnySocket -> Prop)
    (habsent : Inv .absent)
    (hkeeps : forall action s s', Inv s -> Allowed s action -> Step action s s' -> Inv s')
    {s : Nat -> AnySocket} (h : Runs Allowed s) (i : Nat) : Inv (s i) :=
  (Reaches.component h i).invariant Inv habsent
    fun s action s' hinv hallowed hstep =>
      hkeeps action s s' hinv hallowed (step_of_eq_some hstep)

end Async2.Socket
