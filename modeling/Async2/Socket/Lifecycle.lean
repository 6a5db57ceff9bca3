import Async2.Socket.System
import Async2.Socket.TcpRuns
import Async2.Socket.TcpTraffic
import Async2.Socket.UdpRuns
import Async2.Socket.UdpTraffic
import Async2.Socket.WsTraffic

/-!
# Life cycles of sockets

What the single machines keep, for all sockets of a run: objects that are not used
after their deletion, close events, library handles with one owner, and the
connections of a WebSocket.
-/

namespace Async2.Socket

open TransitionSystem Ws.WsConnection Tcp.TcpSocket Udp.UdpSocket

/-!
## Objects
-/

/-- The event thread has reached the deleted object through an operation or through
the map of its kind. -/
def AnySocket.usedAfterFree : AnySocket -> Bool
  | .absent => false
  | .tcp s => s.usedAfterFree
  | .udp s => s.usedAfterFree
  | .ws c => c.usedAfterFree

/-- The plugin does not start a socket again that was connected or closed, and it
does not pass its handle to a native that frees it. -/
def KeepsObject : AnySocket -> Action -> Prop
  | .tcp s, .tcp a => Tcp.KeepsObject s a
  | .udp s, .udp a => Udp.KeepsObject s a
  | .ws c, .ws a => Ws.ConnectsOnce c a
  | _, _ => True

def Safe : AnySocket -> Prop
  | .absent => True
  | .tcp s => s.Safe
  | .udp s => s.Safe
  | .ws c => c.ConnectedOnce True False False ∧ c.shell.Sound

theorem safe_step {action : Action} {s s' : AnySocket} (h : Safe s)
    (hallowed : KeepsObject s action) (hstep : Step action s s') : Safe s' := by
  cases hstep with
  | newTcp => exact safe_new
  | acceptTcp n => exact safe_accepted n
  | newUdp => exact safe_new
  | newWs => exact ⟨connectedOnce_new, sound_new⟩
  | tcp hstep => exact Tcp.safe_step h hallowed hstep
  | udp hstep => exact Udp.safe_step h hallowed hstep
  | ws hstep =>
    rcases h with ⟨honce, hsound⟩
    exact ⟨Ws.connectedOnce_step honce hallowed False.elim (fun hnot => absurd trivial hnot)
      False.elim hstep, Ws.sound_step honce hsound hallowed hstep⟩

/-- No operation and no entry of a map leads the event thread to a deleted socket. -/
theorem usedAfterFree_of_runs {s : Nat -> AnySocket} (h : Runs KeepsObject s) (i : Nat) :
    (s i).usedAfterFree = false := by
  have hsafe : Safe (s i) :=
    h.invariant Safe trivial (fun _ _ _ hinv ha hstep => safe_step hinv ha hstep) i
  cases hs : s i with
  | absent => rfl
  | tcp t =>
    rw [hs] at hsafe
    exact hsafe.sound.unused
  | udp t =>
    rw [hs] at hsafe
    exact hsafe.sound.unused
  | ws c =>
    rw [hs] at hsafe
    exact hsafe.2.unused

/-- A socket is closed before the resolver has answered to its Connect. -/
def closeRun : List (Nat × Action) :=
  [(0, .newTcp), (0, .tcp (.request .connect)), (0, .tcp (.op 0)), (0, .tcp .requestClose),
    (0, .tcp (.op 0)), (0, .tcp (.resolved .connect ⟨0, 0, 0⟩)), (0, .tcp .dispatch),
    (0, .tcp .finish)]

theorem usedAfterFree_closeRun :
    exists s, sockets.run closeRun sockets.init = some s ∧ Runs KeepsObject s ∧
      (s 0).usedAfterFree = false := by
  refine ⟨_, rfl, ?_⟩
  have hruns : Runs KeepsObject _ := reaches_of_run closeRun .init
    ⟨trivial, fun _ => rfl, trivial, trivial, trivial, trivial, trivial, trivial, trivial⟩ rfl
  exact ⟨hruns, usedAfterFree_of_runs hruns 0⟩

/-- Connect in the callback of the close event: the socket is deleted after the
callback, and the operation still carries its address. -/
def reconnectRun : List (Nat × Action) :=
  [(0, .newTcp), (0, .tcp (.request .connect)), (0, .tcp .requestClose), (0, .tcp (.op 0)),
    (0, .tcp (.op 0)), (0, .tcp .dispatch), (0, .tcp (.request .connect)), (0, .tcp .finish),
    (0, .tcp (.op 0))]

theorem usedAfterFree_reconnectRun :
    exists s, sockets.run reconnectRun sockets.init = some s ∧ (s 0).usedAfterFree = true :=
  ⟨_, rfl, rfl⟩

/-!
## Close events
-/

namespace AnySocket

def closeIssued : AnySocket -> Bool
  | .absent => false
  | .tcp s => s.issued.any Tcp.TcpOp.isClose
  | .udp s => s.issued.any Udp.UdpOp.isClose
  | .ws c => c.issued.any Ws.WsOp.isClose

def closedEvents : AnySocket -> Nat
  | .absent => 0
  | .tcp s => s.pushed.countP fun e => isCloseEvent e.type
  | .udp s => s.pushed.countP fun e => isCloseEvent e.type
  | .ws c => c.pushed.countP fun e => isCloseEvent e.type

/-- All operations are processed, and no callback of the resolver or of a library is
still to come.  A ping timer never stops by itself. -/
def Quiescent : AnySocket -> Prop
  | .absent => True
  | .tcp s => s.ops = [] ∧ s.lookups = [] ∧ s.uv.Settled
  | .udp s => s.ops = [] ∧ s.lookups = [] ∧ s.uv.Settled
  | .ws c =>
    c.ops = [] ∧ c.awaiting = [] ∧ c.receiving = false ∧
      forall t kind, (t, kind) ∈ c.timers -> kind = .ping

end AnySocket

/-- The socket comes from New, is started once before it is closed, and
`curl_easy_init` succeeds for it. -/
def ClosesStarted : AnySocket -> Action -> Prop
  | .absent, .acceptTcp _ => False
  | .tcp s, .tcp a => Tcp.StartsOnce s a ∧ Tcp.ClosesStarted s a
  | .udp s, .udp a => Udp.StartsOnce s a ∧ Udp.ClosesStarted s a
  | .ws c, .ws a => Ws.ConnectsOnce c a ∧ Ws.ClosesStarted c a ∧ Ws.InitSucceeds c a
  | _, _ => True

def Started : AnySocket -> Prop
  | .absent => True
  | .tcp s => s.StartedOnce True True
  | .udp s => s.StartedOnce True
  | .ws c => c.ConnectedOnce False False True

variable {action : Action} {s s' : AnySocket}

theorem started_step (h : Started s) (hallowed : ClosesStarted s action)
    (hstep : Step action s s') : Started s' := by
  cases hstep with
  | newTcp => exact startedOnce_new
  | acceptTcp n => exact hallowed.elim
  | newUdp => exact startedOnce_new
  | newWs => exact connectedOnce_new
  | tcp hstep =>
    exact Tcp.startedOnce_step h hallowed.1 (fun hnot => absurd trivial hnot)
      (fun _ => hallowed.2) hstep
  | udp hstep => exact Udp.startedOnce_step h hallowed.1 (fun _ => hallowed.2) hstep
  | ws hstep =>
    rcases hallowed with ⟨honce, hcloses, hinit⟩
    exact Ws.connectedOnce_step h honce False.elim (fun _ => hinit)
      (fun _ => hcloses) hstep

/-- A closed socket that has come to rest has reported its end exactly once. -/
theorem closedEvents_of_runs {s : Nat -> AnySocket} (h : Runs ClosesStarted s) (i : Nat)
    (hclose : (s i).closeIssued = true) (hrest : (s i).Quiescent) : (s i).closedEvents = 1 := by
  have hstarted : Started (s i) :=
    h.invariant Started trivial (fun _ _ _ hinv ha hstep => started_step hinv ha hstep) i
  cases hs : s i with
  | absent =>
    rw [hs] at hclose
    cases hclose
  | tcp t =>
    rw [hs] at hstarted hclose hrest
    rcases hrest with ⟨hops, -, hsettled⟩
    have hdone : t.core.closeDone = true := hstarted.closes_processed trivial hops hclose
    exact hstarted.stage.closedEvents_of_settled hdone hsettled
  | udp t =>
    rw [hs] at hstarted hclose hrest
    rcases hrest with ⟨hops, -, hsettled⟩
    have hdone : t.core.closeDone = true := hstarted.closes_processed trivial hops hclose
    exact hstarted.stage.closedEvents_of_settled hdone hsettled
  | ws c =>
    rw [hs] at hstarted hclose hrest
    rcases hrest with ⟨hops, -, -, htimers⟩
    have hdone : c.life.closeDone = true := hstarted.closes_processed trivial hops hclose
    exact hstarted.stage.reported_of_idle hdone fun t hmem => by cases htimers t _ hmem

theorem closedEvents_closeRun :
    exists s, sockets.run closeRun sockets.init = some s ∧ Runs ClosesStarted s ∧
      (s 0).closeIssued = true ∧ (s 0).Quiescent ∧ (s 0).closedEvents = 1 := by
  refine ⟨_, rfl, ?_⟩
  have hruns : Runs ClosesStarted _ := reaches_of_run closeRun .init
    ⟨trivial, ⟨fun _ => rfl, trivial⟩, ⟨trivial, trivial⟩, ⟨trivial, rfl⟩, ⟨trivial, trivial⟩,
      ⟨trivial, trivial⟩, ⟨trivial, trivial⟩, ⟨trivial, trivial⟩, trivial⟩ rfl
  have hsettled : UvTable.Settled {} := fun _ _ hu => by cases hu
  exact ⟨hruns, rfl, And.intro rfl (And.intro rfl hsettled),
    closedEvents_of_runs hruns 0 rfl (And.intro rfl (And.intro rfl hsettled))⟩

/-- Close on a socket that was never started: the event thread does not know it. -/
def unstartedRun : List (Nat × Action) :=
  [(0, .newTcp), (0, .tcp .requestClose), (0, .tcp (.op 0))]

theorem closedEvents_unstartedRun :
    exists s, sockets.run unstartedRun sockets.init = some s ∧ (s 0).closeIssued = true ∧
      (s 0).Quiescent ∧ (s 0).closedEvents = 0 := by
  have hsettled : UvTable.Settled {} := fun _ _ hu => by cases hu
  exact ⟨_, rfl, rfl, And.intro rfl (And.intro rfl hsettled), rfl⟩

/-!
## Library handles
-/

/-- Every handle that is not fully closed is the current handle of the registered
socket, `uv_close` was called on it at most once, and each callback found its own
handle in the socket. -/
structure OwnsHandles (uv : UvTable) (uvHandle : Option Nat) (registered foreignCallback : Bool) :
    Prop where
  current : forall h u, uv.handles h = some u -> uvHandle = some h ∧ registered = true
  closeCalls : forall h, uv.closeCalls h <= 1
  own : foreignCallback = false

def AnySocket.OwnsHandles : AnySocket -> Prop
  | .absent | .ws _ => True
  | .tcp s => Socket.OwnsHandles s.uv s.uvHandle s.registered s.foreignCallback
  | .udp s => Socket.OwnsHandles s.uv s.uvHandle s.registered s.foreignCallback

/-- The socket comes from New, is started at most once, and its handle can be bound
and can listen. -/
def KeepsHandle : AnySocket -> Action -> Prop
  | .absent, .acceptTcp _ => False
  | .tcp s, .tcp a => Tcp.StartsOnce s a ∧ Tcp.KeepsHandle a
  | .udp s, .udp a => Udp.StartsOnce s a
  | _, _ => True

def Owner : AnySocket -> Prop
  | .absent | .ws _ => True
  | .tcp s => s.StartedOnce False False
  | .udp s => s.StartedOnce False

theorem owner_step (h : Owner s) (hallowed : KeepsHandle s action) (hstep : Step action s s') :
    Owner s' := by
  cases hstep with
  | newTcp => exact startedOnce_new
  | acceptTcp n => exact hallowed.elim
  | newUdp => exact startedOnce_new
  | newWs => trivial
  | tcp hstep =>
    exact Tcp.startedOnce_step h hallowed.1 (fun _ => hallowed.2) False.elim hstep
  | udp hstep => exact Udp.startedOnce_step h hallowed False.elim hstep
  | ws hstep => trivial

theorem ownsHandles_of_runs {s : Nat -> AnySocket} (h : Runs KeepsHandle s) (i : Nat) :
    (s i).OwnsHandles := by
  have howner : Owner (s i) :=
    h.invariant Owner trivial (fun _ _ _ hinv ha hstep => owner_step hinv ha hstep) i
  cases hs : s i with
  | absent => trivial
  | tcp t =>
    rw [hs] at howner
    exact
      { current := fun k u hu => howner.stage.owner hu
        closeCalls := howner.stage.uv.calls_le
        own := howner.own }
  | udp t =>
    rw [hs] at howner
    exact
      { current := fun k u hu => howner.stage.owner hu
        closeCalls := howner.stage.uv.calls_le
        own := howner.own }
  | ws c => trivial

/-- A socket listens and is then closed. -/
def listenRun : List (Nat × Action) :=
  [(0, .newTcp), (0, .tcp (.request .listen)), (0, .tcp (.op 0)),
    (0, .tcp (.resolved .listen ⟨0, 0, 0⟩)), (0, .tcp .requestClose), (0, .tcp (.op 0))]

theorem ownsHandles_listenRun :
    exists s, sockets.run listenRun sockets.init = some s ∧ Runs KeepsHandle s ∧
      (s 0).OwnsHandles := by
  refine ⟨_, rfl, ?_⟩
  have hruns : Runs KeepsHandle _ := reaches_of_run listenRun .init
    ⟨trivial, ⟨fun _ => rfl, trivial⟩, ⟨trivial, trivial⟩, ⟨trivial, rfl⟩, ⟨trivial, trivial⟩,
      ⟨trivial, trivial⟩, trivial⟩ rfl
  exact ⟨hruns, ownsHandles_of_runs hruns 0⟩

/-- Listen after Bind: the handle of the Bind is lost when the one that listens
takes its place. -/
def bindListenRun : List (Nat × Action) :=
  [(0, .newTcp), (0, .tcp (.request .bind)), (0, .tcp (.request .listen)), (0, .tcp (.op 0)),
    (0, .tcp (.op 0)), (0, .tcp (.resolved .bind ⟨0, 0, 0⟩)),
    (0, .tcp (.resolved .listen ⟨0, 0, 0⟩))]

theorem not_ownsHandles_bindListenRun :
    exists s, sockets.run bindListenRun sockets.init = some s ∧ ¬(s 0).OwnsHandles := by
  refine ⟨_, rfl, fun h => ?_⟩
  have hcurrent : some 1 = some 0 := (OwnsHandles.current h 0 {} rfl).1
  cases hcurrent

/-!
## Connections of a WebSocket
-/

/-- At most one easy handle and one poll exist, those that the connection names, and
objects that point to the connection exist only while it is registered. -/
structure OneConnection (c : Ws.WsConnection) : Prop where
  easies : c.easies = c.curlHandle.toList
  polls : c.polls = c.uvPoll.toList
  registered : c.easies ≠ [] ∨ c.polls ≠ [] ∨ c.timers ≠ [] -> c.registered = true

def AnySocket.OneConnection : AnySocket -> Prop
  | .ws c => Socket.OneConnection c
  | _ => True

/-- Connect is issued at most once on a WebSocket, whose handle is not passed to a native
that frees it. -/
def ConnectsOnce : AnySocket -> Action -> Prop
  | .ws c, .ws a => Ws.ConnectsOnce c a
  | _, _ => True

def ConnectedOnce : AnySocket -> Prop
  | .ws c => c.ConnectedOnce True False False
  | _ => True

theorem connectedOnce_step (h : ConnectedOnce s) (hallowed : ConnectsOnce s action)
    (hstep : Step action s s') : ConnectedOnce s' := by
  cases hstep with
  | newTcp | acceptTcp n | newUdp => trivial
  | newWs => exact connectedOnce_new
  | tcp hstep | udp hstep => trivial
  | ws hstep =>
    exact Ws.connectedOnce_step h hallowed False.elim (fun hnot => absurd trivial hnot)
      False.elim hstep

theorem oneConnection_of_runs {s : Nat -> AnySocket} (h : Runs ConnectsOnce s) (i : Nat) :
    (s i).OneConnection := by
  have honce : ConnectedOnce (s i) :=
    h.invariant ConnectedOnce trivial
      (fun _ _ _ hinv ha hstep => connectedOnce_step hinv ha hstep) i
  cases hs : s i with
  | absent => trivial
  | tcp t => trivial
  | udp t => trivial
  | ws c =>
    rw [hs] at honce
    exact
      { easies := honce.stage.easies_eq
        polls := honce.stage.polls_eq
        registered := fun hany => by
          refine (honce.stage.active_of_resources fun hempty => ?_).registered
          have heasies : c.easies = [] := congrArg Ws.Resources.easies hempty
          have hpolls : c.polls = [] := congrArg Ws.Resources.polls hempty
          have htimers : c.timers = [] := congrArg Ws.Resources.timers hempty
          rcases hany with hne | hne | hne
          · exact hne heasies
          · exact hne hpolls
          · exact hne htimers }

/-- A WebSocket connects, loses its connection and tries again. -/
def wsRun : List (Nat × Action) :=
  [(0, .newWs), (0, .ws (.setReconnect 1)), (0, .ws (.request .connect)),
    (0, .ws (.op ⟨true, 0, false⟩)), (0, .ws (.connectDone 0 0)), (0, .ws (.pollActivity 1 0)),
    (0, .ws (.recv .gotNothing)), (0, .ws (.reconnectTimer 2 true))]

theorem oneConnection_wsRun :
    exists s, sockets.run wsRun sockets.init = some s ∧ Runs ConnectsOnce s ∧
      (s 0).OneConnection := by
  refine ⟨_, rfl, ?_⟩
  have hruns : Runs ConnectsOnce _ := reaches_of_run wsRun .init
    ⟨trivial, trivial, fun _ => rfl, trivial, trivial, trivial, trivial, trivial, trivial⟩ rfl
  exact ⟨hruns, oneConnection_of_runs hruns 0⟩

/-- Connect is issued twice: the first easy handle is forgotten. -/
def wsTwiceRun : List (Nat × Action) :=
  [(0, .newWs), (0, .ws (.request .connect)), (0, .ws (.request .connect)),
    (0, .ws (.op ⟨true, 0, false⟩)), (0, .ws (.op ⟨true, 0, false⟩))]

theorem not_oneConnection_wsTwiceRun :
    exists s, sockets.run wsTwiceRun sockets.init = some s ∧ ¬(s 0).OneConnection := by
  refine ⟨_, rfl, fun h => ?_⟩
  have heasies : [1, 0] = [1] := OneConnection.easies h
  cases heasies

/-!
## The life of a WebSocket
-/

/-- Connect is issued at most once on a WebSocket, and the number of reconnects is
fixed from then on. -/
def ConnectsOnceFixed : AnySocket -> Action -> Prop
  | .ws c, .ws a => Ws.ConnectsOnce c a ∧ Ws.FixesReconnects c a
  | _, _ => True

def ConnectedOnceFixed : AnySocket -> Prop
  | .ws c => c.ConnectedOnce True True False
  | _ => True

theorem connectedOnceFixed_step (h : ConnectedOnceFixed s) (hallowed : ConnectsOnceFixed s action)
    (hstep : Step action s s') : ConnectedOnceFixed s' := by
  cases hstep with
  | newTcp | acceptTcp n | newUdp => trivial
  | newWs => exact connectedOnce_new
  | tcp hstep | udp hstep => trivial
  | ws hstep =>
    exact Ws.connectedOnce_step h hallowed.1 (fun _ => hallowed.2)
      (fun hnot => absurd trivial hnot) False.elim hstep

/-- What holds of a WebSocket at any time: its end is reported once and last, a
processed close operation ends the making of easy handles, its state tells its
library objects while it is registered, and the attempts to reconnect since the last
successful connect are bounded. -/
structure Orderly (c : Ws.WsConnection) : Prop where
  closedLast : forall pre e post, c.pushed = pre ++ e :: post ->
    e.type = .wsClosed -> post = []
  closedEnds : c.processed.any Ws.WsOp.isClose = true ->
    forall action c', Ws.step action c = some c' -> c'.created = c.created
  shape : c.registered = true -> Ws.Resources.Shape c.state c.resources
  attempts : 0 < c.maxReconnects -> (c.attempts : Int) <= c.maxReconnects

theorem orderly_of_runs {s : Nat -> AnySocket} (h : Runs ConnectsOnceFixed s) {i : Nat}
    {c : Ws.WsConnection} (hs : s i = .ws c) : Orderly c := by
  have honce : ConnectedOnceFixed (s i) :=
    h.invariant ConnectedOnceFixed trivial
      (fun _ _ _ hinv ha hstep => connectedOnceFixed_step hinv ha hstep) i
  rw [hs] at honce
  exact
    { closedLast := fun pre e post hpushed htype =>
        honce.stage.endsLast pre e post hpushed (by rw [htype]; rfl)
      closedEnds := by
        intro hclose action c' hstep
        refine Ws.created_step (honce.marked ?_) hstep
        rw [honce.issued_eq, List.any_append, show c.issue.processed.any _ = true from hclose]
        rfl
      shape := fun hreg => (honce.stage.active_of_registered hreg).shape
      attempts := honce.stage.attempts_le trivial }

theorem orderly_wsRun :
    exists s, sockets.run wsRun sockets.init = some s ∧ Runs ConnectsOnceFixed s ∧
      exists c, s 0 = .ws c ∧ Orderly c := by
  refine ⟨_, rfl, ?_⟩
  have hruns : Runs ConnectsOnceFixed _ := reaches_of_run wsRun .init
    ⟨trivial, ⟨trivial, Or.inl rfl⟩, ⟨fun _ => rfl, trivial⟩, ⟨trivial, trivial⟩,
      ⟨trivial, trivial⟩, ⟨trivial, trivial⟩, ⟨trivial, trivial⟩, ⟨trivial, trivial⟩, trivial⟩ rfl
  exact ⟨hruns, _, rfl, orderly_of_runs (i := 0) hruns rfl⟩

end Async2.Socket
