import Async2.Socket.Traffic
import Async2.Socket.Udp

/-!
# Runs of a UDP socket that keep its object

Only Close can lead to the close event of a UDP socket.  When no Bind is issued
behind it, the event thread never reaches a deleted object.
-/

namespace Async2.Udp

open Socket

/-- The operation that can lead to the close event. -/
def UdpOp.seals : UdpOp -> Bool
  | .close => true
  | .bind | .send _ | .setOption _ _ => false

/-- The handle is not being closed. -/
def Calm (u : UvHandle) : Prop := u.closing ≠ some .onClosed

namespace UdpSocket

def shell (s : UdpSocket) : Shell where
  live := s.live
  hasHandle := s.hasHandle
  events := s.events
  dispatching := s.dispatching
  pushed := s.pushed
  usedAfterFree := s.usedAfterFree

def traffic (s : UdpSocket) : Traffic UdpOp where
  shell := s.shell
  registered := s.registered
  looking := false
  uv := s.uv
  ops := s.ops
  issued := s.issued
  processed := s.processed

def Safe (s : UdpSocket) : Prop := s.traffic.Safe UdpOp.seals UdpOp.hasSocketPtr Calm

variable {s s' : UdpSocket} {k : Nat}

theorem safe_new : new.Safe :=
  Traffic.safe_start rfl rfl rfl rfl rfl fun _ _ hu => by cases hu

section

variable (h : s.Safe)
include h

theorem Safe.setState (state : UdpState) : (s.setState state).Safe := h

theorem Safe.callbackOf (k : Nat) : (s.callbackOf k).Safe := h

theorem Safe.resolve (lookup : Lookup) : (s.resolve lookup).Safe := h

theorem Safe.takeLookup (lookup : Lookup) : (s.takeLookup lookup).Safe := h

theorem Safe.pushSocketEvent {e : SocketEvent} (he : isCloseEvent e.type = false) :
    (s.pushSocketEvent e).Safe :=
  Traffic.Safe.push h he

theorem Safe.pushError (code : Int) : (s.pushError code).Safe :=
  h.pushSocketEvent rfl

theorem Safe.touch (hreg : s.registered = true) : s.touch.Safe :=
  Traffic.Safe.touch h (h.not_ended_of_registered hreg)

theorem Safe.end (hsealed : s.traffic.sealed UdpOp.seals = true) : s.pushClosed.unregister.Safe :=
  Traffic.Safe.pushClosed h hsealed _

theorem Safe.newHandle : s.newHandle.Safe :=
  Traffic.Safe.setUv h fun hnot => UvTable.calm_init nofun (h.calm hnot)

theorem Safe.modifyHandle (k : Nat) {f : UvHandle -> UvHandle}
    (hf : forall u, Calm u -> Calm (f u)) : (s.modifyHandle k f).Safe :=
  Traffic.Safe.setUv h fun hnot =>
    UvTable.calm_modify (fun u hu => hf u (h.calm hnot k u hu)) (h.calm hnot)

theorem Safe.deleteHandle : s.deleteHandle.Safe := by
  unfold UdpSocket.deleteHandle
  split
  · exact h
  · exact Traffic.Safe.setUv h fun hnot => UvTable.calm_delete (h.calm hnot)

/-!
## Natives and dispatch
-/

theorem Safe.request {op : UdpOp}
    (hallowed : op.hasSocketPtr = true -> s.issued.any UdpOp.seals = false)
    (hstep : s.request op = some s') : s'.Safe := by
  rcases Option.ite_none_right_eq_some.mp hstep with ⟨hhandle, hstep⟩
  cases hstep
  exact Traffic.Safe.enqueue h hhandle hallowed

theorem Safe.requestClose (hstep : s.requestClose = some s') : s'.Safe := by
  rcases Option.ite_none_right_eq_some.mp hstep with ⟨hhandle, hstep⟩
  cases hstep
  exact Traffic.Safe.enqueue h hhandle fun hptr => by cases hptr

theorem Safe.dispatch (hstep : s.dispatch = some s') : s'.Safe := by
  unfold UdpSocket.dispatch at hstep
  split at hstep
  case h_1 e rest hevents hnone =>
    split at hstep <;> cases hstep
    · exact Traffic.Safe.dispatch h hevents
    · exact Traffic.Safe.drop h hevents
  · cases hstep

end

theorem traffic_freeHandle (s : UdpSocket) :
    s.freeHandle.traffic = { s.traffic with shell := s.shell.freeHandle } := by
  cases hhandle : s.hasHandle <;> simp [freeHandle, Shell.freeHandle, shell, traffic, hhandle]

variable (h : s.Safe)
include h

theorem Safe.finish (hstep : s.finish = some s') : s'.Safe := by
  unfold UdpSocket.finish at hstep
  split at hstep
  · cases hstep
  case h_2 e hdispatching =>
    have hdone : { s with dispatching := none }.Safe := Traffic.Safe.finish h
    dsimp only at hstep
    split at hstep <;> cases hstep
    case isTrue hclose =>
      unfold Safe
      rw [traffic_freeHandle]
      exact hdone.freeHandle ⟨e, h.sound.dispatching e hdispatching, hclose⟩
    · exact hdone

/-!
## Operations
-/

theorem Safe.onAsyncUdpOp (hstep : s.onAsyncUdpOp = some s') : s'.Safe := by
  unfold UdpSocket.onAsyncUdpOp at hstep
  split at hstep
  · cases hstep
  case h_2 op rest hops =>
    cases hstep
    have htake : (s.takeOp op rest).Safe := Traffic.Safe.take h hops
    cases op with
    | bind =>
      have hnot : ¬s.shell.Ended := h.not_ended_of_head hops rfl
      have hreg : (s.takeOp .bind rest).register.Safe := Traffic.Safe.register htake hnot
      have htouch := hreg.touch rfl
      change (s.takeOp .bind rest).processUdpBind.Safe
      unfold processUdpBind
      dsimp only
      split
      · exact htouch
      · exact htouch.resolve .bind
    | send data =>
      change ((s.takeOp (.send data) rest).processUdpSend data).Safe
      unfold processUdpSend
      split
      case isFalse => exact htake
      case isTrue hreg =>
        have htouch := htake.touch hreg
        dsimp only
        split
        · exact htouch
        · exact htouch.resolve _
    | setOption option value =>
      change (s.takeOp (.setOption option value) rest).processUdpSetOption.Safe
      unfold processUdpSetOption
      split
      case isFalse => exact htake
      case isTrue hreg => exact htake.touch hreg
    | close =>
      have hsealed : (s.takeOp .close rest).traffic.sealed UdpOp.seals = true := by
        refine List.any_eq_true.mpr ⟨.close, ?_, rfl⟩
        exact List.mem_append_right _ List.mem_cons_self
      change (s.takeOp .close rest).processUdpClose.Safe
      unfold processUdpClose
      split
      case isFalse => exact htake
      case isTrue hreg =>
        have htouch := htake.touch hreg
        dsimp only
        split
        · exact htouch
        · split
          · exact Traffic.Safe.setUv htouch fun hnot => by cases hsealed.symm.trans hnot
          · exact (htouch.setState .closed).end hsealed

/-!
## Callbacks
-/

theorem Safe.resolvedBind (bindRc recvRc : Int) : (s.resolvedBind bindRc recvRc).Safe := by
  unfold UdpSocket.resolvedBind
  dsimp only
  split
  · exact h.newHandle.pushError bindRc
  · split
    · exact h.newHandle.pushError recvRc
    · refine Safe.setState ?_ .bound
      exact h.newHandle.modifyHandle _ fun u hu => hu

theorem Safe.resolvedSend (rc : Int) : (s.resolvedSend rc).Safe := by
  unfold UdpSocket.resolvedSend
  split
  · exact h
  · split
    · exact h
    · exact h.modifyHandle _ fun u hu => hu

theorem Safe.resolved {lookup : Lookup} {answer : Answer}
    (hstep : s.resolved lookup answer = some s') : s'.Safe := by
  unfold UdpSocket.resolved at hstep
  split at hstep
  · cases hstep
  have htake := h.takeLookup lookup
  dsimp only at hstep
  split at hstep
  · cases hstep
    exact htake
  case isFalse hreg =>
    have htouch := htake.touch (Bool.of_not_eq_false hreg)
    cases lookup with
    | bind =>
      dsimp only at hstep
      split at hstep
      · cases hstep
        exact htouch
      · split at hstep <;> cases hstep
        · exact htouch.pushError _
        · exact htouch.resolvedBind _ _
    | send data =>
      dsimp only at hstep
      split at hstep
      · cases hstep
        exact htouch
      · split at hstep <;> cases hstep
        · exact htouch.pushError _
        · exact htouch.resolvedSend _

theorem Safe.onUdpRead {result : ReadResult} (hstep : s.onUdpRead k result = some s') :
    s'.Safe := by
  unfold UdpSocket.onUdpRead at hstep
  split at hstep
  · cases hstep
  split at hstep
  · cases hstep
  cases result with
  | datagram bytes hasSender =>
    dsimp only at hstep
    split at hstep <;> cases hstep
    · exact h.callbackOf k
    · exact (h.callbackOf k).pushSocketEvent rfl
  | error code =>
    cases hstep
    exact (h.callbackOf k).pushError code

theorem Safe.onUdpSendDone (hstep : s.onUdpSendDone k = some s') : s'.Safe := by
  unfold UdpSocket.onUdpSendDone at hstep
  split at hstep
  · cases hstep
  split at hstep <;> cases hstep
  exact (h.callbackOf k).modifyHandle k fun u hu => hu

theorem Safe.closed (hstep : s.closed k = some s') : s'.Safe := by
  unfold UdpSocket.closed at hstep
  split at hstep
  · cases hstep
  case h_2 u hu =>
    split at hstep
    case isFalse => cases hstep
    case isTrue hready =>
      cases hstep
      have hsealed : s.traffic.sealed UdpOp.seals = true :=
        Bool.of_not_eq_false fun hnot => h.calm hnot k u hu hready.1
      have hdeleted := ((h.callbackOf k).setState .closed).deleteHandle
      refine hdeleted.end ?_
      unfold UdpSocket.deleteHandle
      split <;> exact hsealed

end UdpSocket

/-!
## Runs
-/

/-- No Bind is issued behind a Close, and the handle is not passed to a native that
frees it. -/
def KeepsObject (s : UdpSocket) : Action -> Prop
  | .request op => op.hasSocketPtr = true -> s.issued.any UdpOp.seals = false
  | .freeArgument => False
  | _ => True

theorem safe_step {s s' : UdpSocket} {action : Action} (h : s.Safe)
    (hallowed : KeepsObject s action) (hstep : step action s = some s') : s'.Safe := by
  cases action with
  | request op => exact h.request hallowed (Option.ite_none_right_eq_some.mp hstep).right
  | requestClose => exact h.requestClose hstep
  | freeArgument => exact hallowed.elim
  | dispatch => exact h.dispatch hstep
  | finish => exact h.finish hstep
  | op => exact h.onAsyncUdpOp hstep
  | resolved lookup answer => exact h.resolved hstep
  | read k result => exact h.onUdpRead hstep
  | sendDone k => exact h.onUdpSendDone hstep
  | closed k => exact h.closed hstep

end Async2.Udp
