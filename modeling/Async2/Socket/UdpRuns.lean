import Async2.Socket.Owner
import Async2.Socket.Udp
import Mathlib.Data.List.Count

/-!
# Runs of a UDP socket that is bound once

When Bind is issued only once, the core of the socket stays in one of the three
stages, and every callback of the library finds its own handle in the socket.  A
UDP socket never gives up its handle.
-/

namespace Async2.Udp

open Socket List Lookup

def UdpState.phase : UdpState -> Phase
  | .closing => .closing
  | .closed => .closed
  | .created | .bound => .opened

def UdpOp.isClose : UdpOp -> Bool
  | .close => true
  | _ => false

theorem UdpOp.isClose_of_hasSocketPtr (op : UdpOp) :
    op.hasSocketPtr = true -> op.isClose = false := by
  cases op <;> simp [UdpOp.hasSocketPtr, UdpOp.isClose]

namespace UdpSocket

def core (s : UdpSocket) : Core where
  started := s.processed.any UdpOp.hasSocketPtr
  closeDone := closesAfterStart UdpOp.hasSocketPtr UdpOp.isClose s.processed
  registered := s.registered
  lookups := s.lookups.countP Lookup.isBind
  uvHandle := s.uvHandle
  uv := s.uv
  phase := s.state.phase
  closedEvents := s.pushed.countP fun e => isCloseEvent e.type

def issue (s : UdpSocket) : Issue UdpOp where
  issued := s.issued
  processed := s.processed
  ops := s.ops
  mark := s.foreignCallback

/-!
## Effects on the core
-/

section

variable (s : UdpSocket)

theorem core_pushSocketEvent {e : SocketEvent} (he : isCloseEvent e.type = false) :
    (s.pushSocketEvent e).core = s.core := by
  simp [core, pushSocketEvent, countP_append, he]

@[simp] theorem core_pushError (code : Int) : (s.pushError code).core = s.core :=
  core_pushSocketEvent s rfl

theorem core_pushClosed :
    s.pushClosed.core = { s.core with closedEvents := s.core.closedEvents + 1 } := by
  simp [core, pushClosed, pushSocketEvent, makeSocketEvent, isCloseEvent]

@[simp] theorem core_touch : s.touch.core = s.core := rfl

@[simp] theorem core_setState (state : UdpState) :
    (s.setState state).core = { s.core with phase := state.phase } := rfl

@[simp] theorem core_register : s.register.core = { s.core with registered := true } := rfl

@[simp] theorem core_unregister : s.unregister.core = { s.core with registered := false } := rfl

theorem core_resolve_bind :
    (s.resolve .bind).core = { s.core with lookups := s.core.lookups + 1 } := by
  simp [core, resolve, isBind]

theorem core_resolve_send (data : List UInt8) : (s.resolve (.send data)).core = s.core := by
  simp [core, resolve, isBind]

theorem core_setState_opened (state : UdpState) (hstate : state.phase = .opened)
    (hopened : s.core.phase = .opened) : (s.setState state).core = s.core := by
  rw [core_setState, hstate, ← hopened]

end

/-!
## The invariant
-/

/-- The socket has been bound at most once, and is in one of the stages.  `ordered`
says that it was bound before any close. -/
structure StartedOnce (ordered : Prop) (s : UdpSocket) : Prop extends
    s.issue.Once UdpOp.hasSocketPtr UdpOp.isClose ordered where
  stage : s.core.Stage False
  own : s.foreignCallback = false

theorem StartedOnce.frame {s s' : UdpSocket} (h : StartedOnce ordered s)
    (hsame : s'.issue = s.issue) (hstage : s'.core.Stage False) : StartedOnce ordered s' where
  toOnce := hsame ▸ h.toOnce
  stage := hstage
  own := (congrArg Issue.mark hsame).trans h.own

theorem startedOnce_new : StartedOnce ordered new where
  stage := .inl
    { started := rfl
      closeDone := rfl
      registered := rfl
      lookups := rfl
      uvHandle := rfl
      handles := fun _ => rfl
      phase := rfl
      closedEvents := rfl
      uv := UvTable.ok_empty }
  toOnce := Issue.once_nil false
  own := rfl

variable {ordered : Prop} {s s' : UdpSocket} {rest : List UdpOp} {k : Nat} {op : UdpOp}

variable (h : StartedOnce ordered s)
include h

theorem StartedOnce.pushError (code : Int) : StartedOnce ordered (s.pushError code) := by
  refine h.frame rfl ?_
  rw [core_pushError]
  exact h.stage

/-!
## Natives and dispatch
-/

theorem StartedOnce.enqueueUdpOp
    (hop : op.hasSocketPtr = true -> s.issued.countP UdpOp.hasSocketPtr = 0)
    (hstarted : ordered -> op.isClose = true -> s.issued.any UdpOp.hasSocketPtr = true) :
    StartedOnce ordered (s.enqueueUdpOp op) where
  toOnce := h.toOnce.enqueue op.isClose_of_hasSocketPtr hop hstarted
  stage := h.stage
  own := h.own

theorem StartedOnce.requestClose (hstarted : ordered -> s.issued.any UdpOp.hasSocketPtr = true)
    (hstep : s.requestClose = some s') : StartedOnce ordered s' := by
  rcases Option.ite_none_right_eq_some.mp hstep with ⟨_, hstep⟩
  cases hstep
  have hclosed : StartedOnce ordered { s with handleClosed := true } := h.frame rfl h.stage
  exact hclosed.enqueueUdpOp (fun hptr => by cases hptr) fun hord _ => hstarted hord

theorem StartedOnce.dispatch (hstep : s.dispatch = some s') : StartedOnce ordered s' := by
  unfold UdpSocket.dispatch at hstep
  split at hstep
  · split at hstep <;> cases hstep <;> exact h.frame rfl h.stage
  · cases hstep

theorem StartedOnce.freeHandle : StartedOnce ordered s.freeHandle := by
  unfold UdpSocket.freeHandle
  split
  · exact h.frame rfl h.stage
  · exact h

theorem StartedOnce.finish (hstep : s.finish = some s') : StartedOnce ordered s' := by
  unfold UdpSocket.finish at hstep
  split at hstep
  · cases hstep
  have hdone : StartedOnce ordered { s with dispatching := none } := h.frame rfl h.stage
  dsimp only at hstep
  split at hstep <;> cases hstep
  · exact hdone.freeHandle
  · exact hdone

/-!
## Operations
-/

omit h in
theorem core_takeOp (s : UdpSocket) (op : UdpOp) (rest : List UdpOp) :
    (s.takeOp op rest).core =
      { s.core with
        started := s.core.started || op.hasSocketPtr
        closeDone := s.core.closeDone || (s.core.started && op.isClose) } := by
  have hop := op.isClose_of_hasSocketPtr
  simp [core, takeOp, closesAfterStart_append _ hop]

theorem StartedOnce.ofOp (hops : s.ops = op :: rest)
    (hsame : s'.issue = (s.takeOp op rest).issue) (hstage : s'.core.Stage False) :
    StartedOnce ordered s' where
  toOnce := hsame ▸ h.toOnce.take hops
  stage := hstage
  own := (congrArg Issue.mark hsame).trans h.own

theorem StartedOnce.stage_takeOp (op : UdpOp) (rest : List UdpOp) (hptr : op.hasSocketPtr = false)
    (hclose : op.isClose = false) : (s.takeOp op rest).core.Stage False := by
  rw [core_takeOp, hptr, hclose, Bool.or_false, Bool.and_false, Bool.or_false]
  exact h.stage

theorem StartedOnce.bind (hops : s.ops = .bind :: rest) :
    (s.takeOp .bind rest).processUdpBind.core.Stage False := by
  have hstart : s.core.started = false := h.not_started hops rfl
  have hcore : (s.takeOp .bind rest).register.touch.core = s.core.begin 0 := by
    rw [core_touch, core_register, core_takeOp, hstart]
    simp [Core.begin, UdpOp.hasSocketPtr]
  unfold processUdpBind
  dsimp only
  split
  · rw [hcore]
    exact h.stage.begin hstart (Nat.zero_le 1)
  rw [core_resolve_bind, hcore]
  exact h.stage.begin hstart (Nat.le_refl 1)

omit h in
theorem core_processUdpClose (s : UdpSocket) : s.processUdpClose.core = s.core.close := by
  have hopened : s.core.phase = .opened <-> ¬(s.state = .closing ∨ s.state = .closed) := by
    cases hs : s.state <;> simp [core, UdpState.phase, hs]
  unfold processUdpClose Core.close
  split
  case isFalse hreg => exact (if_neg fun hopen => hreg hopen.1).symm
  case isTrue hreg =>
    dsimp only
    split
    case isTrue hclosing => exact (if_neg fun hopen => hopened.mp hopen.2 hclosing).symm
    case isFalse hopen =>
      rw [if_pos ⟨hreg, hopened.mpr hopen⟩]
      split
      case h_1 h hcur =>
        rw [show s.core.uvHandle = some h from hcur]
        rfl
      case h_2 hbare =>
        rw [show s.core.uvHandle = none from hbare, core_unregister, core_pushClosed]
        rfl

omit h in
theorem issue_processUdpOp (s : UdpSocket) (op : UdpOp) : (s.processUdpOp op).issue = s.issue := by
  cases op <;>
    dsimp only [processUdpOp, processUdpBind, processUdpSend, processUdpClose,
      processUdpSetOption] <;>
    (repeat' split) <;> rfl

theorem StartedOnce.onAsyncUdpOp (hstep : s.onAsyncUdpOp = some s') : StartedOnce ordered s' := by
  unfold UdpSocket.onAsyncUdpOp at hstep
  split at hstep
  · cases hstep
  case h_2 op rest hops =>
    cases hstep
    refine h.ofOp hops (issue_processUdpOp _ op) ?_
    cases op with
    | bind => exact h.bind hops
    | send data =>
      have hstage := h.stage_takeOp (.send data) rest rfl rfl
      change ((s.takeOp (.send data) rest).processUdpSend data).core.Stage False
      unfold processUdpSend
      split
      case isFalse => exact hstage
      dsimp only
      split
      · exact hstage
      rw [core_resolve_send]
      exact hstage
    | close =>
      change (s.takeOp .close rest).processUdpClose.core.Stage False
      rw [core_processUdpClose, core_takeOp, UdpOp.hasSocketPtr, UdpOp.isClose, Bool.or_false,
        Bool.and_true]
      exact h.stage.close
    | setOption option value =>
      have hstage := h.stage_takeOp (.setOption option value) rest rfl rfl
      change (s.takeOp (.setOption option value) rest).processUdpSetOption.core.Stage False
      unfold processUdpSetOption
      split <;> exact hstage

/-!
## Callbacks of the resolver
-/

omit h in
theorem core_takeLookup_bind (hmem : bind ∈ s.lookups) :
    (s.takeLookup .bind).core = s.core.answer := by
  have hcount : (s.lookups.erase .bind).countP isBind =
      s.lookups.countP isBind - 1 := by
    have hperm := (perm_cons_erase hmem).countP_eq isBind
    rw [countP_cons_of_pos rfl] at hperm
    omega
  simp [core, takeLookup, Core.answer, hcount]

omit h in
theorem core_takeLookup_send {data : List UInt8} (hmem : send data ∈ s.lookups) :
    (s.takeLookup (.send data)).core = s.core := by
  have hcount : (s.lookups.erase (.send data)).countP isBind =
      s.lookups.countP isBind := by
    have hperm := (perm_cons_erase hmem).countP_eq isBind
    rw [countP_cons_of_neg Bool.false_ne_true] at hperm
    exact hperm.symm
  simp [core, takeLookup, hcount]

omit h in
theorem Active.udpBind (hactive : s.core.Active False) (hlook : s.core.lookups = 0)
    (hbare : s.uvHandle = none) (bindRc recvRc : Int) :
    (s.resolvedBind bindRc recvRc).core.Active False := by
  have hnew : s.newHandle.core.Active False := hactive.newHandle hlook hbare
  have hopened : s.newHandle.core.phase = .opened := hactive.bare hbare
  unfold resolvedBind
  dsimp only
  split
  · rw [core_pushError]
    exact hnew
  split
  · rw [core_pushError]
    exact hnew
  have hread : (s.newHandle.modifyHandle s.uv.next fun u =>
      { u with reading := true }).core.Active False := by
    refine hnew.modifyHandle (h := s.uv.next) rfl (fun _ => rfl) ?_
    intro u hu _
    change s.uv.init.handles s.uv.next = some u at hu
    rw [UvTable.handles_init_self] at hu
    cases hu
    exact .inl rfl
  rw [← core_setState_opened (s.newHandle.modifyHandle s.uv.next _) .bound rfl
    hopened] at hread
  exact hread

theorem StartedOnce.resolved {lookup : Lookup} {answer : Answer}
    (hstep : s.resolved lookup answer = some s') : StartedOnce ordered s' := by
  rcases mem_of_guard hstep with ⟨hmem, hstep⟩
  have htake : StartedOnce ordered (s.takeLookup lookup) := by
    refine h.frame rfl ?_
    cases lookup with
    | bind =>
      rw [core_takeLookup_bind hmem]
      exact h.stage.answer
    | send data =>
      rw [core_takeLookup_send hmem]
      exact h.stage
  have htouch : StartedOnce ordered (s.takeLookup lookup).touch :=
    htake.frame rfl htake.stage
  dsimp only at hstep
  split at hstep
  · cases hstep
    exact htake
  case isFalse hreg =>
    have hreg' : s.registered = true := Bool.of_not_eq_false hreg
    have hactive := h.stage.active_of_registered hreg'
    have hnow := htouch.stage.active_of_registered hreg'
    cases lookup with
    | bind =>
      dsimp only at hstep
      split at hstep
      · cases hstep
        exact htouch
      split at hstep
      · cases hstep
        exact htouch.pushError _
      cases hstep
      have hpos : 0 < s.core.lookups := countP_pos_iff.mpr ⟨_, hmem, rfl⟩
      have hzero : (s.takeLookup .bind).touch.core.lookups = 0 := by
        rw [core_touch, core_takeLookup_bind hmem]
        have hle := hactive.lookups
        change s.core.lookups - 1 = 0
        omega
      have hbound := Active.udpBind hnow hzero (hactive.looking hpos) answer.rc
        answer.recvRc
      refine htouch.frame ?_ (.inr (.inl hbound))
      unfold resolvedBind
      dsimp only
      split
      · rfl
      · split <;> rfl
    | send data =>
      dsimp only at hstep
      split at hstep
      · cases hstep
        exact htouch
      split at hstep
      · cases hstep
        exact htouch.pushError _
      cases hstep
      unfold resolvedSend
      split
      · exact htouch
      case h_2 k hcur =>
        split
        · exact htouch
        refine htouch.frame rfl (.inr (.inl ?_))
        exact hnow.modifyHandle hcur (fun _ => rfl) fun _ _ hread => .inr hread

/-!
## Callbacks of the library
-/

theorem StartedOnce.callbackOf (hcur : s.uvHandle = some k) :
    StartedOnce ordered (s.callbackOf k) where
  stage := h.stage
  toOnce := { h.toOnce with }
  own := by
    change (s.foreignCallback || s.uvHandle != some k) = false
    rw [h.own, hcur]
    simp

theorem StartedOnce.current {u : UvHandle} (hu : s.uv.handles k = some u) :
    s.core.Active False ∧ s.uvHandle = some k :=
  h.stage.active_of_handle hu fun hdet => hdet.allowed

theorem StartedOnce.onUdpRead {result : ReadResult} (hstep : s.onUdpRead k result = some s') :
    StartedOnce ordered s' := by
  unfold UdpSocket.onUdpRead at hstep
  split at hstep
  · cases hstep
  case h_2 u hu =>
    split at hstep
    · cases hstep
    have hcall := h.callbackOf (h.current hu).2
    cases result with
    | datagram bytes hasSender =>
      dsimp only at hstep
      split at hstep
      · cases hstep
        exact hcall
      cases hstep
      refine hcall.frame rfl ?_
      rw [core_pushSocketEvent _ rfl]
      exact hcall.stage
    | error code =>
      cases hstep
      exact hcall.pushError code

theorem StartedOnce.onUdpSendDone (hstep : s.onUdpSendDone k = some s') :
    StartedOnce ordered s' := by
  unfold UdpSocket.onUdpSendDone at hstep
  split at hstep
  · cases hstep
  case h_2 u hu =>
    split at hstep
    · cases hstep
    cases hstep
    rcases h.current hu with ⟨hactive, hcur⟩
    refine (h.callbackOf hcur).frame rfl (.inr (.inl ?_))
    exact hactive.modifyHandle hcur (fun _ => rfl) fun _ _ hread => .inr hread

theorem StartedOnce.closed (hstep : s.closed k = some s') : StartedOnce ordered s' := by
  unfold UdpSocket.closed at hstep
  split at hstep
  · cases hstep
  case h_2 u hu =>
    split at hstep
    case isFalse => cases hstep
    cases hstep
    rcases h.current hu with ⟨hactive, hcur⟩
    have heq : ((s.callbackOf k).setState .closed).deleteHandle =
        { (s.callbackOf k).setState .closed with uv := s.uv.delete k, uvHandle := none } := by
      unfold deleteHandle
      rw [show ((s.callbackOf k).setState .closed).uvHandle = some k from hcur]
      rfl
    unfold onUdpClosed
    rw [heq]
    refine (h.callbackOf hcur).frame rfl ?_
    rw [core_unregister, core_pushClosed]
    exact .inr (.inr (hactive.handleClosed hcur))

end UdpSocket

/-!
## Runs
-/

/-- Bind is issued at most once, and the handle is not passed to a native that frees
it. -/
def StartsOnce (s : UdpSocket) : Action -> Prop
  | .request op => op.hasSocketPtr = true -> s.issued.countP UdpOp.hasSocketPtr = 0
  | .freeArgument => False
  | _ => True

def ClosesStarted (s : UdpSocket) : Action -> Prop
  | .requestClose => s.issued.any UdpOp.hasSocketPtr = true
  | _ => True

theorem startedOnce_step {ordered : Prop} {s s' : UdpSocket} {action : Action}
    (h : s.StartedOnce ordered) (hallowed : StartsOnce s action)
    (hordered : ordered -> ClosesStarted s action) (hstep : step action s = some s') :
    s'.StartedOnce ordered := by
  cases action with
  | request op =>
    rcases Option.ite_none_right_eq_some.mp hstep with ⟨hrequest, hstep⟩
    rcases Option.ite_none_right_eq_some.mp hstep with ⟨_, hstep⟩
    cases hstep
    refine h.enqueueUdpOp hallowed fun _ hclose => ?_
    cases op <;> cases hclose
    cases hrequest
  | requestClose => exact h.requestClose hordered hstep
  | freeArgument => exact hallowed.elim
  | dispatch => exact h.dispatch hstep
  | finish => exact h.finish hstep
  | op => exact h.onAsyncUdpOp hstep
  | resolved lookup answer => exact h.resolved hstep
  | read k result => exact h.onUdpRead hstep
  | sendDone k => exact h.onUdpSendDone hstep
  | closed k => exact h.closed hstep

end Async2.Udp
