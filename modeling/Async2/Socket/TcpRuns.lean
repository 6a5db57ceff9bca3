import Async2.Socket.Owner
import Async2.Socket.Tcp
import Mathlib.Data.List.Count

/-!
# Runs of a TCP socket that is started once

Connect, Listen and Bind each register the socket and may give it a library
handle.  When only one of them is issued, the core of the socket stays in one of
the three stages, and every callback of the library finds its own handle in the
socket.
-/

namespace Async2.Tcp

open Socket List TcpOp

def TcpState.phase : TcpState -> Phase
  | .closing => .closing
  | .closed => .closed
  | .created | .resolving | .connecting | .connected | .listening => .opened

def TcpOp.isClose : TcpOp -> Bool
  | .close => true
  | _ => false

theorem TcpOp.isClose_of_hasSocketPtr (op : TcpOp) :
    op.hasSocketPtr = true -> op.isClose = false := by
  cases op <;> simp [hasSocketPtr, isClose]

namespace TcpSocket

def core (s : TcpSocket) : Core where
  started := s.processed.any TcpOp.hasSocketPtr
  closeDone := closesAfterStart TcpOp.hasSocketPtr TcpOp.isClose s.processed
  registered := s.registered
  lookups := s.lookups.length
  uvHandle := s.uvHandle
  uv := s.uv
  phase := s.state.phase
  closedEvents := s.pushed.countP fun e => isCloseEvent e.type

def issue (s : TcpSocket) : Issue TcpOp where
  issued := s.issued
  processed := s.processed
  ops := s.ops
  mark := s.foreignCallback

/-!
## Effects on the core
-/

section

variable (s : TcpSocket)

theorem core_pushSocketEvent {e : SocketEvent} (he : isCloseEvent e.type = false) :
    (s.pushSocketEvent e).core = s.core := by
  simp [core, pushSocketEvent, countP_append, he]

@[simp] theorem core_pushError (code : Int) : (s.pushError code).core = s.core :=
  core_pushSocketEvent s rfl

theorem core_pushClosed :
    s.pushClosed.core = { s.core with closedEvents := s.core.closedEvents + 1 } := by
  simp [core, pushClosed, pushSocketEvent, makeSocketEvent, isCloseEvent]

@[simp] theorem core_touch : s.touch.core = s.core := rfl

@[simp] theorem core_setState (state : TcpState) :
    (s.setState state).core = { s.core with phase := state.phase } := rfl

@[simp] theorem core_register : s.register.core = { s.core with registered := true } := rfl

@[simp] theorem core_unregister : s.unregister.core = { s.core with registered := false } := rfl

@[simp] theorem core_resolve (lookup : Lookup) :
    (s.resolve lookup).core = { s.core with lookups := s.core.lookups + 1 } := by
  simp [core, resolve]

theorem core_pushData (data : List UInt8) : (s.pushData data).core = s.core := by
  unfold pushData
  dsimp only
  generalize chunks _ data.length data = pieces
  induction pieces generalizing s with
  | nil => rfl
  | cons chunk rest ih =>
    rw [foldl_cons, ih]
    exact core_pushSocketEvent s rfl

theorem core_setState_opened (state : TcpState) (hstate : state.phase = .opened)
    (hopened : s.core.phase = .opened) : (s.setState state).core = s.core := by
  rw [core_setState, hstate, ← hopened]

end

/-!
## The invariant
-/

/-- The socket has been started at most once, and is in one of the stages.  `ordered`
says that it was started before any close. -/
structure StartedOnce (g ordered : Prop) (s : TcpSocket) : Prop extends
    s.issue.Once TcpOp.hasSocketPtr TcpOp.isClose ordered where
  stage : s.core.Stage g
  notAccepted : TcpOp.acceptConfig ∉ s.issue.issued
  own : s.foreignCallback = false

variable {s : TcpSocket}

theorem StartedOnce.frame {s' : TcpSocket} (h : StartedOnce g ordered s)
    (hsame : s'.issue = s.issue) (hstage : s'.core.Stage g) : StartedOnce g ordered s' where
  toOnce := hsame ▸ h.toOnce
  stage := hstage
  notAccepted := hsame ▸ h.notAccepted
  own := (congrArg Issue.mark hsame).trans h.own

theorem startedOnce_new : StartedOnce g ordered new where
  stage := .inl
    { started := rfl
      closeDone := rfl
      registered := rfl
      lookups := rfl
      uvHandle := rfl
      handles := fun _ => rfl
      phase := rfl
      closedEvents := rfl
      uv := UvTable.ok_empty }
  toOnce := Issue.once_nil false
  notAccepted := fun hmem => by cases hmem
  own := rfl

variable {g ordered : Prop} {s s' : TcpSocket} {rc status : Int} {rest : List TcpOp}
  {lookup : Lookup} {k : Nat} {op : TcpOp}

theorem issue_pushData (s : TcpSocket) (data : List UInt8) : (s.pushData data).issue = s.issue := by
  unfold pushData
  dsimp only
  generalize chunks _ data.length data = pieces
  induction pieces generalizing s with
  | nil => rfl
  | cons chunk rest ih =>
    rw [foldl_cons, ih]
    rfl

variable (h : StartedOnce g ordered s)
include h

theorem StartedOnce.setState (state : TcpState) (hstate : state.phase = .opened)
    (hopened : s.core.phase = .opened) : StartedOnce g ordered (s.setState state) := by
  refine h.frame rfl ?_
  rw [core_setState_opened s state hstate hopened]
  exact h.stage

theorem StartedOnce.pushError (code : Int) : StartedOnce g ordered (s.pushError code) := by
  refine h.frame rfl ?_
  rw [core_pushError]
  exact h.stage

/-!
## Natives and dispatch
-/

theorem StartedOnce.enqueueTcpOp (haccept : op ≠ .acceptConfig)
    (hop : op.hasSocketPtr = true -> s.issued.countP hasSocketPtr = 0)
    (hstarted : ordered -> op.isClose = true -> s.issued.any hasSocketPtr = true) :
    StartedOnce g ordered (s.enqueueTcpOp op) where
  toOnce := h.toOnce.enqueue op.isClose_of_hasSocketPtr hop hstarted
  stage := h.stage
  notAccepted := by
    intro hmem
    rcases mem_append.mp hmem with hold | hnew
    · exact h.notAccepted hold
    · exact haccept (mem_singleton.mp hnew).symm
  own := h.own

theorem StartedOnce.requestClose (hstarted : ordered -> s.issued.any hasSocketPtr = true)
    (hstep : s.requestClose = some s') : StartedOnce g ordered s' := by
  rcases Option.ite_none_right_eq_some.mp hstep with ⟨_, hstep⟩
  cases hstep
  have hclosed : StartedOnce g ordered { s with handleClosed := true } := h.frame rfl h.stage
  exact hclosed.enqueueTcpOp nofun (fun hptr => by cases hptr) fun hord _ => hstarted hord

theorem StartedOnce.dispatch (hstep : s.dispatch = some s') : StartedOnce g ordered s' := by
  unfold TcpSocket.dispatch at hstep
  split at hstep
  · split at hstep <;> cases hstep <;> exact h.frame rfl h.stage
  · cases hstep

theorem StartedOnce.freeHandle : StartedOnce g ordered s.freeHandle := by
  unfold TcpSocket.freeHandle
  split
  · exact h.frame rfl h.stage
  · exact h

theorem StartedOnce.finish (hstep : s.finish = some s') : StartedOnce g ordered s' := by
  unfold TcpSocket.finish at hstep
  split at hstep
  · cases hstep
  have hdone : StartedOnce g ordered { s with dispatching := none } := h.frame rfl h.stage
  dsimp only at hstep
  split at hstep <;> cases hstep
  · exact hdone.freeHandle
  · exact hdone

/-!
## Operations
-/

omit h in
theorem core_takeOp (s : TcpSocket) (op : TcpOp) (rest : List TcpOp) :
    (s.takeOp op rest).core =
      { s.core with
        started := s.core.started || op.hasSocketPtr
        closeDone := s.core.closeDone || (s.core.started && op.isClose) } := by
  have hop := op.isClose_of_hasSocketPtr
  simp [core, takeOp, closesAfterStart_append _ hop]

theorem StartedOnce.ofOp (hops : s.ops = op :: rest)
    (hsame : s'.issue = (s.takeOp op rest).issue) (hstage : s'.core.Stage g) :
    StartedOnce g ordered s' where
  toOnce := hsame ▸ h.toOnce.take hops
  stage := hstage
  notAccepted := hsame ▸ h.notAccepted
  own := (congrArg Issue.mark hsame).trans h.own

theorem StartedOnce.stage_takeOp (op : TcpOp) (rest : List TcpOp) (hptr : op.hasSocketPtr = false)
    (hclose : op.isClose = false) : (s.takeOp op rest).core.Stage g := by
  rw [core_takeOp, hptr, hclose, Bool.or_false, Bool.and_false, Bool.or_false]
  exact h.stage

section

variable (hops : s.ops = op :: rest) (hptr : op.hasSocketPtr = true)
include hops hptr

theorem StartedOnce.core_register_takeOp :
    (s.takeOp op rest).register.touch.core = s.core.begin 0 := by
  have hstart : s.core.started = false := h.not_started hops hptr
  rw [core_touch, core_register, core_takeOp, hptr, Bool.or_true, hstart, Bool.false_and,
    Bool.or_false]
  rfl

theorem StartedOnce.registers : (s.takeOp op rest).register.touch.core.Stage g := by
  rw [h.core_register_takeOp hops hptr]
  exact h.stage.begin (h.not_started hops hptr) (Nat.zero_le 1)

theorem StartedOnce.resolves (lookup : Lookup) :
    ((s.takeOp op rest).register.touch.resolve lookup).core.Stage g := by
  rw [core_resolve, h.core_register_takeOp hops hptr]
  exact h.stage.begin (h.not_started hops hptr) (Nat.le_refl 1)

end

omit h in
theorem Stage.tcpSend (rc : Int) (hstage : s.core.Stage g) :
    (s.processTcpSend rc).core.Stage g := by
  unfold processTcpSend
  split
  case isFalse => exact hstage
  case isTrue hreg =>
    dsimp only
    split
    · exact hstage
    case h_2 h hcur =>
      split
      · exact hstage
      split
      · simpa using hstage
      have hactive := hstage.active_of_registered hreg
      refine .inr (.inl (hactive.modifyHandle hcur (fun _ => rfl) ?_))
      exact fun _ _ hread => .inr hread

omit h in
theorem core_processTcpClose (s : TcpSocket) : s.processTcpClose.core = s.core.close := by
  have hopened : s.core.phase = .opened <-> ¬(s.state = .closing ∨ s.state = .closed) := by
    cases hs : s.state <;> simp [core, TcpState.phase, hs]
  unfold processTcpClose Core.close
  split
  case isFalse hreg => exact (if_neg fun hopen => hreg hopen.1).symm
  case isTrue hreg =>
    dsimp only
    split
    case isTrue hclosing => exact (if_neg fun hopen => hopened.mp hopen.2 hclosing).symm
    case isFalse hopen =>
      rw [if_pos ⟨hreg, hopened.mpr hopen⟩]
      split
      case h_1 h hcur =>
        rw [show s.core.uvHandle = some h from hcur]
        rfl
      case h_2 hbare =>
        rw [show s.core.uvHandle = none from hbare, core_unregister, core_pushClosed]
        rfl

omit h in
theorem issue_processTcpOp (s : TcpSocket) (op : TcpOp) (rc : Int) :
    (s.processTcpOp op rc).issue = s.issue := by
  cases op <;>
    dsimp only [processTcpOp, processTcpConnect, processTcpSend, processTcpClose, processTcpListen,
      processTcpBind, processTcpSetOption, processTcpAcceptConfig, startReading] <;>
    (repeat' split) <;> rfl

theorem StartedOnce.onAsyncTcpOp (hstep : s.onAsyncTcpOp rc = some s') :
    StartedOnce g ordered s' := by
  unfold TcpSocket.onAsyncTcpOp at hstep
  split at hstep
  · cases hstep
  case h_2 op rest hops =>
    cases hstep
    refine h.ofOp hops (issue_processTcpOp _ op rc) ?_
    cases op with
    | connect =>
      have hopened : (s.takeOp .connect rest).register.touch.core.phase = .opened :=
        (h.stage.waiting (h.not_started hops rfl)).phase
      change (s.takeOp .connect rest).processTcpConnect.core.Stage g
      unfold processTcpConnect
      dsimp only
      split
      · exact h.registers hops rfl
      rw [core_resolve, core_setState_opened _ .resolving rfl hopened, ← core_resolve]
      exact h.resolves hops rfl .connect
    | listen =>
      change (s.takeOp .listen rest).processTcpListen.core.Stage g
      unfold processTcpListen
      dsimp only
      split
      · exact h.registers hops rfl
      · exact h.resolves hops rfl .listen
    | bind =>
      change (s.takeOp .bind rest).processTcpBind.core.Stage g
      unfold processTcpBind
      dsimp only
      split
      · exact h.registers hops rfl
      · exact h.resolves hops rfl .bind
    | send data => exact Stage.tcpSend rc (h.stage_takeOp _ rest rfl rfl)
    | close =>
      change (s.takeOp .close rest).processTcpClose.core.Stage g
      rw [core_processTcpClose, core_takeOp, hasSocketPtr, isClose, Bool.or_false, Bool.and_true]
      exact h.stage.close
    | setOption option value =>
      have hstage := h.stage_takeOp (.setOption option value) rest rfl rfl
      change ((s.takeOp (.setOption option value) rest).processTcpSetOption option
        value).core.Stage g
      unfold processTcpSetOption
      split
      case isFalse => exact hstage
      dsimp only
      split <;> exact hstage
    | acceptConfig =>
      refine absurd ?_ h.notAccepted
      rw [h.issued_eq, show s.issue.ops = _ from hops]
      exact mem_append_right _ mem_cons_self

/-!
## Callbacks of the resolver
-/

/-- A handle cannot be bound or listen, so that it is closed at once. -/
def givesUp (lookup : Lookup) (answer : Answer) : Bool :=
  match lookup with
  | .connect => false
  | .listen => answer.rc != 0 || answer.listenRc != 0
  | .bind => answer.rc != 0

omit h in
theorem core_takeLookup (hmem : lookup ∈ s.lookups) :
    (s.takeLookup lookup).core = s.core.answer := by
  simp [core, takeLookup, Core.answer, length_erase_of_mem hmem]

theorem StartedOnce.answered (hmem : lookup ∈ s.lookups) (hreg : s.registered = true) :
    (s.takeLookup lookup).core.Active g ∧ (s.takeLookup lookup).core.lookups = 0 ∧
      s.uvHandle = none := by
  have hpos : 0 < s.core.lookups := length_pos_of_mem hmem
  have hactive := h.stage.active_of_registered hreg
  have hbare : s.uvHandle = none := hactive.looking hpos
  have hnow : (s.takeLookup lookup).core.Stage g := by
    rw [core_takeLookup hmem]
    exact h.stage.answer
  refine ⟨hnow.active_of_registered hreg, ?_, hbare⟩
  rw [core_takeLookup hmem]
  have hle := hactive.lookups
  change s.core.lookups - 1 = 0
  omega

omit h in
theorem Active.tcpConnect (hactive : s.core.Active g) (hlook : s.core.lookups = 0)
    (hbare : s.uvHandle = none) (rc : Int) : (s.resolvedConnect rc).core.Active g := by
  have hnew : s.newHandle.core.Active g := hactive.newHandle hlook hbare
  have hopened : s.newHandle.core.phase = .opened := hactive.bare hbare
  have hstate : (s.newHandle.setState .connecting).core.Active g := by
    rw [core_setState_opened _ _ rfl hopened]
    exact hnew
  unfold resolvedConnect ensureHandle
  rw [hbare]
  dsimp only
  split
  · rw [core_pushError]
    exact hstate
  exact hstate.modifyHandle (h := s.uv.next) rfl (fun _ => rfl) fun _ _ hread => .inr hread

omit h in
theorem Active.tcpGiveUp (hg : g) (hactive : s.core.Active g) (hlook : s.core.lookups = 0)
    (hbare : s.uvHandle = none) : s.newHandle.closeTcpHandle.core.Active g := by
  have hnew : s.newHandle.core.Active g := hactive.newHandle hlook hbare
  exact hnew.giveUp (h := s.uv.next) rfl (UvTable.handles_init_self s.uv) rfl rfl rfl hg

section

omit h

variable (hactive : s.core.Active g) (hlook : s.core.lookups = 0) (hbare : s.uvHandle = none)
include hactive hlook hbare

theorem Active.tcpListen {bindRc listenRc : Int} (hg : bindRc ≠ 0 ∨ listenRc ≠ 0 -> g) :
    (s.resolvedListen bindRc listenRc).core.Active g := by
  have hnew : s.newHandle.core.Active g := hactive.newHandle hlook hbare
  have hopened : s.newHandle.core.phase = .opened := hactive.bare hbare
  unfold resolvedListen
  dsimp only
  split
  case isTrue hbind =>
    rw [core_pushError]
    exact Active.tcpGiveUp (hg (.inl hbind)) hactive hlook hbare
  split
  case isTrue hlisten =>
    rw [core_pushError]
    exact Active.tcpGiveUp (hg (.inr hlisten)) hactive hlook hbare
  have hlisten : (s.newHandle.modifyHandle s.uv.next fun u =>
      { u with listening := true }).core.Active g :=
    hnew.modifyHandle (h := s.uv.next) rfl (fun _ => rfl) fun _ _ hread => .inr hread
  rw [← core_setState_opened (s.newHandle.modifyHandle s.uv.next _)
    .listening rfl hopened] at hlisten
  exact hlisten

theorem Active.tcpBind (hg : rc ≠ 0 -> g) : (s.resolvedBind rc).core.Active g := by
  unfold resolvedBind ensureHandle
  rw [hbare]
  dsimp only
  split
  case isTrue hbind =>
    rw [core_pushError]
    exact Active.tcpGiveUp (hg hbind) hactive hlook hbare
  · exact hactive.newHandle hlook hbare

end

section

omit h

theorem issue_ensureHandle (s : TcpSocket) : s.ensureHandle.issue = s.issue := by
  unfold ensureHandle
  split <;> rfl

theorem issue_closeTcpHandle (s : TcpSocket) : s.closeTcpHandle.issue = s.issue := by
  unfold closeTcpHandle
  split <;> rfl

theorem issue_resolvedConnect (s : TcpSocket) (rc : Int) :
    (s.resolvedConnect rc).issue = s.issue := by
  rw [← issue_ensureHandle s]
  unfold resolvedConnect
  dsimp only
  split
  · rfl
  · split <;> rfl

theorem issue_resolvedListen (s : TcpSocket) (bindRc listenRc : Int) :
    (s.resolvedListen bindRc listenRc).issue = s.issue := by
  have hclose : s.newHandle.closeTcpHandle.issue = s.issue := issue_closeTcpHandle s.newHandle
  unfold resolvedListen
  dsimp only
  split
  · exact hclose
  · split
    · exact hclose
    · split <;> rfl

theorem issue_resolvedBind (s : TcpSocket) (rc : Int) : (s.resolvedBind rc).issue = s.issue := by
  rw [← issue_ensureHandle s]
  unfold resolvedBind
  dsimp only
  split
  · exact issue_closeTcpHandle s.ensureHandle
  · rfl

end

theorem StartedOnce.resolved {answer : Answer} (hg : givesUp lookup answer = true -> g)
    (hstep : s.resolved lookup answer = some s') : StartedOnce g ordered s' := by
  rcases mem_of_guard hstep with ⟨hmem, hstep⟩
  have htake : StartedOnce g ordered (s.takeLookup lookup) := by
    refine h.frame rfl ?_
    rw [core_takeLookup hmem]
    exact h.stage.answer
  have htouch : StartedOnce g ordered (s.takeLookup lookup).touch :=
    htake.frame rfl htake.stage
  dsimp only at hstep
  split at hstep
  · cases hstep
    exact htake
  case isFalse hreg =>
    have hreg' : s.registered = true := Bool.of_not_eq_false hreg
    rcases h.answered hmem hreg' with ⟨hnow, hlook, hbare⟩
    have hactive : (s.takeLookup lookup).touch.core.Active g := hnow
    split at hstep
    · cases hstep
      exact htouch
    split at hstep
    · cases hstep
      exact htouch.pushError _
    cases lookup with
    | connect =>
      cases hstep
      exact htouch.frame (issue_resolvedConnect _ _)
        (.inr (.inl (Active.tcpConnect hactive hlook hbare _)))
    | listen =>
      cases hstep
      exact htouch.frame (issue_resolvedListen _ _ _)
        (.inr (.inl (Active.tcpListen hactive hlook hbare fun hfail =>
          hg (by simpa [givesUp] using hfail))))
    | bind =>
      cases hstep
      exact htouch.frame (issue_resolvedBind _ _)
        (.inr (.inl (Active.tcpBind hactive hlook hbare fun hfail =>
          hg (by simpa [givesUp] using hfail))))

/-!
## Callbacks of the library
-/

theorem StartedOnce.callbackOf (hcur : s.uvHandle = some k) :
    StartedOnce g ordered (s.callbackOf k) where
  stage := h.stage
  toOnce := { h.toOnce with }
  notAccepted := h.notAccepted
  own := by
    change (s.foreignCallback || s.uvHandle != some k) = false
    rw [h.own, hcur]
    simp

theorem StartedOnce.modifyHandle (hactive : s.core.Active g) (hcur : s.uvHandle = some k)
    {f : UvHandle -> UvHandle} (hf : forall u, (f u).closing = u.closing)
    (hread : forall u, s.uv.handles k = some u -> (f u).reading = true ->
      u.closing = none ∨ u.reading = true) :
    StartedOnce g ordered (s.modifyHandle k f) :=
  h.frame rfl (.inr (.inl (hactive.modifyHandle hcur hf hread)))

omit h in
theorem startReading_eq (hcur : s.uvHandle = some k) :
    s.startReading = s.modifyHandle k fun u => { u with reading := true } := by
  unfold startReading
  rw [hcur]

section

variable (hactive : s.core.Active g) (hcur : s.uvHandle = some k)
include hactive hcur

theorem StartedOnce.connectDone :
    StartedOnce g ordered (s.connectDone k) ∧ (s.connectDone k).core.Active g :=
  ⟨(h.callbackOf hcur).modifyHandle hactive hcur (fun _ => rfl) fun _ _ hread => .inr hread,
    hactive.modifyHandle hcur (fun _ => rfl) fun _ _ hread => .inr hread⟩

theorem StartedOnce.startReading (hopen : forall u, s.uv.handles k = some u -> u.closing = none) :
    StartedOnce g ordered s.startReading := by
  rw [startReading_eq hcur]
  exact h.modifyHandle hactive hcur (fun _ => rfl) fun u hu _ => .inl (hopen u hu)

end

theorem StartedOnce.onTcpConnected (hstep : s.onTcpConnected k status = some s') :
    StartedOnce g ordered s' := by
  unfold TcpSocket.onTcpConnected at hstep
  split at hstep
  · cases hstep
  case h_2 u hu =>
    split at hstep
    · cases hstep
    case isFalse hpend =>
      have hconn : u.connects ≠ 0 := fun hzero => hpend (.inl hzero)
      rcases h.stage.active_of_handle hu fun hdet => hconn hdet.connects with ⟨hactive, hcur⟩
      rcases h.connectDone hactive hcur with ⟨hdone, hnow⟩
      dsimp only at hstep
      split at hstep
      · cases hstep
        exact hdone
      split at hstep
      · cases hstep
        exact hdone.pushError status
      case isFalse hstatus =>
        cases hstep
        -- A request on a closing handle does not succeed.
        have hopen : u.closing = none := by
          cases hclosing : u.closing with
          | none => rfl
          | some callback =>
            refine absurd (.inr ⟨?_, Decidable.not_not.mp hstatus⟩) hpend
            rw [hclosing]
            rfl
        have hopened : (s.connectDone k).core.phase = .opened :=
          (hactive.currentOk hcur hu).opened hopen
        have hactive' : ((s.connectDone k).setState .connected).core.Active g := by
          rw [core_setState_opened _ _ rfl hopened]
          exact hnow
        have hreading := (hdone.setState .connected rfl hopened).startReading hactive' hcur (by
          intro v hv
          have hmod : (s.uv.modify k fun u =>
              { u with connects := u.connects - 1 }).handles k = some v := hv
          rw [UvTable.handles_modify_self, hu] at hmod
          cases hmod
          exact hopen)
        refine hreading.frame rfl ?_
        rw [core_pushSocketEvent _ rfl]
        exact hreading.stage

theorem StartedOnce.onTcpRead {result : ReadResult} (hstep : s.onTcpRead k result = some s') :
    StartedOnce g ordered s' := by
  unfold TcpSocket.onTcpRead at hstep
  split at hstep
  · cases hstep
  case h_2 u hu =>
    split at hstep
    · cases hstep
    case isFalse hnot =>
      have hreading : u.reading = true := Bool.of_not_eq_false hnot
      have hndet : ¬ Core.Detached g u := fun hdet => hnot hdet.reading
      rcases h.stage.active_of_handle hu hndet with ⟨hactive, hcur⟩
      have hcall := h.callbackOf hcur
      cases result with
      | data bytes =>
        dsimp only at hstep
        split at hstep
        · cases hstep
          exact hcall
        cases hstep
        refine hcall.frame (issue_pushData _ bytes) ?_
        rw [core_pushData]
        exact hcall.stage
      | eof =>
        cases hstep
        rcases (hactive.currentOk hcur hu).opened_of_reading hreading with ⟨hopened, -⟩
        have hstop : ((s.callbackOf k).modifyHandle k fun u =>
            { u with reading := false }).core.Active g :=
          hactive.modifyHandle hcur (fun _ => rfl) fun _ _ hread => by cases hread
        have hclose := hstop.closeHandle hcur hopened s.core.closeDone
        have heq : (s.callbackOf k).closedByPeer k =
            (((s.callbackOf k).modifyHandle k fun u => { u with reading := false }).setState
              .closing).uvClose k := by
          unfold closedByPeer
          dsimp only
          rw [show ((s.callbackOf k).modifyHandle k fun u =>
            { u with reading := false }).uvHandle = some k from hcur]
        rw [heq]
        exact hcall.frame rfl (.inr (.inl hclose))
      | error code =>
        cases hstep
        exact hcall.pushError code

theorem StartedOnce.onTcpWriteDone (hstep : s.onTcpWriteDone k status = some s') :
    StartedOnce g ordered s' := by
  unfold TcpSocket.onTcpWriteDone at hstep
  split at hstep
  · cases hstep
  case h_2 u hu =>
    split at hstep
    · cases hstep
    case isFalse hpend =>
      have hwrites : u.writes ≠ 0 := fun hzero => hpend (.inl hzero)
      rcases h.stage.active_of_handle hu fun hdet => hwrites hdet.writes with ⟨hactive, hcur⟩
      have hdone : StartedOnce g ordered (s.writeDone k) :=
        (h.callbackOf hcur).modifyHandle hactive hcur (fun _ => rfl)
          fun _ _ hread => .inr hread
      dsimp only at hstep
      split at hstep
      · cases hstep
        exact hdone.pushError status
      cases hstep
      exact hdone

theorem StartedOnce.closed (hstep : s.closed k = some s') : StartedOnce g ordered s' := by
  unfold TcpSocket.closed at hstep
  split at hstep
  · cases hstep
  case h_2 u hu =>
    split at hstep
    case isTrue hready =>
      cases hstep
      have hndet : ¬ Core.Detached g u := by
        intro hdet
        have hclosing := hdet.closing
        rw [hready.1] at hclosing
        cases hclosing
      rcases h.stage.active_of_handle hu hndet with ⟨hactive, hcur⟩
      have heq : ((s.callbackOf k).setState .closed).deleteHandle =
          { (s.callbackOf k).setState .closed with uv := s.uv.delete k, uvHandle := none } := by
        unfold deleteHandle
        rw [show ((s.callbackOf k).setState .closed).uvHandle = some k from hcur]
        rfl
      unfold onTcpClosed
      rw [heq]
      refine (h.callbackOf hcur).frame rfl ?_
      rw [core_unregister, core_pushClosed]
      exact .inr (.inr (hactive.handleClosed hcur))
    split at hstep
    case isTrue hready =>
      cases hstep
      exact h.frame rfl (h.stage.deleteHandle hu hready.1)
    · cases hstep

theorem StartedOnce.onTcpNewConnection (hstep : s.onTcpNewConnection k status = some s') :
    StartedOnce g ordered s' := by
  unfold TcpSocket.onTcpNewConnection at hstep
  split at hstep
  · cases hstep
  split at hstep
  · cases hstep
  split at hstep
  · cases hstep
    exact h
  cases hstep
  refine h.frame rfl ?_
  rw [core_pushSocketEvent _ rfl]
  exact h.stage

end TcpSocket

/-!
## Runs
-/

/-- At most one operation starts the socket, the socket comes from `TcpNew`, and its
handle is not passed to a native that frees it. -/
def StartsOnce (s : TcpSocket) : Action -> Prop
  | .request op => op.hasSocketPtr = true -> s.issued.countP TcpOp.hasSocketPtr = 0
  | .adopt | .freeArgument => False
  | _ => True

def ClosesStarted (s : TcpSocket) : Action -> Prop
  | .requestClose => s.issued.any TcpOp.hasSocketPtr = true
  | _ => True

/-- No handle is given up because it cannot be bound or listen. -/
def KeepsHandle : Action -> Prop
  | .resolved lookup answer => TcpSocket.givesUp lookup answer = false
  | _ => True

theorem startedOnce_step {g ordered : Prop} {s s' : TcpSocket} {action : Action}
    (h : s.StartedOnce g ordered) (hallowed : StartsOnce s action)
    (hkeeps : ¬ g -> KeepsHandle action) (hordered : ordered -> ClosesStarted s action)
    (hstep : step action s = some s') : s'.StartedOnce g ordered := by
  cases action with
  | request op =>
    rcases Option.ite_none_right_eq_some.mp hstep with ⟨hrequest, hstep⟩
    rcases Option.ite_none_right_eq_some.mp hstep with ⟨_, hstep⟩
    cases hstep
    refine h.enqueueTcpOp ?_ hallowed fun _ hclose => ?_
    · intro haccept
      rw [haccept] at hrequest
      cases hrequest
    · cases op <;> cases hclose
      cases hrequest
  | requestClose => exact h.requestClose hordered hstep
  | adopt | freeArgument => exact hallowed.elim
  | dispatch => exact h.dispatch hstep
  | finish => exact h.finish hstep
  | op rc => exact h.onAsyncTcpOp hstep
  | resolved lookup answer =>
    refine h.resolved ?_ hstep
    intro hgive
    by_contra hg
    have hkept : TcpSocket.givesUp lookup answer = false := hkeeps hg
    rw [hkept] at hgive
    cases hgive
  | connected k status => exact h.onTcpConnected hstep
  | read k result => exact h.onTcpRead hstep
  | writeDone k status => exact h.onTcpWriteDone hstep
  | closed k => exact h.closed hstep
  | newConnection k status => exact h.onTcpNewConnection hstep

end Async2.Tcp
