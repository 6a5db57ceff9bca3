import Async2.Socket.WsLife

/-!
# Runs of a WebSocket that is connected once

When Connect is issued only once, every step keeps the connection in one of the
stages of its life, whatever the library answers and whenever its timers fire.
-/

namespace Async2.Ws

open Socket List WsOp
open Resources (Shape Named)

theorem WsOp.isClose_of_hasConnPtr (op : WsOp) : op.hasConnPtr = true -> op.isClose = false := by
  cases op <;> simp [hasConnPtr, isClose]

namespace WsConnection

/-!
## The invariant
-/

def issue (c : WsConnection) : Issue WsOp where
  issued := c.issued
  processed := c.processed
  ops := c.ops
  mark := c.handleClosed

/-- Connect has been issued at most once, and the connection is in one of the
stages.  `ordered` says that it was issued before any close. -/
structure ConnectedOnce (fails fixed ordered : Prop) (c : WsConnection) : Prop extends
    c.issue.Once WsOp.hasConnPtr WsOp.isClose ordered where
  stage : c.life.Stage fails fixed
  marked : c.issue.issued.any WsOp.isClose = true -> c.issue.mark = true

theorem issue_wsCleanup (c : WsConnection) (keep : Bool) : (c.wsCleanup keep).issue = c.issue := by
  rcases teardown_setResources c with ⟨r, hr⟩
  unfold wsCleanup leave
  rw [hr]
  split <;> rfl

theorem issue_pushWsClosedOnce (c : WsConnection) (e : SocketEvent) :
    (c.pushWsClosedOnce e).issue = c.issue := by
  unfold pushWsClosedOnce
  split <;> rfl

theorem issue_wsClose (c : WsConnection) (e : SocketEvent) : (c.wsClose e).issue = c.issue :=
  (issue_pushWsClosedOnce _ e).trans (issue_wsCleanup c false)

theorem issue_wsDisconnectOrReconnect (c : WsConnection) (code : Int) (reason : List UInt8) :
    (c.wsDisconnectOrReconnect code reason).issue = c.issue := by
  unfold wsDisconnectOrReconnect
  split
  · exact issue_wsCleanup c true
  · exact issue_wsClose c _

section

variable {fails fixed ordered : Prop} {c c' : WsConnection}

theorem ConnectedOnce.frame (h : ConnectedOnce fails fixed ordered c)
    (hsame : c'.issue = c.issue) (hstage : c'.life.Stage fails fixed) :
    ConnectedOnce fails fixed ordered c' where
  toOnce := hsame ▸ h.toOnce
  stage := hstage
  marked := hsame ▸ h.marked

theorem connectedOnce_new : ConnectedOnce fails fixed ordered new where
  stage := .inl
    { started := rfl
      closeDone := rfl
      registered := rfl
      closeEventPushed := rfl
      receiving := rfl
      state := rfl
      resources := rfl
      reconnectCount := rfl
      attempts := rfl
      pushed := rfl }
  toOnce := Issue.once_nil false
  marked := fun h => by cases h

/-!
## Natives and dispatch
-/

variable (h : ConnectedOnce fails fixed ordered c)
include h

theorem ConnectedOnce.enqueueWsOp {op : WsOp}
    (honce : op.hasConnPtr = true -> c.issued.countP hasConnPtr = 0)
    (hmark : op.isClose = true -> c.handleClosed = true)
    (hstarted : ordered -> op.isClose = true -> c.issued.any hasConnPtr = true) :
    ConnectedOnce fails fixed ordered (c.enqueueWsOp op) where
  toOnce := h.toOnce.enqueue op.isClose_of_hasConnPtr honce hstarted
  stage := h.stage
  marked := by
    change (c.issued ++ [op]).any isClose = true -> c.handleClosed = true
    intro hany
    rw [any_append, Bool.or_eq_true] at hany
    rcases hany with hold | hnew
    · exact h.marked hold
    · exact hmark (by simpa using hnew)

theorem ConnectedOnce.requestClose {code : Int} {reason : List UInt8}
    (hstarted : ordered -> c.issued.any hasConnPtr = true)
    (hstep : c.requestClose code reason = some c') : ConnectedOnce fails fixed ordered c' := by
  rcases Option.ite_none_right_eq_some.mp hstep with ⟨_, hstep⟩
  cases hstep
  have hclosed : ConnectedOnce fails fixed ordered { c with handleClosed := true } :=
    { h with marked := fun _ => rfl }
  exact hclosed.enqueueWsOp (fun hptr => by cases hptr) (fun _ => rfl) fun hord _ =>
    hstarted hord

omit h in
theorem issue_storeOption (c : WsConnection) (option value : Int) :
    (c.storeOption option value).issue = c.issue ∧ (c.storeOption option value).life = c.life := by
  unfold storeOption
  (repeat' split) <;> exact ⟨rfl, rfl⟩

theorem ConnectedOnce.storeOption (option value : Int) :
    ConnectedOnce fails fixed ordered (c.storeOption option value) := by
  rcases issue_storeOption c option value with ⟨hsame, hlife⟩
  refine h.frame hsame ?_
  rw [hlife]
  exact h.stage

theorem ConnectedOnce.setOption {option value : Int}
    (hstep : c.setOption option value = some c') : ConnectedOnce fails fixed ordered c' := by
  unfold WsConnection.setOption at hstep
  split at hstep
  case isFalse => cases hstep
  have hstored := h.storeOption option value
  dsimp only at hstep
  split at hstep
  · cases hstep
    exact hstored.enqueueWsOp (fun hptr => by cases hptr) (fun hclose => by cases hclose)
      fun _ hclose => by cases hclose
  cases hstep
  exact hstored

omit h in
theorem Stage.setReconnect (h : c.life.Stage fails fixed) {n : Int}
    (hfixed : fixed -> c.life.started = false ∨ n = c.maxReconnects) :
    { c with maxReconnects := n }.life.Stage fails fixed := by
  have hkeep : fixed -> c.life.started = true -> n = c.maxReconnects := by
    intro hf hstarted
    rcases hfixed hf with hnot | heq
    · cases hnot.symm.trans hstarted
    · exact heq
  rcases h with hwait | hactive | hover
  · exact .inl { hwait with }
  · refine .inr (.inl { hactive with bounded := ?_ })
    intro hf hpos
    change 0 < n at hpos
    change c.reconnectCount <= n
    rw [hkeep hf hactive.started] at hpos ⊢
    exact hactive.bounded hf hpos
  · refine .inr (.inr { hover with bounded := ?_ })
    intro hf hpos
    change 0 < n at hpos
    change (c.attempts : Int) <= n
    rw [hkeep hf hover.started] at hpos ⊢
    exact hover.bounded hf hpos

theorem ConnectedOnce.dispatch (hstep : c.dispatch = some c') :
    ConnectedOnce fails fixed ordered c' := by
  unfold WsConnection.dispatch at hstep
  split at hstep
  · split at hstep <;> cases hstep <;> exact h.frame rfl h.stage
  · cases hstep

theorem ConnectedOnce.freeHandle : ConnectedOnce fails fixed ordered c.freeHandle := by
  unfold WsConnection.freeHandle
  split
  · exact h.frame rfl h.stage
  · exact h

theorem ConnectedOnce.finish (hstep : c.finish = some c') :
    ConnectedOnce fails fixed ordered c' := by
  unfold WsConnection.finish at hstep
  split at hstep
  · cases hstep
  have hdone : ConnectedOnce fails fixed ordered { c with dispatching := none } :=
    h.frame rfl h.stage
  dsimp only at hstep
  split at hstep <;> cases hstep
  · exact hdone.freeHandle
  · exact hdone

end

/-!
## Operations
-/

theorem life_takeOp (c : WsConnection) (op : WsOp) (rest : List WsOp) :
    (c.takeOp op rest).life =
      { c.life with
        started := c.life.started || op.hasConnPtr
        closeDone := c.life.closeDone || (c.life.started && op.isClose) } := by
  have hop := op.isClose_of_hasConnPtr
  simp [life, takeOp, closesAfterStart_append _ hop, resources]

variable {fails fixed ordered : Prop} {c c' : WsConnection} {rest : List WsOp} {ok : Bool} {t : Nat}
  {e : SocketEvent} {op : WsOp}

theorem ConnectedOnce.ofOp (h : ConnectedOnce fails fixed ordered c) (hops : c.ops = op :: rest)
    (hsame : c'.issue = (c.takeOp op rest).issue) (hstage : c'.life.Stage fails fixed) :
    ConnectedOnce fails fixed ordered c' where
  toOnce := hsame ▸ h.toOnce.take hops
  stage := hstage
  marked := hsame ▸ h.marked

theorem ConnectedOnce.waiting (h : ConnectedOnce fails fixed ordered c)
    (hops : c.ops = .connect :: rest) : c.life.Waiting := by
  have hstarted : c.life.started = false := h.not_started hops rfl
  rcases h.stage with hwait | hactive | hover
  · exact hwait
  · cases hstarted.symm.trans hactive.started
  · cases hstarted.symm.trans hover.started

theorem Stage.connect (h : c.life.Waiting) (hok : ¬fails -> ok = true) :
    ((c.takeOp .connect rest).processWsConnect ok).life.Stage fails fixed := by
  have hgoing : ((c.takeOp .connect rest).register.touch).life.Going fixed := by
    have hlife : ((c.takeOp .connect rest).register.touch).life =
        { (c.takeOp .connect rest).life with registered := true } := rfl
    rw [hlife, life_takeOp]
    exact
      { started := Bool.or_true _
        registered := rfl
        closeEventPushed := h.closeEventPushed
        pushed := by
          unfold Life.Reported
          rw [show c.life.pushed = [] from h.pushed]
          rfl
        counted := by
          rw [show c.life.attempts = 0 from h.attempts,
            show c.life.reconnectCount = 0 from h.reconnectCount]
          exact Int.le_refl 0
        bounded := fun _ hpos => by
          rw [show c.life.reconnectCount = 0 from h.reconnectCount]
          exact Int.le_of_lt hpos }
  have hopen : ((c.takeOp .connect rest).register.touch).life.closeDone = false := by
    rw [life_touch, life_register, life_takeOp]
    simp [h.closeDone, h.started]
  have hstate : c.state = .created := h.state
  have hres : c.resources = {} := h.resources
  have hrecv : c.receiving = false := h.receiving
  unfold processWsConnect
  dsimp only
  split
  · refine .inr (.inl { toGoing := hgoing, closeDone := ?_, shape := ?_, pending := ?_ })
    · intro hdone
      cases hopen.symm.trans hdone
    · change Shape c.state c.resources
      rw [hstate, hres]
      exact .created
    · intro hrec
      cases hstate.symm.trans hrec
  split
  · have hshape : ((c.takeOp .connect rest).register.touch.startEasy).resources =
        { curlHandle := some c.next, easies := [c.next], awaiting := [c.next] } := by
      simp only [resources, Resources.mk.injEq] at hres
      simp [resources, startEasy, touch, register, takeOp, hres]
    have hlife : ((c.takeOp .connect rest).register.touch.startEasy).life =
        { ((c.takeOp .connect rest).register.touch).life with
          state := .connecting
          resources := ((c.takeOp .connect rest).register.touch.startEasy).resources } := rfl
    rw [hlife, hshape]
    refine .inr (.inl (hgoing.enter ?_ (.connecting c.next) fun hrec => by cases hrec))
    intro hdone
    cases hopen.symm.trans hdone
  case isFalse hfail =>
    rw [life_unregister, life_pushError]
    refine .inr (.inr ?_)
    exact
      { started := hgoing.started
        registered := rfl
        receiving := hrecv
        resources := hres
        bounded := fun hf hpos => Int.le_trans hgoing.counted (hgoing.bounded hf hpos)
        last := Life.endsLast_append hgoing.pushed
        reported := by
          by_cases hfails : fails
          · exact .inl hfails
          · exact absurd (hok hfails) hfail }

theorem stage_takeOp (h : c.life.Stage fails fixed) (hptr : op.hasConnPtr = false)
    (hclose : op.isClose = false) : (c.takeOp op rest).life.Stage fails fixed := by
  rw [life_takeOp, hptr, hclose, Bool.or_false, Bool.and_false, Bool.or_false]
  exact h

theorem ConnectedOnce.send (h : ConnectedOnce fails fixed ordered c) {data : List UInt8}
    (hops : c.ops = .send data :: rest) (rc : Int) (again : Bool) :
    ConnectedOnce fails fixed ordered ((c.takeOp (.send data) rest).processWsSend rc again) := by
  have hstage : (c.takeOp (.send data) rest).life.Stage fails fixed :=
    stage_takeOp h.stage rfl rfl
  unfold processWsSend
  split
  case isFalse => exact h.ofOp hops rfl hstage
  case isTrue hreg =>
    dsimp only
    split
    · exact h.ofOp hops rfl hstage
    split
    · refine h.ofOp hops rfl ?_
      rw [life_pushError, life_touch]
      exact .inr (.inl ((hstage.active_of_registered hreg).push rfl))
    · exact h.ofOp hops rfl hstage

theorem wsStopTimers_reconnecting (h : Shape .reconnecting c.resources) :
    c.wsStopTimers = c.setResources {} := by
  rcases h.eq_reconnecting with ⟨t, hr⟩
  simp only [resources, Resources.mk.injEq] at hr
  simp [wsStopTimers, stopCloseTimer, stopPingTimer, stopReconnectTimer, takeTimer,
    setResources, hr]

theorem going_takeClose (h : c.life.Going fixed) (code : Int) (reason : List UInt8) :
    (c.takeOp (.close code reason) rest).life.Going fixed := by
  rw [life_takeOp]
  exact
    { started := by rw [h.started]; rfl
      registered := h.registered
      closeEventPushed := h.closeEventPushed
      pushed := h.pushed
      counted := h.counted
      bounded := h.bounded }

theorem active_startClose (h : c.life.Going fixed) (hshape : Shape .connected c.resources) :
    c.startClose.life.Active fixed := by
  have hlife : c.startClose.life =
      { c.life with state := .closing, resources := c.startClose.resources } := rfl
  rcases hshape.eq_connected with ⟨e, p, ping, hr⟩
  simp only [resources, Resources.mk.injEq] at hr
  have hshape' : Shape .closing c.startClose.resources := by
    have heq : c.startClose.resources =
        { curlHandle := some e, easies := [e], uvPoll := some p, polls := [p],
          closeTimer := some c.next, pingTimer := ping,
          timers := (c.next, .close) :: Resources.pingEntries ping } := by
      simp [resources, startClose, startCloseTimer, startTimer, hr]
    rw [heq]
    exact .closing e p c.next ping
  rw [hlife]
  exact h.enter (fun _ => rfl) hshape' fun hrec => by cases hrec

theorem stage_processWsClose (h : c.life.Stage fails fixed) (hrecv : c.receiving = false)
    (code : Int) (reason : List UInt8) :
    ((c.takeOp (.close code reason) rest).processWsClose).life.Stage fails fixed := by
  unfold processWsClose
  split
  case isFalse hreg =>
    rw [life_takeOp]
    rcases h with hwait | hactive | hover
    · refine .inl { hwait with started := ?_, closeDone := ?_ }
      · exact (Bool.or_false _).trans hwait.started
      · change (c.life.closeDone || c.life.started && true) = false
        rw [hwait.closeDone, hwait.started]
        rfl
    · exact absurd hactive.registered hreg
    · refine .inr (.inr { hover with started := ?_ })
      exact (Bool.or_false _).trans hover.started
  case isTrue hreg =>
    have hactive : c.life.Active fixed := h.active_of_registered hreg
    have hgoing : (c.takeOp (.close code reason) rest).touch.life.Going fixed := by
      rw [life_touch]
      exact going_takeClose hactive.toGoing code reason
    have hnamed : Named (c.takeOp (.close code reason) rest).touch.resources :=
      hactive.shape.named
    dsimp only
    split
    case isTrue hstate =>
      have hclosing : c.state = .closing := by
        rcases hstate with hclosing | hclosed
        · exact hclosing
        · have hshape : Shape c.state c.resources := hactive.shape
          rw [show c.state = .closed from hclosed] at hshape
          cases hshape
      exact .inr (.inl
        { toGoing := hgoing
          closeDone := fun _ => hclosing
          shape := hactive.shape
          pending := hactive.pending })
    split
    case isTrue hrec =>
      have hshape : Shape .reconnecting c.resources := by
        rw [← show c.state = .reconnecting from hrec]
        exact hactive.shape
      have hstop : (c.takeOp (.close code reason) rest).touch.wsStopTimers =
          (c.takeOp (.close code reason) rest).touch.setResources {} :=
        wsStopTimers_reconnecting hshape
      have hpushed : ((((c.takeOp (.close code reason) rest).touch.setResources {}).setState
          .closed).unregister).closeEventPushed = false := hgoing.closeEventPushed
      rw [hstop, life_pushWsClosedOnce hpushed]
      exact .inr (.inr (hgoing.finish rfl .closed true hrecv))
    split
    case isTrue hconn =>
      refine .inr (.inl (active_startClose hgoing ?_))
      have hshape : Shape c.state c.resources := hactive.shape
      rw [show c.state = .connected from hconn.2.2.1] at hshape
      exact hshape
    · exact .inr (.inr (over_wsClose hgoing hnamed hrecv rfl))

theorem ConnectedOnce.close (h : ConnectedOnce fails fixed ordered c) {code : Int}
    {reason : List UInt8} (hops : c.ops = .close code reason :: rest)
    (hrecv : c.receiving = false) :
    ConnectedOnce fails fixed ordered (c.takeOp (.close code reason) rest).processWsClose := by
  refine h.ofOp hops ?_ (stage_processWsClose h.stage hrecv code reason)
  unfold processWsClose
  split
  case isFalse => rfl
  dsimp only
  split
  · rfl
  split
  · rcases wsStopTimers_setResources (c.takeOp (.close code reason) rest).touch with ⟨r, hr⟩
    rw [issue_pushWsClosedOnce, hr]
    rfl
  split
  · rfl
  · exact issue_wsClose _ _

theorem restartPing_spec (h : Shape .connected c.resources) :
    c.restartPing.issue = c.issue ∧
      exists r, Shape .connected r ∧ c.restartPing.life = { c.life with resources := r } := by
  rcases h.eq_connected with ⟨e, p, ping, hr⟩
  have hstop : c.stopPingTimer =
      c.setResources { curlHandle := some e, easies := [e], uvPoll := some p, polls := [p] } := by
    cases ping with
    | none =>
      have hnone : c.pingTimer = none := congrArg Resources.pingTimer hr
      unfold stopPingTimer
      rw [hnone]
      exact congrArg c.setResources hr
    | some t =>
      simp only [resources, Resources.mk.injEq] at hr
      simp [stopPingTimer, takeTimer, setResources, hr, Resources.pingEntries]
  unfold restartPing
  rw [hstop]
  dsimp only
  split
  · exact ⟨rfl, _, .connected e p (some c.next), rfl⟩
  · exact ⟨rfl, _, .connected e p none, rfl⟩

theorem ConnectedOnce.touch (h : ConnectedOnce fails fixed ordered c) :
    ConnectedOnce fails fixed ordered c.touch := h.frame rfl h.stage

theorem ConnectedOnce.restartPing (h : ConnectedOnce fails fixed ordered c)
    (hreg : c.registered = true) (hstate : c.state = .connected) :
    ConnectedOnce fails fixed ordered c.restartPing := by
  have hactive := h.stage.active_of_registered hreg
  have hshape : Shape c.state c.resources := hactive.shape
  rw [hstate] at hshape
  rcases restartPing_spec hshape with ⟨hsame, r, hshape', hlife⟩
  refine h.frame hsame ?_
  rw [hlife]
  refine .inr (.inl { hactive with shape := ?_ })
  change Shape c.state r
  rwa [hstate]

theorem ConnectedOnce.option (h : ConnectedOnce fails fixed ordered c) {option value : Int}
    (hops : c.ops = .setOption option value :: rest) :
    ConnectedOnce fails fixed ordered
      ((c.takeOp (.setOption option value) rest).processWsSetOption option value) := by
  have htake := h.ofOp hops rfl (stage_takeOp h.stage rfl rfl)
  unfold processWsSetOption
  split
  case isFalse => exact htake
  case isTrue hreg =>
    have hstored := htake.touch.storeOption option value
    have hlife := (issue_storeOption (c.takeOp (.setOption option value) rest).touch option value).2
    dsimp only
    split
    case isFalse => exact hstored
    case isTrue hconn =>
      exact hstored.restartPing ((congrArg Life.registered hlife).trans hreg) hconn.2

theorem ConnectedOnce.onAsyncWsOp (h : ConnectedOnce fails fixed ordered c) {answer : Answer}
    (hrecv : c.receiving = false)
    (hok : ¬fails -> c.ops.head? = some .connect -> answer.ok = true)
    (hstep : c.onAsyncWsOp answer = some c') : ConnectedOnce fails fixed ordered c' := by
  unfold WsConnection.onAsyncWsOp at hstep
  split at hstep
  · cases hstep
  case h_2 op rest hops =>
    cases hstep
    cases op with
    | connect =>
      change ConnectedOnce fails fixed ordered
        ((c.takeOp .connect rest).processWsConnect answer.ok)
      refine h.ofOp hops ?_ (Stage.connect (h.waiting hops) fun hfails => hok hfails ?_)
      · unfold processWsConnect
        dsimp only
        split
        · rfl
        · split <;> simp only [issue] <;> rfl
      · rw [hops]
        rfl
    | send data => exact h.send hops answer.rc answer.again
    | close code reason => exact h.close hops hrecv
    | setOption option value => exact h.option hops

/-!
## Completion of a connect
-/

theorem active_openPoll (h : c.life.Active fixed) {e : Nat} (hstate : c.state = .connecting)
    (hr : c.resources = { curlHandle := some e, easies := [e], awaiting := [e] }) :
    (c.completeConnect e).openPoll.life.Active fixed := by
  have hres : (c.completeConnect e).openPoll.resources =
      { curlHandle := some e, easies := [e], uvPoll := some c.next, polls := [c.next] } := by
    simp only [resources, Resources.mk.injEq] at hr
    simp [resources, completeConnect, openPoll, hr]
  have hgoing : Life.Going fixed { c.life with reconnectCount := 0, attempts := 0 } :=
    { started := h.started
      registered := h.registered
      closeEventPushed := h.closeEventPushed
      pushed := h.pushed
      counted := Int.le_refl 0
      bounded := fun _ hpos => Int.le_of_lt hpos }
  have hlife : (c.completeConnect e).openPoll.life =
      { c.life with
        reconnectCount := 0
        attempts := 0
        state := .connected
        resources := (c.completeConnect e).openPoll.resources } := rfl
  rw [hlife, hres]
  refine hgoing.enter ?_ (.connected e c.next none) fun hrec => by cases hrec
  intro hdone
  cases hstate.symm.trans (h.closeDone hdone)

section

variable (h : ConnectedOnce fails fixed ordered c)
include h

theorem ConnectedOnce.active_of_mem {α : Type} {x : α} (f : Resources -> List α)
    (hmem : x ∈ f c.resources) (hempty : f {} = []) : c.life.Active fixed := by
  refine h.stage.active_of_resources fun hnone => ?_
  rw [show c.resources = {} from hnone, hempty] at hmem
  cases hmem

theorem ConnectedOnce.ends (hactive : c.life.Active fixed) (hrecv : c.receiving = false)
    (he : isCloseEvent e.type = true) : ConnectedOnce fails fixed ordered
      ((((c.setResources {}).setState .closed).unregister).pushWsClosedOnce e) := by
  have hpushed : (((c.setResources {}).setState .closed).unregister).closeEventPushed =
      false := hactive.closeEventPushed
  refine h.frame (issue_pushWsClosedOnce _ _) ?_
  rw [life_pushWsClosedOnce hpushed]
  exact .inr (.inr (hactive.finish he .closed true hrecv))

theorem ConnectedOnce.checkCompletedJobs {e : Nat} {result : Int} (hrecv : c.receiving = false)
    (hstep : c.checkCompletedJobs e result = some c') : ConnectedOnce fails fixed ordered c' := by
  rcases mem_of_guard hstep with ⟨hmem, hstep⟩
  have hactive := h.active_of_mem Resources.awaiting hmem rfl
  rcases hactive.shape.connecting_of_mem hmem with ⟨hstate, hr⟩
  change c.state = .connecting at hstate
  change c.resources = _ at hr
  have hclean : (c.completeConnect e).cleanupEasy e = c.setResources {} := by
    simp only [resources, Resources.mk.injEq] at hr
    simp [completeConnect, cleanupEasy, setResources, hr]
  dsimp only at hstep
  split at hstep
  · cases hstep
    rw [hclean]
    exact h.ends hactive hrecv rfl
  split at hstep
  · cases hstep
    have hopened := active_openPoll hactive hstate hr
    split
    · have hlife : ((c.completeConnect e).openPoll.wsStartPingTimer).life =
          { (c.completeConnect e).openPoll.life with
            state := .connected
            resources := ((c.completeConnect e).openPoll.wsStartPingTimer).resources } := rfl
      have hres : ((c.completeConnect e).openPoll.wsStartPingTimer).resources =
          { curlHandle := some e, easies := [e], uvPoll := some c.next, polls := [c.next],
            pingTimer := some (c.next + 1),
            timers := Resources.pingEntries (some (c.next + 1)) } := by
        simp only [resources, Resources.mk.injEq] at hr
        simp [resources, completeConnect, openPoll, wsStartPingTimer, startTimer, hr,
          Resources.pingEntries]
      refine h.frame rfl (.inr (.inl ?_))
      rw [life_pushSocketEvent, hlife, hres]
      refine Life.Active.push (hopened.toGoing.enter hopened.closeDone
        (.connected e c.next (some (c.next + 1))) fun hrec => by cases hrec) rfl
    refine h.frame rfl (.inr (.inl ?_))
    rw [life_pushSocketEvent]
    exact hopened.push rfl
  cases hstep
  have hfailed : ((c.completeConnect e).pushError result).cleanupEasy e =
      (c.setResources {}).pushError result := by
    rw [← hclean]
    rfl
  have hgoing : ((c.setResources {}).pushError result).life.Going fixed := by
    have hcleaned : (c.setResources {}).life.Going fixed := { hactive.toGoing with }
    rw [life_pushError]
    exact hcleaned.push rfl
  rw [hfailed]
  exact h.frame (issue_wsDisconnectOrReconnect _ _ _)
    (stage_wsDisconnectOrReconnect hgoing Resources.named_empty hactive.closeDone hrecv 0 [])

/-!
## Frames
-/

theorem ConnectedOnce.disconnect (hactive : c.life.Active fixed) (hrecv : c.receiving = false)
    (code : Int) (reason : List UInt8) :
    ConnectedOnce fails fixed ordered (c.wsDisconnectOrReconnect code reason) :=
  h.frame (issue_wsDisconnectOrReconnect _ _ _)
    (stage_wsDisconnectOrReconnect hactive.toGoing hactive.shape.named hactive.closeDone hrecv
      code reason)

theorem ConnectedOnce.wsClose (hgoing : c.life.Going fixed) (hnamed : Named c.resources)
    (hrecv : c.receiving = false) (he : isCloseEvent e.type = true) :
    ConnectedOnce fails fixed ordered (c.wsClose e) :=
  h.frame (issue_wsClose _ _)
    (.inr (.inr (over_wsClose hgoing hnamed hrecv he)))

theorem ConnectedOnce.push (hactive : c.life.Active fixed) (he : isCloseEvent e.type = false) :
    ConnectedOnce fails fixed ordered (c.pushSocketEvent e) := by
  refine h.frame rfl (.inr (.inl ?_))
  rw [life_pushSocketEvent]
  exact hactive.push he

end

theorem active_receiving (h : c.life.Active fixed) (receiving : Bool) :
    { c with receiving := receiving }.life.Active fixed := { h with }

section

variable (h : ConnectedOnce fails fixed ordered c)
include h

theorem ConnectedOnce.stopReceiving (hactive : c.life.Active fixed) :
    ConnectedOnce fails fixed ordered { c with receiving := false } :=
  h.frame rfl (.inr (.inl (active_receiving hactive false)))

theorem ConnectedOnce.setCloseSent :
    ConnectedOnce fails fixed ordered { c with closeSent := true } :=
  h.frame rfl h.stage

theorem ConnectedOnce.beginMessage (binary : Bool) :
    ConnectedOnce fails fixed ordered (c.beginMessage binary) := by
  unfold WsConnection.beginMessage
  split
  · exact h
  · exact h.frame rfl h.stage

theorem ConnectedOnce.rejectMessage (hactive : c.life.Active fixed) :
    ConnectedOnce fails fixed ordered c.rejectMessage := by
  have herror : (c.pushError 1009).life.Active fixed := hactive.push rfl
  have hstopped : { { c.pushError 1009 with closeSent := true } with
      receiving := false }.life.Active fixed := active_receiving herror false
  have hpushed : ConnectedOnce fails fixed ordered (c.pushError 1009) := h.push hactive rfl
  exact (hpushed.setCloseSent.stopReceiving herror).wsClose hstopped.toGoing
    hstopped.shape.named rfl rfl

theorem ConnectedOnce.recvData (hrecv : c.receiving = true) (f : Frame) :
    ConnectedOnce fails fixed ordered (c.recvData f) := by
  have hbegin := h.beginMessage f.binary
  have hactive : (c.beginMessage f.binary).life.Active fixed := by
    refine hbegin.stage.active_of_receiving ?_
    unfold WsConnection.beginMessage
    split <;> exact hrecv
  unfold WsConnection.recvData
  dsimp only
  split
  · exact hbegin.rejectMessage hactive
  split
  · exact hbegin.frame rfl hbegin.stage
  refine hbegin.frame rfl (.inr (.inl ?_))
  unfold completeMessage
  rw [life_pushSocketEvent]
  exact hactive.push rfl

theorem ConnectedOnce.recvFrame (hrecv : c.receiving = true) (f : Frame) :
    ConnectedOnce fails fixed ordered (c.recvFrame f) := by
  have hactive := h.stage.active_of_receiving hrecv
  unfold WsConnection.recvFrame
  split
  · exact (h.setCloseSent.stopReceiving hactive).disconnect (active_receiving hactive false)
      rfl _ _
  split
  · exact h
  split
  · unfold recvPong
    split
    · exact h.push hactive rfl
    · exact h
  split
  · exact h.stopReceiving hactive
  · exact h.recvData hrecv f

theorem ConnectedOnce.recv {r : Recv} (hstep : c.recv r = some c') :
    ConnectedOnce fails fixed ordered c' := by
  unfold WsConnection.recv at hstep
  split at hstep
  · cases hstep
  case isFalse hnot =>
    have hactive := h.stage.active_of_receiving (Bool.of_not_eq_false hnot)
    have hstopped := h.stopReceiving hactive
    have hidle : { c with receiving := false }.life.Active fixed :=
      active_receiving hactive false
    cases r with
    | again =>
      cases hstep
      exact hstopped
    | gotNothing =>
      cases hstep
      exact hstopped.disconnect hidle rfl 0 []
    | error rc =>
      cases hstep
      have hpushed : ({ c with receiving := false }.pushError rc).life.Active fixed :=
        hidle.push rfl
      exact (hstopped.push hidle rfl).disconnect hpushed rfl 0 []
    | noMeta =>
      cases hstep
      exact h
    | frame f =>
      cases hstep
      exact h.recvFrame (Bool.of_not_eq_false hnot) f

theorem ConnectedOnce.onWsPollActivity {p : Nat} {status : Int} (hrecv : c.receiving = false)
    (hstep : c.onWsPollActivity p status = some c') : ConnectedOnce fails fixed ordered c' := by
  rcases mem_of_guard hstep with ⟨hmem, hstep⟩
  have hactive := h.active_of_mem Resources.polls hmem rfl
  split at hstep
  · cases hstep
    exact h.wsClose hactive.toGoing hactive.shape.named hrecv rfl
  split at hstep
  · cases hstep
    have hpushed : (c.pushError status).life.Active fixed := hactive.push rfl
    exact (h.push hactive rfl).disconnect hpushed hrecv 0 []
  cases hstep
  exact h.frame rfl (.inr (.inl (active_receiving hactive true)))

/-!
## Timers
-/

theorem ConnectedOnce.onWsCloseTimeout (hrecv : c.receiving = false)
    (hstep : c.onWsCloseTimeout t = some c') : ConnectedOnce fails fixed ordered c' := by
  rcases mem_of_guard hstep with ⟨hmem, hstep⟩
  cases hstep
  have hactive := h.active_of_mem Resources.timers hmem rfl
  have hclose : c.closeTimer = some t := hactive.shape.closeTimer_of_mem hmem
  have hnamed : Named { c.takeTimer t with closeTimer := none }.resources :=
    hactive.shape.named.takeTimer (.inl hclose) (.inr rfl) (.inr rfl)
  have hgoing : { c.takeTimer t with closeTimer := none }.life.Going fixed :=
    { hactive.toGoing with }
  exact h.frame (issue_wsClose _ _) (.inr (.inr (over_wsClose hgoing hnamed hrecv rfl)))

theorem ConnectedOnce.onWsPingTimer (hstep : c.onWsPingTimer t = some c') :
    ConnectedOnce fails fixed ordered c' := by
  unfold WsConnection.onWsPingTimer at hstep
  split at hstep <;> cases hstep
  exact h

end

theorem stage_wsReconnect (h : c.life.Active fixed) (hstate : c.state = .reconnecting)
    (hrecv : c.receiving = false) (ok : Bool) :
    ((c.setResources {}).wsReconnect ok).life.Stage fails fixed := by
  have hgoing : Life.Going fixed
      { c.life with attempts := c.attempts + 1, resources := {} } :=
    { h.toGoing with counted := h.pending hstate }
  unfold wsReconnect
  dsimp only
  split
  · refine .inr (.inl (hgoing.enter ?_ (.connecting c.next) fun hrec => by cases hrec))
    intro hdone
    cases hstate.symm.trans (h.closeDone hdone)
  rw [life_pushWsClosedOnce]
  · exact .inr (.inr ((hgoing.push rfl).finish rfl .closed true hrecv))
  · exact h.closeEventPushed

theorem issue_wsReconnect (c : WsConnection) (ok : Bool) : (c.wsReconnect ok).issue = c.issue := by
  unfold wsReconnect
  dsimp only
  split
  · rfl
  · exact issue_pushWsClosedOnce _ _

theorem ConnectedOnce.onWsReconnectTimer (h : ConnectedOnce fails fixed ordered c)
    (hrecv : c.receiving = false) (hstep : c.onWsReconnectTimer t ok = some c') :
    ConnectedOnce fails fixed ordered c' := by
  rcases mem_of_guard hstep with ⟨hmem, hstep⟩
  have hactive := h.active_of_mem Resources.timers hmem rfl
  have hstate : c.state = .reconnecting := hactive.shape.reconnecting_of_mem hmem
  have htaken : { c.takeTimer t with reconnectTimer := none } = c.setResources {} := by
    have hshape : Shape .reconnecting c.resources := by
      rw [← hstate]
      exact hactive.shape
    rcases hshape.eq_reconnecting with ⟨t', hr⟩
    simp only [resources, Resources.mk.injEq] at hr
    have ht : t = t' := by
      rw [hr.2.2.2.2.2.2.2.2] at hmem
      simpa using hmem
    simp [takeTimer, setResources, hr, ht]
  dsimp only at hstep
  split at hstep
  · rw [htaken] at hstep
    cases hstep
    exact h.ends hactive hrecv rfl
  rw [htaken] at hstep
  cases hstep
  exact h.frame (issue_wsReconnect _ ok) (stage_wsReconnect hactive hstate hrecv ok)

end WsConnection

/-!
## Runs
-/

/-- Connect is issued at most once, and the handle is not passed to a native that
frees it. -/
def ConnectsOnce (c : WsConnection) : Action -> Prop
  | .request op => op.hasConnPtr = true -> c.issued.countP WsOp.hasConnPtr = 0
  | .freeArgument => False
  | _ => True

/-- The number of reconnects does not change once Connect was issued. -/
def FixesReconnects (c : WsConnection) : Action -> Prop
  | .setReconnect n => c.issued.countP WsOp.hasConnPtr = 0 ∨ n = c.maxReconnects
  | _ => True

/-- The socket is connected before it is closed. -/
def ClosesStarted (c : WsConnection) : Action -> Prop
  | .requestClose _ _ => c.issued.any WsOp.hasConnPtr = true
  | _ => True

/-- `curl_easy_init` succeeds in `ProcessWsConnect`. -/
def InitSucceeds (c : WsConnection) : Action -> Prop
  | .op answer => c.ops.head? = some .connect -> answer.ok = true
  | _ => True

variable {c c' : WsConnection}

theorem whenIdle_eq_some {x : Option WsConnection} (h : whenIdle c x = some c') :
    c.receiving = false ∧ x = some c' := by
  unfold whenIdle at h
  split at h
  · cases h
  case isFalse hidle => exact ⟨Bool.eq_false_iff.mpr hidle, h⟩

theorem connectedOnce_step {fails fixed ordered : Prop} {action : Action}
    (h : c.ConnectedOnce fails fixed ordered) (honce : ConnectsOnce c action)
    (hfixed : fixed -> FixesReconnects c action) (hinit : ¬fails -> InitSucceeds c action)
    (hordered : ordered -> ClosesStarted c action) (hstep : step action c = some c') :
    c'.ConnectedOnce fails fixed ordered := by
  cases action with
  | request op =>
    rcases Option.ite_none_right_eq_some.mp hstep with ⟨hreq, hstep⟩
    rcases Option.ite_none_right_eq_some.mp hstep with ⟨_, hstep⟩
    cases hstep
    have hopen : op.isClose = false := by
      cases op with
      | connect | send data => rfl
      | close code reason | setOption option value => cases hreq
    refine h.enqueueWsOp honce (fun hclose => ?_) fun _ hclose => ?_
    · cases hopen.symm.trans hclose
    · cases hopen.symm.trans hclose
  | requestClose code reason => exact h.requestClose hordered hstep
  | setOption option value => exact h.setOption hstep
  | setReconnect n =>
    rcases Option.ite_none_right_eq_some.mp hstep with ⟨_, hstep⟩
    cases hstep
    refine h.frame rfl (WsConnection.Stage.setReconnect h.stage ?_)
    intro hf
    rcases hfixed hf with hzero | heq
    · refine .inl (any_eq_false.mpr fun op hop => ?_)
      refine countP_eq_zero.mp hzero op ?_
      rw [show c.issued = c.processed ++ c.ops from h.issued_eq]
      exact mem_append_left _ hop
    · exact .inr heq
  | setCallbacks b =>
    rcases Option.ite_none_right_eq_some.mp hstep with ⟨_, hstep⟩
    cases hstep
    exact h.frame rfl h.stage
  | freeArgument => exact honce.elim
  | dispatch => exact h.dispatch hstep
  | finish => exact h.finish hstep
  | op answer =>
    rcases whenIdle_eq_some hstep with ⟨hrecv, hop⟩
    exact h.onAsyncWsOp hrecv hinit hop
  | connectDone e result =>
    rcases whenIdle_eq_some hstep with ⟨hrecv, hdone⟩
    exact h.checkCompletedJobs hrecv hdone
  | pollActivity p status =>
    rcases whenIdle_eq_some hstep with ⟨hrecv, hpoll⟩
    exact h.onWsPollActivity hrecv hpoll
  | recv r => exact h.recv hstep
  | closeTimeout t =>
    rcases whenIdle_eq_some hstep with ⟨hrecv, htimer⟩
    exact h.onWsCloseTimeout hrecv htimer
  | pingTimer t =>
    rcases whenIdle_eq_some hstep with ⟨_, htimer⟩
    exact h.onWsPingTimer htimer
  | reconnectTimer t ok =>
    rcases whenIdle_eq_some hstep with ⟨hrecv, htimer⟩
    exact h.onWsReconnectTimer hrecv htimer

end Async2.Ws
