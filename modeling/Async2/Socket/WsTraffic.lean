import Async2.Socket.Shell
import Async2.Socket.WsRuns

/-!
# What the event thread does to a WebSocket connection

A connection that is connected only once is not registered again after its close
event, so the event thread never reaches a deleted object through an operation or
through `ws_connections_`.  For a connection that the game thread has closed, the
event thread makes no easy handle any more.
-/

namespace Async2.Ws

open Socket
open Shell (Grows)

namespace WsConnection

def shell (c : WsConnection) : Shell where
  live := c.live
  hasHandle := c.hasHandle
  events := c.events
  dispatching := c.dispatching
  pushed := c.pushed
  usedAfterFree := c.usedAfterFree

/-!
## What the event thread does
-/

/-- The event thread may push events; a connection that is closed gets no new easy handle. -/
structure Follows (c c' : WsConnection) : Prop where
  grows : Grows c.shell c'.shell
  handleClosed : c'.handleClosed = c.handleClosed
  created : c.handleClosed = true -> c'.created = c.created

variable {c c' : WsConnection}

theorem Follows.of_eq (hshell : c'.shell = c.shell) (hclosed : c'.handleClosed = c.handleClosed)
    (hcreated : c'.created = c.created) : Follows c c' :=
  ⟨hshell ▸ .refl _, hclosed, fun _ => hcreated⟩

theorem Follows.trans {c'' : WsConnection} (h : Follows c c') (h' : Follows c' c'') :
    Follows c c'' :=
  ⟨h.grows.trans h'.grows, h'.handleClosed.trans h.handleClosed,
    fun hclosed => (h'.created (h.handleClosed.trans hclosed)).trans (h.created hclosed)⟩

variable (c)

theorem Follows.refl : Follows c c := .of_eq rfl rfl rfl

theorem follows_wsCleanup (keep : Bool) : Follows c (c.wsCleanup keep) := by
  rcases teardown_setResources c with ⟨r, hr⟩
  unfold wsCleanup leave
  rw [hr]
  split <;> exact .of_eq rfl rfl rfl

theorem follows_wsStopTimers : Follows c c.wsStopTimers := by
  rcases wsStopTimers_setResources c with ⟨r, hr⟩
  rw [hr]
  exact .of_eq rfl rfl rfl

theorem follows_storeOption (option value : Int) : Follows c (c.storeOption option value) := by
  unfold storeOption
  (repeat' split) <;> exact .of_eq rfl rfl rfl

theorem follows_restartPing : Follows c c.restartPing := by
  unfold restartPing stopPingTimer
  dsimp only
  split <;> split <;> exact .of_eq rfl rfl rfl

variable {c}

section

variable {d : WsConnection} (h : Follows c d)
include h

theorem Follows.push {e : SocketEvent} : Follows c (d.pushSocketEvent e) :=
  h.trans ⟨Grows.push d.shell e, rfl, fun _ => rfl⟩

theorem Follows.pushWsClosedOnce {e : SocketEvent} : Follows c (d.pushWsClosedOnce e) := by
  unfold WsConnection.pushWsClosedOnce
  split
  · exact h
  · exact h.trans ⟨Grows.push d.shell e, rfl, fun _ => rfl⟩

theorem Follows.wsClose {e : SocketEvent} : Follows c (d.wsClose e) :=
  (h.trans (follows_wsCleanup d false)).pushWsClosedOnce

theorem Follows.wsDisconnectOrReconnect {code : Int} {reason : List UInt8} :
    Follows c (d.wsDisconnectOrReconnect code reason) := by
  unfold WsConnection.wsDisconnectOrReconnect
  split
  · exact (h.trans (follows_wsCleanup d true)).trans (.of_eq rfl rfl rfl)
  · exact h.wsClose

end

variable (c)

theorem follows_processWsConnect (ok : Bool) : Follows c.touch (c.processWsConnect ok) := by
  unfold processWsConnect
  dsimp only
  split
  · exact .of_eq rfl rfl rfl
  case isFalse hopen =>
    split
    · exact ⟨.refl _, rfl, fun hclosed => absurd hclosed hopen⟩
    · exact ⟨Grows.push c.shell.touch _, rfl, fun _ => rfl⟩

variable {c}

section

variable (hreg : c.registered = true)
include hreg

theorem follows_processWsSend (rc : Int) (again : Bool) :
    Follows c.touch (c.processWsSend rc again) := by
  unfold processWsSend
  rw [if_pos hreg]
  dsimp only
  split
  · exact .of_eq rfl rfl rfl
  · split
    · exact (Follows.refl c.touch).push
    · exact .of_eq rfl rfl rfl

theorem follows_processWsClose : Follows c.touch c.processWsClose := by
  unfold processWsClose
  rw [if_pos hreg]
  dsimp only
  split
  · exact .of_eq rfl rfl rfl
  · split
    · apply Follows.pushWsClosedOnce
      exact (follows_wsStopTimers c.touch).trans (.of_eq rfl rfl rfl)
    · split
      · exact .of_eq rfl rfl rfl
      · exact (Follows.refl c.touch).wsClose

theorem follows_processWsSetOption (option value : Int) :
    Follows c.touch (c.processWsSetOption option value) := by
  have hstored := follows_storeOption c.touch option value
  unfold processWsSetOption
  rw [if_pos hreg]
  dsimp only
  split
  · exact hstored.trans (follows_restartPing _)
  · exact hstored

end

/-- An operation uses the object at most if it is registered or brought along. -/
theorem follows_onAsyncWsOp {answer : Answer} (hstep : c.onAsyncWsOp answer = some c') :
    Follows c c' ∨ (c.registered = true ∨ c.ops.head? = some .connect) ∧ Follows c.touch c' := by
  unfold WsConnection.onAsyncWsOp at hstep
  split at hstep
  · cases hstep
  case h_2 op rest hops =>
    cases hstep
    have htake : Follows c.touch (c.takeOp op rest).touch := .of_eq rfl rfl rfl
    have hskip : Follows c (c.takeOp op rest) := .of_eq rfl rfl rfl
    cases op with
    | connect =>
      refine .inr ⟨.inr ?_, htake.trans (follows_processWsConnect _ answer.ok)⟩
      rw [hops]
      rfl
    | send data =>
      by_cases hreg : (c.takeOp (.send data) rest).registered = true
      · exact .inr ⟨.inl hreg, htake.trans (follows_processWsSend hreg _ _)⟩
      · refine .inl (hskip.trans ?_)
        change Follows _ ((c.takeOp (.send data) rest).processWsSend _ _)
        unfold processWsSend
        rw [if_neg hreg]
        exact .of_eq rfl rfl rfl
    | close code reason =>
      by_cases hreg : (c.takeOp (.close code reason) rest).registered = true
      · exact .inr ⟨.inl hreg, htake.trans (follows_processWsClose hreg)⟩
      · refine .inl (hskip.trans ?_)
        change Follows _ (c.takeOp (.close code reason) rest).processWsClose
        unfold processWsClose
        rw [if_neg hreg]
        exact .of_eq rfl rfl rfl
    | setOption option value =>
      by_cases hreg : (c.takeOp (.setOption option value) rest).registered = true
      · exact .inr ⟨.inl hreg, htake.trans (follows_processWsSetOption hreg _ _)⟩
      · refine .inl (hskip.trans ?_)
        change Follows _ ((c.takeOp (.setOption option value) rest).processWsSetOption _ _)
        unfold processWsSetOption
        rw [if_neg hreg]
        exact .of_eq rfl rfl rfl

theorem follows_checkCompletedJobs {e : Nat} {result : Int}
    (hstep : c.checkCompletedJobs e result = some c') : Follows c c' := by
  unfold WsConnection.checkCompletedJobs at hstep
  split at hstep
  · cases hstep
  · dsimp only at hstep
    split at hstep
    · cases hstep
      apply Follows.pushWsClosedOnce
      exact .of_eq rfl rfl rfl
    · split at hstep
      · cases hstep
        split <;> exact ⟨Grows.push c.shell _, rfl, fun _ => rfl⟩
      · cases hstep
        apply Follows.wsDisconnectOrReconnect
        exact ⟨Grows.push c.shell _, rfl, fun _ => rfl⟩

theorem follows_recvData (f : Frame) : Follows c (c.recvData f) := by
  have hbegin : Follows c (c.beginMessage f.binary) := by
    unfold beginMessage
    split <;> exact .of_eq rfl rfl rfl
  refine hbegin.trans ?_
  unfold recvData
  dsimp only
  split
  · apply Follows.wsClose
    exact ⟨Grows.push _ _, rfl, fun _ => rfl⟩
  · split
    · exact .of_eq rfl rfl rfl
    · exact ⟨Grows.push _ _, rfl, fun _ => rfl⟩

theorem follows_recvFrame (f : Frame) : Follows c (c.recvFrame f) := by
  unfold recvFrame
  split
  · apply Follows.wsDisconnectOrReconnect
    exact .of_eq rfl rfl rfl
  · split
    · exact .of_eq rfl rfl rfl
    · split
      · unfold recvPong
        split
        · exact (Follows.refl c).push
        · exact .of_eq rfl rfl rfl
      · split
        · exact .of_eq rfl rfl rfl
        · exact follows_recvData f

theorem follows_recv {r : Recv} (hstep : c.recv r = some c') : Follows c c' := by
  unfold WsConnection.recv at hstep
  split at hstep
  · cases hstep
  · cases r with
    | again | noMeta =>
      cases hstep
      exact .of_eq rfl rfl rfl
    | gotNothing =>
      cases hstep
      apply Follows.wsDisconnectOrReconnect
      exact .of_eq rfl rfl rfl
    | error rc =>
      cases hstep
      apply Follows.wsDisconnectOrReconnect
      exact ⟨Grows.push c.shell _, rfl, fun _ => rfl⟩
    | frame f =>
      cases hstep
      exact follows_recvFrame f

theorem follows_onWsPollActivity {p : Nat} {status : Int}
    (hstep : c.onWsPollActivity p status = some c') : Follows c c' := by
  unfold WsConnection.onWsPollActivity at hstep
  split at hstep
  · cases hstep
  · split at hstep
    · cases hstep
      exact (Follows.refl c).wsClose
    · split at hstep <;> cases hstep
      · exact ((Follows.refl c).push).wsDisconnectOrReconnect
      · exact .of_eq rfl rfl rfl

theorem follows_onWsCloseTimeout {t : Nat} (hstep : c.onWsCloseTimeout t = some c') :
    Follows c c' := by
  unfold WsConnection.onWsCloseTimeout at hstep
  split at hstep <;> cases hstep
  apply Follows.wsClose
  exact .of_eq rfl rfl rfl

theorem follows_onWsPingTimer {t : Nat} (hstep : c.onWsPingTimer t = some c') : Follows c c' := by
  unfold WsConnection.onWsPingTimer at hstep
  split at hstep <;> cases hstep
  exact .of_eq rfl rfl rfl

theorem follows_onWsReconnectTimer {t : Nat} {ok : Bool}
    (hstep : c.onWsReconnectTimer t ok = some c') : Follows c c' := by
  unfold WsConnection.onWsReconnectTimer at hstep
  split at hstep
  · cases hstep
  · dsimp only at hstep
    split at hstep
    · cases hstep
      apply Follows.pushWsClosedOnce
      exact .of_eq rfl rfl rfl
    case isFalse hopen =>
      cases hstep
      unfold wsReconnect
      dsimp only
      split
      · exact ⟨.refl _, rfl, fun hclosed => absurd hclosed hopen⟩
      · apply Follows.pushWsClosedOnce
        exact ⟨Grows.push c.shell _, rfl, fun _ => rfl⟩

theorem shell_freeHandle (c : WsConnection) : c.freeHandle.shell = c.shell.freeHandle := by
  cases hhandle : c.hasHandle <;> simp [freeHandle, Shell.freeHandle, shell, hhandle]

/-!
## The object is kept
-/

/-- The object may be used while it is registered, and by the connect operation. -/
theorem ConnectedOnce.not_ended {fails fixed ordered : Prop}
    (h : ConnectedOnce fails fixed ordered c)
    (huse : c.registered = true ∨ c.ops.head? = some .connect) : ¬c.shell.Ended := by
  rcases huse with hreg | hhead
  · have hactive := h.stage.active_of_registered hreg
    exact Shell.not_ended_of_countP hactive.pushed
  · cases hops : c.ops with
    | nil =>
      rw [hops] at hhead
      cases hhead
    | cons op rest =>
      rw [hops] at hhead
      cases hhead
      exact Shell.not_ended_of_pushed_nil (h.waiting hops).pushed

theorem sound_new : new.shell.Sound where
  events := fun _ he => by cases he
  dispatching := fun _ he => by cases he
  ended := fun hlive => by cases hlive
  unused := rfl

theorem sound_dispatch (h : c.shell.Sound) (hstep : c.dispatch = some c') : c'.shell.Sound := by
  unfold WsConnection.dispatch at hstep
  split at hstep
  case h_1 e rest hevents hnone =>
    split at hstep <;> cases hstep
    · exact h.dispatch hevents
    · exact h.drop hevents
  · cases hstep

theorem sound_finish (h : c.shell.Sound) (hstep : c.finish = some c') : c'.shell.Sound := by
  unfold WsConnection.finish at hstep
  split at hstep
  · cases hstep
  case h_2 e hdispatching =>
    have hdone : { c with dispatching := none }.shell.Sound := h.finish
    dsimp only at hstep
    split at hstep <;> cases hstep
    case isTrue hclose =>
      rw [shell_freeHandle]
      exact hdone.freeHandle ⟨e, h.dispatching e hdispatching, hclose⟩
    · exact hdone

end WsConnection

/-!
## Runs
-/

variable {action : Action} {c c' : WsConnection}

/-- What a step does to the shell of a connection. -/
inductive Effect (c c' : WsConnection) : Action -> Prop where
  | freeArgument : Effect c c' .freeArgument
  | dispatch : Effect c c' .dispatch
  | finish : Effect c c' .finish
  | grows {action : Action} (h : Grows c.shell c'.shell) : Effect c c' action
  | uses {action : Action} (huse : c.registered = true ∨ c.ops.head? = some .connect)
      (h : Grows c.touch.shell c'.shell) : Effect c c' action

theorem effect_of_follows (h : c.Follows c') :
    (c.handleClosed = true -> c'.created = c.created) ∧ Effect c c' action :=
  ⟨h.created, .grows h.grows⟩

theorem effect_step (hstep : step action c = some c') :
    (c.handleClosed = true -> c'.created = c.created) ∧ Effect c c' action := by
  cases action with
  | request op =>
    rcases Option.ite_none_right_eq_some.mp hstep with ⟨_, hstep⟩
    rcases Option.ite_none_right_eq_some.mp hstep with ⟨_, hstep⟩
    cases hstep
    exact effect_of_follows (.of_eq rfl rfl rfl)
  | requestClose code reason =>
    rcases Option.ite_none_right_eq_some.mp hstep with ⟨_, hstep⟩
    cases hstep
    exact ⟨fun _ => rfl, .grows (.refl _)⟩
  | setOption option value =>
    change c.setOption option value = some c' at hstep
    have hstored := WsConnection.follows_storeOption c option value
    unfold WsConnection.setOption at hstep
    split at hstep
    · dsimp only at hstep
      split at hstep <;> cases hstep <;>
        exact effect_of_follows (hstored.trans (.of_eq rfl rfl rfl))
    · cases hstep
  | setReconnect n =>
    rcases Option.ite_none_right_eq_some.mp hstep with ⟨_, hstep⟩
    cases hstep
    exact effect_of_follows (.of_eq rfl rfl rfl)
  | setCallbacks b =>
    rcases Option.ite_none_right_eq_some.mp hstep with ⟨_, hstep⟩
    cases hstep
    exact effect_of_follows (.of_eq rfl rfl rfl)
  | freeArgument =>
    cases hstep
    refine ⟨fun _ => ?_, .freeArgument⟩
    unfold WsConnection.freeHandle
    split <;> rfl
  | dispatch =>
    change c.dispatch = some c' at hstep
    unfold WsConnection.dispatch at hstep
    refine ⟨fun _ => ?_, .dispatch⟩
    split at hstep
    · split at hstep <;> cases hstep <;> rfl
    · cases hstep
  | finish =>
    change c.finish = some c' at hstep
    unfold WsConnection.finish WsConnection.freeHandle at hstep
    refine ⟨fun _ => ?_, .finish⟩
    split at hstep
    · cases hstep
    · dsimp only at hstep
      split at hstep <;> cases hstep
      · split <;> rfl
      · rfl
  | op answer =>
    rcases WsConnection.follows_onAsyncWsOp (whenIdle_eq_some hstep).2 with h | ⟨huse, h⟩
    · exact effect_of_follows h
    · exact ⟨h.created, .uses huse h.grows⟩
  | connectDone e result =>
    exact effect_of_follows (WsConnection.follows_checkCompletedJobs (whenIdle_eq_some hstep).2)
  | pollActivity p status =>
    exact effect_of_follows (WsConnection.follows_onWsPollActivity (whenIdle_eq_some hstep).2)
  | recv r => exact effect_of_follows (WsConnection.follows_recv hstep)
  | closeTimeout t =>
    exact effect_of_follows (WsConnection.follows_onWsCloseTimeout (whenIdle_eq_some hstep).2)
  | pingTimer t =>
    exact effect_of_follows (WsConnection.follows_onWsPingTimer (whenIdle_eq_some hstep).2)
  | reconnectTimer t ok =>
    exact effect_of_follows (WsConnection.follows_onWsReconnectTimer (whenIdle_eq_some hstep).2)

theorem sound_step {fails fixed ordered : Prop} (honce : c.ConnectedOnce fails fixed ordered)
    (h : c.shell.Sound) (hallowed : ConnectsOnce c action) (hstep : step action c = some c') :
    c'.shell.Sound := by
  cases (effect_step hstep).2 with
  | freeArgument => exact hallowed.elim
  | dispatch => exact WsConnection.sound_dispatch h hstep
  | finish => exact WsConnection.sound_finish h hstep
  | grows hgrows => exact h.grows hgrows
  | uses huse hgrows => exact (h.touch (honce.not_ended huse)).grows hgrows

/-- A closed connection gets no new easy handle. -/
theorem created_step (hclosed : c.handleClosed = true) (hstep : step action c = some c') :
    c'.created = c.created := (effect_step hstep).1 hclosed

end Async2.Ws
