import Async2.Socket.Tcp
import Async2.Socket.Traffic

/-!
# Runs of a TCP socket that keep its object

Connect, Close and the configuration of an accepted socket seal a TCP socket: they
can lead to the close event, and nothing else can.  When no Connect, Bind or Listen
is issued behind one of them, the event thread never reaches a deleted object.
-/

namespace Async2.Tcp

open Socket List UvTable

/-- The operations that can lead to the close event. -/
def TcpOp.seals : TcpOp -> Bool
  | .connect | .close | .acceptConfig => true
  | .send _ | .listen | .bind | .setOption _ _ => false

/-- No close event can come of the handle: it is not read from, it has no connect
request and it is not being closed for its socket. -/
def Calm (u : UvHandle) : Prop :=
  u.reading = false ∧ u.connects = 0 ∧ u.closing ≠ some .onClosed

theorem calm_empty : Calm {} := ⟨rfl, rfl, nofun⟩

namespace TcpSocket

def shell (s : TcpSocket) : Shell where
  live := s.live
  hasHandle := s.hasHandle
  events := s.events
  dispatching := s.dispatching
  pushed := s.pushed
  usedAfterFree := s.usedAfterFree

def traffic (s : TcpSocket) : Traffic TcpOp where
  shell := s.shell
  registered := s.registered
  looking := decide (Lookup.connect ∈ s.lookups)
  uv := s.uv
  ops := s.ops
  issued := s.issued
  processed := s.processed

def Safe (s : TcpSocket) : Prop := s.traffic.Safe TcpOp.seals TcpOp.hasSocketPtr Calm

def Sealed (s : TcpSocket) : Prop := s.traffic.sealed TcpOp.seals = true

variable {s s' : TcpSocket} {status : Int} {rest : List TcpOp} {lookup : Lookup} {k : Nat}
  {op : TcpOp}

theorem safe_new : new.Safe :=
  Traffic.safe_start rfl rfl rfl rfl rfl fun _ _ hu => by cases hu

theorem safe_accepted (maxChunkSize : Int) : (accepted maxChunkSize).Safe :=
  Traffic.safe_start rfl rfl rfl rfl rfl
    (calm_init calm_empty fun _ _ hu => by cases hu)

section

variable (h : s.Safe)
include h

theorem Safe.sealed_of_handle {u : UvHandle} (hu : s.uv.handles k = some u) (hnot : ¬Calm u) :
    s.Sealed := by
  refine Bool.of_not_eq_false fun hsealed => hnot ?_
  exact h.calm hsealed k u hu

theorem Safe.of_sealed_uv (hsealed : s.Sealed) (uv : UvTable) : { s with uv := uv }.Safe :=
  Traffic.Safe.setUv h fun hnot => by cases hsealed.symm.trans hnot

theorem Safe.setState (state : TcpState) : (s.setState state).Safe := h

theorem Safe.callbackOf (k : Nat) : (s.callbackOf k).Safe := h

theorem Safe.pushSocketEvent {e : SocketEvent} (he : isCloseEvent e.type = false) :
    (s.pushSocketEvent e).Safe :=
  Traffic.Safe.push h he

theorem Safe.pushError (code : Int) : (s.pushError code).Safe :=
  h.pushSocketEvent rfl

theorem Safe.touch (hreg : s.registered = true) : s.touch.Safe :=
  Traffic.Safe.touch h (h.not_ended_of_registered hreg)

theorem Safe.end (hsealed : s.Sealed) : s.pushClosed.unregister.Safe :=
  Traffic.Safe.pushClosed h hsealed _

theorem Safe.newHandle : s.newHandle.Safe :=
  Traffic.Safe.setUv h fun hnot => calm_init calm_empty (h.calm hnot)

theorem Safe.ensureHandle : s.ensureHandle.Safe := by
  unfold TcpSocket.ensureHandle
  split
  · exact h.newHandle
  · exact h

theorem Safe.closeTcpHandle : s.closeTcpHandle.Safe := by
  unfold TcpSocket.closeTcpHandle
  split
  · exact h
  · refine Traffic.Safe.setUv h fun hnot => calm_close ?_ (h.calm hnot)
    intro u hu
    exact ⟨rfl, (h.calm hnot _ u hu).2.1, nofun⟩

theorem Safe.modifyHandle (k : Nat) {f : UvHandle -> UvHandle}
    (hf : forall u, Calm u -> Calm (f u)) : (s.modifyHandle k f).Safe :=
  Traffic.Safe.setUv h fun hnot =>
    calm_modify (fun u hu => hf u (h.calm hnot k u hu)) (h.calm hnot)

theorem Safe.startReading (hsealed : s.Sealed) : s.startReading.Safe := by
  unfold TcpSocket.startReading
  split
  · exact h
  · exact h.of_sealed_uv hsealed _

theorem Safe.deleteHandle : s.deleteHandle.Safe := by
  unfold TcpSocket.deleteHandle
  split
  · exact h
  · exact Traffic.Safe.setUv h fun hnot => calm_delete (h.calm hnot)

theorem Safe.resolve (hlookup : lookup = .connect -> s.Sealed) : (s.resolve lookup).Safe := by
  refine Traffic.Safe.look h fun hnot => ?_
  have hold := of_decide_eq_false (h.looking hnot)
  refine decide_eq_false fun hmem => ?_
  rcases mem_append.mp hmem with hmem | hmem
  · exact hold hmem
  · cases hnot.symm.trans (hlookup (mem_singleton.mp hmem).symm)

theorem Safe.takeLookup (lookup : Lookup) : (s.takeLookup lookup).Safe := by
  refine Traffic.Safe.look h fun hnot => ?_
  have hold := of_decide_eq_false (h.looking hnot)
  exact decide_eq_false fun hmem => hold (mem_of_mem_erase hmem)

/-!
## Natives and dispatch
-/

theorem Safe.request (hallowed : op.hasSocketPtr = true -> s.issued.any TcpOp.seals = false)
    (hstep : s.request op = some s') : s'.Safe := by
  rcases Option.ite_none_right_eq_some.mp hstep with ⟨hhandle, hstep⟩
  cases hstep
  exact Traffic.Safe.enqueue h hhandle hallowed

theorem Safe.requestClose (hstep : s.requestClose = some s') : s'.Safe := by
  rcases Option.ite_none_right_eq_some.mp hstep with ⟨hhandle, hstep⟩
  cases hstep
  exact Traffic.Safe.enqueue h hhandle fun hptr => by cases hptr

theorem Safe.adopt (hstep : s.adopt = some s') : s'.Safe := by
  unfold TcpSocket.adopt at hstep
  split at hstep
  · cases hstep
  case isFalse hnot =>
    cases hstep
    rcases not_or.mp hnot with ⟨hhandle, hlive⟩
    have hnil : s.issued = [] :=
      h.adoptable (Bool.eq_false_iff.mpr hhandle) (Bool.of_not_eq_false hlive)
    have howned : { s with hasHandle := true }.Safe :=
      { h with
        adoptable := fun hnone => by cases hnone
        sound := { h.sound with } }
    refine Traffic.Safe.enqueue howned rfl fun _ => ?_
    change s.issued.any TcpOp.seals = false
    rw [hnil]
    rfl

theorem Safe.dispatch (hstep : s.dispatch = some s') : s'.Safe := by
  unfold TcpSocket.dispatch at hstep
  split at hstep
  case h_1 e rest hevents hnone =>
    split at hstep <;> cases hstep
    · exact Traffic.Safe.dispatch h hevents
    · exact Traffic.Safe.drop h hevents
  · cases hstep

end

theorem traffic_freeHandle (s : TcpSocket) :
    s.freeHandle.traffic = { s.traffic with shell := s.shell.freeHandle } := by
  cases hhandle : s.hasHandle <;> simp [freeHandle, Shell.freeHandle, shell, traffic, hhandle]

theorem Safe.finish (h : s.Safe) (hstep : s.finish = some s') : s'.Safe := by
  unfold TcpSocket.finish at hstep
  split at hstep
  · cases hstep
  case h_2 e hdispatching =>
    have hdone : { s with dispatching := none }.Safe := Traffic.Safe.finish h
    dsimp only at hstep
    split at hstep <;> cases hstep
    case isTrue hclose =>
      unfold Safe
      rw [traffic_freeHandle]
      exact hdone.freeHandle ⟨e, h.sound.dispatching e hdispatching, hclose⟩
    · exact hdone

/-!
## Operations
-/

theorem Safe.takeOp (h : s.Safe) (hops : s.ops = op :: rest) :
    (s.takeOp op rest).Safe := Traffic.Safe.take h hops

theorem sealed_takeOp (hop : op.seals = true) (rest : List TcpOp) : (s.takeOp op rest).Sealed := by
  refine any_eq_true.mpr ⟨op, ?_, hop⟩
  exact mem_append_right _ mem_cons_self

variable (h : s.Safe)
include h

theorem Safe.register (hops : s.ops = op :: rest) (hptr : op.hasSocketPtr = true) :
    (s.takeOp op rest).register.touch.Safe := by
  have hnot : ¬s.shell.Ended := h.not_ended_of_head hops hptr
  have hreg : (s.takeOp op rest).register.Safe := Traffic.Safe.register (h.takeOp hops) hnot
  exact hreg.touch rfl

theorem Safe.onAsyncTcpOp {rc : Int} (hstep : s.onAsyncTcpOp rc = some s') : s'.Safe := by
  unfold TcpSocket.onAsyncTcpOp at hstep
  split at hstep
  · cases hstep
  case h_2 op rest hops =>
    cases hstep
    have htake := h.takeOp hops
    change ((s.takeOp op rest).processTcpOp op rc).Safe
    cases op with
    | connect =>
      have hreg := h.register hops rfl
      change (s.takeOp .connect rest).processTcpConnect.Safe
      unfold processTcpConnect
      dsimp only
      split
      · exact hreg
      · exact (hreg.setState .resolving).resolve fun _ => sealed_takeOp rfl rest
    | listen =>
      have hreg := h.register hops rfl
      change (s.takeOp .listen rest).processTcpListen.Safe
      unfold processTcpListen
      dsimp only
      split
      · exact hreg
      · exact hreg.resolve nofun
    | bind =>
      have hreg := h.register hops rfl
      change (s.takeOp .bind rest).processTcpBind.Safe
      unfold processTcpBind
      dsimp only
      split
      · exact hreg
      · exact hreg.resolve nofun
    | acceptConfig =>
      have hreg := h.register hops rfl
      change (s.takeOp .acceptConfig rest).processTcpAcceptConfig.Safe
      unfold processTcpAcceptConfig
      dsimp only
      split
      · exact hreg
      · exact hreg.startReading (sealed_takeOp rfl rest)
    | send data =>
      change ((s.takeOp (.send data) rest).processTcpSend rc).Safe
      unfold processTcpSend
      split
      case isFalse => exact htake
      case isTrue hreg =>
        have htouch := htake.touch hreg
        dsimp only
        split
        · exact htouch
        · split
          · exact htouch
          · split
            · exact htouch.pushError rc
            · exact htouch.modifyHandle _ fun u hu => hu
    | setOption option value =>
      change ((s.takeOp (.setOption option value) rest).processTcpSetOption option
        value).Safe
      unfold processTcpSetOption
      split
      case isFalse => exact htake
      case isTrue hreg =>
        dsimp only
        split <;> exact htake.touch hreg
    | close =>
      have hsealed : (s.takeOp .close rest).Sealed := sealed_takeOp rfl rest
      change (s.takeOp .close rest).processTcpClose.Safe
      unfold processTcpClose
      split
      case isFalse => exact htake
      case isTrue hreg =>
        have htouch := htake.touch hreg
        dsimp only
        split
        · exact htouch
        · split
          · exact (htouch.setState .closing).of_sealed_uv hsealed _
          · exact (htouch.setState .closed).end hsealed

/-!
## Callbacks
-/

theorem Safe.resolvedConnect (hsealed : s.Sealed) (rc : Int) : (s.resolvedConnect rc).Safe := by
  have hhandle := h.ensureHandle.setState .connecting
  have hsealed' : (s.ensureHandle.setState .connecting).Sealed := by
    unfold TcpSocket.ensureHandle
    split <;> exact hsealed
  unfold TcpSocket.resolvedConnect
  dsimp only
  split
  · exact hhandle.pushError rc
  · split
    · exact hhandle
    · exact hhandle.of_sealed_uv hsealed' _

theorem Safe.resolvedListen (bindRc listenRc : Int) : (s.resolvedListen bindRc listenRc).Safe := by
  unfold TcpSocket.resolvedListen
  dsimp only
  split
  · exact h.newHandle.closeTcpHandle.pushError bindRc
  · split
    · exact h.newHandle.closeTcpHandle.pushError listenRc
    · split
      · exact h.newHandle
      · refine Safe.setState ?_ .listening
        exact h.newHandle.modifyHandle _ fun u hu => hu

theorem Safe.resolvedBind (rc : Int) : (s.resolvedBind rc).Safe := by
  unfold TcpSocket.resolvedBind
  dsimp only
  split
  · exact h.ensureHandle.closeTcpHandle.pushError rc
  · exact h.ensureHandle

theorem Safe.resolved {answer : Answer} (hstep : s.resolved lookup answer = some s') : s'.Safe := by
  unfold TcpSocket.resolved at hstep
  split at hstep
  · cases hstep
  case isFalse hnot =>
    have htake := h.takeLookup lookup
    dsimp only at hstep
    split at hstep
    · cases hstep
      exact htake
    case isFalse hreg =>
      have htouch := htake.touch (Bool.of_not_eq_false hreg)
      split at hstep
      · cases hstep
        exact htouch
      · split at hstep
        · cases hstep
          exact htouch.pushError _
        · cases lookup with
          | connect =>
            cases hstep
            refine htouch.resolvedConnect (Bool.of_not_eq_false fun hsealed => ?_) _
            exact of_decide_eq_false (h.looking hsealed) (Decidable.not_not.mp hnot)
          | listen =>
            cases hstep
            exact htouch.resolvedListen _ _
          | bind =>
            cases hstep
            exact htouch.resolvedBind _

theorem Safe.onTcpConnected (hstep : s.onTcpConnected k status = some s') : s'.Safe := by
  unfold TcpSocket.onTcpConnected at hstep
  split at hstep
  · cases hstep
  case h_2 u hu =>
    split at hstep
    · cases hstep
    case isFalse hpending =>
      have hsealed : s.Sealed :=
        h.sealed_of_handle hu fun hcalm => hpending (.inl hcalm.2.1)
      have hdone : (s.connectDone k).Safe := h.of_sealed_uv hsealed _
      dsimp only at hstep
      split at hstep
      · cases hstep
        exact hdone
      · split at hstep <;> cases hstep
        · exact hdone.pushError status
        · exact ((hdone.setState .connected).startReading hsealed).pushSocketEvent rfl

theorem Safe.pushData (data : List UInt8) : (s.pushData data).Safe := by
  unfold TcpSocket.pushData
  dsimp only
  generalize chunks _ data.length data = pieces
  induction pieces generalizing s with
  | nil => exact h
  | cons piece rest ih => exact ih (h.pushSocketEvent rfl)

theorem Safe.closedByPeer (hsealed : s.Sealed) (k : Nat) : (s.closedByPeer k).Safe := by
  have hstop := h.of_sealed_uv hsealed (s.uv.modify k fun u => { u with reading := false })
  unfold TcpSocket.closedByPeer
  dsimp only
  split
  · exact hstop.setState .closing
  · exact (hstop.setState .closing).of_sealed_uv hsealed _

theorem Safe.onTcpRead {result : ReadResult} (hstep : s.onTcpRead k result = some s') :
    s'.Safe := by
  unfold TcpSocket.onTcpRead at hstep
  split at hstep
  · cases hstep
  case h_2 u hu =>
    split at hstep
    · cases hstep
    case isFalse hreading =>
      have hsealed : s.Sealed := h.sealed_of_handle hu fun hcalm => hreading hcalm.1
      cases result with
      | data bytes =>
        dsimp only at hstep
        split at hstep <;> cases hstep
        · exact h.callbackOf k
        · exact (h.callbackOf k).pushData bytes
      | eof =>
        cases hstep
        exact (h.callbackOf k).closedByPeer hsealed k
      | error code =>
        cases hstep
        exact (h.callbackOf k).pushError code

theorem Safe.onTcpWriteDone (hstep : s.onTcpWriteDone k status = some s') : s'.Safe := by
  unfold TcpSocket.onTcpWriteDone at hstep
  split at hstep
  · cases hstep
  case h_2 u hu =>
    split at hstep
    · cases hstep
    have hdone : (s.writeDone k).Safe := (h.callbackOf k).modifyHandle k fun u hu => hu
    dsimp only at hstep
    split at hstep <;> cases hstep
    · exact hdone.pushError status
    · exact hdone

theorem Safe.closed (hstep : s.closed k = some s') : s'.Safe := by
  unfold TcpSocket.closed at hstep
  split at hstep
  · cases hstep
  case h_2 u hu =>
    split at hstep
    case isTrue hready =>
      cases hstep
      have hsealed : s.Sealed := h.sealed_of_handle hu fun hcalm => hcalm.2.2 hready.1
      have hdeleted := ((h.callbackOf k).setState .closed).deleteHandle
      refine hdeleted.end ?_
      unfold TcpSocket.deleteHandle
      split <;> exact hsealed
    split at hstep <;> cases hstep
    exact Traffic.Safe.setUv h fun hnot => calm_delete (h.calm hnot)

theorem Safe.onTcpNewConnection (hstep : s.onTcpNewConnection k status = some s') : s'.Safe := by
  unfold TcpSocket.onTcpNewConnection at hstep
  split at hstep
  · cases hstep
  split at hstep
  · cases hstep
  · split at hstep <;> cases hstep
    · exact h
    · exact h.pushSocketEvent rfl

end TcpSocket

/-!
## Runs
-/

/-- No Connect, Bind or Listen is issued behind a Connect or Close, and the handle is
not passed to a native that frees it. -/
def KeepsObject (s : TcpSocket) : Action -> Prop
  | .request op => op.hasSocketPtr = true -> s.issued.any TcpOp.seals = false
  | .freeArgument => False
  | _ => True

theorem safe_step {s s' : TcpSocket} {action : Action} (h : s.Safe)
    (hallowed : KeepsObject s action) (hstep : step action s = some s') : s'.Safe := by
  cases action with
  | request op => exact h.request hallowed (Option.ite_none_right_eq_some.mp hstep).right
  | requestClose => exact h.requestClose hstep
  | adopt => exact h.adopt hstep
  | freeArgument => exact hallowed.elim
  | dispatch => exact h.dispatch hstep
  | finish => exact h.finish hstep
  | op rc => exact h.onAsyncTcpOp hstep
  | resolved lookup answer => exact h.resolved hstep
  | connected k status => exact h.onTcpConnected hstep
  | read k result => exact h.onTcpRead hstep
  | writeDone k status => exact h.onTcpWriteDone hstep
  | closed k => exact h.closed hstep
  | newConnection k status => exact h.onTcpNewConnection hstep

end Async2.Tcp
