import Async2.Socket.Owner
import Async2.Socket.Ws
import Mathlib.Data.List.Count

/-!
# The library objects of a WebSocket connection

The state of a registered connection fixes its library objects: a connecting one has
an easy handle that waits for its completion, a connected or closing one has an easy
handle and a poll, and a reconnecting one has its timer only.  A teardown leaves none
of them, as long as each object is the one that the connection names.

The life of a connection is what decides about these objects.  It goes through three
stages when Connect is issued only once.
-/

namespace Async2.Ws

open Socket List

/-- The library objects of a connection and the fields that name them. -/
@[ext] structure Resources where
  curlHandle : Option Nat := none
  uvPoll : Option Nat := none
  closeTimer : Option Nat := none
  pingTimer : Option Nat := none
  reconnectTimer : Option Nat := none
  easies : List Nat := []
  awaiting : List Nat := []
  polls : List Nat := []
  timers : List (Nat × TimerKind) := []

namespace Resources

def pingEntries (ping : Option Nat) : List (Nat × TimerKind) :=
  ping.toList.map fun t => (t, .ping)

/-- The objects of a registered connection in each of its states. -/
inductive Shape : WsState -> Resources -> Prop where
  | created : Shape .created {}
  | connecting (e : Nat) :
      Shape .connecting { curlHandle := some e, easies := [e], awaiting := [e] }
  | connected (e p : Nat) (ping : Option Nat) :
      Shape .connected
        { curlHandle := some e, easies := [e], uvPoll := some p, polls := [p],
          pingTimer := ping, timers := pingEntries ping }
  | closing (e p t : Nat) (ping : Option Nat) :
      Shape .closing
        { curlHandle := some e, easies := [e], uvPoll := some p, polls := [p],
          closeTimer := some t, pingTimer := ping,
          timers := (t, .close) :: pingEntries ping }
  | reconnecting (t : Nat) :
      Shape .reconnecting { reconnectTimer := some t, timers := [(t, .reconnect)] }

/-- Every object is the one that its field names. -/
structure Named (r : Resources) : Prop where
  easies : forall e, e ∈ r.easies -> r.curlHandle = some e
  awaiting : forall e, e ∈ r.awaiting -> r.curlHandle = some e
  polls : forall p, p ∈ r.polls -> r.uvPoll = some p
  timers : forall entry, entry ∈ r.timers ->
    r.closeTimer = some entry.1 ∨ r.pingTimer = some entry.1 ∨ r.reconnectTimer = some entry.1

theorem named_empty : Named {} where
  easies := fun _ h => by cases h
  awaiting := fun _ h => by cases h
  polls := fun _ h => by cases h
  timers := fun _ h => by cases h

section

variable {l : List Nat} {field field' : Option Nat} {x t : Nat}

theorem eq_nil_of_unnamed (h : forall x, x ∈ l -> field = some x) (hnone : field = none) :
    l = [] := by
  refine eq_nil_iff_forall_not_mem.mpr fun x hmem => ?_
  cases hnone.symm.trans (h x hmem)

theorem filter_named (h : forall x, x ∈ l -> field = some x) (ht : field = some t) :
    l.filter (fun x => x ≠ t) = [] := by
  refine filter_eq_nil_iff.mpr fun x hmem => ?_
  cases ht.symm.trans (h x hmem)
  simp

theorem names_other (hfield : field = some t ∨ field' = field) (hne : x ≠ t)
    (hx : field = some x) : field' = some x := by
  rcases hfield with ht | heq
  · cases ht.symm.trans hx
    exact absurd rfl hne
  · exact heq.trans hx

end

/-- A timer is taken out together with the field that names it. -/
theorem Named.takeTimer {r : Resources} (h : Named r) {t : Nat} {close ping rec : Option Nat}
    (hclose : r.closeTimer = some t ∨ close = r.closeTimer)
    (hping : r.pingTimer = some t ∨ ping = r.pingTimer)
    (hrec : r.reconnectTimer = some t ∨ rec = r.reconnectTimer) :
    Named { r with
      closeTimer := close
      pingTimer := ping
      reconnectTimer := rec
      timers := r.timers.filter fun entry => entry.1 ≠ t } where
  easies := h.easies
  awaiting := h.awaiting
  polls := h.polls
  timers := by
    intro entry hmem
    rcases mem_filter.mp hmem with ⟨hold, hne⟩
    have hother : entry.1 ≠ t := of_decide_eq_true hne
    rcases h.timers entry hold with hx | hx | hx
    · exact .inl (names_other hclose hother hx)
    · exact .inr (.inl (names_other hping hother hx))
    · exact .inr (.inr (names_other hrec hother hx))

theorem mem_pingEntries {ping : Option Nat} {entry : Nat × TimerKind}
    (h : entry ∈ pingEntries ping) : ping = some entry.1 := by
  rcases mem_map.mp h with ⟨t, ht, rfl⟩
  exact Option.mem_toList.mp ht

theorem Shape.named {st : WsState} {r : Resources} (h : Shape st r) : Named r := by
  cases h with
  | created => exact named_empty
  | connecting e => constructor <;> simp
  | connected e p ping =>
    constructor <;> simp
    exact fun t kind hmem => mem_pingEntries hmem
  | closing e p t ping =>
    constructor <;> simp
    exact fun t' kind hmem => .inr (mem_pingEntries hmem)
  | reconnecting t => constructor <;> simp

variable {state : WsState} {r : Resources} {t : Nat}

theorem Shape.easies_eq (h : Shape state r) : r.easies = r.curlHandle.toList := by
  cases h <;> rfl

theorem Shape.polls_eq (h : Shape state r) : r.polls = r.uvPoll.toList := by
  cases h <;> rfl

theorem Shape.eq_connected (h : Shape .connected r) :
    exists e p ping, r =
      { curlHandle := some e, easies := [e], uvPoll := some p, polls := [p],
        pingTimer := ping, timers := pingEntries ping } := by
  cases h
  exact ⟨_, _, _, rfl⟩

theorem Shape.eq_closing (h : Shape .closing r) :
    exists e p t ping, r =
      { curlHandle := some e, easies := [e], uvPoll := some p, polls := [p],
        closeTimer := some t, pingTimer := ping,
        timers := (t, .close) :: pingEntries ping } := by
  cases h
  exact ⟨_, _, _, _, rfl⟩

theorem Shape.eq_reconnecting (h : Shape .reconnecting r) :
    exists t, r = { reconnectTimer := some t, timers := [(t, .reconnect)] } := by
  cases h
  exact ⟨_, rfl⟩

variable (h : Shape state r)
include h

/-- Only a connecting connection waits for its easy handle. -/
theorem Shape.connecting_of_mem {e : Nat} (he : e ∈ r.awaiting) :
    state = .connecting ∧ r = { curlHandle := some e, easies := [e], awaiting := [e] } := by
  cases h with
  | connecting e' =>
    have heq : e = e' := mem_singleton.mp he
    rw [heq]
    exact ⟨rfl, rfl⟩
  | created | connected e p ping | closing e p t ping | reconnecting t => cases he

theorem Shape.closeTimer_of_mem (hmem : (t, TimerKind.close) ∈ r.timers) :
    r.closeTimer = some t := by
  cases h with
  | closing e p t' ping =>
    rcases mem_cons.mp hmem with heq | hping
    · cases heq
      rfl
    · cases ping <;> simp [pingEntries] at hping
  | connected e p ping => cases ping <;> simp [pingEntries] at hmem
  | reconnecting t' => simp at hmem
  | created | connecting e => cases hmem

theorem Shape.reconnecting_of_mem (hmem : (t, TimerKind.reconnect) ∈ r.timers) :
    state = .reconnecting := by
  cases h with
  | reconnecting t' => rfl
  | closing e p t' ping | connected e p ping => cases ping <;> simp [pingEntries] at hmem
  | created | connecting e => cases hmem

end Resources

open Resources (Shape Named)

namespace WsConnection

def resources (c : WsConnection) : Resources where
  curlHandle := c.curlHandle
  uvPoll := c.uvPoll
  closeTimer := c.closeTimer
  pingTimer := c.pingTimer
  reconnectTimer := c.reconnectTimer
  easies := c.easies
  awaiting := c.awaiting
  polls := c.polls
  timers := c.timers

/-- The connection with other library objects. -/
def setResources (c : WsConnection) (r : Resources) : WsConnection :=
  { c with
    curlHandle := r.curlHandle
    uvPoll := r.uvPoll
    closeTimer := r.closeTimer
    pingTimer := r.pingTimer
    reconnectTimer := r.reconnectTimer
    easies := r.easies
    awaiting := r.awaiting
    polls := r.polls
    timers := r.timers }

/-!
## Teardown
-/

section

variable {c : WsConnection}

section

variable (h : Named c.resources)
include h

theorem named_stopCloseTimer :
    Named c.stopCloseTimer.resources ∧ c.stopCloseTimer.closeTimer = none := by
  unfold stopCloseTimer
  split
  case h_1 hnone => exact ⟨h, hnone⟩
  case h_2 t ht => exact ⟨h.takeTimer (.inl ht) (.inr rfl) (.inr rfl), rfl⟩

theorem named_stopPingTimer :
    Named c.stopPingTimer.resources ∧ c.stopPingTimer.pingTimer = none := by
  unfold stopPingTimer
  split
  case h_1 hnone => exact ⟨h, hnone⟩
  case h_2 t ht => exact ⟨h.takeTimer (.inr rfl) (.inl ht) (.inr rfl), rfl⟩

theorem named_stopReconnectTimer :
    Named c.stopReconnectTimer.resources ∧ c.stopReconnectTimer.reconnectTimer = none := by
  unfold stopReconnectTimer
  split
  case h_1 hnone => exact ⟨h, hnone⟩
  case h_2 t ht => exact ⟨h.takeTimer (.inr rfl) (.inr rfl) (.inl ht), rfl⟩

omit h in
theorem closeTimer_stopPingTimer (c : WsConnection) :
    c.stopPingTimer.closeTimer = c.closeTimer := by
  unfold stopPingTimer
  split <;> rfl

omit h in
theorem closeTimer_stopReconnectTimer (c : WsConnection) :
    c.stopReconnectTimer.closeTimer = c.closeTimer ∧
      c.stopReconnectTimer.pingTimer = c.pingTimer := by
  unfold stopReconnectTimer
  split <;> exact ⟨rfl, rfl⟩

theorem named_wsStopTimers :
    Named c.wsStopTimers.resources ∧ c.wsStopTimers.closeTimer = none ∧
      c.wsStopTimers.pingTimer = none ∧ c.wsStopTimers.reconnectTimer = none ∧
      c.wsStopTimers.timers = [] := by
  rcases named_stopCloseTimer h with ⟨hfirst, hclose⟩
  rcases named_stopPingTimer hfirst with ⟨hsecond, hping⟩
  rcases named_stopReconnectTimer hsecond with ⟨hthird, hrec⟩
  rcases closeTimer_stopReconnectTimer c.stopCloseTimer.stopPingTimer with ⟨hkeep, hkeep'⟩
  have hclose' : c.wsStopTimers.closeTimer = none :=
    hkeep.trans ((closeTimer_stopPingTimer _).trans hclose)
  have hping' : c.wsStopTimers.pingTimer = none := hkeep'.trans hping
  refine ⟨hthird, hclose', hping', hrec, ?_⟩
  refine eq_nil_iff_forall_not_mem.mpr fun entry hmem => ?_
  rcases hthird.timers entry hmem with heq | heq | heq
  · cases hclose'.symm.trans heq
  · cases hping'.symm.trans heq
  · cases hrec.symm.trans heq

theorem stopPoll_resources :
    c.stopPoll.resources = { c.resources with uvPoll := none, polls := [] } := by
  unfold stopPoll
  split
  case h_1 hnone =>
    have hnil : c.polls = [] := Resources.eq_nil_of_unnamed h.polls hnone
    simp [resources, hnone, hnil]
  case h_2 p hp =>
    have hnil : c.polls.filter (fun q => q ≠ p) = [] := Resources.filter_named h.polls hp
    simp only [resources, hnil]

theorem removeEasy_resources :
    c.removeEasy.resources =
      { c.resources with curlHandle := none, easies := [], awaiting := [] } := by
  unfold removeEasy
  split
  case h_1 hnone =>
    have heasies : c.easies = [] := Resources.eq_nil_of_unnamed h.easies hnone
    have hawaiting : c.awaiting = [] := Resources.eq_nil_of_unnamed h.awaiting hnone
    simp [resources, hnone, heasies, hawaiting]
  case h_2 e he =>
    have heasies : c.easies.filter (fun x => x ≠ e) = [] := Resources.filter_named h.easies he
    have hawaiting : c.awaiting.filter (fun x => x ≠ e) = [] :=
      Resources.filter_named h.awaiting he
    simp only [cleanupEasy, resources, heasies, hawaiting]

end

theorem setResources_trans {d e : WsConnection} (hcd : exists r, d = c.setResources r)
    (hde : exists r, e = d.setResources r) : exists r, e = c.setResources r := by
  rcases hcd with ⟨_, rfl⟩
  rcases hde with ⟨r, rfl⟩
  exact ⟨r, rfl⟩

theorem wsStopTimers_setResources (c : WsConnection) :
    exists r, c.wsStopTimers = c.setResources r := by
  have hclose : exists r, c.stopCloseTimer = c.setResources r := by
    refine ⟨c.stopCloseTimer.resources, ?_⟩
    unfold stopCloseTimer
    split <;> rfl
  have hping : forall d : WsConnection, exists r, d.stopPingTimer = d.setResources r := by
    intro d
    refine ⟨d.stopPingTimer.resources, ?_⟩
    unfold stopPingTimer
    split <;> rfl
  have hrec : forall d : WsConnection,
      exists r, d.stopReconnectTimer = d.setResources r := by
    intro d
    refine ⟨d.stopReconnectTimer.resources, ?_⟩
    unfold stopReconnectTimer
    split <;> rfl
  exact setResources_trans (setResources_trans hclose (hping _)) (hrec _)

theorem teardown_setResources (c : WsConnection) :
    exists r, c.wsStopTimers.stopPoll.removeEasy = c.setResources r := by
  have hpoll : forall d : WsConnection, exists r, d.stopPoll = d.setResources r := by
    intro d
    refine ⟨d.stopPoll.resources, ?_⟩
    unfold stopPoll
    split <;> rfl
  have heasy : forall d : WsConnection, exists r, d.removeEasy = d.setResources r := by
    intro d
    refine ⟨d.removeEasy.resources, ?_⟩
    unfold removeEasy
    split <;> rfl
  exact setResources_trans (setResources_trans (wsStopTimers_setResources c) (hpoll _)) (heasy _)

/-- `WsCleanup` leaves no library object behind. -/
theorem wsCleanup_eq (h : Named c.resources) (keep : Bool) :
    c.wsCleanup keep = (c.setResources {}).leave keep := by
  rcases named_wsStopTimers h with ⟨hnamed, hclose, hping, hrec, htimers⟩
  have hpoll := stopPoll_resources hnamed
  have hnamed' : Named c.wsStopTimers.stopPoll.resources := by
    rw [hpoll]
    exact ⟨hnamed.easies, hnamed.awaiting, (fun _ hmem => by cases hmem), hnamed.timers⟩
  have hempty : c.wsStopTimers.stopPoll.removeEasy.resources = {} := by
    rw [removeEasy_resources hnamed', hpoll]
    simp [resources, hclose, hping, hrec, htimers]
  rcases teardown_setResources c with ⟨r, hr⟩
  have hrempty : r = {} := by
    rw [hr] at hempty
    exact hempty
  unfold wsCleanup
  rw [hr, hrempty]

end

/-!
## Stages
-/

/-- What decides about the library objects, and what has been made of them. -/
structure Life where
  started : Bool
  closeDone : Bool
  registered : Bool
  closeEventPushed : Bool
  receiving : Bool
  state : WsState
  resources : Resources
  maxReconnects : Int
  reconnectCount : Int
  attempts : Nat
  pushed : List SocketEvent

namespace Life

def Reported (l : Life) : Nat := l.pushed.countP fun e => isCloseEvent e.type

/-- Nothing is pushed after the end of the connection. -/
def EndsLast (pushed : List SocketEvent) : Prop :=
  forall pre e post, pushed = pre ++ e :: post -> isCloseEvent e.type = true -> post = []

/-- The connect operation has not been processed. -/
structure Waiting (l : Life) : Prop where
  started : l.started = false
  closeDone : l.closeDone = false
  registered : l.registered = false
  closeEventPushed : l.closeEventPushed = false
  receiving : l.receiving = false
  state : l.state = .created
  resources : l.resources = {}
  reconnectCount : l.reconnectCount = 0
  attempts : l.attempts = 0
  pushed : l.pushed = []

/-- The connection has not ended.  `fixed` says that the number of reconnects does
not change. -/
structure Going (fixed : Prop) (l : Life) : Prop where
  started : l.started = true
  registered : l.registered = true
  closeEventPushed : l.closeEventPushed = false
  pushed : l.Reported = 0
  counted : l.attempts <= l.reconnectCount
  bounded : fixed -> 0 < l.maxReconnects -> l.reconnectCount <= l.maxReconnects

structure Active (fixed : Prop) (l : Life) : Prop extends Going fixed l where
  closeDone : l.closeDone = true -> l.state = .closing
  shape : Shape l.state l.resources
  pending : l.state = .reconnecting -> l.attempts + 1 <= l.reconnectCount

/-- `fails` says that `curl_easy_init` may fail in `ProcessWsConnect`, which then
reports an error only. -/
structure Over (fails fixed : Prop) (l : Life) : Prop where
  started : l.started = true
  registered : l.registered = false
  receiving : l.receiving = false
  resources : l.resources = {}
  bounded : fixed -> 0 < l.maxReconnects -> l.attempts <= l.maxReconnects
  last : EndsLast l.pushed
  reported : fails ∨ l.Reported = 1

def Stage (fails fixed : Prop) (l : Life) : Prop :=
  Waiting l ∨ Active fixed l ∨ Over fails fixed l

variable {fails fixed : Prop} {l : Life} {e : SocketEvent}

theorem endsLast_append {pushed : List SocketEvent}
    (h : pushed.countP (fun e => isCloseEvent e.type) = 0) : EndsLast (pushed ++ [e]) := by
  intro pre e' post heq hclose
  rcases eq_nil_or_concat post with rfl | ⟨front, last, rfl⟩
  · rfl
  · rw [concat_eq_append, ← cons_append, ← append_assoc] at heq
    have hinit := (append_inj' heq rfl).1
    have hmem : e' ∈ pushed := by
      rw [hinit]
      simp
    have hfalse := countP_eq_zero.mp h e' hmem
    exact absurd hclose hfalse

section

variable (h : Stage fails fixed l)
include h

theorem Stage.active_of_registered (hreg : l.registered = true) : Active fixed l := by
  rcases h with hwait | hactive | hover
  · cases hreg.symm.trans hwait.registered
  · exact hactive
  · cases hreg.symm.trans hover.registered

theorem Stage.active_of_resources (hne : l.resources ≠ {}) : Active fixed l := by
  rcases h with hwait | hactive | hover
  · exact absurd hwait.resources hne
  · exact hactive
  · exact absurd hover.resources hne

theorem Stage.active_of_receiving (hrecv : l.receiving = true) : Active fixed l := by
  rcases h with hwait | hactive | hover
  · cases hrecv.symm.trans hwait.receiving
  · exact hactive
  · cases hrecv.symm.trans hover.receiving

theorem Stage.easies_eq : l.resources.easies = l.resources.curlHandle.toList := by
  rcases h with hwait | hactive | hover
  · rw [hwait.resources]
    rfl
  · exact hactive.shape.easies_eq
  · rw [hover.resources]
    rfl

theorem Stage.polls_eq : l.resources.polls = l.resources.uvPoll.toList := by
  rcases h with hwait | hactive | hover
  · rw [hwait.resources]
    rfl
  · exact hactive.shape.polls_eq
  · rw [hover.resources]
    rfl

theorem Stage.endsLast : EndsLast l.pushed := by
  rcases h with hwait | hactive | hover
  · intro pre e post hpushed
    rw [hwait.pushed] at hpushed
    simp at hpushed
  · intro pre e post hpushed hclose
    have hnot := countP_eq_zero.mp hactive.pushed e (by rw [hpushed]; simp)
    exact absurd hclose hnot
  · exact hover.last

theorem Stage.attempts_le (hfixed : fixed) (hpos : 0 < l.maxReconnects) :
    l.attempts <= l.maxReconnects := by
  rcases h with hwait | hactive | hover
  · rw [hwait.attempts]
    exact Int.le_of_lt hpos
  · exact Int.le_trans hactive.counted (hactive.bounded hfixed hpos)
  · exact hover.bounded hfixed hpos

end

/-- A connection that was closed after its start is over once its close timer is. -/
theorem Stage.reported_of_idle (h : Stage False fixed l) (hdone : l.closeDone = true)
    (hidle : forall t, (t, TimerKind.close) ∉ l.resources.timers) : l.Reported = 1 := by
  rcases h with hwait | hactive | hover
  · cases hdone.symm.trans hwait.closeDone
  · have hshape := hactive.shape
    rw [hactive.closeDone hdone] at hshape
    rcases hshape.eq_closing with ⟨e, p, t, ping, hr⟩
    refine absurd ?_ (hidle t)
    rw [hr]
    exact mem_cons_self
  · exact hover.reported.resolve_left id

theorem Going.push (h : Going fixed l) (he : isCloseEvent e.type = false) :
    Going fixed { l with pushed := l.pushed ++ [e] } :=
  { h with
    pushed := by
      have hzero := h.pushed
      unfold Reported at hzero ⊢
      simp [countP_append, he, hzero] }

theorem Active.push (h : Active fixed l) (he : isCloseEvent e.type = false) :
    Active fixed { l with pushed := l.pushed ++ [e] } :=
  { toGoing := h.toGoing.push he
    closeDone := h.closeDone
    shape := h.shape
    pending := h.pending }

theorem Going.enter (h : Going fixed l) {state : WsState} {r : Resources}
    (hdone : l.closeDone = true -> state = .closing) (hshape : Shape state r)
    (hpending : state = .reconnecting -> l.attempts + 1 <= l.reconnectCount) :
    Active fixed { l with state := state, resources := r } :=
  { started := h.started
    closeDone := hdone
    registered := h.registered
    closeEventPushed := h.closeEventPushed
    pushed := h.pushed
    counted := h.counted
    bounded := h.bounded
    shape := hshape
    pending := hpending }

theorem Going.finish (h : Going fixed l) (he : isCloseEvent e.type = true) (state : WsState)
    (closeEventPushed : Bool) (hrecv : l.receiving = false) :
    Over fails fixed
      { l with
        registered := false
        resources := {}
        state := state
        closeEventPushed := closeEventPushed
        pushed := l.pushed ++ [e] } where
  started := h.started
  registered := rfl
  receiving := hrecv
  resources := rfl
  bounded := fun hfixed hpos => Int.le_trans h.counted (h.bounded hfixed hpos)
  last := endsLast_append h.pushed
  reported := by
    refine .inr ?_
    have hzero := h.pushed
    unfold Reported at hzero ⊢
    simp [countP_append, he, hzero]

end Life

def life (c : WsConnection) : Life where
  started := c.processed.any WsOp.hasConnPtr
  closeDone := closesAfterStart WsOp.hasConnPtr WsOp.isClose c.processed
  registered := c.registered
  closeEventPushed := c.closeEventPushed
  receiving := c.receiving
  state := c.state
  resources := c.resources
  maxReconnects := c.maxReconnects
  reconnectCount := c.reconnectCount
  attempts := c.attempts
  pushed := c.pushed

variable {fails fixed : Prop} {c : WsConnection}

@[simp] theorem life_touch (c : WsConnection) : c.touch.life = c.life := rfl

@[simp] theorem life_register (c : WsConnection) :
    c.register.life = { c.life with registered := true } := rfl

@[simp] theorem life_unregister (c : WsConnection) :
    c.unregister.life = { c.life with registered := false } := rfl

@[simp] theorem life_pushSocketEvent (c : WsConnection) (e : SocketEvent) :
    (c.pushSocketEvent e).life = { c.life with pushed := c.life.pushed ++ [e] } := rfl

@[simp] theorem life_pushError (c : WsConnection) (code : Int) :
    (c.pushError code).life =
      { c.life with pushed := c.life.pushed ++ [makeErrorEvent .wsError false code] } := rfl

/-!
## The end of a connection and the way to the next one
-/

theorem life_pushWsClosedOnce (h : c.closeEventPushed = false) (e : SocketEvent) :
    (c.pushWsClosedOnce e).life =
      { c.life with closeEventPushed := true, pushed := c.life.pushed ++ [e] } := by
  unfold pushWsClosedOnce
  rw [if_neg (by rw [h]; exact Bool.false_ne_true)]
  rfl

theorem over_wsClose (h : c.life.Going fixed) (hnamed : Named c.resources)
    (hrecv : c.receiving = false) {e : SocketEvent} (he : isCloseEvent e.type = true) :
    (c.wsClose e).life.Over fails fixed := by
  have hpushed : ((c.setResources {}).leave false).closeEventPushed = false :=
    h.closeEventPushed
  unfold wsClose
  rw [wsCleanup_eq hnamed, life_pushWsClosedOnce hpushed]
  exact h.finish he .closed true hrecv

theorem wsShouldReconnect_eq_true (h : c.wsShouldReconnect = true) :
    c.handleClosed = false ∧ c.state ≠ .closing ∧ c.maxReconnects ≠ 0 ∧
      (0 < c.maxReconnects -> c.reconnectCount < c.maxReconnects) := by
  unfold wsShouldReconnect at h
  split at h
  · cases h
  · split at h
    · cases h
    · split at h
      · cases h
      · split at h
        · cases h
        · rename_i hopen hclosing hzero hbound
          refine ⟨Bool.eq_false_iff.mpr hopen, hclosing, hzero, fun hpos => ?_⟩
          exact Int.not_le.mp fun hle => hbound ⟨hpos, hle⟩

variable (h : c.life.Going fixed) (hnamed : Named c.resources)
  (hdone : c.life.closeDone = true -> c.state = .closing)
include h hnamed hdone

theorem active_wsStartReconnect (hshould : c.wsShouldReconnect = true) :
    c.wsStartReconnect.life.Active fixed := by
  rcases wsShouldReconnect_eq_true hshould with ⟨_, hclosing, _, hbound⟩
  have hcounted : (c.attempts : Int) + 1 <= c.reconnectCount + 1 :=
    Int.add_le_add_right h.counted 1
  unfold wsStartReconnect
  rw [wsCleanup_eq hnamed]
  exact
    { started := h.started
      closeDone := fun hclose => absurd (hdone hclose) hclosing
      registered := h.registered
      closeEventPushed := h.closeEventPushed
      pushed := h.pushed
      counted := Int.le_trans (Int.le_add_one (Int.le_refl _)) hcounted
      bounded := fun _ hpos => hbound hpos
      shape := .reconnecting c.next
      pending := fun _ => hcounted }

theorem stage_wsDisconnectOrReconnect (hrecv : c.receiving = false) (code : Int)
    (reason : List UInt8) : (c.wsDisconnectOrReconnect code reason).life.Stage fails fixed := by
  unfold wsDisconnectOrReconnect
  split
  case isTrue hshould => exact .inr (.inl (active_wsStartReconnect h hnamed hdone hshould))
  · exact .inr (.inr (over_wsClose h hnamed hrecv rfl))

end WsConnection
end Async2.Ws
