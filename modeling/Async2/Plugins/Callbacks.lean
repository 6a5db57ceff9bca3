import Async2.Http.Reached
import Async2.Socket.Inert

/-!
# Callbacks and the plugins they run in

A request or socket stores the address of its plugin's context.  Whoever runs a
callback asks whether this address is in `g_plugin_contexts`, which holds the
contexts of the loaded plugins.  When a plugin is unloaded, its context is freed, and
a plugin that is loaded later may get the same address.

The sockets that a plugin owns are closed by `OnPluginUnloaded`; here this is a step
of each socket.  So is the creation of the handle of an accepted connection.
-/

namespace Async2.Plugins

open TransitionSystem Function List Option
open Socket
open Http (Address HandleId Context Native AllReached)

abbrev Instance := Nat

structure Execution where
  creator : Instance
  ranIn : Instance
deriving DecidableEq

structure World where
  http : Http.State
  sockets : Nat -> AnySocket
  /-- `g_plugin_contexts`, with the instance that is behind each context. -/
  plugins : Context -> Option Instance
  nextInstance : Instance
  -- `plugin_context` of the objects
  requestContext : Address -> Context
  socketContext : Nat -> Context
  -- what has happened so far
  requestCreator : Address -> Instance
  socketCreator : Nat -> Instance
  executions : List Execution

def World.init : World where
  http := Http.State.init
  sockets := fun _ => .absent
  plugins := fun _ => none
  nextInstance := 0
  requestContext := fun _ => 0
  socketContext := fun _ => 0
  requestCreator := fun _ => 0
  socketCreator := fun _ => 0
  executions := []

namespace World

/-- `GetSourcepawnFunction` and the execution of what it returns. -/
def callback (w : World) (ctx : Context) (creator : Instance) : World :=
  match w.plugins ctx with
  | none => w
  | some inst => { w with executions := w.executions ++ [⟨creator, inst⟩] }

/-!
## Plugins
-/

def onPluginLoaded (w : World) (ctx : Context) : Option World :=
  if w.http.InPlugin ∧ w.plugins ctx = none then
    some { w with
      plugins := update w.plugins ctx (some w.nextInstance)
      nextInstance := w.nextInstance + 1 }
  else none

def onPluginUnloaded (w : World) (ctx : Context) (ids : List HandleId) : Option World :=
  match w.plugins ctx with
  | none => none
  | some _ =>
    (Http.step (.pluginUnloaded ctx ids) w.http).map fun s =>
      { w with http := s, plugins := update w.plugins ctx none }

/-!
## Requests
-/

def httpNew (w : World) (ctx : Context) (a : Address) (id : HandleId) : Option World :=
  match w.plugins ctx with
  | none => none
  | some inst =>
    (Http.step (.httpNew ctx a id) w.http).map fun s =>
      { w with
        http := s
        requestContext := update w.requestContext a ctx
        requestCreator := update w.requestCreator a inst }

def deliver (w : World) : Option World :=
  match w.http.drained with
  | [] => none
  | a :: _ =>
    (Http.step .deliver w.http).map fun s =>
      { w with http := s }.callback (w.requestContext a) (w.requestCreator a)

def native (w : World) : Native -> Option World
  | .http (.httpNew ctx a id) => w.httpNew ctx a id
  | .http .deliver => w.deliver
  | .http (.pluginUnloaded _ _) => none
  | n => (n.step w.http).map fun s => { w with http := s }

/-!
## Sockets
-/

inductive SocketKind where
  | tcp
  | udp
  | ws

def SocketKind.action : SocketKind -> Socket.Action
  | .tcp => .newTcp
  | .udp => .newUdp
  | .ws => .newWs

def newSocket (w : World) (ctx : Context) (i : Nat) (kind : SocketKind) : Option World :=
  match w.plugins ctx with
  | none => none
  | some inst =>
    (machine.step kind.action (w.sockets i)).map fun t =>
      { w with
        sockets := update w.sockets i t
        socketContext := update w.socketContext i ctx
        socketCreator := update w.socketCreator i inst }

/-- What `OnTcpNewConnection` does to the listener, and the chunk size that the
connection gets. -/
def acceptFrom (listener : AnySocket) (h : Nat) : Option (AnySocket × Int) :=
  match listener with
  | .tcp t =>
    if t.handleClosed then none
    else (t.onTcpNewConnection h 0).map fun t' => (.tcp t', t.maxChunkSize)
  | _ => none

/-- A connection takes over the context of its listener. -/
def accept (w : World) (i j h : Nat) : Option World :=
  match acceptFrom (w.sockets j) h with
  | none => none
  | some (listener, maxChunkSize) =>
    (machine.step (.acceptTcp maxChunkSize) (w.sockets i)).map fun t =>
      { w with
        sockets := update (update w.sockets j listener) i t
        socketContext := update w.socketContext i (w.socketContext j)
        socketCreator := update w.socketCreator i (w.socketCreator j) }

/-- The event at the head of the queue has a callback. -/
def headDispatches : List SocketEvent -> Bool
  | [] => false
  | e :: _ => dispatches e

/-- The step is the dispatch of an event with a callback. -/
def runsCallback : Socket.Action -> AnySocket -> Bool
  | .tcp .dispatch, .tcp s => headDispatches s.events
  | .udp .dispatch, .udp s => headDispatches s.events
  | .ws .dispatch, .ws c => headDispatches c.events
  | _, _ => false

def setSocket (w : World) (i : Nat) (t : AnySocket) : World :=
  { w with sockets := update w.sockets i t }

def socket (w : World) (i : Nat) (action : Socket.Action) : Option World :=
  if action.isNew then none
  else
    (machine.step action (w.sockets i)).map fun t =>
      if runsCallback action (w.sockets i) then
        (w.setSocket i t).callback (w.socketContext i) (w.socketCreator i)
      else w.setSocket i t

end World

inductive Action where
  | load (ctx : Context)
  | unload (ctx : Context) (ids : List HandleId)
  | native (n : Native)
  | newSocket (ctx : Context) (i : Nat) (kind : World.SocketKind)
  | accept (i j h : Nat)
  | socket (i : Nat) (action : Socket.Action)

def step : Action -> World -> Option World
  | .load ctx, w => w.onPluginLoaded ctx
  | .unload ctx ids, w => w.onPluginUnloaded ctx ids
  | .native n, w => w.native n
  | .newSocket ctx i kind, w => w.newSocket ctx i kind
  | .accept i j h, w => w.accept i j h
  | .socket i action, w => w.socket i action

def extension : System World Action where
  init := World.init
  step := step

/-!
## Contexts that are taken over
-/

/-- Nothing leads to a request with the context any more, and its sockets are
over. -/
structure Abandoned (w : World) (ctx : Context) : Prop where
  requests : AllReached (fun a => w.requestContext a ≠ ctx) w.http
  sockets : forall i, (w.sockets i).Inert ∨ w.socketContext i ≠ ctx

/-- A plugin is loaded only where no object of an earlier one is left. -/
def LoadsAbandoned (w : World) : Action -> Prop
  | .load ctx => Abandoned w ctx
  | _ => True

/-!
## The invariant
-/

/-- Behind the context is no plugin, or the given one. -/
def World.Fits (w : World) (ctx : Context) (inst : Instance) : Prop :=
  w.plugins ctx = none ∨ w.plugins ctx = some inst

structure Inv (w : World) : Prop where
  requests : AllReached (fun a => w.Fits (w.requestContext a) (w.requestCreator a)) w.http
  sockets : forall i,
    (w.sockets i).Inert ∨ w.Fits (w.socketContext i) (w.socketCreator i)
  executions : forall e, e ∈ w.executions -> e.ranIn = e.creator

theorem inv_init : Inv World.init where
  requests := by
    constructor
    case handles => exact fun _ _ h => absurd h (by simp [World.init, Http.State.init,
      Http.State.pointerOf])
    all_goals
      intros
      exact .inl rfl
  sockets := fun _ => .inl trivial
  executions := fun _ h => by cases h

section

variable {w w' : World} {ctx : Context} {i : Nat} {action : Socket.Action}

section

variable (h : Inv w)
include h

/-- A callback runs in the plugin that its object fits. -/
theorem Inv.callback {creator : Instance} (hfits : w.Fits ctx creator) :
    Inv (w.callback ctx creator) := by
  unfold World.callback
  split
  · exact h
  case h_2 inst hloaded =>
    refine ⟨h.requests, h.sockets, fun e he => ?_⟩
    rcases mem_append.mp he with hold | hnew
    · exact h.executions e hold
    · rw [mem_singleton.mp hnew]
      rcases hfits with hnone | hsome
      · rw [hloaded] at hnone
        cases hnone
      · rw [hloaded] at hsome
        cases hsome
        rfl

theorem Inv.onPluginLoaded (habandoned : Abandoned w ctx) (hstep : w.onPluginLoaded ctx = some w') :
    Inv w' := by
  unfold World.onPluginLoaded at hstep
  split at hstep
  case isFalse => cases hstep
  cases hstep
  have hkeeps : forall ctx' inst, ctx' ≠ ctx -> w.Fits ctx' inst ->
      update w.plugins ctx (some w.nextInstance) ctx' = none ∨
        update w.plugins ctx (some w.nextInstance) ctx' = some inst := by
    intro ctx' inst hne hfits
    rw [update_of_ne hne]
    exact hfits
  refine ⟨?_, fun i => ?_, h.executions⟩
  · exact (h.requests.and habandoned.requests).mono
      fun a ha => hkeeps _ _ ha.2 ha.1
  · rcases h.sockets i with hinert | hfits
    · exact .inl hinert
    · rcases habandoned.sockets i with hinert | hne
      · exact .inl hinert
      · exact .inr (hkeeps _ _ hne hfits)

theorem Inv.onPluginUnloaded {ids : List HandleId} (hstep : w.onPluginUnloaded ctx ids = some w') :
    Inv w' := by
  unfold World.onPluginUnloaded at hstep
  split at hstep
  · cases hstep
  rcases map_eq_some_iff.mp hstep with ⟨s, hs, rfl⟩
  have hkeeps : forall ctx' inst, w.Fits ctx' inst ->
      update w.plugins ctx none ctx' = none ∨
        update w.plugins ctx none ctx' = some inst := by
    intro ctx' inst hfits
    by_cases hctx : ctx' = ctx
    · subst hctx
      exact .inl (update_self ..)
    · rw [update_of_ne hctx]
      exact hfits
  have hreached := h.requests.step (.http (.pluginUnloaded ctx ids)) rfl hs
  refine ⟨hreached.mono fun a ha => hkeeps _ _ ha, fun i => ?_, h.executions⟩
  rcases h.sockets i with hinert | hfits
  · exact .inl hinert
  · exact .inr (hkeeps _ _ hfits)

theorem Inv.httpNew {a : Address} {id : HandleId} (hstep : w.httpNew ctx a id = some w') :
    Inv w' := by
  unfold World.httpNew at hstep
  split at hstep
  · cases hstep
  case h_2 inst hloaded =>
    rcases map_eq_some_iff.mp hstep with ⟨s, hs, rfl⟩
    refine ⟨(h.requests.mono fun b hb => ?_).stepped (Http.stepped_of_step hs) ?_, h.sockets,
      h.executions⟩
    · by_cases hba : b = a
      · subst hba
        simp [World.Fits, hloaded]
      · simpa [World.Fits, update_of_ne hba] using hb
    · rintro _ _ _ ⟨⟩
      simp [World.Fits, hloaded]

theorem Inv.setHttp {s : Http.State}
    (hs : AllReached (fun a => w.Fits (w.requestContext a) (w.requestCreator a)) s) :
    Inv { w with http := s } :=
  ⟨hs, h.sockets, h.executions⟩

theorem Inv.deliver (hstep : w.deliver = some w') : Inv w' := by
  unfold World.deliver at hstep
  split at hstep
  · cases hstep
  case h_2 a rest hdrained =>
    rcases map_eq_some_iff.mp hstep with ⟨s, hs, rfl⟩
    have hreached := h.requests.step (.http .deliver) rfl hs
    have hfits := h.requests.drained a (by simp [hdrained])
    exact (h.setHttp hreached).callback hfits

theorem Inv.native {n : Native} (hstep : w.native n = some w') : Inv w' := by
  unfold World.native at hstep
  split at hstep
  · exact h.httpNew hstep
  · exact h.deliver hstep
  case h_3 => cases hstep
  case h_4 hnew _ _ =>
    rcases map_eq_some_iff.mp hstep with ⟨s, hs, rfl⟩
    have hother : n.isNew = false := by
      unfold Native.isNew
      split
      · exact absurd rfl (hnew _ _ _)
      · rfl
    exact h.setHttp (h.requests.step n hother hs)

theorem Inv.newSocket {kind : World.SocketKind} (hstep : w.newSocket ctx i kind = some w') :
    Inv w' := by
  unfold World.newSocket at hstep
  split at hstep
  · cases hstep
  case h_2 inst hloaded =>
    rcases map_eq_some_iff.mp hstep with ⟨t, -, rfl⟩
    refine ⟨h.requests, fun k => ?_, h.executions⟩
    by_cases hk : k = i
    · subst hk
      exact .inr (by simp [World.Fits, hloaded])
    · simpa [World.Fits, update_of_ne hk] using h.sockets k

end

theorem not_inert_of_acceptFrom {listener t : AnySocket} {h : Nat} {n : Int}
    (haccept : World.acceptFrom listener h = some (t, n)) : ¬ listener.Inert := by
  intro hinert
  unfold World.acceptFrom at haccept
  split at haccept
  case h_1 s =>
    have hhandles : s.uv.handles h = none := Tcp.TcpSocket.Inert.handles hinert h
    simp [Tcp.TcpSocket.onTcpNewConnection, hhandles] at haccept
  · cases haccept

theorem Inv.accept (h : Inv w) {j k : Nat} (hstep : w.accept i j k = some w') : Inv w' := by
  unfold World.accept at hstep
  split at hstep
  · cases hstep
  case h_2 listener maxChunkSize haccept =>
    rcases map_eq_some_iff.mp hstep with ⟨t, -, rfl⟩
    have hfits := (h.sockets j).resolve_left (not_inert_of_acceptFrom haccept)
    refine ⟨h.requests, fun m => ?_, h.executions⟩
    by_cases hi : m = i
    · subst hi
      exact .inr (by simpa [World.Fits] using hfits)
    · by_cases hj : m = j
      · subst hj
        exact .inr (by simpa [World.Fits, update_of_ne hi] using hfits)
      · simpa [World.Fits, update_of_ne hi, update_of_ne hj] using h.sockets m

theorem not_inert_of_runsCallback {s : AnySocket} (h : World.runsCallback action s = true) :
    ¬ s.Inert := by
  intro hinert
  unfold World.runsCallback at h
  split at h
  case h_1 t =>
    rw [Tcp.TcpSocket.Inert.events hinert] at h
    cases h
  case h_2 t =>
    rw [Udp.UdpSocket.Inert.events hinert] at h
    cases h
  case h_3 c =>
    rw [Ws.WsConnection.Inert.events hinert] at h
    cases h
  case h_4 => cases h

theorem Inv.socket (h : Inv w) (hstep : w.socket i action = some w') : Inv w' := by
  unfold World.socket at hstep
  split at hstep
  · cases hstep
  case isFalse hnew =>
    rcases map_eq_some_iff.mp hstep with ⟨t, ht, rfl⟩
    have hset : Inv (w.setSocket i t) := by
      refine ⟨h.requests, fun k => ?_, h.executions⟩
      by_cases hk : k = i
      · subst hk
        rcases h.sockets k with hinert | hfits
        · have hsame := hinert.step (Bool.eq_false_iff.mpr hnew) ht
          exact .inl (by simpa [World.setSocket, hsame] using hinert)
        · exact .inr hfits
      · simpa [World.setSocket, World.Fits, update_of_ne hk] using h.sockets k
    split
    case isTrue hruns =>
      have hfits := (h.sockets i).resolve_left (not_inert_of_runsCallback hruns)
      exact hset.callback hfits
    · exact hset

theorem inv_step (h : Inv w) {action : Action} (hallowed : LoadsAbandoned w action)
    (hstep : step action w = some w') : Inv w' := by
  cases action with
  | load ctx => exact h.onPluginLoaded hallowed hstep
  | unload ctx ids => exact h.onPluginUnloaded hstep
  | native n => exact h.native hstep
  | newSocket ctx i kind => exact h.newSocket hstep
  | accept i j k => exact h.accept hstep
  | socket i action => exact h.socket hstep

end

/-- If plugins are loaded only where no object of an earlier one is left, every
callback runs in the plugin instance that created its request or socket. -/
theorem callbacks_run_in_creator {w : World} (h : Reaches extension LoadsAbandoned w) :
    forall e, e ∈ w.executions -> e.ranIn = e.creator :=
  (h.invariant Inv inv_init fun _ _ _ hinv hallowed hstep =>
    inv_step hinv hallowed hstep).executions

/-- Two plugins: a request of the first one completes; then the first one is
unloaded, and a socket of the second one fails to connect. -/
def twoPlugins : List Action :=
  [.load 1, .native (.http (.httpNew 1 64 1)), .native (.http (.httpExecute 1)),
    .native (.http .asyncAdd), .native (.http (.transferDone 64 ⟨0, 200⟩)),
    .native (.http .gameFrame), .native (.http .deliver), .native (.http .release),
    .unload 1 [], .load 2, .newSocket 2 0 .tcp, .socket 0 (.tcp (.request .connect)),
    .socket 0 (.tcp (.op 0)), .socket 0 (.tcp (.resolved .connect ⟨-3008, 0, 0⟩)),
    .socket 0 (.tcp .dispatch)]

theorem allReached_of_forall {P : Address -> Prop} {s : Http.State} (h : forall a, P a) :
    AllReached P s :=
  ⟨fun _ a _ => h a, fun _ a _ => h a, fun a _ => h a, fun a _ => h a, fun a _ => h a,
    fun a _ => h a, fun a _ => h a, fun a _ => h a⟩

theorem abandoned_of_forall {w : World} {ctx : Context}
    (hrequests : forall a, w.requestContext a ≠ ctx)
    (hsockets : forall i, w.socketContext i ≠ ctx) : Abandoned w ctx :=
  ⟨allReached_of_forall hrequests, fun i => .inr (hsockets i)⟩

theorem twoPlugins_run_in_creator :
    exists w, extension.run twoPlugins World.init = some w ∧
      w.executions = [⟨0, 0⟩, ⟨1, 1⟩] ∧ forall e, e ∈ w.executions -> e.ranIn = e.creator := by
  have hupdate : forall a : Address, Function.update (fun _ : Address => 0) 64 1 a ≠ 2 := by
    intro a
    by_cases ha : a = 64
    · subst ha
      decide
    · rw [Function.update_of_ne ha]
      decide
  refine ⟨_, rfl, rfl, callbacks_run_in_creator (reaches_of_run twoPlugins .init ?_ rfl)⟩
  exact ⟨abandoned_of_forall (fun _ => Nat.zero_ne_one) (fun _ => Nat.zero_ne_one), trivial,
    trivial, trivial, trivial, trivial, trivial, trivial, trivial,
    abandoned_of_forall hupdate (fun _ => (Nat.succ_ne_zero 1).symm), trivial, trivial,
    trivial, trivial, trivial, trivial⟩

/-- A plugin is unloaded while its request runs, and the plugin that is loaded next
gets the same context. -/
def reloaded : List Action :=
  [.load 1, .native (.http (.httpNew 1 64 1)), .native (.http (.httpExecute 1)),
    .native (.http .asyncAdd), .unload 1 [1], .native (.http .task), .load 1,
    .native (.http .asyncCancel), .native (.http .gameFrame), .native (.http .deliver)]

/-- The callback of the first plugin's request is looked up in the second one. -/
theorem reloaded_runs_elsewhere :
    exists w e, Reaches extension (fun _ _ => True) w ∧ e ∈ w.executions ∧ e.ranIn ≠ e.creator :=
  ⟨_, ⟨0, 1⟩, reaches_of_run reloaded .init (by decide) rfl, List.mem_cons_self, by decide⟩

end Async2.Plugins
