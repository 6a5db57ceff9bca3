import Async2.Http.Table

/-!
# The game thread moves requests between phases

The natives, the loops over handles and the delivery of completed requests keep
the handle table consistent and move one request at a time; taking over the
done queue moves all requests in it at once.
-/

namespace Async2.Http

open Function List Option HttpRequest

section

variable {s : State} {a b : Address} {id : HandleId}

/-!
## Freeing and closing
-/

section

variable (hid : s.pointerOf id = some a)
include hid

theorem freeHandle_eq :
    exists plugins, (forall ctx, (s.pluginHandles ctx).Nodup -> (plugins ctx).Nodup) ∧
      s.freeHandle id =
        { s with
          live := update s.live a false
          usedHandles := update s.usedHandles id none
          pluginHandles := plugins } := by
  obtain ⟨h, hused, rfl⟩ := map_eq_some_iff.mp hid
  unfold State.freeHandle
  rw [hused]
  cases howner : h.owner with
  | none => exact ⟨s.pluginHandles, fun _ hnodup => hnodup, by simp [howner]⟩
  | some owner =>
    refine ⟨update s.pluginHandles owner ((s.pluginHandles owner).erase id),
      ?_, by simp [howner, State.removeFromPluginSet]⟩
    intro ctx hnodup
    by_cases hctx : ctx = owner
    · subst hctx
      rw [update_self]
      exact hnodup.erase id
    · rwa [update_of_ne hctx]

theorem same_freeHandle (hb : b ≠ a) : Same s (s.freeHandle id) b := by
  obtain ⟨plugins, -, heq⟩ := freeHandle_eq hid
  rw [heq]
  constructor <;> simp [profile, update_of_ne hb]

theorem profile_freeHandle : profile (s.freeHandle id) a = { profile s a with live := false } := by
  obtain ⟨plugins, -, heq⟩ := freeHandle_eq hid
  rw [heq]
  simp [profile]

end

theorem TableOk.freeHandle (h : TableOk s) (hid : s.pointerOf id = some a)
    (hwork : id ∉ s.work.filterMap Task.unloadId) : TableOk (s.freeHandle id) := by
  obtain ⟨plugins, hnodup, heq⟩ := freeHandle_eq hid
  have hfreed : (s.freeHandle id).pointerOf id = none := by
    simp [heq, State.pointerOf]
  have hkept : forall id', id' ≠ id ->
      (s.freeHandle id).pointerOf id' = s.pointerOf id' := by
    intro id' hne
    simp [heq, State.pointerOf, update_of_ne hne]
  have hname := (h.handle_live id a hid).2
  have hback : forall id' b, (s.freeHandle id).pointerOf id' = some b ->
      id' ≠ id ∧ s.pointerOf id' = some b := by
    intro id' b hid'
    by_cases hne : id' = id
    · subst hne
      rw [hfreed] at hid'
      cases hid'
    · rw [hkept id' hne] at hid'
      exact ⟨hne, hid'⟩
  constructor
  case handle_live =>
    intro id' b hid'
    obtain ⟨hne, hold⟩ := hback id' b hid'
    obtain ⟨hlive, hid''⟩ := h.handle_live id' b hold
    have hother : b ≠ a := by
      intro hba
      subst hba
      exact hne (hid''.symm.trans hname)
    rw [heq]
    exact ⟨by simpa only [update_of_ne hother] using hlive, hid''⟩
  case live_handle =>
    intro b hb
    have hother : b ≠ a := by
      intro hba
      subst hba
      simp [heq] at hb
    have hlive : s.live b = true := by
      simpa only [heq, update_of_ne hother] using hb
    have hpointer := h.live_handle b hlive
    have hne : (s.mem b).handleId ≠ id := by
      intro hsame
      rw [hsame, hid] at hpointer
      cases hpointer
      exact hother rfl
    have hmem : (s.freeHandle id).mem = s.mem := by rw [heq]
    rw [hmem, hkept _ hne]
    exact hpointer
  case plugin_nodup =>
    rw [heq]
    exact fun ctx => hnodup ctx (h.plugin_nodup ctx)
  case tasks =>
    rw [show (s.freeHandle id).work = s.work by rw [heq]]
    constructor
    case unload_valid =>
      intro id' b hb
      obtain ⟨hdelivering, hpointer⟩ := h.tasks.unload_valid id' b hb
      have hne : id' ≠ id := by
        intro hsame
        subst hsame
        exact hwork (mem_filterMap.mpr ⟨_, hb, rfl⟩)
      rw [hkept id' hne, heq]
      exact ⟨hdelivering, hpointer⟩
    case unload_nodup => exact h.tasks.unload_nodup
    case disconnect_valid =>
      intro id' b hb hid'
      obtain ⟨-, hold⟩ := hback id' b hid'
      rw [heq]
      exact h.tasks.disconnect_valid id' b hb hold
    case disconnect_only => exact h.tasks.disconnect_only

end

/-- Every address is in a phase, and the handle table fits. -/
structure Consistent (s : State) : Prop where
  phased : forall a, Phased s a
  table : TableOk s

/-- Every address is in a phase with the tracked property, and the handle table
fits. -/
structure Kept (P : State -> Address -> Phase -> Prop) (s : State) : Prop where
  phased : forall a, exists ph, P s a ph
  table : TableOk s

variable {s : State}

theorem Consistent.kept (h : Consistent s) : Kept InPhase s :=
  ⟨h.phased, h.table⟩

theorem Kept.consistent (h : Kept InPhase s) : Consistent s :=
  ⟨h.phased, h.table⟩

section

variable {P : State -> Address -> Phase -> Prop} {s s' : State} {a b : Address} {id : HandleId}
  {client : Client} {ctx : Context} {ids : List HandleId} {tasks : List Task}

section

variable (h : Kept P s) (hP : Tracking P)
include h hP

theorem Kept.same (hsame : forall b, Same s s' b) (htable : TableOk s') : Kept P s' where
  phased := by
    intro b
    rcases h.phased b with ⟨ph, hph⟩
    exact ⟨ph, hP.frame hph (hsame b)⟩
  table := htable

theorem Kept.frame (hsame : forall b, Same s s' b) (htable : SameTable s s') : Kept P s' :=
  h.same hP hsame (h.table.frame htable)

/-- A step that takes one address to another phase and leaves the others alone. -/
theorem Kept.moved {ph : Phase} (hmoved : P s' a ph) (hother : forall b, b ≠ a -> Same s s' b)
    (htable : TableOk s') : Kept P s' where
  phased := by
    intro b
    by_cases hb : b = a
    · subst hb
      exact ⟨ph, hmoved⟩
    · rcases h.phased b with ⟨ph', hph'⟩
      exact ⟨ph', hP.frame hph' (hother b hb)⟩
  table := htable

theorem Kept.eventMove (hmove : EventMove s s') : Kept P s' where
  phased := hmove.tracked hP h.phased
  table := h.table.frame hmove.sameTable

variable (hid : s.pointerOf id = some a) (hthread : (s.mem a).inEventThread = false)
  (hcallback : s.delivering ≠ some a)
include hid hthread hcallback

theorem Kept.idle : P s a .idle := by
  rcases h.phased a with ⟨ph, hph⟩
  cases (hP.located hph).eq_idle (h.table.handle_live id a hid).1 hthread hcallback
  exact hph

theorem Kept.freeHandle (hwork : id ∉ s.work.filterMap Task.unloadId) :
    Kept P (s.freeHandle id) := by
  have hidle := h.idle hP hid hthread hcallback
  rcases freeHandle_eq hid with ⟨plugins, -, heq⟩
  have hdiscarded := hP.discard hidle (profile_freeHandle hid) (by rw [heq]) (by rw [heq])
  exact h.moved hP hdiscarded (fun b hb => same_freeHandle hid hb) (h.table.freeHandle hid hwork)

end

theorem same_close : Same s (s.modify a fun r => { r with handleClosed := true }) b := by
  by_cases hb : b = a
  · subst hb
    constructor <;> simp [profile, State.modify]
  · exact same_modify s hb _

theorem Kept.closeOrFree (h : Kept P s) (hP : Tracking P) (hid : s.pointerOf id = some a)
    (hcallback : s.delivering ≠ some a) (hwork : id ∉ s.work.filterMap Task.unloadId) :
    Kept P (s.closeOrFree id a) := by
  unfold State.closeOrFree
  split
  · refine h.frame hP (fun b => ?_) ?_
    · exact (same_close.trans (same_markHandleClosed _ id)).trans (same_cancelRequest _)
    · have hclose := sameTable_modify (a := a) s
        (f := fun r => { r with handleClosed := true }) fun _ => rfl
      exact (hclose.trans (sameTable_markHandleClosed _ id)).trans (sameTable_cancelRequest _)
  case isFalse hthread =>
    exact h.freeHandle hP hid (Bool.eq_false_iff.mpr hthread) hcallback hwork

theorem pointerOf_of_getHttpRequest (hget : s.getHttpRequest id = some a) :
    s.pointerOf id = some a := by
  unfold State.getHttpRequest at hget
  unfold State.pointerOf
  cases hused : s.usedHandles id with
  | none =>
    rw [hused] at hget
    cases hget
  | some hd =>
    rw [hused] at hget
    dsimp only at hget
    split at hget
    · cases hget
    · exact hget

/-!
## What a step does
-/

/-- The state after `httpNew` on a free address with a free handle. -/
def State.allocated (s : State) (ctx : Context) (a : Address) (id : HandleId) : State :=
  { s with
    mem := update s.mem a { HttpRequest.new with handleId := id }
    live := update s.live a true
    used := update s.used a true }.createHandle id a ctx

def Action.inEventThread : Action -> Bool
  | .asyncAdd | .asyncCancel | .transferDone _ _ | .retryTimer _ => true
  | _ => false

/-- The steps by the branches that they take. -/
inductive Stepped (s : State) : Action -> State -> Prop where
  | httpNew {ctx : Context} {a : Address} {id : HandleId} (hplugin : s.InPlugin)
      (hlive : s.live a = false) (hid : s.pointerOf id = none) :
      Stepped s (.httpNew ctx a id) (s.allocated ctx a id)
  | httpClose {id : HandleId} {a : Address} (hplugin : s.InPlugin)
      (hget : s.getHttpRequest id = some a) :
      Stepped s (.httpClose id)
        ((s.untrackClientHandle (s.mem a).clientIndex (s.mem a).handleId).closeOrFree id a)
  | closeInvalid {id : HandleId} : Stepped s (.httpClose id) s
  | httpExecute {id : HandleId} {a : Address} (hget : s.getHttpRequest id = some a)
      (hthread : (s.mem a).inEventThread = false) :
      Stepped s (.httpExecute id) (s.enqueueRequest a)
  | executeRefused {id : HandleId} : Stepped s (.httpExecute id) s
  | setRetry {id : HandleId} {n : Int} {a : Address} (hget : s.getHttpRequest id = some a)
      (hthread : (s.mem a).inEventThread = false) :
      Stepped s (.setRetry id n) (s.modify a fun r => { r with maxRetries := n })
  | retryRefused {id : HandleId} {n : Int} : Stepped s (.setRetry id n) s
  | setOwner {id : HandleId} {client : Client} {a : Address} (hplugin : s.InPlugin)
      (hget : s.getHttpRequest id = some a) (hthread : (s.mem a).inEventThread = false) :
      Stepped s (.setOwner id client)
        (((s.untrackClientHandle (s.mem a).clientIndex (s.mem a).handleId).modify a
          fun r => { r with clientIndex := client }).trackClientHandle client (s.mem a).handleId)
  | ownerSame {id : HandleId} {a : Address} (hget : s.getHttpRequest id = some a)
      (hthread : (s.mem a).inEventThread = false) :
      Stepped s (.setOwner id (s.mem a).clientIndex) s
  | ownerRefused {id : HandleId} {client : Client}
      (hrefused : forall a, s.getHttpRequest id = some a -> (s.mem a).inEventThread = true) :
      Stepped s (.setOwner id client) s
  | pluginUnloaded {ctx : Context} {ids : List HandleId} (hplugin : s.InPlugin)
      (hperm : ids.Perm (s.pluginHandles ctx)) :
      Stepped s (.pluginUnloaded ctx ids)
        ((s.takePluginHandles ctx ids).1.setWork (s.takePluginHandles ctx ids).2)
  | clientDisconnecting {client : Client} (hplugin : s.InPlugin) :
      Stepped s (.clientDisconnecting client) (s.onClientDisconnecting client)
  | taskUnload {id : HandleId} {a : Address} {rest : List Task}
      (hwork : s.work = .unload id a :: rest) :
      Stepped s .task (((s.setWork rest).untrackClientHandle (s.mem a).clientIndex
        (s.mem a).handleId).closeOrFree id a)
  | taskDisconnect {id : HandleId} {a : Address} {rest : List Task}
      (hwork : s.work = .disconnect id :: rest) (hget : s.getHttpRequest id = some a) :
      Stepped s .task ((s.setWork rest).closeOrFree id a)
  | taskStale {id : HandleId} {rest : List Task} (hwork : s.work = .disconnect id :: rest)
      (hget : s.getHttpRequest id = none) : Stepped s .task (s.setWork rest)
  | gameFrame (hplugin : s.InPlugin) (hidle : s.delivering = none) :
      Stepped s .gameFrame s.drainCompleted
  | deliver {a : Address} {rest : List Address} (hwork : s.work = [])
      (hdrained : s.drained = a :: rest) (hidle : s.delivering = none) :
      Stepped s .deliver (s.startCallback a rest)
  | release {a : Address} (hwork : s.work = []) (hcallback : s.delivering = some a) :
      Stepped s .release
        ((s.untrackClientHandle (s.mem a).clientIndex (s.mem a).handleId).freeHandle
          (s.mem a).handleId).endCallback
  | event {action : Action} {s' : State} (hthread : action.inEventThread = true)
      (hmove : EventMove s s') : Stepped s action s'

theorem ite_eq_some {c : Prop} [Decidable c] {x : Option State}
    (h : (if c then x else none) = some s') : c ∧ x = some s' :=
  ite_none_right_eq_some.mp h

theorem untrack_eq (s : State) (client : Client) (id : HandleId) :
    s.untrackClientHandle client id =
      { s with clientHandles := (s.untrackClientHandle client id).clientHandles } := by
  unfold State.untrackClientHandle
  split <;> rfl

/-- The guard of the natives leaves either nothing to do or a request that is
not with the event thread. -/
theorem withIdleRequest_cases (s : State) (id : HandleId) (f : Address -> State) :
    (s.withIdleRequest id f = s ∧
      forall a, s.getHttpRequest id = some a -> (s.mem a).inEventThread = true) ∨
    exists a, s.getHttpRequest id = some a ∧ (s.mem a).inEventThread = false ∧
      s.withIdleRequest id f = f a := by
  unfold State.withIdleRequest
  cases s.getHttpRequest id with
  | none => exact .inl ⟨rfl, fun _ h => by cases h⟩
  | some a =>
    cases hthread : (s.mem a).inEventThread with
    | true => exact .inl ⟨if_pos hthread, fun _ h => by cases h; exact hthread⟩
    | false => exact .inr ⟨a, rfl, hthread, if_neg (Bool.eq_false_iff.mp hthread)⟩

theorem stepped_of_runTask (hstep : s.runTask = some s') : Stepped s .task s' := by
  unfold State.runTask at hstep
  split at hstep
  · cases hstep
  case h_2 hwork =>
    cases hstep
    exact .taskUnload hwork
  case h_3 id rest hwork =>
    have hsame : (s.setWork rest).getHttpRequest id = s.getHttpRequest id := rfl
    dsimp only at hstep
    rw [hsame] at hstep
    cases hget : s.getHttpRequest id with
    | none =>
      rw [hget] at hstep
      cases hstep
      exact .taskStale hwork hget
    | some a =>
      rw [hget] at hstep
      cases hstep
      exact .taskDisconnect hwork hget

theorem release_eq_some (hstep : s.release = some s') : exists a, s.delivering = some a ∧
    s' = ((s.untrackClientHandle (s.mem a).clientIndex (s.mem a).handleId).freeHandle
      (s.mem a).handleId).endCallback := by
  unfold State.release at hstep
  split at hstep
  · cases hstep
  case h_2 a hcallback =>
    cases hstep
    refine ⟨a, hcallback, ?_⟩
    rw [untrack_eq]

theorem stepped_of_step {action : Action} (hstep : step action s = some s') :
    Stepped s action s' := by
  cases action with
  | httpNew ctx a id =>
    rcases ite_eq_some hstep with ⟨hplugin, hnew⟩
    unfold State.httpNew at hnew
    split at hnew
    · cases hnew
    case isFalse hfree =>
      cases hnew
      push Not at hfree
      exact .httpNew hplugin (Bool.eq_false_iff.mpr hfree.1)
        (by simpa [State.pointerOf] using hfree.2.1)
  | httpClose id =>
    rcases ite_eq_some hstep with ⟨hplugin, hclose⟩
    cases hclose
    unfold State.httpClose
    split
    · exact .closeInvalid
    case h_2 a hget => exact .httpClose hplugin hget
  | httpExecute id =>
    rcases ite_eq_some hstep with ⟨-, hexecute⟩
    cases hexecute
    rcases withIdleRequest_cases s id _ with ⟨heq, -⟩ | ⟨a, hget, hthread, heq⟩
    · rw [State.httpExecute, heq]
      exact .executeRefused
    · rw [State.httpExecute, heq]
      exact .httpExecute hget hthread
  | setRetry id n =>
    rcases ite_eq_some hstep with ⟨-, hset⟩
    cases hset
    rcases withIdleRequest_cases s id _ with ⟨heq, -⟩ | ⟨a, hget, hthread, heq⟩
    · rw [State.setRetry, heq]
      exact .retryRefused
    · rw [State.setRetry, heq]
      exact .setRetry hget hthread
  | setOwner id client =>
    rcases ite_eq_some hstep with ⟨hplugin, hset⟩
    cases hset
    rcases withIdleRequest_cases s id _ with ⟨heq, hrefused⟩ | ⟨a, hget, hthread, heq⟩
    · rw [State.setOwner, heq]
      exact .ownerRefused hrefused
    · rw [State.setOwner, heq]
      split
      case isTrue hsame =>
        subst hsame
        exact .ownerSame hget hthread
      have hname : (((s.untrackClientHandle (s.mem a).clientIndex (s.mem a).handleId).modify a
          fun r => { r with clientIndex := client }).mem a).handleId = (s.mem a).handleId := by
        rw [untrack_eq]
        simp [State.modify]
      dsimp only
      rw [hname]
      exact .setOwner hplugin hget hthread
  | pluginUnloaded ctx ids =>
    rcases ite_eq_some hstep with ⟨hplugin, hunload⟩
    rcases ite_eq_some hunload with ⟨hperm, htaken⟩
    cases htaken
    exact .pluginUnloaded hplugin (isPerm_iff.mp hperm)
  | clientDisconnecting client =>
    rcases ite_eq_some hstep with ⟨hplugin, hdisconnect⟩
    cases hdisconnect
    exact .clientDisconnecting hplugin
  | task => exact stepped_of_runTask hstep
  | gameFrame =>
    rcases ite_eq_some hstep with ⟨⟨hplugin, hidle⟩, hdrain⟩
    cases hdrain
    exact .gameFrame hplugin hidle
  | deliver =>
    rcases ite_eq_some hstep with ⟨hwork, hdeliver⟩
    unfold State.deliver at hdeliver
    split at hdeliver
    case h_2 => cases hdeliver
    case h_1 a rest hdrained hidle =>
      cases hdeliver
      exact .deliver (isEmpty_iff.mp hwork) hdrained hidle
  | release =>
    rcases ite_eq_some hstep with ⟨hwork, hrelease⟩
    rcases release_eq_some hrelease with ⟨a, hcallback, rfl⟩
    exact .release (isEmpty_iff.mp hwork) hcallback
  | asyncAdd => exact .event rfl (eventMove_of_onAsyncAdd hstep)
  | asyncCancel => exact .event rfl (eventMove_of_onAsyncCancel hstep)
  | transferDone a result => exact .event rfl (eventMove_of_checkCompletedJobs hstep)
  | retryTimer a => exact .event rfl (eventMove_of_onRetryTimer hstep)

/-!
## Natives
-/

section

variable (h : Kept P s) (hP : Tracking P)
include h hP

theorem Kept.untrack (client : Client) (id : HandleId) : Kept P (s.untrackClientHandle client id) :=
  h.frame hP (fun _ => same_untrackClientHandle s client id)
    (sameTable_untrackClientHandle s client id)

variable (hid : s.pointerOf id = some a) (hcallback : s.delivering ≠ some a)
include hid hcallback

theorem Kept.close (hwork : id ∉ s.work.filterMap Task.unloadId) :
    Kept P ((s.untrackClientHandle (s.mem a).clientIndex (s.mem a).handleId).closeOrFree id a) := by
  have hsame := sameTable_untrackClientHandle s (s.mem a).clientIndex (s.mem a).handleId
  refine (h.untrack hP _ _).closeOrFree hP ?_ ?_ ?_
  · rw [hsame.pointerOf_eq]
    exact hid
  · rw [hsame.delivering_eq]
    exact hcallback
  · rw [hsame.work_eq]
    exact hwork

theorem Kept.enqueue (hthread : (s.mem a).inEventThread = false) : Kept P (s.enqueueRequest a) :=
  h.moved hP (hP.enqueue (h.idle hP hid hthread hcallback)) (fun _ hb => same_enqueueRequest s hb)
    (h.table.frame (sameTable_enqueueRequest s))

end

theorem InPhase.setMaxRetries (h : InPhase s a .idle) (n : Int) :
    InPhase (s.modify a fun r => { r with maxRetries := n }) a .idle where
  profile_eq := by
    rw [← h.profile_eq]
    simp [profile, State.modify]
  starts_ok := by
    simpa [State.modify, Phase.Starts] using h.starts_ok
  retries_ok := by
    have hstarts := h.starts_ok
    simp [State.modify, Phase.Starts, RetriesBounded] at hstarts ⊢
    omega

theorem same_setClient (client : Client) :
    Same s (s.modify a fun r => { r with clientIndex := client }) b := by
  by_cases hb : b = a
  · subst hb
    constructor <;> simp [profile, State.modify]
  · exact same_modify s hb _

theorem Kept.setOwner (h : Kept P s) (hP : Tracking P) (client : Client) :
    Kept P (((s.untrackClientHandle (s.mem a).clientIndex (s.mem a).handleId).modify a
      fun r => { r with clientIndex := client }).trackClientHandle client (s.mem a).handleId) := by
  refine (h.untrack hP (s.mem a).clientIndex (s.mem a).handleId).frame hP (fun b => ?_) ?_
  · exact (same_setClient client).trans (same_trackClientHandle _ _ _)
  · have hclient := sameTable_modify (a := a)
      (s.untrackClientHandle (s.mem a).clientIndex (s.mem a).handleId)
      (f := fun r => { r with clientIndex := client }) fun _ => rfl
    exact hclient.trans (sameTable_trackClientHandle _ _ _)

/-!
## New requests
-/

theorem TableOk.allocated (h : TableOk s) (ctx : Context) (hwork : s.work = [])
    (hlive : s.live a = false) (hid : s.pointerOf id = none) : TableOk (s.allocated ctx a id) := by
  have hnew : (s.allocated ctx a id).pointerOf id = some a := by
    simp [State.pointerOf, State.allocated, State.createHandle]
  have hold : forall id', id' ≠ id ->
      (s.allocated ctx a id).pointerOf id' = s.pointerOf id' := by
    intro id' hne
    simp [State.pointerOf, State.allocated, State.createHandle, update_of_ne hne]
  have hother : forall b, b ≠ a -> (s.allocated ctx a id).live b = s.live b ∧
      (s.allocated ctx a id).mem b = s.mem b := by
    intro b hb
    simp [State.allocated, State.createHandle, update_of_ne hb]
  have hempty : (s.allocated ctx a id).work = [] := hwork
  constructor
  case handle_live =>
    intro id' b hid'
    by_cases hne : id' = id
    · subst hne
      rw [hnew] at hid'
      cases hid'
      simp [State.allocated, State.createHandle]
    · rw [hold id' hne] at hid'
      obtain ⟨hb, hname⟩ := h.handle_live id' b hid'
      have hba : b ≠ a := by
        intro hba
        rw [hba, hlive] at hb
        cases hb
      rw [(hother b hba).1, (hother b hba).2]
      exact ⟨hb, hname⟩
  case live_handle =>
    intro b hb
    by_cases hba : b = a
    · subst hba
      simpa [State.allocated, State.createHandle] using hnew
    · rw [(hother b hba).1] at hb
      have hpointer := h.live_handle b hb
      rw [(hother b hba).2, hold]
      · exact hpointer
      · intro hname
        rw [hname, hid] at hpointer
        cases hpointer
  case plugin_nodup =>
    intro ctx'
    by_cases hctx : ctx' = ctx
    · subst hctx
      simpa [State.allocated, State.createHandle] using
        List.Nodup.insert (h.plugin_nodup ctx')
    · simpa [State.allocated, State.createHandle, update_of_ne hctx]
        using h.plugin_nodup ctx'
  case tasks =>
    rw [hempty]
    exact tasksOk_nil _

theorem InPhase.allocated (h : InPhase s a .unused) (ctx : Context) :
    InPhase (s.allocated ctx a id) a .idle where
  profile_eq := by
    have hprofile := h.profile_eq
    simp [profile, Phase.profile] at hprofile
    simp [profile, Phase.profile, State.allocated, State.createHandle, new, hprofile]
  starts_ok := by
    simpa [Phase.Starts, State.allocated, State.createHandle, new]
      using h.starts_ok.1
  retries_ok := by
    simp [RetriesBounded, State.allocated, State.createHandle, new]

theorem same_allocated (hb : b ≠ a) : Same s (s.allocated ctx a id) b := by
  constructor <;>
    simp [profile, State.allocated, State.createHandle, update_of_ne hb]

/-!
## Loops over handles
-/

theorem sameTable_detachHandle {h : Handle} (hid : s.usedHandles id = some h) :
    SameTable s (s.detachHandle id h) := by
  refine ⟨?_, rfl, rfl, rfl, rfl, fun _ => rfl⟩
  intro id'
  by_cases hne : id' = id
  · subst hne
    simp [State.pointerOf, State.detachHandle, hid]
  · simp [State.pointerOf, State.detachHandle, update_of_ne hne]

theorem detachHandles_same (s : State) (ids : List HandleId) :
    (forall b, Same s (s.detachHandles ids).1 b) ∧ SameTable s (s.detachHandles ids).1 := by
  induction ids generalizing s with
  | nil => exact ⟨fun b => Same.refl s b, fun _ => rfl, rfl, rfl, rfl, rfl, fun _ => rfl⟩
  | cons id rest ih =>
    unfold State.detachHandles
    split
    · exact ih s
    case h_2 h hid =>
      obtain ⟨hsame, htable⟩ := ih (s.detachHandle id h)
      have hstep : forall b, Same s (s.detachHandle id h) b :=
        fun _ => ⟨rfl, rfl, rfl, rfl⟩
      exact ⟨fun b => (hstep b).trans (hsame b), (sameTable_detachHandle hid).trans htable⟩

theorem detachHandles_tasks (s : State) (ids : List HandleId) :
    (s.detachHandles ids).2 = ids.filterMap fun id => (s.pointerOf id).map (Task.unload id) := by
  induction ids generalizing s with
  | nil => rfl
  | cons id rest ih =>
    unfold State.detachHandles
    split
    case h_1 hid =>
      rw [ih s, filterMap_cons_none]
      simp [State.pointerOf, hid]
    case h_2 h hid =>
      have htasks := ih (s.detachHandle id h)
      simp only [(sameTable_detachHandle hid).pointerOf_eq] at htasks
      rw [filterMap_cons_some (b := Task.unload id h.pointer)
        (by simp [State.pointerOf, hid])]
      exact congrArg (List.cons _) htasks

theorem disconnect_not_mem_detachHandles (s : State) (ids : List HandleId) :
    Task.disconnect id ∉ (s.detachHandles ids).2 := by
  intro ha
  rw [detachHandles_tasks] at ha
  obtain ⟨id', -, htask⟩ := mem_filterMap.mp ha
  obtain ⟨a, -, heq⟩ := map_eq_some_iff.mp htask
  cases heq

theorem unloadIds_sublist (s : State) (ids : List HandleId) :
    ((s.detachHandles ids).2.filterMap Task.unloadId).Sublist ids := by
  rw [detachHandles_tasks, filterMap_filterMap]
  induction ids with
  | nil => exact List.Sublist.refl _
  | cons id rest ih =>
    cases hid : s.pointerOf id with
    | none =>
      rw [filterMap_cons_none (by simp [hid])]
      exact ih.cons id
    | some a =>
      rw [filterMap_cons_some (b := id) (by simp [hid, Task.unloadId])]
      exact ih.cons_cons id

theorem same_setWork (tasks : List Task) : Same s (s.setWork tasks) b :=
  ⟨rfl, rfl, rfl, rfl⟩

theorem TableOk.setWork (h : TableOk s) (htasks : TasksOk s tasks) : TableOk (s.setWork tasks) where
  handle_live := h.handle_live
  live_handle := h.live_handle
  plugin_nodup := h.plugin_nodup
  tasks := htasks.frame (fun _ => rfl) rfl

theorem Kept.setWork (h : Kept P s) (hP : Tracking P) (htasks : TasksOk s tasks) :
    Kept P (s.setWork tasks) :=
  h.same hP (fun _ => same_setWork tasks) (h.table.setWork htasks)

theorem TableOk.clearPluginSet (h : TableOk s) (ctx : Context) :
    TableOk (s.clearPluginSet ctx) where
  handle_live := h.handle_live
  live_handle := h.live_handle
  plugin_nodup := by
    intro ctx'
    by_cases hctx : ctx' = ctx
    · subst hctx
      simp [State.clearPluginSet]
    · simpa [State.clearPluginSet, update_of_ne hctx] using h.plugin_nodup ctx'
  tasks := h.tasks.frame (fun _ => rfl) rfl

theorem TableOk.onPluginUnloaded (h : TableOk s)
    (hown : forall a, s.delivering = some a -> (s.mem a).handleId ∉ ids)
    (hperm : ids.Perm (s.pluginHandles ctx)) :
    TableOk ((s.takePluginHandles ctx ids).1.setWork (s.takePluginHandles ctx ids).2) ∧
      forall b, Same s ((s.takePluginHandles ctx ids).1.setWork
        (s.takePluginHandles ctx ids).2) b := by
  have hnodup : ids.Nodup := hperm.nodup_iff.mpr (h.plugin_nodup ctx)
  obtain ⟨hsame, htable⟩ := detachHandles_same (s.clearPluginSet ctx) ids
  have hclear : forall b, Same s (s.clearPluginSet ctx) b := fun _ => ⟨rfl, rfl, rfl, rfl⟩
  refine ⟨((h.clearPluginSet ctx).frame htable).setWork ⟨?_, ?_, ?_, ?_⟩,
    fun b => ((hclear b).trans (hsame b)).trans (same_setWork _)⟩
  · intro id a ha
    unfold State.takePluginHandles at ha
    rw [detachHandles_tasks] at ha
    obtain ⟨id', hid', htask⟩ := mem_filterMap.mp ha
    obtain ⟨a', hpointer, heq⟩ := map_eq_some_iff.mp htask
    cases heq
    rw [htable.pointerOf_eq, htable.delivering_eq]
    refine ⟨?_, hpointer⟩
    intro hcallback
    have hname := (h.handle_live id a hpointer).2
    exact hown a hcallback (hname ▸ hid')
  · exact (unloadIds_sublist (s.clearPluginSet ctx) ids).nodup hnodup
  · intro id a ha
    exact absurd ha (disconnect_not_mem_detachHandles _ _)
  · intro id ha
    exact absurd ha (disconnect_not_mem_detachHandles _ _)

theorem Kept.onPluginUnloaded (h : Kept P s) (hP : Tracking P)
    (hown : forall a, s.delivering = some a -> (s.mem a).handleId ∉ ids)
    (hperm : ids.Perm (s.pluginHandles ctx)) :
    Kept P ((s.takePluginHandles ctx ids).1.setWork (s.takePluginHandles ctx ids).2) := by
  rcases h.table.onPluginUnloaded hown hperm with ⟨htable, hsame⟩
  exact h.same hP hsame htable

theorem same_onClientDisconnecting : Same s (s.onClientDisconnecting client) b :=
  ⟨rfl, rfl, rfl, rfl⟩

theorem TableOk.onClientDisconnecting (h : TableOk s)
    (hown : forall a, s.delivering = some a -> (s.mem a).handleId ∉ s.clientHandles client) :
    TableOk (s.onClientDisconnecting client) := by
  have hclear : TableOk (s.clearClientHandles client) :=
    h.frame ⟨fun _ => rfl, rfl, rfl, rfl, rfl, fun _ => rfl⟩
  have hnone : ((s.clientHandles client).map Task.disconnect).filterMap Task.unloadId =
      [] := by
    simp [filterMap_map, Function.comp_def, Task.unloadId]
  refine hclear.setWork ⟨?_, ?_, ?_, fun _ _ => hnone⟩
  · intro id a ha
    obtain ⟨id', -, heq⟩ := mem_map.mp ha
    cases heq
  · rw [hnone]
    exact nodup_nil
  · intro id a ha hpointer hcallback
    obtain ⟨id', hid', heq⟩ := mem_map.mp ha
    cases heq
    have hname := (h.handle_live id a hpointer).2
    exact hown a hcallback (hname ▸ hid')

theorem Kept.onClientDisconnecting (h : Kept P s) (hP : Tracking P)
    (hown : forall a, s.delivering = some a -> (s.mem a).handleId ∉ s.clientHandles client) :
    Kept P (s.onClientDisconnecting client) :=
  h.same hP (fun _ => same_onClientDisconnecting) (h.table.onClientDisconnecting hown)

theorem Kept.taskUnload (h : Kept P s) (hP : Tracking P) {rest : List Task}
    (hwork : s.work = .unload id a :: rest) :
    Kept P (((s.setWork rest).untrackClientHandle (s.mem a).clientIndex
      (s.mem a).handleId).closeOrFree id a) := by
  have htasks := h.table.tasks
  rw [hwork] at htasks
  rcases htasks.unload_valid id a (by simp) with ⟨hcallback, hpointer⟩
  exact (h.setWork hP htasks.tail).close hP hpointer hcallback
    (nodup_cons.mp htasks.unload_nodup).1

theorem Kept.taskDisconnect (h : Kept P s) (hP : Tracking P) {rest : List Task}
    (hwork : s.work = .disconnect id :: rest) (hget : s.getHttpRequest id = some a) :
    Kept P ((s.setWork rest).closeOrFree id a) := by
  have htasks := h.table.tasks
  rw [hwork] at htasks
  have hpointer := pointerOf_of_getHttpRequest hget
  have hcallback := htasks.disconnect_valid id a (by simp) hpointer
  refine (h.setWork hP htasks.tail).closeOrFree hP hpointer hcallback ?_
  have hempty : rest.filterMap Task.unloadId = [] := htasks.disconnect_only id (by simp)
  simp [State.setWork, hempty]

/-!
## Delivery
-/

theorem profile_drainCompleted :
    profile s.drainCompleted b =
      { profile s b with
        done := 0
        drained := (profile s b).done
        delivered := (profile s b).delivered + (profile s b).done } := by
  simp [profile, State.drainCompleted]

theorem Kept.drainCompleted (h : Kept P s) (hP : Tracking P) (hdrained : s.drained = []) :
    Kept P s.drainCompleted where
  phased := by
    intro b
    rcases h.phased b with ⟨ph, hph⟩
    exact hP.drain hph hdrained
  table := h.table.frame ⟨fun _ => rfl, rfl, rfl, rfl, rfl, fun _ => rfl⟩

theorem same_startCallback {rest : List Address} (hdrained : s.drained = a :: rest)
    (hidle : s.delivering = none) (hb : b ≠ a) : Same s (s.startCallback a rest) b := by
  have hab : a ≠ b := Ne.symm hb
  constructor <;>
    simp [profile, State.startCallback, State.modify, hdrained, hidle, hab,
      update_of_ne hb, count_cons_of_ne hab]

theorem TableOk.startCallback (h : TableOk s) (hwork : s.work = []) (rest : List Address) :
    TableOk (s.startCallback a rest) := by
  have hname : forall b, ((s.startCallback a rest).mem b).handleId = (s.mem b).handleId := by
    intro b
    by_cases hb : b = a
    · subst hb
      simp [State.startCallback, State.modify]
    · simp [State.startCallback, State.modify, update_of_ne hb]
  refine ⟨?_, ?_, h.plugin_nodup, ?_⟩
  · intro id b hid
    rw [hname]
    exact h.handle_live id b hid
  · intro b hb
    rw [hname]
    exact h.live_handle b hb
  · change TasksOk _ s.work
    rw [hwork]
    exact tasksOk_nil _

theorem Kept.deliver (h : Kept P s) (hP : Tracking P) (hwork : s.work = []) {rest : List Address}
    (hdrained : s.drained = a :: rest) (hidle : s.delivering = none) :
    Kept P (s.startCallback a rest) := by
  rcases h.phased a with ⟨ph, hph⟩
  cases (hP.located hph).eq_drained (by simp [hdrained])
  exact h.moved hP (hP.start_callback hph hdrained)
    (fun b hb => same_startCallback hdrained hidle hb) (h.table.startCallback hwork rest)

theorem Kept.release (h : Kept P s) (hP : Tracking P) (hwork : s.work = [])
    (hcallback : s.delivering = some a) : Kept P (s.freeHandle (s.mem a).handleId).endCallback := by
  rcases h.phased a with ⟨ph, hph⟩
  cases (hP.located hph).eq_delivering hcallback
  have hpointer := h.table.live_handle a (hP.located hph).live_eq
  rcases freeHandle_eq hpointer with ⟨plugins, -, heq⟩
  have hfreed := h.table.freeHandle hpointer (by simp [hwork])
  refine h.moved hP (hP.release hph ?_ ?_ ?_) (fun b hb => ?_)
    ⟨hfreed.handle_live, hfreed.live_handle, hfreed.plugin_nodup, ?_⟩
  · simp [profile, heq, State.endCallback]
  · rw [heq]
    rfl
  · rw [heq]
    rfl
  · have hab : a ≠ b := Ne.symm hb
    refine (same_freeHandle hpointer hb).trans ?_
    constructor <;> simp [profile, heq, State.endCallback, hcallback, hab]
  · have hempty : (s.freeHandle (s.mem a).handleId).endCallback.work = [] := by
      rw [heq]
      exact hwork
    rw [hempty]
    exact tasksOk_nil _

/-!
## Steps
-/

/-- The action ends the request `a` through its handle, or gives it to the event thread. -/
def Action.EndsRequest (s : State) (a : Address) : Action -> Prop
  | .httpClose id | .httpExecute id => s.getHttpRequest id = some a
  | .pluginUnloaded _ ids => (s.mem a).handleId ∈ ids
  | .clientDisconnecting client => (s.mem a).handleId ∈ s.clientHandles client
  | _ => False

instance (s : State) (a : Address) : DecidablePred (Action.EndsRequest s a) := by
  rintro ⟨⟩ <;> dsimp only [Action.EndsRequest] <;> infer_instance

/-- A tracked property is kept by every step that leaves the request of the running callback
alone, if it is kept by the two steps that do not stay within a phase. -/
theorem Kept.stepped (h : Kept P s) (hP : Tracking P) {action : Action}
    (hown : forall a, s.delivering = some a -> ¬ action.EndsRequest s a)
    (hnew : forall ctx a id, action = .httpNew ctx a id -> s.live a = false ->
      P (s.allocated ctx a id) a .idle)
    (hretry : forall id n a, action = .setRetry id n -> s.getHttpRequest id = some a ->
      (s.mem a).inEventThread = false -> Kept P (s.modify a fun r => { r with maxRetries := n }))
    (hstep : Stepped s action s') : Kept P s' := by
  cases hstep with
  | httpNew hplugin hlive hid =>
    exact h.moved hP (hnew _ _ _ rfl hlive) (fun b hb => same_allocated hb)
      (h.table.allocated _ hplugin.1 hlive hid)
  | httpClose hplugin hget =>
    exact h.close hP (pointerOf_of_getHttpRequest hget) (fun hcallback => hown _ hcallback hget)
      (by simp [hplugin.1])
  | httpExecute hget hthread =>
    exact h.enqueue hP (pointerOf_of_getHttpRequest hget)
      (fun hcallback => hown _ hcallback hget) hthread
  | closeInvalid | executeRefused | retryRefused | ownerSame | ownerRefused => exact h
  | setRetry hget hthread => exact hretry _ _ _ rfl hget hthread
  | setOwner => exact h.setOwner hP _
  | pluginUnloaded hplugin hperm => exact h.onPluginUnloaded hP hown hperm
  | clientDisconnecting => exact h.onClientDisconnecting hP hown
  | taskUnload hwork => exact h.taskUnload hP hwork
  | taskDisconnect hwork hget => exact h.taskDisconnect hP hwork hget
  | taskStale hwork =>
    have htasks := h.table.tasks
    rw [hwork] at htasks
    exact h.setWork hP htasks.tail
  | gameFrame hplugin hidle =>
    exact h.drainCompleted hP (hplugin.2.resolve_right fun hne => hne hidle)
  | deliver hwork hdrained hidle => exact h.deliver hP hwork hdrained hidle
  | @release a hwork hcallback =>
    have huntracked := h.untrack hP (s.mem a).clientIndex (s.mem a).handleId
    rw [untrack_eq] at huntracked ⊢
    exact huntracked.release hP hwork hcallback
  | event _ hmove => exact h.eventMove hP hmove

end

/-!
## Phases are tracked
-/

variable {s s' : State} {a : Address} {ph : Phase} {rest : List Address}

theorem InPhase.enqueue (h : InPhase s a .idle) : InPhase (s.enqueueRequest a) a .pending where
  profile_eq := by
    rw [profile_enqueueRequest, h.profile_eq]
    rfl
  starts_ok := by
    have hstarts := h.starts_ok
    simpa [State.enqueueRequest, State.modify, Phase.Starts] using hstarts
  retries_ok := by
    simpa [RetriesBounded, State.enqueueRequest, State.modify] using h.retries_ok

theorem InPhase.discard (h : InPhase s a .idle)
    (hprofile : profile s' a = { profile s a with live := false })
    (hstarts : s'.starts a = s.starts a) (hmem : s'.mem a = s.mem a) : InPhase s' a .discarded := by
  rw [h.profile_eq] at hprofile
  refine ⟨hprofile, ?_, ?_⟩ <;> rw [hmem]
  · exact hstarts ▸ h.starts_ok
  · exact h.retries_ok

theorem InPhase.drain (h : InPhase s a ph) (hdrained : s.drained = []) :
    exists ph', InPhase s.drainCompleted a ph' := by
  have hprofile := profile_drainCompleted (s := s) (b := a)
  rw [h.profile_eq] at hprofile
  cases ph with
  | done => exact ⟨.drained, hprofile, h.starts_ok, h.retries_ok⟩
  | drained =>
    have hcount := congrArg Profile.drained h.profile_eq
    simp [profile, Phase.profile, hdrained] at hcount
  | _ =>
    refine ⟨_, ?_, h.starts_ok, h.retries_ok⟩
    exact hprofile

theorem profile_startCallback (hdrained : s.drained = a :: rest) :
    profile (s.startCallback a rest) a =
      { profile s a with
        drained := (profile s a).drained - 1
        delivering := true
        inEventThread := false } := by
  simp [profile, State.startCallback, State.modify, hdrained]

theorem InPhase.start_callback (h : InPhase s a .drained) (hdrained : s.drained = a :: rest) :
    InPhase (s.startCallback a rest) a .delivering where
  profile_eq := by
    rw [profile_startCallback hdrained, h.profile_eq]
    rfl
  starts_ok := by
    simpa [Phase.Starts, State.startCallback, State.modify] using h.starts_ok
  retries_ok := by
    simpa [RetriesBounded, State.startCallback, State.modify] using h.retries_ok

theorem InPhase.release (h : InPhase s a .delivering)
    (hprofile : profile s' a = { profile s a with live := false, delivering := false })
    (hstarts : s'.starts a = s.starts a) (hmem : s'.mem a = s.mem a) : InPhase s' a .gone := by
  rw [h.profile_eq] at hprofile
  refine ⟨hprofile, ?_, ?_⟩ <;> rw [hmem]
  · exact hstarts ▸ h.starts_ok
  · exact h.retries_ok

theorem inPhase_tracking : Tracking InPhase where
  located := InPhase.located
  frame := InPhase.frame
  add_closed := InPhase.add_closed
  add_start := InPhase.add_start
  transfer_complete := InPhase.transfer_complete
  transfer_retry := InPhase.transfer_retry
  timer_closed := InPhase.timer_closed
  timer_start := InPhase.timer_start
  cancel_running := InPhase.cancel_running
  enqueue := InPhase.enqueue
  discard := InPhase.discard
  drain := InPhase.drain
  start_callback := InPhase.start_callback
  release := InPhase.release

end Async2.Http
