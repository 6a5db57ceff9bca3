import Async2.Http.Natives

/-!
# Requests that are held are not freed

Here addresses may be handed out again, so that the record of the past says
nothing about the request that is at an address now.  What is left of a phase is
where the address is found.
-/

namespace Async2.Http

open TransitionSystem Function Profile HttpRequest

/-!
## Places are tracked
-/

section

variable {s s' : State} {a : Address} {id : HandleId} {ph : Phase} {rest : List Address}

section

variable (h : Located s a .pending) (hqueue : s.pendingQueue = a :: rest)
include h hqueue

theorem Located.add_closed : Located ((s.takePending a rest).complete a) a .done := by
  unfold Located
  rw [profile_complete, profile_takePending s hqueue (congrArg active h)]
  exact congrArg (fun p : Profile =>
    { p with pending := p.pending - 1, active := 0, done := p.done + 1, completed := true }) h

theorem Located.add_start : Located ((s.takePending a rest).startTransfer a) a .running := by
  have htake := profile_takePending s hqueue (congrArg active h)
  have hmulti : (profile (s.takePending a rest) a).multi = 0 := by
    rw [htake]
    exact congrArg multi h
  unfold Located
  rw [profile_startTransfer _ hmulti, htake]
  exact congrArg (fun p : Profile =>
    { p with pending := p.pending - 1, active := 1, multi := 1 }) h

end

theorem Located.transfer_complete (h : Located s a .running) (code : Int) :
    Located (((s.removeTransfer a).setCurlcode a code).complete a) a .done := by
  unfold Located
  rw [profile_complete, profile_setCurlcode, profile_removeTransfer]
  exact congrArg (fun p : Profile =>
    { p with
      active := p.active - 1
      multi := p.multi - 1
      done := p.done + 1
      completed := true }) h

theorem Located.transfer_retry (h : Located s a .running) (code httpcode : Int)
    (_hretry : (((s.removeTransfer a).setCurlcode a code).mem a).shouldRetry httpcode = true) :
    Located ((((s.removeTransfer a).setCurlcode a code).modify a
      prepareForRetry).armTimer a) a .waiting := by
  have hprepare := profile_prepareForRetry (a := a) ((s.removeTransfer a).setCurlcode a code)
  rw [profile_setCurlcode, profile_removeTransfer] at hprepare
  have htimers : (profile (((s.removeTransfer a).setCurlcode a code).modify a
      prepareForRetry) a).timers = 0 := by
    rw [hprepare]
    exact congrArg timers h
  unfold Located
  rw [profile_armTimer _ htimers, hprepare]
  exact congrArg (fun p : Profile =>
    { p with multi := p.multi - 1, timers := 1, inRetryWait := true, completed := false }) h

theorem Located.timer_closed (h : Located s a .waiting) :
    Located (((s.dropTimer a).clearRetryWait a).complete a) a .done := by
  unfold Located
  rw [profile_complete, profile_clearRetryWait, profile_dropTimer]
  exact congrArg (fun p : Profile =>
    { p with
      active := p.active - 1
      timers := p.timers - 1
      done := p.done + 1
      inRetryWait := false
      completed := true }) h

theorem Located.timer_start (h : Located s a .waiting) :
    Located (((s.dropTimer a).clearRetryWait a).startTransfer a) a .running := by
  have hclear := profile_clearRetryWait (a := a) (s.dropTimer a)
  rw [profile_dropTimer] at hclear
  have hmulti : (profile ((s.dropTimer a).clearRetryWait a) a).multi = 0 := by
    rw [hclear]
    exact congrArg multi h
  unfold Located
  rw [profile_startTransfer _ hmulti, hclear]
  exact congrArg (fun p : Profile =>
    { p with timers := p.timers - 1, multi := 1, inRetryWait := false }) h

theorem Located.cancel_running (h : Located s a .running) :
    Located (((s.removeTransfer a).clearRetryWait a).complete a) a .done := by
  unfold Located
  rw [profile_complete, profile_clearRetryWait, profile_removeTransfer]
  exact congrArg (fun p : Profile =>
    { p with
      active := p.active - 1
      multi := p.multi - 1
      done := p.done + 1
      inRetryWait := false
      completed := true }) h

theorem Located.enqueue (h : Located s a .idle) : Located (s.enqueueRequest a) a .pending := by
  unfold Located
  rw [profile_enqueueRequest]
  exact congrArg (fun p : Profile =>
    { p with pending := p.pending + 1, inEventThread := true }) h

theorem Located.discard (h : Located s a .idle)
    (hprofile : profile s' a = { profile s a with live := false }) : Located s' a .discarded := by
  unfold Located
  rw [hprofile]
  exact congrArg (fun p : Profile => { p with live := false }) h

theorem Located.drain (h : Located s a ph) (hdrained : s.drained = []) :
    exists ph', Located s.drainCompleted a ph' := by
  have hmoved : (profile s.drainCompleted a).core =
      { ph.profile.core with done := 0, drained := ph.profile.done } := by
    rw [profile_drainCompleted]
    exact congrArg (fun p : Profile => { p with done := 0, drained := p.done }) h
  cases ph with
  | done => exact ⟨.drained, hmoved⟩
  | drained =>
    have hcount : s.drained.count a = 1 := congrArg drained h
    rw [hdrained] at hcount
    cases hcount
  | unused => exact ⟨.unused, hmoved⟩
  | idle => exact ⟨.idle, hmoved⟩
  | pending => exact ⟨.pending, hmoved⟩
  | running => exact ⟨.running, hmoved⟩
  | waiting => exact ⟨.waiting, hmoved⟩
  | delivering => exact ⟨.delivering, hmoved⟩
  | gone => exact ⟨.gone, hmoved⟩
  | discarded => exact ⟨.discarded, hmoved⟩

theorem Located.start_callback (h : Located s a .drained) (hdrained : s.drained = a :: rest) :
    Located (s.startCallback a rest) a .delivering := by
  unfold Located
  rw [profile_startCallback hdrained]
  exact congrArg (fun p : Profile =>
    { p with drained := p.drained - 1, delivering := true, inEventThread := false }) h

theorem Located.release (h : Located s a .delivering)
    (hprofile : profile s' a = { profile s a with live := false, delivering := false }) :
    Located s' a .gone := by
  unfold Located
  rw [hprofile]
  exact congrArg (fun p : Profile => { p with live := false, delivering := false }) h

theorem located_tracking : Tracking Located where
  located := id
  frame := fun h hsame => h.frame hsame.profile_eq
  add_closed := Located.add_closed
  add_start := Located.add_start
  transfer_complete := Located.transfer_complete
  transfer_retry := Located.transfer_retry
  timer_closed := Located.timer_closed
  timer_start := Located.timer_start
  cancel_running := Located.cancel_running
  enqueue := Located.enqueue
  discard := fun h hprofile _ _ => h.discard hprofile
  drain := Located.drain
  start_callback := Located.start_callback
  release := fun h hprofile _ _ => h.release hprofile

theorem Located.allocated (h : Located s a ph) (hlive : s.live a = false) (ctx : Context) :
    Located (s.allocated ctx a id) a .idle := by
  have hdead : ph.profile.live = false := h.live_eq.symm.trans hlive
  have hcore : (profile (s.allocated ctx a id) a).core =
      { (profile s a).core with
        live := true
        inEventThread := false
        inRetryWait := false
        completed := false } := by
    simp [profile, core, State.allocated, State.createHandle, new]
  rw [Located, hcore, h]
  cases ph with
  | unused | gone | discarded => rfl
  | _ => cases hdead

end

/-!
## Steps
-/

section

variable {s s' : State} {a : Address} {id : HandleId} {h : Handle}

theorem freeHandle_of_none (hid : s.pointerOf id = none) : s.freeHandle id = s := by
  unfold State.freeHandle
  rw [Option.map_eq_none_iff.mp hid]

/-- What is freed unseen is no request, or one that is not in use. -/
theorem Kept.freeUnseen (h : Kept Located s) (hwork : s.work = [])
    (hunseen : forall a, a ∈ s.pointerOf id -> ¬ s.InUse a) : Kept Located (s.freeHandle id) := by
  cases hid : s.pointerOf id with
  | none =>
    rw [freeHandle_of_none hid]
    exact h
  | some a =>
    have hfree := hunseen a hid
    unfold State.InUse at hfree
    push Not at hfree
    exact h.freeHandle located_tracking hid (Bool.eq_false_iff.mpr hfree.1) hfree.2
      (by simp [hwork])

/-!
A transfer changes the owner of a handle and the lists of the plugins.
-/

/-- The handles lead to the same requests, and nothing else has changed but who
owns them. -/
structure Reowned (s s' : State) : Prop where
  pointerOf_eq : forall id, s'.pointerOf id = s.pointerOf id
  plugin_nodup : (forall ctx, (s.pluginHandles ctx).Nodup) ->
    forall ctx, (s'.pluginHandles ctx).Nodup
  rest_eq : s' = { s with usedHandles := s'.usedHandles, pluginHandles := s'.pluginHandles }

theorem Reowned.refl (s : State) : Reowned s s := ⟨fun _ => rfl, fun h => h, rfl⟩

theorem Reowned.trans {t u : State} (hst : Reowned s t) (htu : Reowned t u) : Reowned s u where
  pointerOf_eq := fun id => (htu.pointerOf_eq id).trans (hst.pointerOf_eq id)
  plugin_nodup := fun h => htu.plugin_nodup (hst.plugin_nodup h)
  rest_eq := by
    rw [htu.rest_eq, hst.rest_eq]

theorem reowned_dropOwner (h : Handle) : Reowned s (s.dropOwner id h) := by
  unfold State.dropOwner
  split
  case h_1 owner _ =>
    refine ⟨fun _ => rfl, fun hnodup ctx => ?_, rfl⟩
    by_cases hctx : ctx = owner
    · subst hctx
      simpa [State.removeFromPluginSet] using (hnodup ctx).erase id
    · simpa [State.removeFromPluginSet, update_of_ne hctx] using hnodup ctx
  · exact Reowned.refl s

theorem pointerOf_update (hid : s.pointerOf id = some h.pointer) (id' : HandleId) :
    { s with usedHandles := update s.usedHandles id (some h) }.pointerOf id' =
      s.pointerOf id' := by
  by_cases hne : id' = id
  · subst hne
    rw [hid]
    simp [State.pointerOf]
  · simp [State.pointerOf, update_of_ne hne]

theorem reowned_adopt (hid : s.pointerOf id = some h.pointer) (target : Option Context) :
    Reowned s (s.adopt id h target) := by
  unfold State.adopt
  cases target with
  | none => exact ⟨pointerOf_update (h := { h with owner := none }) hid, fun hn => hn, rfl⟩
  | some owner =>
    refine ⟨pointerOf_update (h := { h with owner := some owner }) hid,
      fun hnodup ctx => ?_, rfl⟩
    by_cases hctx : ctx = owner
    · subst hctx
      simpa using List.Nodup.insert (hnodup ctx)
    · simpa [update_of_ne hctx] using hnodup ctx

theorem reowned_transferHandle (target : Option Context) :
    Reowned s (s.transferHandle id target) := by
  unfold State.transferHandle
  split
  · exact Reowned.refl s
  case h_2 h hid =>
    split
    · exact Reowned.refl s
    have hdrop : Reowned s (s.dropOwner id h) := reowned_dropOwner h
    refine hdrop.trans (reowned_adopt ?_ target)
    rw [hdrop.pointerOf_eq]
    simp [State.pointerOf, hid]

theorem Kept.reowned (h : Kept Located s) (hs : Reowned s s') : Kept Located s' := by
  have hrest := hs.rest_eq
  refine ⟨fun b => ?_, ?_, ?_, hs.plugin_nodup h.table.plugin_nodup, ?_⟩
  · rcases h.phased b with ⟨ph, hph⟩
    refine ⟨ph, hph.frame ?_⟩
    rw [hrest]
    rfl
  · intro id a hid
    rw [hs.pointerOf_eq] at hid
    rw [hrest]
    exact h.table.handle_live id a hid
  · intro a ha
    rw [hs.pointerOf_eq]
    rw [hrest] at ha ⊢
    exact h.table.live_handle a ha
  · have hdelivering : s'.delivering = s.delivering := by rw [hrest]
    have hwork : s'.work = s.work := by rw [hrest]
    rw [hwork]
    exact h.table.tasks.frame hs.pointerOf_eq hdelivering

theorem Kept.httpStep (h : Kept Located s) {action : Action}
    (hown : forall a, s.delivering = some a -> ¬ action.EndsRequest s a)
    (hstep : Http.step action s = some s') : Kept Located s' := by
  refine h.stepped located_tracking hown ?_ ?_ (stepped_of_step hstep)
  · rintro ctx a id - hlive
    rcases h.phased a with ⟨ph, hph⟩
    exact hph.allocated hlive ctx
  -- A limit on the retries may be set in the callback, too: no place depends on it.
  · rintro id n a - - -
    refine ⟨fun b => ?_, h.table.frame (sameTable_modify s fun _ => rfl)⟩
    rcases h.phased b with ⟨ph, hph⟩
    refine ⟨ph, hph.frame ?_⟩
    by_cases hb : b = a
    · subst hb
      simp [profile, State.modify]
    · exact (same_modify s hb _).profile_eq

theorem Kept.step (h : Kept Located s) {native : Native} (hallowed : Considerate s native)
    (hstep : native.step s = some s') : Kept Located s' := by
  have hunseen := hallowed.unseen
  cases native with
  | http action => exact h.httpStep hallowed.own hstep
  | setBodyNode id json =>
    rcases ite_eq_some hstep with ⟨hplugin, hset⟩
    cases hset
    unfold State.setBodyNode
    split
    case isTrue hrefused =>
      exact h.freeUnseen hplugin.1 (hunseen json (if_pos hrefused))
    · exact h
  | wsSendNode found json =>
    rcases ite_eq_some hstep with ⟨hplugin, hsend⟩
    cases hsend
    cases found with
    | true => exact h
    | false => exact h.freeUnseen hplugin.1 (hunseen json rfl)
  | setHandlePlugin id target =>
    rcases ite_eq_some hstep with ⟨-, hset⟩
    cases hset
    exact h.reowned (reowned_transferHandle target)
  | closeEvent id =>
    rcases ite_eq_some hstep with ⟨⟨hplugin, -⟩, hclose⟩
    cases hclose
    exact h.freeUnseen hplugin.1 (hunseen id rfl)

theorem kept_init : Kept Located State.init where
  phased := fun _ => ⟨.unused, rfl⟩
  table := inv_init.consistent.table

theorem kept_of_reaches (h : Reaches natives Considerate s) : Kept Located s :=
  h.invariant (Kept Located) kept_init fun _ _ _ hkept hallowed hstep =>
    hkept.step hallowed hstep

end

/-!
## Held requests
-/

/-- The request waits in a queue, is with the event thread, or has been taken over
by the current frame and not been dispatched. -/
def State.Holds (s : State) (a : Address) : Prop :=
  a ∈ s.pendingQueue ∨ a ∈ s.activeHttpRequests ∨ a ∈ s.doneQueue ∨ a ∈ s.drained

theorem Located.live_of_holds {s : State} {a : Address} {ph : Phase} (h : Located s a ph)
    (ha : s.Holds a) : ph.profile.live = true := by
  rcases ha with hpending | hactive | hdone | hdrained
  · rw [h.eq_pending hpending]
    rfl
  · rcases h.eq_of_active hactive with rfl | rfl
    · rfl
    · rfl
  · rw [h.eq_done hdone]
    rfl
  · rw [h.eq_drained hdrained]
    rfl

/-- In every considerate run no request is freed while it is held. -/
theorem held_live_of_reaches {s : State} (h : Reaches natives Considerate s) :
    forall a, s.Holds a -> s.live a = true := by
  intro a ha
  rcases (kept_of_reaches h).phased a with ⟨ph, hph⟩
  exact hph.live_eq.trans (hph.live_of_holds ha)

/-- One request is detached and executed; its handle is then given as the body of
another one, which is freed unseen itself. -/
def sharedHandles : List Native :=
  [.http (.httpNew 1 64 1), .http (.httpNew 1 72 2), .setHandlePlugin 1 none,
    .http (.httpExecute 1), .setBodyNode 2 1, .wsSendNode false 2, .http .asyncAdd]

theorem sharedHandles_held :
    exists s, natives.run sharedHandles State.init = some s ∧ s.activeHttpRequests = [64] ∧
      s.live 72 = false ∧ forall a, s.Holds a -> s.live a = true :=
  ⟨_, rfl, rfl, rfl, held_live_of_reaches
    (reaches_of_run sharedHandles .init (by decide) rfl)⟩

/-- The completion callback executes its own request again. -/
def executedInCallback : List Native :=
  [.http (.httpNew 1 64 1), .http (.httpExecute 1), .http .asyncAdd,
    .http (.transferDone 64 ⟨0, 200⟩), .http .gameFrame, .http .deliver,
    .http (.httpExecute 1), .http .release]

/-- The request is freed after the callback and is in the pending queue. -/
theorem executedInCallback_frees_held :
    exists s a, Reaches natives (fun _ _ => True) s ∧ s.Holds a ∧ s.live a = false :=
  ⟨_, 64, reaches_of_run executedInCallback .init (by decide) rfl,
    Or.inl List.mem_cons_self, rfl⟩

/-!
## Callbacks
-/

/-- What `OnCompletedGameThread` relies on while the callback of `a` runs. -/
structure DeliversSafely (s : State) (a : Address) : Prop where
  /-- What is read after the callback is still there. -/
  alive : s.live a = true
  /-- `HttpClose` on the request itself does nothing. -/
  close_refused : forall id, s.pointerOf id = some a ->
    Considerate s (.http (.httpClose id)) -> s.httpClose id = s ∧ s.httpCloseResult id = 2
  /-- The object is deleted after the callback, with its handle, and nothing else
  is. -/
  deleted : forall s', natives.step (.http .release) s = some s' ->
    s'.live a = false ∧ (forall b, b ≠ a -> s'.live b = s.live b) ∧
      (forall id, s'.pointerOf id ≠ some a) ∧ ¬ s'.Holds a

section

variable {s s' : State} {a : Address} {id : HandleId}

/-- A handle of the running callback's request can only be closed already. -/
theorem Considerate.getHttpRequest_eq_none (h : Considerate s (.http (.httpClose id)))
    (hcallback : s.delivering = some a) (hid : s.pointerOf id = some a) :
    s.getHttpRequest id = none := by
  cases hget : s.getHttpRequest id with
  | none => rfl
  | some b =>
    have hpointer := pointerOf_of_getHttpRequest hget
    rw [hid] at hpointer
    cases hpointer
    exact absurd hget (h.own a hcallback)

theorem Kept.of_dead (h : Kept Located s) (hdead : s.live a = false) :
    (forall id, s.pointerOf id ≠ some a) ∧ ¬ s.Holds a := by
  constructor
  · intro id hid
    have hlive := (h.table.handle_live id a hid).1
    rw [hdead] at hlive
    cases hlive
  · intro ha
    rcases h.phased a with ⟨ph, hph⟩
    have hlive := hph.live_eq.trans (hph.live_of_holds ha)
    rw [hdead] at hlive
    cases hlive

end

/-- In every considerate run, the request whose callback runs is alive, closing it
does nothing, and it is deleted once, after the callback. -/
theorem deliversSafely_of_reaches {s : State} (h : Reaches natives Considerate s)
    {a : Address} (hcallback : s.delivering = some a) : DeliversSafely s a := by
  have hkept := kept_of_reaches h
  rcases hkept.phased a with ⟨ph, hph⟩
  cases hph.eq_delivering hcallback
  constructor
  case alive => exact hph.live_eq
  case close_refused =>
    intro id hid hallowed
    have hnone := hallowed.getHttpRequest_eq_none hcallback hid
    simp [State.httpClose, State.httpCloseResult, hnone]
  case deleted =>
    intro s' hstep
    have hnext : Kept Located s' := by
      refine hkept.httpStep ?_ (show Http.step .release s = some s' from hstep)
      exact fun _ _ hends => hends
    rcases release_eq_some (ite_eq_some hstep).2 with ⟨b, hb, rfl⟩
    cases hcallback.symm.trans hb
    have hpointer := hkept.table.live_handle a hph.live_eq
    have hsame := sameTable_untrackClientHandle s (s.mem a).clientIndex (s.mem a).handleId
    rw [← hsame.pointerOf_eq] at hpointer
    rcases freeHandle_eq hpointer with ⟨plugins, -, heq⟩
    rw [heq] at hnext ⊢
    have hdead := Function.update_self a false s.live
    rw [hsame.live_eq] at hnext ⊢
    exact ⟨hdead, fun b hb => Function.update_of_ne hb _ _, hnext.of_dead hdead⟩

/-- The request is closed while its transfer runs, and again in its callback. -/
def closedTwice : List Native :=
  [.http (.httpNew 1 64 1), .http (.setOwner 1 3), .http (.httpExecute 1), .http .asyncAdd,
    .http (.httpClose 1), .http .asyncCancel, .http .gameFrame, .http .deliver,
    .http (.httpClose 1), .http (.clientDisconnecting 3)]

theorem closedTwice_delivers :
    exists s, natives.run closedTwice State.init = some s ∧ s.delivering = some 64 ∧
      DeliversSafely s 64 :=
  ⟨_, rfl, rfl, deliversSafely_of_reaches
    (reaches_of_run closedTwice .init (by decide) rfl) rfl⟩

/-- A request that completes, up to its callback. -/
def delivered : List Native := executedInCallback.take 6

/-- `HttpClose` in the callback of an open request frees it and returns 0, and the
callback's caller goes on with the freed object. -/
theorem delivered_close_frees :
    exists s s', Reaches natives (fun _ _ => True) s ∧ s.delivering = some 64 ∧
      natives.step (.http (.httpClose 1)) s = some s' ∧ s.httpCloseResult 1 = 0 ∧
      s'.delivering = some 64 ∧ s'.live 64 = false :=
  ⟨_, _, reaches_of_run delivered .init (by decide) rfl, rfl, rfl, rfl, rfl, rfl⟩

end Async2.Http
