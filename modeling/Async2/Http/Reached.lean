import Async2.Http.Held

/-!
# What the HTTP subsystem can still reach

A request can be delivered only if something leads to it: a handle, a handle that
is about to be treated, or one of the queues and sets.  No step makes a request
reachable that was not, except for the creation of a new one.
-/

namespace Async2.Http

open Function List

/-- Everything that leads to a request leads to one with the property. -/
structure AllReached (P : Address -> Prop) (s : State) : Prop where
  handles : forall id a, s.pointerOf id = some a -> P a
  tasks : forall id a, Task.unload id a ∈ s.work -> P a
  pending : forall a, a ∈ s.pendingQueue -> P a
  active : forall a, a ∈ s.activeHttpRequests -> P a
  multi : forall a, a ∈ s.curlMulti -> P a
  timers : forall a, a ∈ s.retryTimers -> P a
  done : forall a, a ∈ s.doneQueue -> P a
  drained : forall a, a ∈ s.drained -> P a

variable {P : Address -> Prop} {s s' : State} {a : Address} {id : HandleId} {Q : Address -> Prop}
  {l rest : List Address}

theorem AllReached.mono (h : AllReached P s) (hPQ : forall a, P a -> Q a) : AllReached Q s where
  handles := fun id a hid => hPQ a (h.handles id a hid)
  tasks := fun id a ha => hPQ a (h.tasks id a ha)
  pending := fun a ha => hPQ a (h.pending a ha)
  active := fun a ha => hPQ a (h.active a ha)
  multi := fun a ha => hPQ a (h.multi a ha)
  timers := fun a ha => hPQ a (h.timers a ha)
  done := fun a ha => hPQ a (h.done a ha)
  drained := fun a ha => hPQ a (h.drained a ha)

theorem AllReached.and (hP : AllReached P s) (hQ : AllReached Q s) :
    AllReached (fun a => P a ∧ Q a) s where
  handles := fun id a hid => ⟨hP.handles id a hid, hQ.handles id a hid⟩
  tasks := fun id a ha => ⟨hP.tasks id a ha, hQ.tasks id a ha⟩
  pending := fun a ha => ⟨hP.pending a ha, hQ.pending a ha⟩
  active := fun a ha => ⟨hP.active a ha, hQ.active a ha⟩
  multi := fun a ha => ⟨hP.multi a ha, hQ.multi a ha⟩
  timers := fun a ha => ⟨hP.timers a ha, hQ.timers a ha⟩
  done := fun a ha => ⟨hP.done a ha, hQ.done a ha⟩
  drained := fun a ha => ⟨hP.drained a ha, hQ.drained a ha⟩

theorem mem_iff_of_count_eq {l' : List Address} (h : l'.count a = l.count a) :
    a ∈ l' <-> a ∈ l := by
  rw [← count_pos_iff, ← count_pos_iff, h]

theorem AllReached.frame (h : AllReached P s) (hsame : forall b, Same s s' b)
    (hpointer : forall id, s'.pointerOf id = s.pointerOf id) (hwork : s'.work = s.work) :
    AllReached P s' where
  handles := by
    intro id a hid
    rw [hpointer] at hid
    exact h.handles id a hid
  tasks := by
    rw [hwork]
    exact h.tasks
  pending := fun a ha => h.pending a
    ((mem_iff_of_count_eq (congrArg Profile.pending (hsame a).profile_eq)).mp ha)
  active := fun a ha => h.active a
    ((mem_iff_of_count_eq (congrArg Profile.active (hsame a).profile_eq)).mp ha)
  multi := fun a ha => h.multi a
    ((mem_iff_of_count_eq (congrArg Profile.multi (hsame a).profile_eq)).mp ha)
  timers := fun a ha => h.timers a
    ((mem_iff_of_count_eq (congrArg Profile.timers (hsame a).profile_eq)).mp ha)
  done := fun a ha => h.done a
    ((mem_iff_of_count_eq (congrArg Profile.done (hsame a).profile_eq)).mp ha)
  drained := fun a ha => h.drained a
    ((mem_iff_of_count_eq (congrArg Profile.drained (hsame a).profile_eq)).mp ha)

/-!
## Event thread
-/

theorem forall_mem_append_singleton (hl : forall b, b ∈ l -> P b) (ha : P a) :
    forall b, b ∈ l ++ [a] -> P b := by
  intro b hb
  rcases mem_append.mp hb with hold | hnew
  · exact hl b hold
  · rw [mem_singleton.mp hnew]
    exact ha

theorem forall_mem_insert (hl : forall b, b ∈ l -> P b) (ha : P a) :
    forall b, b ∈ l.insert a -> P b := by
  intro b hb
  rcases mem_insert_iff.mp hb with rfl | hold
  · exact ha
  · exact hl b hold

section

variable (h : AllReached P s)
include h

theorem AllReached.complete (ha : P a) : AllReached P (s.complete a) :=
  ⟨h.handles, h.tasks, h.pending, fun b hb => h.active b (mem_of_mem_erase hb), h.multi,
    h.timers, forall_mem_append_singleton h.done ha, h.drained⟩

theorem AllReached.takePending (hqueue : s.pendingQueue = a :: rest) :
    AllReached P (s.takePending a rest) := by
  have hpending := h.pending
  rw [hqueue] at hpending
  exact ⟨h.handles, h.tasks, fun b hb => hpending b (mem_cons_of_mem a hb),
    forall_mem_insert h.active (hpending a mem_cons_self), h.multi, h.timers, h.done,
    h.drained⟩

theorem AllReached.startTransfer (ha : P a) : AllReached P (s.startTransfer a) :=
  ⟨h.handles, h.tasks, h.pending, h.active, forall_mem_insert h.multi ha, h.timers, h.done,
    h.drained⟩

theorem AllReached.removeTransfer : AllReached P (s.removeTransfer a) :=
  ⟨h.handles, h.tasks, h.pending, h.active, fun b hb => h.multi b (mem_of_mem_erase hb),
    h.timers, h.done, h.drained⟩

theorem AllReached.armTimer (ha : P a) : AllReached P (s.armTimer a) :=
  ⟨h.handles, h.tasks, h.pending, h.active, h.multi, forall_mem_insert h.timers ha, h.done,
    h.drained⟩

theorem AllReached.dropTimer : AllReached P (s.dropTimer a) :=
  ⟨h.handles, h.tasks, h.pending, h.active, h.multi,
    fun b hb => h.timers b (mem_of_mem_erase hb), h.done, h.drained⟩

theorem AllReached.dropCancel (rest : List Address) : AllReached P (s.dropCancel rest) :=
  ⟨h.handles, h.tasks, h.pending, h.active, h.multi, h.timers, h.done, h.drained⟩

theorem AllReached.modify (f : HttpRequest -> HttpRequest) : AllReached P (s.modify a f) :=
  ⟨h.handles, h.tasks, h.pending, h.active, h.multi, h.timers, h.done, h.drained⟩

theorem AllReached.eventMove (hmove : EventMove s s') : AllReached P s' := by
  cases hmove with
  | @addClosed a rest hqueue =>
    exact (h.takePending hqueue).complete (h.pending a (by simp [hqueue]))
  | @addStart a rest hqueue =>
    exact (h.takePending hqueue).startTransfer (h.pending a (by simp [hqueue]))
  | cancelStale => exact h.dropCancel _
  | @cancelWaiting a rest hqueue hactive =>
    exact ((h.dropCancel rest).dropTimer.modify _).complete (h.active a hactive)
  | @cancelRunning a rest hqueue hactive =>
    exact ((h.dropCancel rest).removeTransfer.modify _).complete (h.active a hactive)
  | @transferComplete a hmulti =>
    exact (h.removeTransfer.modify _).complete (h.multi a hmulti)
  | @transferRetry a hmulti =>
    exact ((h.removeTransfer.modify _).modify _).armTimer (h.multi a hmulti)
  | timerStale => exact h.dropTimer
  | @timerClosed a htimer => exact (h.dropTimer.modify _).complete (h.timers a htimer)
  | @timerStart a htimer => exact (h.dropTimer.modify _).startTransfer (h.timers a htimer)

/-!
## Game thread
-/

theorem AllReached.freeHandle (id : HandleId) : AllReached P (s.freeHandle id) := by
  cases hid : s.pointerOf id with
  | none =>
    rw [freeHandle_of_none hid]
    exact h
  | some a =>
    rcases freeHandle_eq hid with ⟨plugins, -, heq⟩
    rw [heq]
    refine ⟨fun id' b hb => ?_, h.tasks, h.pending, h.active, h.multi, h.timers, h.done, h.drained⟩
    by_cases hne : id' = id
    · subst hne
      simp [State.pointerOf] at hb
    · exact h.handles id' b (by simpa [State.pointerOf, update_of_ne hne] using hb)

theorem AllReached.untrack (client : Client) (id : HandleId) :
    AllReached P (s.untrackClientHandle client id) :=
  h.frame (fun _ => same_untrackClientHandle s client id)
    (sameTable_untrackClientHandle s client id).pointerOf_eq
    (sameTable_untrackClientHandle s client id).work_eq

theorem AllReached.track (client : Client) (id : HandleId) :
    AllReached P (s.trackClientHandle client id) :=
  h.frame (fun _ => same_trackClientHandle s client id)
    (sameTable_trackClientHandle s client id).pointerOf_eq
    (sameTable_trackClientHandle s client id).work_eq

theorem AllReached.closeOrFree (id : HandleId) (a : Address) :
    AllReached P (s.closeOrFree id a) := by
  unfold State.closeOrFree
  split
  · have hclose := h.modify (a := a) fun r => { r with handleClosed := true }
    have hmark := hclose.frame (fun _ => same_markHandleClosed _ id)
      (sameTable_markHandleClosed _ id).pointerOf_eq (sameTable_markHandleClosed _ id).work_eq
    exact ⟨hmark.handles, hmark.tasks, hmark.pending, hmark.active, hmark.multi, hmark.timers,
      hmark.done, hmark.drained⟩
  · exact h.freeHandle id

theorem AllReached.allocated (ha : P a) (ctx : Context) : AllReached P (s.allocated ctx a id) := by
  refine ⟨fun id' b hb => ?_, h.tasks, h.pending, h.active, h.multi, h.timers, h.done, h.drained⟩
  by_cases hne : id' = id
  · subst hne
    have hba : a = b := by
      simpa [State.pointerOf, State.allocated, State.createHandle] using hb
    exact hba ▸ ha
  · refine h.handles id' b ?_
    simpa [State.pointerOf, State.allocated, State.createHandle, update_of_ne hne]
      using hb

theorem AllReached.setWork {tasks : List Task}
    (htasks : forall id a, Task.unload id a ∈ tasks -> P a) : AllReached P (s.setWork tasks) :=
  ⟨h.handles, htasks, h.pending, h.active, h.multi, h.timers, h.done, h.drained⟩

theorem AllReached.onPluginUnloaded (ctx : Context) (ids : List HandleId) : AllReached P
    ((s.takePluginHandles ctx ids).1.setWork (s.takePluginHandles ctx ids).2) := by
  have hclear : AllReached P (s.clearPluginSet ctx) :=
    ⟨h.handles, h.tasks, h.pending, h.active, h.multi, h.timers, h.done, h.drained⟩
  rcases detachHandles_same (s.clearPluginSet ctx) ids with ⟨hsame, htable⟩
  refine (hclear.frame hsame htable.pointerOf_eq htable.work_eq).setWork fun id a ha => ?_
  unfold State.takePluginHandles at ha
  rw [detachHandles_tasks] at ha
  rcases mem_filterMap.mp ha with ⟨id', -, htask⟩
  rcases Option.map_eq_some_iff.mp htask with ⟨a', hpointer, heq⟩
  cases heq
  exact hclear.handles id a hpointer

theorem AllReached.stepped {action : Action} (hstep : Stepped s action s')
    (hnew : forall ctx a id, action = .httpNew ctx a id -> P a) : AllReached P s' := by
  have hrest : forall {t rest}, s.work = t :: rest -> AllReached P (s.setWork rest) := by
    intro t rest hwork
    refine h.setWork fun id a ha => h.tasks id a ?_
    rw [hwork]
    exact mem_cons_of_mem t ha
  cases hstep with
  | httpNew => exact h.allocated (hnew _ _ _ rfl) _
  | httpClose => exact (h.untrack _ _).closeOrFree _ _
  | closeInvalid | executeRefused | retryRefused | ownerSame | ownerRefused => exact h
  | httpExecute hget =>
    have ha := h.handles _ _ (pointerOf_of_getHttpRequest hget)
    exact ⟨h.handles, h.tasks, forall_mem_append_singleton h.pending ha, h.active, h.multi,
      h.timers, h.done, h.drained⟩
  | setRetry => exact h.modify _
  | setOwner => exact ((h.untrack _ _).modify _).track _ _
  | pluginUnloaded => exact h.onPluginUnloaded _ _
  | clientDisconnecting =>
    refine ⟨h.handles, fun id a ha => ?_, h.pending, h.active, h.multi, h.timers, h.done, h.drained⟩
    rcases mem_map.mp ha with ⟨id', -, heq⟩
    cases heq
  | taskUnload hwork => exact ((hrest hwork).untrack _ _).closeOrFree _ _
  | taskDisconnect hwork => exact (hrest hwork).closeOrFree _ _
  | taskStale hwork => exact hrest hwork
  | gameFrame =>
    exact ⟨h.handles, h.tasks, h.pending, h.active, h.multi, h.timers,
      fun _ hb => absurd hb not_mem_nil, h.done⟩
  | @deliver a rest hwork hdrained =>
    have hall := h.drained
    rw [hdrained] at hall
    exact ⟨h.handles, h.tasks, h.pending, h.active, h.multi, h.timers, h.done,
      fun b hb => hall b (mem_cons_of_mem a hb)⟩
  | @release a =>
    have hfreed := (h.untrack (s.mem a).clientIndex (s.mem a).handleId).freeHandle
      (s.mem a).handleId
    exact ⟨hfreed.handles, hfreed.tasks, hfreed.pending, hfreed.active, hfreed.multi,
      hfreed.timers, hfreed.done, hfreed.drained⟩
  | event _ hmove => exact h.eventMove hmove

theorem AllReached.reowned (hs : Reowned s s') : AllReached P s' := by
  have hrest := hs.rest_eq
  refine h.frame (fun b => ?_) hs.pointerOf_eq (by rw [hrest])
  rw [hrest]
  exact ⟨rfl, rfl, rfl, rfl⟩

end

/-- The creation of a request, the only step that reaches a new one. -/
def Native.isNew : Native -> Bool
  | .http (.httpNew _ _ _) => true
  | _ => false

theorem AllReached.step (h : AllReached P s) (native : Native) (hnew : native.isNew = false)
    (hstep : native.step s = some s') : AllReached P s' := by
  cases native with
  | http action =>
    refine h.stepped (stepped_of_step hstep) ?_
    rintro ctx a id rfl
    cases hnew
  | setBodyNode id json =>
    rcases ite_eq_some hstep with ⟨-, hset⟩
    cases hset
    unfold State.setBodyNode
    split
    · exact h.freeHandle json
    · exact h
  | wsSendNode found json =>
    rcases ite_eq_some hstep with ⟨-, hsend⟩
    cases hsend
    cases found with
    | true => exact h
    | false => exact h.freeHandle json
  | setHandlePlugin id target =>
    rcases ite_eq_some hstep with ⟨-, hset⟩
    cases hset
    exact h.reowned (reowned_transferHandle target)
  | closeEvent id =>
    rcases ite_eq_some hstep with ⟨-, hclose⟩
    cases hclose
    exact h.freeHandle id

end Async2.Http
