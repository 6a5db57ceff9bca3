import Async2.Http.Handlers

/-!
# The handle table

A handle in use leads to a live request that knows its handle, and every live
request has such a handle.  The handles that the game thread is about to treat
are still in the table, and none of them belongs to the request whose callback
is running.
-/

namespace Async2.Http

open Function List

/-- The handle of a task of `OnPluginUnloaded`. -/
def Task.unloadId : Task -> Option HandleId
  | .unload id _ => some id
  | .disconnect _ => none

/-- The address that a handle in use leads to, closed or not. -/
def State.pointerOf (s : State) (id : HandleId) : Option Address :=
  (s.usedHandles id).map Handle.pointer

/-- Tasks of one loop: their handles are in the table, and none of them belongs
to the request whose callback is running. -/
structure TasksOk (s : State) (tasks : List Task) : Prop where
  unload_valid : forall id a, Task.unload id a ∈ tasks ->
    s.delivering ≠ some a ∧ s.pointerOf id = some a
  unload_nodup : (tasks.filterMap Task.unloadId).Nodup
  disconnect_valid : forall id a, Task.disconnect id ∈ tasks ->
    s.pointerOf id = some a -> s.delivering ≠ some a
  disconnect_only : forall id, Task.disconnect id ∈ tasks ->
    tasks.filterMap Task.unloadId = []

structure TableOk (s : State) : Prop where
  handle_live : forall id a, s.pointerOf id = some a ->
    s.live a = true ∧ (s.mem a).handleId = id
  live_handle : forall a, s.live a = true -> s.pointerOf (s.mem a).handleId = some a
  plugin_nodup : forall ctx, (s.pluginHandles ctx).Nodup
  tasks : TasksOk s s.work

variable {s s' : State}

theorem tasksOk_nil (s : State) : TasksOk s [] where
  unload_valid := fun _ _ h => by cases h
  unload_nodup := nodup_nil
  disconnect_valid := fun _ _ h => by cases h
  disconnect_only := fun _ h => by cases h

theorem TasksOk.tail {t : Task} {rest : List Task} (h : TasksOk s (t :: rest)) :
    TasksOk s rest where
  unload_valid := fun id a ha => h.unload_valid id a (mem_cons_of_mem t ha)
  unload_nodup := by
    have hnodup := h.unload_nodup
    cases t with
    | unload id a => exact (nodup_cons.mp hnodup).2
    | disconnect id => exact hnodup
  disconnect_valid := fun id a ha => h.disconnect_valid id a (mem_cons_of_mem t ha)
  disconnect_only := by
    intro id ha
    have hnone := h.disconnect_only id (mem_cons_of_mem t ha)
    cases t with
    | unload id' a => cases hnone
    | disconnect id' => exact hnone

/-!
## Steps that do not touch the table
-/

/-- Everything that the table is about is the same in both states. -/
structure SameTable (s s' : State) : Prop where
  pointerOf_eq : forall id, s'.pointerOf id = s.pointerOf id
  live_eq : s'.live = s.live
  pluginHandles_eq : s'.pluginHandles = s.pluginHandles
  work_eq : s'.work = s.work
  delivering_eq : s'.delivering = s.delivering
  handleId_eq : forall a, (s'.mem a).handleId = (s.mem a).handleId

theorem SameTable.trans {t u : State} (hst : SameTable s t) (htu : SameTable t u) :
    SameTable s u where
  pointerOf_eq := fun id => (htu.pointerOf_eq id).trans (hst.pointerOf_eq id)
  live_eq := htu.live_eq.trans hst.live_eq
  pluginHandles_eq := htu.pluginHandles_eq.trans hst.pluginHandles_eq
  work_eq := htu.work_eq.trans hst.work_eq
  delivering_eq := htu.delivering_eq.trans hst.delivering_eq
  handleId_eq := fun a => (htu.handleId_eq a).trans (hst.handleId_eq a)

theorem TasksOk.frame {tasks : List Task} (h : TasksOk s tasks)
    (hpointer : forall id, s'.pointerOf id = s.pointerOf id)
    (hdelivering : s'.delivering = s.delivering) : TasksOk s' tasks where
  unload_valid := by
    intro id a ha
    rw [hdelivering, hpointer]
    exact h.unload_valid id a ha
  unload_nodup := h.unload_nodup
  disconnect_valid := by
    intro id a ha hid
    rw [hpointer] at hid
    rw [hdelivering]
    exact h.disconnect_valid id a ha hid
  disconnect_only := h.disconnect_only

theorem TableOk.frame (h : TableOk s) (hsame : SameTable s s') : TableOk s' where
  handle_live := by
    intro id a hid
    rw [hsame.pointerOf_eq] at hid
    rw [hsame.live_eq, hsame.handleId_eq]
    exact h.handle_live id a hid
  live_handle := by
    intro a ha
    rw [hsame.live_eq] at ha
    rw [hsame.handleId_eq, hsame.pointerOf_eq]
    exact h.live_handle a ha
  plugin_nodup := by
    rw [hsame.pluginHandles_eq]
    exact h.plugin_nodup
  tasks := by
    rw [hsame.work_eq]
    exact h.tasks.frame hsame.pointerOf_eq hsame.delivering_eq

section

variable (s : State) {a : Address} {rest : List Address}

theorem sameTable_modify {f : HttpRequest -> HttpRequest}
    (hf : forall r, (f r).handleId = r.handleId) : SameTable s (s.modify a f) where
  pointerOf_eq := fun _ => rfl
  live_eq := rfl
  pluginHandles_eq := rfl
  work_eq := rfl
  delivering_eq := rfl
  handleId_eq := by
    intro b
    by_cases hb : b = a
    · subst hb
      simp [State.modify, hf]
    · simp [State.modify, update_of_ne hb]

theorem sameTable_setCurlcode (code : Int) : SameTable s (s.setCurlcode a code) :=
  sameTable_modify s (f := fun r => { r with curlcode := code }) fun _ => rfl

theorem sameTable_clearRetryWait : SameTable s (s.clearRetryWait a) :=
  sameTable_modify s (f := fun r => { r with inRetryWait := false }) fun _ => rfl

theorem sameTable_prepareForRetry : SameTable s (s.modify a HttpRequest.prepareForRetry) :=
  sameTable_modify s (f := HttpRequest.prepareForRetry) fun _ => rfl

theorem sameTable_complete : SameTable s (s.complete a) :=
  (sameTable_modify s (f := fun r => { r with completed := true }) fun _ => rfl).trans
    ⟨fun _ => rfl, rfl, rfl, rfl, rfl, fun _ => rfl⟩

theorem sameTable_takePending : SameTable s (s.takePending a rest) :=
  ⟨fun _ => rfl, rfl, rfl, rfl, rfl, fun _ => rfl⟩

theorem sameTable_startTransfer : SameTable s (s.startTransfer a) :=
  ⟨fun _ => rfl, rfl, rfl, rfl, rfl, fun _ => rfl⟩

theorem sameTable_removeTransfer : SameTable s (s.removeTransfer a) :=
  ⟨fun _ => rfl, rfl, rfl, rfl, rfl, fun _ => rfl⟩

theorem sameTable_armTimer : SameTable s (s.armTimer a) :=
  ⟨fun _ => rfl, rfl, rfl, rfl, rfl, fun _ => rfl⟩

theorem sameTable_dropTimer : SameTable s (s.dropTimer a) :=
  ⟨fun _ => rfl, rfl, rfl, rfl, rfl, fun _ => rfl⟩

theorem sameTable_dropCancel : SameTable s (s.dropCancel rest) :=
  ⟨fun _ => rfl, rfl, rfl, rfl, rfl, fun _ => rfl⟩

theorem sameTable_enqueueRequest : SameTable s (s.enqueueRequest a) :=
  (sameTable_modify s (f := fun r => { r with inEventThread := true }) fun _ => rfl).trans
    ⟨fun _ => rfl, rfl, rfl, rfl, rfl, fun _ => rfl⟩

theorem sameTable_untrackClientHandle (client : Client) (id : HandleId) :
    SameTable s (s.untrackClientHandle client id) := by
  unfold State.untrackClientHandle
  split <;> exact ⟨fun _ => rfl, rfl, rfl, rfl, rfl, fun _ => rfl⟩

theorem sameTable_trackClientHandle (client : Client) (id : HandleId) :
    SameTable s (s.trackClientHandle client id) := by
  unfold State.trackClientHandle
  split <;> exact ⟨fun _ => rfl, rfl, rfl, rfl, rfl, fun _ => rfl⟩

theorem sameTable_cancelRequest : SameTable s (s.cancelRequest a) :=
  ⟨fun _ => rfl, rfl, rfl, rfl, rfl, fun _ => rfl⟩

theorem sameTable_markHandleClosed (id : HandleId) : SameTable s (s.markHandleClosed id) := by
  unfold State.markHandleClosed
  split
  · exact ⟨fun _ => rfl, rfl, rfl, rfl, rfl, fun _ => rfl⟩
  case h_2 h hid =>
    refine ⟨?_, rfl, rfl, rfl, rfl, fun _ => rfl⟩
    intro id'
    by_cases heq : id' = id
    · subst heq
      simp [State.pointerOf, hid]
    · simp [State.pointerOf, update_of_ne heq]

end

theorem EventMove.sameTable {s s' : State} (hmove : EventMove s s') : SameTable s s' := by
  cases hmove with
  | addClosed => exact (sameTable_takePending s).trans (sameTable_complete _)
  | addStart => exact (sameTable_takePending s).trans (sameTable_startTransfer _)
  | cancelStale => exact sameTable_dropCancel s
  | cancelWaiting =>
    exact (((sameTable_dropCancel s).trans (sameTable_dropTimer _)).trans
      (sameTable_clearRetryWait _)).trans (sameTable_complete _)
  | cancelRunning =>
    exact (((sameTable_dropCancel s).trans (sameTable_removeTransfer _)).trans
      (sameTable_clearRetryWait _)).trans (sameTable_complete _)
  | transferComplete hmulti code =>
    exact ((sameTable_removeTransfer s).trans (sameTable_setCurlcode _ code)).trans
      (sameTable_complete _)
  | transferRetry hmulti code =>
    exact (((sameTable_removeTransfer s).trans (sameTable_setCurlcode _ code)).trans
      (sameTable_prepareForRetry _)).trans (sameTable_armTimer _)
  | timerStale => exact sameTable_dropTimer s
  | timerClosed =>
    exact ((sameTable_dropTimer s).trans (sameTable_clearRetryWait _)).trans
      (sameTable_complete _)
  | timerStart =>
    exact ((sameTable_dropTimer s).trans (sameTable_clearRetryWait _)).trans
      (sameTable_startTransfer _)

end Async2.Http
