import Async2.Http.Conservation

/-!
# What a cancellation hits

The cancel queue holds raw pointers.  An entry outlives the request that it was
made for when the request completes first, and then stands for whatever is
allocated at its address next.  `OnAsyncCancel` looks the pointer up in the set of
active requests, which tells a freed request from an active one but not an old
request from a new one.
-/

namespace Async2.Http

open TransitionSystem Function List

/-- Whatever the next cancellation removes from `curl_multi` or pushes to the done
queue is a request whose own handle is closed. -/
def CancelHitsClosed (s : State) : Prop :=
  forall s', s.onAsyncCancel = some s' -> forall a,
    (a ∈ s.curlMulti ∧ a ∉ s'.curlMulti) ∨ s.doneQueue.count a < s'.doneQueue.count a ->
      (s.mem a).handleClosed = true

/-- A new request is placed where a cancel entry still points. -/
def TakesCancelledAddress (s : State) : Action -> Prop
  | .httpNew _ a _ => a ∈ s.cancelQueue
  | _ => False

instance (s : State) : DecidablePred (TakesCancelledAddress s) := by
  rintro ⟨⟩ <;> dsimp only [TakesCancelledAddress] <;> infer_instance

/-!
## Closed requests stay closed
-/

/-- Every entry of the cancel queue points to a closed request. -/
def CancelsClosed (s : State) : Prop :=
  forall a, a ∈ s.cancelQueue -> (s.mem a).handleClosed = true

/-- Closed requests stay closed, and the cancel queue does not grow. -/
structure Keeps (s s' : State) : Prop where
  closed : forall a, (s.mem a).handleClosed = true -> (s'.mem a).handleClosed = true
  queue : forall a, a ∈ s'.cancelQueue -> a ∈ s.cancelQueue

theorem Keeps.refl (s : State) : Keeps s s := ⟨fun _ h => h, fun _ h => h⟩

theorem Keeps.trans {s t u : State} (hst : Keeps s t) (htu : Keeps t u) : Keeps s u where
  closed := fun a h => htu.closed a (hst.closed a h)
  queue := fun a h => hst.queue a (htu.queue a h)

theorem CancelsClosed.keeps {s s' : State} (h : CancelsClosed s) (hkeeps : Keeps s s') :
    CancelsClosed s' :=
  fun a ha => hkeeps.closed a (h a (hkeeps.queue a ha))

section

variable (s : State) {a : Address}

theorem keeps_modify {f : HttpRequest -> HttpRequest}
    (hf : forall r, r.handleClosed = true -> (f r).handleClosed = true) :
    Keeps s (s.modify a f) where
  queue := fun _ h => h
  closed := by
    intro b hb
    by_cases hba : b = a
    · subst hba
      simpa [State.modify] using hf _ hb
    · simpa [State.modify, update_of_ne hba] using hb

theorem keeps_of_eq {s s' : State} (hmem : s'.mem = s.mem)
    (hqueue : s'.cancelQueue = s.cancelQueue) : Keeps s s' where
  closed := fun a h => by rwa [hmem]
  queue := fun a h => by rwa [hqueue] at h

theorem keeps_complete : Keeps s (s.complete a) :=
  (keeps_modify s (f := fun r => { r with completed := true }) fun _ h => h).trans
    (keeps_of_eq rfl rfl)

theorem keeps_untrack (client : Client) (id : HandleId) :
    Keeps s (s.untrackClientHandle client id) := by
  rw [untrack_eq]
  exact keeps_of_eq rfl rfl

theorem keeps_track (client : Client) (id : HandleId) :
    Keeps s (s.trackClientHandle client id) := by
  unfold State.trackClientHandle
  split <;> exact keeps_of_eq rfl rfl

theorem keeps_freeHandle (id : HandleId) : Keeps s (s.freeHandle id) := by
  unfold State.freeHandle
  split
  · exact Keeps.refl s
  case h_2 h _ =>
    cases howner : h.owner with
    | none | some owner => exact keeps_of_eq rfl rfl

theorem keeps_detachHandles (ids : List HandleId) : Keeps s (s.detachHandles ids).1 := by
  induction ids generalizing s with
  | nil => exact Keeps.refl s
  | cons id rest ih =>
    unfold State.detachHandles
    split
    · exact ih s
    case h_2 h _ =>
      have hdetach : Keeps s (s.detachHandle id h) := keeps_of_eq rfl rfl
      exact hdetach.trans (ih _)

end

section

variable {s s' : State} {a : Address} {id : HandleId}

/-- The one place where the queue grows: the flag is set before the push. -/
theorem CancelsClosed.closeOrFree (h : CancelsClosed s) : CancelsClosed (s.closeOrFree id a) := by
  unfold State.closeOrFree
  split
  case isFalse => exact h.keeps (keeps_freeHandle s id)
  have hclose := h.keeps
    (keeps_modify s (a := a) (f := fun r => { r with handleClosed := true }) fun _ _ => rfl)
  have hclosed : ((s.modify a fun r => { r with handleClosed := true }).mem a).handleClosed =
      true := by
    simp [State.modify]
  generalize (s.modify a fun r => { r with handleClosed := true }) = t at hclose hclosed
  have hmem : (t.markHandleClosed id).mem = t.mem := by
    unfold State.markHandleClosed
    split <;> rfl
  have hqueue : (t.markHandleClosed id).cancelQueue = t.cancelQueue := by
    unfold State.markHandleClosed
    split <;> rfl
  intro b hb
  change ((t.markHandleClosed id).mem b).handleClosed = true
  rw [hmem]
  rcases mem_append.mp hb with hold | hnew
  · rw [hqueue] at hold
    exact hclose b hold
  · rw [mem_singleton.mp hnew]
    exact hclosed

theorem EventMove.keeps (hmove : EventMove s s') : Keeps s s' := by
  have hdrop : forall {b : Address} {rest : List Address}, s.cancelQueue = b :: rest ->
      Keeps s (s.dropCancel rest) := by
    intro b rest hqueue
    refine ⟨fun _ h => h, fun c hc => ?_⟩
    rw [hqueue]
    exact mem_cons_of_mem b hc
  have hclear : forall t : State, forall b : Address, Keeps t (t.clearRetryWait b) :=
    fun t b => keeps_modify t (f := fun r => { r with inRetryWait := false }) fun _ h => h
  have hcode : forall t : State, forall (b : Address) (code : Int),
      Keeps t (t.setCurlcode b code) :=
    fun t b code => keeps_modify t (f := fun r => { r with curlcode := code }) fun _ h => h
  have hremove : forall t : State, forall b : Address, Keeps t (t.removeTransfer b) :=
    fun _ _ => keeps_of_eq rfl rfl
  have htimer : forall t : State, forall b : Address, Keeps t (t.dropTimer b) :=
    fun _ _ => keeps_of_eq rfl rfl
  have htake : forall t : State, forall (b : Address) (rest : List Address),
      Keeps t (t.takePending b rest) := fun _ _ _ => keeps_of_eq rfl rfl
  have hstart : forall t : State, forall b : Address, Keeps t (t.startTransfer b) :=
    fun _ _ => keeps_of_eq rfl rfl
  cases hmove with
  | addClosed => exact (htake s _ _).trans (keeps_complete _)
  | addStart => exact (htake s _ _).trans (hstart _ _)
  | cancelStale hqueue => exact hdrop hqueue
  | cancelWaiting hqueue =>
    exact (((hdrop hqueue).trans (htimer _ _)).trans (hclear _ _)).trans (keeps_complete _)
  | cancelRunning hqueue =>
    exact (((hdrop hqueue).trans (hremove _ _)).trans (hclear _ _)).trans (keeps_complete _)
  | transferComplete hmulti code =>
    exact ((hremove s _).trans (hcode _ _ code)).trans (keeps_complete _)
  | @transferRetry b hmulti code =>
    have hprepare := keeps_modify ((s.removeTransfer b).setCurlcode b code) (a := b)
      (f := HttpRequest.prepareForRetry) fun _ h => h
    exact (((hremove s b).trans (hcode _ b code)).trans hprepare).trans (keeps_of_eq rfl rfl)
  | timerStale => exact htimer s _
  | timerClosed => exact ((htimer s _).trans (hclear _ _)).trans (keeps_complete _)
  | timerStart => exact ((htimer s _).trans (hclear _ _)).trans (hstart _ _)

/-!
## Runs
-/

/-- Every step keeps the invariant unless a new request takes an address that is
still in the cancel queue. -/
theorem cancelsClosed_step (h : CancelsClosed s) {action : Action}
    (hallowed : ¬ TakesCancelledAddress s action) (hstep : step action s = some s') :
    CancelsClosed s' := by
  have hmodify : forall {b : Address} {f : HttpRequest -> HttpRequest},
      (forall r, r.handleClosed = true -> (f r).handleClosed = true) ->
        CancelsClosed (s.modify b f) := fun hf => h.keeps (keeps_modify s hf)
  have hwork : forall rest, CancelsClosed (s.setWork rest) :=
    fun _ => h.keeps (keeps_of_eq rfl rfl)
  cases stepped_of_step hstep with
  | @httpNew ctx a id =>
    intro b hb
    have hother : b ≠ a := fun hba => hallowed (hba ▸ hb)
    simpa [State.allocated, State.createHandle, update_of_ne hother] using h b hb
  | httpClose => exact (h.keeps (keeps_untrack s _ _)).closeOrFree
  | closeInvalid | executeRefused | retryRefused | ownerSame | ownerRefused => exact h
  | @httpExecute id a =>
    exact (hmodify (b := a) (f := fun r => { r with inEventThread := true }) fun _ hr => hr).keeps
      (keeps_of_eq rfl rfl)
  | setRetry => exact hmodify fun _ hr => hr
  | setOwner =>
    refine CancelsClosed.keeps ?_ (keeps_track _ _ _)
    exact (h.keeps (keeps_untrack s _ _)).keeps (keeps_modify _ fun _ hr => hr)
  | @pluginUnloaded ctx ids =>
    have hclear : Keeps s (s.clearPluginSet ctx) := keeps_of_eq rfl rfl
    exact (h.keeps (hclear.trans (keeps_detachHandles _ ids))).keeps (keeps_of_eq rfl rfl)
  | clientDisconnecting | taskStale | gameFrame => exact h.keeps (keeps_of_eq rfl rfl)
  | taskUnload => exact ((hwork _).keeps (keeps_untrack _ _ _)).closeOrFree
  | taskDisconnect => exact (hwork _).closeOrFree
  | @deliver a =>
    exact (hmodify (b := a) (f := fun r => { r with
      inEventThread := false
      curlcode := if r.handleClosed then HttpRequest.curleAbortedByCallback else r.curlcode })
      fun _ hr => hr).keeps (keeps_of_eq rfl rfl)
  | release =>
    exact ((h.keeps (keeps_untrack s _ _)).keeps (keeps_freeHandle _ _)).keeps (keeps_of_eq rfl rfl)
  | event _ hmove => exact h.keeps hmove.keeps

theorem cancel_frame (hcancel : s.onAsyncCancel = some s')
    (hhit : (a ∈ s.curlMulti ∧ a ∉ s'.curlMulti) ∨ s.doneQueue.count a < s'.doneQueue.count a) :
    a ∈ s.cancelQueue := by
  unfold State.onAsyncCancel at hcancel
  split at hcancel
  · cases hcancel
  case h_2 b rest hqueue =>
    by_cases hab : a = b
    · rw [hqueue, hab]
      exact mem_cons_self
    · exfalso
      have hother : forall t : State, t.doneQueue.count a = s.doneQueue.count a ->
          (a ∈ s.curlMulti -> a ∈ t.curlMulti) -> t = s' -> False := by
        intro t hdone hmulti ht
        subst ht
        rcases hhit with ⟨hin, hout⟩ | hmore
        · exact hout (hmulti hin)
        · omega
      dsimp only at hcancel
      split at hcancel
      · cases hcancel
        exact hother (s.dropCancel rest) rfl (fun h => h) rfl
      have hcount : List.count a [b] = 0 := count_eq_zero.mpr (by simpa using hab)
      split at hcancel
      · cases hcancel
        refine hother ((((s.dropCancel rest).dropTimer b).clearRetryWait b).complete b) ?_
          (fun h => h) rfl
        simp [State.complete, State.clearRetryWait, State.modify, State.dropTimer,
          State.dropCancel, count_append, hcount]
      cases hcancel
      refine hother _ ?_ (fun h => ?_) rfl
      · simp [State.complete, State.clearRetryWait, State.modify, State.removeTransfer,
          State.dropCancel, count_append, hcount]
      · exact (mem_erase_of_ne hab).mpr h

theorem CancelsClosed.hitsClosed (h : CancelsClosed s) : CancelHitsClosed s :=
  fun _ hcancel a hhit => h a (cancel_frame hcancel hhit)

end

/-- In every run in which no new request is placed where a cancel entry still
points, a cancellation only ever hits requests whose own handle is closed. -/
theorem cancelHitsClosed_of_reaches {s : State}
    (h : Reaches system (fun s action => ¬ TakesCancelledAddress s action) s) :
    CancelHitsClosed s := by
  refine (h.invariant CancelsClosed ?_ ?_).hitsClosed
  · intro a ha
    cases ha
  · intro _ _ _ hinv hallowed hstep
    exact cancelsClosed_step hinv hallowed hstep

/-- Closing a request during its retry wait leaves an entry that hits that
request. -/
theorem cancelledRetry_hitsClosed :
    exists s, system.run (cancelledRetry.take 6) State.init = some s ∧
      s.cancelQueue = [64] ∧ CancelHitsClosed s :=
  ⟨_, rfl, rfl, cancelHitsClosed_of_reaches
    (reaches_of_run (cancelledRetry.take 6) .init (by decide) rfl)⟩

/-- The request at address 64 completes, is closed before the frame that
delivers it, and is freed; a new request takes its address and is started before
the cancel entry is served. -/
def reusedAddress : List Action :=
  [.httpNew 1 64 1, .httpExecute 1, .asyncAdd, .transferDone 64 ⟨0, 200⟩, .httpClose 1,
    .gameFrame, .deliver, .release, .httpNew 1 64 2, .httpExecute 2, .asyncAdd]

/-- The stale entry cancels the new request, whose handle is open. -/
theorem reusedAddress_hitsOpen :
    exists s, Reaches system (fun _ _ => True) s ∧ ¬ CancelHitsClosed s := by
  refine ⟨_, reaches_of_run reusedAddress .init (by decide) rfl, ?_⟩
  intro h
  exact absurd (h _ rfl 64 (Or.inl ⟨by decide, by decide⟩)) (by decide)

end Async2.Http
