import Async2.Http.Game

/-!
# Requests are conserved and completed once

In every run whose requests have identities of their own and whose callbacks
leave their own request alone, an executed request is always in exactly one
place, reaches the done queue at most once and is started no more often than its
retries allow, and the counters say what they are meant to say.
-/

namespace Async2.Http

open TransitionSystem List Profile

/-!
## Orderly runs
-/

/-- The address was handed out before. -/
def ReusesAddress (s : State) : Action -> Prop
  | .httpNew _ a _ => s.used a = true
  | _ => False

instance (s : State) : DecidablePred (ReusesAddress s) := by
  rintro ⟨⟩ <;> dsimp only [ReusesAddress] <;> infer_instance

/-- The action uses the request `a`. -/
def Uses (s : State) (a : Address) : Action -> Prop
  | .httpClose id | .httpExecute id | .setRetry id _ | .setOwner id _ =>
    s.getHttpRequest id = some a
  | .pluginUnloaded _ ids => (s.mem a).handleId ∈ ids
  | .clientDisconnecting client => (s.mem a).handleId ∈ s.clientHandles client
  | _ => False

instance (s : State) (a : Address) : DecidablePred (Uses s a) := by
  rintro ⟨⟩ <;> dsimp only [Uses] <;> infer_instance

/-- A new request gets an identity of its own, and a callback does not use the
request that it is called for. -/
def Orderly (s : State) (action : Action) : Prop :=
  ¬ ReusesAddress s action ∧ forall a, a ∈ s.delivering -> ¬ Uses s a action

instance (s : State) (action : Action) : Decidable (Orderly s action) :=
  inferInstanceAs (Decidable (_ ∧ forall a, a ∈ s.delivering -> ¬ Uses s a action))

/-!
## Counters
-/

/-- The counters agree with the queues, as values of their type. -/
structure Counted (s : State) : Prop where
  pending_eq : s.statsPending = Int32.ofNat s.pendingQueue.length
  active_eq : s.statsActive = Int32.ofNat s.curlMulti.length
  completed_eq : s.statsCompleted = Int32.ofNat s.pushed.length

section

variable {s s' : State} {a : Address}

section

variable (h : Counted s)
include h

theorem Counted.complete : Counted (s.complete a) where
  pending_eq := h.pending_eq
  active_eq := h.active_eq
  completed_eq := by
    change s.statsCompleted + 1 = Int32.ofNat (s.pushed ++ [a]).length
    rw [h.completed_eq, length_append, length_singleton, Int32.ofNat_add]
    rfl

theorem Counted.takePending {rest : List Address} (hqueue : s.pendingQueue = a :: rest) :
    Counted (s.takePending a rest) where
  pending_eq := by
    have hpending := h.pending_eq
    rw [hqueue, length_cons, Int32.ofNat_add] at hpending
    change s.statsPending - 1 = Int32.ofNat rest.length
    rw [hpending]
    exact Int32.add_sub_cancel _ 1
  active_eq := h.active_eq
  completed_eq := h.completed_eq

theorem Counted.enqueueRequest : Counted (s.enqueueRequest a) where
  pending_eq := by
    change s.statsPending + 1 = Int32.ofNat (s.pendingQueue ++ [a]).length
    rw [h.pending_eq, length_append, length_singleton, Int32.ofNat_add]
    rfl
  active_eq := h.active_eq
  completed_eq := h.completed_eq

theorem Counted.startTransfer (ha : a ∉ s.curlMulti) : Counted (s.startTransfer a) where
  pending_eq := h.pending_eq
  active_eq := by
    change s.statsActive + 1 = Int32.ofNat (s.curlMulti.insert a).length
    rw [h.active_eq, insert_of_not_mem ha, length_cons, Int32.ofNat_add]
    rfl
  completed_eq := h.completed_eq

theorem Counted.removeTransfer (ha : a ∈ s.curlMulti) : Counted (s.removeTransfer a) where
  pending_eq := h.pending_eq
  active_eq := by
    have hlength := length_erase_add_one ha
    have hactive := h.active_eq
    rw [← hlength, Int32.ofNat_add] at hactive
    change s.statsActive - 1 = Int32.ofNat (s.curlMulti.erase a).length
    rw [hactive]
    exact Int32.add_sub_cancel _ 1
  completed_eq := h.completed_eq

end

theorem EventMove.counted (hmove : EventMove s s') (hall : forall a, Phased s a)
    (h : Counted s) : Counted s' := by
  cases hmove with
  | addClosed hqueue => exact (h.takePending hqueue).complete
  | @addStart a rest hqueue =>
    obtain ⟨ph, hph⟩ := hall a
    refine (h.takePending hqueue).startTransfer fun ha => ?_
    cases hph.located.eq_pending (by simp [hqueue])
    cases hph.located.eq_running ha
  | cancelStale | timerStale => exact ⟨h.pending_eq, h.active_eq, h.completed_eq⟩
  | @cancelWaiting a rest =>
    have hdrop : Counted (((s.dropCancel rest).dropTimer a).clearRetryWait a) :=
      ⟨h.pending_eq, h.active_eq, h.completed_eq⟩
    exact hdrop.complete
  | @cancelRunning a rest hqueue hactive hwait =>
    have hdrop : Counted (s.dropCancel rest) :=
      ⟨h.pending_eq, h.active_eq, h.completed_eq⟩
    obtain ⟨ph, hph⟩ := hall a
    cases hph.located.eq_running_of_flag hactive hwait
    have hremove := hdrop.removeTransfer hph.located.mem_curlMulti
    have hclear : Counted (((s.dropCancel rest).removeTransfer a).clearRetryWait a) :=
      ⟨hremove.pending_eq, hremove.active_eq, hremove.completed_eq⟩
    exact hclear.complete
  | @transferComplete a hmulti code =>
    have hremove := h.removeTransfer hmulti
    have hcode : Counted ((s.removeTransfer a).setCurlcode a code) :=
      ⟨hremove.pending_eq, hremove.active_eq, hremove.completed_eq⟩
    exact hcode.complete
  | transferRetry hmulti =>
    have hremove := h.removeTransfer hmulti
    exact ⟨hremove.pending_eq, hremove.active_eq, hremove.completed_eq⟩
  | @timerClosed a =>
    have hdrop : Counted ((s.dropTimer a).clearRetryWait a) :=
      ⟨h.pending_eq, h.active_eq, h.completed_eq⟩
    exact hdrop.complete
  | @timerStart a htimer =>
    have hdrop : Counted ((s.dropTimer a).clearRetryWait a) :=
      ⟨h.pending_eq, h.active_eq, h.completed_eq⟩
    obtain ⟨ph, hph⟩ := hall a
    refine hdrop.startTransfer fun ha => ?_
    cases hph.located.eq_waiting htimer
    cases hph.located.eq_running ha

/-- Everything that is counted is the same in both states. -/
structure SameCounts (s s' : State) : Prop where
  statsPending_eq : s'.statsPending = s.statsPending
  pendingQueue_eq : s'.pendingQueue = s.pendingQueue
  statsActive_eq : s'.statsActive = s.statsActive
  curlMulti_eq : s'.curlMulti = s.curlMulti
  statsCompleted_eq : s'.statsCompleted = s.statsCompleted
  pushed_eq : s'.pushed = s.pushed

theorem SameCounts.refl (s : State) : SameCounts s s :=
  ⟨rfl, rfl, rfl, rfl, rfl, rfl⟩

theorem SameCounts.trans {t u : State} (hst : SameCounts s t) (htu : SameCounts t u) :
    SameCounts s u where
  statsPending_eq := htu.statsPending_eq.trans hst.statsPending_eq
  pendingQueue_eq := htu.pendingQueue_eq.trans hst.pendingQueue_eq
  statsActive_eq := htu.statsActive_eq.trans hst.statsActive_eq
  curlMulti_eq := htu.curlMulti_eq.trans hst.curlMulti_eq
  statsCompleted_eq := htu.statsCompleted_eq.trans hst.statsCompleted_eq
  pushed_eq := htu.pushed_eq.trans hst.pushed_eq

theorem Counted.frame (h : Counted s) (hsame : SameCounts s s') : Counted s' where
  pending_eq := by
    rw [hsame.statsPending_eq, hsame.pendingQueue_eq]
    exact h.pending_eq
  active_eq := by
    rw [hsame.statsActive_eq, hsame.curlMulti_eq]
    exact h.active_eq
  completed_eq := by
    rw [hsame.statsCompleted_eq, hsame.pushed_eq]
    exact h.completed_eq

theorem sameCounts_untrack (s : State) (client : Client) (id : HandleId) :
    SameCounts s (s.untrackClientHandle client id) := by
  rw [untrack_eq]
  exact ⟨rfl, rfl, rfl, rfl, rfl, rfl⟩

theorem sameCounts_track (s : State) (client : Client) (id : HandleId) :
    SameCounts s (s.trackClientHandle client id) := by
  unfold State.trackClientHandle
  split <;> exact ⟨rfl, rfl, rfl, rfl, rfl, rfl⟩

theorem sameCounts_freeHandle (s : State) (id : HandleId) : SameCounts s (s.freeHandle id) := by
  unfold State.freeHandle
  split
  · exact SameCounts.refl s
  case h_2 h _ =>
    cases howner : h.owner with
    | none | some owner => exact ⟨rfl, rfl, rfl, rfl, rfl, rfl⟩

theorem sameCounts_closeOrFree (s : State) (id : HandleId) (a : Address) :
    SameCounts s (s.closeOrFree id a) := by
  unfold State.closeOrFree
  split
  · unfold State.markHandleClosed
    dsimp only
    split <;> exact ⟨rfl, rfl, rfl, rfl, rfl, rfl⟩
  · exact sameCounts_freeHandle s id

theorem sameCounts_detachHandles (s : State) (ids : List HandleId) :
    SameCounts s (s.detachHandles ids).1 := by
  induction ids generalizing s with
  | nil => exact SameCounts.refl s
  | cons id rest ih =>
    unfold State.detachHandles
    split
    · exact ih s
    case h_2 h _ =>
      have hdetach : SameCounts s (s.detachHandle id h) := ⟨rfl, rfl, rfl, rfl, rfl, rfl⟩
      exact hdetach.trans (ih _)

end

/-!
## The invariant
-/

/-- The invariant of orderly runs. -/
structure Inv (s : State) : Prop where
  consistent : Consistent s
  counted : Counted s

theorem inv_init : Inv State.init where
  counted := ⟨rfl, rfl, rfl⟩
  consistent :=
    { phased := fun _ => ⟨.unused, rfl, ⟨rfl, rfl⟩, Int.le_refl 0, fun _ => Int.le_refl 0⟩
      table :=
        { handle_live := fun _ _ h => by cases h
          live_handle := fun _ h => by cases h
          plugin_nodup := fun _ => nodup_nil
          tasks := tasksOk_nil _ } }

section

variable {s s' : State} {action : Action}

theorem Counted.stepped (h : Counted s) (hall : forall a, Phased s a)
    (hstep : Stepped s action s') : Counted s' := by
  have hsame : forall {t : State}, SameCounts t s' -> SameCounts s t -> Counted s' :=
    fun ht hs => h.frame (hs.trans ht)
  cases hstep with
  | httpExecute => exact h.enqueueRequest
  | event _ hmove => exact hmove.counted hall h
  | closeInvalid | executeRefused | retryRefused | ownerSame | ownerRefused => exact h
  | httpNew | setRetry | clientDisconnecting | taskStale | gameFrame | deliver =>
    exact ⟨h.pending_eq, h.active_eq, h.completed_eq⟩
  | httpClose => exact hsame (sameCounts_closeOrFree _ _ _) (sameCounts_untrack _ _ _)
  | setOwner =>
    refine hsame (sameCounts_track _ _ _) ?_
    rw [untrack_eq]
    exact ⟨rfl, rfl, rfl, rfl, rfl, rfl⟩
  | @pluginUnloaded ctx ids =>
    have hclear : SameCounts s (s.clearPluginSet ctx) := ⟨rfl, rfl, rfl, rfl, rfl, rfl⟩
    exact hsame (t := ((s.clearPluginSet ctx).detachHandles ids).1) ⟨rfl, rfl, rfl, rfl, rfl, rfl⟩
      (hclear.trans (sameCounts_detachHandles _ ids))
  | taskUnload =>
    refine hsame (sameCounts_closeOrFree _ _ _) ?_
    rw [untrack_eq]
    exact ⟨rfl, rfl, rfl, rfl, rfl, rfl⟩
  | taskDisconnect =>
    exact hsame (sameCounts_closeOrFree _ _ _) ⟨rfl, rfl, rfl, rfl, rfl, rfl⟩
  | release =>
    have hend : forall t : State, SameCounts t t.endCallback :=
      fun _ => ⟨rfl, rfl, rfl, rfl, rfl, rfl⟩
    exact hsame (hend _) ((sameCounts_untrack s _ _).trans (sameCounts_freeHandle _ _))

theorem inv_step (h : Inv s) (horderly : Orderly s action) (hstep : step action s = some s') :
    Inv s' := by
  have hstepped := stepped_of_step hstep
  refine ⟨(h.consistent.kept.stepped inPhase_tracking (fun a hcallback hends => ?_) ?_ ?_
    hstepped).consistent, h.counted.stepped h.consistent.phased hstepped⟩
  · refine horderly.2 a hcallback ?_
    cases action <;> first | exact hends | exact hends.elim
  · rintro ctx a id rfl -
    rcases h.consistent.phased a with ⟨ph, hph⟩
    cases hph.eq_unused (Bool.eq_false_iff.mpr horderly.1)
    exact hph.allocated ctx
  · rintro id n a rfl hget hthread
    have hidle := h.consistent.kept.idle inPhase_tracking (pointerOf_of_getHttpRequest hget)
      hthread fun hcallback => horderly.2 a hcallback hget
    exact h.consistent.kept.moved inPhase_tracking (hidle.setMaxRetries n)
      (fun b hb => same_modify s hb _)
      (h.consistent.table.frame (sameTable_modify s fun _ => rfl))

theorem inv_of_reaches (h : Reaches system Orderly s) : Inv s :=
  h.invariant Inv inv_init fun _ _ _ hinv horderly hstep => inv_step hinv horderly hstep

end

/-!
## Conservation
-/

/-- The places where an executed request can be. -/
inductive Place where
  | pendingQueue
  | curlMulti
  | retryWait
  | doneQueue
  | delivered

def State.At (s : State) (a : Address) : Place -> Prop
  | .pendingQueue => a ∈ s.pendingQueue
  | .curlMulti => a ∈ s.curlMulti
  | .retryWait => (s.mem a).inRetryWait = true
  | .doneQueue => a ∈ s.doneQueue
  | .delivered => a ∈ s.delivered

/-- Executed requests are neither lost nor duplicated. -/
structure Conserved (s : State) : Prop where
  one_place : forall a, s.executed a = true ->
    exists p, s.At a p ∧ forall q, s.At a q -> q = p
  no_duplicates : forall a, s.pendingQueue.count a <= 1 ∧ s.curlMulti.count a <= 1 ∧
    s.doneQueue.count a <= 1 ∧ s.delivered.count a <= 1
  pushed_once : forall a, s.pushed.count a <= 1
  starts_bounded : forall a, s.executed a = true -> 0 <= (s.mem a).maxRetries ->
    (s.starts a : Int) <= 1 + (s.mem a).maxRetries
  counted : Counted s
  timers : forall a, a ∈ s.retryTimers -> (s.mem a).inRetryWait = true

/-- The place of an executed request in each of its phases. -/
def Phase.place : Phase -> Option Place
  | .unused | .idle | .discarded => none
  | .pending => some .pendingQueue
  | .running => some .curlMulti
  | .waiting => some .retryWait
  | .done => some .doneQueue
  | .drained | .delivering | .gone => some .delivered

section

variable {s : State} {a : Address} {ph : Phase}

variable (h : InPhase s a ph)
include h

theorem InPhase.at_iff (p : Place) : s.At a p <-> ph.place = some p := by
  have hpending : a ∈ s.pendingQueue <-> 0 < ph.profile.pending := by
    rw [← h.profile_eq]
    exact count_pos_iff.symm
  have hmulti : a ∈ s.curlMulti <-> 0 < ph.profile.multi := by
    rw [← h.profile_eq]
    exact count_pos_iff.symm
  have hwait : (s.mem a).inRetryWait = true <-> ph.profile.inRetryWait = true := by
    rw [← h.profile_eq]
    rfl
  have hdone : a ∈ s.doneQueue <-> 0 < ph.profile.done := by
    rw [← h.profile_eq]
    exact count_pos_iff.symm
  have hdelivered : a ∈ s.delivered <-> 0 < ph.profile.delivered := by
    rw [← h.profile_eq]
    exact count_pos_iff.symm
  cases p with
  | pendingQueue =>
    refine hpending.trans ?_
    cases ph <;> simp [Phase.profile, Phase.place]
  | curlMulti =>
    refine hmulti.trans ?_
    cases ph <;> simp [Phase.profile, Phase.place]
  | retryWait =>
    refine hwait.trans ?_
    cases ph <;> simp [Phase.profile, Phase.place]
  | doneQueue =>
    refine hdone.trans ?_
    cases ph <;> simp [Phase.profile, Phase.place]
  | delivered =>
    refine hdelivered.trans ?_
    cases ph <;> simp [Phase.profile, Phase.place]

theorem InPhase.place_isSome (hexecuted : s.executed a = true) : exists p, ph.place = some p := by
  have hflag : ph.profile.executed = true := by
    rw [← h.profile_eq]
    exact hexecuted
  cases ph <;> simp_all [Phase.profile, Phase.place]

theorem InPhase.counts_le :
    s.pendingQueue.count a <= 1 ∧ s.curlMulti.count a <= 1 ∧ s.doneQueue.count a <= 1 ∧
      s.delivered.count a <= 1 ∧ s.pushed.count a <= 1 := by
  have hpending : s.pendingQueue.count a = ph.profile.pending :=
    congrArg pending h.profile_eq
  have hmulti : s.curlMulti.count a = ph.profile.multi := congrArg multi h.profile_eq
  have hdone : s.doneQueue.count a = ph.profile.done := congrArg done h.profile_eq
  have hdelivered : s.delivered.count a = ph.profile.delivered :=
    congrArg delivered h.profile_eq
  have hpushed : s.pushed.count a = ph.profile.pushed := congrArg pushed h.profile_eq
  rw [hpending, hmulti, hdone, hdelivered, hpushed]
  cases ph <;> decide

theorem InPhase.starts_le (hmax : 0 <= (s.mem a).maxRetries) :
    (s.starts a : Int) <= 1 + (s.mem a).maxRetries := by
  have hstarts := h.starts_ok
  have hretries := h.retries_ok.2 hmax
  cases ph <;> simp only [Phase.Starts] at hstarts <;> omega

end

/-- In every run whose requests have identities of their own and whose callbacks
leave their own request alone, requests are conserved in every state. -/
theorem requests_conserved {s : State} (h : Reaches system Orderly s) : Conserved s := by
  have hinv := inv_of_reaches h
  constructor
  case one_place =>
    intro a hexecuted
    obtain ⟨ph, hph⟩ := hinv.consistent.phased a
    obtain ⟨p, hp⟩ := hph.place_isSome hexecuted
    refine ⟨p, (hph.at_iff p).mpr hp, ?_⟩
    intro q hq
    have hq' := (hph.at_iff q).mp hq
    rw [hp] at hq'
    cases hq'
    rfl
  case no_duplicates =>
    intro a
    obtain ⟨ph, hph⟩ := hinv.consistent.phased a
    obtain ⟨hpending, hmulti, hdone, hdelivered, -⟩ := hph.counts_le
    exact ⟨hpending, hmulti, hdone, hdelivered⟩
  case pushed_once =>
    intro a
    obtain ⟨ph, hph⟩ := hinv.consistent.phased a
    exact hph.counts_le.2.2.2.2
  case starts_bounded =>
    intro a _ hmax
    obtain ⟨ph, hph⟩ := hinv.consistent.phased a
    exact hph.starts_le hmax
  case counted => exact hinv.counted
  case timers =>
    intro a ha
    obtain ⟨ph, hph⟩ := hinv.consistent.phased a
    cases hph.located.eq_waiting ha
    exact congrArg Profile.inRetryWait hph.profile_eq

/-- A run with a retry that is closed during the wait, up to its delivery. -/
def cancelledRetry : List Action :=
  [.httpNew 1 64 1, .setRetry 1 3, .httpExecute 1, .asyncAdd, .transferDone 64 ⟨7, 0⟩,
    .httpClose 1, .retryTimer 64, .asyncCancel, .gameFrame, .deliver, .release]

theorem cancelledRetry_conserved :
    exists s, system.run cancelledRetry State.init = some s ∧ s.pushed = [64] ∧ Conserved s :=
  ⟨_, rfl, rfl, requests_conserved
    (reaches_of_run cancelledRetry .init (by decide) rfl)⟩

end Async2.Http
