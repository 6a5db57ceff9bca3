import Async2.Http.Phase

/-!
# The handlers move requests between phases

Each handler moves the request that it treats from one phase to another and
leaves every other request in its phase.
-/

namespace Async2.Http

open List HttpRequest

/-!
## Effects at the treated address
-/

section

variable (s : State) {a : Address}

theorem profile_setCurlcode (code : Int) : profile (s.setCurlcode a code) a = profile s a := by
  simp [profile, State.setCurlcode, State.modify]

theorem profile_prepareForRetry :
    profile (s.modify a prepareForRetry) a =
      { profile s a with inRetryWait := true, completed := false } := by
  simp [profile, State.modify, prepareForRetry]

theorem profile_clearRetryWait :
    profile (s.clearRetryWait a) a = { profile s a with inRetryWait := false } := by
  simp [profile, State.clearRetryWait, State.modify]

theorem profile_complete :
    profile (s.complete a) a =
      { profile s a with
        active := (profile s a).active - 1
        done := (profile s a).done + 1
        pushed := (profile s a).pushed + 1
        completed := true } := by
  simp [profile, State.complete, State.modify]

theorem profile_takePending {rest : List Address} (hqueue : s.pendingQueue = a :: rest)
    (hactive : (profile s a).active = 0) :
    profile (s.takePending a rest) a =
      { profile s a with
        pending := (profile s a).pending - 1
        active := 1 } := by
  have hnot : a ∉ s.activeHttpRequests := count_eq_zero.mp hactive
  simp [profile, State.takePending, hqueue, hnot, count_eq_zero_of_not_mem]

theorem profile_startTransfer (hmulti : (profile s a).multi = 0) :
    profile (s.startTransfer a) a = { profile s a with multi := 1 } := by
  have hnot : a ∉ s.curlMulti := count_eq_zero.mp hmulti
  simp [profile, State.startTransfer, hnot, count_eq_zero_of_not_mem]

theorem profile_removeTransfer :
    profile (s.removeTransfer a) a = { profile s a with multi := (profile s a).multi - 1 } := by
  simp [profile, State.removeTransfer]

theorem profile_armTimer (htimers : (profile s a).timers = 0) :
    profile (s.armTimer a) a = { profile s a with timers := 1 } := by
  have hnot : a ∉ s.retryTimers := count_eq_zero.mp htimers
  simp [profile, State.armTimer, hnot, count_eq_zero_of_not_mem]

theorem profile_dropTimer :
    profile (s.dropTimer a) a = { profile s a with timers := (profile s a).timers - 1 } := by
  simp [profile, State.dropTimer]

theorem profile_enqueueRequest :
    profile (s.enqueueRequest a) a =
      { profile s a with
        pending := (profile s a).pending + 1
        executed := true
        inEventThread := true } := by
  simp [profile, State.enqueueRequest, State.modify]

end

/-!
## Event thread
-/

section

variable {s s' : State} {a : Address} {rest : List Address} {ph : Phase}

theorem Phase.Starts.done {n : Nat} {r : Int} (h : ph.Starts n r) : Phase.done.Starts n r := by
  cases ph <;> simp only [Phase.Starts] at h ⊢ <;> omega

theorem InPhase.complete (h : InPhase s a ph)
    (hprofile : profile (s'.complete a) a = Phase.done.profile)
    (hkept : s'.starts a = s.starts a ∧ (s'.mem a).retryCount = (s.mem a).retryCount ∧
      (s'.mem a).maxRetries = (s.mem a).maxRetries) : InPhase (s'.complete a) a .done where
  profile_eq := hprofile
  starts_ok := by
    simpa [State.complete, State.modify, hkept] using h.starts_ok.done
  retries_ok := by
    simpa [RetriesBounded, State.complete, State.modify, hkept] using h.retries_ok

section

variable (h : InPhase s a .pending) (hqueue : s.pendingQueue = a :: rest)
include h hqueue

theorem InPhase.add_closed : InPhase ((s.takePending a rest).complete a) a .done := by
  refine h.complete ?_ ⟨rfl, rfl, rfl⟩
  rw [profile_complete, profile_takePending s hqueue (congrArg Profile.active h.profile_eq),
    h.profile_eq]
  rfl

theorem InPhase.add_start : InPhase ((s.takePending a rest).startTransfer a) a .running where
  profile_eq := by
    have hprofile := h.profile_eq
    have htake := profile_takePending s hqueue (by rw [hprofile]; rfl)
    rw [hprofile] at htake
    rw [profile_startTransfer _ (by rw [htake]; rfl), htake]
    rfl
  starts_ok := by
    have hstarts := h.starts_ok
    simp [State.startTransfer, State.takePending, Phase.Starts] at hstarts ⊢
    omega
  retries_ok := h.retries_ok

end

/-- The result code is stored on the way; no phase depends on it. -/
theorem InPhase.transfer_complete (h : InPhase s a .running) (code : Int) :
    InPhase (((s.removeTransfer a).setCurlcode a code).complete a) a .done := by
  refine h.complete ?_ (by simp [State.setCurlcode, State.modify, State.removeTransfer])
  rw [profile_complete, profile_setCurlcode, profile_removeTransfer, h.profile_eq]
  rfl

theorem HttpRequest.retryCount_lt_of_shouldRetry {r : HttpRequest} {httpcode : Int}
    (h : r.shouldRetry httpcode = true) (hmax : 0 <= r.maxRetries) :
    r.retryCount < r.maxRetries := by
  by_contra hcount
  have hstop : r.maxRetries = 0 ∨ (r.maxRetries > 0 ∧ r.retryCount >= r.maxRetries) := by
    omega
  simp [shouldRetry, hstop] at h

theorem InPhase.transfer_retry (h : InPhase s a .running) (code httpcode : Int)
    (hretry : (((s.removeTransfer a).setCurlcode a code).mem a).shouldRetry httpcode = true) :
    InPhase ((((s.removeTransfer a).setCurlcode a code).modify a
      prepareForRetry).armTimer a) a .waiting where
  profile_eq := by
    have hprepare := profile_prepareForRetry (a := a) ((s.removeTransfer a).setCurlcode a code)
    rw [profile_setCurlcode, profile_removeTransfer, h.profile_eq] at hprepare
    rw [profile_armTimer _ (by rw [hprepare]; rfl), hprepare]
    rfl
  starts_ok := by
    have hstarts := h.starts_ok
    simp [State.armTimer, State.setCurlcode, State.modify, State.removeTransfer,
      Phase.Starts, prepareForRetry] at hstarts ⊢
    omega
  retries_ok := by
    have hbound := retryCount_lt_of_shouldRetry hretry
    have hretries := h.retries_ok
    simp [RetriesBounded, State.armTimer, State.setCurlcode, State.modify,
      State.removeTransfer, prepareForRetry] at hbound hretries ⊢
    omega

theorem InPhase.timer_closed (h : InPhase s a .waiting) :
    InPhase (((s.dropTimer a).clearRetryWait a).complete a) a .done := by
  refine h.complete ?_ (by simp [State.clearRetryWait, State.modify, State.dropTimer])
  rw [profile_complete, profile_clearRetryWait, profile_dropTimer, h.profile_eq]
  rfl

theorem InPhase.timer_start (h : InPhase s a .waiting) :
    InPhase (((s.dropTimer a).clearRetryWait a).startTransfer a) a .running where
  profile_eq := by
    have hclear := profile_clearRetryWait (a := a) (s.dropTimer a)
    rw [profile_dropTimer, h.profile_eq] at hclear
    rw [profile_startTransfer _ (by rw [hclear]; rfl), hclear]
    rfl
  starts_ok := by
    have hstarts := h.starts_ok
    simp [State.startTransfer, State.clearRetryWait, State.modify, State.dropTimer,
      Phase.Starts] at hstarts ⊢
    omega
  retries_ok := by
    simpa [RetriesBounded, State.startTransfer, State.clearRetryWait, State.modify,
      State.dropTimer] using h.retries_ok

theorem InPhase.cancel_running (h : InPhase s a .running) :
    InPhase (((s.removeTransfer a).clearRetryWait a).complete a) a .done := by
  refine h.complete ?_ (by simp [State.clearRetryWait, State.modify, State.removeTransfer])
  rw [profile_complete, profile_clearRetryWait, profile_removeTransfer, h.profile_eq]
  rfl

end

/-!
## What an event-thread step can do
-/

inductive EventMove (s : State) : State -> Prop where
  | addClosed {a : Address} {rest : List Address} (hqueue : s.pendingQueue = a :: rest)
      (hclosed : (s.mem a).handleClosed = true) :
      EventMove s ((s.takePending a rest).complete a)
  | addStart {a : Address} {rest : List Address} (hqueue : s.pendingQueue = a :: rest) :
      EventMove s ((s.takePending a rest).startTransfer a)
  | cancelStale {a : Address} {rest : List Address} (hqueue : s.cancelQueue = a :: rest)
      (hactive : a ∉ s.activeHttpRequests) :
      EventMove s (s.dropCancel rest)
  | cancelWaiting {a : Address} {rest : List Address} (hqueue : s.cancelQueue = a :: rest)
      (hactive : a ∈ s.activeHttpRequests) (hwait : (s.mem a).inRetryWait = true) :
      EventMove s ((((s.dropCancel rest).dropTimer a).clearRetryWait a).complete a)
  | cancelRunning {a : Address} {rest : List Address} (hqueue : s.cancelQueue = a :: rest)
      (hactive : a ∈ s.activeHttpRequests) (hwait : (s.mem a).inRetryWait = false) :
      EventMove s ((((s.dropCancel rest).removeTransfer a).clearRetryWait a).complete a)
  | transferComplete {a : Address} (hmulti : a ∈ s.curlMulti) (code : Int) :
      EventMove s (((s.removeTransfer a).setCurlcode a code).complete a)
  | transferRetry {a : Address} (hmulti : a ∈ s.curlMulti) (code httpcode : Int)
      (hretry : (((s.removeTransfer a).setCurlcode a code).mem a).shouldRetry httpcode =
        true) :
      EventMove s ((((s.removeTransfer a).setCurlcode a code).modify a
        HttpRequest.prepareForRetry).armTimer a)
  | timerStale {a : Address} (htimer : a ∈ s.retryTimers)
      (hcompleted : (s.mem a).completed = true) :
      EventMove s (s.dropTimer a)
  | timerClosed {a : Address} (htimer : a ∈ s.retryTimers) :
      EventMove s (((s.dropTimer a).clearRetryWait a).complete a)
  | timerStart {a : Address} (htimer : a ∈ s.retryTimers) :
      EventMove s (((s.dropTimer a).clearRetryWait a).startTransfer a)

section

variable {s s' : State} {a : Address}

theorem eventMove_of_onAsyncAdd (h : s.onAsyncAdd = some s') : EventMove s s' := by
  unfold State.onAsyncAdd at h
  split at h
  · cases h
  case h_2 a rest hqueue =>
    dsimp only at h
    split at h
    case isTrue hclosed =>
      cases h
      exact .addClosed hqueue hclosed
    cases h
    exact .addStart hqueue

theorem eventMove_of_onAsyncCancel (h : s.onAsyncCancel = some s') : EventMove s s' := by
  unfold State.onAsyncCancel at h
  split at h
  · cases h
  case h_2 a rest hqueue =>
    dsimp only at h
    split at h
    case isTrue hactive =>
      cases h
      exact .cancelStale hqueue hactive
    case isFalse hactive =>
      have hmem : a ∈ s.activeHttpRequests := Decidable.not_not.mp hactive
      by_cases hwait : ((s.dropCancel rest).mem a).inRetryWait = true
      · rw [if_pos hwait] at h
        cases h
        exact .cancelWaiting hqueue hmem hwait
      · rw [if_neg hwait] at h
        cases h
        exact .cancelRunning hqueue hmem (Bool.eq_false_iff.mpr hwait)

theorem eventMove_of_checkCompletedJobs {result : HttpRequest.Result}
    (h : s.checkCompletedJobs a result = some s') : EventMove s s' := by
  unfold State.checkCompletedJobs at h
  split at h
  · cases h
  case isFalse hmulti =>
    have hmem : a ∈ s.curlMulti := Decidable.not_not.mp hmulti
    dsimp only at h
    split at h
    case isTrue hretry =>
      cases h
      exact .transferRetry hmem _ _ hretry
    cases h
    exact .transferComplete hmem _

theorem eventMove_of_onRetryTimer (h : s.onRetryTimer a = some s') : EventMove s s' := by
  unfold State.onRetryTimer at h
  split at h
  · cases h
  case isFalse htimer =>
    have hmem : a ∈ s.retryTimers := Decidable.not_not.mp htimer
    dsimp only at h
    split at h
    case isTrue hcompleted =>
      cases h
      exact .timerStale hmem hcompleted
    split at h
    · cases h
      exact .timerClosed hmem
    cases h
    exact .timerStart hmem

end

/-!
## Properties that the moves carry along

A property of an address and its phase is tracked when every move of either
thread takes it to the next phase.
-/

structure Tracking (P : State -> Address -> Phase -> Prop) : Prop where
  located : forall {s a ph}, P s a ph -> Located s a ph
  frame : forall {s s' a ph}, P s a ph -> Same s s' a -> P s' a ph
  -- event thread
  add_closed : forall {s a rest}, P s a .pending -> s.pendingQueue = a :: rest ->
    P ((s.takePending a rest).complete a) a .done
  add_start : forall {s a rest}, P s a .pending -> s.pendingQueue = a :: rest ->
    P ((s.takePending a rest).startTransfer a) a .running
  transfer_complete : forall {s a}, P s a .running -> forall code,
    P (((s.removeTransfer a).setCurlcode a code).complete a) a .done
  transfer_retry : forall {s a}, P s a .running -> forall code httpcode,
    (((s.removeTransfer a).setCurlcode a code).mem a).shouldRetry httpcode = true ->
    P ((((s.removeTransfer a).setCurlcode a code).modify a
      HttpRequest.prepareForRetry).armTimer a) a .waiting
  timer_closed : forall {s a}, P s a .waiting ->
    P (((s.dropTimer a).clearRetryWait a).complete a) a .done
  timer_start : forall {s a}, P s a .waiting ->
    P (((s.dropTimer a).clearRetryWait a).startTransfer a) a .running
  cancel_running : forall {s a}, P s a .running ->
    P (((s.removeTransfer a).clearRetryWait a).complete a) a .done
  -- game thread
  enqueue : forall {s a}, P s a .idle -> P (s.enqueueRequest a) a .pending
  discard : forall {s s' a}, P s a .idle ->
    profile s' a = { profile s a with live := false } -> s'.starts a = s.starts a ->
    s'.mem a = s.mem a -> P s' a .discarded
  drain : forall {s a ph}, P s a ph -> s.drained = [] -> exists ph', P s.drainCompleted a ph'
  start_callback : forall {s a rest}, P s a .drained -> s.drained = a :: rest ->
    P (s.startCallback a rest) a .delivering
  release : forall {s s' a}, P s a .delivering ->
    profile s' a = { profile s a with live := false, delivering := false } ->
    s'.starts a = s.starts a -> s'.mem a = s.mem a -> P s' a .gone

variable {P : State -> Address -> Phase -> Prop} {s s' : State}

theorem EventMove.tracked (hP : Tracking P) (hmove : EventMove s s')
    (hall : forall a, exists ph, P s a ph) (b : Address) : exists ph, P s' b ph := by
  rcases hall b with ⟨ph, hph⟩
  cases hmove with
  | @addClosed a rest hqueue hclosed =>
    by_cases hb : b = a
    · subst hb
      cases (hP.located hph).eq_pending (by simp [hqueue])
      exact ⟨.done, hP.add_closed hph hqueue⟩
    · exact ⟨ph, hP.frame hph ((same_takePending s hb hqueue).trans (same_complete _ hb))⟩
  | @addStart a rest hqueue =>
    by_cases hb : b = a
    · subst hb
      cases (hP.located hph).eq_pending (by simp [hqueue])
      exact ⟨.running, hP.add_start hph hqueue⟩
    · exact ⟨ph, hP.frame hph
        ((same_takePending s hb hqueue).trans (same_startTransfer _ hb))⟩
  | @cancelStale a rest hqueue hactive =>
    exact ⟨ph, hP.frame hph (same_dropCancel s rest)⟩
  | @cancelWaiting a rest hqueue hactive hwait =>
    have hdrop := hP.frame hph (same_dropCancel s rest)
    by_cases hb : b = a
    · subst hb
      cases (hP.located hdrop).eq_waiting_of_flag hactive hwait
      exact ⟨.done, hP.timer_closed hdrop⟩
    · exact ⟨ph, hP.frame hdrop (((same_dropTimer _ hb).trans
        (same_modify _ hb _)).trans (same_complete _ hb))⟩
  | @cancelRunning a rest hqueue hactive hwait =>
    have hdrop := hP.frame hph (same_dropCancel s rest)
    by_cases hb : b = a
    · subst hb
      cases (hP.located hdrop).eq_running_of_flag hactive hwait
      exact ⟨.done, hP.cancel_running hdrop⟩
    · exact ⟨ph, hP.frame hdrop (((same_removeTransfer _ hb).trans
        (same_modify _ hb _)).trans (same_complete _ hb))⟩
  | @transferComplete a hmulti code =>
    by_cases hb : b = a
    · subst hb
      cases (hP.located hph).eq_running hmulti
      exact ⟨.done, hP.transfer_complete hph code⟩
    · exact ⟨ph, hP.frame hph (((same_removeTransfer s hb).trans
        (same_modify _ hb _)).trans (same_complete _ hb))⟩
  | @transferRetry a hmulti code httpcode hretry =>
    by_cases hb : b = a
    · subst hb
      cases (hP.located hph).eq_running hmulti
      exact ⟨.waiting, hP.transfer_retry hph code httpcode hretry⟩
    · exact ⟨ph, hP.frame hph ((((same_removeTransfer s hb).trans
        (same_modify _ hb _)).trans (same_modify _ hb _)).trans (same_armTimer _ hb))⟩
  | @timerStale a htimer hcompleted =>
    -- A request with an armed timer is not completed.
    rcases hall a with ⟨ph', hph'⟩
    cases (hP.located hph').eq_waiting htimer
    have hflag : (s.mem a).completed = false :=
      congrArg Profile.completed (hP.located hph')
    exact absurd (hcompleted.symm.trans hflag) (by decide)
  | @timerClosed a htimer =>
    by_cases hb : b = a
    · subst hb
      cases (hP.located hph).eq_waiting htimer
      exact ⟨.done, hP.timer_closed hph⟩
    · exact ⟨ph, hP.frame hph (((same_dropTimer s hb).trans
        (same_modify _ hb _)).trans (same_complete _ hb))⟩
  | @timerStart a htimer =>
    by_cases hb : b = a
    · subst hb
      cases (hP.located hph).eq_waiting htimer
      exact ⟨.running, hP.timer_start hph⟩
    · exact ⟨ph, hP.frame hph (((same_dropTimer s hb).trans
        (same_modify _ hb _)).trans (same_startTransfer _ hb))⟩

end Async2.Http
