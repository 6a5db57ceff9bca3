import Async2.Http.Step

/-!
# The phases of a request

Seen from one request, the two threads run a small machine: the request waits in
the pending queue, its transfer runs, it may wait for a retry, it is pushed to
the done queue, handed to the game thread, delivered and freed.  A phase fixes
how often the address occurs in each queue and set and what the flags are.
-/

namespace Async2.Http

open Function List

/-- What the state holds about one address: occurrences and flags. -/
@[ext] structure Profile where
  pending : Nat := 0
  active : Nat := 0
  multi : Nat := 0
  timers : Nat := 0
  done : Nat := 0
  drained : Nat := 0
  pushed : Nat := 0
  delivered : Nat := 0
  used : Bool := true
  executed : Bool := true
  live : Bool := true
  delivering : Bool := false
  inEventThread : Bool := true
  inRetryWait : Bool := false
  completed : Bool := false

def profile (s : State) (a : Address) : Profile where
  pending := s.pendingQueue.count a
  active := s.activeHttpRequests.count a
  multi := s.curlMulti.count a
  timers := s.retryTimers.count a
  done := s.doneQueue.count a
  drained := s.drained.count a
  pushed := s.pushed.count a
  delivered := s.delivered.count a
  used := s.used a
  executed := s.executed a
  live := s.live a
  delivering := s.delivering == some a
  inEventThread := (s.mem a).inEventThread
  inRetryWait := (s.mem a).inRetryWait
  completed := (s.mem a).completed

inductive Phase where
  /-- The address was never handed out. -/
  | unused
  /-- Created and not executed. -/
  | idle
  | pending
  /-- In `curl_multi`. -/
  | running
  /-- Waiting for a retry. -/
  | waiting
  | done
  /-- Handed to the game thread, before its callback. -/
  | drained
  /-- In its callback. -/
  | delivering
  /-- Freed after its callback. -/
  | gone
  /-- Freed without having been executed. -/
  | discarded

namespace Phase

def profile : Phase -> Profile
  | .unused => { used := false, executed := false, live := false, inEventThread := false }
  | .idle => { executed := false, inEventThread := false }
  | .pending => { pending := 1 }
  | .running => { active := 1, multi := 1 }
  | .waiting => { active := 1, timers := 1, inRetryWait := true }
  | .done => { done := 1, pushed := 1, completed := true }
  | .drained => { drained := 1, pushed := 1, delivered := 1, completed := true }
  | .delivering =>
    { pushed := 1, delivered := 1, delivering := true, inEventThread := false,
      completed := true }
  | .gone =>
    { pushed := 1, delivered := 1, live := false, inEventThread := false,
      completed := true }
  | .discarded => { executed := false, live := false, inEventThread := false }

/-- How often the transfer was started, against the retries that are counted. -/
def Starts (starts : Nat) (retryCount : Int) : Phase -> Prop
  | .unused | .idle | .pending | .discarded => starts = 0 ∧ retryCount = 0
  | .running => (starts : Int) = retryCount + 1
  | .waiting => (starts : Int) = retryCount
  | .done | .drained | .delivering | .gone => (starts : Int) <= retryCount + 1

end Phase

/-- The retries that are counted stay within the limit, if there is one. -/
def RetriesBounded (r : HttpRequest) : Prop :=
  0 <= r.retryCount ∧ (0 <= r.maxRetries -> r.retryCount <= r.maxRetries)

structure InPhase (s : State) (a : Address) (ph : Phase) : Prop where
  profile_eq : profile s a = ph.profile
  starts_ok : ph.Starts (s.starts a) (s.mem a).retryCount
  retries_ok : RetriesBounded (s.mem a)

/-- A profile without the record of the past. -/
def Profile.core (p : Profile) : Profile :=
  { p with pushed := 0, delivered := 0, used := true, executed := true }

/-- The address is where the phase puts it; how it got there is left open. -/
def Located (s : State) (a : Address) (ph : Phase) : Prop :=
  (profile s a).core = ph.profile.core

variable {a : Address} {ph : Phase} {s s' : State}

theorem InPhase.located (h : InPhase s a ph) : Located s a ph :=
  congrArg Profile.core h.profile_eq

def Phased (s : State) (a : Address) : Prop := exists ph : Phase, InPhase s a ph

/-!
## Steps that leave an address alone
-/

/-- Everything that a phase is about is the same in both states. -/
structure Same (s s' : State) (a : Address) : Prop where
  profile_eq : profile s' a = profile s a
  starts_eq : s'.starts a = s.starts a
  retryCount_eq : (s'.mem a).retryCount = (s.mem a).retryCount
  maxRetries_eq : (s'.mem a).maxRetries = (s.mem a).maxRetries

theorem Same.refl (s : State) (a : Address) : Same s s a :=
  ⟨rfl, rfl, rfl, rfl⟩

theorem Same.trans {t u : State} (hst : Same s t a) (htu : Same t u a) : Same s u a where
  profile_eq := htu.profile_eq.trans hst.profile_eq
  starts_eq := htu.starts_eq.trans hst.starts_eq
  retryCount_eq := htu.retryCount_eq.trans hst.retryCount_eq
  maxRetries_eq := htu.maxRetries_eq.trans hst.maxRetries_eq

theorem InPhase.frame (h : InPhase s a ph) (hsame : Same s s' a) : InPhase s' a ph where
  profile_eq := hsame.profile_eq.trans h.profile_eq
  starts_ok := by
    rw [hsame.starts_eq, hsame.retryCount_eq]
    exact h.starts_ok
  retries_ok := by
    have hretries := h.retries_ok
    unfold RetriesBounded at hretries ⊢
    rwa [hsame.retryCount_eq, hsame.maxRetries_eq]

theorem Located.frame (h : Located s a ph) (hprofile : profile s' a = profile s a) :
    Located s' a ph := by
  unfold Located
  rw [hprofile]
  exact h

section

variable (s : State) {a b : Address}

omit s in
theorem count_insert_of_ne (hb : b ≠ a) (l : List Address) : (l.insert a).count b = l.count b := by
  by_cases ha : a ∈ l
  · rw [insert_of_mem ha]
  · rw [insert_of_not_mem ha, count_cons_of_ne (Ne.symm hb)]

theorem same_modify (hb : b ≠ a) (f : HttpRequest -> HttpRequest) : Same s (s.modify a f) b := by
  constructor <;> simp [profile, State.modify, update_of_ne hb]

theorem same_complete (hb : b ≠ a) : Same s (s.complete a) b := by
  have hcount : List.count b [a] = 0 := count_eq_zero.mpr (by simpa using hb)
  constructor <;>
    simp [profile, State.complete, State.modify, update_of_ne hb,
      count_append, hcount, count_erase_of_ne hb]

theorem same_startTransfer (hb : b ≠ a) : Same s (s.startTransfer a) b := by
  constructor <;>
    simp [profile, State.startTransfer, update_of_ne hb, count_insert_of_ne hb]

theorem same_removeTransfer (hb : b ≠ a) : Same s (s.removeTransfer a) b := by
  constructor <;> simp [profile, State.removeTransfer, count_erase_of_ne hb]

theorem same_takePending (hb : b ≠ a) {rest : List Address}
    (hqueue : s.pendingQueue = a :: rest) : Same s (s.takePending a rest) b := by
  constructor <;>
    simp [profile, State.takePending, hqueue, count_insert_of_ne hb, count_cons_of_ne (Ne.symm hb)]

theorem same_armTimer (hb : b ≠ a) : Same s (s.armTimer a) b := by
  constructor <;> simp [profile, State.armTimer, count_insert_of_ne hb]

theorem same_dropTimer (hb : b ≠ a) : Same s (s.dropTimer a) b := by
  constructor <;> simp [profile, State.dropTimer, count_erase_of_ne hb]

theorem same_dropCancel (rest : List Address) : Same s (s.dropCancel rest) b :=
  ⟨rfl, rfl, rfl, rfl⟩

theorem same_enqueueRequest (hb : b ≠ a) : Same s (s.enqueueRequest a) b := by
  have hcount : List.count b [a] = 0 := count_eq_zero.mpr (by simpa using hb)
  constructor <;>
    simp [profile, State.enqueueRequest, State.modify, update_of_ne hb, count_append, hcount]

theorem same_cancelRequest : Same s (s.cancelRequest a) b :=
  ⟨rfl, rfl, rfl, rfl⟩

theorem same_untrackClientHandle (client : Client) (id : HandleId) :
    Same s (s.untrackClientHandle client id) b := by
  unfold State.untrackClientHandle
  split <;> exact ⟨rfl, rfl, rfl, rfl⟩

theorem same_trackClientHandle (client : Client) (id : HandleId) :
    Same s (s.trackClientHandle client id) b := by
  unfold State.trackClientHandle
  split <;> exact ⟨rfl, rfl, rfl, rfl⟩

theorem same_markHandleClosed (id : HandleId) : Same s (s.markHandleClosed id) b := by
  unfold State.markHandleClosed
  split <;> exact ⟨rfl, rfl, rfl, rfl⟩

end

/-!
## Where an address is found

One occurrence decides the phase.
-/

variable {s : State} {a : Address} {ph : Phase}

theorem pos_of_mem {n : Nat} {l : List Address} (ha : a ∈ l) (hcount : l.count a = n) : 0 < n :=
  hcount ▸ count_pos_iff.mpr ha

theorem Located.eq_pending (h : Located s a ph) (ha : a ∈ s.pendingQueue) : ph = .pending := by
  have hpos := pos_of_mem ha (congrArg Profile.pending h)
  cases ph with
  | pending => rfl
  | _ => exact absurd hpos (by decide)

theorem Located.eq_running (h : Located s a ph) (ha : a ∈ s.curlMulti) : ph = .running := by
  have hpos := pos_of_mem ha (congrArg Profile.multi h)
  cases ph with
  | running => rfl
  | _ => exact absurd hpos (by decide)

theorem Located.mem_curlMulti (h : Located s a .running) : a ∈ s.curlMulti := by
  have hcount : s.curlMulti.count a = 1 := congrArg Profile.multi h
  apply count_pos_iff.mp
  rw [hcount]
  exact Nat.one_pos

section

variable (h : Located s a ph)
include h

theorem Located.eq_waiting (ha : a ∈ s.retryTimers) : ph = .waiting := by
  have hpos := pos_of_mem ha (congrArg Profile.timers h)
  cases ph with
  | waiting => rfl
  | _ => exact absurd hpos (by decide)

section

variable (ha : a ∈ s.activeHttpRequests)
include ha

theorem Located.eq_of_active : ph = .running ∨ ph = .waiting := by
  have hpos := pos_of_mem ha (congrArg Profile.active h)
  cases ph with
  | running => exact .inl rfl
  | waiting => exact .inr rfl
  | _ => exact absurd hpos (by decide)

theorem Located.eq_waiting_of_flag (hwait : (s.mem a).inRetryWait = true) : ph = .waiting := by
  have hflag : (s.mem a).inRetryWait = ph.profile.inRetryWait := congrArg Profile.inRetryWait h
  rw [hwait] at hflag
  rcases h.eq_of_active ha with rfl | rfl
  · cases hflag
  · rfl

theorem Located.eq_running_of_flag (hwait : (s.mem a).inRetryWait = false) : ph = .running := by
  have hflag : (s.mem a).inRetryWait = ph.profile.inRetryWait := congrArg Profile.inRetryWait h
  rw [hwait] at hflag
  rcases h.eq_of_active ha with rfl | rfl
  · rfl
  · cases hflag

end

theorem Located.eq_done (ha : a ∈ s.doneQueue) : ph = .done := by
  have hpos := pos_of_mem ha (congrArg Profile.done h)
  cases ph with
  | done => rfl
  | _ => exact absurd hpos (by decide)

theorem Located.eq_drained (ha : a ∈ s.drained) : ph = .drained := by
  have hpos := pos_of_mem ha (congrArg Profile.drained h)
  cases ph with
  | drained => rfl
  | _ => exact absurd hpos (by decide)

theorem Located.eq_delivering (ha : s.delivering = some a) : ph = .delivering := by
  have hflag : (s.delivering == some a) = ph.profile.delivering :=
    congrArg Profile.delivering h
  rw [ha, beq_self_eq_true] at hflag
  cases ph with
  | delivering => rfl
  | _ => cases hflag

theorem Located.live_eq : s.live a = ph.profile.live :=
  congrArg Profile.live h

theorem Located.eq_idle (hlive : s.live a = true) (hthread : (s.mem a).inEventThread = false)
    (hcallback : s.delivering ≠ some a) : ph = .idle := by
  have hflag : ph.profile.live = true := h.live_eq.symm.trans hlive
  have hin : ph.profile.inEventThread = false :=
    (congrArg Profile.inEventThread h).symm.trans hthread
  have hnot : ph.profile.delivering = false := by
    refine (congrArg Profile.delivering h).symm.trans ?_
    simpa [profile, Profile.core] using hcallback
  cases ph with
  | idle => rfl
  | unused | gone | discarded => exact absurd hflag (by decide)
  | delivering => exact absurd hnot (by decide)
  | _ => exact absurd hin (by decide)

end

theorem InPhase.eq_unused (h : InPhase s a ph) (hused : s.used a = false) : ph = .unused := by
  have hflag : ph.profile.used = false := by
    rw [← h.profile_eq]
    exact hused
  cases ph with
  | unused => rfl
  | _ => exact absurd hflag (by decide)

end Async2.Http
