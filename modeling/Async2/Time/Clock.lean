import Mathlib.Data.List.Chain

/-!
# The anchored clock

Times are computed from the monotonic clock and an offset to the wall clock, which is checked
every ten seconds.  If the wall clock has moved by more than half a second the clock snaps to
it, also if that is before the last time.  Times are milliseconds that fit into an `int64`.
-/

namespace Async2.Time

open List

def syncIntervalMs : Int := 10000

def snapThresholdMs : Int := 500

/-- What a call reads; the wall clock is only read by a sync. -/
structure Reading where
  mono : Int
  real : Int

structure Clock where
  offset : Int
  lastReturned : Int
  lastSyncMono : Int

namespace Clock

def init (r : Reading) : Clock := ⟨r.real - r.mono, r.real, r.mono⟩

/-- The monotonicity guard and what `GetAnchoredTimeMs` returns. -/
def guarded (c : Clock) (candidate : Int) : Int × Clock :=
  let c := if candidate > c.lastReturned then { c with lastReturned := candidate } else c
  (c.lastReturned, c)

def getAnchoredTimeMs (c : Clock) (r : Reading) : Int × Clock :=
  let candidate := r.mono + c.offset
  if r.mono - c.lastSyncMono >= syncIntervalMs then
    let c := { c with lastSyncMono := r.mono }
    let drift := r.real - candidate
    if drift > snapThresholdMs ∨ drift < -snapThresholdMs then
      -- Big change: snap
      guarded { c with offset := r.real - r.mono, lastReturned := r.real } r.real
    else if drift > 0 then
      -- Behind the wall clock: re-anchor forward
      guarded { c with offset := r.real - r.mono } r.real
    else guarded c candidate
  else guarded c candidate

def times : List Reading -> Clock -> List Int
  | [], _ => []
  | r :: rest, c => (c.getAnchoredTimeMs r).1 :: times rest (c.getAnchoredTimeMs r).2

/-!
## Steps
-/

/-- A sync finds the wall clock before the last time, and too far behind to be ignored. -/
def SnapsBack (c : Clock) (r : Reading) : Prop :=
  r.mono - c.lastSyncMono >= syncIntervalMs ∧ r.real < r.mono + c.offset - snapThresholdMs ∧
    r.real < c.lastReturned

instance (c : Clock) (r : Reading) : Decidable (SnapsBack c r) :=
  inferInstanceAs (Decidable (_ ∧ _))

/-- The call checks the offset. -/
def Resyncs (c : Clock) (r : Reading) : Prop := r.mono - c.lastSyncMono >= syncIntervalMs

instance (c : Clock) (r : Reading) : Decidable (Resyncs c r) := Int.decLe _ _

/-- The last time belongs to the last reading of the monotonic clock. -/
def Anchored (c : Clock) (mono : Int) : Prop := c.lastReturned = mono + c.offset

section

variable {c : Clock} {mono : Int} {r : Reading}

theorem guarded_of_le {candidate : Int} (hle : c.lastReturned <= candidate) :
    c.guarded candidate = (candidate, { c with lastReturned := candidate }) := by
  unfold guarded
  by_cases hlt : candidate > c.lastReturned
  · rw [if_pos hlt]
  · cases Int.le_antisymm hle (Int.not_lt.mp hlt)
    rw [if_neg hlt]

/-- A call keeps the anchor, and returns less than the one before exactly if it snaps back.  It
returns a time near to the wall clock or adds the time that has passed. -/
theorem Anchored.step (h : Anchored c mono) (hmono : mono <= r.mono) :
    Anchored (c.getAnchoredTimeMs r).2 r.mono ∧
      (c.getAnchoredTimeMs r).1 = (c.getAnchoredTimeMs r).2.lastReturned ∧
      (c.lastReturned <= (c.getAnchoredTimeMs r).1 <-> ¬ SnapsBack c r) ∧
      (Resyncs c r -> -500 <= (c.getAnchoredTimeMs r).1 - r.real ∧
        (c.getAnchoredTimeMs r).1 - r.real <= 500) ∧
      (¬ Resyncs c r -> (c.getAnchoredTimeMs r).1 - c.lastReturned = r.mono - mono) := by
  unfold Anchored at h ⊢
  unfold getAnchoredTimeMs SnapsBack Resyncs
  dsimp only
  have hnext : c.lastReturned <= r.mono + c.offset := by omega
  split
  case isTrue hsync =>
    split
    case isTrue hsnap =>
      rw [guarded_of_le (Int.le_refl _)]
      unfold snapThresholdMs at hsnap ⊢
      dsimp only
      omega
    case isFalse hnear =>
      unfold snapThresholdMs at hnear ⊢
      split
      case isTrue hbehind =>
        have hle : c.lastReturned <= r.real := by omega
        rw [guarded_of_le]
        · dsimp only
          omega
        · exact hle
      rw [guarded_of_le]
      · dsimp only
        omega
      · exact hnext
  case isFalse hsync =>
    rw [guarded_of_le hnext]
    dsimp only
    omega

/-!
## Runs
-/

/-- No call of the run snaps back. -/
def NeverSnapsBack : List Reading -> Clock -> Prop
  | [], _ => True
  | r :: rest, c => ¬ SnapsBack c r ∧ NeverSnapsBack rest (c.getAnchoredTimeMs r).2

/-- No call after the first one snaps back. -/
def NeverSnapsBackAfter (c : Clock) : List Reading -> Prop
  | [] => True
  | r :: rest => NeverSnapsBack rest (c.getAnchoredTimeMs r).2

theorem Anchored.times (readings : List Reading) (h : Anchored c mono)
    (hmono : (mono :: readings.map Reading.mono).IsChain (· <= ·)) :
    (c.lastReturned :: c.times readings).IsChain (· <= ·) <-> NeverSnapsBack readings c := by
  induction readings generalizing c mono with
  | nil => exact iff_of_true (isChain_singleton _) trivial
  | cons r rest ih =>
    rw [map_cons, isChain_cons_cons] at hmono
    rcases h.step hmono.left with ⟨hanchored, hreturned, hle, _⟩
    rw [Clock.times, isChain_cons_cons, hle, hreturned, ih hanchored hmono.right]
    rfl

end

/-- Times go back exactly if the clock snaps back. -/
theorem times_nondecreasing_iff (start : Reading) (readings : List Reading)
    (hmono : (start.mono :: readings.map Reading.mono).IsChain (· <= ·)) :
    ((init start).times readings).IsChain (· <= ·) <->
      (init start).NeverSnapsBackAfter readings := by
  cases readings with
  | nil => exact iff_of_true List.isChain_nil trivial
  | cons r rest =>
    have hinit : Anchored (init start) start.mono := by
      unfold Anchored init
      dsimp only
      omega
    rw [List.map_cons, List.isChain_cons_cons] at hmono
    rcases hinit.step hmono.left with ⟨hanchored, hreturned, _⟩
    rw [Clock.times, hreturned]
    exact hanchored.times rest hmono.right

/-!
## The wall clock
-/

def after (readings : List Reading) (c : Clock) : Clock :=
  readings.foldl (fun c r => (c.getAnchoredTimeMs r).2) c

theorem Anchored.after (readings : List Reading) {c : Clock} {mono : Int} {last : Reading}
    (h : Anchored c mono)
    (hmono : (mono :: (readings ++ [last]).map Reading.mono).IsChain (· <= ·)) :
    exists mono', Anchored (c.after readings) mono' ∧ mono' <= last.mono := by
  induction readings generalizing c mono with
  | nil => exact ⟨mono, h, (isChain_cons_cons.mp hmono).left⟩
  | cons r rest ih =>
    rw [cons_append, map_cons, isChain_cons_cons] at hmono
    exact ih (h.step hmono.left).left hmono.right

/-- When the offset was checked last, by the readings of the monotonic clock. -/
def lastSync : List Reading -> Int -> Int
  | [], mono => mono
  | r :: rest, mono => lastSync rest (if r.mono - mono >= syncIntervalMs then r.mono else mono)

theorem lastSyncMono_guarded (c : Clock) (candidate : Int) :
    (c.guarded candidate).2.lastSyncMono = c.lastSyncMono := by
  unfold guarded
  dsimp only
  split <;> rfl

theorem lastSyncMono_getAnchoredTimeMs (c : Clock) (r : Reading) :
    (c.getAnchoredTimeMs r).2.lastSyncMono =
      if r.mono - c.lastSyncMono >= syncIntervalMs then r.mono else c.lastSyncMono := by
  unfold getAnchoredTimeMs
  dsimp only
  split
  · split
    · exact lastSyncMono_guarded _ _
    · split <;> exact lastSyncMono_guarded _ _
  · exact lastSyncMono_guarded _ _

theorem lastSyncMono_after (readings : List Reading) (c : Clock) :
    (c.after readings).lastSyncMono = lastSync readings c.lastSyncMono := by
  induction readings generalizing c with
  | nil => rfl
  | cons r rest ih =>
    rw [lastSync, ← lastSyncMono_getAnchoredTimeMs]
    exact ih _

/-- The clock knows when it checked the offset last.  A call that checks it returns a time near
to the wall clock, and the next call adds the time that has passed unless it checks the
offset. -/
theorem times_track_wall_clock (start : Reading) (readings : List Reading) (r next : Reading)
    (hmono : (start.mono :: (readings ++ [r]).map Reading.mono).IsChain (· <= ·))
    (hnext : r.mono <= next.mono) :
    let c := (init start).after readings
    c.lastSyncMono = lastSync readings start.mono ∧
      (Resyncs c r -> -500 <= (c.getAnchoredTimeMs r).1 - r.real ∧
        (c.getAnchoredTimeMs r).1 - r.real <= 500) ∧
      (¬ Resyncs (c.getAnchoredTimeMs r).2 next ->
        ((c.getAnchoredTimeMs r).2.getAnchoredTimeMs next).1 - (c.getAnchoredTimeMs r).1 =
          next.mono - r.mono) := by
  have hinit : Anchored (init start) start.mono := by
    unfold Anchored init
    dsimp only
    omega
  rcases hinit.after readings hmono with ⟨mono, hc, hle⟩
  rcases hc.step hle with ⟨hanchored, hreturned, _, hnear, _⟩
  refine ⟨lastSyncMono_after _ _, hnear, ?_⟩
  rw [hreturned]
  exact (hanchored.step hnext).right.right.right.right

theorem times_track_ahead :
    ((init ⟨0, 0⟩).after [⟨5000, 5000⟩]).Resyncs ⟨12000, 12300⟩ ∧
      (((init ⟨0, 0⟩).after [⟨5000, 5000⟩]).getAnchoredTimeMs ⟨12000, 12300⟩).1 - 12300 <= 500 :=
  ⟨by decide, ((times_track_wall_clock ⟨0, 0⟩ [⟨5000, 5000⟩] ⟨12000, 12300⟩ ⟨13000, 0⟩
    (by decide) (by decide)).right.left (by decide)).right⟩

/-- The wall clock is a little ahead. -/
def driftingReadings : List Reading := [⟨5000, 5000⟩, ⟨12000, 12300⟩]

theorem times_nondecreasing_drifting : ((init ⟨0, 0⟩).times driftingReadings).IsChain (· <= ·) :=
  (times_nondecreasing_iff ⟨0, 0⟩ driftingReadings (by decide)).mpr ⟨by decide, trivial⟩

/-- The wall clock is set back by a minute. -/
theorem time_goes_back :
    exists start readings, (start.mono :: readings.map Reading.mono).IsChain (· <= ·) ∧
      (init start).times readings = [65000, 12000] :=
  ⟨⟨0, 60000⟩, [⟨5000, 65000⟩, ⟨12000, 12000⟩], by decide, by decide⟩

end Clock

end Async2.Time
