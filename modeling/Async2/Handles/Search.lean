import Async2.Handles.Manager

/-!
# The search for a handle id

The distance from the start of a search to an id is counted on the circle of all ids.  A
search goes through the ids in the order of their distance.
-/

namespace Async2.Handles

/-- How far an id is behind the start of a search. -/
def distance (start id : HandleId) : Nat := (id - start).toNat

variable {start id y : HandleId} {used : HandleId -> Bool} {candidate : HandleId}

theorem distance_lt (start id : HandleId) : distance start id < 2 ^ 32 := (id - start).isLt

theorem distance_self (start : HandleId) : distance start start = 0 := by
  unfold distance
  rw [BitVec.sub_self]
  rfl

theorem distance_inj (h : distance start id = distance start y) : id = y := by
  unfold distance at h
  bv_omega

theorem distance_succ (h : id + 1 ≠ start) : distance start (id + 1) = distance start id + 1 := by
  unfold distance
  bv_omega

theorem distance_last (h : id + 1 = start) : distance start id + 1 = 2 ^ 32 := by
  unfold distance
  bv_omega

/-- The ids that a search passes are 0 or in use. -/
def Passed (used : HandleId -> Bool) (start id : HandleId) : Prop :=
  forall y, distance start y < distance start id -> y = 0 ∨ used y = true

section

variable (h : Passed used start id) (hid : id = 0 ∨ used id = true)
include h hid

theorem Passed.succ (hne : id + 1 ≠ start) : Passed used start (id + 1) := by
  intro y hy
  rw [distance_succ hne] at hy
  rcases Nat.lt_succ_iff_lt_or_eq.mp hy with hlt | heq
  · exact h y hlt
  · rw [distance_inj heq]
    exact hid

theorem Passed.all (hend : id + 1 = start) (y : HandleId) : y = 0 ∨ used y = true := by
  have hlast := distance_last hend
  have hy := distance_lt start y
  rcases Nat.lt_or_eq_of_le (Nat.le_of_lt_succ (hlast.symm ▸ hy)) with hlt | heq
  · exact h y hlt
  · rw [distance_inj heq]
    exact hid

end

/-- What the result of a search says. -/
structure Found (used : HandleId -> Bool) (start id : HandleId) : Prop where
  full : id = 0 -> forall y, y = 0 ∨ used y = true
  unused : id ≠ 0 -> used id = false
  passed : id ≠ 0 -> Passed used start id

theorem Passed.skip (hstart : start = 1 -> used 1 = false) (hpassed : Passed used start candidate) :
    exists c, c ≠ 0 ∧ (if candidate = 0 then 1 else candidate) = c ∧ Passed used start c ∧
      (used c = true -> distance start candidate <= distance start c) := by
  by_cases hzero : candidate = 0
  · subst hzero
    by_cases hone : (0 : HandleId) + 1 = start
    · have hone : start = 1 := hone.symm
      subst hone
      refine ⟨1, by decide, if_pos rfl, fun y hy => ?_, fun hused => ?_⟩
      · rw [distance_self] at hy
        cases hy
      · rw [hstart rfl] at hused
        cases hused
    · refine ⟨0 + 1, by decide, if_pos rfl, hpassed.succ (.inl rfl) hone, fun _ => ?_⟩
      rw [distance_succ hone]
      exact Nat.le_succ _
  · exact ⟨candidate, hzero, if_neg hzero, hpassed, fun _ => Nat.le_refl _⟩

/-- A search ends with a right result.  Where it starts at 1, this id is not in use: after 0
it would go on with 1 and never come back to its start. -/
theorem scan_found (hstart : start = 1 -> used 1 = false) (fuel : Nat)
    (hpassed : Passed used start candidate) (hfuel : 2 ^ 32 <= distance start candidate + fuel) :
    exists id, scan used start fuel candidate = some id ∧ Found used start id := by
  induction fuel generalizing candidate with
  | zero =>
    have hlt := distance_lt start candidate
    omega
  | succ fuel ih =>
    rcases hpassed.skip hstart with ⟨c, hc, hcandidate, hpassedc, hle⟩
    rw [scan]
    simp only [hcandidate]
    split
    case isTrue hunused =>
      exact ⟨c, rfl, ⟨fun hzero => absurd hzero hc, fun _ => hunused, fun _ => hpassedc⟩⟩
    case isFalse hused =>
      have hused : used c = true := Bool.eq_true_of_not_eq_false hused
      split
      case isTrue hend =>
        exact ⟨0, rfl, ⟨fun _ => hpassedc.all (.inr hused) hend, fun h => absurd rfl h,
          fun h => absurd rfl h⟩⟩
      case isFalse hne =>
        apply ih (hpassedc.succ (.inr hused) hne)
        have hmore := hle hused
        rw [distance_succ hne]
        omega

theorem search_found (used : HandleId -> Bool) (start : HandleId)
    (hstart : start = 1 -> used 1 = false) :
    exists id, scan used start HandleManager.searchFuel start = some id ∧ Found used start id := by
  apply scan_found hstart
  · intro y hy
    rw [distance_self] at hy
    cases hy
  · rw [distance_self]
    exact Nat.le_of_eq (Nat.zero_add _).symm

theorem scan_unused {fuel : Nat} (hscan : scan used start fuel candidate = some id) (hid : id ≠ 0) :
    used id = false := by
  induction fuel generalizing candidate with
  | zero => cases hscan
  | succ fuel ih =>
    rw [scan] at hscan
    generalize (if candidate = 0 then 1 else candidate) = c at hscan
    split at hscan
    case isTrue hunused =>
      cases hscan
      exact hunused
    split at hscan
    · cases hscan
      exact absurd rfl hid
    · exact ih hscan

end Async2.Handles
