import Mathlib.Algebra.Order.Ring.Nat
import Mathlib.Data.BitVec

/-!
# Timestamps

A timestamp is a 64-bit number in two 32-bit cells.  SourcePawn compares cells as signed numbers
only; the low words are compared as unsigned numbers after their sign bits are flipped.
-/

namespace Async2.Time

open BitVec

structure Timestamp where
  low : BitVec 32
  high : BitVec 32

def lessUnsigned (a b : BitVec 32) : Bool := (a ^^^ 0x80000000#32).slt (b ^^^ 0x80000000#32)

namespace Timestamp

/-- The number that the cells stand for. -/
def value (t : Timestamp) : BitVec 64 := t.high ++ t.low

def compare (t other : Timestamp) : Int :=
  if t.high.slt other.high then -1
  else if other.high.slt t.high then 1
  else if lessUnsigned t.low other.low then -1
  else if lessUnsigned other.low t.low then 1
  else 0

def addMs (t : Timestamp) (ms : BitVec 32) : Timestamp :=
  let low := t.low + ms
  if (0#32).sle ms then
    -- Positive add: carry if result wrapped
    { low, high := if lessUnsigned low t.low then t.high + 1 else t.high }
  else
    -- Negative add: borrow if result wrapped
    { low, high := if lessUnsigned t.low low then t.high - 1 else t.high }

/-- A loop of `AddSeconds`, with the seconds that are left at its end. -/
def addWhile (again : BitVec 32 -> Bool) (ms seconds : BitVec 32) :
    Nat -> Timestamp -> BitVec 32 -> Option (Timestamp × BitVec 32)
  | 0, _, _ => none
  | fuel + 1, t, left =>
    if again left then addWhile again ms seconds fuel (t.addMs ms) (left - seconds)
    else some (t, left)

def addSeconds (fuel : Nat) (t : Timestamp) (seconds : BitVec 32) : Option Timestamp := do
  let (t, left) ← addWhile (fun left => (1000000#32).slt left) 1000000000 1000000 fuel t seconds
  let (t, left) ←
    addWhile (fun left => left.slt (-1000000)) (-1000000000) (-1000000) fuel t left
  return t.addMs (left * 1000)

def sub (t other : Timestamp) : Timestamp where
  low := t.low - other.low
  high := t.high - other.high - if lessUnsigned t.low other.low then 1 else 0

def elapsedSeconds (t now : Timestamp) : BitVec 32 :=
  let lo := now.low - t.low
  let borrow : BitVec 32 := if lessUnsigned now.low t.low then 1 else 0
  let hi := now.high - t.high - borrow
  let loUnsignedDiv :=
    if lo.slt 0 then (lo - (-2147483648)).sdiv 1000 + 2147483 else lo.sdiv 1000
  hi * 4294967 + loUnsignedDiv

end Timestamp

/-!
## Words
-/

theorem toInt_flip (x : BitVec 32) : (x ^^^ 0x80000000#32).toInt = x.toNat - 2 ^ 31 := by
  have hmod : (x.toNat ^^^ 2 ^ 31) % 2 ^ 31 = x.toNat % 2 ^ 31 := by
    rw [Nat.xor_mod_two_pow, Nat.mod_self, Nat.xor_zero]
  have hdiv : (x.toNat ^^^ 2 ^ 31) / 2 ^ 31 = x.toNat / 2 ^ 31 ^^^ 1 := by
    rw [Nat.xor_div_two_pow, Nat.div_self (by decide)]
  have hlt := x.isLt
  rw [toInt_eq_toNat_cond, toNat_xor, show (0x80000000#32).toNat = 2 ^ 31 from rfl]
  have hbit : x.toNat / 2 ^ 31 = 0 ∨ x.toNat / 2 ^ 31 = 1 := by omega
  rcases hbit with hbit | hbit
  · rw [hbit, show 0 ^^^ 1 = 1 from rfl] at hdiv
    split <;> omega
  · rw [hbit, show 1 ^^^ 1 = 0 from rfl] at hdiv
    split <;> omega

theorem lessUnsigned_iff (a b : BitVec 32) : lessUnsigned a b = true <-> a.toNat < b.toNat := by
  unfold lessUnsigned
  rw [slt_iff_toInt_lt, toInt_flip, toInt_flip]
  omega

namespace Timestamp

theorem toNat_value (t : Timestamp) : t.value.toNat = t.high.toNat * 2 ^ 32 + t.low.toNat := by
  unfold value
  rw [toNat_append, ← Nat.shiftLeft_add_eq_or_of_lt t.low.isLt, Nat.shiftLeft_eq]

theorem toInt_value (t : Timestamp) : t.value.toInt = t.high.toInt * 2 ^ 32 + t.low.toNat := by
  have hlow := t.low.isLt
  rw [toInt_eq_toNat_cond, toInt_eq_toNat_cond, toNat_value]
  split <;> split <;> omega

/-!
## Arithmetic
-/

theorem value_addMs (t : Timestamp) (ms : BitVec 32) :
    (t.addMs ms).value = t.value + BitVec.ofInt 64 ms.toInt := by
  have hlow := t.low.isLt
  have hhigh := t.high.isLt
  have hms := ms.isLt
  apply eq_of_toNat_eq
  rw [toNat_add, toNat_ofInt, toNat_value, toNat_value]
  unfold addMs
  simp only [sle_iff_toInt_le, lessUnsigned_iff, toInt_zero]
  have hint := toInt_eq_toNat_cond ms
  have hadd := toNat_add t.low ms
  split at hint
  case isTrue hsmall =>
    rw [if_pos (by omega)]
    dsimp only
    split
    case isTrue hcarry =>
      rw [toNat_add t.high, show (1 : BitVec 32).toNat = 1 from rfl]
      omega
    case isFalse hcarry => omega
  case isFalse hbig =>
    rw [if_neg (by omega)]
    dsimp only
    split
    case isTrue hborrow =>
      rw [toNat_sub t.high, show (1 : BitVec 32).toNat = 1 from rfl]
      omega
    case isFalse hborrow => omega

theorem value_sub (t other : Timestamp) : (t.sub other).value = t.value - other.value := by
  have hlow := t.low.isLt
  have hhigh := t.high.isLt
  have hlow' := other.low.isLt
  have hhigh' := other.high.isLt
  apply eq_of_toNat_eq
  rw [toNat_sub, toNat_value, toNat_value, toNat_value]
  unfold sub
  simp only [lessUnsigned_iff]
  have hsub := toNat_sub t.low other.low
  have hsub' := toNat_sub t.high other.high
  split
  case isTrue hborrow =>
    rw [toNat_sub (t.high - other.high), show (1 : BitVec 32).toNat = 1 from rfl]
    omega
  case isFalse hborrow =>
    rw [show t.high - other.high - (0 : BitVec 32) = t.high - other.high from sub_zero _]
    omega

theorem compare_eq (t other : Timestamp) :
    t.compare other =
      if t.value.toInt < other.value.toInt then -1
      else if other.value.toInt < t.value.toInt then 1 else 0 := by
  have hlow := t.low.isLt
  have hlow' := other.low.isLt
  unfold compare
  simp only [slt_iff_toInt_lt, lessUnsigned_iff, toInt_value]
  split_ifs <;> omega

/-- A loop that takes whole steps of `seconds` off what is left keeps the sum. -/
theorem addWhile_eq (again : BitVec 32 -> Bool) (ms seconds : BitVec 32) (Inv : Int -> Prop)
    (hms : ms.toInt = 1000 * seconds.toInt)
    (hstep : forall left, again left = true ->
      (left - seconds).toInt = left.toInt - seconds.toInt ∧
        (left.toInt - seconds.toInt).natAbs / 1000000 < left.toInt.natAbs / 1000000 ∧
        Inv (left.toInt - seconds.toInt))
    (fuel : Nat) (t : Timestamp) {left : BitVec 32} (hfuel : left.toInt.natAbs / 1000000 < fuel)
    (hinv : Inv left.toInt) :
    exists t' left', addWhile again ms seconds fuel t left = some (t', left') ∧
      again left' = false ∧ Inv left'.toInt ∧
      t'.value + BitVec.ofInt 64 (1000 * left'.toInt) =
        t.value + BitVec.ofInt 64 (1000 * left.toInt) := by
  induction fuel generalizing t left with
  | zero => exact absurd hfuel (Nat.not_lt_zero _)
  | succ fuel ih =>
    rw [addWhile]
    cases hagain : again left with
    | false => exact ⟨t, left, rfl, hagain, hinv, rfl⟩
    | true =>
      rcases hstep left hagain with ⟨hleft, hless, hinv'⟩
      rw [← hleft] at hless hinv'
      rcases ih (t.addMs ms) (by omega) hinv' with ⟨t', left', hloop, hdone, hend, hvalue⟩
      refine ⟨t', left', hloop, hdone, hend, hvalue.trans ?_⟩
      rw [value_addMs, hleft, hms, add_assoc, ← ofInt_add]
      congr 2
      omega

theorem toInt_step (left seconds : BitVec 32)
    (h : 0 <= seconds.toInt ∧ seconds.toInt <= left.toInt ∨
      seconds.toInt <= 0 ∧ left.toInt <= seconds.toInt) :
    (left - seconds).toInt = left.toInt - seconds.toInt := by
  have hle := le_toInt left
  have hlt := toInt_lt (x := left)
  rw [toInt_sub, Int.bmod_eq_of_le (by omega) (by omega)]

theorem addSeconds_eq {fuel : Nat} (hfuel : 2148 <= fuel) (t : Timestamp) (seconds : BitVec 32) :
    exists t', t.addSeconds fuel seconds = some t' ∧
      t'.value = t.value + BitVec.ofInt 64 (1000 * seconds.toInt) := by
  have hbound : forall left : BitVec 32, left.toInt.natAbs / 1000000 < fuel := by
    intro left
    have hle := le_toInt left
    have hlt := toInt_lt (x := left)
    omega
  have hup : (1000000 : BitVec 32).toInt = 1000000 := rfl
  have hdown : (-1000000 : BitVec 32).toInt = -1000000 := rfl
  rcases addWhile_eq (fun left => (1000000#32).slt left) 1000000000 1000000 (fun _ => True)
    (by decide) (fun left hagain => by
      rw [slt_iff_toInt_lt] at hagain
      change (1000000 : Int) < left.toInt at hagain
      rw [toInt_step left _ (by omega), hup]
      exact ⟨rfl, by omega, trivial⟩) fuel t (hbound seconds) trivial
        with ⟨t1, left1, hloop1, hdone1, _, hvalue1⟩
  replace hdone1 := mt slt_iff_toInt_lt.mpr (Bool.eq_false_iff.mp hdone1)
  rcases addWhile_eq (fun left => left.slt (-1000000)) (-1000000000) (-1000000)
    (fun n => n <= 1000000) (by decide) (fun left hagain => by
      rw [slt_iff_toInt_lt, hdown] at hagain
      rw [toInt_step left _ (by omega), hdown]
      omega) fuel t1 (hbound left1) (Int.not_lt.mp hdone1)
        with ⟨t2, left2, hloop2, hdone2, hsmall, hvalue2⟩
  have hlow := Int.not_lt.mp (mt slt_iff_toInt_lt.mpr (Bool.eq_false_iff.mp hdone2))
  have hlast : (left2 * 1000).toInt = 1000 * left2.toInt := by
    rw [toInt_mul, show (1000 : BitVec 32).toInt = 1000 from rfl,
      Int.bmod_eq_of_le (by omega) (by omega), Int.mul_comm]
  refine ⟨t2.addMs (left2 * 1000), ?_, ?_⟩
  · unfold addSeconds
    rw [hloop1, Option.bind_eq_bind, Option.bind_some]
    dsimp only
    rw [hloop2]
    rfl
  · rw [value_addMs, hlast, hvalue2, hvalue1]

/-- The cells compute with 64-bit numbers. -/
theorem timestamps_are_int64 (a b : Timestamp) (n : BitVec 32) :
    (a.addMs n).value = a.value + BitVec.ofInt 64 n.toInt ∧
      (forall more, exists t, a.addSeconds (2148 + more) n = some t ∧
        t.value = a.value + BitVec.ofInt 64 (1000 * n.toInt)) ∧
      (a.sub b).value = a.value - b.value ∧
      a.compare b =
        if a.value.toInt < b.value.toInt then -1
        else if b.value.toInt < a.value.toInt then 1 else 0 :=
  ⟨value_addMs a n, fun more => addSeconds_eq (Nat.le_add_right _ more) a n, value_sub a b,
    compare_eq a b⟩

/-!
## Elapsed seconds
-/

/-- What the two divisions drop, in milliseconds: 296 for each unit of the high word, and the
remainder of the low word. -/
def dropped (d : Nat) : Nat :=
  296 * (d / 2 ^ 32) +
    if d % 2 ^ 32 < 2 ^ 31 then d % 2 ^ 32 % 1000 else 648 + (d % 2 ^ 32 - 2 ^ 31) % 1000

theorem toNat_sdiv (x : BitVec 32) (hx : x.toNat < 2 ^ 31) :
    (x.sdiv 1000).toNat = x.toNat / 1000 := by
  rw [sdiv_eq, msb_eq_false_iff_two_mul_lt.mpr (by omega)]
  rfl

theorem toNat_elapsedSeconds {t now : Timestamp} {d : Nat}
    (hd : now.value.toInt = t.value.toInt + d) (hlt : d < 2 ^ 31 * 1000) :
    1000 * (t.elapsedSeconds now).toNat + dropped d = d ∧
      (t.elapsedSeconds now).toNat < 2 ^ 31 := by
  have hvalue : (now.sub t).high.toNat * 2 ^ 32 + (now.sub t).low.toNat = d := by
    have hnow := toInt_eq_toNat_cond now.value
    have ht := toInt_eq_toNat_cond t.value
    have hlt' := now.value.isLt
    rw [← toNat_value, value_sub, toNat_sub]
    split at hnow <;> split at ht <;> omega
  have hlow := (now.sub t).low.isLt
  have hdiv : (t.elapsedSeconds now).toNat =
      ((now.sub t).high.toNat * 4294967 % 2 ^ 32 +
        (if (now.sub t).low.toNat < 2 ^ 31 then (now.sub t).low.toNat / 1000
          else ((now.sub t).low.toNat - 2 ^ 31) / 1000 + 2147483)) % 2 ^ 32 := by
    change ((now.sub t).high * 4294967 + if (now.sub t).low.slt 0 then
      ((now.sub t).low - (-2147483648)).sdiv 1000 + 2147483
      else (now.sub t).low.sdiv 1000).toNat = _
    rw [toNat_add, toNat_mul, show (4294967 : BitVec 32).toNat = 4294967 from rfl]
    congr 2
    have hslt : (now.sub t).low.slt 0 = true <-> ¬ (now.sub t).low.toNat < 2 ^ 31 := by
      rw [slt_iff_toInt_lt, toInt_eq_toNat_cond]
      change _ < (0 : Int) <-> _
      split <;> omega
    by_cases hsmall : (now.sub t).low.toNat < 2 ^ 31
    · rw [if_neg (fun hneg => hslt.mp hneg hsmall), if_pos hsmall, toNat_sdiv _ hsmall]
    · have hsub := toNat_sub (now.sub t).low (-2147483648)
      rw [show (-2147483648 : BitVec 32).toNat = 2 ^ 31 from rfl] at hsub
      rw [if_pos (hslt.mpr hsmall), if_neg hsmall, toNat_add, toNat_sdiv _ (by omega),
        show (2147483 : BitVec 32).toNat = 2147483 from rfl]
      omega
  have hhigh : (now.sub t).high.toNat = d / 2 ^ 32 := by omega
  have hrest : (now.sub t).low.toNat = d % 2 ^ 32 := by omega
  have hyears : d / 2 ^ 32 <= 499 := by omega
  rw [hdiv, hhigh, hrest, Nat.mod_eq_of_lt (show d / 2 ^ 32 * 4294967 < 2 ^ 32 by omega)]
  unfold dropped
  clear hdiv hvalue hhigh hrest
  split
  case isTrue hsmall =>
    rw [Nat.mod_eq_of_lt (by omega)]
    omega
  case isFalse hsmall =>
    rw [Nat.mod_eq_of_lt (by omega)]
    omega

/-- Seconds are off by more than one as soon as two seconds are dropped. -/
theorem elapsedSeconds_accurate_iff (t now : Timestamp) (d : Nat)
    (hd : now.value.toInt = t.value.toInt + d) (hlt : d < 2 ^ 31 * 1000) :
    ((t.elapsedSeconds now).toInt - (d / 1000 : Nat)).natAbs <= 1 <-> dropped d < 2000 := by
  rcases toNat_elapsedSeconds hd hlt with ⟨hdropped, hsmall⟩
  rw [BitVec.toInt_eq_toNat_of_lt (by omega)]
  omega

/-- After a day. -/
theorem elapsedSeconds_accurate_day :
    ((elapsedSeconds ⟨0, 0⟩ ⟨86400000, 0⟩).toInt - (86400000 / 1000 : Nat)).natAbs <= 1 :=
  (elapsedSeconds_accurate_iff ⟨0, 0⟩ ⟨86400000, 0⟩ 86400000 (by decide) (by decide)).mpr
    (by decide)

/-- After 67 years more than two minutes are missing. -/
theorem elapsedSeconds_loses_minutes :
    (elapsedSeconds ⟨0, 0⟩ ⟨0, 499⟩).toInt = 2143188533 ∧ 499 * 2 ^ 32 / 1000 = 2143188680 := by
  decide

end Timestamp
end Async2.Time
