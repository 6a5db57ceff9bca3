import Async2.Foundation.Decimal
import Mathlib.Tactic.Linarith

/-!
# Decimal conversions of binary64 numbers

The bit pattern of a finite binary64 number is read as a count of units of
`2 ^ -1074`, the least positive number of the format.  `ofDecimal` rounds a
decimal to the nearest number, ties to even, as `strtod` does; `toDecimal`
rounds a number to a given count of significant decimal digits, as `printf`
does.  Seventeen digits are enough to come back to the number one started with.
-/

namespace Async2.Binary64

/-!
## Bit patterns
-/

def signBit (bits : UInt64) : Bool := decide (2 ^ 63 <= bits.toNat)

def magnitude (bits : UInt64) : Nat := bits.toNat % 2 ^ 63

/-- The magnitude of the infinities; greater ones are not numbers. -/
def infinity : Nat := 2047 * 2 ^ 52

def isInf (bits : UInt64) : Bool := magnitude bits == infinity

def isNan (bits : UInt64) : Bool := decide (infinity < magnitude bits)

/-- The bit pattern with a given sign and magnitude. -/
def pack (neg : Bool) (mag : Nat) : UInt64 :=
  UInt64.ofNat ((if neg then 2 ^ 63 else 0) + mag)

/-- Comparison of numbers: the two zeros are equal, no NaN equals anything. -/
def numEq (a b : UInt64) : Bool :=
  !isNan a && !isNan b &&
    (a == b || (magnitude a == 0 && magnitude b == 0))

variable {neg : Bool} {mag a b s c k : Nat}

theorem pack_signBit_magnitude (bits : UInt64) : pack (signBit bits) (magnitude bits) = bits := by
  have hbits : bits.toNat < 2 ^ 64 := bits.toNat_lt
  have hsum : (if signBit bits = true then 2 ^ 63 else 0) + magnitude bits =
      bits.toNat := by
    unfold signBit magnitude
    by_cases h : 2 ^ 63 <= bits.toNat
    · simp only [h, decide_true, if_true]
      omega
    · simp only [h, decide_false, Bool.false_eq_true, if_false]
      omega
  rw [pack, hsum, UInt64.ofNat_toNat]

theorem toNat_pack (h : mag < 2 ^ 63) :
    (pack neg mag).toNat = (if neg then 2 ^ 63 else 0) + mag := by
  cases neg <;> simp only [pack, UInt64.toNat_ofNat', Bool.false_eq_true,
    if_true, if_false] <;> omega

theorem magnitude_pack (h : mag < 2 ^ 63) : magnitude (pack neg mag) = mag := by
  rw [magnitude, toNat_pack h]
  cases neg <;> simp only [Bool.false_eq_true, if_true, if_false] <;> omega

/-- Numbers that compare equal and have the same sign have the same bits. -/
theorem eq_of_numEq {a b : UInt64} (h : numEq a b = true)
    (hsign : signBit a = signBit b) : a = b := by
  simp only [numEq, Bool.and_eq_true, Bool.or_eq_true, beq_iff_eq] at h
  rcases h.right with heq | ⟨ha, hb⟩
  · exact heq
  · rw [← pack_signBit_magnitude a, ← pack_signBit_magnitude b, hsign, ha, hb]

/-!
## Rounding
-/

/-- The quotient rounded to the nearest integer, ties to even. -/
def roundDiv (a b : Nat) : Nat :=
  if 2 * (a % b) < b then a / b
  else if b < 2 * (a % b) then a / b + 1
  else a / b + a / b % 2

/-- An integer less than half a unit away is the rounded quotient. -/
theorem roundDiv_eq (hup : 2 * a < 2 * (s * b) + b) (hdown : 2 * (s * b) < 2 * a + b) :
    roundDiv a b = s := by
  have hb : 0 < b := by omega
  have hdiv : b * (a / b) + a % b = a := Nat.div_add_mod a b
  have hmod : a % b < b := Nat.mod_lt a hb
  have hcases : a / b = s ∨ a / b + 1 = s := by
    rcases Nat.lt_trichotomy (a / b) s with hlt | heq | hgt
    · right
      by_contra hne
      have htwo : a / b + 2 <= s := by omega
      have hmul : (a / b + 2) * b <= s * b := Nat.mul_le_mul_right b htwo
      have hexpand : (a / b + 2) * b = b * (a / b) + 2 * b := by ring
      omega
    · exact .inl heq
    · have hmul : (s + 1) * b <= (a / b) * b := Nat.mul_le_mul_right b hgt
      have hexpand : (s + 1) * b = s * b + b := by ring
      have hcomm : (a / b) * b = b * (a / b) := Nat.mul_comm _ _
      omega
  unfold roundDiv
  rcases hcases with heq | heq
  · have hs : s * b = b * (a / b) := by rw [heq, Nat.mul_comm]
    rw [if_pos (by omega), heq]
  · have hs : s * b = b * (a / b) + b := by rw [← heq]; ring
    rw [if_neg (by omega), if_pos (by omega), heq]

theorem roundDiv_close (hb : 0 < b) :
    2 * a <= 2 * (roundDiv a b * b) + b ∧ 2 * (roundDiv a b * b) <= 2 * a + b := by
  have hdiv : b * (a / b) + a % b = a := Nat.div_add_mod a b
  have hmod : a % b < b := Nat.mod_lt a hb
  have hdown : (a / b) * b = b * (a / b) := Nat.mul_comm _ _
  have hup : (a / b + 1) * b = b * (a / b) + b := by ring
  unfold roundDiv
  split
  · omega
  · split
    · omega
    · rcases Nat.mod_two_eq_zero_or_one (a / b) with hpar | hpar
      · rw [hpar, Nat.add_zero]
        omega
      · rw [hpar]
        omega

theorem roundDiv_mul (hc : 0 < c) : roundDiv (a * c) (b * c) = roundDiv a b := by
  have hlt : 2 * (a % b * c) < b * c <-> 2 * (a % b) < b := by
    rw [← Nat.mul_assoc]
    exact Nat.mul_lt_mul_right hc
  have hgt : b * c < 2 * (a % b * c) <-> b < 2 * (a % b) := by
    rw [← Nat.mul_assoc]
    exact Nat.mul_lt_mul_right hc
  unfold roundDiv
  rw [Nat.mul_div_mul_right a b hc, Nat.mul_mod_mul_right c a b]
  simp only [hlt, hgt]

theorem roundDiv_le (hb : 0 < b) (h : a <= s * b) : roundDiv a b <= s := by
  have hclose := (roundDiv_close (a := a) hb).right
  by_contra hgt
  have hmul : (s + 1) * b <= roundDiv a b * b :=
    Nat.mul_le_mul_right b (by omega)
  have hexpand : (s + 1) * b = s * b + b := by ring
  omega

theorem le_roundDiv (hb : 0 < b) (h : s * b <= a) : s <= roundDiv a b := by
  have hclose := (roundDiv_close (a := a) hb).left
  by_contra hlt
  have hmul : (roundDiv a b + 1) * b <= s * b :=
    Nat.mul_le_mul_right b (by omega)
  have hexpand : (roundDiv a b + 1) * b = roundDiv a b * b + b := by ring
  omega

/-- The magnitude nearest to `a / b` units, ties to even: `k` is the exponent
of the binade that the quotient lies in. -/
def roundUnits (a b : Nat) : Nat :=
  let k := Nat.log2 (a / b) - 52
  k * 2 ^ 52 + roundDiv a (b * 2 ^ k)

theorem roundUnits_mul (hc : 0 < c) : roundUnits (a * c) (b * c) = roundUnits a b := by
  unfold roundUnits
  have hassoc : forall k, b * c * 2 ^ k = b * 2 ^ k * c := by
    intro k
    ring
  simp only [Nat.mul_div_mul_right a b hc, hassoc, roundDiv_mul hc]

/-!
## Coming back to a number

A finite magnitude is `k * 2 ^ 52 + s` for a significand `s` below `2 ^ 53`, and
then counts `s * 2 ^ k` units.
-/

/-- The units that a finite magnitude counts. -/
def units (m : Nat) : Nat :=
  if m < 2 ^ 52 then m else (2 ^ 52 + m % 2 ^ 52) * 2 ^ (m / 2 ^ 52 - 1)

theorem exists_significand (m : Nat) :
    exists k s, m = k * 2 ^ 52 + s ∧ units m = s * 2 ^ k ∧ s < 2 ^ 53 ∧ (k = 0 ∨ 2 ^ 52 <= s) := by
  unfold units
  by_cases h : m < 2 ^ 52
  · rw [if_pos h]
    exact ⟨0, m, by omega, by omega, by omega, .inl rfl⟩
  · rw [if_neg h]
    exact ⟨m / 2 ^ 52 - 1, 2 ^ 52 + m % 2 ^ 52, by omega, rfl, by omega,
      .inr (by omega)⟩

theorem units_pos {m : Nat} (h : 0 < m) : 0 < units m := by
  unfold units
  split
  · exact h
  · exact Nat.mul_pos (by omega) (Nat.pow_pos (by decide))

theorem roundUnits_of_binade (hb : 0 < b) (hlow : k = 0 ∨ 2 ^ 52 * (2 ^ k * b) <= a)
    (hhigh : a < 2 ^ 53 * (2 ^ k * b)) : roundUnits a b = k * 2 ^ 52 + roundDiv a (2 ^ k * b) := by
  have hupper : a / b < 2 ^ (52 + k + 1) := by
    rw [Nat.div_lt_iff_lt_mul hb]
    calc
      a < 2 ^ 53 * (2 ^ k * b) := hhigh
      _ = 2 ^ (52 + k + 1) * b := by ring
  have hk : Nat.log2 (a / b) - 52 = k := by
    rcases hlow with hzero | hlow
    · subst hzero
      rcases Nat.eq_zero_or_pos (a / b) with hq | hq
      · simp [hq]
      · have hlog := (Nat.log2_lt (by omega)).mpr hupper
        omega
    · have hlower : 2 ^ (52 + k) <= a / b := by
        rw [Nat.le_div_iff_mul_le hb]
        calc
          2 ^ (52 + k) * b = 2 ^ 52 * (2 ^ k * b) := by ring
          _ <= a := hlow
      have hne : a / b ≠ 0 := by
        have hpow : 0 < 2 ^ (52 + k) := Nat.pow_pos (by decide)
        omega
      have hlog := (Nat.log2_eq_iff hne).mpr ⟨hlower, hupper⟩
      omega
  unfold roundUnits
  dsimp only
  rw [hk, Nat.mul_comm b]

/-- A quotient within a relative distance of `10 ^ -16 / 2` from a number rounds
to that number. -/
theorem roundUnits_of_close {m : Nat} (hb : 0 < b)
    (hup : 2 * 10 ^ 16 * a <= (2 * 10 ^ 16 + 1) * (units m * b))
    (hdown : (2 * 10 ^ 16 - 1) * (units m * b) <= 2 * 10 ^ 16 * a) : roundUnits a b = m := by
  rcases exists_significand m with ⟨k, s, hm, hunits, hs, hnormal⟩
  have hc : 0 < 2 ^ k * b := Nat.mul_pos (Nat.pow_pos (by decide)) hb
  have htotal : units m * b = s * (2 ^ k * b) := by
    rw [hunits]
    ring
  have hbound : s * (2 ^ k * b) + 2 ^ k * b <= 2 ^ 53 * (2 ^ k * b) := by
    calc
      s * (2 ^ k * b) + 2 ^ k * b = (s + 1) * (2 ^ k * b) := by ring
      _ <= 2 ^ 53 * (2 ^ k * b) := Nat.mul_le_mul_right _ hs
  rw [htotal] at hup hdown
  by_cases hbelow : s = 2 ^ 52 ∧ a < s * (2 ^ k * b) ∧ k ≠ 0
  · -- The quotient lies in the binade below, whose grid is twice as fine.
    rcases hbelow with ⟨hseq, hlt, hk⟩
    rcases Nat.exists_eq_succ_of_ne_zero hk with ⟨j, hj⟩
    subst hj
    have hd : 2 ^ (j + 1) * b = 2 * (2 ^ j * b) := by ring
    rw [hseq, hd] at hup hdown hlt
    rw [roundUnits_of_binade hb (k := j) (.inr (by omega)) (by omega),
      roundDiv_eq (s := 2 ^ 53) (by omega) (by omega), hm, hseq]
    omega
  · have hlow : k = 0 ∨ 2 ^ 52 * (2 ^ k * b) <= a := by
      rcases hnormal with hk | hnormal
      · exact .inl hk
      · by_cases hk : k = 0
        · exact .inl hk
        · right
          rcases Nat.eq_or_lt_of_le hnormal with heq | hgt
          · rw [heq]
            by_contra hlt
            exact hbelow ⟨heq.symm, by omega, hk⟩
          · have hstep : (2 ^ 52 + 1) * (2 ^ k * b) <= s * (2 ^ k * b) :=
              Nat.mul_le_mul_right _ hgt
            omega
    rw [roundUnits_of_binade hb hlow (by omega),
      roundDiv_eq (s := s) (by omega) (by omega), hm]

/-!
## From decimals

A decimal is a natural number times a power of ten.
-/

theorem roundUnits_congr {d : Nat} (hb : 0 < b) (hd : 0 < d) (h : a * d = c * b) :
    roundUnits a b = roundUnits c d := by
  rw [← roundUnits_mul hd, h, Nat.mul_comm b d, roundUnits_mul hb]

/-- The least positive number is two to the minus this power. -/
@[irreducible] def leastExponent : Nat := 1074

/-- The units that make up the number one. -/
def unitsPerOne : Nat := 2 ^ leastExponent

theorem unitsPerOne_pos : 0 < unitsPerOne := Nat.two_pow_pos leastExponent

/-- The magnitude nearest to `v * 10 ^ e`. -/
def decimalMagnitude (v : Nat) (e : Int) : Nat :=
  roundUnits (v * 10 ^ e.toNat * unitsPerOne) (10 ^ (-e).toNat)

/-- The number nearest to a decimal, ties to even; an infinity beyond the range
of finite numbers. -/
def ofDecimal (neg : Bool) (v : Nat) (e : Int) : UInt64 :=
  pack neg (min (decimalMagnitude v e) infinity)

theorem decimalMagnitude_mul_pow (v j : Nat) (e : Int) :
    decimalMagnitude (v * 10 ^ j) e = decimalMagnitude v (e + j) := by
  have hexp : j + e.toNat + (-(e + j)).toNat = (e + j).toNat + (-e).toNat := by
    omega
  refine roundUnits_congr (Nat.pow_pos (by decide)) (Nat.pow_pos (by decide)) ?_
  calc
    v * 10 ^ j * 10 ^ e.toNat * unitsPerOne * 10 ^ (-(e + j)).toNat
        = v * unitsPerOne * 10 ^ (j + e.toNat + (-(e + j)).toNat) := by ring
    _ = v * unitsPerOne * 10 ^ ((e + j).toNat + (-e).toNat) := by rw [hexp]
    _ = v * 10 ^ (e + j).toNat * unitsPerOne * 10 ^ (-e).toNat := by ring

theorem ofDecimal_mul_pow (neg : Bool) (v j : Nat) (e : Int) :
    ofDecimal neg (v * 10 ^ j) e = ofDecimal neg v (e + j) := by
  rw [ofDecimal, ofDecimal, decimalMagnitude_mul_pow]

@[simp] theorem decimalMagnitude_zero (e : Int) : decimalMagnitude 0 e = 0 := by
  simp [decimalMagnitude, roundUnits, roundDiv]

theorem magnitude_ofDecimal (neg : Bool) (v : Nat) (e : Int) :
    magnitude (ofDecimal neg v e) = min (decimalMagnitude v e) infinity := by
  refine magnitude_pack ?_
  have hinf : infinity < 2 ^ 63 := by decide
  omega

theorem not_isNan_ofDecimal (neg : Bool) (v : Nat) (e : Int) :
    isNan (ofDecimal neg v e) = false := by
  rw [isNan, magnitude_ofDecimal, decide_eq_false_iff_not]
  omega

/-!
## To decimals
-/

/-- The greatest `x` with `10 ^ x <= a / b`. -/
def log10 (a b : Nat) : Int :=
  if b <= a then (Nat.log 10 (a / b) : Int)
  else -(Nat.clog 10 ((b + a - 1) / a) : Int)

theorem log10_le (ha : 0 < a) (hb : 0 < b) :
    b * 10 ^ (log10 a b).toNat <= a * 10 ^ (-(log10 a b)).toNat := by
  unfold log10
  by_cases h : b <= a
  · have hquot : a / b ≠ 0 := by
      have hone := (Nat.one_le_div_iff hb).mpr h
      omega
    have hpow := Nat.pow_log_le_self 10 hquot
    rw [Nat.le_div_iff_mul_le hb] at hpow
    have hneg : (-(Nat.log 10 (a / b) : Int)).toNat = 0 := by omega
    rw [if_pos h, hneg, Int.toNat_natCast, Nat.pow_zero, Nat.mul_one, Nat.mul_comm]
    exact hpow
  · have hpow := Nat.le_pow_clog (b := 10) (by decide) ((b + a - 1) / a)
    have hceil : b <= a * ((b + a - 1) / a) := by
      have hmod := Nat.div_add_mod (b + a - 1) a
      have hlt := Nat.mod_lt (b + a - 1) ha
      omega
    have hneg : (-(Nat.clog 10 ((b + a - 1) / a) : Int)).toNat = 0 := by omega
    rw [if_neg h, hneg, Int.neg_neg, Int.toNat_natCast, Nat.pow_zero, Nat.mul_one]
    exact hceil.trans (Nat.mul_le_mul_left a hpow)

theorem lt_log10_succ (ha : 0 < a) (hb : 0 < b) :
    a * 10 ^ (-(log10 a b + 1)).toNat < b * 10 ^ (log10 a b + 1).toNat := by
  unfold log10
  by_cases h : b <= a
  · have hpow := Nat.lt_pow_succ_log_self (b := 10) (by decide) (a / b)
    rw [Nat.div_lt_iff_lt_mul hb] at hpow
    have hneg : (-((Nat.log 10 (a / b) : Int) + 1)).toNat = 0 := by omega
    have hpos : ((Nat.log 10 (a / b) : Int) + 1).toNat =
        (Nat.log 10 (a / b)).succ := by omega
    rw [if_pos h, hneg, hpos, Nat.pow_zero, Nat.mul_one, Nat.mul_comm b]
    exact hpow
  · have hceil : 1 < (b + a - 1) / a := by
      have htwo : 2 <= (b + a - 1) / a :=
        (Nat.le_div_iff_mul_le ha).mpr (by omega)
      omega
    have hclog := Nat.clog_pos (b := 10) (by decide) hceil
    have hpow := Nat.pow_pred_clog_lt_self (b := 10) (by decide) hceil
    have hneg : (-(-(Nat.clog 10 ((b + a - 1) / a) : Int) + 1)).toNat =
        (Nat.clog 10 ((b + a - 1) / a)).pred := by
      rw [Nat.pred_eq_sub_one]
      omega
    have hpos : (-(Nat.clog 10 ((b + a - 1) / a) : Int) + 1).toNat = 0 := by omega
    rw [if_neg h, hneg, hpos, Nat.pow_zero, Nat.mul_one]
    have hstep : a * 10 ^ (Nat.clog 10 ((b + a - 1) / a)).pred + a <=
        a * ((b + a - 1) / a) := by
      calc
        a * 10 ^ (Nat.clog 10 ((b + a - 1) / a)).pred + a
            = a * (10 ^ (Nat.clog 10 ((b + a - 1) / a)).pred + 1) := by ring
        _ <= a * ((b + a - 1) / a) := Nat.mul_le_mul_left a hpow
    have hdiv : a * ((b + a - 1) / a) <= b + a - 1 := Nat.mul_div_le _ _
    omega

/-- The power of ten of the last of `prec` significant digits. -/
def lastPlace (prec u : Nat) : Int := log10 u unitsPerOne - (prec - 1 : Nat)

/-- A count of units rounded to a multiple of the power of ten of its last
significant digit. -/
def leadingDigits (prec u : Nat) : Nat :=
  roundDiv (u * 10 ^ (-lastPlace prec u).toNat)
    (unitsPerOne * 10 ^ (lastPlace prec u).toNat)

/-- The `prec` significant digits of a positive count of units, as a number, and
the power of ten of the first of them; rounding may carry into a new digit. -/
def toDecimal (prec u : Nat) : Nat × Int :=
  if leadingDigits prec u = 10 ^ prec then
    (10 ^ (prec - 1), log10 u unitsPerOne + 1)
  else (leadingDigits prec u, log10 u unitsPerOne)

theorem mul_pow_le_mul_pow {i j l : Nat} (h : b * 10 ^ i <= a * 10 ^ j) (hexp : i + l = k + j) :
    b * 10 ^ k <= a * 10 ^ l := by
  have hpos : 0 < 10 ^ j := Nat.pow_pos (by decide)
  refine Nat.le_of_mul_le_mul_right ?_ hpos
  calc
    b * 10 ^ k * 10 ^ j = b * 10 ^ (k + j) := by ring
    _ = b * 10 ^ (i + l) := by rw [hexp]
    _ = b * 10 ^ i * 10 ^ l := by ring
    _ <= a * 10 ^ j * 10 ^ l := Nat.mul_le_mul_right _ h
    _ = a * 10 ^ l * 10 ^ j := by ring

theorem mul_pow_lt_mul_pow {i j l : Nat} (h : a * 10 ^ j < b * 10 ^ i) (hexp : i + l = k + j) :
    a * 10 ^ l < b * 10 ^ k := by
  by_contra hle
  have hback := mul_pow_le_mul_pow (Nat.le_of_not_lt hle) (i := k) (j := l)
    (k := i) (l := j) (by omega)
  omega

section

variable {prec u : Nat} (hprec : 0 < prec) (hu : 0 < u)
include hprec hu

/-- Scaled by the power of ten of its last digit, the number has `prec` digits
before the point. -/
theorem lastPlace_bounds :
    10 ^ (prec - 1) * (unitsPerOne * 10 ^ (lastPlace prec u).toNat) <=
        u * 10 ^ (-lastPlace prec u).toNat ∧
      u * 10 ^ (-lastPlace prec u).toNat <
        10 ^ prec * (unitsPerOne * 10 ^ (lastPlace prec u).toNat) := by
  have hs : lastPlace prec u = log10 u unitsPerOne - (prec - 1 : Nat) := rfl
  generalize lastPlace prec u = s at hs
  constructor
  · have hle := mul_pow_le_mul_pow (log10_le hu unitsPerOne_pos)
      (k := prec - 1 + s.toNat) (l := (-s).toNat) (by omega)
    rw [Nat.pow_add] at hle
    calc
      10 ^ (prec - 1) * (unitsPerOne * 10 ^ s.toNat)
          = unitsPerOne * (10 ^ (prec - 1) * 10 ^ s.toNat) := by ring
      _ <= u * 10 ^ (-s).toNat := hle
  · have hlt := mul_pow_lt_mul_pow (lt_log10_succ hu unitsPerOne_pos)
      (k := prec + s.toNat) (l := (-s).toNat) (by omega)
    rw [Nat.pow_add] at hlt
    calc
      u * 10 ^ (-s).toNat < unitsPerOne * (10 ^ prec * 10 ^ s.toNat) := hlt
      _ = 10 ^ prec * (unitsPerOne * 10 ^ s.toNat) := by ring

theorem toDecimal_bounds :
    10 ^ (prec - 1) <= (toDecimal prec u).1 ∧ (toDecimal prec u).1 < 10 ^ prec := by
  have hgrow : 10 ^ (prec - 1) < 10 ^ prec :=
    Nat.pow_lt_pow_right (Nat.lt_of_sub_eq_succ rfl) (by omega)
  have hbounds := lastPlace_bounds hprec hu
  have hden : 0 < unitsPerOne * 10 ^ (lastPlace prec u).toNat :=
    Nat.mul_pos unitsPerOne_pos (Nat.pow_pos (Nat.zero_lt_succ 9))
  have hlow : 10 ^ (prec - 1) <= leadingDigits prec u :=
    le_roundDiv hden hbounds.left
  have hhigh : leadingDigits prec u <= 10 ^ prec :=
    roundDiv_le hden (Nat.le_of_lt hbounds.right)
  unfold toDecimal
  split
  · exact ⟨Nat.le_refl _, hgrow⟩
  · exact ⟨hlow, by omega⟩

omit hu in
theorem decimalMagnitude_carry :
    decimalMagnitude (toDecimal prec u).1
        ((toDecimal prec u).2 - (prec - 1 : Nat)) =
      decimalMagnitude (leadingDigits prec u) (lastPlace prec u) := by
  unfold toDecimal
  split
  · rename_i hcarry
    have hexp : log10 u unitsPerOne + 1 - (prec - 1 : Nat) =
        lastPlace prec u + (1 : Nat) := by
      unfold lastPlace
      omega
    have hpow : 10 ^ prec = 10 ^ (prec - 1) * 10 ^ 1 := by
      rw [← Nat.pow_add]
      congr 1
      omega
    rw [hcarry, hexp, hpow, decimalMagnitude_mul_pow]
  · rfl

end

variable {m : Nat}

/-- Seventeen significant digits determine a number. -/
theorem decimalMagnitude_toDecimal (hm : 0 < m) :
    decimalMagnitude (toDecimal 17 (units m)).1
      ((toDecimal 17 (units m)).2 - (17 - 1 : Nat)) = m := by
  have hprec : 0 < 17 := by decide
  have hlow := (lastPlace_bounds hprec (units_pos hm)).left
  have hden : 0 < unitsPerOne * 10 ^ (lastPlace 17 (units m)).toNat :=
    Nat.mul_pos unitsPerOne_pos (Nat.pow_pos (Nat.zero_lt_succ 9))
  have hclose := roundDiv_close
    (a := units m * 10 ^ (-lastPlace 17 (units m)).toNat) hden
  rw [decimalMagnitude_carry hprec]
  have hnum : leadingDigits 17 (units m) * 10 ^ (lastPlace 17 (units m)).toNat *
      unitsPerOne = leadingDigits 17 (units m) *
        (unitsPerOne * 10 ^ (lastPlace 17 (units m)).toNat) := by ring
  unfold decimalMagnitude
  rw [hnum]
  change _ <= 2 * (leadingDigits 17 (units m) * _) + _ ∧
    2 * (leadingDigits 17 (units m) * _) <= _ at hclose
  refine roundUnits_of_close (Nat.pow_pos (Nat.zero_lt_succ 9)) ?_ ?_
  · omega
  · omega

/-!
## The range of exponents
-/

theorem leastExponent_eq : leastExponent = 1074 := by
  rw [leastExponent]

theorem two_pow_le_ten_pow (n : Nat) : 2 ^ (3 * n) <= 10 ^ n := by
  rw [Nat.pow_mul]
  exact Nat.pow_le_pow_left (by decide) n

theorem units_lt (hm : m < infinity) : units m < 2 ^ (leastExponent + 1024) := by
  rcases exists_significand m with ⟨k, s, hk, hunits, hs, hnormal⟩
  have hkbound : k <= 2045 := by
    unfold infinity at hm
    omega
  calc
    units m = s * 2 ^ k := hunits
    _ < 2 ^ 53 * 2 ^ k := Nat.mul_lt_mul_of_pos_right hs (Nat.two_pow_pos k)
    _ = 2 ^ (53 + k) := (Nat.pow_add 2 53 k).symm
    _ <= 2 ^ (leastExponent + 1024) :=
      Nat.pow_le_pow_right (by decide) (by rw [leastExponent_eq]; omega)

theorem log10_range (hpos : 0 < m) (hm : m < infinity) :
    -400 < log10 (units m) unitsPerOne ∧ log10 (units m) unitsPerOne < 400 := by
  have hlow := log10_le (units_pos hpos) unitsPerOne_pos
  have hhigh := lt_log10_succ (units_pos hpos) unitsPerOne_pos
  have hunits := units_lt hm
  generalize log10 (units m) unitsPerOne = x at hlow hhigh
  constructor
  · by_contra hle
    have hexp : (x + 1).toNat = 0 := by omega
    rw [hexp, Nat.pow_zero, Nat.mul_one, unitsPerOne] at hhigh
    have hpow : 2 ^ (3 * (-(x + 1)).toNat) < 2 ^ leastExponent :=
      ((two_pow_le_ten_pow _).trans
        (Nat.le_mul_of_pos_left _ (units_pos hpos))).trans_lt hhigh
    have hlt := (Nat.pow_lt_pow_iff_right (a := 2) (by decide)).mp hpow
    rw [leastExponent_eq] at hlt
    omega
  · by_contra hge
    have hexp : (-x).toNat = 0 := by omega
    rw [hexp, Nat.pow_zero, Nat.mul_one, unitsPerOne] at hlow
    have hpow : 2 ^ (leastExponent + 3 * x.toNat) <
        2 ^ (leastExponent + 1024) := by
      rw [Nat.pow_add]
      exact (Nat.mul_le_mul_left _ (two_pow_le_ten_pow _)).trans_lt
        (hlow.trans_lt hunits)
    have hlt := (Nat.pow_lt_pow_iff_right (a := 2) (by decide)).mp hpow
    rw [leastExponent_eq] at hlt
    omega

theorem toDecimal_range (prec : Nat) (hpos : 0 < m) (hm : m < infinity) :
    (toDecimal prec (units m)).2.natAbs < 1000 := by
  have hrange := log10_range hpos hm
  unfold toDecimal
  split
  · dsimp only
    omega
  · dsimp only
    omega

end Async2.Binary64
