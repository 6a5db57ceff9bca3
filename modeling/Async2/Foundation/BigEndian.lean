import Mathlib.Tactic.Ring

/-!
# Big-endian byte strings

Network formats store an unsigned number of `k` bytes with its most
significant byte first.  `beBytes k v` is that byte string and
`beNat` is the number a byte string stands for.  The two are inverse to
each other on numbers below `256 ^ k`.
-/

namespace Async2

abbrev Bytes := List UInt8

namespace BigEndian

/-- The number that a big-endian byte string stands for. -/
def beNat : Bytes -> Nat
  | [] => 0
  | b :: rest => b.toNat * 256 ^ rest.length + beNat rest

/-- The `k` low bytes of `v`, most significant byte first. -/
def beBytes : Nat -> Nat -> Bytes
  | 0, _ => []
  | k + 1, v => UInt8.ofNat (v / 256 ^ k) :: beBytes k v

@[simp] theorem beNat_nil : beNat [] = 0 := rfl

theorem beNat_cons (b : UInt8) (rest : Bytes) :
    beNat (b :: rest) = b.toNat * 256 ^ rest.length + beNat rest := rfl

@[simp] theorem beBytes_zero (v : Nat) : beBytes 0 v = [] := rfl

theorem beBytes_succ (k v : Nat) :
    beBytes (k + 1) v = UInt8.ofNat (v / 256 ^ k) :: beBytes k v := rfl

@[simp] theorem beBytes_length (k v : Nat) : (beBytes k v).length = k := by
  induction k with
  | zero => rfl
  | succ k ih => rw [beBytes_succ, List.length_cons, ih]

theorem beNat_lt (bs : Bytes) : beNat bs < 256 ^ bs.length := by
  induction bs with
  | nil => simp
  | cons b rest ih =>
    have hb : b.toNat + 1 <= 256 := b.toNat_lt
    rw [beNat_cons, List.length_cons, Nat.pow_succ]
    calc
      b.toNat * 256 ^ rest.length + beNat rest
          < b.toNat * 256 ^ rest.length + 256 ^ rest.length := by omega
      _ = (b.toNat + 1) * 256 ^ rest.length := by ring
      _ <= 256 * 256 ^ rest.length := Nat.mul_le_mul_right _ hb
      _ = 256 ^ rest.length * 256 := Nat.mul_comm _ _

theorem beBytes_mod (k v : Nat) : beBytes k (v % 256 ^ k) = beBytes k v := by
  -- Only the residue of `v` matters, at every width at least `k`.
  have aux : forall j, j <= k -> beBytes j (v % 256 ^ k) = beBytes j v := by
    intro j
    induction j with
    | zero => intro _; rfl
    | succ j ih =>
      intro hj
      have hpow : 256 ^ k = 256 ^ j * 256 ^ (k - j) := by
        rw [← Nat.pow_add]
        congr 1
        omega
      have hdvd : 256 ∣ 256 ^ (k - j) :=
        dvd_pow_self 256 (by omega)
      have hhead : UInt8.ofNat (v % 256 ^ k / 256 ^ j) =
          UInt8.ofNat (v / 256 ^ j) := by
        apply UInt8.toNat_inj.mp
        simp only [UInt8.toNat_ofNat', hpow, Nat.mod_mul_right_div_self]
        exact Nat.mod_mod_of_dvd _ hdvd
      rw [beBytes_succ, beBytes_succ, hhead, ih (by omega)]
  exact aux k (Nat.le_refl k)

theorem beBytes_append (j k v : Nat) :
    beBytes j (v / 256 ^ k) ++ beBytes k v = beBytes (j + k) v := by
  induction j with
  | zero => simp
  | succ j ih =>
    have hdiv : v / 256 ^ k / 256 ^ j = v / 256 ^ (j + k) := by
      rw [Nat.div_div_eq_div_mul, ← Nat.pow_add, Nat.add_comm k j]
    rw [Nat.add_right_comm, beBytes_succ, beBytes_succ, List.cons_append, ih, hdiv]

theorem beNat_beBytes {k v : Nat} (hv : v < 256 ^ k) : beNat (beBytes k v) = v := by
  induction k generalizing v with
  | zero =>
    have hzero : v = 0 := by simpa using hv
    rw [hzero]
    rfl
  | succ k ih =>
    have hpos : 0 < 256 ^ k := Nat.pow_pos (by decide)
    have hdiv : v / 256 ^ k < 256 := by
      rw [Nat.div_lt_iff_lt_mul hpos, Nat.mul_comm]
      simpa [Nat.pow_succ] using hv
    rw [beBytes_succ, beNat_cons, beBytes_length, ← beBytes_mod,
      ih (Nat.mod_lt v hpos), UInt8.toNat_ofNat_of_lt' hdiv, Nat.mul_comm]
    exact Nat.div_add_mod v (256 ^ k)

theorem beBytes_beNat (bs : Bytes) : beBytes bs.length (beNat bs) = bs := by
  induction bs with
  | nil => rfl
  | cons b rest ih =>
    have hpos : 0 < 256 ^ rest.length := Nat.pow_pos (by decide)
    have hdiv : beNat (b :: rest) / 256 ^ rest.length = b.toNat := by
      rw [beNat_cons, Nat.mul_comm, Nat.mul_add_div hpos,
        Nat.div_eq_of_lt (beNat_lt rest), Nat.add_zero]
    have hmod : beNat (b :: rest) % 256 ^ rest.length = beNat rest := by
      rw [beNat_cons, Nat.mul_comm, Nat.mul_add_mod]
      exact Nat.mod_eq_of_lt (beNat_lt rest)
    rw [List.length_cons, beBytes_succ, hdiv, ← beBytes_mod, hmod, ih]
    simp

end BigEndian
end Async2
