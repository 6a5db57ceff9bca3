import Async2.MsgPack.Parse
import Async2.MsgPack.Serialize

/-!
# Fixed-width fields

The reader joins bytes with shifts and bitwise or, the writer takes words apart
with shifts and casts.  Both are the big-endian encoding of the number that the
word stands for.  Signed words go through casts that keep the bits, so a signed
field stands for the balanced residue of its number.
-/

namespace Async2.MsgPack

open BigEndian Reader

/-!
## Joined bytes
-/

theorem joinU16_toNat (b0 b1 : UInt8) : (joinU16 b0 b1).toNat = beNat [b0, b1] := by
  have h0 := b0.toNat_lt
  have h1 := b1.toNat_lt
  have hshift : (b0.toUInt16 <<< 8).toNat = 2 ^ 8 * b0.toNat := by
    simp only [UInt16.toNat_shiftLeft, UInt8.toNat_toUInt16, Nat.shiftLeft_eq]
    simp
    omega
  rw [joinU16, UInt16.toNat_or, hshift, UInt8.toNat_toUInt16,
    ← Nat.two_pow_add_eq_or_of_lt (by omega)]
  simp [beNat]
  omega

theorem joinU32_toNat (b0 b1 b2 b3 : UInt8) :
    (joinU32 b0 b1 b2 b3).toNat = beNat [b0, b1, b2, b3] := by
  have h0 := b0.toNat_lt
  have h1 := b1.toNat_lt
  have h2 := b2.toNat_lt
  have h3 := b3.toNat_lt
  have hshift0 : (b0.toUInt32 <<< 24).toNat = 2 ^ 24 * b0.toNat := by
    simp only [UInt32.toNat_shiftLeft, UInt8.toNat_toUInt32, Nat.shiftLeft_eq]
    simp
    omega
  have hshift1 : (b1.toUInt32 <<< 16).toNat = 2 ^ 16 * b1.toNat := by
    simp only [UInt32.toNat_shiftLeft, UInt8.toNat_toUInt32, Nat.shiftLeft_eq]
    simp
    omega
  have hshift2 : (b2.toUInt32 <<< 8).toNat = 2 ^ 8 * b2.toNat := by
    simp only [UInt32.toNat_shiftLeft, UInt8.toNat_toUInt32, Nat.shiftLeft_eq]
    simp
    omega
  -- Each further word lies below the bits that are already there.
  have hjoin1 : 2 ^ 24 * b0.toNat ||| 2 ^ 16 * b1.toNat =
      2 ^ 16 * (2 ^ 8 * b0.toNat + b1.toNat) := by
    rw [← Nat.two_pow_add_eq_or_of_lt (by omega)]
    omega
  have hjoin2 : 2 ^ 16 * (2 ^ 8 * b0.toNat + b1.toNat) ||| 2 ^ 8 * b2.toNat =
      2 ^ 8 * (2 ^ 16 * b0.toNat + 2 ^ 8 * b1.toNat + b2.toNat) := by
    rw [← Nat.two_pow_add_eq_or_of_lt (by omega)]
    omega
  rw [joinU32, UInt32.toNat_or, UInt32.toNat_or, UInt32.toNat_or, hshift0,
    hshift1, hshift2, UInt8.toNat_toUInt32, hjoin1, hjoin2,
    ← Nat.two_pow_add_eq_or_of_lt (by omega)]
  simp [beNat]
  omega

theorem joinU64_toNat (b0 b1 b2 b3 b4 b5 b6 b7 : UInt8) :
    (joinU64 (joinU32 b0 b1 b2 b3)
      (joinU32 b4 b5 b6 b7)).toNat =
      beNat [b0, b1, b2, b3, b4, b5, b6, b7] := by
  have hhi := joinU32_toNat b0 b1 b2 b3
  have hlo := joinU32_toNat b4 b5 b6 b7
  have hhilt := (joinU32 b0 b1 b2 b3).toNat_lt
  have hlolt := (joinU32 b4 b5 b6 b7).toNat_lt
  have hshift : ((joinU32 b0 b1 b2 b3).toUInt64 <<< 32).toNat =
      2 ^ 32 * (joinU32 b0 b1 b2 b3).toNat := by
    simp only [UInt64.toNat_shiftLeft, UInt32.toNat_toUInt64, Nat.shiftLeft_eq]
    simp
    omega
  rw [joinU64, UInt64.toNat_or, hshift, UInt32.toNat_toUInt64,
    ← Nat.two_pow_add_eq_or_of_lt (by omega), hhi, hlo]
  simp [beNat]
  omega

/-!
## Whole words
-/

/-- The word in the next `k` bytes: its number where they lie ahead, and a fault
where they do not. -/
structure ReadsWord {W : Type} (B : Build) (k : Nat) (toNat : W -> Nat)
    (read : Reader -> Outcome (W × Reader)) : Prop where
  ahead : forall (r : Reader) (bs : Bytes), r.data.length < 2 ^ B.width -> bs.length = k ->
    r.Ahead bs -> exists v, toNat v = beNat bs ∧ read r = .ok (v, r.skip k)
  fault : forall r : Reader, r.data.length < 2 ^ B.width -> r.pos <= r.data.length ->
    r.data.length < r.pos + k -> read r = .fault

theorem readsWord_u8 (B : Build) : ReadsWord B 1 UInt8.toNat (readU8 B) := by
  refine ⟨fun r bs hdata hlen h => ?_, fun r => readU8_fault⟩
  rcases List.length_eq_one_iff.mp hlen with ⟨b, rfl⟩
  exact ⟨b, by simp [beNat], readU8_of_ahead hdata h⟩

theorem readsWord_u16 (B : Build) : ReadsWord B 2 UInt16.toNat (readU16 B) := by
  refine ⟨fun r bs hdata hlen h => ?_, fun r => readU16_fault⟩
  rcases List.length_eq_two.mp hlen with ⟨b0, b1, rfl⟩
  exact ⟨_, joinU16_toNat b0 b1, readU16_of_ahead hdata h⟩

theorem readsWord_u32 (B : Build) : ReadsWord B 4 UInt32.toNat (readU32 B) := by
  refine ⟨fun r bs hdata hlen h => ?_, fun r => readU32_fault⟩
  rcases List.length_eq_four.mp hlen with ⟨b0, b1, b2, b3, rfl⟩
  exact ⟨_, joinU32_toNat b0 b1 b2 b3, readU32_of_ahead hdata h⟩

theorem readsWord_u64 (B : Build) : ReadsWord B 8 UInt64.toNat (readU64 B) := by
  refine ⟨fun r bs hdata hlen h => ?_, fun r => readU64_fault⟩
  match bs, hlen with
  | [b0, b1, b2, b3, b4, b5, b6, b7], _ =>
    exact ⟨_, joinU64_toNat b0 b1 b2 b3 b4 b5 b6 b7, readU64_of_ahead hdata h⟩

/-!
## Written words
-/

theorem writeU8_eq (v : UInt8) : writeU8 v = beBytes 1 v.toNat := by
  simp [writeU8, beBytes]

theorem writeU16_eq (v : UInt16) : writeU16 v = beBytes 2 v.toNat := by
  have hhi : (v >>> 8).toUInt8 = UInt8.ofNat (v.toNat / 256) := by
    apply UInt8.toNat_inj.mp
    simp [Nat.shiftRight_eq_div_pow]
  have hlo : v.toUInt8 = UInt8.ofNat v.toNat := by
    apply UInt8.toNat_inj.mp
    simp
  simp only [writeU16, beBytes_succ, beBytes_zero, hhi, hlo, Nat.reducePow, Nat.div_one]

theorem writeU32_eq (v : UInt32) : writeU32 v = beBytes 4 v.toNat := by
  have h3 : (v >>> 24).toUInt8 = UInt8.ofNat (v.toNat / 16777216) := by
    apply UInt8.toNat_inj.mp
    simp [Nat.shiftRight_eq_div_pow]
  have h2 : (v >>> 16).toUInt8 = UInt8.ofNat (v.toNat / 65536) := by
    apply UInt8.toNat_inj.mp
    simp [Nat.shiftRight_eq_div_pow]
  have h1 : (v >>> 8).toUInt8 = UInt8.ofNat (v.toNat / 256) := by
    apply UInt8.toNat_inj.mp
    simp [Nat.shiftRight_eq_div_pow]
  have h0 : v.toUInt8 = UInt8.ofNat v.toNat := by
    apply UInt8.toNat_inj.mp
    simp
  simp only [writeU32, beBytes_succ, beBytes_zero, h3, h2, h1, h0, Nat.reducePow, Nat.div_one]

theorem writeU64_eq (v : UInt64) : writeU64 v = beBytes 8 v.toNat := by
  have hhi : (v >>> 32).toUInt32.toNat = v.toNat / 256 ^ 4 := by
    have hlt := v.toNat_lt
    simp [Nat.shiftRight_eq_div_pow]
    omega
  have hlo : v.toUInt32.toNat = v.toNat % 256 ^ 4 := by
    simp
  rw [writeU64, writeU32_eq, writeU32_eq, hhi, hlo, beBytes_mod, beBytes_append]

/-!
## Casts between signed and unsigned words

A cast between types of one width keeps the bits.
-/

theorem toInt8_toInt (v : UInt8) : v.toInt8.toInt = (v.toNat : Int).bmod 256 :=
  BitVec.toInt_eq_toNat_bmod v.toBitVec

theorem toInt16_toInt (v : UInt16) : v.toInt16.toInt = (v.toNat : Int).bmod 65536 :=
  BitVec.toInt_eq_toNat_bmod v.toBitVec

theorem toInt32_toInt (v : UInt32) : v.toInt32.toInt = (v.toNat : Int).bmod 4294967296 :=
  BitVec.toInt_eq_toNat_bmod v.toBitVec

theorem toInt64_toInt (v : UInt64) : v.toInt64.toInt = (v.toNat : Int).bmod (2 ^ 64) :=
  BitVec.toInt_eq_toNat_bmod v.toBitVec

theorem toInt64_eq_ofNat (v : UInt64) : v.toInt64 = Int64.ofNat v.toNat := by
  apply Int64.toInt_inj.mp
  rw [toInt64_toInt, Int64.toInt_ofNat']
  rfl

theorem bmod_toNat_emod {n : Int} {m : Nat} (hm : 0 < m) (hlow : -(m : Int) <= 2 * n)
    (hhigh : 2 * n < m) : ((n % m).toNat : Int).bmod m = n := by
  rw [Int.toNat_of_nonneg (Int.emod_nonneg _ (by omega)), Int.emod_bmod]
  exact Int.bmod_eq_of_le_mul_two (by omega) (by omega)

theorem int64_eq_ofInt_iff {v : Int64} {n : Int} (hlow : -(2 ^ 63) <= n)
    (hhigh : n < 2 ^ 63) : v = Int64.ofInt n <-> v.toInt = n := by
  have hvalue : (Int64.ofInt n).toInt = n := by
    rw [Int64.toInt_ofInt]
    exact Int.bmod_eq_of_le_mul_two
      (by simp only [Int64.size]; omega) (by simp only [Int64.size]; omega)
  constructor
  · intro h
    rw [h, hvalue]
  · intro h
    apply Int64.toInt_inj.mp
    rw [hvalue, h]

end Async2.MsgPack
