import Async2.Foundation.BigEndian

/-!
# Scanning a buffer for a byte

Both functions look for the first byte of a given kind among the first `len`
bytes of a buffer.  `scanBytes` looks at one byte after the other.  `scanBlocks`
compares 32 bytes at a time and takes the position of the lowest set bit of the
comparison mask; its last block may reach past `len`, so it clamps its answer.
Bytes past the end of the buffer are zero.  The two always agree.
-/

namespace Async2.Scan

open List

variable (stop : UInt8 -> Bool)

/-- Byte-wise search: the position of the first hit, or `len`. -/
def scanBytes : Bytes -> Nat -> Nat
  | _, 0 => 0
  | buf, len + 1 => if stop (buf.getD 0 0) then 0 else scanBytes buf.tail len + 1

/-- The comparison mask of the 32 bytes from position `i` on. -/
def laneMask (buf : Bytes) (i : Nat) : List Bool :=
  (List.range 32).map fun k => stop (buf.getD (i + k) 0)

/-- Block-wise search from position `i` on, for at most `fuel` blocks. -/
def scanBlocks (buf : Bytes) (len : Nat) : Nat -> Nat -> Nat
  | 0, _ => len
  | fuel + 1, i =>
    if i < len then
      if (laneMask stop buf i).any id then
        min (i + (laneMask stop buf i).findIdx id) len
      else scanBlocks buf len fuel (i + 32)
    else len

/-- The position is the first hit below `len`, or `len` if there is none. -/
structure FirstHit (buf : Bytes) (len p : Nat) : Prop where
  le : p <= len
  before : forall k, k < p -> stop (buf.getD k 0) = false
  hit : p < len -> stop (buf.getD p 0) = true

theorem FirstHit.unique {stop : UInt8 -> Bool} {buf : Bytes} {len p q : Nat}
    (hp : FirstHit stop buf len p) (hq : FirstHit stop buf len q) : p = q := by
  have hple := hp.le
  have hqle := hq.le
  rcases Nat.lt_trichotomy p q with hlt | heq | hgt
  · have hhit := hp.hit (by omega)
    rw [hq.before p hlt] at hhit
    cases hhit
  · exact heq
  · have hhit := hq.hit (by omega)
    rw [hp.before q hgt] at hhit
    cases hhit

theorem getD_tail (buf : Bytes) (k : Nat) : buf.tail.getD k 0 = buf.getD (k + 1) 0 := by
  cases buf with
  | nil | cons b rest => rfl

theorem firstHit_scanBytes (buf : Bytes) (len : Nat) :
    FirstHit stop buf len (scanBytes stop buf len) := by
  induction len generalizing buf with
  | zero =>
    refine ⟨Nat.le_refl 0, ?_, ?_⟩
    · intro k hk
      cases hk
    · intro h
      cases h
  | succ len ih =>
    rw [scanBytes]
    split
    · rename_i hstop
      refine ⟨Nat.zero_le _, ?_, fun _ => hstop⟩
      intro k hk
      cases hk
    · rename_i hgo
      rcases ih buf.tail with ⟨hle, hbefore, hhit⟩
      refine ⟨Nat.succ_le_succ hle, ?_, ?_⟩
      · intro k hk
        cases k with
        | zero => exact Bool.eq_false_iff.mpr hgo
        | succ k =>
          rw [← getD_tail]
          exact hbefore k (Nat.lt_of_succ_lt_succ hk)
      · intro hlt
        rw [← getD_tail]
        exact hhit (Nat.lt_of_succ_lt_succ hlt)

theorem laneMask_length (buf : Bytes) (i : Nat) : (laneMask stop buf i).length = 32 := by
  simp [laneMask]

theorem getElem_laneMask (buf : Bytes) (i k : Nat) (hk : k < (laneMask stop buf i).length) :
    (laneMask stop buf i)[k] = stop (buf.getD (i + k) 0) := by
  simp [laneMask]

theorem firstHit_scanBlocks (buf : Bytes) (len fuel i : Nat)
    (hbefore : forall k, k < i -> k < len -> stop (buf.getD k 0) = false)
    (hfuel : len <= i + fuel * 32) : FirstHit stop buf len (scanBlocks stop buf len fuel i) := by
  have hnone : len <= i -> FirstHit stop buf len len := by
    intro hle
    refine ⟨Nat.le_refl len, ?_, fun h => absurd h (Nat.lt_irrefl len)⟩
    intro k hk
    exact hbefore k (by omega) hk
  induction fuel generalizing i with
  | zero => exact hnone (by omega)
  | succ fuel ih =>
    rw [scanBlocks]
    split
    · rename_i hlt
      have hlen := laneMask_length stop buf i
      split
      · rename_i hany
        have hexists : exists b, b ∈ laneMask stop buf i ∧ id b = true := by
          simpa using any_eq_true.mp hany
        have hidx := findIdx_lt_length_of_exists hexists
        -- The lowest set bit of the mask, which may lie past `len`.
        have hhit := findIdx_getElem (w := hidx)
        rw [getElem_laneMask] at hhit
        have hmiss : forall k, k < (laneMask stop buf i).findIdx id ->
            stop (buf.getD (i + k) 0) = false := by
          intro k hk
          have hkmask := not_of_lt_findIdx hk
          rw [getElem_laneMask] at hkmask
          simpa using hkmask
        refine ⟨Nat.min_le_right _ _, ?_, ?_⟩
        · intro k hk
          by_cases hki : k < i
          · exact hbefore k hki (by omega)
          · have hkmiss := hmiss (k - i) (by omega)
            rwa [Nat.add_sub_cancel' (by omega)] at hkmiss
        · intro hp
          rw [Nat.min_eq_left (by omega)]
          exact hhit
      · rename_i hany
        have hmiss : forall k, k < 32 -> stop (buf.getD (i + k) 0) = false := by
          intro k hk
          rw [Bool.eq_false_iff]
          intro hstop
          apply hany
          rw [any_eq_true]
          exact ⟨true, mem_map.mpr ⟨k, mem_range.mpr hk, hstop⟩, rfl⟩
        have hstep : forall k, k < i + 32 -> k < len ->
            stop (buf.getD k 0) = false := by
          intro k hk hklen
          by_cases hki : k < i
          · exact hbefore k hki hklen
          · have hkmiss := hmiss (k - i) (by omega)
            rwa [Nat.add_sub_cancel' (by omega)] at hkmiss
        refine ih (i + 32) hstep (by omega) ?_
        intro hle
        refine ⟨Nat.le_refl len, ?_, fun h => absurd h (Nat.lt_irrefl len)⟩
        intro k hk
        exact hstep k (by omega) hk
    · rename_i hge
      exact hnone (by omega)

/-- Looking at 32 bytes at a time finds what looking at every byte finds. -/
theorem scanBlocks_eq_scanBytes (buf : Bytes) (len : Nat) :
    scanBlocks stop buf len len 0 = scanBytes stop buf len :=
  (firstHit_scanBlocks stop buf len len 0 (by intro k hk; cases hk)
    (by omega)).unique (firstHit_scanBytes stop buf len)

end Async2.Scan
