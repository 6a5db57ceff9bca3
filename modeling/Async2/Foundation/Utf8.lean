import Async2.Foundation.BigEndian
import Mathlib.Data.List.Basic

/-!
# Byte strings in UTF-8

A byte string is UTF-8 when it is the encoding of a list of characters.  ASCII
bytes stand for themselves and never occur inside the encoding of another
character, so that a UTF-8 byte string may be cut at any ASCII byte.
-/

namespace Async2.Utf8

open List

def IsUtf8 (w : Bytes) : Prop :=
  exists cs : List Char, w = cs.flatMap String.utf8EncodeChar

def IsAscii (b : UInt8) : Prop := b < 0x80

instance (b : UInt8) : Decidable (IsAscii b) := inferInstanceAs (Decidable (_ < _))

def AllAscii (w : Bytes) : Prop := forall b, b ∈ w -> IsAscii b

instance (w : Bytes) : Decidable (AllAscii w) := List.decidableBAll IsAscii w

variable {x y w a : Bytes} {b : UInt8}

theorem allAscii_append (hx : AllAscii x) (hy : AllAscii y) : AllAscii (x ++ y) := by
  intro b hb
  rcases mem_append.mp hb with hb | hb
  · exact hx b hb
  · exact hy b hb

theorem allAscii_cons (hb : IsAscii b) (hy : AllAscii y) : AllAscii (b :: y) := by
  intro c hc
  rcases mem_cons.mp hc with rfl | hc
  · exact hb
  · exact hy c hc

theorem allAscii_nil : AllAscii [] := by
  intro b hb
  cases hb

/-!
## The encoding of one character
-/

theorem utf8EncodeChar_cases (c : Char) :
    (exists b, IsAscii b ∧ String.utf8EncodeChar c = [b]) ∨
      forall b, b ∈ String.utf8EncodeChar c -> ¬IsAscii b := by
  have hofNat : forall v, 128 <= v -> v < 256 -> ¬IsAscii (UInt8.ofNat v) := by
    intro v hlow hhigh hlt
    unfold IsAscii at hlt
    rw [UInt8.lt_iff_toNat_lt, UInt8.toNat_ofNat'] at hlt
    change v % 256 < 128 at hlt
    omega
  unfold String.utf8EncodeChar
  dsimp only
  split
  · rename_i hsmall
    left
    refine ⟨_, ?_, rfl⟩
    unfold IsAscii
    rw [UInt8.lt_iff_toNat_lt, UInt8.toNat_ofNat']
    change _ % 256 < 128
    omega
  · right
    intro b hb
    split at hb
    · simp only [mem_cons, not_mem_nil, or_false] at hb
      rcases hb with rfl | rfl <;> exact hofNat _ (by omega) (by omega)
    · split at hb
      · simp only [mem_cons, not_mem_nil, or_false] at hb
        rcases hb with rfl | rfl | rfl <;> exact hofNat _ (by omega) (by omega)
      · simp only [mem_cons, not_mem_nil, or_false] at hb
        rcases hb with rfl | rfl | rfl | rfl <;> exact hofNat _ (by omega) (by omega)

theorem exists_char (h : IsAscii b) : exists c : Char, String.utf8EncodeChar c = [b] := by
  have hb : b.toNat < 128 := by
    unfold IsAscii at h
    rw [UInt8.lt_iff_toNat_lt] at h
    exact h
  refine ⟨Char.ofNat b.toNat, ?_⟩
  have hval : (Char.ofNat b.toNat).val.toNat = b.toNat := by
    have hvalid : b.toNat.isValidChar := .inl (by omega)
    rw [Char.ofNat, dif_pos hvalid]
    rfl
  unfold String.utf8EncodeChar
  dsimp only
  rw [hval, if_pos (by omega), UInt8.ofNat_toNat]

/-!
## Cutting and joining
-/

theorem isUtf8_nil : IsUtf8 [] := ⟨[], rfl⟩

theorem isUtf8_utf8EncodeChar (c : Char) : IsUtf8 (String.utf8EncodeChar c) :=
  ⟨[c], by simp⟩

theorem isUtf8_append (hx : IsUtf8 x) (hy : IsUtf8 y) : IsUtf8 (x ++ y) := by
  rcases hx with ⟨cs, rfl⟩
  rcases hy with ⟨ds, rfl⟩
  exact ⟨cs ++ ds, by rw [flatMap_append]⟩

theorem isUtf8_singleton (h : IsAscii b) : IsUtf8 [b] := by
  rcases exists_char h with ⟨c, hc⟩
  rw [← hc]
  exact isUtf8_utf8EncodeChar c

theorem isUtf8_of_allAscii (h : AllAscii w) : IsUtf8 w := by
  induction w with
  | nil => exact isUtf8_nil
  | cons b rest ih =>
    have hrest : AllAscii rest := fun x hx => h x (by simp [hx])
    exact isUtf8_append (isUtf8_singleton (h b (by simp))) (ih hrest)

theorem isUtf8_split (hb : IsAscii b) (h : IsUtf8 (x ++ b :: y)) : IsUtf8 x ∧ IsUtf8 y := by
  rcases h with ⟨cs, hcs⟩
  induction cs generalizing x with
  | nil => simp at hcs
  | cons c cs ih =>
    rw [flatMap_cons, append_eq_append_iff] at hcs
    rcases hcs with ⟨t, hc, ht⟩ | ⟨t, hx, ht⟩
    · -- The character starts in `x`, and its bytes are not cut by `b`.
      cases t with
      | nil =>
        rw [append_nil] at hc
        have hrest := ih (x := []) ht
        rw [← hc]
        exact ⟨isUtf8_utf8EncodeChar c, hrest.right⟩
      | cons b' t =>
        rw [cons_append, List.cons.injEq] at ht
        rcases ht with ⟨rfl, rfl⟩
        rcases utf8EncodeChar_cases c with ⟨b', _, hsingle⟩ | hnone
        · rw [hsingle] at hc
          cases x with
          | nil =>
            rw [nil_append, List.cons.injEq] at hc
            rw [← hc.right, nil_append]
            exact ⟨isUtf8_nil, cs, rfl⟩
          | cons _ x => simp at hc
        · exact absurd hb (hnone b (by simp [hc]))
    · have hrest := ih ht.symm
      rw [hx]
      exact ⟨isUtf8_append (isUtf8_utf8EncodeChar c) hrest.left, hrest.right⟩

theorem isUtf8_append_cons (hb : IsAscii b) : IsUtf8 (x ++ b :: y) <-> IsUtf8 x ∧ IsUtf8 y := by
  constructor
  · exact isUtf8_split hb
  · intro h
    exact isUtf8_append h.left (isUtf8_append (isUtf8_singleton hb) h.right)

theorem isUtf8_cons (hb : IsAscii b) : IsUtf8 (b :: y) <-> IsUtf8 y := by
  have h := isUtf8_append_cons (x := []) (y := y) hb
  rw [nil_append] at h
  rw [h, and_iff_right isUtf8_nil]

theorem isUtf8_ascii_append (ha : AllAscii a) : IsUtf8 (a ++ w) <-> IsUtf8 w := by
  induction a with
  | nil => rfl
  | cons b rest ih =>
    have hrest : AllAscii rest := fun x hx => ha x (by simp [hx])
    rw [cons_append, isUtf8_cons (ha b (by simp)), ih hrest]

theorem isUtf8_append_ascii (ha : AllAscii a) : IsUtf8 (w ++ a) <-> IsUtf8 w := by
  cases a with
  | nil => rw [append_nil]
  | cons b rest =>
    have hrest : AllAscii rest := fun x hx => ha x (by simp [hx])
    rw [isUtf8_append_cons (ha b (by simp)),
      and_iff_left (isUtf8_of_allAscii hrest)]

end Async2.Utf8
