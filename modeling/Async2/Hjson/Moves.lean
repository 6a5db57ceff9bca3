import Async2.Hjson.Parse

/-!
# How the reader moves

Whatever the bytes of the input are, every function moves the reader forward and
never past the end.  The slices that are taken out of the input lie inside of it
if no line of the input ends in a control character.
-/

namespace Async2.Hjson

open Reader Scan List

/-!
## Lines that end in a control character
-/

/-- A control character that is not whitespace. -/
def isControl (c : UInt8) : Bool := decide (0 < c) && decide (c <= 32) && endsWs c

/-- Up to the end of the line there are blanks and control characters only. -/
def blankLine : Bytes -> Bool
  | [] => true
  | c :: rest => endsLine c || (decide (c <= 32) && blankLine rest)

/-- A line of the text ends in a control character, blanks behind it aside. -/
def endsInControl : Bytes -> Bool
  | [] => false
  | c :: rest => (isControl c && blankLine rest) || endsInControl rest

theorem endsInControl_drop {s : Bytes} (h : endsInControl s = false) (n : Nat) :
    endsInControl (s.drop n) = false := by
  induction n generalizing s with
  | zero => exact h
  | succ n ih =>
    cases s with
    | nil => rfl
    | cons c rest => exact ih (Bool.or_eq_false_iff.mp h).right

/-!
## Moves of the reader
-/

/-- Every slice that was taken is a part of the input. -/
def SlicesInside (r : Reader) : Prop := forall s, s ∈ r.slices -> s.1 <= s.2 ∧ s.2 <= r.len

/-- The reader goes forward over the same input and stays inside. -/
structure Grows (r r' : Reader) : Prop where
  data : r'.data = r.data
  pos_le : r.pos <= r'.pos
  le_len : r'.pos <= r.len

/-- The reader goes forward and takes slices of the input only. -/
structure Moves (r r' : Reader) : Prop extends Grows r r' where
  slices : endsInControl r.data = false -> SlicesInside r -> SlicesInside r'

variable {fuel fuel' : Nat} {r r' r'' : Reader}

theorem Grows.len (h : Grows r r') : r'.len = r.len := by
  rw [Reader.len, h.data, Reader.len]

theorem Grows.inside (h : Grows r r') : r'.pos <= r'.len := by
  rw [h.len]
  exact h.le_len

theorem Grows.trans (h : Grows r r') (h' : Grows r' r'') : Grows r r'' := by
  refine ⟨h'.data.trans h.data, h.pos_le.trans h'.pos_le, ?_⟩
  rw [← h.len]
  exact h'.le_len

theorem Moves.len (h : Moves r r') : r'.len = r.len :=
  h.toGrows.len

theorem Moves.inside (h : Moves r r') : r'.pos <= r'.len :=
  h.toGrows.inside

theorem Moves.refl (h : r.pos <= r.len) : Moves r r :=
  ⟨⟨rfl, Nat.le_refl _, h⟩, fun _ hr => hr⟩

theorem Moves.trans (h : Moves r r') (h' : Moves r' r'') : Moves r r'' := by
  refine ⟨h.toGrows.trans h'.toGrows, fun htext hr => h'.slices ?_ (h.slices htext hr)⟩
  rw [h.data]
  exact htext

theorem Moves.less (h : Moves r r') (hpos : r.pos < r'.pos) (hfuel : r.len - r.pos <= fuel + 1) :
    r'.len - r'.pos <= fuel := by
  rw [h.len]
  have hle := h.le_len
  omega

theorem moves_advance {n : Nat} (h : r.pos + n <= r.len) : Moves r (r.advance n) :=
  ⟨⟨rfl, Nat.le_add_right _ _, h⟩, fun _ hr => hr⟩

theorem moves_skipOne (h : r.pos <= r.len) : Moves r r.skipOne := by
  unfold skipOne
  split
  · rename_i hlt
    exact moves_advance hlt
  · exact Moves.refl h

theorem grows_noteSlice (a b : Nat) (h : r.pos <= r.len) : Grows r (r.noteSlice a b) :=
  ⟨rfl, Nat.le_refl _, h⟩

theorem moves_noteSlice {a b : Nat} (h : r.pos <= r.len) (hslice : a <= b ∧ b <= r.len) :
    Moves r (r.noteSlice a b) :=
  ⟨grows_noteSlice a b h, fun _ hr => forall_mem_cons.mpr ⟨hslice, hr⟩⟩

theorem lt_len_of_charAt {i : Nat} (h : r.charAt i ≠ 0) : i < r.len := by
  by_contra hge
  refine h ?_
  rw [charAt, getD_eq_getElem?_getD, List.getElem?_eq_none (by
    rw [len] at hge
    omega)]
  rfl

theorem scan_le (stop : UInt8 -> Bool) (buf : Bytes) (n : Nat) : scanBytes stop buf n <= n :=
  (firstHit_scanBytes stop buf n).le

theorem moves_scan (h : r.pos <= r.len) (stop : UInt8 -> Bool) :
    Moves r (r.advance (scanBytes stop r.rest (r.len - r.pos))) := by
  have hle := scan_le stop r.rest (r.len - r.pos)
  exact moves_advance (by omega)

/-!
## Whitespace and comments
-/

theorem moves_skipLine (h : r.pos <= r.len) : Moves r (skipLine scalarScanner r) := by
  have hscan := moves_scan h endsLine
  exact hscan.trans (moves_skipOne hscan.inside)

theorem moves_skipBlock (fuel : Nat) (h : r.pos <= r.len) :
    Moves r (skipBlock scalarScanner fuel r) := by
  induction fuel generalizing r with
  | zero => exact Moves.refl h
  | succ fuel ih =>
    rw [skipBlock]
    split
    · have hscan := moves_scan h (· == byte '*')
      dsimp only
      split
      · rename_i hend
        exact hscan.trans (moves_advance hend.left)
      · have hone := moves_skipOne hscan.inside
        exact (hscan.trans hone).trans (ih hone.inside)
    · exact Moves.refl h

theorem moves_skipWsLoop (fuel : Nat) (h : r.pos <= r.len) :
    Moves r (skipWsLoop scalarScanner fuel r) := by
  induction fuel generalizing r with
  | zero => exact Moves.refl h
  | succ fuel ih =>
    rw [skipWsLoop]
    split
    · have hscan := moves_scan h endsWs
      -- Behind the opening of a comment its skipping goes on.
      have hcomment : forall {n : Nat} {skip : Reader -> Reader},
          (r.advance (scanBytes endsWs r.rest (r.len - r.pos))).pos + n <=
            (r.advance (scanBytes endsWs r.rest (r.len - r.pos))).len ->
          (forall r, r.pos <= r.len -> Moves r (skip r)) ->
          Moves r (skipWsLoop scalarScanner fuel (skip
            ((r.advance (scanBytes endsWs r.rest (r.len - r.pos))).advance n))) := by
        intro n skip hn hskip
        have hopen := moves_advance hn
        have hclose := hskip _ hopen.inside
        exact ((hscan.trans hopen).trans hclose).trans (ih hclose.inside)
      dsimp only
      split
      · exact hscan
      · rename_i hlt
        split
        · exact hcomment (Nat.lt_of_not_le hlt) (fun r hr => moves_skipLine hr)
        · split
          · rename_i hslash
            exact hcomment hslash.right.left (fun r hr => moves_skipLine hr)
          · split
            · rename_i hstar
              exact hcomment hstar.right.left
                (fun r hr => moves_skipBlock _ hr)
            · exact hscan
    · exact Moves.refl h

theorem moves_skipWs (h : r.pos <= r.len) : Moves r (skipWs scalarScanner r) :=
  moves_skipWsLoop _ h

theorem moves_skipSeparator (h : r.pos <= r.len) : Moves r (skipSeparator scalarScanner r) := by
  have hfirst := moves_skipWs h
  unfold skipSeparator
  dsimp only
  split
  · rename_i hcomma
    have hnext := moves_advance (n := 1) hcomma.left
    exact (hfirst.trans hnext).trans (moves_skipWs hnext.inside)
  · exact hfirst

end Async2.Hjson
