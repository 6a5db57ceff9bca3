import Async2.Hjson.Moves

/-!
# Strings and keys stay inside the input

The reading functions of strings and keys move the reader forward over the input,
take slices inside of it only, and end before their fuel does.
-/

namespace Async2.Hjson

open Reader Scan

/-- A reading function has moved the reader and has not run out of fuel. -/
structure Ends {α : Type} (r : Reader) (out : Outcome α × Reader) : Prop where
  moves : Moves r out.2
  finishes : out.1 ≠ .stuck

/-- A reading function that returned something has read something. -/
def Consumes {α : Type} (r : Reader) (out : Outcome α × Reader) : Prop :=
  forall a, out.1 = .ok a -> r.pos < out.2.pos

section

variable {α β : Type} {r r' : Reader} {out : Outcome α × Reader}

section

variable (h : Moves r r')
include h

theorem Moves.ok (a : α) : Ends r (.ok a, r') :=
  ⟨h, nofun⟩

theorem Moves.null : Ends r ((.null, r') : Outcome α × Reader) :=
  ⟨h, nofun⟩

theorem Moves.thrown : Ends r ((.thrown, r') : Outcome α × Reader) :=
  ⟨h, nofun⟩

theorem Moves.ends (hout : Ends r' out) : Ends r out :=
  ⟨h.trans hout.moves, hout.finishes⟩

theorem Moves.consumes (hout : Consumes r' out) : Consumes r out :=
  fun a ha => Nat.lt_of_le_of_lt h.pos_le (hout a ha)

end

theorem consumes_of_lt (h : r.pos < r'.pos) (hout : Ends r' out) : Consumes r out :=
  fun _ _ => Nat.lt_of_lt_of_le h hout.moves.pos_le

theorem consumes_null : Consumes r ((.null, r') : Outcome α × Reader) := by
  intro a ha
  cases ha

theorem Ends.andThen {p : Parser α} {f : α -> Parser β} (h : Ends r (p r))
    (hf : forall a, (p r).1 = .ok a -> Ends (p r).2 (f a (p r).2)) : Ends r (p.andThen f r) := by
  unfold Parser.andThen
  rcases hp : p r with ⟨out, r1⟩
  rw [hp] at h hf
  cases out with
  | ok a => exact h.moves.ends (hf a rfl)
  | null => exact h.moves.null
  | thrown => exact h.moves.thrown
  | stuck => exact absurd rfl h.finishes

end

/-!
## Multi-line strings
-/

variable {out : Bytes} {fuel : Nat} {r : Reader} {quote : UInt8}

theorem moves_skipIndent (skip : Nat) (h : r.pos <= r.len) : Moves r (skipIndent skip r) := by
  induction skip generalizing r with
  | zero => exact Moves.refl h
  | succ skip ih =>
    rw [skipIndent]
    split
    · rename_i hblank
      have hone := moves_advance (n := 1) hblank.left
      exact hone.trans (ih hone.inside)
    · exact Moves.refl h

section

variable (h : r.pos <= r.len)
include h

theorem ends_multilineLoop {indent triple : Nat} {lastLf : Bool} (hfuel : r.len - r.pos <= fuel) :
    Ends r (multilineLoop indent (fuel + 1) triple lastLf out r) := by
  induction fuel generalizing r triple lastLf out with
  | zero =>
    rw [multilineLoop, if_neg (by omega)]
    exact (Moves.refl h).null
  | succ fuel ih =>
    rw [multilineLoop]
    split
    · rename_i hlt
      have hone := moves_advance (n := 1) hlt
      have hless : r.pos < (r.advance 1).pos := Nat.lt_succ_self _
      dsimp only
      split
      · split
        · exact hone.ok _
        · exact hone.ends (ih hone.inside (hone.less hless hfuel))
      · split
        · have hall := hone.trans (moves_skipIndent indent hone.inside)
          refine hall.ends (ih hall.inside (hall.less ?_ hfuel))
          exact Nat.lt_of_lt_of_le hless (moves_skipIndent indent hone.inside).pos_le
        · split
          · exact hone.ends (ih hone.inside (hone.less hless hfuel))
          · have hslice := moves_noteSlice (a := r.pos) (b := r.pos + 1) h
              ⟨Nat.le_succ _, hlt⟩
            have hall := hslice.trans
              (moves_advance (r := r.noteSlice r.pos (r.pos + 1)) (n := 1) hlt)
            exact hall.ends (ih hall.inside (hall.less hless hfuel))
    · exact (Moves.refl h).null

theorem ends_readMultilineString : Ends r (readMultilineString r) := by
  unfold readMultilineString
  have hblanks := moves_skipIndent r.len h
  have hline : Moves r
      (if (skipIndent r.len r).pos < (skipIndent r.len r).len ∧
          (skipIndent r.len r).peek = byte '\n' then
        skipIndent (indentOf r.data (r.pos - 3)) ((skipIndent r.len r).advance 1)
      else skipIndent r.len r) := by
    split
    · rename_i hlf
      have hone := hblanks.trans (moves_advance (n := 1) hlf.left)
      exact hone.trans (moves_skipIndent _ hone.inside)
    · exact hblanks
  exact hline.ends (ends_multilineLoop hline.inside (Nat.sub_le _ _))

/-!
## Quoted strings
-/

theorem ends_parseUEscape : Ends r (parseUEscape r) := by
  unfold parseUEscape
  split
  · exact (Moves.refl h).null
  · rename_i hfour
    split
    · exact (Moves.refl h).null
    · exact (moves_advance (by omega)).ok _

theorem ends_quotedSpecial {goOn : Bytes -> Parser Bytes}
    (hgo : forall out r', Moves r r' -> r.pos < r'.pos -> Ends r' (goOn out r')) :
    Ends r (quotedSpecial quote goOn out r) := by
  unfold quotedSpecial
  split
  · exact (Moves.refl h).null
  · rename_i hlt
    have hone : Moves r (r.advance 1) := moves_advance (by omega)
    have hless : r.pos < (r.advance 1).pos := Nat.lt_succ_self _
    dsimp only
    split
    · exact hone.ok _
    · split
      · exact hone.null
      · split
        · exact hone.ends (hgo _ _ hone hless)
        · split
          · exact hone.null
          · rename_i hlt'
            have htwo := hone.trans
              (moves_advance (r := r.advance 1) (n := 1) (by omega))
            have hless' : r.pos < ((r.advance 1).advance 1).pos :=
              Nat.lt_succ_of_lt hless
            split
            · refine htwo.ends ((ends_parseUEscape htwo.inside).andThen ?_)
              intro cp _
              have hunit := (ends_parseUEscape htwo.inside).moves
              exact hgo _ _ (htwo.trans hunit) (Nat.lt_of_lt_of_le hless' hunit.pos_le)
            · split
              · exact htwo.null
              · exact htwo.ends (hgo _ _ htwo hless')

theorem ends_quotedLoop (hfuel : r.len - r.pos <= fuel) :
    Ends r (quotedLoop scalarScanner quote (fuel + 1) out r) := by
  induction fuel generalizing r out with
  | zero =>
    rw [quotedLoop, if_neg (by omega)]
    exact (Moves.refl h).null
  | succ fuel ih =>
    rw [quotedLoop]
    split
    · have hle := scan_le (endsRun quote) r.rest (r.len - r.pos)
      have hslice := moves_noteSlice (a := r.pos)
        (b := r.pos + scanBytes (endsRun quote) r.rest (r.len - r.pos)) h
        ⟨Nat.le_add_right _ _, by omega⟩
      have hrun := hslice.trans (moves_advance
        (n := scanBytes (endsRun quote) r.rest (r.len - r.pos)) (by
          change r.pos + _ <= r.len
          omega))
      refine hrun.ends (ends_quotedSpecial hrun.inside ?_)
      intro out r' hr' hless
      have hall := hrun.trans hr'
      exact ih hall.inside (hall.less (Nat.lt_of_le_of_lt hrun.pos_le hless) hfuel)
    · exact (Moves.refl h).null

end

theorem lt_len_of_quote {flag : UInt8} (h : inClass r.peek flag = true) : r.pos < r.len := by
  refine lt_len_of_charAt ?_
  intro hzero
  rw [peek, hzero] at h
  have hall : forall f : UInt8, inClass 0 f = false := by
    intro f
    simp [inClass, cc, byte]
  rw [hall] at h
  cases h

theorem ends_readQuotedString (allowMl : Bool) (h : r.pos <= r.len) :
    Ends r (readQuotedString scalarScanner allowMl r) ∧
      Consumes r (readQuotedString scalarScanner allowMl r) := by
  unfold readQuotedString
  dsimp only
  split
  · exact ⟨(Moves.refl h).null, consumes_null⟩
  · rename_i hquote
    have hlt := lt_len_of_quote (Bool.of_not_eq_false hquote)
    have hone : r.skipOne = r.advance 1 := if_pos hlt
    rw [hone]
    have hmoves : Moves r (r.advance 1) := moves_advance hlt
    have hless : r.pos < (r.advance 1).pos := Nat.lt_succ_self _
    -- Whatever follows the opening quote, something has been read.
    have hboth : forall {out : Outcome Bytes × Reader}, Ends (r.advance 1) out ->
        Ends r out ∧ Consumes r out :=
      fun hout => ⟨hmoves.ends hout, consumes_of_lt hless hout⟩
    split
    · rename_i htriple
      refine hboth ?_
      have hthird : (r.advance 1).pos + 1 < (r.advance 1).len := by
        refine lt_len_of_charAt ?_
        rw [show (r.advance 1).charAt ((r.advance 1).pos + 1) = byte '\'' from
          htriple.right.right.right]
        decide
      have htwo : Moves (r.advance 1) ((r.advance 1).advance 2) := moves_advance hthird
      exact htwo.ends (ends_readMultilineString htwo.inside)
    · split
      · exact hboth ((moves_skipOne hmoves.inside).ok _)
      · exact hboth (ends_quotedLoop hmoves.inside (Nat.sub_le _ _))

/-!
## Keys
-/

theorem ends_unquotedKeyLoop {keyStart keyEnd : Nat} {firstSpace : Int} (h : r.pos <= r.len)
    (hkey : keyEnd <= r.pos) (hfuel : r.len - r.pos <= fuel) :
    Ends r (unquotedKeyLoop keyStart (fuel + 1) keyEnd firstSpace r) := by
  induction fuel generalizing r keyEnd firstSpace with
  | zero =>
    rw [unquotedKeyLoop, if_neg (by omega)]
    exact (Moves.refl h).null
  | succ fuel ih =>
    rw [unquotedKeyLoop]
    split
    · rename_i hlt
      have hone := moves_advance (n := 1) hlt
      have hless : r.pos < (r.advance 1).pos := Nat.lt_succ_self _
      have hrest := hone.less hless hfuel
      dsimp only
      split
      · split
        · exact (Moves.refl h).null
        · rename_i hsome
          split
          · exact (Moves.refl h).null
          · exact (moves_noteSlice h
              ⟨Nat.le_of_lt (Nat.lt_of_not_le hsome), hkey.trans h⟩).ok _
      · split
        · split
          · exact (Moves.refl h).null
          · exact hone.ends (ih hone.inside (hkey.trans hone.pos_le) hrest)
        · split
          · exact (Moves.refl h).null
          · exact hone.ends (ih hone.inside (Nat.le_refl _) hrest)
    · exact (Moves.refl h).null

theorem ends_readKey (h : r.pos <= r.len) : Ends r (readKey scalarScanner r) := by
  unfold readKey
  split
  · split
    · exact (Moves.refl h).null
    · exact (ends_readQuotedString false h).left
  · exact ends_unquotedKeyLoop h (Nat.le_refl _) (Nat.sub_le _ _)

end Async2.Hjson
