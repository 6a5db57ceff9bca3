import Async2.Hjson.Cursor
import Async2.Hjson.Ends

/-!
# The slices of the parser

The reader of unquoted values starts a value behind a leading control character
but counts its end from that character on.  When nothing solid follows on the
line, the end lies before the start.  This is the only way in which a slice of
the parser leaves the input.
-/

namespace Async2.Hjson

open Reader Scan Json List

/-!
## Bytes of an unquoted value
-/

variable {rest : Bytes} {start stop fuel : Nat} {r : Reader} {c : UInt8}

theorem inClass_nl (c : UInt8) : inClass c ccNl = endsLine c := by
  revert c
  decide +kernel

theorem charValue_control (c : UInt8) :
    (charValue c <= 32 ∧ 0 < charValue c) <-> (0 < c ∧ c <= 32) := by
  revert c
  decide +kernel

theorem solid_of_isBreak (h : isBreak r = true) : 32 < r.peek ∧ startsNumber r.peek = false := by
  have hall : forall c : UInt8, (c == byte ',' || c == byte '}' || c == byte ']' ||
      (inClass c ccHash || inClass c ccSlash)) = true -> 32 < c ∧ startsNumber c = false := by
    decide +kernel
  refine hall r.peek ?_
  unfold isBreak isCommentStart at h
  simp only [Bool.or_eq_true, Bool.and_eq_true] at h ⊢
  rcases h with h | h | ⟨⟨h, _⟩, _⟩
  · exact .inl h
  · exact .inr (.inl h)
  · exact .inr (.inr h)

theorem not_startsNumber (h : ¬32 < c) : startsNumber c = false := by
  revert c
  decide +kernel

/-!
## Unquoted values
-/

theorem lt_of_keywordBetween {n : DataNode} (h : keywordBetween r start stop = some n) :
    start < stop := by
  unfold keywordBetween at h
  split at h
  · cases h
  · rename_i hle
    by_contra hge
    have hzero : stop - start = 0 := by omega
    rw [hzero, tryParseKeywordOrNumber, if_pos rfl] at h
    cases h

theorem keywordBetween_of_lt (h : stop < start) : keywordBetween r start stop = none :=
  if_pos h

theorem moves_noteNumber (h : r.pos <= r.len) (hslice : start <= stop ∧ stop <= r.len) :
    Moves r (noteNumber r start stop) := by
  unfold noteNumber
  split
  · exact moves_noteSlice h hslice
  · exact Moves.refl h

theorem noteNumber_pos : (noteNumber r start stop).pos = r.pos := by
  unfold noteNumber
  split <;> rfl

theorem ends_endUnquoted {valStart valEnd : Nat} (h : r.pos <= r.len)
    (hstart : valStart <= valEnd) (hend : valEnd <= r.pos) :
    Ends r (endUnquoted valStart valEnd r) ∧
      forall a, (endUnquoted valStart valEnd r).1 = .ok a ->
        valStart < (endUnquoted valStart valEnd r).2.pos := by
  unfold endUnquoted
  split
  · exact ⟨(Moves.refl h).null, nofun⟩
  · rename_i hne
    have hnoted := moves_noteSlice h (a := valStart) (b := valEnd)
      ⟨hstart, hend.trans h⟩
    have hlt : valStart < (r.noteSlice valStart valEnd).pos :=
      Nat.lt_of_lt_of_le (Nat.lt_of_le_of_ne hstart (Ne.symm hne)) hend
    dsimp only
    split
    · exact ⟨hnoted.ok _, fun _ _ => hlt⟩
    · rw [if_neg (Nat.not_lt_of_le hstart)]
      exact ⟨hnoted.ok _, fun _ _ => hlt⟩

/-- From the first solid byte on, all slices are in range. -/
theorem ends_unquotedLoop (valStart valEnd : Nat) (h : r.pos <= r.len)
    (hstart : valStart <= valEnd) (hend : valEnd <= r.pos) (hfuel : r.len - r.pos <= fuel) :
    Ends r (unquotedLoop valStart (fuel + 1) valEnd r) ∧
      forall a, (unquotedLoop valStart (fuel + 1) valEnd r).1 = .ok a ->
        valStart < (unquotedLoop valStart (fuel + 1) valEnd r).2.pos := by
  induction fuel generalizing r valEnd with
  | zero =>
    rw [unquotedLoop, if_pos (by omega)]
    exact ends_endUnquoted h hstart hend
  | succ fuel ih =>
    rw [unquotedLoop]
    split
    · exact ends_endUnquoted h hstart hend
    · rename_i hlt
      split
      · exact ends_endUnquoted h hstart hend
      · have hnext : valStart <= (if 32 < r.peek then r.pos + 1 else valEnd) ∧
            (if 32 < r.peek then r.pos + 1 else valEnd) <= r.pos + 1 := by
          split <;> omega
        have hslice := And.intro hstart (hend.trans h)
        -- Either way the loop goes on behind this byte.
        have hgoOn : forall {r1 : Reader}, Moves r r1 -> r1.pos = r.pos + 1 ->
            Ends r (unquotedLoop valStart (fuel + 1)
              (if 32 < r.peek then r.pos + 1 else valEnd) r1) ∧
            forall a, (unquotedLoop valStart (fuel + 1)
              (if 32 < r.peek then r.pos + 1 else valEnd) r1).1 = .ok a ->
              valStart < (unquotedLoop valStart (fuel + 1)
                (if 32 < r.peek then r.pos + 1 else valEnd) r1).2.pos := by
          intro r1 hr1 hpos
          have hrest := ih _ hr1.inside hnext.left (by rw [hpos]; exact hnext.right)
            (hr1.less (by omega) hfuel)
          exact ⟨hr1.ends hrest.left, hrest.right⟩
        dsimp only
        split
        · split
          · rename_i hkw
            refine ⟨(moves_noteSlice h hslice).ok _, fun _ _ => ?_⟩
            exact Nat.lt_of_lt_of_le (lt_of_keywordBetween hkw) hend
          · have hnoted := moves_noteNumber h hslice
            refine hgoOn (hnoted.trans (moves_advance (n := 1) ?_)) ?_
            · rw [hnoted.len, noteNumber_pos]
              omega
            · exact congrArg (· + 1) noteNumber_pos
        · exact hgoOn (moves_advance (by omega)) rfl

/-- What the loop does before the first solid byte of a value that starts with a
control character. -/
structure BlankRun (r : Reader) (p : Nat) (out : Outcome DataNode × Reader) : Prop where
  grows : Grows r out.2
  finishes : out.1 ≠ .stuck
  consumes : forall a, out.1 = .ok a -> p < out.2.pos
  solid : blankLine r.rest = false -> Moves r out.2

theorem blankRun_endUnquoted {p : Nat} (h : r.pos <= r.len) (hblank : blankLine r.rest = true) :
    BlankRun r p (endUnquoted (p + 1) p r) := by
  have hout : endUnquoted (p + 1) p r = (.thrown, r.noteSlice (p + 1) p) := by
    unfold endUnquoted
    rw [if_neg (by omega), keywordBetween_of_lt (by omega)]
    exact if_pos (by omega)
  rw [hout]
  refine ⟨grows_noteSlice _ _ h, nofun, nofun, ?_⟩
  intro hsolid
  rw [hblank] at hsolid
  cases hsolid

/-- The byte behind the control character is the one at the position of the reader, or no
number starts with it. -/
theorem blankRun_unquotedLoop {p : Nat} (h : r.pos <= r.len) (hp : p < r.pos)
    (hnumber : r.pos = p + 1 ∨ startsNumber (r.charAt (p + 1)) = false)
    (hfuel : r.len - r.pos <= fuel) : BlankRun r p (unquotedLoop (p + 1) (fuel + 1) p r) := by
  induction fuel generalizing r with
  | zero =>
    have hnil : r.rest = [] := (len_le_iff r).mp (by omega)
    rw [unquotedLoop, if_pos (by omega)]
    exact blankRun_endUnquoted h (by rw [hnil]; rfl)
  | succ fuel ih =>
    rw [unquotedLoop]
    cases hrest : r.rest with
    | nil =>
      rw [if_pos ((len_le_iff r).mpr hrest)]
      exact blankRun_endUnquoted h (by rw [hrest]; rfl)
    | cons c rest =>
      have hlt := pos_lt_of_rest hrest
      have hpeek := peek_of_rest hrest
      have hadvance : Moves r (r.advance 1) := moves_advance hlt
      rw [if_neg (Nat.not_le_of_lt hlt), hpeek, inClass_nl]
      by_cases hline : endsLine c = true
      · rw [if_pos hline]
        exact blankRun_endUnquoted h (by rw [hrest, blankLine, hline]; rfl)
      rw [if_neg hline]
      dsimp only
      by_cases hsolid : 32 < c
      · rw [if_pos hsolid]
        -- The end of the value has been set behind this byte, and so behind its start.
        have hgood := ends_unquotedLoop (p + 1) (r.pos + 1) hadvance.inside (Nat.le_succ_of_le hp)
          (Nat.le_refl _) (hadvance.less (Nat.lt_succ_self _) hfuel)
        have hmoves := hadvance.trans hgood.left.moves
        have hrun : BlankRun r p (unquotedLoop (p + 1) (fuel + 1) (r.pos + 1) (r.advance 1)) :=
          ⟨hmoves.toGrows, hgood.left.finishes, fun a ha => Nat.lt_of_succ_lt (hgood.right a ha),
            fun _ => hmoves⟩
        split
        · -- At a break no number is tried, so nothing is taken.
          rename_i hbreak
          have hno : startsNumber (r.charAt (p + 1)) = false := by
            rcases hnumber with hpos | hno
            · rw [← hpos]
              exact (solid_of_isBreak hbreak).right
            · exact hno
          rw [keywordBetween_of_lt (by omega), noteNumber, if_neg (by simp [hno])]
          exact hrun
        · exact hrun
      · have hnobreak : ¬isBreak r = true := by
          intro hbreak
          have hgt := (solid_of_isBreak hbreak).left
          rw [hpeek] at hgt
          exact hsolid hgt
        have hrun : blankLine r.rest = blankLine (r.advance 1).rest := by
          have hle : c <= 32 := UInt8.not_lt.mp hsolid
          rw [rest_advance_one hrest, hrest, blankLine, Bool.eq_false_iff.mpr hline,
            decide_eq_true hle]
          rfl
        have hnext : startsNumber ((r.advance 1).charAt (p + 1)) = false := by
          rcases hnumber with hpos | hno
          · change startsNumber (r.charAt (p + 1)) = false
            rw [← hpos, ← peek, hpeek]
            exact not_startsNumber hsolid
          · exact hno
        rw [if_neg hnobreak, if_neg hsolid]
        have hgoOn := ih hadvance.inside (Nat.lt_succ_of_lt hp) (.inr hnext)
          (hadvance.less (Nat.lt_succ_self _) hfuel)
        refine ⟨hadvance.toGrows.trans hgoOn.grows, hgoOn.finishes, hgoOn.consumes, ?_⟩
        rw [hrun]
        exact fun hnot => hadvance.trans (hgoOn.solid hnot)

theorem ends_readUnquotedValue (h : r.pos < r.len) (hws : endsWs r.peek = true) :
    Ends r (readUnquotedValue r) ∧ Consumes r (readUnquotedValue r) := by
  unfold readUnquotedValue
  dsimp only
  split
  · exact ⟨(Moves.refl (Nat.le_of_lt h)).null, consumes_null⟩
  by_cases hcontrol : 0 < r.peek ∧ r.peek <= 32
  · rw [if_pos ((charValue_control r.peek).mpr hcontrol)]
    have hadvance : Moves r (r.advance 1) := moves_advance h
    have hall : forall c : UInt8, endsWs c = true -> ¬inClass c ccNl = true := by
      decide +kernel
    have hsolid : ¬32 < r.peek := UInt8.not_lt.mpr hcontrol.right
    rcases Nat.exists_eq_add_of_lt (Nat.lt_of_le_of_lt (Nat.zero_le _) h) with ⟨fuel, hfuel⟩
    rw [Nat.zero_add] at hfuel
    -- The control character itself is passed over.
    rw [unquotedLoop, if_neg (Nat.not_le_of_lt h), if_neg (hall _ hws)]
    dsimp only
    rw [if_neg (fun hbreak => hsolid (solid_of_isBreak hbreak).left), if_neg hsolid, hfuel]
    have hless : (r.advance 1).len - (r.advance 1).pos <= fuel :=
      hadvance.less (Nat.lt_succ_self _) (by omega)
    have hrun := blankRun_unquotedLoop (p := r.pos) hadvance.inside (Nat.lt_succ_self _)
      (.inl rfl) hless
    refine ⟨⟨⟨hadvance.toGrows.trans hrun.grows, fun htext hr => ?_⟩, hrun.finishes⟩, hrun.consumes⟩
    -- The line goes on with a solid byte, since it does not end in a control character.
    have hline : blankLine (r.advance 1).rest = false := by
      have hdrop := endsInControl_drop htext r.pos
      change endsInControl r.rest = false at hdrop
      cases hrest : r.rest with
      | nil => exact absurd hrest ((lt_len_iff r).mp h)
      | cons c rest =>
        rw [hrest, endsInControl, Bool.or_eq_false_iff] at hdrop
        rw [peek_of_rest hrest] at hcontrol hws
        rw [isControl, decide_eq_true hcontrol.left, decide_eq_true hcontrol.right, hws] at hdrop
        rw [rest_advance_one hrest]
        exact hdrop.left
    exact (hadvance.trans (hrun.solid hline)).slices htext hr
  · rw [if_neg (fun hc => hcontrol ((charValue_control r.peek).mp hc))]
    exact ends_unquotedLoop r.pos r.pos (Nat.le_of_lt h) (Nat.le_refl _) (Nat.le_refl _)
      (Nat.sub_le r.len r.pos)

/-!
## Behind whitespace
-/

theorem endsWs_skipWsLoop (h : r.pos <= r.len) (hfuel : r.len - r.pos < fuel) :
    (skipWsLoop scalarScanner fuel r).pos < (skipWsLoop scalarScanner fuel r).len ->
      endsWs (skipWsLoop scalarScanner fuel r).peek = true := by
  induction fuel generalizing r with
  | zero => omega
  | succ fuel ih =>
    rw [skipWsLoop]
    split
    case isFalse hend => exact fun hlt => absurd hlt hend
    have hscan := moves_scan h endsWs
    have hhit := (firstHit_scanBytes endsWs r.rest (r.len - r.pos)).hit
    -- Behind a comment less is left.
    have hcomment : forall {r1 r2 : Reader}, Moves r r1 -> Moves r1 r2 -> r1.pos < r2.pos ->
        (skipWsLoop scalarScanner fuel r2).pos < (skipWsLoop scalarScanner fuel r2).len ->
          endsWs (skipWsLoop scalarScanner fuel r2).peek = true := by
      intro r1 r2 h1 h2 hlt
      have hall := h1.trans h2
      have hle := hall.le_len
      have hpos := Nat.lt_of_le_of_lt h1.pos_le hlt
      exact ih hall.inside (by rw [hall.len]; omega)
    dsimp only
    split
    case isTrue hend => exact fun hlt => absurd hlt (Nat.not_lt.mpr hend)
    case isFalse hlt =>
      split
      · have hopen := moves_advance (n := 1) (Nat.lt_of_not_le hlt)
        have hline := moves_skipLine hopen.inside
        exact hcomment hscan (hopen.trans hline) hline.pos_le
      split
      case isTrue hslash =>
        have hopen := moves_advance (n := 2) hslash.right.left
        have hline := moves_skipLine hopen.inside
        exact hcomment hscan (hopen.trans hline) (Nat.le_of_succ_le hline.pos_le)
      split
      case isTrue hstar =>
        have hopen := moves_advance (n := 2) hstar.right.left
        have hblock := moves_skipBlock r.len hopen.inside
        exact hcomment hscan (hopen.trans hblock) (Nat.le_of_succ_le hblock.pos_le)
      · intro hmore
        rw [← r.charAt_add] at hhit
        change r.pos + scanBytes endsWs r.rest (r.len - r.pos) < r.len at hmore
        exact hhit (by omega)

theorem endsWs_skipWs (h : r.pos <= r.len)
    (hlt : (skipWs scalarScanner r).pos < (skipWs scalarScanner r).len) :
    endsWs (skipWs scalarScanner r).peek = true :=
  endsWs_skipWsLoop h (by omega) hlt

/-!
## Containers
-/

section

variable {child : Parser DataNode}
  (hchild : forall r, r.pos <= r.len -> Ends r (child r) ∧ Consumes r (child r))
include hchild

variable {fuel : Nat} {r : Reader}

theorem ends_arrayLoop (acc : List DataNode) (h : r.pos <= r.len) (hfuel : r.len - r.pos <= fuel) :
    Ends r (arrayLoop scalarScanner child (fuel + 1) acc r) := by
  induction fuel generalizing r acc with
  | zero =>
    rw [arrayLoop, if_neg (fun hmore => by omega)]
    exact (Moves.refl h).ok _
  | succ fuel ih =>
    rw [arrayLoop]
    split
    · have hval := hchild r h
      refine hval.left.andThen ?_
      intro a ha
      have hsep := moves_skipSeparator hval.left.moves.inside
      have hall := hval.left.moves.trans hsep
      have hless := Nat.lt_of_lt_of_le (hval.right a ha) hsep.pos_le
      exact hsep.ends (ih _ hall.inside (hall.less hless hfuel))
    · exact (Moves.refl h).ok _

theorem ends_readArray (h : r.pos <= r.len) : Ends r (readArray scalarScanner child r) := by
  have hws := moves_skipWs h
  have hloop := ends_arrayLoop hchild (r := skipWs scalarScanner r) []
    hws.inside (Nat.sub_le (skipWs scalarScanner r).len _)
  rw [hws.len] at hloop
  refine hws.ends (hloop.andThen ?_)
  intro arr _
  split
  · exact (Moves.refl hloop.moves.inside).null
  · rename_i hclose
    exact (moves_advance (n := 1) (by omega)).ok _

theorem ends_objectLoop (braced : Bool) (obj : List (Bytes × DataNode)) (h : r.pos <= r.len)
    (hfuel : r.len - r.pos <= fuel) :
    Ends r (objectLoop scalarScanner child braced (fuel + 1) obj r) := by
  induction fuel generalizing r obj with
  | zero =>
    rw [objectLoop, if_neg (fun hmore => by omega)]
    exact (Moves.refl h).ok _
  | succ fuel ih =>
    rw [objectLoop]
    split
    · have hkey := ends_readKey h
      refine hkey.andThen ?_
      intro key _
      have hws := moves_skipWs hkey.moves.inside
      dsimp only
      split
      · exact hws.null
      · rename_i hcolon
        -- The colon is what each turn of the loop takes at least.
        have hlt := lt_len_of_charAt (r := skipWs scalarScanner
          (readKey scalarScanner r).2) (i := (skipWs scalarScanner
            (readKey scalarScanner r).2).pos) (by
          rw [← peek, not_not.mp hcolon]
          decide)
        have hone := moves_advance (n := 1) hlt
        have hws' := moves_skipWs hone.inside
        have hstart := (hws.trans hone).trans hws'
        have hval := (hchild _ hws'.inside).left
        refine hstart.ends (hval.andThen ?_)
        intro val _
        have hsep := moves_skipSeparator hval.moves.inside
        have hall := (hkey.moves.trans hstart).trans (hval.moves.trans hsep)
        have hless : r.pos < (skipSeparator scalarScanner (child (skipWs scalarScanner
            ((skipWs scalarScanner (readKey scalarScanner r).2).advance 1))).2).pos :=
          Nat.lt_of_le_of_lt (hkey.moves.trans hws).pos_le
            (Nat.lt_of_lt_of_le (Nat.lt_succ_self _)
              (hws'.trans (hval.moves.trans hsep)).pos_le)
        exact hsep.ends (ih _ hall.inside (hall.less hless hfuel))
    · exact (Moves.refl h).ok _

theorem ends_readObject (braced : Bool) (h : r.pos <= r.len) :
    Ends r (readObject scalarScanner child braced r) := by
  have hws := moves_skipWs h
  have hloop := ends_objectLoop hchild (r := skipWs scalarScanner r) braced []
    hws.inside (Nat.sub_le (skipWs scalarScanner r).len _)
  rw [hws.len] at hloop
  refine hws.ends (hloop.andThen ?_)
  intro obj _
  split
  · split
    · exact (Moves.refl hloop.moves.inside).null
    · rename_i hclose
      exact (moves_advance (n := 1) (by omega)).ok _
  · exact (Moves.refl hloop.moves.inside).ok _

end

variable {r : Reader}

theorem ends_readValue (levels : Nat) (r : Reader) (h : r.pos <= r.len) :
    Ends r (readValue scalarScanner levels r) ∧ Consumes r (readValue scalarScanner levels r) := by
  induction levels generalizing r with
  | zero => exact ⟨(Moves.refl h).null, consumes_null⟩
  | succ levels ih =>
    rw [readValue]
    have hws := moves_skipWs h
    have hlift : forall {out : Outcome DataNode × Reader},
        Ends (skipWs scalarScanner r) out ∧ Consumes (skipWs scalarScanner r) out ->
        Ends r out ∧ Consumes r out :=
      fun hout => ⟨hws.ends hout.left, hws.consumes hout.right⟩
    split
    · exact ⟨hws.null, consumes_null⟩
    · rename_i hlt
      have hone := moves_advance (r := skipWs scalarScanner r) (n := 1) (by omega)
      split
      · have hobj := ends_readObject ih true hone.inside
        exact hlift ⟨hone.ends hobj, consumes_of_lt (Nat.lt_succ_self _) hobj⟩
      · split
        · have harr := ends_readArray ih hone.inside
          exact hlift ⟨hone.ends harr, consumes_of_lt (Nat.lt_succ_self _) harr⟩
        · split
          · have hstr := ends_readQuotedString true hws.inside
            refine hlift ⟨hstr.left.andThen ?_, ?_⟩
            · intro s _
              exact (Moves.refl hstr.left.moves.inside).ok _
            · intro n hn
              unfold Parser.andThen at hn ⊢
              rcases hread : readQuotedString scalarScanner true
                (skipWs scalarScanner r) with ⟨out, r1⟩
              rw [hread] at hn hstr
              cases out with
              | ok s => exact hstr.right s rfl
              | _ => cases hn
          · have hmore := Nat.lt_of_not_le hlt
            exact hlift (ends_readUnquotedValue hmore (endsWs_skipWs h hmore))

/-!
## The whole parser
-/

theorem ends_atEnd {val : DataNode} (h : r.pos <= r.len) : Ends r (atEnd scalarScanner val r) := by
  unfold atEnd
  dsimp only
  split
  · exact (moves_skipWs h).null
  · exact (moves_skipWs h).ok _

theorem ends_valueAtEnd (h : r.pos <= r.len) :
    Ends r (((readValue scalarScanner (maxDepth + 1)).andThen (atEnd scalarScanner)) r) := by
  have hval := (ends_readValue (maxDepth + 1) r h).left
  exact hval.andThen (fun _ _ => ends_atEnd hval.moves.inside)

/-- The second attempt starts at the beginning again, with what the first one has
noted. -/
theorem readBraceless_spec (h : r.pos <= r.len) :
    (readBraceless scalarScanner r).1 ≠ .stuck ∧
      (readBraceless scalarScanner r).2.data = r.data ∧
      (endsInControl r.data = false -> SlicesInside r ->
        SlicesInside (readBraceless scalarScanner r).2) := by
  have hobj := ends_readObject (ends_readValue maxDepth) false h
  have hfirst := hobj.andThen (f := atEnd scalarScanner)
    (fun _ _ => ends_atEnd hobj.moves.inside)
  unfold readBraceless
  rcases hout : ((readObject scalarScanner (readValue scalarScanner maxDepth)
    false).andThen (atEnd scalarScanner)) r with ⟨out, r1⟩
  rw [hout] at hfirst
  cases out with
  | ok n | thrown => exact ⟨nofun, hfirst.moves.data, hfirst.moves.slices⟩
  | stuck => exact absurd rfl hfirst.finishes
  | null =>
    have hdata : r1.data = r.data := hfirst.moves.data
    have hws := moves_skipWs (r := { r1 with pos := 0 }) (Nat.zero_le _)
    have hsecond := hws.ends (ends_valueAtEnd hws.inside)
    refine ⟨hsecond.finishes, hsecond.moves.data.trans hdata, ?_⟩
    intro htext hr
    refine hsecond.moves.slices ?_ (hfirst.moves.slices htext hr)
    rw [hdata]
    exact htext

/-- The parser ends on every input, and its slices lie inside of it if no line ends in a
control character. -/
theorem parse_spec (data : Bytes) :
    (parse scalarScanner data).1 ≠ .stuck ∧
      (parse scalarScanner data).2.data = data ∧
      (endsInControl data = false -> SlicesInside (parse scalarScanner data).2) := by
  have hinit : SlicesInside ⟨data, 0, []⟩ := forall_mem_nil _
  have hws := moves_skipWs (r := ⟨data, 0, []⟩) (Nat.zero_le _)
  unfold parse
  dsimp only
  split
  · exact ⟨nofun, rfl, fun _ => hinit⟩
  · split
    · exact ⟨nofun, hws.data, fun htext => hws.slices htext hinit⟩
    · split
      · have hval := hws.ends (ends_valueAtEnd hws.inside)
        exact ⟨hval.finishes, hval.moves.data, fun htext => hval.moves.slices htext hinit⟩
      · rcases readBraceless_spec hws.inside with ⟨hfinishes, hdata, hslices⟩
        refine ⟨hfinishes, hdata.trans hws.data, fun htext => hslices ?_ (hws.slices htext hinit)⟩
        rw [hws.data]
        exact htext

theorem hjsonParse_ne_stuck (avx2 : Bool) (data : Bytes) :
    hjsonParse (initScanner avx2) data ≠ .stuck := by
  rw [initScanner_eq]
  exact (parse_spec data).left

end Async2.Hjson
