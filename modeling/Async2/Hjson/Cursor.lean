import Async2.Hjson.Parse
import Async2.Json.Written

/-!
# The reader in terms of what is left of the input

Everything that the parser does on a JSON text depends on the bytes that are left
only.  These lemmas express the tests and moves of the reader through
`Reader.rest`, and say where skipping whitespace ends.
-/

namespace Async2.Hjson

open Scan Json List

namespace Reader

variable (r : Reader)

theorem rest_length : r.rest.length = r.len - r.pos := by
  rw [rest, length_drop, len]

theorem rest_length_le : r.rest.length <= r.len := by
  rw [rest_length]
  omega

theorem lt_len_iff : r.pos < r.len <-> r.rest ≠ [] := by
  rw [rest, ne_eq, drop_eq_nil_iff, len]
  omega

theorem len_le_iff : r.len <= r.pos <-> r.rest = [] := by
  rw [rest, drop_eq_nil_iff, len]

theorem charAt_add (k : Nat) : r.charAt (r.pos + k) = r.rest.getD k 0 := by
  simp [charAt, rest, getD_eq_getElem?_getD, List.getElem?_drop]

theorem peek_eq : r.peek = r.rest.getD 0 0 := r.charAt_add 0

@[simp] theorem rest_advance (n : Nat) : (r.advance n).rest = r.rest.drop n := by
  simp [rest, advance, drop_drop]

@[simp] theorem rest_noteSlice (a b : Nat) : (r.noteSlice a b).rest = r.rest := rfl

theorem slice_pos (n : Nat) : r.slice r.pos (r.pos + n) = r.rest.take n := by
  rw [slice, rest, Nat.add_sub_cancel_left]

theorem rest_skipOne : r.skipOne.rest = r.rest.drop 1 := by
  unfold skipOne
  split
  · exact r.rest_advance 1
  · rename_i hge
    rw [lt_len_iff, not_not] at hge
    rw [hge]
    rfl

theorem data_skipOne : r.skipOne.data = r.data := by
  unfold skipOne
  split <;> rfl

variable {r} {b : UInt8} {s : Bytes}

variable (h : r.rest = b :: s)
include h

theorem peek_of_rest : r.peek = b := by
  rw [peek_eq, h]
  rfl

theorem pos_lt_of_rest : r.pos < r.len := by
  rw [lt_len_iff, h]
  exact cons_ne_nil b s

theorem rest_advance_one : (r.advance 1).rest = s := by
  rw [rest_advance, h]
  rfl

end Reader

/-- The second reader is over the same input as the first one, with the given
bytes left. -/
structure Left (r r' : Reader) (s : Bytes) : Prop where
  data : r'.data = r.data
  rest : r'.rest = s

variable {s a : Bytes} {r r' : Reader} {b : UInt8}

theorem Left.len (h : Left r r' s) : r'.len = r.len := by
  rw [Reader.len, h.data, Reader.len]

theorem Left.trans {r'' : Reader} {t : Bytes} (h : Left r r' s) (h' : Left r' r'' t) :
    Left r r'' t :=
  ⟨h'.data.trans h.data, h'.rest⟩

theorem left_advance (h : r.rest = b :: s) : Left r (r.advance 1) s :=
  ⟨rfl, Reader.rest_advance_one h⟩

/-!
## Runs of bytes
-/

theorem scanBytes_append {stop : UInt8 -> Bool} (ha : forall b, b ∈ a -> stop b = false)
    (hs : forall b, s.head? = some b -> stop b = true) :
    scanBytes stop (a ++ s) (a ++ s).length = a.length := by
  induction a with
  | nil =>
    cases s with
    | nil => rfl
    | cons b s =>
      rw [nil_append, length_cons, scanBytes]
      simp [hs b rfl]
  | cons c a ih =>
    rw [cons_append, length_cons, scanBytes]
    have hc : stop c = false := ha c (by simp)
    have hrest := ih (fun b hb => ha b (by simp [hb]))
    rw [length_append] at hrest
    simp [hc, hrest]

/-!
## Whitespace
-/

theorem endsWs_eq_not_isWs (c : UInt8) : endsWs c = !isWs c := by
  revert c
  decide +kernel

/-- Neither whitespace nor a comment starts here. -/
def Settled (s : Bytes) : Prop :=
  forall b, s.head? = some b -> isWs b = false ∧ b ≠ byte '#' ∧ b ≠ byte '/'

theorem settled_nil : Settled [] := by
  intro b hb
  cases hb

theorem settled_cons (hws : isWs b = false) (hhash : b ≠ byte '#') (hslash : b ≠ byte '/') :
    Settled (b :: s) := by
  intro c hc
  rw [← Option.some.inj hc]
  exact ⟨hws, hhash, hslash⟩

theorem left_skipWs (hrest : r.rest = a ++ s) (ha : Ws a) (hs : Settled s) :
    Left r (skipWs scalarScanner r) s := by
  have hrun : scanBytes endsWs r.rest (r.len - r.pos) = a.length := by
    rw [← r.rest_length, hrest]
    apply scanBytes_append
    · intro b hb
      rw [endsWs_eq_not_isWs, ha b hb]
      rfl
    · intro b hb
      rw [endsWs_eq_not_isWs, (hs b hb).left]
      rfl
  have hadvance : Left r (r.advance a.length) s := by
    refine ⟨rfl, ?_⟩
    rw [Reader.rest_advance, hrest, drop_left]
  unfold skipWs
  rw [skipWsLoop]
  split
  · have hskip : scalarScanner.skipWs r.rest (r.len - r.pos) = a.length := hrun
    dsimp only
    rw [hskip]
    cases s with
    | nil =>
      rw [if_pos ((Reader.len_le_iff _).mpr hadvance.rest)]
      exact hadvance
    | cons b s =>
      have hpeek := Reader.peek_of_rest hadvance.rest
      have hb := hs b rfl
      rw [if_neg (by
        rw [Reader.len_le_iff, hadvance.rest]
        exact cons_ne_nil b s), hpeek, if_neg hb.right.left,
        if_neg (fun h => hb.right.right h.left),
        if_neg (fun h => hb.right.right h.left)]
      exact hadvance
  · rename_i hend
    rw [Reader.lt_len_iff, not_not] at hend
    rw [hend] at hrest
    rcases append_eq_nil_iff.mp hrest.symm with ⟨_, hnil⟩
    exact ⟨rfl, by rw [hend, hnil]⟩

theorem skipSeparator_comma (hrest : r.rest = a ++ byte ',' :: s) (ha : Ws a) :
    exists r', skipSeparator scalarScanner r = skipWs scalarScanner r' ∧ Left r r' s := by
  have hcomma : Settled (byte ',' :: s) :=
    settled_cons (by decide) (by decide) (by decide)
  have hfirst := left_skipWs hrest ha hcomma
  refine ⟨_, ?_, hfirst.trans (left_advance hfirst.rest)⟩
  unfold skipSeparator
  dsimp only
  rw [if_pos ⟨Reader.pos_lt_of_rest hfirst.rest, Reader.peek_of_rest hfirst.rest⟩]

theorem left_skipSeparator (hrest : r.rest = a ++ b :: s) (ha : Ws a) (hs : Settled (b :: s))
    (hcomma : b ≠ byte ',') : Left r (skipSeparator scalarScanner r) (b :: s) := by
  have hfirst := left_skipWs hrest ha hs
  unfold skipSeparator
  dsimp only
  rw [Reader.peek_of_rest hfirst.rest, if_neg (fun h => hcomma h.right)]
  exact hfirst

end Async2.Hjson
