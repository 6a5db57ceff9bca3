import Mathlib.Data.List.Nodup

/-!
# Stacks in one memory

Cells are numbered, and each is in one of several places.  Some places are stacks that are
linked through a common memory and know their sizes.
-/

namespace Async2.Stacks

open Function List

/-- The cells from a pointer on, up to the null pointer. -/
def Linked (next : Nat -> Option Nat) : Option Nat -> List Nat -> Prop
  | o, [] => o = none
  | o, b :: rest => o = some b ∧ Linked next (next b) rest

variable {next next' : Nat -> Option Nat} {o o' : Option Nat} {l : List Nat} {b : Nat}

theorem Linked.congr (h : Linked next o l) (hsame : forall c, c ∈ l -> next' c = next c) :
    Linked next' o l := by
  induction l generalizing o with
  | nil => exact h
  | cons c rest ih =>
    refine ⟨h.1, ih ?_ fun x hx => hsame x (mem_cons_of_mem c hx)⟩
    rw [hsame c mem_cons_self]
    exact h.2

theorem Linked.eq_cons (h : Linked next (some b) l) :
    exists rest, l = b :: rest ∧ Linked next (next b) rest := by
  cases l with
  | nil => cases h
  | cons c rest =>
    cases h.1
    exact ⟨rest, rfl, h.2⟩

theorem Linked.eq_nil (h : Linked next none l) : l = [] := by
  cases l with
  | nil => rfl
  | cons c rest => cases h.1

variable {P : Type} {lists : P -> List Nat} {A B C : P} {n : Nat}

/-- The places have no cell in common and none twice, and their cells are those below a bound. -/
structure Split (lists : P -> List Nat) (n : Nat) : Prop where
  nodup : forall p, (lists p).Nodup
  disjoint : forall {p q b}, b ∈ lists p -> b ∈ lists q -> p = q
  cells : forall b, b < n <-> exists p, b ∈ lists p

variable [DecidableEq P]

/-- The cell goes from the place `A` to the top of `B`. -/
def move (lists : P -> List Nat) (A B : P) (b : Nat) : P -> List Nat :=
  update (update lists A ((lists A).erase b)) B (b :: lists B)

theorem move_source (hne : A ≠ B) : move lists A B b A = (lists A).erase b := by
  rw [move, update_of_ne hne, update_self]

theorem move_target : move lists A B b B = b :: lists B := update_self ..

theorem move_other (hA : C ≠ A) (hB : C ≠ B) : move lists A B b C = lists C := by
  rw [move, update_of_ne hB, update_of_ne hA]

section

variable (h : Split lists n) (hne : A ≠ B) (hb : b ∈ lists A)
include h hne hb

theorem Split.mem_move (c : Nat) :
    c ∈ move lists A B b C <-> (c = b ∧ C = B) ∨ (c ≠ b ∧ c ∈ lists C) := by
  by_cases hCA : C = A
  · subst hCA
    rw [move_source hne, (h.nodup C).mem_erase_iff]
    grind
  · have hnot : b ∉ lists C := fun hc => hCA (h.disjoint hc hb)
    by_cases hCB : C = B
    · subst hCB
      rw [move_target]
      grind
    · rw [move_other hCA hCB]
      grind

theorem Split.move : Split (move lists A B b) n where
  nodup C := by
    by_cases hCB : C = B
    · subst hCB
      rw [move_target]
      exact nodup_cons.mpr ⟨fun hc => hne (h.disjoint hb hc), h.nodup C⟩
    by_cases hCA : C = A
    · subst hCA
      rw [move_source hne]
      exact (h.nodup C).erase b
    · rw [move_other hCA hCB]
      exact h.nodup C
  disjoint hp hq := by
    rw [h.mem_move hne hb] at hp hq
    rcases hp with ⟨hcb, hp⟩ | ⟨hcb, hp⟩ <;> rcases hq with ⟨hcb', hq⟩ | ⟨hcb', hq⟩
    · exact hp.trans hq.symm
    · exact absurd hcb hcb'
    · exact absurd hcb' hcb
    · exact h.disjoint hp hq
  cells c := by
    rw [h.cells]
    simp only [h.mem_move hne hb]
    by_cases hc : c = b
    · subst hc
      exact ⟨fun _ => ⟨B, .inl ⟨rfl, rfl⟩⟩, fun _ => ⟨A, hb⟩⟩
    · simp [hc]

/-- A stack and its size after a move that has written the link of the moved cell. -/
theorem Linked.move {k k' : Nat} (hC : Linked next o (lists C) ∧ k = (lists C).length)
    (hnext : forall c, c ≠ b -> next' c = next c) (hself : C = B -> next' b = o)
    (hfirst : C = A -> o = some b)
    (hstack : (o', k') = if C = A then (next b, k - 1) else if C = B then (some b, k + 1)
      else (o, k)) :
    Linked next' o' (Stacks.move lists A B b C) ∧ k' = (Stacks.move lists A B b C).length := by
  rcases hC with ⟨hlinked, rfl⟩
  have hframe : C ≠ A -> Linked next' o (lists C) := by
    intro hCA
    exact hlinked.congr fun c hc => hnext c fun heq => hCA (h.disjoint (heq ▸ hc) hb)
  by_cases hCA : C = A
  · subst hCA
    rw [if_pos rfl] at hstack
    cases hstack
    rw [hfirst rfl] at hlinked
    rcases hlinked.eq_cons with ⟨rest, hl, hrest⟩
    have hnot : b ∉ rest := (nodup_cons.mp (hl ▸ h.nodup C)).1
    rw [move_source hne, hl, erase_cons_head]
    exact ⟨hrest.congr fun c hc => hnext c fun heq => hnot (heq ▸ hc), rfl⟩
  rw [if_neg hCA] at hstack
  by_cases hCB : C = B
  · subst hCB
    rw [if_pos rfl] at hstack
    cases hstack
    rw [move_target]
    exact ⟨⟨rfl, hself rfl ▸ hframe hCA⟩, rfl⟩
  · rw [if_neg hCB] at hstack
    cases hstack
    rw [move_other hCA hCB]
    exact ⟨hframe hCA, rfl⟩

end

/-- A new cell is put on top of a place. -/
theorem Split.push (h : Split lists n) (B : P) : Split (update lists B (n :: lists B)) (n + 1) := by
  have hnew : forall p, n ∉ lists p := fun p hp => Nat.lt_irrefl n ((h.cells n).mpr ⟨p, hp⟩)
  have hmem : forall {p b}, b ∈ update lists B (n :: lists B) p <->
      (b = n ∧ p = B) ∨ b ∈ lists p := by
    intro p b
    by_cases hp : p = B
    · subst hp
      simp
    · simp [hp]
  refine ⟨fun p => ?_, fun {p q b} hp hq => ?_, fun b => ?_⟩
  · by_cases hp : p = B
    · subst hp
      rw [update_self]
      exact nodup_cons.mpr ⟨hnew p, h.nodup p⟩
    · rw [update_of_ne hp]
      exact h.nodup p
  · rw [hmem] at hp hq
    rcases hp with ⟨rfl, hp⟩ | hp <;> rcases hq with ⟨hb, hq⟩ | hq
    · exact hp.trans hq.symm
    · exact absurd hq (hnew q)
    · exact absurd (hb ▸ hp) (hnew p)
    · exact h.disjoint hp hq
  · simp only [hmem, Nat.lt_succ_iff_lt_or_eq, h.cells]
    constructor
    · rintro (⟨p, hp⟩ | rfl)
      · exact ⟨p, .inr hp⟩
      · exact ⟨B, .inl ⟨rfl, rfl⟩⟩
    · rintro ⟨p, ⟨rfl, -⟩ | hp⟩
      · exact .inr rfl
      · exact .inl ⟨p, hp⟩

end Async2.Stacks
