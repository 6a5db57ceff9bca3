import Mathlib.Logic.Basic

/-!
# Transition systems

A system has an initial state and a partial step function; an action that is
not enabled has no result.  Runs may be restricted to the actions that a
condition on the state before the step allows.
-/

namespace Async2.TransitionSystem

open List

/-- An initial state and the result of each enabled action. -/
structure System (S A : Type) where
  init : S
  step : A -> S -> Option S

variable {S A : Type}

/-- The states of the runs in which every step is allowed. -/
inductive Reaches (T : System S A) (Allowed : S -> A -> Prop) : S -> Prop where
  | init : Reaches T Allowed T.init
  | step {s s' : S} {a : A} (hs : Reaches T Allowed s) (ha : Allowed s a)
      (hstep : T.step a s = some s') : Reaches T Allowed s'

variable {Allowed : S -> A -> Prop} {s s' : S} {T : System S A}

/-- What holds initially and is kept by every allowed step holds in every state
that is reached. -/
theorem Reaches.invariant (Inv : S -> Prop) (hinit : Inv T.init)
    (hkeeps : forall s a s', Inv s -> Allowed s a -> T.step a s = some s' -> Inv s')
    (h : Reaches T Allowed s) : Inv s := by
  induction h with
  | init => exact hinit
  | step hs ha hstep ih => exact hkeeps _ _ _ ih ha hstep

def System.run (T : System S A) : List A -> S -> Option S
  | [], s => some s
  | a :: rest, s =>
    match T.step a s with
    | some s' => T.run rest s'
    | none => none

theorem System.run_cons {a : A} {rest : List A} (h : T.run (a :: rest) s = some s') :
    exists mid, T.step a s = some mid ∧ T.run rest mid = some s' := by
  rw [System.run] at h
  split at h
  case h_1 mid hstep => exact ⟨mid, hstep, h⟩
  · cases h

theorem System.run_append (T : System S A) (as bs : List A) (h : T.run as s = some s') :
    T.run (as ++ bs) s = T.run bs s' := by
  induction as generalizing s with
  | nil =>
    cases h
    rfl
  | cons a rest ih =>
    rcases run_cons h with ⟨mid, hstep, hrest⟩
    rw [cons_append, System.run, hstep]
    exact ih hrest

/-- The actions of a list with the states in which they are taken. -/
def System.visits (T : System S A) : List A -> S -> List (S × A)
  | [], _ => []
  | a :: rest, s =>
    (s, a) ::
      match T.step a s with
      | some s' => T.visits rest s'
      | none => []

/-- What every step keeps, in terms of the steps taken so far, holds after a run. -/
theorem System.invariant_visits (T : System S A) {P : List (S × A) -> S -> Prop} {Q : A -> Prop}
    (hkeeps : forall l s a s', P l s -> Q a -> T.step a s = some s' -> P (l ++ [(s, a)]) s')
    (actions : List A) (htaken : forall a, a ∈ actions -> Q a) {l : List (S × A)} (hl : P l s)
    (hrun : T.run actions s = some s') : P (l ++ T.visits actions s) s' := by
  induction actions generalizing l s with
  | nil =>
    cases hrun
    rw [System.visits, append_nil]
    exact hl
  | cons a rest ih =>
    rcases run_cons hrun with ⟨mid, hstep, hrun⟩
    rw [System.visits, hstep]
    have hmid := hkeeps l s a mid hl (htaken a mem_cons_self) hstep
    have hrest := ih (fun b hb => htaken b (mem_cons_of_mem a hb)) hmid hrun
    rw [append_assoc] at hrest
    exact hrest

/-- Every step of the list of actions is allowed. -/
def System.AllowedRun (T : System S A) (Allowed : S -> A -> Prop) :
    List A -> S -> Prop
  | [], _ => True
  | a :: rest, s =>
    Allowed s a ∧
      match T.step a s with
      | some s' => T.AllowedRun Allowed rest s'
      | none => True

instance System.decidableAllowedRun (T : System S A) (Allowed : S -> A -> Prop)
    [hdec : forall s a, Decidable (Allowed s a)] :
    (actions : List A) -> (s : S) -> Decidable (T.AllowedRun Allowed actions s)
  | [], _ => isTrue trivial
  | a :: rest, s =>
    match hstep : T.step a s with
    | some s' =>
      let _ := System.decidableAllowedRun T Allowed rest s'
      decidable_of_iff (Allowed s a ∧ T.AllowedRun Allowed rest s')
        (by rw [System.AllowedRun, hstep])
    | none => decidable_of_iff (Allowed s a) (by simp [System.AllowedRun, hstep])

theorem reaches_of_run (actions : List A) (hs : Reaches T Allowed s)
    (hallowed : T.AllowedRun Allowed actions s) (hrun : T.run actions s = some s') :
    Reaches T Allowed s' := by
  induction actions generalizing s with
  | nil =>
    cases hrun
    exact hs
  | cons a rest ih =>
    obtain ⟨ha, hrest⟩ := hallowed
    rcases System.run_cons hrun with ⟨mid, hstep, hrun⟩
    rw [hstep] at hrest
    exact ih (.step hs ha hstep) hrest hrun

end Async2.TransitionSystem
