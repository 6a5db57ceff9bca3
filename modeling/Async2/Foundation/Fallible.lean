import Mathlib.Logic.Basic

/-!
# Pre- and postconditions of fallible functions

What holds of the result of a function that may fail, and of its error if it does.  The
rules follow the way in which such functions are composed.
-/

namespace Async2

variable {E A B : Type} {F F' : E -> Prop} {Q Q' : A -> Prop}

/-- A result satisfies `Q`, and an error satisfies `F`. -/
def Yields (res : Except E A) (F : E -> Prop) (Q : A -> Prop) : Prop :=
  match res with
  | .ok x => Q x
  | .error e => F e

variable {res : Except E A}

theorem yields_any (res : Except E A) : Yields res (fun _ => True) fun _ => True := by
  cases res with
  | ok x | error e => exact trivial

variable (h : Yields res F Q)
include h

theorem Yields.bind {f : A -> Except E B} {R : B -> Prop} (hf : forall x, Q x -> Yields (f x) F R) :
    Yields (res >>= f) F R := by
  cases res with
  | ok x => exact hf x h
  | error e => exact h

theorem Yields.imp (hF : forall e, F e -> F' e) (hQ : forall x, Q x -> Q' x) :
    Yields res F' Q' := by
  cases res with
  | ok x => exact hQ x h
  | error e => exact hF e h

theorem Yields.of_ok {x : A} (hres : res = .ok x) : Q x := by
  subst hres
  exact h

theorem Yields.of_error {e : E} (hres : res = .error e) : F e := by
  subst hres
  exact h

theorem Yields.returns (hF : forall e, ¬ F e) : exists x, res = .ok x ∧ Q x := by
  cases res with
  | ok x => exact ⟨x, rfl, h⟩
  | error e => exact absurd h (hF e)

end Async2
