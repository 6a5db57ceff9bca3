import Async2.Foundation.TransitionSystem
import Mathlib.Logic.Function.Basic

/-!
# Families of machines

Many machines of one kind run side by side.  A step of the family is a step of one
of them, so whatever each machine keeps by itself holds of all of them.
-/

namespace Async2.TransitionSystem

open Function

variable {I S A : Type} [DecidableEq I]

/-- A copy of the machine for every index. -/
def family (T : System S A) : System (I -> S) (I × A) where
  init := fun _ => T.init
  step := fun action s =>
    (T.step action.2 (s action.1)).map fun t => update s action.1 t

variable {T : System S A} {s : I -> S}

theorem family_step_eq_some {i : I} {a : A} {s' : I -> S} (h : (family T).step (i, a) s = some s') :
    exists t, T.step a (s i) = some t ∧ s' = update s i t := by
  rcases Option.map_eq_some_iff.mp h with ⟨t, ht, heq⟩
  exact ⟨t, ht, heq.symm⟩

/-- Every machine of a run of the family is in a state that it reaches alone. -/
theorem Reaches.component {Allowed : S -> A -> Prop}
    (h : Reaches (family T) (fun s action => Allowed (s action.1) action.2) s) (i : I) :
    Reaches T Allowed (s i) := by
  induction h with
  | init => exact .init
  | @step s s' action hs ha hstep ih =>
    rcases family_step_eq_some hstep with ⟨t, ht, rfl⟩
    by_cases hi : i = action.1
    · subst hi
      rw [update_self]
      exact .step ih ha ht
    · rw [update_of_ne hi]
      exact ih

end Async2.TransitionSystem
