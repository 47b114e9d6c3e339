import Mathlib.Tactic.Common

/-!
# Fiber lifecycle state machine

The states of a lifecycle-owned runtime unit and the transition table of `can_transition_to`.
-/

namespace Cordis

/-- State of a lifecycle-owned runtime unit. -/
inductive FiberState
  | Created
  | WaitingDependencies
  | Starting
  | Active
  | Reloading
  | Disposing
  | Disposed
  | Failed
  deriving DecidableEq, Repr

namespace FiberState

/-- Returns whether `self -> next` is a legal runtime transition. -/
def canTransitionTo : FiberState → FiberState → Bool
  | Created, WaitingDependencies | Created, Starting | Created, Disposing => true
  | WaitingDependencies, Starting | WaitingDependencies, Disposing => true
  | Starting, Active | Starting, Failed | Starting, Disposing => true
  | Reloading, Active | Reloading, Failed | Reloading, Disposing => true
  | Active, Reloading | Active, Disposing | Active, Failed => true
  | Failed, Disposing => true
  | Disposing, Disposed | Disposing, WaitingDependencies => true
  | _, _ => false

theorem not_canTransitionTo_of_disposed (next : FiberState) :
    Disposed.canTransitionTo next = false := by
  cases next <;> rfl

/-- The only ways out of `Disposing`. -/
theorem of_disposing {next : FiberState} (h : Disposing.canTransitionTo next = true) :
    next = Disposed ∨ next = WaitingDependencies := by
  cases next <;> simp_all [canTransitionTo]

end FiberState

end Cordis
