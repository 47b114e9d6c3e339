import Cordis.Library.TwoPhase
import Cordis.Runtime.Step

/-!
# Checks apart from what they are for

`register_handler`, `validate_activation` and `validate_revision` ask the gates of the invocation registry under its
lock, which a switch of a selector does not take. `publication` is the Runtime in which the check of a registration,
the insertion, the check of a reload and its cutover are sections of their own, as those of an activation are;
what a check has found is not looked at again.

No registration and no validation looks at a hidden handler of another Fiber, so the move of the staged handlers to
their target, which only the switch makes visible, is one section with the switch.
-/

namespace Cordis

namespace Runtime

variable (rt : Runtime)

/-- `commit_staged_revision`, `validate_revision` left out. -/
def commitValidatedRevision (old staged : FiberId) (staging target : ScopeId) :
    Runtime × Except CordisError (List Nat) :=
  rt.commitRevisionIf (fun _ _ => .ok ()) old staged staging target

/-- The rest of the cutover to Fiber `staged`. -/
def commitValidatedReload (old staged : FiberId) (staging target : ScopeId) : Option Runtime :=
  rt.reloadWith (rt.commitValidatedRevision old staged staging target) old staged

/-- `validate_revision` of the reload of `old` to `staged`. -/
def validatesRevision (old staged : FiberId) (target : ScopeId) : Bool :=
  (rt.fiber old).any fun oldCell => (rt.fiber staged).any fun stagedCell =>
    oldCell.inner.state = .Reloading ∧ stagedCell.inner.state = .Active ∧
      stagedCell.inner.capabilities.isStaged (rt.selectors stagedCell.plugin) ∧
      (rt.validateRevision oldCell.inner.invocationHandlers stagedCell.inner.invocationHandlers
        target).isOk

/-- The cutover of the reload of `old` to `staged` goes through. -/
def publishesRevision (old staged : FiberId) (staging target : ScopeId) : Bool :=
  (rt.commitValidatedRevision old staged staging target).2.isOk

/-- `validate_activation` of an activation of Fiber `f`. -/
def validatesActivation (f : FiberId) : Bool :=
  (rt.fibers f).any fun c =>
    (rt.validateActivation c.inner.invocationHandlers c.inner.invocationMiddleware).isOk

/-- The commit of activation call `n` goes through. -/
def publishesActivation (f : FiberId) (n : Nat) : Bool :=
  rt.admission && (rt.fiber f).any fun c =>
    (match c.activations n with
      | some .checked => true
      | _ => false) &&
    (c.inner.commitActivation c.id (rt.selectors c.plugin)).2.isOk

/-- A commit that goes through would pass its validation once more. -/
def Revalidates : RuntimeLabel → Prop
  | .fiber f (.activationCommit n _ _) => rt.publishesActivation f n = true → rt.validatesActivation f = true
  | _ => True

instance (l : RuntimeLabel) : Decidable (rt.Revalidates l) := by
  unfold Revalidates
  split <;> infer_instance

variable {rt}

theorem commitValidatedRevision_eq {old staged : FiberId} {staging target : ScopeId}
    (h : rt.validatesRevision old staged target = true) :
    rt.commitValidatedRevision old staged staging target =
      rt.commitStagedRevision old staged staging target := by
  obtain ⟨oldCell, hold, h⟩ := (Option.any_eq_true _ _).mp h
  obtain ⟨stagedCell, hstaged, h⟩ := (Option.any_eq_true _ _).mp h
  have hok := Outcome.isOk_eq (of_decide_eq_true h).2.2.2
  unfold commitValidatedRevision commitStagedRevision commitRevisionIf
  simp only [hold, hstaged, hok]

theorem commitValidatedReload_eq {old staged : FiberId} {staging target : ScopeId}
    (h : rt.validatesRevision old staged target = true) :
    rt.commitValidatedReload old staged staging target =
      rt.commitReload old staged staging target := by
  unfold commitValidatedReload commitReload
  rw [commitValidatedRevision_eq h]

theorem handle_eq {f : FiberId} {scope : ScopeId} {key : InvocationKey}
    (h : ((rt.fibers f).any fun c => !rt.duplicateHandler c scope key) = true) :
    ((rt.fibers f).bind fun c => rt.insertHandler f c scope key) = rt.handle f scope key := by
  obtain ⟨c, hc, hfree⟩ := (Option.any_eq_true _ _).mp h
  have hfree : rt.duplicateHandler c scope key = false := by simpa using hfree
  simp [handle, hc, hfree]

/-- The Runtime with the checks of registrations and reloads apart from what they are for. -/
def publication : TwoPhase Runtime RuntimeLabel where
  step := step
  split l :=
    match l with
    | .handle .. | .commitReload .. => true
    | _ => false
  check rt l :=
    match l with
    | .handle f scope key => (rt.fibers f).any fun c => !rt.duplicateHandler c scope key
    | .commitReload old staged _ target => rt.validatesRevision old staged target
    | _ => true
  act rt l :=
    match l with
    | .handle f scope key => (rt.fibers f).bind fun c => rt.insertHandler f c scope key
    | .commitReload old staged staging target => rt.commitValidatedReload old staged staging target
    | l => rt.step l
  effective rt l :=
    match l with
    | .commitReload old staged staging target => rt.publishesRevision old staged staging target
    | _ => true
  agree := fun rt l hsplit h => by
    clear hsplit
    cases l
    case handle => exact handle_eq h
    case commitReload => exact commitValidatedReload_eq h
    all_goals rfl

end Runtime

end Cordis
