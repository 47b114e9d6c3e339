import Cordis.Core.Error

/-!
# Disposal progress, diagnostics and observations

The durable phases of a Fiber disposal, the states of a Scope, and the immutable observation that a
finalizer publishes once per disposal round.
-/

namespace Cordis

/-- Durable progress of a fiber disposal transaction. -/
inductive DisposalPhase
  /-- Disposal has not started. -/
  | Idle
  /-- Owned tasks are being cancelled and joined. -/
  | Tasks
  /-- Provider execution admission is closed and existing leases are draining. -/
  | Draining
  /-- Owned child scopes are being disposed. -/
  | ChildScopes
  /-- Event handlers are being removed. -/
  | Handlers
  /-- Provided services are being withdrawn. -/
  | Services
  /-- Explicit effects are being disposed in LIFO order. -/
  | Effects
  /-- Dependency changes are being reconciled. -/
  | Reconciling
  /-- The disposal body is complete while synchronous control-plane indexes converge. -/
  | Finalizing
  /-- Cleanup reached its normal terminal path, possibly with aggregated errors. -/
  | Complete
  /-- The worker ended abnormally and cleanup may be unfinished. -/
  | Terminated
  deriving DecidableEq, Repr

/-- Lifecycle of a scope cleanup operation. -/
inductive ScopeState
  | Active
  | Disposing
  | Disposed
  | Terminated
  deriving DecidableEq, Repr

/-- Stage that reported a best-effort cleanup problem. -/
inductive CleanupPhase
  | TaskDrain | ProviderDrain | ChildScopeCleanup | EventCleanup | ServiceCleanup | EffectCleanup
  | DependencyCleanup | ScopeDetach | FiberDetach | StagingRollback | Worker
  deriving DecidableEq, Repr

/-- The `Debug` name of a cleanup phase. -/
def CleanupPhase.name (p : CleanupPhase) : String :=
  match p with
  | .TaskDrain => "TaskDrain"
  | .ProviderDrain => "ProviderDrain"
  | .ChildScopeCleanup => "ChildScopeCleanup"
  | .EventCleanup => "EventCleanup"
  | .ServiceCleanup => "ServiceCleanup"
  | .EffectCleanup => "EffectCleanup"
  | .DependencyCleanup => "DependencyCleanup"
  | .ScopeDetach => "ScopeDetach"
  | .FiberDetach => "FiberDetach"
  | .StagingRollback => "StagingRollback"
  | .Worker => "Worker"

/-- One ordered cleanup diagnostic. Lifecycle truth is reported separately. -/
structure CleanupIssue where
  phase : CleanupPhase
  message : String
  cause : Option CordisError

/-- The diagnostic that `push_disposal_error` records. -/
def CleanupIssue.of (phase : CleanupPhase) (error : CordisError) : CleanupIssue :=
  ⟨phase, error.display, some error⟩

/-- The `{phase:?}: {message}` lines of a list of issues, joined by `"; "`. -/
def CleanupIssue.joined (issues : List CleanupIssue) : String :=
  "; ".intercalate (issues.map fun i => i.phase.name ++ ": " ++ i.message)

/-- Lifecycle truth of one disposal round. -/
inductive DisposalTerminal
  | Committed
  | Incomplete (primary : CordisError)

/-- What a finalizer publishes. -/
structure DisposalObservation where
  legacyResult : Outcome
  terminal : DisposalTerminal
  issues : List CleanupIssue

/-- The observation reports a committed lifecycle. -/
def DisposalObservation.IsCommitted (o : DisposalObservation) : Prop :=
  o.terminal = .Committed

/-- The legacy result that a disposal body computes from the errors it collected. -/
def aggregate (errors : List CleanupIssue) : Outcome :=
  match errors with
  | [] => .ok ()
  | [issue] => .error (issue.cause.getD (.PluginDisposeFailed issue.message))
  | _ => .error (.PluginDisposeFailed (CleanupIssue.joined errors))

end Cordis
