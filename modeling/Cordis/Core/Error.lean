import Cordis.Core.Lifecycle

/-!
# Identifiers and runtime errors

Arena keys are slot-map keys: a key is never handed out twice, so a counter models them. Of
`CordisError` only the variants that the modelled functions build, forward or inspect are kept.
-/

namespace Cordis

/-- Identifies a fiber/plugin activation. -/
abbrev FiberId := Nat

/-- Identifies a scope. -/
abbrev ScopeId := Nat

/-- Identifies a logical plugin installation. -/
abbrev PluginId := Nat

/-- A service key, as the stable symbol it is interned to. -/
abbrev ServiceSymbol := Nat

/-- Identifies an invocation key. -/
abbrev InvocationKey := Nat

/-- Identity of one activation incarnation; `0` is `GenerationId::NONE`. -/
abbrev GenerationId := Nat

/-- No generation is active. -/
def GenerationId.NONE : GenerationId := 0

/-- Runtime resource governed by a configured quota. -/
inductive ResourceKind
  | Scopes | Fibers | TasksPerFiber | HandlersPerFiber | EffectsPerFiber | ChildScopesPerFiber
  | ScopeDepth | ServiceSymbols
  deriving DecidableEq, Repr

/-- Errors surfaced by the lifecycle core. -/
inductive CordisError
  | Host (message : String)
  | RemoteDomain (message : String)
  | ResourceLimitExceeded (resource : ResourceKind) (limit : Nat)
  | InvalidFiberState (fiber : FiberId) (source target : FiberState)
  | FiberNotFound
  | FiberInactive (fiber : FiberId)
  | FiberLifecycleOwned (fiber : FiberId)
  | ActivationSealed (fiber : FiberId)
  | CapabilityPublicationFailed (fiber : FiberId)
  | ScopeNotFound
  | ScopeDisposed (scope : ScopeId)
  | DuplicateService (key : ServiceSymbol)
  | DuplicateInvocationHandler (key : InvocationKey)
  | DependencyCycle (path : List FiberId)
  | PluginStartFailed (message : String)
  | ActivationFailed (primary : CordisError) (cleanup : List CordisError)
  | ReloadFailed (primary : CordisError) (cleanup : List CordisError)
  | PluginDisposeFailed (message : String)
  | PluginPanicked (message : String)
  | DisposalWorkerPanicked (message : String)
  | DisposalWorkerCancelled
  | DisposalWorkerTerminated (message : String)
  | ScopeDisposalPanicked (message : String)
  | ScopeDisposalCancelled
  | ScopeDisposalTerminated (message : String)
  | CleanupFailed (message : String)
  | RuntimeShuttingDown
  | TaskCancelled
  | TaskPanicked (message : String)
  | RevisionValidationFailed (message : String)
  | Invariant (message : String)

namespace CordisError

/-- The `Debug` name of a Fiber state. -/
def stateName (s : FiberState) : String :=
  match s with
  | .Created => "Created"
  | .WaitingDependencies => "WaitingDependencies"
  | .Starting => "Starting"
  | .Active => "Active"
  | .Reloading => "Reloading"
  | .Disposing => "Disposing"
  | .Disposed => "Disposed"
  | .Failed => "Failed"

/-- The `Debug` name of a resource kind. -/
def resourceName (r : ResourceKind) : String :=
  match r with
  | .Scopes => "Scopes"
  | .Fibers => "Fibers"
  | .TasksPerFiber => "TasksPerFiber"
  | .HandlersPerFiber => "HandlersPerFiber"
  | .EffectsPerFiber => "EffectsPerFiber"
  | .ChildScopesPerFiber => "ChildScopesPerFiber"
  | .ScopeDepth => "ScopeDepth"
  | .ServiceSymbols => "ServiceSymbols"

mutual

/-- The diagnostic text of an error (`to_string`), with arena keys shown as numbers. -/
def display : CordisError → String
  | Host m => "host failure: " ++ m
  | RemoteDomain m => "remote domain failure: " ++ m
  | ResourceLimitExceeded r l =>
    "resource limit exceeded for " ++ resourceName r ++ ": " ++ toString l
  | InvalidFiberState f s t =>
    "invalid fiber state transition for " ++ toString f ++ ": " ++ stateName s ++ " -> " ++
      stateName t
  | FiberNotFound => "fiber not found"
  | FiberInactive f => "fiber " ++ toString f ++ " is not accepting context mutations"
  | FiberLifecycleOwned f =>
    "fiber " ++ toString f ++ " lifecycle is owned by a reload transaction"
  | ActivationSealed f => "activation topology is sealed for fiber " ++ toString f
  | CapabilityPublicationFailed f => "capability publication failed for fiber " ++ toString f
  | ScopeNotFound => "scope not found"
  | ScopeDisposed s => "scope " ++ toString s ++ " is disposed"
  | DuplicateService k => "duplicate service: " ++ toString k
  | DuplicateInvocationHandler k => "duplicate invocation handler: " ++ toString k
  | DependencyCycle p => "dependency cycle: " ++ toString p
  | PluginStartFailed m => "plugin start failed: " ++ m
  | ActivationFailed p c =>
    "activation failed: " ++ p.display ++ "; rollback failures: " ++ displayAll c
  | ReloadFailed p c =>
    "reload preparation failed: " ++ p.display ++ "; rollback failures: " ++ displayAll c
  | PluginDisposeFailed m => "plugin dispose failed: " ++ m
  | PluginPanicked m => "plugin panicked: " ++ m
  | DisposalWorkerPanicked m => "disposal worker panicked: " ++ m
  | DisposalWorkerCancelled => "disposal worker was cancelled"
  | DisposalWorkerTerminated m => "disposal worker terminated: " ++ m
  | ScopeDisposalPanicked m => "scope disposal worker panicked: " ++ m
  | ScopeDisposalCancelled => "scope disposal worker was cancelled"
  | ScopeDisposalTerminated m => "scope disposal terminated: " ++ m
  | CleanupFailed m => "cleanup failed: " ++ m
  | RuntimeShuttingDown => "runtime is shutting down"
  | TaskCancelled => "owned task was cancelled"
  | TaskPanicked m => "owned task panicked: " ++ m
  | RevisionValidationFailed m => "plugin revision validation failed: " ++ m
  | Invariant m => "runtime invariant violated: " ++ m

/-- The texts of a list of errors. -/
def displayAll : List CordisError → String
  | [] => ""
  | e :: rest => e.display ++ "; " ++ displayAll rest

end

/-- The errors by which a Fiber finalizer recognises a worker that did not finish. -/
def isWorkerError : CordisError → Bool
  | DisposalWorkerPanicked _ | DisposalWorkerCancelled | DisposalWorkerTerminated _ => true
  | _ => false

/-- The errors by which a Scope finalizer recognises a body that did not finish. -/
def isScopeWorkerError : CordisError → Bool
  | ScopeDisposalPanicked _ | ScopeDisposalCancelled | ScopeDisposalTerminated _ => true
  | _ => false

/-- `is_terminal_cleanup_error`: a descendant error that ends its ancestor's disposal too. -/
def isTerminalCleanupError (e : CordisError) : Bool :=
  e.isWorkerError || e.isScopeWorkerError

end CordisError

/-- `Result<(), CordisError>`. -/
abbrev Outcome := Except CordisError Unit

namespace Outcome

theorem isOk_eq {o : Outcome} (h : o.isOk = true) : o = .ok () := by
  cases o with
  | ok => rfl
  | error e => cases h

theorem bind_ok {o o' : Outcome} (h : (o >>= fun _ => o') = .ok ()) : o = .ok () ∧ o' = .ok () := by
  cases o with
  | error e => cases h
  | ok => exact ⟨rfl, h⟩

theorem forM_ok {α : Type} {xs : List α} {check : α → Outcome} (h : xs.forM check = .ok ()) :
    ∀ x ∈ xs, check x = .ok () := by
  induction xs with
  | nil => exact fun x hx => absurd hx List.not_mem_nil
  | cons x xs ih =>
    obtain ⟨hx, hxs⟩ := bind_ok (show (check x >>= fun _ => xs.forM check) = .ok () from h)
    intro y hy
    rcases List.mem_cons.mp hy with rfl | hy
    · exact hx
    · exact ih hxs y hy

end Outcome

end Cordis
