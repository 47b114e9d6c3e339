import Cordis.Core.Disposal

/-!
# The Fiber record and its critical sections

`FiberMutable` is the record behind `FiberCell::inner`. Every function here is one critical section
of that lock: it takes the record (and what the section was handed by its caller) and returns the
record it leaves behind, together with the section's answer. The shared generation selector is not
part of the record, so sections that read it take its current value `active` as an argument.
-/

namespace Cordis

/-- `GenerationExecution`: lease admission of one generation, decoded from its packed word. -/
structure GenerationExecution where
  accepting : Bool
  inflight : Nat

namespace GenerationExecution

/-- A fresh generation accepts leases and has none. -/
def default : GenerationExecution := ⟨true, 0⟩

/-- Closes lease admission; irreversible. -/
def beginDraining (x : GenerationExecution) : GenerationExecution := { x with accepting := false }

/-- Takes one lease while the generation is accepting. -/
def tryAcquire (x : GenerationExecution) : Option GenerationExecution :=
  if x.accepting then some { x with inflight := x.inflight + 1 } else none

/-- Drops one lease. -/
def dropInflight (x : GenerationExecution) : Option GenerationExecution :=
  if x.inflight = 0 then none else some { x with inflight := x.inflight - 1 }

end GenerationExecution

/-- `CapabilityGate`, without the selector it shares with the other generations of its plugin. -/
structure CapabilityGate where
  generation : GenerationId
  retired : Bool
  execution : GenerationExecution

namespace CapabilityGate

/-- A gate that has not been published. -/
def staged (generation : GenerationId) : CapabilityGate := ⟨generation, false, .default⟩

/-- Retires the gate and starts draining it; clearing the selector is the caller's part. -/
def close (g : CapabilityGate) : CapabilityGate :=
  { g with retired := true, execution := g.execution.beginDraining }

/-- The gate is still to be published. -/
def isStaged (g : CapabilityGate) (active : GenerationId) : Bool :=
  !g.retired && active != g.generation

/-- `publish` succeeds: the gate is not retired and the selector names no generation. -/
def publishes (g : CapabilityGate) (active : GenerationId) : Bool :=
  !g.retired && active == GenerationId.NONE

/-- The selector names this gate's generation. -/
def isVisible (g : CapabilityGate) (active : GenerationId) : Bool := active == g.generation

end CapabilityGate

/-- Behavior when a required service disappears. -/
inductive DependencyPolicy
  /-- Roll back activation and wait for dependencies to return. -/
  | Restart
  /-- Permanently dispose the plugin instance. -/
  | Dispose
  deriving DecidableEq, Repr

/-- Runtime-independent plugin metadata, with service keys as interned symbols. -/
structure PluginDescriptor where
  dependencies : List ServiceSymbol
  provisions : List ServiceSymbol
  dependencyPolicy : DependencyPolicy

/-- `FiberDisposal`; `completion` is the identity of the shared completion `Arc`. -/
structure FiberDisposal where
  phase : DisposalPhase
  waitForDependencies : Bool
  errors : List CleanupIssue
  result : Option Outcome
  completion : Nat
  persistentDrain : Bool

/-- `FiberDisposal::default()` with a fresh completion. -/
def FiberDisposal.fresh (completion : Nat) : FiberDisposal :=
  ⟨.Idle, true, [], none, completion, false⟩

/-- `FiberMutable`: one Fiber's coherent lifecycle state and resource ownership ledger.
`cancelled` and `activation` say whether the cancellation token fired and whether the start barrier
of the owned tasks is still held. -/
structure FiberMutable where
  scope : ScopeId
  descriptor : PluginDescriptor
  state : FiberState
  effects : List Nat
  tasks : List Nat
  handlers : List Nat
  invocationHandlers : List Nat
  invocationMiddleware : List Nat
  provided : List ServiceSymbol
  childScopes : List ScopeId
  cancelled : Bool
  activation : Bool
  activationSealed : Bool
  capabilities : CapabilityGate
  generation : GenerationId
  staged : Bool
  reloadOwned : Bool
  disposal : FiberDisposal

namespace FiberMutable

variable (r : FiberMutable) (fiber : FiberId)

/-- The record that `install_arc` inserts. -/
def created (scope : ScopeId) (descriptor : PluginDescriptor) (generation : GenerationId)
    (staged : Bool) (completion : Nat) : FiberMutable where
  scope := scope
  descriptor := descriptor
  state := .Created
  effects := []
  tasks := []
  handlers := []
  invocationHandlers := []
  invocationMiddleware := []
  provided := []
  childScopes := []
  cancelled := false
  activation := false
  activationSealed := false
  capabilities := .staged generation
  generation := generation
  staged := staged
  reloadOwned := staged
  disposal := .fresh completion

/-- `transition`: the checked state write. -/
def transition (next : FiberState) : FiberMutable × Outcome :=
  if r.state.canTransitionTo next then ({ r with state := next }, .ok ())
  else (r, .error (.InvalidFiberState fiber r.state next))

/-- The writes that move a record to `Starting`. -/
def starting : FiberMutable :=
  { r with state := .Starting, activationSealed := false, activation := true }

/-- First section of `activate_body`. A Fiber that comes back from a dependency-loss disposal gets a
fresh disposal record, token, generation and gate; `fresh` is the answer of `allocate_generation`. -/
def beginActivation (completion : Nat) (fresh : Except CordisError GenerationId) :
    FiberMutable × Outcome :=
  if r.state = .Created ∨ r.state = .WaitingDependencies then
    if r.state = .WaitingDependencies ∧ r.disposal.phase = .Complete then
      match fresh with
      | .error e => ({ r with disposal := .fresh completion, cancelled := false }, .error e)
      | .ok g =>
        (starting { r with
          disposal := .fresh completion
          cancelled := false
          generation := g
          capabilities := .staged g }, .ok ())
    else (r.starting, .ok ())
  else (r, .error (.InvalidFiberState fiber r.state .Starting))

/-- Sealing section of `activate_body`: `true` when the activation is still the Fiber's state. -/
def sealActivation : FiberMutable × Bool :=
  if r.state = .Starting then ({ r with activationSealed := true }, true) else (r, false)

/-- `validate_staged_revision`: declared provisions and provided services are the same set. -/
def validateStagedRevision : Outcome :=
  if r.descriptor.provisions.all (· ∈ r.provided) ∧ r.provided.all (· ∈ r.descriptor.provisions)
  then .ok ()
  else .error (.RevisionValidationFailed
    ("declared provisions " ++ toString r.descriptor.provisions ++
      " do not match actual services " ++ toString r.provided))

/-- The staged branch of `activate_body`: the write `state = FiberState::Active`. -/
def deferActivation : FiberMutable := { r with state := .Active }

/-- Last section of `commit_activation`, after the registry checks. -/
def commitActivation (active : GenerationId) : FiberMutable × Outcome :=
  if r.state ≠ .Starting ∨ r.activationSealed = false then
    (r, .error (.InvalidFiberState fiber r.state .Active))
  else if r.capabilities.isStaged active = false then
    (r, .error (.CapabilityPublicationFailed fiber))
  else if r.capabilities.publishes active = false then
    (r, .error (.CapabilityPublicationFailed fiber))
  else
    ({ r with staged := false, state := .Active, activationSealed := false, activation := false },
      .ok ())

/-- `fail_activation`. -/
def failActivation : FiberMutable :=
  { r with
    state := if r.state = .Starting then .Failed else r.state
    activation := false
    activationSealed := true
    cancelled := true }

/-- The section of `converge_host_failure`; `true` when the failing generation is committed here. -/
def convergeHostFailure (generation : GenerationId) : FiberMutable × Bool :=
  if r.generation ≠ generation ∨ r.staged ∨ ¬ (r.state = .Active ∨ r.state = .Reloading) then
    (r, false)
  else ({ r with state := .Failed }, true)

/-- The section of `dispose_fiber_observation`. The answer is an error, or whether this call is the
one that spawns the disposal worker. -/
def requestDisposal (waitForDependencies persistentDrain allowReloadOwned : Bool) :
    FiberMutable × Except CordisError Bool :=
  if r.reloadOwned && !allowReloadOwned then (r, .error (.FiberLifecycleOwned fiber))
  else
    let joined : FiberMutable := { r with
      reloadOwned := r.reloadOwned && !allowReloadOwned
      disposal := { r.disposal with
        waitForDependencies := r.disposal.waitForDependencies && waitForDependencies
        persistentDrain := r.disposal.persistentDrain || persistentDrain } }
    if r.disposal.phase = .Idle then
      if r.state ≠ .Disposing ∧ r.state.canTransitionTo .Disposing = false then
        (joined, .error (.InvalidFiberState fiber r.state .Disposing))
      else
        ({ joined with
          state := .Disposing
          cancelled := true
          capabilities := r.capabilities.close
          activation := false
          activationSealed := false
          disposal := { joined.disposal with phase := .Tasks } }, .ok true)
    else (joined, .ok false)

/-- `push_disposal_error`. -/
def pushDisposalError (phase : CleanupPhase) (error : CordisError) : FiberMutable :=
  { r with disposal := { r.disposal with errors := r.disposal.errors ++ [.of phase error] } }

/-- Records the failure of a cleanup step, if it failed. -/
def pushOutcome (phase : CleanupPhase) (outcome : Outcome) : FiberMutable :=
  match outcome with
  | .ok () => r
  | .error e => r.pushDisposalError phase e

/-- The disposal of child Scope `child` returned: it leaves the ledger. -/
def childDone (child : ScopeId) (outcome : Outcome) : FiberMutable :=
  let r := r.pushOutcome .ChildScopeCleanup outcome
  { r with childScopes := r.childScopes.filter (· ≠ child) }

/-- `set_disposal_phase`. -/
def setDisposalPhase (phase : DisposalPhase) : FiberMutable :=
  { r with disposal := { r.disposal with phase := phase } }

/-- The state a disposal body aims at. -/
def disposalTarget : FiberState :=
  if r.disposal.waitForDependencies then .WaitingDependencies else .Disposed

/-- First section of `finalize_fiber_disposal`: the result is replaced when the target is not a
legal successor. The last component is the Scope whose indexes are to be cleaned, if any: the
block's own `terminated` decides that, while the parameter `terminated` decides everything later. -/
def finalizeBegin (result : Outcome) (target : Option FiberState) (terminated : Bool) :
    FiberMutable × Outcome × Option ScopeId :=
  let result : Outcome :=
    match target with
    | none => result
    | some t =>
      if r.state.canTransitionTo t then result
      else .error (.DisposalWorkerTerminated ("invalid final state transition: " ++
        CordisError.stateName r.state ++ " -> " ++ CordisError.stateName t))
  let inner := terminated ||
    match result with
    | .error e => e.isWorkerError
    | .ok () => false
  (r.setDisposalPhase .Finalizing, result,
    if target = some .Disposed ∧ !inner then some r.scope else none)

/-- Last section of `finalize_fiber_disposal`: terminal bookkeeping and the observation. -/
def finalizeCommit (result : Outcome) (target : Option FiberState) (terminated : Bool) :
    FiberMutable × DisposalObservation :=
  ({ r with
      state := if terminated then r.state else target.getD r.state
      disposal := { r.disposal with
        result := some result
        phase := if terminated then .Terminated else .Complete } },
    { legacyResult := result
      terminal :=
        if terminated then
          .Incomplete (match result with
            | .error e => e
            | .ok () => .DisposalWorkerTerminated "disposal terminated")
        else .Committed
      issues := r.disposal.errors })

/-- `ensure_mutable`. -/
def ensureMutable : Outcome :=
  if r.activationSealed then .error (.ActivationSealed fiber)
  else if r.state = .Starting ∨ r.state = .Active ∨ r.state = .Reloading then .ok ()
  else .error (.FiberInactive fiber)

/-- The metadata writes of the staged Fiber inside the reload cutover. -/
def cutover (target : ScopeId) : FiberMutable :=
  { r with
    scope := target
    staged := false
    reloadOwned := false
    activationSealed := false
    activation := false }

end FiberMutable

end Cordis
