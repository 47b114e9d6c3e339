import Cordis.Fiber.Cell

/-!
# The step function of a Fiber

The sections of the disposal worker, of a reload that replaces the Fiber and of the install that
created it, and the dispatcher `FiberCell.step` over all labels.
-/

namespace Cordis

namespace FiberCell

variable (c : FiberCell)

/-- The worker moves to `pc` after a section on the record. -/
def setWorker (pc : DisposalPc) (f : FiberMutable → FiberMutable) : FiberCell :=
  { c.withMut f with worker := some pc }

/-- The sections of the disposal worker, which stands at `pc`: `run_fiber_disposal_body`, then
`finalize_fiber_disposal`. -/
def stepWorker (pc : DisposalPc) : FiberLabel → Option FiberCell
  | .workerLookup =>
    match pc with
    | .spawned =>
      if c.inArena then some { c with worker := some .queued }
      else some (c.finishBody (.error (.DisposalWorkerTerminated
        "fiber disappeared before lifecycle serialization")) none true)
    | _ => none
  | .workerLock =>
    match pc, c.lifecycle with
    | .queued, none => some { c with worker := some .locked, lifecycle := some .disposal }
    | _, _ => none
  | .takeTasks =>
    match pc with
    | .locked =>
      some { c with
        worker := some .cancelling
        inner := { c.inner with tasks := [], cancelled := true } }
    | _ => none
  | .tasksJoined outcome =>
    match pc with
    | .cancelling =>
      let d := c.setWorker .draining fun r =>
        (r.pushOutcome .TaskDrain outcome).setDisposalPhase .Draining
      -- `drain_until` starts by closing lease admission of the gate it holds
      some { d with inner := { d.inner with capabilities := { d.inner.capabilities with
        execution := d.inner.capabilities.execution.beginDraining } } }
    | _ => none
  | .drained =>
    match pc with
    | .draining =>
      if c.inner.capabilities.execution.inflight = 0 then
        some (c.setWorker .children (·.setDisposalPhase .ChildScopes))
      else none
    | _ => none
  | .drainTimedOut =>
    match pc with
    | .draining =>
      if c.inner.capabilities.execution.inflight = 0 then none
      else if (c.look fun r => some r.disposal.persistentDrain).getD false then some c
      else some (c.finishBody (.error (.CleanupFailed ("generation drain timed out with " ++
        toString c.inner.capabilities.execution.inflight ++ " provider executions"))) none true)
    | _ => none
  | .pickChild =>
    match pc with
    | .children =>
      match c.look fun r => r.childScopes.getLast? with
      | some child => some { c with worker := some (.childPicked child) }
      | none => some (c.setWorker .unregistering (·.setDisposalPhase .Handlers))
    | _ => none
  | .childRequested found =>
    match pc with
    | .childPicked child =>
      if found then some { c with worker := some (.childDisposing child) }
      else some (c.setWorker .children (·.childDone child (.error .ScopeNotFound)))
    | _ => none
  | .childDisposed outcome =>
    match pc with
    | .childDisposing child => some (c.setWorker .children (·.childDone child outcome))
    | _ => none
  | .unregister =>
    match pc with
    | .unregistering =>
      if (c.look fun r => r.handlers.getLast?).isSome then
        some (c.withMut fun r => { r with handlers := r.handlers.dropLast })
      else if (c.look fun r => r.invocationHandlers.getLast?).isSome then
        some (c.withMut fun r => { r with invocationHandlers := r.invocationHandlers.dropLast })
      else if (c.look fun r => r.invocationMiddleware.getLast?).isSome then
        some (c.withMut fun r =>
          { r with invocationMiddleware := r.invocationMiddleware.dropLast })
      else if c.inArena then some (c.setWorker (.withdrawing []) (·.setDisposalPhase .Services))
      else some (c.finishBody (.error (.DisposalWorkerTerminated
        CordisError.FiberNotFound.display)) none true)
    | _ => none
  | .withdraw =>
    match pc with
    | .withdrawing removed =>
      match c.look fun r => r.provided.getLast? with
      | some key =>
        some (c.setWorker (.withdrawn removed key) fun r => { r with provided := r.provided.dropLast })
      | none => some (c.setWorker (.cleaning removed) (·.setDisposalPhase .Effects))
    | _ => none
  | .withdrawLook owned =>
    match pc with
    | .withdrawn removed key =>
      some { c with worker := some (if owned then .removing removed key else .withdrawing removed) }
    | _ => none
  | .withdrawRemove =>
    match pc with
    | .removing removed key => some { c with worker := some (.withdrawing (removed ++ [key])) }
    | _ => none
  | .takeEffect =>
    match pc with
    | .cleaning removed =>
      match c.look fun r => r.effects.getLast? with
      | some _ =>
        some (c.setWorker (.effectDisposing removed) fun r =>
          { r with effects := r.effects.dropLast })
      | none => some (c.setWorker (.reconciling removed) (·.setDisposalPhase .Reconciling))
    | _ => none
  | .effectDisposed outcome =>
    match pc with
    | .effectDisposing removed =>
      some (c.setWorker (.cleaning removed) (·.pushOutcome .EffectCleanup outcome))
    | _ => none
  | .readTarget =>
    match pc with
    | .reconciling removed =>
      let target := (c.look fun r => some r.disposalTarget).getD .Disposed
      some { c with worker := some (.targeted target removed) }
    | _ => none
  | .reconciled outcome =>
    match pc with
    | .targeted target _ =>
      some (c.setWorker (.reporting target) (·.pushOutcome .DependencyCleanup outcome))
    | _ => none
  | .report =>
    match pc with
    | .reporting target =>
      some (c.finishBody ((c.look fun r => some (aggregate r.disposal.errors)).getD
        (.error (.DisposalWorkerTerminated "fiber disappeared after cleanup"))) (some target) false)
    | _ => none
  | .workerDied panic =>
    if pc.inBody && pc.taken.isNone then
      some (c.finishBody (.error (match panic with
        | some message => .DisposalWorkerPanicked message
        | none => .DisposalWorkerCancelled)) none true)
    else none
  | .finalizeBegin =>
    match pc with
    | .finished result target terminated =>
      if c.inArena then
        match c.inner.finalizeBegin result target terminated with
        | (inner, result', indexes) =>
          some { c with
            inner := inner
            worker := some (.finalizing result' target terminated indexes) }
      -- the supervisor gives up: nothing is published
      else some { c with worker := none }
    | _ => none
  | .indexCleanup =>
    match pc with
    | .finalizing result target terminated _ =>
      some { c with worker := some (.indexed result target terminated) }
    | _ => none
  | .finalizeCommit =>
    match pc with
    | .indexed result target terminated =>
      if c.inArena then
        match c.inner.finalizeCommit result target terminated with
        | (inner, observation) =>
          some { c with
            inner := inner
            worker := none
            published := Function.update c.published inner.disposal.completion
              ((c.published inner.disposal.completion).or (some observation)) }
      else some { c with worker := none }
    | _ => none
  | _ => none

/-- The sections of a reload transaction that replaces this Fiber; it stands at `pc`. -/
def stepReload (pc : ReloadPc) : FiberLabel → Option FiberCell
  | .reloadCheck =>
    match pc with
    | .locked =>
      if c.inArena ∧ c.inner.state = .Active then some { c with lifecycle := some (.reload .checked) }
      else some { c with lifecycle := none }
    | _ => none
  | .reloadTransition =>
    match pc with
    | .checked =>
      if c.inArena then
        match c.inner.transition c.id .Reloading with
        | (inner, .ok ()) => some { c with inner := inner, lifecycle := some (.reload .reloading) }
        | (_, .error _) => some { c with lifecycle := none }
      else some { c with lifecycle := none }
    | _ => none
  | .reloadRollback =>
    match pc with
    | .reloading =>
      -- `rollback_reload` only records a refused transition back to `Active`
      some { c.withMut (fun r => (r.transition c.id .Active).1) with
        lifecycle := some (.reload .ended) }
    | _ => none
  | .reloadSuperseded =>
    match pc with
    | .reloading =>
      some { c with
        inner := { c.inner with capabilities := c.inner.capabilities.close }
        lifecycle := some (.reload .ended) }
    | _ => none
  | .reloadUnlock =>
    match pc with
    | .ended => some { c with lifecycle := none }
    | _ => none
  | _ => none

/-- How many keys `install_arc` files: the dependencies first, then the provisions. -/
def keys : Nat := c.inner.descriptor.dependencies.length + c.inner.descriptor.provisions.length

/-- The sections of `install_arc` after the insertion; it stands at `pc`. -/
def stepInstall (pc : InstallPc) : FiberLabel → Option FiberCell
  | .installIndex =>
    match pc with
    | .indexing done => if done < c.keys then some { c with installer := .indexing (done + 1) } else none
    | _ => none
  | .installValidate outcome =>
    match pc with
    | .indexing done =>
      if done < c.keys then none
      else
        match outcome with
        | .ok () => some { c with installer := .checking }
        | .error e => some { c with installer := .refused e }
    | _ => none
  | .installRemove =>
    match pc with
    | .refused e => some { c with inArena := false, installer := .returned (.error e) }
    | _ => none
  | .installCheck met =>
    match pc with
    | .checking =>
      if !met then some { c with installer := .waiting }
      else if c.inArena then
        some { c.callActivate with installer := .activating c.nextActivation }
      else some { c with installer := .returned (.error .FiberNotFound) }
    | _ => none
  | .installWait =>
    match pc with
    | .waiting =>
      if c.inArena then
        match c.inner.transition c.id .WaitingDependencies with
        | (inner, outcome) => some { c with inner := inner, installer := .returned outcome }
      else some { c with installer := .returned (.error .FiberNotFound) }
    | _ => none
  | .installActivated =>
    match pc with
    | .activating call =>
      match c.activations call with
      | some (.returned outcome) => some { c with installer := .returned outcome }
      | _ => none
    | _ => none
  | _ => none

/-- A Context call adds `entry` to the ledger. -/
def registered (entry : Registration) : FiberMutable → FiberMutable := fun r =>
  match entry with
  | .effect id => { r with effects := r.effects ++ [id] }
  | .handler id => { r with handlers := r.handlers ++ [id] }
  | .invocationHandler id => { r with invocationHandlers := r.invocationHandlers ++ [id] }
  | .invocationMiddleware id => { r with invocationMiddleware := r.invocationMiddleware ++ [id] }
  | .provided key => { r with provided := r.provided ++ [key] }
  | .childScope scope => { r with childScopes := r.childScopes ++ [scope] }
  | .task id => { r with tasks := r.tasks ++ [id] }

/-- The record accepts `entry`: `Context::spawn` has a check of its own. -/
def accepts (entry : Registration) : Bool :=
  match entry with
  | .task _ =>
    decide (c.inner.state = .Starting ∧ c.inner.activationSealed = false ∨ c.inner.state = .Active)
  | .provided key =>
    (c.inner.ensureMutable c.id).isOk && decide (key ∈ c.inner.descriptor.provisions)
  | _ => (c.inner.ensureMutable c.id).isOk

/-- One critical section of one thread. -/
def step (c : FiberCell) (l : FiberLabel) : Option FiberCell :=
  match l with
  | .callActivate => if c.inArena then some c.callActivate else none
  | .activationLock n | .activationBegin n _ _ | .activationPoll n | .activationPending n
  | .activationReturn n _ | .activationSeal n _ | .activationValidate n | .activationReadStaged n
  | .activationDefer n | .activationCheck n _ | .activationCommit n _ _ | .activationRelease n | .activationUnlock n
  | .activationFail n | .activationCleanup n | .activationDispose n | .activationCleaned n =>
    (c.activations n).bind fun pc => c.stepActivation n pc l
  | .callDispose waitForDependencies persistentDrain allowReloadOwned =>
    some (c.dispose waitForDependencies persistentDrain allowReloadOwned).1
  | .workerLookup | .workerLock | .takeTasks | .tasksJoined _ | .drained | .drainTimedOut
  | .pickChild | .childRequested _ | .childDisposed _ | .unregister | .withdraw | .withdrawLook _
  | .withdrawRemove | .takeEffect | .effectDisposed _ | .readTarget | .reconciled _ | .report
  | .workerDied _ | .finalizeBegin | .indexCleanup | .finalizeCommit =>
    c.worker.bind fun pc => c.stepWorker pc l
  | .reloadLock =>
    match c.lifecycle with
    | none => some { c with lifecycle := some (.reload .locked) }
    | some _ => none
  | .reloadCheck | .reloadTransition | .reloadRollback | .reloadSuperseded | .reloadUnlock =>
    match c.lifecycle with
    | some (.reload pc) => c.stepReload pc l
    | _ => none
  | .cutover target active =>
    if c.inner.state = .Active ∧ c.inner.capabilities.isStaged active then
      some { c with inner := c.inner.cutover target }
    else none
  | .hostFailure generation =>
    -- takes and releases the mutex around this one section
    match c.lifecycle with
    | none => some { c with inner := (c.inner.convergeHostFailure generation).1 }
    | some _ => none
  | .installIndex | .installValidate _ | .installRemove | .installCheck _ | .installWait | .installActivated =>
    c.stepInstall c.installer l
  | .reclaim =>
    if c.inArena ∧ c.inner.state = .Disposed then some { c with inArena := false } else none
  | .register entry =>
    if c.accepts entry then some { c with inner := registered entry c.inner } else none
  | .taskDetached task =>
    some { c with inner := { c.inner with tasks := c.inner.tasks.filter (· ≠ task) } }
  | .acquireLease =>
    c.inner.capabilities.execution.tryAcquire.map fun x =>
      { c with inner := { c.inner with capabilities := { c.inner.capabilities with execution := x } } }
  | .dropLease =>
    c.inner.capabilities.execution.dropInflight.map fun x =>
      { c with inner := { c.inner with capabilities := { c.inner.capabilities with execution := x } } }

end FiberCell

end Cordis
