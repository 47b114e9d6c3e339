import Cordis.Fiber.Record
import Mathlib.Logic.Function.Basic

/-!
# One Fiber as a machine

`FiberCell` is a Fiber together with every thread that works on it: the holder of its async
`lifecycle` mutex, its activation calls, the disposal worker (body, then finalizer) of the current
round, the dispose calls that joined a round, and the install that created it. A label is one
critical section of one of these threads; what the section reads outside the Fiber (another
registry, plugin code, a clock) is an argument of the label. Callers are not restricted: any thread
may call `activate` or `dispose_fiber` at any time. Adjacent sections of the disposal worker are one
step where only the worker itself reads what the first of them wrote.
-/

namespace Cordis

/-- Where an activation call stands in `activate_body` / `converge_failed_activation`. -/
inductive ActivationPc
  | queued
  /-- Holds the mutex; the first section is next. -/
  | locked
  /-- The `select!` over cancellation and `plugin.start` is to be polled. -/
  | selecting
  /-- The token had not fired when this poll looked at it; `plugin.start` is being polled. -/
  | polling
  /-- `plugin.start` returned `Ok`; sealing is next. -/
  | started
  /-- Sealed; `validate_staged_revision` is next. -/
  | sealed
  /-- Validated; the `staged` flag is read next. -/
  | validated
  /-- Read `staged = true`; the write of `Active` is next. -/
  | deferring
  /-- Read `staged = false`; the registry checks of `commit_activation` are next. -/
  | committing
  /-- The checks have passed; the publication is next. -/
  | checked
  /-- Committed; reconciliation, if any, runs before the mutex is released. -/
  | committed
  /-- Failed; `drop(operation)` is next. -/
  | failed (primary : CordisError)
  /-- Mutex released; `fail_activation` is next. -/
  | unlocked (primary : CordisError)
  /-- The dispose call of `converge_failed_activation` looks the Fiber up next. -/
  | cleanup (primary : CordisError)
  /-- The dispose call has found the Fiber; its section on the record is next. -/
  | found (primary : CordisError)
  /-- Awaiting dispose call `call`. -/
  | cleaning (primary : CordisError) (call : Nat)
  | returned (outcome : Outcome)

/-- Where the disposal worker of a round stands: `run_fiber_disposal_body`, then
`finalize_fiber_disposal` in the supervisor that awaited the body. -/
inductive DisposalPc
  /-- Spawned; the arena lookup is next. -/
  | spawned
  | queued
  /-- Holds the mutex; the task ledger is taken next. -/
  | locked
  | cancelling
  | draining
  /-- At the head of the child Scope loop. -/
  | children
  /-- `dispose_scope(child)` is called next. -/
  | childPicked (child : ScopeId)
  | childDisposing (child : ScopeId)
  /-- In the loops over the handler ledgers. -/
  | unregistering
  /-- In the loop over `provided`; `removed` are the symbols withdrawn so far. -/
  | withdrawing (removed : List ServiceSymbol)
  /-- `key` is taken out of the ledger; the owner of its entry is read next. -/
  | withdrawn (removed : List ServiceSymbol) (key : ServiceSymbol)
  /-- The entry of `key` was the Fiber's; it is removed next. -/
  | removing (removed : List ServiceSymbol) (key : ServiceSymbol)
  /-- In the loop over `effects`. -/
  | cleaning (removed : List ServiceSymbol)
  | effectDisposing (removed : List ServiceSymbol)
  /-- `wait_for_dependencies` is read next. -/
  | reconciling (removed : List ServiceSymbol)
  /-- The target is fixed; `reconcile_symbols` runs if a symbol was withdrawn. -/
  | targeted (target : FiberState) (removed : List ServiceSymbol)
  /-- The result is computed from the recorded errors next. -/
  | reporting (target : FiberState)
  /-- The body ended and released the mutex; the finalizer is next. -/
  | finished (result : Outcome) (target : Option FiberState) (terminated : Bool)
  /-- After the first section of the finalizer. -/
  | finalizing (result : Outcome) (target : Option FiberState) (terminated : Bool)
    (indexes : Option ScopeId)
  /-- Indexes converged; the publishing section is next. -/
  | indexed (result : Outcome) (target : Option FiberState) (terminated : Bool)

/-- The pc's of `run_fiber_disposal_body`; at the others the body has returned. -/
def DisposalPc.inBody : DisposalPc → Bool
  | finished .. | finalizing .. | indexed .. => false
  | _ => true

/-- The symbol that is out of the ledger while its entry is still to be dealt with: the worker neither awaits nor
calls anything until it has done so. -/
def DisposalPc.taken : DisposalPc → Option ServiceSymbol
  | withdrawn _ key | removing _ key => some key
  | _ => none

/-- The state this round will write, once `wait_for_dependencies` has been read. -/
def DisposalPc.target : DisposalPc → Option FiberState
  | targeted t _ | reporting t => some t
  | finished _ t _ | finalizing _ t _ _ | indexed _ t _ => t
  | _ => none

/-- The body of this round ended abnormally. -/
def DisposalPc.terminated : DisposalPc → Bool
  | finished _ _ b | finalizing _ _ b _ | indexed _ _ b => b
  | _ => false

/-- Where a reload transaction that replaces this Fiber stands while it holds the mutex. -/
inductive ReloadPc
  /-- Holds the mutex; the `Active` check is next. -/
  | locked
  /-- Was `Active`; `transition(old, Reloading)` is next. -/
  | checked
  /-- `Reloading`; the replacement is being prepared. -/
  | reloading
  /-- Cut over or rolled back; the mutex is released next. -/
  | ended
  deriving DecidableEq

/-- Who holds the lifecycle mutex. -/
inductive Operation
  | activation (call : Nat)
  | disposal
  | reload (pc : ReloadPc)

/-- Where the install that created this Fiber stands. -/
inductive InstallPc
  /-- The first `done` keys of the descriptor are in the dependency graph, which `validate_dependency_graph` checks
  after the last one. -/
  | indexing (done : Nat)
  /-- The validation failed; `remove_unstarted_fiber` is next. -/
  | refused (e : CordisError)
  /-- `dependencies_met` is next. -/
  | checking
  | waiting
  | activating (call : Nat)
  | returned (outcome : Outcome)

/-- A call of `dispose_fiber_observation` that joined the round with completion `round`. -/
structure DisposeCall where
  waitForDependencies : Bool
  persistentDrain : Bool
  allowReloadOwned : Bool
  round : Nat
  deriving DecidableEq

/-- One Fiber and the threads that work on it. -/
structure FiberCell where
  id : FiberId
  plugin : PluginId
  /-- The Scope the Fiber was installed in, which a Context keeps as `initial_scope`. -/
  origin : ScopeId
  /-- The arena still maps `id` to this cell; threads that hold the `Arc` keep using it anyway. -/
  inArena : Bool
  inner : FiberMutable
  lifecycle : Option Operation
  worker : Option DisposalPc
  activations : Nat → Option ActivationPc
  nextActivation : Nat
  calls : Nat → Option DisposeCall
  nextCall : Nat
  published : Nat → Option DisposalObservation
  nextCompletion : Nat
  installer : InstallPc

/-- A ledger entry that a Context call adds. -/
inductive Registration
  | effect (id : Nat)
  | handler (id : Nat)
  | invocationHandler (id : Nat)
  | invocationMiddleware (id : Nat)
  | provided (key : ServiceSymbol)
  | childScope (scope : ScopeId)
  | task (id : Nat)

/-- One critical section of one thread that works on the Fiber. -/
inductive FiberLabel
  | callActivate
  | activationLock (call : Nat)
  | activationBegin (call : Nat) (admitted : Bool) (fresh : Except CordisError GenerationId)
  | activationPoll (call : Nat)
  | activationPending (call : Nat)
  | activationReturn (call : Nat) (outcome : Outcome)
  | activationSeal (call : Nat) (admitted : Bool)
  | activationValidate (call : Nat)
  | activationReadStaged (call : Nat)
  | activationDefer (call : Nat)
  | activationCheck (call : Nat) (checked : Outcome)
  | activationCommit (call : Nat) (admitted : Outcome) (active : GenerationId)
  | activationRelease (call : Nat)
  | activationUnlock (call : Nat)
  | activationFail (call : Nat)
  | activationCleanup (call : Nat)
  | activationDispose (call : Nat)
  | activationCleaned (call : Nat)
  | callDispose (waitForDependencies persistentDrain allowReloadOwned : Bool)
  | workerLookup
  | workerLock
  | takeTasks
  | tasksJoined (outcome : Outcome)
  | drained
  | drainTimedOut
  | pickChild
  | childRequested (found : Bool)
  | childDisposed (outcome : Outcome)
  | unregister
  | withdraw
  | withdrawLook (owned : Bool)
  | withdrawRemove
  | takeEffect
  | effectDisposed (outcome : Outcome)
  | readTarget
  | reconciled (outcome : Outcome)
  | report
  | workerDied (panic : Option String)
  | finalizeBegin
  | indexCleanup
  | finalizeCommit
  | reloadLock
  | reloadCheck
  | reloadTransition
  | reloadRollback
  | reloadSuperseded
  | reloadUnlock
  | cutover (target : ScopeId) (active : GenerationId)
  | hostFailure (generation : GenerationId)
  | installIndex
  | installValidate (outcome : Outcome)
  | installRemove
  | installCheck (met : Bool)
  | installWait
  | installActivated
  | reclaim
  | register (entry : Registration)
  | taskDetached (task : Nat)
  | acquireLease
  | dropLease

namespace FiberCell

variable (c : FiberCell)

/-- The cell that `install_arc` inserts. -/
def created (id : FiberId) (plugin : PluginId) (scope : ScopeId) (descriptor : PluginDescriptor)
    (generation : GenerationId) (staged : Bool) : FiberCell where
  id := id
  plugin := plugin
  origin := scope
  inArena := true
  inner := .created scope descriptor generation staged 0
  lifecycle := none
  worker := none
  activations := fun _ => none
  nextActivation := 0
  calls := fun _ => none
  nextCall := 0
  published := fun _ => none
  nextCompletion := 1
  installer := .indexing 0

/-- `FiberRegistry::with_mut`: nothing happens when the arena no longer knows the Fiber. -/
def withMut (f : FiberMutable → FiberMutable) : FiberCell :=
  if c.inArena then { c with inner := f c.inner } else c

/-- `FiberRegistry::with` on an option-valued read. -/
def look {α : Type} (f : FiberMutable → Option α) : Option α :=
  if c.inArena then f c.inner else none

/-- Moves activation call `n`. -/
def setActivation (n : Nat) (pc : ActivationPc) : FiberCell :=
  { c with activations := Function.update c.activations n (some pc) }

/-- Queues a new activation call on the lifecycle mutex. -/
def callActivate : FiberCell :=
  { c.setActivation c.nextActivation .queued with nextActivation := c.nextActivation + 1 }

/-- The record section of `dispose_fiber_observation`, whose caller found the Fiber in the arena some time before: a
joined call is recorded under `nextCall`. -/
def dispose (waitForDependencies persistentDrain allowReloadOwned : Bool) :
    FiberCell × Except CordisError Nat :=
  match c.inner.requestDisposal c.id waitForDependencies persistentDrain allowReloadOwned with
  | (inner, .error e) => ({ c with inner := inner }, .error e)
  | (inner, .ok spawns) =>
    ({ c with
        inner := inner
        worker := if spawns then some .spawned else c.worker
        calls := Function.update c.calls c.nextCall (some
          ⟨waitForDependencies, persistentDrain, allowReloadOwned, inner.disposal.completion⟩)
        nextCall := c.nextCall + 1 }, .ok c.nextCall)

/-- The body returned `outcome`; it held the mutex from `locked` on. -/
def finishBody (result : Outcome) (target : Option FiberState) (terminated : Bool) : FiberCell :=
  { c with
    worker := some (.finished result target terminated)
    lifecycle := match c.lifecycle with
      | some .disposal => none
      | other => other }

/-- What `converge_failed_activation` returns for a disposal that ended with `o`. -/
def activationCleanup (o : DisposalObservation) : List CordisError :=
  let causes := o.issues.map fun i => i.cause.getD
    (.PluginDisposeFailed (i.phase.name ++ ": " ++ i.message))
  let legacy : List CordisError :=
    match o.legacyResult with
    | .error e => [e]
    | .ok () => []
  match o.terminal with
  | .Incomplete _ => causes ++ legacy
  | .Committed => if causes.isEmpty then legacy else causes

/-- `activation_failure`. -/
def activationFailure (primary : CordisError) (cleanup : List CordisError) : CordisError :=
  if cleanup.isEmpty then primary else .ActivationFailed primary cleanup

/-- The `PluginStartFailed` wrapping of a failed start; host and domain failures stay typed. -/
def startFailure : CordisError → CordisError
  | .Host m => .Host m
  | .RemoteDomain m => .RemoteDomain m
  | e => .PluginStartFailed e.display

/-- The sections of activation call `n`, which stands at `pc`. -/
def stepActivation (n : Nat) (pc : ActivationPc) : FiberLabel → Option FiberCell
  | .activationLock _ =>
    match pc, c.lifecycle with
    | .queued, none =>
      some { c.setActivation n .locked with lifecycle := some (.activation n) }
    | _, _ => none
  | .activationBegin _ admitted fresh =>
    match pc with
    | .locked =>
      if admitted then
        match c.inner.beginActivation c.id c.nextCompletion fresh with
        | (inner, .ok ()) =>
          some { c.setActivation n .selecting with
            inner := inner
            nextCompletion := c.nextCompletion + 1 }
        | (inner, .error e) =>
          some { c.setActivation n (.returned (.error e)) with
            inner := inner
            nextCompletion := c.nextCompletion + 1
            lifecycle := none }
      else
        some { c.setActivation n (.returned (.error .RuntimeShuttingDown)) with lifecycle := none }
    | _ => none
  | .activationPoll _ =>
    match pc with
    | .selecting =>
      -- `select!` is biased: a token that has fired wins over a ready start
      if c.inner.cancelled then
        some (c.setActivation n (.failed (startFailure .TaskCancelled)))
      else some (c.setActivation n .polling)
    | _ => none
  | .activationPending _ =>
    match pc with
    | .polling => some (c.setActivation n .selecting)
    | _ => none
  | .activationReturn _ outcome =>
    match pc, outcome with
    | .polling, .ok () => some (c.setActivation n .started)
    | .polling, .error e => some (c.setActivation n (.failed (startFailure e)))
    | _, _ => none
  | .activationSeal _ admitted =>
    match pc with
    | .started =>
      if admitted ∧ c.inner.sealActivation.2 then
        some { c.setActivation n .sealed with inner := c.inner.sealActivation.1 }
      else some (c.setActivation n (.failed .RuntimeShuttingDown))
    | _ => none
  | .activationValidate _ =>
    match pc with
    | .sealed =>
      if c.inArena then
        match c.inner.validateStagedRevision with
        | .ok () => some (c.setActivation n .validated)
        | .error e => some (c.setActivation n (.failed e))
      else some (c.setActivation n (.failed .FiberNotFound))
    | _ => none
  | .activationReadStaged _ =>
    match pc with
    | .validated => some (c.setActivation n (if c.inner.staged then .deferring else .committing))
    | _ => none
  | .activationDefer _ =>
    match pc with
    | .deferring => some { c.setActivation n .committed with inner := c.inner.deferActivation }
    | _ => none
  | .activationCheck _ checked =>
    match pc with
    | .committing =>
      match checked with
      | .error e => some (c.setActivation n (.failed e))
      | .ok () => some (c.setActivation n .checked)
    | _ => none
  | .activationCommit _ admitted active =>
    match pc with
    | .checked =>
      match admitted with
      | .error e => some (c.setActivation n (.failed e))
      | .ok () =>
        if c.inArena then
          match c.inner.commitActivation c.id active with
          | (inner, .ok ()) => some { c.setActivation n .committed with inner := inner }
          | (_, .error e) => some (c.setActivation n (.failed e))
        else some (c.setActivation n (.failed .FiberNotFound))
    | _ => none
  | .activationRelease _ =>
    match pc with
    | .committed => some { c.setActivation n (.returned (.ok ())) with lifecycle := none }
    | _ => none
  | .activationUnlock _ =>
    match pc with
    | .failed e => some { c.setActivation n (.unlocked e) with lifecycle := none }
    | _ => none
  | .activationFail _ =>
    match pc with
    | .unlocked e => some ((c.withMut .failActivation).setActivation n (.cleanup e))
    | _ => none
  | .activationCleanup _ =>
    match pc with
    | .cleanup e =>
      if c.inArena then some (c.setActivation n (.found e))
      else some (c.setActivation n (.returned (.error (activationFailure e [.FiberNotFound]))))
    | _ => none
  | .activationDispose _ =>
    match pc with
    | .found e =>
      match c.dispose false false true with
      | (d, .ok call) => some (d.setActivation n (.cleaning e call))
      | (d, .error e') =>
        some (d.setActivation n (.returned (.error (activationFailure e [e']))))
    | _ => none
  | .activationCleaned _ =>
    match pc with
    | .cleaning e call =>
      match (c.calls call).bind fun d => c.published d.round with
      | some o =>
        some (c.setActivation n (.returned (.error (activationFailure e (activationCleanup o)))))
      | none => none
    | _ => none
  | _ => none

end FiberCell

end Cordis
