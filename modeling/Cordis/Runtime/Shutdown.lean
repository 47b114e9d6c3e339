import Cordis.Core.Disposal
import Cordis.Library.WaitLoop

/-!
# The shutdown coordinator

`shutdown_detailed` starts a shutdown attempt or joins the one under way, and waits for its outcome. An
attempt is a supervisor task: it runs the convergence, whose outcome is arbitrary here, and then
`finalize_shutdown`. A step is one critical section of the coordinator, one store to the admission gate,
or one `notify_waiters`; the callers wait in `wait_for_shutdown_completion`.
-/

namespace Cordis

/-- Runtime shutdown lifecycle. -/
inductive RuntimeShutdownState
  | Running
  | ShuttingDown
  | Incomplete
  | Complete
  deriving DecidableEq, Repr

/-- A live ownership or control-plane fact preventing shutdown completion. -/
inductive ShutdownBlocker
  | Fiber (fiber : FiberId)
  | HostedExecution (fiber : FiberId)
  | Scope (scope : ScopeId)
  | RuntimeWorkers (workers : Nat)
  | Tasks (tasks : Nat)
  | GenerationInflight (fiber : FiberId) (generation inflight serviceHandles : Nat)
  | ReloadTransactions (reloads : Nat)
  | Staging (fibers scopes : Nat)
  deriving DecidableEq, Repr

/-- Durable result of one shutdown convergence attempt. -/
inductive ShutdownOutcome
  | Complete
  | CompleteWithIssues (issues : List CleanupIssue)
  | Incomplete (blockers : List ShutdownBlocker) (issues : List CleanupIssue)

def ShutdownOutcome.isIncomplete : ShutdownOutcome → Bool
  | Incomplete _ _ => true
  | _ => false

/-- The state of the `AdmissionGate`. -/
inductive AdmissionState
  | RUNNING
  | SHUTTING_DOWN
  | SHUTDOWN
  deriving DecidableEq, Repr

namespace AdmissionState

/-- `AdmissionGate::begin_shutdown`. -/
def beginShutdown : AdmissionState → AdmissionState × Bool
  | RUNNING => (SHUTTING_DOWN, true)
  | state => (state, false)

/-- `AdmissionGate::complete_shutdown`. -/
def completeShutdown (_ : AdmissionState) : AdmissionState := SHUTDOWN

end AdmissionState

/-- The result slot of an attempt. -/
structure ShutdownCompletion where
  outcome : Option ShutdownOutcome

namespace ShutdownCompletion

def default : ShutdownCompletion := ⟨none⟩

/-- A second outcome is refused. -/
def publish (c : ShutdownCompletion) (outcome : ShutdownOutcome) : ShutdownCompletion × Bool :=
  if c.outcome.isSome then (c, false) else (⟨some outcome⟩, true)

end ShutdownCompletion

namespace Shutdown

/-- Where the supervisor of an attempt stands. -/
inductive Supervisor
  | running
  /-- `finish` returned for a complete outcome; `complete_shutdown` is next. -/
  | completing
  /-- `notify_waiters` is next. -/
  | notifying
  | returned
  deriving DecidableEq, Repr

/-- A completion with the supervisor that was started for it. -/
structure Attempt where
  completion : ShutdownCompletion
  supervisor : Supervisor

/-- `ShutdownOperation`. The completion is named by its attempt. -/
structure Operation where
  completion : Nat
  supervisorActive : Bool
  deriving DecidableEq, Repr

structure Coordinator where
  lifecycle : RuntimeShutdownState
  operation : Option Operation
  admission : AdmissionState
  attempts : List Attempt

namespace Coordinator

def default : Coordinator := ⟨.Running, none, .RUNNING, []⟩

variable (c : Coordinator)

/-- `ShutdownCompletion::outcome` of attempt `n`. -/
def outcome (n : Nat) : Option ShutdownOutcome := (c.attempts[n]?).bind (·.completion.outcome)

/-- `start_or_observe` observes its operation. -/
def observes (operation : Operation) : Bool :=
  (c.outcome operation.completion).isNone || c.lifecycle == .Complete

/-- The attempt that `start_or_observe` starts when it observes none. -/
def start : Coordinator × Nat :=
  ({ lifecycle := .ShuttingDown
     operation := some ⟨c.attempts.length, true⟩
     admission := c.admission.beginShutdown.1
     attempts := c.attempts ++ [⟨.default, .running⟩] }, c.attempts.length)

def startOrObserve : Coordinator × Nat :=
  match c.operation with
  | some operation => if c.observes operation then (c, operation.completion) else c.start
  | none => c.start

/-- `ShutdownCoordinator::finish` for attempt `n`, and what `publish` answers. -/
def finish (n : Nat) (outcome : ShutdownOutcome) : Coordinator × Bool :=
  ({ c with
      lifecycle := if outcome.isIncomplete then .Incomplete else .Complete
      operation := c.operation.map fun operation => { operation with supervisorActive := false }
      attempts := c.attempts.modify n fun attempt =>
        { attempt with completion := (attempt.completion.publish outcome).1 } },
    (c.attempts[n]?).any fun attempt => (attempt.completion.publish outcome).2)

/-- The supervisor of attempt `n` gets on. -/
def moved (n : Nat) (supervisor : Supervisor) : Coordinator :=
  { c with attempts := c.attempts.modify n fun attempt => { attempt with supervisor } }

end Coordinator

inductive Label
  /-- `shutdown_detailed` calls `start_or_observe`. -/
  | call
  /-- Attempt `n` ends with an outcome, and `finalize_shutdown` calls `finish`. -/
  | finish (n : Nat) (outcome : ShutdownOutcome)
  /-- The `finalize_shutdown` of attempt `n` calls `complete_shutdown`. -/
  | completeShutdown (n : Nat)
  /-- The `finalize_shutdown` of attempt `n` calls `notify_waiters` and returns. -/
  | notify (n : Nat)

def step (c : Coordinator) : Label → Option Coordinator
  | .call => some c.startOrObserve.1
  | .finish n outcome =>
    if (c.attempts[n]?).any (·.supervisor == .running) then
      some ((c.finish n outcome).1.moved n
        (if outcome.isIncomplete then .notifying else .completing))
    else none
  | .completeShutdown n =>
    if (c.attempts[n]?).any (·.supervisor == .completing) then
      some { c.moved n .notifying with admission := c.admission.completeShutdown }
    else none
  | .notify n =>
    if (c.attempts[n]?).any (·.supervisor == .notifying) then some (c.moved n .returned) else none

/-- `wait_for_shutdown_completion` of a completion, and those it waits for. -/
def waitForShutdownCompletion :
    WaitLoop Coordinator Label Nat Unit ShutdownOutcome ShutdownOutcome where
  step := step
  calls c a := match a with
    | .call => some c.startOrObserve.2
    | _ => none
  notifies _ a := match a with
    | .notify n => some n
    | _ => none
  looksFirst := true
  check c n := match c.outcome n with
    | some outcome => .ok outcome
    | none => .error ()
  finish _ _ outcome := some outcome
  expire _ := none

end Shutdown

end Cordis
