import Cordis.Runtime.Context
import Cordis.Runtime.Shutdown

/-!
# A shutdown attempt

`run_shutdown_attempt` among everything else that goes on: the disposal of the root Scope, the rounds of
`converge_shutdown_residue`, the last collection and the audit of `shutdown_blockers`. A step is one critical
section of the attempt, the answer of a call that it awaits, the deadline, or a section of anybody else. The audit
takes a lock for each record and each counter it reads, so what it reports is no single state of the Runtime.
Runtime workers, reload counters, service handles and host processes are kept elsewhere; the audit is told what it
reads there.
-/

namespace Cordis

/-- Where `shutdown_blockers` stands. `all` is the snapshot of the Fibers, `hidden` the number of staging Scopes. -/
inductive AuditPc
  | snapshot
  /-- The records of `unread` are read one after the other. -/
  | fibers (all unread : List FiberId)
  | scopes (all : List FiberId)
  | workers (all : List FiberId) (hidden : Nat)
  | tasks (all : List FiberId) (hidden : Nat)
  | reloads (all : List FiberId) (hidden : Nat)
  /-- `reload_cleanup_pending` is read next. -/
  | pending (all : List FiberId) (hidden active : Nat)
  /-- The records are read again, for the staged Fibers among them. -/
  | staging (unread : List FiberId) (hidden staged : Nat)

/-- Where `run_shutdown_attempt` stands. `quiet`: the round has found nothing so far. -/
inductive AttemptPc
  /-- `begin_shutdown` is next. -/
  | opening
  | rootCall
  | rootWaiting
  /-- `workers.shutdown_until` is running. -/
  | joining
  /-- At the head of the loop of `converge_shutdown_residue`. -/
  | round (n : Nat)
  | scopeCalls (n : Nat) (quiet : Bool) (left : List ScopeId)
  | scopeWaiting (n : Nat) (quiet : Bool) (left : List ScopeId) (scope : ScopeId)
  | fiberSnapshot (n : Nat) (quiet : Bool)
  | fibersRead (n : Nat) (quiet : Bool) (alive unread : List FiberId)
  | fiberCalls (n : Nat) (quiet : Bool) (left : List FiberId)
  /-- The dispose call has found `fiber`; its section on the record is next. -/
  | fiberFound (n : Nat) (quiet : Bool) (left : List FiberId) (fiber : FiberId)
  | fiberWaiting (n : Nat) (quiet : Bool) (left : List FiberId) (fiber : FiberId) (call : Nat)
  | collecting
  | audit (pc : AuditPc)
  | ended (outcome : ShutdownOutcome)

structure ShutdownAttempt where
  contexts : Contexts
  pc : AttemptPc
  issues : List CleanupIssue
  blockers : List ShutdownBlocker

inductive AttemptLabel
  /-- A section of somebody else, the passes of `collect_garbage` among them. -/
  | contexts (l : ContextLabel)
  | advance
  /-- The deadline is over before the awaited call has answered. -/
  | deadline
  | record (hosted : Bool) (serviceHandles : Nat)
  | counter (n : Nat)

namespace Runtime

variable (rt : Runtime)

/-- `FiberRegistry::snapshot`. -/
def fiberIds : List FiberId := (List.range rt.nextFiber).filter fun f => (rt.fiber f).isSome

/-- The Scopes but the root that are not `Disposed`. -/
def scopeResidue : List ScopeId :=
  (List.range rt.nextScope).filter fun s => s ≠ root ∧ (rt.scope s).any (·.state ≠ .Disposed)

/-- The staging Scopes that are not `Disposed`. -/
def stagingScopes : Nat :=
  (List.range rt.nextScope).countP fun s => (rt.scope s).any fun r => r.hidden ∧ r.state ≠ .Disposed

/-- What `shutdown_blockers` reads off one record. -/
def recordBlockers (f : FiberId) (hosted : Bool) (serviceHandles : Nat) : List ShutdownBlocker :=
  match rt.fibers f with
  | none => []
  | some c =>
    let inflight := c.inner.capabilities.execution.inflight
    (if c.inner.state ≠ .Disposed then [.Fiber f] else []) ++
    (if hosted then [.HostedExecution f] else []) ++
    if inflight ≠ 0 ∨ serviceHandles ≠ 0 then
      [.GenerationInflight f c.inner.generation inflight serviceHandles]
    else []

end Runtime

namespace Contexts

variable (w : Contexts)

/-- Task `id` has not ended, and is in the ledger of its Fiber. -/
def supervised (id : Nat) : Bool :=
  (w.tasks id).any fun t => (w.runtime.fibers t.owner).any fun c => id ∈ c.inner.tasks

/-- What `live_fiber_tasks` may read. A task leaves the arena of the supervisor when it ends, or when the disposal
worker, which has taken it out of the ledger, has come to `cancel_all`. -/
def LiveFiberTasks (n : Nat) : Prop :=
  (List.range w.nextTask).countP w.supervised ≤ n ∧ n ≤ (List.range w.nextTask).countP fun id => (w.tasks id).isSome

instance (n : Nat) : Decidable (w.LiveFiberTasks n) := by unfold LiveFiberTasks; infer_instance

end Contexts

namespace ShutdownAttempt

variable (s : ShutdownAttempt)

def start (w : Contexts) : ShutdownAttempt := ⟨w, .opening, [], []⟩

def goto (pc : AttemptPc) : ShutdownAttempt := { s with pc := pc }

/-- `dispose_scope_for_shutdown`, up to the wait. -/
def callScope (scope : ScopeId) (waiting failed : AttemptPc) : Option ShutdownAttempt :=
  (s.contexts.step (.runtime (.disposeScope scope true))).map fun w =>
    match (s.contexts.runtime.requestScopeDisposal scope true).2 with
    | .ok () => { s with contexts := w, pc := waiting }
    | .error e => { s with
      contexts := w
      pc := failed
      issues := s.issues ++ [⟨.ChildScopeCleanup, e.display, some e⟩] }

/-- The observation of `scope` is there. -/
def scopeAnswered (scope : ScopeId) (next : AttemptPc) : Option ShutdownAttempt :=
  ((s.contexts.runtime.scopes scope).bind (·.published)).map fun o =>
    { s with pc := next, issues := s.issues ++ o.issues }

/-- The record section of `dispose_fiber_persistently`, up to the wait. -/
def callFiber (f : FiberId) (waiting : Nat → AttemptPc) (failed : AttemptPc) : Option ShutdownAttempt :=
  (s.contexts.step (.runtime (.fiber f (.callDispose false true false)))).map fun w =>
    match (s.contexts.runtime.disposeFound f false true false).2 with
    | .ok call => { s with contexts := w, pc := waiting call }
    | .error _ => { s with contexts := w, pc := failed }

/-- The observation that `call` of Fiber `f` waits for is there. -/
def fiberAnswered (f : FiberId) (call : Nat) (next : AttemptPc) : Option ShutdownAttempt :=
  ((s.contexts.runtime.fibers f).bind fun c => (c.calls call).bind fun q => c.published q.round).map
    fun _ => s.goto next

/-- The audit finds `found` and goes on at `pc`. -/
def blocked (found : List ShutdownBlocker) (pc : AuditPc) : ShutdownAttempt :=
  { s with blockers := s.blockers ++ found, pc := .audit pc }

/-- What the attempt answers. -/
def outcome : ShutdownOutcome :=
  if s.blockers.isEmpty then
    if s.issues.isEmpty then .Complete else .CompleteWithIssues s.issues
  else .Incomplete s.blockers s.issues

/-- The sections of the audit that are told nothing. -/
def advanceAudit : AuditPc → Option ShutdownAttempt
  | .snapshot => some (s.blocked [] (.fibers s.contexts.runtime.fiberIds s.contexts.runtime.fiberIds))
  | .fibers all [] => some (s.blocked [] (.scopes all))
  | .scopes all =>
    some (s.blocked (s.contexts.runtime.scopeResidue.map .Scope) (.workers all s.contexts.runtime.stagingScopes))
  | .staging (f :: unread) hidden staged =>
    let found := (s.contexts.runtime.fibers f).any fun c => c.inner.staged ∧ c.inner.state ≠ .Disposed
    some (s.goto (.audit (.staging unread hidden (staged + found.toNat))))
  | .staging [] hidden staged =>
    let found : List ShutdownBlocker := if staged ≠ 0 ∨ hidden ≠ 0 then [.Staging staged hidden] else []
    let s := { s with blockers := s.blockers ++ found }
    some (s.goto (.ended s.outcome))
  | _ => none

/-- The next section of the attempt. -/
def advance : Option ShutdownAttempt :=
  match s.pc with
  | .opening =>
    (s.contexts.step (.runtime .beginShutdown)).map fun w => { s with contexts := w, pc := .rootCall }
  | .rootCall => s.callScope Runtime.root .rootWaiting .collecting
  | .rootWaiting => s.scopeAnswered Runtime.root .joining
  | .joining => some (s.goto (.round 0))
  | .round n =>
    if n < 4 then
      let residue := s.contexts.runtime.scopeResidue
      some (s.goto (.scopeCalls n residue.isEmpty residue))
    else some (s.goto .collecting)
  | .scopeCalls n quiet (x :: left) => s.callScope x (.scopeWaiting n quiet left x) (.scopeCalls n quiet left)
  | .scopeCalls n quiet [] => some (s.goto (.fiberSnapshot n quiet))
  | .scopeWaiting n quiet left x => s.scopeAnswered x (.scopeCalls n quiet left)
  | .fiberSnapshot n quiet => some (s.goto (.fibersRead n quiet [] s.contexts.runtime.fiberIds))
  | .fibersRead n quiet alive (f :: unread) =>
    let found := (s.contexts.runtime.fibers f).any (·.inner.state ≠ .Disposed)
    some (s.goto (.fibersRead n quiet (if found then alive ++ [f] else alive) unread))
  | .fibersRead n quiet alive [] => some (s.goto (.fiberCalls n (quiet && alive.isEmpty) alive))
  | .fiberCalls n quiet (f :: left) =>
    if (s.contexts.runtime.fiber f).isSome then some (s.goto (.fiberFound n quiet left f))
    else some (s.goto (.fiberCalls n quiet left))
  | .fiberFound n quiet left f => s.callFiber f (.fiberWaiting n quiet left f) (.fiberCalls n quiet left)
  | .fiberCalls n quiet [] => some (s.goto (if quiet then .collecting else .round (n + 1)))
  | .fiberWaiting n quiet left f call => s.fiberAnswered f call (.fiberCalls n quiet left)
  | .collecting => some { s with pc := .audit .snapshot, blockers := [] }
  | .audit pc => s.advanceAudit pc
  | .ended _ => none

/-- One section of one thread, or the deadline. -/
def step (s : ShutdownAttempt) : AttemptLabel → Option ShutdownAttempt
  | .contexts l => (s.contexts.step l).map fun w => { s with contexts := w }
  | .advance => s.advance
  | .deadline =>
    match s.pc with
    | .rootWaiting | .scopeWaiting .. | .fiberWaiting .. => some (s.goto .collecting)
    | _ => none
  | .record hosted serviceHandles =>
    match s.pc with
    | .audit (.fibers all (f :: unread)) =>
      some (s.blocked (s.contexts.runtime.recordBlockers f hosted serviceHandles) (.fibers all unread))
    | _ => none
  | .counter n =>
    match s.pc with
    | .audit (.workers all hidden) =>
      some (s.blocked (if n ≠ 0 then [.RuntimeWorkers n] else []) (.tasks all hidden))
    | .audit (.tasks all hidden) =>
      if s.contexts.LiveFiberTasks n then
        some (s.blocked (if n ≠ 0 then [.Tasks n] else []) (.reloads all hidden))
      else none
    | .audit (.reloads all hidden) => some (s.goto (.audit (.pending all hidden n)))
    | .audit (.pending all hidden active) =>
      let reloads := active + n
      some (s.blocked (if reloads ≠ 0 then [.ReloadTransactions reloads] else []) (.staging all hidden 0))
    | _ => none

end ShutdownAttempt

end Cordis
