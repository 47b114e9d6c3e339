import Cordis.Library.Tally
import Cordis.Runtime.Step

/-!
# Context calls

A Context call is admitted in two sections: one reads generation, gate and Scope of the Fiber, the
next takes a lease of that gate. Registrations follow in sections of their own, and the lease is held
until the call returns. `provide_arc` looks for an entry in one section of the service registry and
inserts in another. `Contexts` is the Runtime with the calls under way, the event bus and the task
supervisor; whatever the Runtime registers for a Fiber, it registers here for a call that holds a
lease.
-/

namespace Cordis

/-- How far a Context call has come. -/
inductive CallStage
  /-- `admit_core` has read the record; the lease is next. -/
  | captured
  | leased
  /-- `provide_arc` has found no entry for `key`; the insertion is next. -/
  | free (key : ServiceSymbol)
  deriving DecidableEq

/-- A Context call under way, with what `admit_core` has read. -/
structure ContextCall where
  fiber : FiberId
  gate : Gate
  scope : ScopeId
  stage : CallStage
  deriving DecidableEq

/-- A live task of the supervisor. -/
structure OwnedTask where
  owner : FiberId
  gate : Gate
  deriving DecidableEq

namespace Runtime

/-- `provide_arc` after its look at the registry: whatever has the slot now is replaced. -/
def provideFound (rt : Runtime) (f : FiberId) (scope : ScopeId) (key : ServiceSymbol) :
    Option Runtime :=
  match rt.fibers f with
  | none => none
  | some c =>
    (rt.registerEntry f scope (.provided key)).map fun rt =>
      rt.insertService scope key ⟨f, scope, gateOf c⟩

end Runtime

structure Contexts where
  runtime : Runtime
  calls : Nat → Option ContextCall
  nextCall : Nat
  /-- The subscriptions of the event bus. -/
  events : Nat → Option Gate
  nextEvent : Nat
  tasks : Nat → Option OwnedTask
  nextTask : Nat

inductive ContextLabel
  | runtime (l : RuntimeLabel)
  | capture (f : FiberId)
  | lease (i : Nat)
  | check (i : Nat) (key : ServiceSymbol)
  | insert (i : Nat)
  | effect (i : Nat) (id : Nat)
  | on (i : Nat)
  | spawn (i : Nat)
  | handle (i : Nat) (key : InvocationKey)
  | intercept (i : Nat) (key : InvocationKey)
  | createScope (i : Nat)
  | finish (i : Nat)
  | taskEnded (id : Nat)

namespace Contexts

variable (w : Contexts)

def new : Contexts := ⟨.new, fun _ => none, 0, fun _ => none, 0, fun _ => none, 0⟩

/-- Call `i` holds a lease of Fiber `f`. -/
def holds (f : FiberId) (i : Nat) : Bool :=
  (w.calls i).any fun call => call.fiber = f ∧ call.stage ≠ .captured

/-- The leases of Fiber `f` that are held by Context calls. -/
def leases (f : FiberId) : Nat := Tally.count w.nextCall (w.holds f)

/-- The section can be made now, as far as calls and tasks are concerned. -/
def ready : RuntimeLabel → Bool
  -- registrations are made by Context calls
  | .fiber _ (.register _) | .provide .. | .handle .. | .intercept .. | .ownScope .. => false
  -- the leases of Context calls are dropped by the calls
  | .fiber f .dropLease =>
    (w.runtime.fibers f).any fun c => w.leases f < c.inner.capabilities.execution.inflight
  | l => w.runtime.tasksReady (fun id => (w.tasks id).map (·.owner)) w.nextTask l

/-- `EventBus::remove` for the handlers that the disposal worker has taken out of the ledger. -/
def unsubscribed (rt' : Runtime) : RuntimeLabel → Nat → Option Gate
  | .fiber f .unregister => fun id =>
    if (w.runtime.fibers f).any (fun c => id ∈ c.inner.handlers) ∧
        (rt'.fibers f).all (fun c => id ∉ c.inner.handlers) then none
    else w.events id
  | _ => w.events

def setCall (i : Nat) (call : Option ContextCall) : Contexts :=
  { w with calls := Function.update w.calls i call }

/-- Call `i`, when it stands at `stage`. -/
def callAt (i : Nat) (stage : CallStage) : Option ContextCall :=
  (w.calls i).filter (·.stage = stage)

/-- A section on Fiber `f` alone, made by one of its calls. -/
def fiberSection (f : FiberId) (l : FiberLabel) : Option Contexts :=
  (w.runtime.step (.fiber f l)).map fun rt => { w with runtime := rt }

/-- A section of call `i`, which holds a lease: `l` is told the Fiber and the captured Scope. -/
def register (i : Nat) (l : FiberId → ScopeId → RuntimeLabel) : Option (Contexts × ContextCall) :=
  (w.callAt i .leased).bind fun call =>
    (w.runtime.step (l call.fiber call.scope)).map fun rt => ({ w with runtime := rt }, call)

/-- One critical section of one thread. -/
def step (w : Contexts) : ContextLabel → Option Contexts
  | .runtime l =>
    if w.ready l then
      (w.runtime.step l).map fun rt => { w with runtime := rt, events := w.unsubscribed rt l }
    else none
  | .capture f =>
    match w.runtime.fibers f with
    | none => none
    | some c =>
      if c.inner.state = .Starting ∨ c.inner.state = .Active ∨ c.inner.state = .Reloading then
        some { w.setCall w.nextCall
          (some ⟨f, Runtime.gateOf c, c.inner.scope, .captured⟩) with nextCall := w.nextCall + 1 }
      else none
  | .lease i =>
    (w.callAt i .captured).bind fun call =>
      match w.runtime.fibers call.fiber with
      | none => none
      | some c =>
        if Runtime.gateOf c = call.gate then
          match w.fiberSection call.fiber .acquireLease with
          | some w => some (w.setCall i (some { call with stage := .leased }))
          | none => some (w.setCall i none)
        -- the gate that was read has been replaced, and takes no lease any more
        else some (w.setCall i none)
  | .check i key =>
    (w.callAt i .leased).bind fun call =>
      if (w.runtime.fibers call.fiber).any (·.accepts (.provided key)) ∧
          w.runtime.services call.scope key = none then
        some (w.setCall i (some { call with stage := .free key }))
      else none
  | .insert i =>
    match w.calls i with
    | some ⟨f, gate, scope, .free key⟩ =>
      (w.runtime.provideFound f scope key).map fun rt =>
        { w with runtime := rt }.setCall i (some ⟨f, gate, scope, .leased⟩)
    | _ => none
  | .effect i id => (w.register i fun f _ => .fiber f (.register (.effect id))).map (·.1)
  | .on i =>
    (w.register i fun f _ => .fiber f (.register (.handler w.nextEvent))).map fun (w, call) =>
      { w with
        events := Function.update w.events w.nextEvent (some call.gate)
        nextEvent := w.nextEvent + 1 }
  | .spawn i =>
    (w.register i fun f _ => .fiber f (.register (.task w.nextTask))).map fun (w, call) =>
      { w with
        tasks := Function.update w.tasks w.nextTask (some ⟨call.fiber, call.gate⟩)
        nextTask := w.nextTask + 1 }
  | .handle i key => (w.register i fun f scope => .handle f scope key).map (·.1)
  | .intercept i key => (w.register i fun f scope => .intercept f scope key).map (·.1)
  | .createScope i => (w.register i fun f scope => .ownScope f scope).map (·.1)
  | .finish i =>
    match w.calls i with
    | none => none
    | some call =>
      if call.stage = .captured then some (w.setCall i none)
      else (w.fiberSection call.fiber .dropLease).map (·.setCall i none)
  | .taskEnded id =>
    if (w.tasks id).isSome then some { w with tasks := Function.update w.tasks id none } else none

end Contexts

end Cordis
