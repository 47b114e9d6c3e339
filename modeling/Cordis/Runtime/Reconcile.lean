import Cordis.Runtime.Step
import Cordis.Library.Machine

/-!
# `reconcile_symbols`

One call, while every other thread of the Runtime goes on: the candidates are collected symbol by symbol, and
visited in any order. A visit reads the record, looks every dependency up, and makes at most one call, which
it waits for.
-/

namespace Cordis

/-- What a visit does with its Fiber. -/
inductive Handover
  | disposeFiber (f : FiberId) (waitForDependencies : Bool)
  | activate (f : FiberId)
  deriving DecidableEq

/-- Where the call stands; `left` are the candidates that are still to be visited. -/
inductive ReconcilePc
  /-- The dependents of these symbols are still to be collected. -/
  | collecting (symbols : List ServiceSymbol)
  | visiting (left : List FiberId)
  /-- The record of `f` was read; these dependencies are still to be looked up. -/
  | looking (f : FiberId) (state : FiberState) (scope : ScopeId) (policy : DependencyPolicy)
      (dependencies : List ServiceSymbol) (left : List FiberId)
  | looked (f : FiberId) (state : FiberState) (policy : DependencyPolicy) (satisfied : Bool)
      (left : List FiberId)
  /-- The dispose call has found `f`; its section on the record is next. -/
  | found (f : FiberId) (waitForDependencies : Bool) (left : List FiberId)
  | disposing (f : FiberId) (call : Nat) (left : List FiberId)
  | activating (f : FiberId) (call : Nat) (left : List FiberId)
  /-- The call of the visit has returned. -/
  | answered (outcome : Outcome) (left : List FiberId)
  | returned (outcome : Outcome)

structure Reconcile where
  runtime : Runtime
  pc : ReconcilePc
  candidates : List FiberId
  /-- The calls that were made. -/
  handed : List Handover

inductive ReconcileLabel
  /-- The dependents of the next symbol are collected. -/
  | collect
  /-- The loop begins, in the order of the set. -/
  | iterate (order : List FiberId)
  | visit
  /-- The next dependency is resolved. -/
  | resolve
  /-- `dispose_fiber` or `activate` is called, if one is due. -/
  | call
  /-- The record section of the dispose call. -/
  | dispose
  | awaited
  /-- `?`. -/
  | propagate
  | runtime (l : RuntimeLabel)

namespace Reconcile

variable (s : Reconcile)

/-- A visit makes a call on Fiber `f`. -/
def make (f : FiberId) (policy : DependencyPolicy) (left : List FiberId) : FiberState → Bool → Reconcile
  | .Active, false =>
    let wait := policy == .Restart
    { s with
      pc := if (s.runtime.fiber f).isSome then .found f wait left else .answered (.error .FiberNotFound) left
      handed := s.handed ++ [.disposeFiber f wait] }
  | .WaitingDependencies, true =>
    let handed := s.handed ++ [.activate f]
    match s.runtime.fiber f with
    | some c =>
      { s with
        runtime := s.runtime.setFiber f c.callActivate
        pc := .activating f c.nextActivation left
        handed := handed }
    | none => { s with pc := .answered (.error .FiberNotFound) left, handed := handed }
  | _, _ => { s with pc := .visiting left }

/-- The outcome of the call that the visit awaits, when it has returned. -/
def outcome : Option (Outcome × List FiberId) :=
  match s.pc with
  | .disposing f call left =>
    (s.runtime.fibers f).bind fun c => (c.calls call).bind fun d => (c.published d.round).map fun o =>
      (o.legacyResult, left)
  | .activating f call left =>
    match (s.runtime.fibers f).bind fun c => c.activations call with
    | some (.returned outcome) => some (outcome, left)
    | _ => none
  | _ => none

def step (s : Reconcile) : ReconcileLabel → Option Reconcile
  | .collect =>
    match s.pc with
    | .collecting (key :: symbols) =>
      some { s with candidates := s.candidates ++ s.runtime.dependents key, pc := .collecting symbols }
    | _ => none
  | .iterate order =>
    match s.pc with
    | .collecting [] => if order.Perm s.candidates.dedup then some { s with pc := .visiting order } else none
    | _ => none
  | .visit =>
    match s.pc with
    | .visiting [] => some { s with pc := .returned (.ok ()) }
    | .visiting (f :: left) =>
      match s.runtime.fiber f with
      | some c =>
        let d := c.inner.descriptor
        some { s with
          pc := .looking f c.inner.state c.inner.scope d.dependencyPolicy d.dependencies left }
      | none => some { s with pc := .visiting left }
    | _ => none
  | .resolve =>
    match s.pc with
    | .looking f state _ policy [] left => some { s with pc := .looked f state policy true left }
    | .looking f state scope policy (key :: dependencies) left =>
      some { s with
        pc :=
          if (s.runtime.resolveSymbol scope key).isSome then .looking f state scope policy dependencies left
          else .looked f state policy false left }
    | _ => none
  | .call =>
    match s.pc with
    | .looked f state policy satisfied left => some (s.make f policy left state satisfied)
    | _ => none
  | .dispose =>
    match s.pc with
    | .found f wait left =>
      match s.runtime.disposeFound f wait false false with
      | (runtime, .ok call) => some { s with runtime := runtime, pc := .disposing f call left }
      | (runtime, .error e) => some { s with runtime := runtime, pc := .answered (.error e) left }
    | _ => none
  | .awaited => s.outcome.map fun p => { s with pc := .answered p.1 p.2 }
  | .propagate =>
    match s.pc with
    | .answered (.ok ()) left => some { s with pc := .visiting left }
    | .answered (.error e) _ => some { s with pc := .returned (.error e) }
    | _ => none
  | .runtime l => (s.runtime.step l).map fun runtime => { s with runtime }

/-- The call `reconcile_symbols(symbols)` on a Runtime. -/
def start (runtime : Runtime) (symbols : List ServiceSymbol) : Reconcile := ⟨runtime, .collecting symbols, [], []⟩

end Reconcile

end Cordis
