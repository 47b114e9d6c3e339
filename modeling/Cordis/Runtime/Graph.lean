import Cordis.Library.CycleCheck
import Cordis.Runtime.State

/-!
# The provider graph

The graph that `validate_dependency_graph` builds: an edge from a Fiber to the visible owner, or
else to the declared providers, of each of its dependencies in the nearest Scope that has either.
-/

namespace Cordis

namespace Runtime

variable (rt : Runtime)

/-- The loop from `scope` upwards; the keys on a chain are distinct, so the counter bounds it. -/
def providersFrom : Nat → ScopeId → ServiceSymbol → List FiberId
  | 0, _, _ => []
  | fuel + 1, scope, symbol =>
    match (rt.services scope symbol).filter fun entry => rt.visible entry.gate with
    | some service => [service.owner]
    | none =>
      if (rt.declared scope symbol).isEmpty then
        match (rt.scope scope).bind (·.parent) with
        | some parent => providersFrom fuel parent symbol
        | none => []
      else rt.declared scope symbol

/-- The providers of dependency `symbol` of a Fiber in `scope`. -/
def providers (scope : ScopeId) (symbol : ServiceSymbol) : List FiberId :=
  rt.providersFrom rt.nextScope scope symbol

/-- The Fiber contributes edges. -/
def live (f : FiberId) : Bool := (rt.fiber f).any (·.inner.state != .Disposed)

/-- The out-edges of a Fiber. -/
def edges (f : FiberId) : List FiberId :=
  match rt.fiber f with
  | some c =>
    if c.inner.state = .Disposed then []
    else c.inner.descriptor.dependencies.flatMap (rt.providers c.inner.scope)
  | none => []

/-- `validate_dependency_graph`. -/
def validateDependencyGraph : Outcome :=
  match CycleCheck.check rt.edges (rt.nextFiber + 1) (List.range rt.nextFiber) with
  | .ok _ => .ok ()
  | .error path => .error (.DependencyCycle path.reverse)

end Runtime

end Cordis
