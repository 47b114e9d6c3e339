import Cordis.Core.Error
import Mathlib.Data.List.AList

/-!
# The dependency graph

`GraphState` behind its lock, and the operations of `DependencyGraph`. A `HashMap` is a list of entries
with distinct keys, and the order of the list is the order in which the map is iterated. The recursion of
`validate_cycles` takes its depth as an argument and has no answer when that is used up.
-/

namespace Cordis

/-- Dependents by symbol, and declared providers by Scope and symbol. -/
structure GraphState where
  dependents : AList fun _ : ServiceSymbol => List FiberId
  declared : AList fun _ : ScopeId × ServiceSymbol => List FiberId

namespace GraphState

variable (g : GraphState)

def empty : GraphState := ⟨∅, ∅⟩

/-- `providers`. -/
def providers (scope : ScopeId) (symbol : ServiceSymbol) : List FiberId :=
  (g.declared.lookup (scope, symbol)).getD []

/-- `entry((scope, symbol)).or_default().push(fiber)`. -/
def addProvider (scope : ScopeId) (symbol : ServiceSymbol) (fiber : FiberId) : GraphState :=
  { g with declared := g.declared.insert (scope, symbol) (g.providers scope symbol ++ [fiber]) }

def removeProvider (scope : ScopeId) (symbol : ServiceSymbol) (fiber : FiberId) : GraphState :=
  match g.declared.lookup (scope, symbol) with
  | some ids => { g with declared := g.declared.insert (scope, symbol) (ids.filter (· ≠ fiber)) }
  | none => g

/-- One symbol in the second loop of `move_providers`. -/
def moveProvider (source target : ScopeId) (fiber : FiberId) (symbol : ServiceSymbol) : GraphState :=
  (g.removeProvider source symbol fiber).addProvider target symbol fiber

/-- `attached_elsewhere`: a Scope other than `source` lists the Fiber for the symbol. -/
def attachedElsewhere (source : ScopeId) (symbol : ServiceSymbol) (fiber : FiberId) : Bool :=
  g.declared.entries.any fun e => e.1.2 = symbol ∧ e.1.1 ≠ source ∧ fiber ∈ e.2

/-- `move_providers`: what it leaves behind, and its answer. -/
def moveProviders (source target : ScopeId) (symbols : List ServiceSymbol) (fiber : FiberId) :
    GraphState × Outcome :=
  if symbols.dedup.length ≠ symbols.length then
    (g, .error (.RevisionValidationFailed "dependency provider revision contains duplicate symbols"))
  else if symbols.any fun symbol =>
      (g.providers source symbol).count fiber ≠ 1 ∨ fiber ∈ g.providers target symbol ∨
        g.attachedElsewhere source symbol fiber then
    (g, .error (.RevisionValidationFailed
      "dependency provider topology changed before reload revision"))
  else (symbols.foldl (fun g symbol => g.moveProvider source target fiber symbol) g, .ok ())

/-- For `symbol` the Fiber is attached by one entry, which Scope `scope` has. -/
def AttachedOnce (scope : ScopeId) (symbol : ServiceSymbol) (fiber : FiberId) : Prop :=
  ∀ s, (g.providers s symbol).count fiber = if s = scope then 1 else 0

end GraphState

/-- Edges by Fiber, as `validate_cycles` is handed them. -/
abbrev EdgeMap := AList fun _ : FiberId => List FiberId

/-- What `validate_cycles` carries along. -/
structure CycleSearch where
  visiting : List FiberId
  visited : List FiberId
  path : List FiberId

namespace EdgeMap

variable (edges : EdgeMap)

/-- The targets of the edges that leave `node`. -/
def targets (node : FiberId) : List FiberId := (edges.lookup node).getD []

/-- A loop whose body may return from the function. -/
def visitEach (body : CycleSearch → FiberId → Option (Except CordisError CycleSearch)) :
    List FiberId → CycleSearch → Option (Except CordisError CycleSearch)
  | [], s => some (.ok s)
  | node :: rest, s =>
    match body s node with
    | some (.ok s) => visitEach body rest s
    | other => other

/-- `visit`. -/
def visit : Nat → CycleSearch → FiberId → Option (Except CordisError CycleSearch)
  | 0, _, _ => none
  | depth + 1, s, node =>
    if node ∈ s.visiting then some (.error (.DependencyCycle (s.path ++ [node])))
    else if node ∈ s.visited then some (.ok s)
    else
      match visitEach (fun s target => visit depth s target) (targets edges node)
          ⟨node :: s.visiting, node :: s.visited, s.path ++ [node]⟩ with
      | some (.ok s) => some (.ok ⟨s.visiting.erase node, s.visited, s.path.dropLast⟩)
      | other => other

/-- `validate_cycles`: each root has a path of its own, the two sets are shared. -/
def validateCycles (depth : Nat) : Option Outcome :=
  (visitEach (fun s node => edges.visit depth { s with path := [] } node) edges.keys
    ⟨[], [], []⟩).map fun answer => answer.map fun _ => ()

/-- The edge relation has a directed cycle. -/
def Cyclic : Prop := ∃ node, Relation.TransGen (fun a b => b ∈ edges.targets a) node node

/-- The Fibers that an edge leaves or enters. -/
def nodes : List FiberId := edges.keys ++ edges.keys.flatMap edges.targets

end EdgeMap

end Cordis
