import Cordis.Fiber.Step

/-!
# The Runtime: arenas and registries

The state that all Fibers share: the Scope arena with the disposal workers of the Scopes, the
service, dependency and invocation registries, the generation selectors and the admission gate.
Arenas are functions from keys with a counter of the keys handed out. A cell that was removed from
its arena stays, marked, because threads that hold it keep using it.
-/

namespace Cordis

/-- A capability gate as other registries refer to it: visible while the selector of `plugin` names
`generation`. -/
structure Gate where
  plugin : PluginId
  generation : GenerationId
  deriving DecidableEq

structure ServiceEntry where
  owner : FiberId
  scope : ScopeId
  gate : Gate
  deriving DecidableEq

structure HandlerEntry where
  scope : ScopeId
  key : InvocationKey
  gate : Gate
  deriving DecidableEq

structure MiddlewareEntry where
  scope : ScopeId
  key : InvocationKey
  gate : Gate
  order : Nat
  deriving DecidableEq

/-- What `dispose_scope_body` works on: what is left of its copies of the membership lists, and what
it has collected. -/
structure Traversal where
  children : List ScopeId
  fibers : List FiberId
  persistent : Bool
  errors : List CleanupIssue
  terminated : Bool

/-- What `dispose_scope_body` returns after its loops. -/
def Traversal.result (t : Traversal) : Outcome :=
  if t.errors.isEmpty then .ok () else .error (.CleanupFailed (CleanupIssue.joined t.errors))

/-- A descendant reported `error`; `committed` is what reading its record again said. -/
def Traversal.failed (t : Traversal) (phase : CleanupPhase) (name : String) (error : CordisError)
    (committed : Bool) : Traversal :=
  { t with
    terminated := t.terminated || !committed || error.isTerminalCleanupError
    errors := t.errors ++ [⟨phase, name ++ ": " ++ error.display, some error⟩] }

/-- Where the disposal worker of a Scope stands. -/
inductive ScopePc
  /-- Spawned; the membership lists are copied next. -/
  | copying
  /-- The next child or Fiber is visited next. -/
  | visiting (t : Traversal)
  | childWaiting (t : Traversal) (child : ScopeId)
  /-- The disposal of `child` returned `error`; its record is read again next. -/
  | childFailed (t : Traversal) (child : ScopeId) (error : CordisError)
  /-- `fiber` was seen alive; the dispose call looks it up next. -/
  | fiberSeen (t : Traversal) (fiber : FiberId)
  /-- The dispose call has found `fiber`; its section on the record is next. -/
  | fiberFound (t : Traversal) (fiber : FiberId)
  | fiberWaiting (t : Traversal) (fiber : FiberId) (call : Nat)
  /-- The disposal of `fiber` returned `error`; its record is read again next. -/
  | fiberFailed (t : Traversal) (fiber : FiberId) (error : CordisError)
  /-- The body returned; `finalize_scope_disposal` is next. -/
  | finished (result : Outcome) (terminated : Bool)

/-- A Scope record with its disposal worker. -/
structure ScopeCell where
  inArena : Bool
  parent : Option ScopeId
  children : List ScopeId
  fibers : List FiberId
  state : ScopeState
  hidden : Bool
  persistent : Bool
  issues : List CleanupIssue
  result : Option Outcome
  published : Option DisposalObservation
  worker : Option ScopePc

/-- The record that `create_scope_internal` inserts. -/
def ScopeCell.created (parent : Option ScopeId) (hidden : Bool) : ScopeCell where
  inArena := true
  parent := parent
  children := []
  fibers := []
  state := .Active
  hidden := hidden
  persistent := false
  issues := []
  result := none
  published := none
  worker := none

structure Runtime where
  fibers : FiberId → Option FiberCell
  nextFiber : FiberId
  scopes : ScopeId → Option ScopeCell
  nextScope : ScopeId
  services : ScopeId → ServiceSymbol → Option ServiceEntry
  dependents : ServiceSymbol → List FiberId
  declared : ScopeId → ServiceSymbol → List FiberId
  handlers : Nat → Option HandlerEntry
  nextHandler : Nat
  middleware : Nat → Option MiddlewareEntry
  nextMiddleware : Nat
  selectors : PluginId → GenerationId
  nextGeneration : PluginId → GenerationId
  nextPlugin : PluginId
  /-- `AdmissionGate`: still `RUNNING`. -/
  admission : Bool

namespace Runtime

/-- The root Scope. -/
def root : ScopeId := 0

/-- A fresh Runtime: the root Scope alone. -/
def new : Runtime where
  fibers := fun _ => none
  nextFiber := 0
  scopes := fun s => if s = root then some (.created none false) else none
  nextScope := 1
  services := fun _ _ => none
  dependents := fun _ => []
  declared := fun _ _ => []
  handlers := fun _ => none
  nextHandler := 0
  middleware := fun _ => none
  nextMiddleware := 0
  selectors := fun _ => .NONE
  nextGeneration := fun _ => 1
  nextPlugin := 0
  admission := true

variable (rt : Runtime)

/-- `FiberRegistry::get`. -/
def fiber (f : FiberId) : Option FiberCell := (rt.fibers f).filter (·.inArena)

/-- `SlotMap::get` on the Scope arena. -/
def scope (s : ScopeId) : Option ScopeCell := (rt.scopes s).filter (·.inArena)

def setFiber (f : FiberId) (c : FiberCell) : Runtime :=
  { rt with fibers := Function.update rt.fibers f (some c) }

def setScope (s : ScopeId) (c : ScopeCell) : Runtime :=
  { rt with scopes := Function.update rt.scopes s (some c) }

/-- `get_mut` on the Scope arena: nothing happens when the Scope is gone. -/
def modifyScope (s : ScopeId) (f : ScopeCell → ScopeCell) : Runtime :=
  match rt.scope s with
  | some c => rt.setScope s (f c)
  | none => rt

/-- `CapabilityGate::is_visible`. -/
def visible (g : Gate) : Bool := rt.selectors g.plugin == g.generation

/-- The gate of a Fiber's current generation. -/
def gateOf (c : FiberCell) : Gate := ⟨c.plugin, c.inner.capabilities.generation⟩

/-- The chain `scope, parent, grandparent, …`, at most `fuel` long; `none` when a Scope of the chain
is not in the arena (`ScopeRegistry::ancestry`). -/
def ancestryFrom : Nat → ScopeId → Option (List ScopeId)
  | 0, _ => some []
  | fuel + 1, s =>
    match rt.scope s with
    | none => none
    | some c =>
      match c.parent with
      | none => some [s]
      | some p => (ancestryFrom fuel p).map (s :: ·)

/-- `scope_ancestry`; the keys on a chain are distinct, so the counter bounds its length. -/
def scopeAncestry (s : ScopeId) : List ScopeId := (rt.ancestryFrom rt.nextScope s).getD []

/-- `resolve_symbol`: the nearest visible entry. -/
def resolveSymbol (s : ScopeId) (key : ServiceSymbol) : Option ServiceEntry :=
  (rt.scopeAncestry s).findSome? fun a => (rt.services a key).filter fun e => rt.visible e.gate

/-- `dependencies_met`. -/
def dependenciesMet (s : ScopeId) (deps : List ServiceSymbol) : Bool :=
  deps.all fun key => (rt.resolveSymbol s key).isSome

end Runtime

end Cordis
