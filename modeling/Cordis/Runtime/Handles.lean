import Cordis.Runtime.Context

/-!
# Service handles

`Context::try_get` under its Context call: the ancestry of the captured Scope, what the own Fiber has provided there
and has not published, then what is visible, and a service lease of the gate that was found. A lookup that loses its
provider to a cutover begins once more. The handle owns the lease until it is dropped, by whoever holds it then.
-/

namespace Cordis

/-- `ServiceHandle`, without the service. -/
structure ServiceHandle where
  provider : FiberId
  gate : Gate
  scope : ScopeId
  symbol : ServiceSymbol
  deriving DecidableEq

/-- Where a lookup stands; `again` says that it is the second attempt. -/
inductive LookupPc
  /-- `scope_ancestry` is next. -/
  | entered (again : Bool)
  /-- `ServiceRegistry::resolve_owned` is next. -/
  | owned (again : Bool) (ancestry : List ScopeId)
  /-- `ServiceRegistry::resolve` is next. -/
  | visible (again : Bool) (ancestry : List ScopeId)
  /-- `try_acquire_service` is next. -/
  | found (again : Bool) (entry : ServiceEntry)
  deriving DecidableEq

structure ServiceLookup where
  symbol : ServiceSymbol
  pc : LookupPc
  deriving DecidableEq

namespace Runtime

variable (rt : Runtime)

/-- `ServiceRegistry::resolve_owned`. -/
def resolveOwned (ancestry : List ScopeId) (key : ServiceSymbol) (owner : FiberId) : Option ServiceEntry :=
  ancestry.findSome? fun a => (rt.services a key).filter fun e => e.owner = owner ∧ ¬ rt.visible e.gate

/-- `ServiceRegistry::resolve`; the cache does not show. -/
def resolveVisible (ancestry : List ScopeId) (key : ServiceSymbol) : Option ServiceEntry :=
  ancestry.findSome? fun a => (rt.services a key).filter fun e => rt.visible e.gate

end Runtime

structure Handles where
  contexts : Contexts
  /-- The lookup that a Context call is making. -/
  lookups : Nat → Option ServiceLookup
  handles : Nat → Option ServiceHandle
  nextHandle : Nat

inductive HandleLabel
  | contexts (l : ContextLabel)
  | tryGet (i : Nat) (symbol : ServiceSymbol)
  | ancestry (i : Nat)
  | owned (i : Nat)
  | visible (i : Nat)
  | acquire (i : Nat)
  | drop (n : Nat)

namespace Handles

variable (w : Handles)

def new : Handles := ⟨.new, fun _ => none, fun _ => none, 0⟩

/-- The handle is one on Fiber `f`. -/
def holds (f : FiberId) (n : Nat) : Bool := (w.handles n).any (·.provider = f)

/-- How many handles there are on Fiber `f`. -/
def pinned (f : FiberId) : Nat := Tally.count w.nextHandle (w.holds f)

/-- The section can be made now, as far as lookups and handles are concerned. -/
def ready : ContextLabel → Bool
  -- the lease of a handle is dropped with the handle
  | .runtime (.fiber f .dropLease) =>
    (w.contexts.runtime.fibers f).any fun c =>
      w.contexts.leases f + w.pinned f < c.inner.capabilities.execution.inflight
  -- the lookup borrows the admission of the call
  | .finish i => (w.lookups i).isNone
  | _ => true

def setLookup (i : Nat) (lookup : Option ServiceLookup) : Handles :=
  { w with lookups := Function.update w.lookups i lookup }

/-- The sections of a lookup that change nothing but where it stands; `none` ends it. -/
def advance (i : Nat) (next : ContextCall → ServiceLookup → Option (Option LookupPc)) : Option Handles :=
  match w.contexts.calls i, w.lookups i with
  | some call, some lookup =>
    (next call lookup).map fun pc => w.setLookup i (pc.map fun pc => { lookup with pc := pc })
  | _, _ => none

/-- The gate of the entry, when it takes a service lease. -/
def acquireService (entry : ServiceEntry) : Option Contexts :=
  match w.contexts.runtime.fibers entry.owner with
  | some c =>
    -- a gate that has been replaced takes no lease any more
    if Runtime.gateOf c = entry.gate then w.contexts.fiberSection entry.owner .acquireLease else none
  | none => none

/-- One critical section of one thread. -/
def step (w : Handles) : HandleLabel → Option Handles
  | .contexts l =>
    if w.ready l then (w.contexts.step l).map fun contexts => { w with contexts := contexts } else none
  | .tryGet i symbol =>
    if (w.contexts.callAt i .leased).isSome ∧ w.lookups i = none then
      some (w.setLookup i (some ⟨symbol, .entered false⟩))
    else none
  | .ancestry i =>
    w.advance i fun call lookup =>
      match lookup.pc with
      | .entered again => some (some (.owned again (w.contexts.runtime.scopeAncestry call.scope)))
      | _ => none
  | .owned i =>
    w.advance i fun call lookup =>
      match lookup.pc with
      | .owned again ancestry =>
        match w.contexts.runtime.resolveOwned ancestry lookup.symbol call.fiber with
        | some entry => some (some (.found again entry))
        | none => some (some (.visible again ancestry))
      | _ => none
  | .visible i =>
    w.advance i fun _ lookup =>
      match lookup.pc with
      | .visible again ancestry =>
        some ((w.contexts.runtime.resolveVisible ancestry lookup.symbol).map (.found again))
      | _ => none
  | .acquire i =>
    match w.lookups i with
    | some ⟨symbol, .found again entry⟩ =>
      match w.acquireService entry with
      | some contexts =>
        some { w.setLookup i none with
          contexts := contexts
          handles := Function.update w.handles w.nextHandle (some ⟨entry.owner, entry.gate, entry.scope, symbol⟩)
          nextHandle := w.nextHandle + 1 }
      -- the first attempt begins again, the second ends with `ServiceGenerationDraining`
      | none => some (w.setLookup i (if again then none else some ⟨symbol, .entered true⟩))
    | _ => none
  | .drop n =>
    (w.handles n).bind fun handle =>
      (w.contexts.fiberSection handle.provider .dropLease).map fun contexts =>
        { w with contexts := contexts, handles := Function.update w.handles n none }

end Handles

end Cordis
