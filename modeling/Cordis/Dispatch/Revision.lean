import Cordis.Dispatch.Invocation
import Cordis.Dispatch.Services
import Cordis.Library.Machine

/-!
# One reload among lookups

The second half of `commit_staged_revision` as a thread of its own, with the closing of the gate of the
revision that goes, among one `invoke` and any number of `Context::try_get`. The thread holds the Scope
lock from the adoption of the child Scopes to its last step, and the lock of the service registry during
the cutover; the sections of the lookups that need one of them wait. Leases are taken without a lock.
-/

namespace Cordis.Revision

open Services

/-- What the thread has read from the two Fibers. -/
structure Plan extends PreparedServiceRevision where
  oldGate : Nat
  stagedGate : Nat
  children : List ScopeId
  handlers : List Nat
  middleware : List Nat

/-- Where the thread stands. -/
inductive Pc
  /-- The revision is staged; the commit may still fail with nothing changed. -/
  | staged
  /-- `commit_locked` is done; `commit_revision` of the invocations is next. -/
  | adopted
  /-- The service registry is locked and checked next. -/
  | relocated
  | cut (pc : GatePc)
  /-- The entries of the services are replaced next. -/
  | replace
  | committed
  /-- The publication has failed; the invocations move back next. -/
  | undo
  | restore
  /-- The gate of the revision that goes is being closed. -/
  | closing (committed : Bool) (pc : GatePc)
  | ended (committed : Bool)
  deriving DecidableEq

/-- The service registry is locked. -/
def Pc.locksServices : Pc → Bool
  | .cut _ | .replace => true
  | _ => false

/-- The Scopes are locked. -/
def Pc.locksScopes : Pc → Bool
  | .adopted | .relocated | .cut _ | .replace | .committed | .undo | .restore => true
  | _ => false

/-- Where the reload goes after a step of its cutover. -/
def Pc.afterCut : GatePc → Pc
  | .done true => .replace
  | .done false => .undo
  | pc => .cut pc

/-- Where the reload goes after a step that closes a gate. -/
def Pc.afterClose (committed : Bool) : GatePc → Pc
  | .done _ => .ended committed
  | pc => .closing committed pc

/-- Where a `try_get` stands. -/
inductive LookupPc
  | admitted
  /-- In `resolve_owned`. -/
  | owned (ancestry : List ScopeId)
  /-- In `resolve`, about to read the cache. -/
  | cached (ancestry : List ScopeId)
  /-- About to lock the registry for writing. -/
  | resolve (ancestry : List ScopeId)
  | acquire (entry : ServiceEntry)
  | found (entry : ServiceEntry)
  | notFound
  | draining (provider : FiberId)
  deriving DecidableEq

/-- One `try_get`. -/
structure Lookup where
  fiber : FiberId
  scope : ScopeId
  symbol : ServiceSymbol
  secondAttempt : Bool
  pc : LookupPc
  deriving DecidableEq

structure State where
  /-- One invocation, and the gates. -/
  invocation : Invocation.State
  parent : ScopeId → Option ScopeId
  services : ServiceState
  lookups : List Lookup
  pc : Pc

namespace State

variable (s : State)

def gates : Gates := s.invocation.gates

def withGates (gates : Gates) : State :=
  { s with invocation := { s.invocation with gates := gates } }

/-- Lookup `n` moves on. -/
def setLookup (n : Nat) (l : Lookup) (pc : LookupPc) : State :=
  { s with lookups := s.lookups.set n { l with pc := pc } }

/-- The staged registrations move to another Scope, under the lock of the registry. -/
def relocate (r : Plan) (scope : ScopeId) (pc : Pc) : Option State :=
  (s.invocation.change (s.invocation.registry.commitRevision r.handlers r.middleware scope)).map
    fun i => { s with invocation := i, pc := pc }

end State

/-- The next step of the reload. `fail` says whether the commit fails before it has changed anything. -/
def stepReload (r : Plan) (s : State) (fail : Bool) : Option State :=
  match s.pc with
  | .staged =>
    if fail then some { s with pc := .closing false .begin }
    else some { s with parent := adopt s.parent r.children r.target, pc := .adopted }
  | .adopted => s.relocate r r.target .relocated
  | .relocated =>
    if s.services.revisionIntact r.toPreparedServiceRevision then some { s with pc := .cut .begin }
    else some { s with pc := .undo }
  | .cut pc =>
    (stepGate s.gates r.stagedGate (.cutoverFrom r.oldGate) pc).map fun p =>
      { s.withGates p.1 with pc := Pc.afterCut p.2 }
  | .replace =>
    some { s with services := s.services.replace r.toPreparedServiceRevision, pc := .committed }
  | .committed => some { s with pc := .closing true .begin }
  | .undo => s.relocate r r.source .restore
  | .restore =>
    some { s with parent := adopt s.parent r.children r.source, pc := .closing false .begin }
  | .closing committed pc =>
    (stepGate s.gates (if committed then r.oldGate else r.stagedGate) .close pc).map fun p =>
      { s.withGates p.1 with pc := Pc.afterClose committed p.2 }
  | .ended _ => none

/-- The next step of a `try_get`. -/
def stepLookup (s : State) (n : Nat) (l : Lookup) : Option State :=
  match l.pc with
  | .owned ancestry =>
    if s.pc.locksServices then none
    else
      match s.services.resolveOwned s.gates ancestry l.symbol l.fiber with
      | some entry => some (s.setLookup n l (.acquire entry))
      | none => some (s.setLookup n l (.cached ancestry))
  | .cached ancestry =>
    if s.pc.locksServices then none
    else
      match s.services.cached s.gates l.scope l.symbol with
      | .Hit (some entry) => some (s.setLookup n l (.acquire entry))
      | .Hit none => some (s.setLookup n l .notFound)
      | .Miss => some (s.setLookup n l (.resolve ancestry))
  | .resolve ancestry =>
    if s.pc.locksServices then none
    else
      let p := s.services.resolve s.gates l.scope ancestry l.symbol
      some { s with
        services := p.1
        lookups := s.lookups.set n { l with
          pc := match p.2 with
            | some entry => .acquire entry
            | none => .notFound } }
  | .acquire entry =>
    match Invocation.step s.invocation (.lease entry.gate) with
    | some i => some (({ s with invocation := i } : State).setLookup n l (.found entry))
    | none =>
      if l.secondAttempt then some (s.setLookup n l (.draining entry.owner))
      else some { s with lookups := s.lookups.set n { l with secondAttempt := true, pc := .admitted } }
  | .admitted | .found _ | .notFound | .draining _ => none

inductive Label
  | reload (fail : Bool)
  | invoke (scope : ScopeId) (chain : List ScopeId)
  /-- A step of the invocation, or of others on its registry. -/
  | invocation (l : Invocation.Label)
  /-- A `try_get` is admitted. -/
  | lookup (fiber : FiberId) (scope : ScopeId) (symbol : ServiceSymbol)
  /-- A `try_get` reads the chain of its Scopes. -/
  | ancestry (n : Nat) (chain : List ScopeId)
  | advance (n : Nat)
  | insert (scope : ScopeId) (symbol : ServiceSymbol) (entry : ServiceEntry)
  | remove (fiber : FiberId) (scope : ScopeId) (symbol : ServiceSymbol)
  | bump

def step (r : Plan) (s : State) : Label → Option State
  | .reload fail => stepReload r s fail
  | .invoke scope chain =>
    if s.invocation.pc = .lock ∧ s.invocation.scopes = [] ∧ ¬ s.pc.locksScopes ∧
        isAncestry s.parent scope chain then
      some { s with invocation := { s.invocation with scopes := chain.reverse } }
    else none
  | .invocation l => (Invocation.step s.invocation l).map fun i => { s with invocation := i }
  | .lookup fiber scope symbol =>
    some { s with lookups := s.lookups ++ [⟨fiber, scope, symbol, false, .admitted⟩] }
  | .ancestry n chain =>
    match s.lookups[n]? with
    | some l =>
      if l.pc = .admitted ∧ ¬ s.pc.locksScopes ∧ isAncestry s.parent l.scope chain then
        some (s.setLookup n l (.owned chain))
      else none
    | none => none
  | .advance n =>
    match s.lookups[n]? with
    | some l => stepLookup s n l
    | none => none
  | .insert scope symbol entry =>
    if s.pc.locksServices then none
    else some { s with services := s.services.insert scope symbol entry }
  | .remove fiber scope symbol =>
    if s.pc.locksServices then none
    else if (s.services.entries scope symbol).any (·.owner == fiber) then
      some { s with services := s.services.remove scope symbol }
    else some s
  | .bump => if s.pc.locksServices then none else some { s with services := s.services.bump }

end Cordis.Revision
