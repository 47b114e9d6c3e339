import Cordis.Gate.Capability
import Mathlib.Algebra.Order.Ring.Int
import Mathlib.Data.List.Basic
import Mathlib.Data.List.Sort

/-!
# One invocation

`InvocationRegistry::snapshot` with its two attempts, and `InvocationSnapshot::invoke` on what it
returns, while the registry changes and gates are published, closed and cut over. `snapshot` holds the
registry lock from its first step to its last; a step is one look at a selector, one attempt on an
execution word, or the start or the end of a handler or middleware.
-/

namespace Cordis.Invocation

/-- A handler in the registry. -/
structure HandlerEntry where
  id : Nat
  scope : ScopeId
  key : Nat
  gate : Nat
  deriving DecidableEq

/-- A middleware in the registry. -/
structure MiddlewareEntry where
  id : Nat
  scope : ScopeId
  key : Nat
  gate : Nat
  order : Nat
  deriving DecidableEq

/-- `RegistryState`; the entries are in the order of the arenas. -/
structure RegistryState where
  handlers : List HandlerEntry
  middleware : List MiddlewareEntry

/-- `commit_revision`: the staged entries move to the target Scope. -/
def RegistryState.commitRevision (r : RegistryState) (handlers middleware : List Nat)
    (target : ScopeId) : RegistryState where
  handlers := r.handlers.map fun e => if e.id ∈ handlers then { e with scope := target } else e
  middleware := r.middleware.map fun e => if e.id ∈ middleware then { e with scope := target } else e

/-- A call of a middleware, or of the handler at the end of the chain. -/
structure Frame where
  index : Nat
  gate : Nat
  running : Bool
  /-- It has not consumed its `NextInvocation`. -/
  next : Bool
  /-- It runs in a task of its own, not in the future of `invoke`. -/
  task : Bool
  deriving DecidableEq

/-- Where the invocation stands. -/
inductive Pc
  | lock
  /-- The handlers that are left, Scope by Scope from the leaf. -/
  | find (scopes : List ScopeId) (entries : List HandlerEntry)
  | middleware (handler : HandlerEntry) (entries : List MiddlewareEntry)
      (kept : List (Nat × MiddlewareEntry))
  /-- The gates of the chain that are still to be leased. -/
  | acquire (chain todo : List Nat)
  /-- The attempt has failed; its leases are dropped. -/
  | giveUp
  | invoking
  /-- The future of `invoke` has returned or was dropped; its leases are dropped. -/
  | ending
  | ended
  | notFound
  | generationChanged
  deriving DecidableEq

/-- An invocation and what it works on. -/
structure State where
  gates : Gates
  foreign : Nat → Nat
  gateCalls : List (Nat × GateOp × GatePc)
  registry : RegistryState
  /-- The Scopes of the caller, root to leaf. -/
  scopes : List ScopeId
  key : Nat
  pc : Pc
  secondAttempt : Bool
  cache : VisibilityCache
  /-- The gates of the middleware in order, then that of the handler. -/
  chain : List Nat
  leases : List Nat
  frames : List Frame

/-- The invocation has the registry locked. -/
def Pc.locks : Pc → Bool
  | .find .. | .middleware .. | .acquire .. | .giveUp => true
  | _ => false

/-- The order in which the selected middleware runs: by depth, then by registration. -/
def sortMiddleware (kept : List (Nat × MiddlewareEntry)) : List (Nat × MiddlewareEntry) :=
  kept.insertionSort fun a b => a.1 < b.1 ∨ a.1 = b.1 ∧ a.2.order ≤ b.2.order

namespace State

variable (s : State)

/-- An attempt begins, with a cache of its own. -/
def attempt : State := { s with pc := .find s.scopes.reverse s.registry.handlers, cache := [] }

/-- The gates are to be leased: the handler first, then the middleware. -/
def admitting (handler : HandlerEntry) (kept : List (Nat × MiddlewareEntry)) : State :=
  let middleware := (sortMiddleware kept).map (·.2.gate)
  { s with pc := .acquire (middleware ++ [handler.gate]) (handler.gate :: middleware) }

/-- The entry at place `index` of the chain is called. -/
def callAt (index : Nat) (task : Bool) : Option State :=
  (s.chain[index]?).map fun gate =>
    { s with frames := s.frames ++ [⟨index, gate, true, index + 1 < s.chain.length, task⟩] }

end State

/-- The next step of `snapshot`, or of the end of `invoke`. -/
def stepSnapshot (s : State) : Option State :=
  match s.pc with
  | .lock => some s.attempt
  | .find [] _ => some { s with pc := .notFound }
  | .find (_ :: rest) [] => some { s with pc := .find rest s.registry.handlers }
  | .find (scope :: rest) (entry :: entries) =>
    let p := s.cache.visible s.gates entry.gate
    some { s with
      cache := p.1
      pc :=
        if p.2 ∧ entry.scope = scope ∧ entry.key = s.key then .middleware entry s.registry.middleware []
        else .find (scope :: rest) entries }
  | .middleware handler [] kept => some (s.admitting handler kept)
  | .middleware handler (entry :: entries) kept =>
    if entry.scope ∈ s.scopes then
      let p := s.cache.visible s.gates entry.gate
      some { s with
        cache := p.1
        pc := .middleware handler entries
          (if p.2 ∧ entry.key = s.key then kept ++ [(s.scopes.idxOf entry.scope, entry)] else kept) }
    else some { s with pc := .middleware handler entries kept }
  | .acquire chain [] => some { s with pc := .invoking, chain := chain }
  | .acquire chain (g :: todo) =>
    match s.gates.tryAcquire g with
    | none => some { s with pc := .giveUp }
    | some gates => some { s with gates := gates, leases := g :: s.leases, pc := .acquire chain todo }
  | .giveUp =>
    match s.leases with
    | g :: rest => (s.gates.dropInflight g).map fun gates => { s with gates := gates, leases := rest }
    | [] =>
      if s.secondAttempt then some { s with pc := .generationChanged }
      else some { s.attempt with secondAttempt := true }
  | .ending =>
    match s.leases with
    | g :: rest => (s.gates.dropInflight g).map fun gates => { s with gates := gates, leases := rest }
    | [] => some { s with pc := .ended }
  | .invoking | .ended | .notFound | .generationChanged => none

/-- One step of the run of the chain. -/
inductive ChainStep
  /-- The future of `invoke` is polled first. -/
  | begin
  /-- Frame `n` consumes its `NextInvocation`, in its own future or in a task. -/
  | next (n : Nat) (task : Bool)
  | finish (n : Nat)
  /-- The future of `invoke` returns or is dropped, and what runs in it is dropped. -/
  | stop
  deriving DecidableEq

def stepChain (s : State) : ChainStep → Option State
  | .begin => if s.pc = .invoking ∧ s.frames = [] then s.callAt 0 false else none
  | .next n task =>
    match s.frames[n]? with
    | some f =>
      if f.next ∧ (f.task ∨ task ∨ s.pc = .invoking) then
        State.callAt { s with frames := s.frames.set n { f with next := false } } (f.index + 1)
          (f.task || task)
      else none
    | none => none
  | .finish n =>
    match s.frames[n]? with
    | some f =>
      if f.running then some { s with frames := s.frames.set n { f with running := false } } else none
    | none => none
  | .stop =>
    if s.pc = .invoking then
      some { s with
        pc := .ending
        frames := s.frames.map fun f => { f with running := f.running && f.task } }
    else none

/-- A step of the invocation, or of anybody else. The registry may change in any way: whether
`register_handler` finds a duplicate is left open. -/
inductive Label
  | registerHandler (entry : HandlerEntry)
  | registerMiddleware (entry : MiddlewareEntry)
  | removeHandler (id : Nat)
  | removeMiddleware (id : Nat)
  | commitRevision (handlers middleware : List Nat) (target : ScopeId)
  | gateOp (g : Nat) (op : GateOp)
  | gate (n : Nat)
  | lease (g : Nat)
  | unlease (g : Nat)
  | snapshot
  | chain (step : ChainStep)

/-- A change of the registry, under its lock. -/
def State.change (s : State) (r : RegistryState) : Option State :=
  if s.pc.locks then none else some { s with registry := r }

def step (s : State) : Label → Option State
  | .registerHandler entry =>
    s.change { s.registry with handlers := s.registry.handlers ++ [entry] }
  | .registerMiddleware entry =>
    s.change { s.registry with middleware := s.registry.middleware ++ [entry] }
  | .removeHandler id =>
    s.change { s.registry with handlers := s.registry.handlers.filter (·.id ≠ id) }
  | .removeMiddleware id =>
    s.change { s.registry with middleware := s.registry.middleware.filter (·.id ≠ id) }
  | .commitRevision handlers middleware target =>
    s.change (s.registry.commitRevision handlers middleware target)
  | .gateOp g op => some { s with gateCalls := s.gateCalls ++ [(g, op, .begin)] }
  | .gate n =>
    match s.gateCalls[n]? with
    | some (g, op, pc) =>
      (stepGate s.gates g op pc).map fun p =>
        { s with gates := p.1, gateCalls := s.gateCalls.set n (g, op, p.2) }
    | none => none
  | .lease g =>
    (s.gates.tryAcquire g).map fun gates =>
      { s with gates := gates, foreign := Function.update s.foreign g (s.foreign g + 1) }
  | .unlease g =>
    if s.foreign g = 0 then none
    else
      (s.gates.dropInflight g).map fun gates =>
        { s with gates := gates, foreign := Function.update s.foreign g (s.foreign g - 1) }
  | .snapshot => stepSnapshot s
  | .chain c => stepChain s c

/-- An invocation that has not begun. -/
structure Fresh (s : State) : Prop where
  foreign : ∀ g, s.gates.inflight g = s.foreign g
  pc : s.pc = .lock
  first : s.secondAttempt = false
  leases : s.leases = []
  frames : s.frames = []

end Cordis.Invocation
