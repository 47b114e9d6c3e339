import Cordis.Gate.Capability
import Mathlib.Data.List.Basic

/-!
# One dispatch of an event

`EventBus::emit`, `serial`, `bail`, `parallel` and `waterfall` over one event, while handlers are
registered and removed and gates are published, closed and cut over. A step is one atomic operation:
the look at a selector, an attempt on an execution word, the start or the end of a handler. Looking up
the slot and loading its snapshot is one step. What a handler does is up to the labels.
-/

namespace Cordis.EventBus

/-- An entry of a snapshot; handlers are told apart by their ids. -/
structure SnapshotHandler where
  id : Nat
  gate : Nat
  deriving DecidableEq

/-- Which of the five. -/
inductive Kind
  | emit
  | serial
  | bail
  | parallel
  | waterfall
  deriving DecidableEq

/-- What a handler answers; a panic is an error. -/
inductive Outcome
  | none
  | some
  | error
  deriving DecidableEq

/-- Where a call of a handler stands. -/
inductive Phase
  | admitted
  | running
  /-- The handler has returned; its lease is dropped next. -/
  | returned (outcome : Outcome)
  | released (outcome : Outcome)
  deriving DecidableEq

/-- A call of a handler. -/
structure Call where
  handler : SnapshotHandler
  phase : Phase
  /-- The handlers of the `Next` that the handler has not consumed. -/
  next : Option (List SnapshotHandler)
  deriving DecidableEq

/-- The call holds its lease. -/
def Call.holds (c : Call) : Bool :=
  match c.phase with
  | .released _ => false
  | _ => true

/-- Where the dispatch stands. -/
inductive Pc
  | start
  /-- In one of the loops. -/
  | loop (rest : List SnapshotHandler)
  /-- The handler is visible. -/
  | acquire (handler : SnapshotHandler) (rest : List SnapshotHandler)
  /-- Waits for call `n`. -/
  | await (n : Nat) (rest : List SnapshotHandler)
  | join
  /-- In the filter of `waterfall`. -/
  | filter (rest kept : List SnapshotHandler)
  /-- Waits for the outermost `run_waterfall`. -/
  | cascade
  | finished

/-- The dispatch and what it works on. -/
structure Bus where
  gates : Gates
  /-- Leases on a gate that are not of this dispatch. -/
  foreign : Nat → Nat
  gateCalls : List (Nat × GateOp × GatePc)
  slot : Option (List SnapshotHandler)
  kind : Kind
  pc : Pc
  cache : VisibilityCache
  /-- The calls of handlers, in the order of their admission. -/
  calls : List Call
  /-- The `run_waterfall` futures that are at a `try_acquire`. -/
  cascades : List (List SnapshotHandler)

/-- A call of this kind that ends so is the last one of the loop. -/
def Kind.ends : Kind → Outcome → Bool
  | serial, .error | bail, .error | bail, .some => true
  | _, _ => false

namespace Bus

variable (b : Bus)

/-- A lease is taken, and with it a call begins. -/
def admitted (gates : Gates) (handler : SnapshotHandler) (next : Option (List SnapshotHandler)) : Bus :=
  { b with gates := gates, calls := b.calls ++ [⟨handler, .admitted, next⟩] }

/-- Call `n` with a new phase. -/
def setPhase (n : Nat) (c : Call) (phase : Phase) : Bus :=
  { b with calls := b.calls.set n { c with phase := phase } }

end Bus

/-- The next step of the dispatch itself. -/
def stepDispatch (b : Bus) : Option Bus :=
  match b.pc with
  | .start =>
    match b.slot with
    | none => some { b with pc := .finished }
    | some snapshot =>
      some { b with pc := if b.kind = .waterfall then .filter snapshot [] else .loop snapshot }
  | .loop [] => some { b with pc := if b.kind = .parallel then .join else .finished }
  | .loop (handler :: rest) =>
    let p := b.cache.visible b.gates handler.gate
    some { b with cache := p.1, pc := if p.2 then .acquire handler rest else .loop rest }
  | .acquire handler rest =>
    match b.gates.tryAcquire handler.gate with
    | none => some { b with pc := .loop rest }
    | some gates =>
      some { b.admitted gates handler none with
        pc := if b.kind = .parallel then .loop rest else .await b.calls.length rest }
  | .await n rest =>
    match (b.calls[n]?).map Call.phase with
    | some (.released outcome) =>
      some { b with pc := if b.kind.ends outcome then .finished else .loop rest }
    | _ => none
  | .join => if b.calls.all (! ·.holds) then some { b with pc := .finished } else none
  | .filter [] kept => some { b with pc := .cascade, cascades := b.cascades ++ [kept] }
  | .filter (handler :: rest) kept =>
    let p := b.cache.visible b.gates handler.gate
    some { b with cache := p.1, pc := .filter rest (if p.2 then kept ++ [handler] else kept) }
  | .cascade =>
    match b.calls with
    | [] => if b.cascades = [] then some { b with pc := .finished } else none
    | c :: _ => if c.holds then none else some { b with pc := .finished }
  | .finished => none

/-- One step of a `run_waterfall`. -/
def stepCascade (b : Bus) (k : Nat) : Option Bus :=
  match b.cascades[k]? with
  | none => none
  | some [] => some { b with cascades := b.cascades.eraseIdx k }
  | some (handler :: rest) =>
    match b.gates.tryAcquire handler.gate with
    | none => some { b with cascades := b.cascades.set k rest }
    | some gates =>
      some { b.admitted gates handler (some rest) with cascades := b.cascades.eraseIdx k }

/-- One step of call `n`: it is polled first, consumes its `Next`, returns, or drops its lease. -/
inductive CallStep
  | begin
  | next
  | finish (outcome : Outcome)
  | release
  deriving DecidableEq

def stepCall (b : Bus) (n : Nat) (c : Call) : CallStep → Option Bus
  | .begin => if c.phase = .admitted then some (b.setPhase n c .running) else none
  | .next =>
    match c.phase, c.next with
    | .admitted, _ | _, none => none
    | _, some rest =>
      some { b with
        calls := b.calls.set n { c with next := none }
        cascades := b.cascades ++ [rest] }
  | .finish outcome => if c.phase = .running then some (b.setPhase n c (.returned outcome)) else none
  | .release =>
    match c.phase with
    | .returned outcome =>
      (b.gates.dropInflight c.handler.gate).map fun gates =>
        { b.setPhase n c (.released outcome) with gates := gates }
    | _ => none

inductive Label
  | register (handler : SnapshotHandler)
  | remove (id : Nat)
  | gateOp (g : Nat) (op : GateOp)
  | gate (n : Nat)
  | lease (g : Nat)
  | unlease (g : Nat)
  | dispatch
  | cascade (k : Nat)
  | call (n : Nat) (s : CallStep)

def step (b : Bus) : Label → Option Bus
  | .register handler => some { b with slot := some (b.slot.getD [] ++ [handler]) }
  | .remove id => some { b with slot := b.slot.map (·.filter (·.id ≠ id)) }
  | .gateOp g op => some { b with gateCalls := b.gateCalls ++ [(g, op, .begin)] }
  | .gate n =>
    match b.gateCalls[n]? with
    | some (g, op, pc) =>
      (stepGate b.gates g op pc).map fun p =>
        { b with gates := p.1, gateCalls := b.gateCalls.set n (g, op, p.2) }
    | none => none
  | .lease g =>
    (b.gates.tryAcquire g).map fun gates =>
      { b with gates := gates, foreign := Function.update b.foreign g (b.foreign g + 1) }
  | .unlease g =>
    if b.foreign g = 0 then none
    else
      (b.gates.dropInflight g).map fun gates =>
        { b with gates := gates, foreign := Function.update b.foreign g (b.foreign g - 1) }
  | .dispatch => stepDispatch b
  | .cascade k => stepCascade b k
  | .call n s =>
    match b.calls[n]? with
    | some c => stepCall b n c s
    | none => none

/-- A dispatch that has not begun. -/
structure Fresh (b : Bus) : Prop where
  foreign : ∀ g, b.gates.inflight g = b.foreign g
  pc : b.pc = .start
  cache : b.cache = []
  calls : b.calls = []
  cascades : b.cascades = []

end Cordis.EventBus
