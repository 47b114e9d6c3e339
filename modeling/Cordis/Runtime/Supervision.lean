import Cordis.Core.Error
import Cordis.Library.Machine

/-!
# Supervised tasks and workers

`TaskSupervisor` runs the tasks of the Fibers and `RuntimeWorkerSupervisor` the workers of the Runtime. An
item is a future in a wrapper: the wrapper waits for the start signal of its spawner, runs the future and
then removes its entry and records the outcome, unless `cancel_all` or `shutdown_until` has removed the
entry before, which then records what the join handle yields. A step is one critical section or one atomic
operation of a spawner, a wrapper or a drain. The two supervisors differ in a `Policy`; the counters are
`Nat`, since they count items.

The spawners send the start signal in every run, so a wrapper never finds its sender dropped.
-/

namespace Cordis.Supervision

inductive TaskOutcome
  | Completed
  | Cancelled
  | Panicked
  | Aborted
  | Errored
  deriving DecidableEq, Repr

/-- What a `JoinHandle` yields. -/
inductive Joined
  | ok (outcome : TaskOutcome)
  | cancelled
  | panicked
  deriving DecidableEq, Repr

/-- The outcome that a drain records for a handle. -/
def Joined.outcome : Joined → TaskOutcome
  | ok outcome => outcome
  | panicked => .Panicked
  | cancelled => .Aborted

/-- Where `Context::spawn` or `RuntimeWorkerSupervisor::spawn` stands. -/
inductive Spawner
  /-- The worker exists; its entry is inserted next. -/
  | inserting
  /-- The task and its entry exist; its id is pushed to the ledger next. -/
  | pushing
  /-- The start signal is next. -/
  | starting
  /-- The start signal is sent; `spawn` returns and lets the Fiber go. -/
  | releasing
  | returned
  deriving DecidableEq, Repr

/-- Where the wrapper of an item stands. -/
inductive Wrapper
  | waiting
  /-- Waits for the activation to commit. -/
  | activating
  | running
  /-- About to remove its entry. -/
  | completing (outcome : TaskOutcome)
  /-- The entry is removed; `reaped` is incremented next. -/
  | reaping (outcome : TaskOutcome)
  /-- The counter of the outcome is incremented next. -/
  | counting (outcome : TaskOutcome)
  /-- The ledger of the owner is cleared of the task next. -/
  | detaching (outcome : TaskOutcome)
  /-- What the wrapper still owns is dropped. -/
  | leaving (outcome : TaskOutcome)
  | ended (joined : Joined)
  deriving DecidableEq, Repr

structure Item where
  id : Nat
  /-- `owner_id` of a task. -/
  owner : FiberId
  /-- A worker that its token does not cancel. -/
  cleanup : Bool
  /-- A task that was spawned before its Fiber was active. -/
  activation : Bool
  spawner : Spawner
  cancelled : Bool := false
  aborted : Bool := false
  wrapper : Wrapper := .waiting
  deriving DecidableEq, Repr

/-- The outcome that is about to be recorded. -/
def Wrapper.reaping? : Wrapper → Option TaskOutcome
  | reaping outcome => some outcome
  | _ => none

/-- What the join handle yields once the wrapper has ended. -/
def Wrapper.joined? : Wrapper → Option Joined
  | ended joined => some joined
  | _ => none

/-- The start signal was sent. -/
def Item.started (item : Item) : Bool := item.spawner == .releasing || item.spawner == .returned

/-- The spawner of the task holds its Fiber. -/
def Item.holding (item : Item) : Bool :=
  item.spawner == .pushing || item.spawner == .starting || item.spawner == .releasing

structure Counters where
  reaped : Nat := 0
  completed : Nat := 0
  cancelled : Nat := 0
  panicked : Nat := 0
  aborted : Nat := 0
  errors : Nat := 0
  deriving DecidableEq, Repr

/-- `reaped.fetch_add`, with which `record_task_outcome` and `record_worker_outcome` begin. -/
def Counters.reap (c : Counters) : Counters := { c with reaped := c.reaped + 1 }

/-- What differs between the two supervisors. -/
structure Policy where
  /-- The items belong to Fibers, whose ledgers list them. -/
  owned : Bool
  /-- The counter of an outcome. -/
  tally : Counters → TaskOutcome → Counters
  /-- A drain cancels the token of the item. -/
  cancels : Item → Bool
  /-- The future of the item may end so. -/
  yields : Item → TaskOutcome → Bool

/-- The rest of `record_task_outcome`. -/
def tallyTask (c : Counters) : TaskOutcome → Counters
  | .Completed => { c with completed := c.completed + 1 }
  | .Cancelled => { c with cancelled := c.cancelled + 1 }
  | .Panicked => { c with panicked := c.panicked + 1 }
  | .Aborted => { c with aborted := c.aborted + 1 }
  | .Errored => c

/-- The rest of `record_worker_outcome`. -/
def tallyWorker (c : Counters) : TaskOutcome → Counters
  | .Panicked => { c with panicked := c.panicked + 1 }
  | .Errored => { c with errors := c.errors + 1 }
  | .Cancelled => { c with cancelled := c.cancelled + 1 }
  | .Aborted => { c with aborted := c.aborted + 1 }
  | .Completed => c

/-- `TaskSupervisor`. -/
def taskSupervisor : Policy where
  owned := true
  tally := tallyTask
  cancels _ := true
  yields item outcome := match outcome with
    | .Completed | .Panicked => true
    | .Cancelled => item.cancelled
    | .Aborted | .Errored => false

/-- `RuntimeWorkerSupervisor`. -/
def runtimeWorkerSupervisor : Policy where
  owned := false
  tally := tallyWorker
  cancels item := !item.cleanup
  yields item outcome := match outcome with
    | .Completed | .Errored | .Panicked => true
    | .Cancelled => !item.cleanup && item.cancelled
    | .Aborted => false

/-- Where `cancel_all` or `shutdown_until` stands. -/
inductive DrainPc
  /-- About to remove the entries of the ids that it was called with. -/
  | called (ids : List Nat)
  /-- Tokens are cancelled one after the other. -/
  | cancelling (left : List Nat)
  | joining
  /-- The deadline has passed; handles are aborted one after the other. -/
  | aborting (left : List Nat)
  | reaping (id : Nat) (outcome : TaskOutcome)
  | counting (id : Nat) (outcome : TaskOutcome)
  | detaching (id : Nat) (outcome : TaskOutcome)
  | returned
  deriving DecidableEq, Repr

/-- The item whose outcome is about to be recorded. -/
def DrainPc.reaping? : DrainPc → Option (Nat × TaskOutcome)
  | reaping id outcome => some (id, outcome)
  | _ => none

/-- A call of `cancel_all` or `shutdown_until`. -/
structure Drain where
  taken : List Nat := []
  /-- Those whose handles it has not joined. -/
  joins : List Nat := []
  overdue : Bool := false
  panic : Bool := false
  pc : DrainPc
  deriving DecidableEq, Repr

structure State where
  items : List Item := []
  /-- `arena` of the tasks, `workers` of the workers. -/
  entries : List Nat := []
  /-- The `tasks` of the Fibers. -/
  ledger : List (FiberId × Nat) := []
  drains : List Drain := []
  counters : Counters := {}
  deriving DecidableEq, Repr

/-- What is not determined about the next operation of a wrapper. -/
inductive Move
  | go
  | refuse
  | yield (outcome : TaskOutcome)
  | abort
  | panic
  deriving DecidableEq, Repr

inductive Label
  | spawn (owner : FiberId) (cleanup activation : Bool)
  | spawner (id : Nat)
  | cancel (id : Nat)
  | wrapper (id : Nat) (move : Move)
  | drain (ids : List Nat)
  | dispose (owner : FiberId)
  /-- The next operation of a drain; `id` is the item whose handle is joined next. -/
  | drainer (n : Nat) (id : Nat)
  | deadline (n : Nat)
  /-- The cell of a Fiber is dropped, and its ledger with it. -/
  | forget (owner : FiberId)
  deriving DecidableEq, Repr

variable (p : Policy)

/-- Some `Context::spawn` holds the Fiber. -/
def State.locked (s : State) (owner : FiberId) : Bool :=
  p.owned && s.items.any fun item => item.owner == owner && item.holding

def State.setItem (s : State) (id : Nat) (item : Item) : State :=
  { s with items := s.items.set id item }

def State.setDrain (s : State) (n : Nat) (d : Drain) : State :=
  { s with drains := s.drains.set n d }

/-- `detach_task`. -/
def State.detach (s : State) (owner : FiberId) (id : Nat) : State :=
  { s with ledger := s.ledger.filter (· ≠ (owner, id)) }

def stepSpawner (s : State) (item : Item) : Option State :=
  match item.spawner with
  | .inserting => some { s.setItem item.id { item with spawner := .starting } with
      entries := s.entries ++ [item.id] }
  | .pushing => some { s.setItem item.id { item with spawner := .starting } with
      ledger := s.ledger ++ [(item.owner, item.id)] }
  | .starting => some (s.setItem item.id { item with spawner := .releasing })
  | .releasing => some (s.setItem item.id { item with spawner := .returned })
  | .returned => none

/-- The state after an operation of the wrapper, and where the wrapper stands then. -/
def stepWrapper (s : State) (item : Item) : Move → Option (State × Wrapper)
  | .go => match item.wrapper with
    | .waiting =>
      if item.started then some (s, if item.activation then .activating else .running) else none
    | .activating => some (s, .running)
    | .completing outcome =>
      if item.id ∈ s.entries then
        some ({ s with entries := s.entries.erase item.id }, .reaping outcome)
      else some (s, .leaving outcome)
    | .reaping outcome => some ({ s with counters := s.counters.reap }, .counting outcome)
    | .counting outcome =>
      some ({ s with counters := p.tally s.counters outcome },
        if p.owned then .detaching outcome else .leaving outcome)
    | .detaching outcome =>
      if s.locked p item.owner then none else some (s.detach item.owner item.id, .leaving outcome)
    | .leaving outcome => some (s, .ended (.ok outcome))
    | _ => none
  | .refuse => match item.wrapper with
    | .activating => some (s, .completing .Cancelled)
    | _ => none
  | .yield outcome => match item.wrapper with
    | .running => if p.yields item outcome then some (s, .completing outcome) else none
    | _ => none
  | .abort => match item.wrapper with
    | .waiting | .activating | .running => if item.aborted then some (s, .ended .cancelled) else none
    | _ => none
  | .panic => match item.wrapper with
    | .waiting | .activating | .running => if item.aborted then some (s, .ended .panicked) else none
    | .leaving _ => some (s, .ended .panicked)
    | _ => none

/-- `ids.into_iter().filter_map(|id| arena.remove(id))`, and what is left. -/
def removeAll : List Nat → List Nat → List Nat × List Nat
  | [], entries => ([], entries)
  | id :: ids, entries =>
    if id ∈ entries then
      (id :: (removeAll ids (entries.erase id)).1, (removeAll ids (entries.erase id)).2)
    else removeAll ids entries

/-- The entries that a drain removes: those it was called with, or all. -/
def State.requested (s : State) (ids : List Nat) : List Nat := if p.owned then ids else s.entries

/-- The drain is done with an outcome. -/
def Drain.recorded (d : Drain) (outcome : TaskOutcome) : Drain :=
  { d with pc := .joining, panic := d.panic || outcome == .Panicked }

def stepDrain (s : State) (n : Nat) (d : Drain) (next : Nat) : Option State :=
  match d.pc with
  | .called ids =>
    let removed := removeAll (s.requested p ids) s.entries
    some { s.setDrain n { d with taken := removed.1, joins := removed.1, pc := .cancelling removed.1 }
      with entries := removed.2 }
  | .cancelling (id :: left) =>
    (s.items[id]?).map fun item =>
      (s.setItem id { item with cancelled := item.cancelled || p.cancels item }).setDrain n
        { d with pc := .cancelling left }
  | .cancelling [] => some (s.setDrain n { d with pc := .joining })
  | .joining =>
    if d.joins = [] then some (s.setDrain n { d with pc := .returned })
    else if next ∈ d.joins then
      ((s.items[next]?).bind (·.wrapper.joined?)).map fun joined => s.setDrain n
        { d with joins := d.joins.erase next, pc := .reaping next joined.outcome }
    else none
  | .aborting (id :: left) =>
    (s.items[id]?).map fun item =>
      (s.setItem id { item with aborted := true }).setDrain n { d with pc := .aborting left }
  | .aborting [] => some (s.setDrain n { d with pc := .joining })
  | .reaping id outcome =>
    some { s.setDrain n { d with pc := .counting id outcome } with counters := s.counters.reap }
  | .counting id outcome =>
    some { s.setDrain n (if p.owned then { d with pc := .detaching id outcome }
      else d.recorded outcome) with counters := p.tally s.counters outcome }
  | .detaching id outcome =>
    (s.items[id]?).bind fun item =>
      if s.locked p item.owner then none
      else some ((s.detach item.owner id).setDrain n (d.recorded outcome))
  | .returned => none

def step (s : State) : Label → Option State
  | .spawn owner cleanup activation =>
    if s.locked p owner then none
    else some { s with
      items := s.items ++ [⟨s.items.length, owner, cleanup, activation,
        if p.owned then .pushing else .inserting, false, false, .waiting⟩]
      entries := if p.owned then s.entries ++ [s.items.length] else s.entries }
  | .spawner id => (s.items[id]?).bind (stepSpawner s)
  | .cancel id => (s.items[id]?).map fun item => s.setItem id { item with cancelled := true }
  | .wrapper id move => (s.items[id]?).bind fun item =>
    (stepWrapper p s item move).map fun q => q.1.setItem id { item with wrapper := q.2 }
  | .drain ids => some { s with drains := s.drains ++ [{ pc := .called ids }] }
  | .dispose owner =>
    if s.locked p owner then none
    else some { s with
      ledger := s.ledger.filter (·.1 ≠ owner)
      drains := s.drains ++ [{ pc := .called ((s.ledger.filter (·.1 = owner)).map (·.2)) }] }
  | .drainer n next => (s.drains[n]?).bind fun d => stepDrain p s n d next
  | .deadline n => (s.drains[n]?).bind fun d =>
    if d.pc = .joining ∧ d.joins ≠ [] ∧ ¬ d.overdue then
      some (s.setDrain n { d with overdue := true, pc := .aborting d.taken })
    else none
  | .forget owner =>
    if s.locked p owner then none
    else some { s with ledger := s.ledger.filter (·.1 ≠ owner) }

/-- What is recorded in a step. -/
def records (s : State) (l : Label) (_ : State) : List (Nat × TaskOutcome) :=
  match l with
  | .wrapper id .go =>
    (((s.items[id]?).bind (·.wrapper.reaping?)).map fun outcome => (id, outcome)).toList
  | .drainer n _ => ((s.drains[n]?).bind (·.pc.reaping?)).toList
  | _ => []

end Cordis.Supervision
