import Cordis.Fiber.Record
import Mathlib.Algebra.Order.Ring.Int
import Mathlib.Data.List.Basic

/-!
# The packed execution word of a generation

`GenerationExecution` keeps its admission state and the number of its leases in one atomic word,
changed by retrying compare-and-exchange loops, and the number of leases that are service handles in
a second counter. A thread is one `try_acquire` with the lease it returns, or one `begin_draining`; a
step is one atomic operation of one thread. `w` is the width of `usize`.
-/

namespace Cordis

/-- `GenerationExecutionState`. -/
inductive GenerationExecutionState
  | Accepting
  | Draining
  | Drained
  deriving DecidableEq, Repr

def EXECUTION_STATE_BITS : Nat := 2
def EXECUTION_STATE_MASK : Nat := (1 <<< EXECUTION_STATE_BITS) - 1
def EXECUTION_INFLIGHT_ONE : Nat := 1 <<< EXECUTION_STATE_BITS
def EXECUTION_MAX_INFLIGHT (w : Nat) : Nat := (2 ^ w - 1) >>> EXECUTION_STATE_BITS
def EXECUTION_ACCEPTING : Nat := 0
def EXECUTION_DRAINING : Nat := 1
def EXECUTION_DRAINED : Nat := 2

/-- `execution_state`; the reserved code panics. -/
def executionState (word : Nat) : Option GenerationExecutionState :=
  if word &&& EXECUTION_STATE_MASK = EXECUTION_ACCEPTING then some .Accepting
  else if word &&& EXECUTION_STATE_MASK = EXECUTION_DRAINING then some .Draining
  else if word &&& EXECUTION_STATE_MASK = EXECUTION_DRAINED then some .Drained
  else none

def executionInflight (word : Nat) : Nat := word >>> EXECUTION_STATE_BITS

def executionWord (w state inflight : Nat) : Nat :=
  (inflight <<< EXECUTION_STATE_BITS) % 2 ^ w ||| state

/-- The code of a state. -/
def GenerationExecutionState.code : GenerationExecutionState → Nat
  | Accepting => EXECUTION_ACCEPTING
  | Draining => EXECUTION_DRAINING
  | Drained => EXECUTION_DRAINED

namespace Execution

/-- Where a thread stands. -/
inductive Pc
  /-- In `try_acquire_kind`, before the first load. -/
  | acquireLoad (serviceHandle : Bool)
  /-- In `try_acquire_kind`, about to exchange `current`. -/
  | acquireCas (serviceHandle : Bool) (current : Nat)
  /-- The lease is admitted; `fetch_update` loads `service_handles` next. -/
  | countLoad
  /-- About to exchange `value` in `service_handles`. -/
  | countCas (value : Nat)
  /-- `try_acquire_kind` returned a lease, which is held. -/
  | held (serviceHandle : Bool)
  /-- The lease is being dropped; `service_handles.fetch_sub` is next. -/
  | dropService
  /-- In `drop_inflight`, before the first load. -/
  | dropLoad
  /-- In `drop_inflight`, about to exchange `current`. -/
  | dropCas (current : Nat)
  | refused
  | released
  /-- In `begin_draining`, before the first load. -/
  | drainLoad
  /-- In `begin_draining`, about to exchange `current`. -/
  | drainCas (current : Nat)
  | draining
  | panicked
  deriving DecidableEq

/-- The thread has admitted a lease that it has not released. -/
def Pc.admitted : Pc → Bool
  | countLoad | countCas _ | held _ | dropService | dropLoad | dropCas _ => true
  | _ => false

/-- The lease of the thread is counted in `service_handles`. -/
def Pc.counted : Pc → Bool
  | held serviceHandle => serviceHandle
  | dropService => true
  | _ => false

/-- The atomics of one `GenerationExecution` and the threads that work on it. -/
structure State where
  word : Nat
  serviceHandles : Nat
  threads : List Pc

/-- `GenerationExecution::default`. -/
def State.default : State := ⟨EXECUTION_ACCEPTING, 0, []⟩

/-- The number of leases that were admitted and not yet released. -/
def State.leases (s : State) : Nat := s.threads.countP (·.admitted)

inductive Label
  | tryAcquire (serviceHandle : Bool)
  | beginDraining
  /-- The lease of thread `n` is dropped. -/
  | drop (n : Nat)
  /-- The next atomic operation of thread `n`; a weak exchange may fail for no reason. -/
  | atomic (n : Nat) (spurious : Bool)

variable (w : Nat)

/-- The body of the loop of `try_acquire_kind`, up to the exchange. -/
def acquireLoop (serviceHandle : Bool) (current : Nat) : Pc :=
  match executionState current with
  | none => .panicked
  | some .Accepting =>
    if executionInflight current < EXECUTION_MAX_INFLIGHT w then .acquireCas serviceHandle current
    else .panicked
  | some _ => .refused

/-- The closure of `fetch_update`, and the `expect` on its answer. -/
def countLoop (value : Nat) : Pc := if value + 1 < 2 ^ w then .countCas value else .panicked

/-- The body of the loop of `drop_inflight`, up to the exchange. -/
def dropLoop (current : Nat) : Pc :=
  match executionState current with
  | none => .panicked
  | some state =>
    if executionInflight current = 0 then .panicked
    else if state = .Drained then .panicked
    else .dropCas current

/-- The body of the loop of `begin_draining`, up to the exchange. -/
def drainLoop (current : Nat) : Pc :=
  match executionState current with
  | none => .panicked
  | some .Accepting => .drainCas current
  | some _ => .draining

/-- The word that `drop_inflight` writes over `current`. -/
def dropNext (current : Nat) : Nat :=
  let remaining := executionInflight current - 1
  let nextState :=
    if executionState current = some .Draining ∧ remaining = 0 then EXECUTION_DRAINED
    else current &&& EXECUTION_STATE_MASK
  executionWord w nextState remaining

/-- The word that `begin_draining` writes over `current`. -/
def drainNext (current : Nat) : Nat :=
  if executionInflight current = 0 then executionWord w EXECUTION_DRAINED 0
  else executionWord w EXECUTION_DRAINING (executionInflight current)

/-- The next atomic operation of a thread at `pc`, and where it leaves the thread. -/
def atomicOp (s : State) (spurious : Bool) : Pc → Option (State × Pc)
  | .acquireLoad serviceHandle => some (s, acquireLoop w serviceHandle s.word)
  | .acquireCas serviceHandle current =>
    if s.word = current ∧ !spurious then
      some ({ s with word := (current + EXECUTION_INFLIGHT_ONE) % 2 ^ w },
        if serviceHandle then .countLoad else .held false)
    else some (s, acquireLoop w serviceHandle s.word)
  | .countLoad => some (s, countLoop w s.serviceHandles)
  | .countCas value =>
    if s.serviceHandles = value ∧ !spurious then
      some ({ s with serviceHandles := value + 1 }, .held true)
    else some (s, countLoop w s.serviceHandles)
  | .dropService =>
    some ({ s with serviceHandles := (s.serviceHandles + (2 ^ w - 1)) % 2 ^ w },
      if s.serviceHandles = 0 then .panicked else .dropLoad)
  | .dropLoad => some (s, dropLoop s.word)
  | .dropCas current =>
    if s.word = current ∧ !spurious then some ({ s with word := dropNext w current }, .released)
    else some (s, dropLoop s.word)
  | .drainLoad => some (s, drainLoop s.word)
  | .drainCas current =>
    if s.word = current ∧ !spurious then some ({ s with word := drainNext w current }, .draining)
    else some (s, drainLoop s.word)
  | .held _ | .refused | .released | .draining | .panicked => none

/-- One atomic operation of one thread. -/
def step (s : State) : Label → Option State
  | .tryAcquire serviceHandle =>
    some { s with threads := s.threads ++ [.acquireLoad serviceHandle] }
  | .beginDraining => some { s with threads := s.threads ++ [.drainLoad] }
  | .drop n =>
    match s.threads[n]? with
    | some (.held serviceHandle) =>
      some { s with
        threads := s.threads.set n (if serviceHandle then .dropService else .dropLoad) }
    | _ => none
  | .atomic n spurious =>
    (s.threads[n]?).bind fun pc =>
      (atomicOp w s spurious pc).map fun p => { p.1 with threads := p.1.threads.set n p.2 }

end Execution

end Cordis
