import Cordis.Library.Chain
import Cordis.Library.Tally
import Cordis.Library.TwoPhase
import Cordis.Runtime.Step
import Mathlib.Algebra.Order.Ring.Int

/-!
# Quotas

`RuntimeConfig` bounds the arenas, the depth of the Scope tree and the ledgers of a Fiber. Every call
that adds something tests its quota first, under the lock under which it inserts, except for
`install_arc`: its test looks at the arena and lets go of it. `quotas` is the Runtime with these tests
and with the tasks that Contexts have spawned.
-/

namespace Cordis

/-- `RuntimeConfig`, with the durations in nanoseconds. -/
structure RuntimeConfig where
  taskGrace : Nat
  shutdownGrace : Nat
  defaultInvocationTimeout : Nat
  maxConcurrentInvocations : Nat
  maxScopes : Nat
  maxFibers : Nat
  maxTasksPerFiber : Nat
  maxHandlersPerFiber : Nat
  maxEffectsPerFiber : Nat
  maxChildScopesPerFiber : Nat
  maxScopeDepth : Nat
  maxInternedSymbols : Nat
  maxResolutionCacheEntries : Nat

namespace RuntimeConfig

/-- `RuntimeConfig::default`. -/
def default : RuntimeConfig where
  taskGrace := 2 * 10 ^ 9
  shutdownGrace := 10 * 10 ^ 9
  defaultInvocationTimeout := 60 * 10 ^ 9
  maxConcurrentInvocations := 64
  maxScopes := 4096
  maxFibers := 8192
  maxTasksPerFiber := 128
  maxHandlersPerFiber := 256
  maxEffectsPerFiber := 256
  maxChildScopesPerFiber := 128
  maxScopeDepth := 32
  maxInternedSymbols := 16384
  maxResolutionCacheEntries := 4096

/-- `validate`; the error is `InvalidRuntimeConfig`. -/
def validate (config : RuntimeConfig) : Except String Unit :=
  if config.taskGrace = 0 ∨ config.shutdownGrace = 0 ∨ config.defaultInvocationTimeout = 0 then
    .error "grace periods and invocation timeout must be non-zero"
  else if 0 ∈ [config.maxConcurrentInvocations, config.maxScopes, config.maxFibers,
      config.maxTasksPerFiber, config.maxHandlersPerFiber, config.maxEffectsPerFiber,
      config.maxChildScopesPerFiber, config.maxScopeDepth, config.maxInternedSymbols] then
    .error "resource limits must be non-zero"
  else if config.maxInternedSymbols > 2 ^ 32 - 1 then
    .error "max_interned_symbols exceeds the ServiceSymbol ID space"
  else .ok ()

/-- The default configuration passes its own check. -/
example : default.validate = .ok () := by decide

theorem maxScopes_pos {config : RuntimeConfig} (h : config.validate = .ok ()) :
    0 < config.maxScopes := by
  unfold validate at h
  split_ifs at h with _ hlimits
  simp only [List.mem_cons, not_or] at hlimits
  exact Nat.pos_of_ne_zero (Ne.symm hlimits.2.1)

end RuntimeConfig

/-- A call that adds one more entry is refused when the quota is used up. -/
def limited (resource : ResourceKind) (used limit : Nat) : Outcome :=
  if used ≥ limit then .error (.ResourceLimitExceeded resource limit) else .ok ()

namespace Runtime

variable (rt : Runtime)

/-- `FiberRegistry::len`. -/
def fiberCount : Nat := Tally.count rt.nextFiber fun f => (rt.fiber f).isSome

/-- The length of the Scope arena. -/
def scopeCount : Nat := Tally.count rt.nextScope fun s => (rt.scope s).isSome

/-- The parent of Scope `s`, if the arena knows it. -/
def parentOf (s : ScopeId) : Option ScopeId := (rt.scope s).bind (·.parent)

/-- How deep a child of `parent` would be: the loop of `create_scope_internal` counts the Scopes on the
way up, and the keys on a chain are distinct. -/
def childDepth (parent : ScopeId) : Nat := Chain.length rt.parentOf rt.nextScope (some parent)

/-- The distance of Scope `s` from the root. -/
def depth (s : ScopeId) : Nat := Chain.length rt.parentOf rt.nextScope (rt.parentOf s)

/-- The test of `create_scope_internal` and of `Context::create_scope` on the Scope arena. -/
def scopeQuota (config : RuntimeConfig) (parent : ScopeId) : Outcome := do
  limited .Scopes rt.scopeCount config.maxScopes
  if rt.childDepth parent > config.maxScopeDepth then
    .error (.ResourceLimitExceeded .ScopeDepth config.maxScopeDepth)
  else .ok ()

/-- The test of a Context call on the ledgers of its Fiber, whose cell is `c`. -/
def ledgerQuota (config : RuntimeConfig) (c : FiberCell) : Registration → Outcome
  | .effect _ => limited .EffectsPerFiber c.inner.effects.length config.maxEffectsPerFiber
  | .handler _ | .invocationHandler _ | .invocationMiddleware _ =>
    -- `ensure_handler_quota`
    limited .HandlersPerFiber (c.inner.handlers.length + c.inner.invocationHandlers.length +
      c.inner.invocationMiddleware.length) config.maxHandlersPerFiber
  | .childScope _ =>
    limited .ChildScopesPerFiber c.inner.childScopes.length config.maxChildScopesPerFiber
  | .task _ => limited .TasksPerFiber c.inner.tasks.length config.maxTasksPerFiber
  | .provided _ => .ok ()

/-- The entry that a Context call of Fiber `f` adds to the ledger. -/
def entryOf : RuntimeLabel → Option (FiberId × Registration)
  | .fiber f (.register entry) => some (f, entry)
  | .provide f _ key => some (f, .provided key)
  | .handle f _ _ => some (f, .invocationHandler rt.nextHandler)
  | .intercept f _ _ => some (f, .invocationMiddleware rt.nextMiddleware)
  | .ownScope f _ => some (f, .childScope rt.nextScope)
  | _ => none

/-- The quota test of a Context call that adds to a ledger. -/
def entryQuota (config : RuntimeConfig) (l : RuntimeLabel) : Outcome :=
  match rt.entryOf l with
  | some (f, entry) =>
    match rt.fibers f with
    | some c => ledgerQuota config c entry
    | none => .error .FiberNotFound
  | none => .ok ()

/-- The quota test of a call that adds to an arena. -/
def arenaQuota (config : RuntimeConfig) (l : RuntimeLabel) : Outcome :=
  match l with
  | .install .. => limited .Fibers rt.fiberCount config.maxFibers
  | .createScope parent _ | .ownScope _ parent => rt.scopeQuota config parent
  | _ => .ok ()

/-- The quota tests of a call. -/
def quota (config : RuntimeConfig) (l : RuntimeLabel) : Outcome := do
  rt.entryQuota config l
  rt.arenaQuota config l

end Runtime

/-- The Runtime with its tasks: who spawned a task, as long as it has not ended. -/
structure Metered where
  runtime : Runtime
  tasks : Nat → Option FiberId
  nextTask : Nat

inductive MeteredLabel
  | runtime (l : RuntimeLabel)
  | spawn (f : FiberId)
  | taskEnded (id : Nat)

namespace Metered

variable (config : RuntimeConfig) (m : Metered)

def new : Metered := ⟨.new, fun _ => none, 0⟩

/-- The tasks of Fiber `f` that have not ended. -/
def liveTasks (f : FiberId) : List Nat := (List.range m.nextTask).filter fun id => m.tasks id = some f

/-- The section can be made now, as far as tasks and the callers of the section are concerned. -/
def ready : RuntimeLabel → Bool
  | .fiber _ (.register (.task _)) => false
  -- `run_reload_transaction` has created its staging Scope under the target
  | .commitReload _ _ staging target => (m.runtime.scope staging).all (·.parent == some target)
  | l => m.runtime.tasksReady m.tasks m.nextTask l

/-- One critical section of one thread; a call that its quota test refuses changes nothing. -/
def step : MeteredLabel → Option Metered
  | .runtime l =>
    if (m.runtime.quota config l).isOk ∧ m.ready l then
      (m.runtime.step l).map fun rt => { m with runtime := rt }
    else none
  | .spawn f =>
    let l := .fiber f (.register (.task m.nextTask))
    if (m.runtime.quota config l).isOk then
      (m.runtime.step l).map fun rt =>
        ⟨rt, Function.update m.tasks m.nextTask (some f), m.nextTask + 1⟩
    else none
  | .taskEnded id =>
    if (m.tasks id).isSome then some { m with tasks := Function.update m.tasks id none } else none

/-- The Runtime with quota tests, where the test of `install_arc` is a section of its own. -/
def quotas : TwoPhase Metered MeteredLabel where
  step := step config
  split l :=
    match l with
    | .runtime (.install ..) => true
    | _ => false
  check m l :=
    match l with
    | .runtime (.install ..) => m.runtime.fiberCount < config.maxFibers
    | _ => true
  act m l :=
    match l with
    | .runtime (.install scope plugin descriptor staged) =>
      (m.runtime.step (.install scope plugin descriptor staged)).map fun rt =>
        { m with runtime := rt }
    | l => step config m l
  effective _ _ := true
  agree := fun m l hsplit h => by
    clear hsplit
    rcases l with l | f | id
    · cases l
      case install scope plugin descriptor staged =>
        have hroom : (m.runtime.quota config (.install scope plugin descriptor staged)).isOk =
            true := by
          have h : m.runtime.fiberCount < config.maxFibers := of_decide_eq_true h
          simp [Runtime.quota, Runtime.entryQuota, Runtime.entryOf, Runtime.arenaQuota, limited,
            Nat.not_le.mpr h]
          rfl
        have hready : m.ready (.install scope plugin descriptor staged) = true := rfl
        simp [step, hroom, hready]
      all_goals rfl
    all_goals rfl

end Metered

end Cordis
