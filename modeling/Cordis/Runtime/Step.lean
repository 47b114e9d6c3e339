import Cordis.Runtime.Cutover
import Cordis.Runtime.Graph

/-!
# The Runtime as a machine

A label is one critical section of one thread: a section on a Fiber (`fiber f l`, with what the
registries say in place of the free arguments of `FiberLabel`), a section of the disposal worker of
a Scope, a Context call that registers something, an install, a reload cutover, a pass of the
garbage collector. Anybody may call `activate`, `dispose_fiber` and `dispose_scope` at any time,
which covers every order in which reconciliation, reloads and shutdown call them.
-/

namespace Cordis

/-- A section of the disposal worker of a Scope. -/
inductive ScopeLabel
  | copy
  | visit
  | childReturned
  | childReread
  | fiberLookup
  | fiberCall
  | fiberReturned
  | fiberReread
  | workerDied (panic : Option String)
  | finalize

inductive RuntimeLabel
  | fiber (f : FiberId) (l : FiberLabel)
  | scope (s : ScopeId) (l : ScopeLabel)
  | disposeScope (s : ScopeId) (persistent : Bool)
  | createScope (parent : ScopeId) (hidden : Bool)
  | install (scope : ScopeId) (plugin : Option PluginId) (descriptor : PluginDescriptor)
      (staged : Bool)
  | provide (f : FiberId) (scope : ScopeId) (key : ServiceSymbol)
  | handle (f : FiberId) (scope : ScopeId) (key : InvocationKey)
  | intercept (f : FiberId) (scope : ScopeId) (key : InvocationKey)
  | ownScope (f : FiberId) (scope : ScopeId)
  | commitReload (old staged : FiberId) (staging target : ScopeId)
  | sweepFiber (f : FiberId)
  | sweepScope (s : ScopeId)
  | beginShutdown

namespace Runtime

variable (rt : Runtime)

/-! ## Registry effects -/

/-- `GenerationSelector::switch`. -/
def switch (plugin : PluginId) (expected next : GenerationId) : Runtime :=
  if rt.selectors plugin = expected then
    { rt with selectors := Function.update rt.selectors plugin next }
  else rt

/-- `DependencyGraph::add_dependency`. -/
def addDependency (key : ServiceSymbol) (f : FiberId) : Runtime :=
  { rt with dependents := fun k => if k = key then rt.dependents k ++ [f] else rt.dependents k }

/-- `DependencyGraph::add_provider`. -/
def addProvider (s : ScopeId) (key : ServiceSymbol) (f : FiberId) : Runtime :=
  { rt with declared := fun s' k =>
      if s' = s ∧ k = key then rt.declared s' k ++ [f] else rt.declared s' k }

/-- `remove_dependency` for every dependency. -/
def removeDependencies (deps : List ServiceSymbol) (f : FiberId) : Runtime :=
  { rt with dependents := fun k =>
      if k ∈ deps then (rt.dependents k).filter (· ≠ f) else rt.dependents k }

/-- `remove_provider` for every provision. -/
def removeProviders (s : ScopeId) (provisions : List ServiceSymbol) (f : FiberId) : Runtime :=
  { rt with declared := fun s' k =>
      if s' = s ∧ k ∈ provisions then (rt.declared s' k).filter (· ≠ f) else rt.declared s' k }

/-- `scope.fibers.retain(|id| *id != fiber)`. -/
def delist (s : ScopeId) (f : FiberId) : Runtime :=
  rt.modifyScope s fun c => { c with fibers := c.fibers.filter (· ≠ f) }

/-- What a section on Fiber `f`, which led from `c` to `c'`, does to the registries. -/
def fiberEffect (f : FiberId) (c c' : FiberCell) : FiberLabel → Runtime → Runtime
  | .callDispose .., rt | .activationDispose _, rt =>
    -- `capabilities.close()` of the call that opens a round
    if c.inner.disposal.phase = .Idle ∧ c'.inner.disposal.phase = .Tasks then
      rt.switch c.plugin c.inner.capabilities.generation .NONE
    else rt
  | .activationBegin _ admitted _, rt =>
    if admitted ∧ c.inner.state = .WaitingDependencies ∧ c.inner.disposal.phase = .Complete then
      { rt with nextGeneration :=
          Function.update rt.nextGeneration c.plugin (rt.nextGeneration c.plugin + 1) }
    else rt
  | .activationCommit .., rt =>
    -- `capabilities.publish()` of a commit that went through
    if c.inner.state = .Starting ∧ c'.inner.state = .Active then
      rt.switch c.plugin .NONE c.inner.capabilities.generation
    else rt
  | .unregister, rt =>
    -- what leaves the ledger leaves the registry
    { rt with
      handlers := fun id =>
        if id ∈ c.inner.invocationHandlers ∧ id ∉ c'.inner.invocationHandlers then none
        else rt.handlers id
      middleware := fun id =>
        if id ∈ c.inner.invocationMiddleware ∧ id ∉ c'.inner.invocationMiddleware then none
        else rt.middleware id }
  | .withdrawRemove, rt =>
    match c.worker with
    | some (.removing _ key) => (rt.takeService c.inner.scope key).1
    | _ => rt
  | .indexCleanup, rt =>
    match c.worker with
    | some (.finalizing _ _ _ (some scope)) =>
      ((rt.removeDependencies c.inner.descriptor.dependencies f).removeProviders scope
        c.inner.descriptor.provisions f).delist scope f
    | _ => rt
  | .installIndex, rt =>
    -- into the Scope of the call, wherever the Fiber is by now
    match c.installer with
    | .indexing done =>
      match c.inner.descriptor.dependencies[done]? with
      | some key => rt.addDependency key f
      | none =>
        match c.inner.descriptor.provisions[done - c.inner.descriptor.dependencies.length]? with
        | some key => rt.addProvider c.origin key f
        | none => rt
    | _ => rt
  | .installRemove, rt =>
    -- `remove_unstarted_fiber`
    if c.inArena then
      ((rt.delist c.inner.scope f).removeDependencies c.inner.descriptor.dependencies f).removeProviders
        c.inner.scope c.inner.descriptor.provisions f
    else rt
  | _, rt => rt

/-! ## What the registries answer -/

/-- `InvocationRegistry::validate_activation`. -/
def validateActivation (handlerIds middlewareIds : List Nat) : Outcome := do
  handlerIds.forM fun id =>
    match rt.handlers id with
    | none => .error .FiberNotFound
    | some entry =>
      let duplicate := (List.range rt.nextHandler).any fun candidateId =>
        (rt.handlers candidateId).any fun candidate =>
          candidateId ≠ id ∧ (rt.visible candidate.gate ∨ candidateId ∈ handlerIds) ∧
            candidate.scope = entry.scope ∧ candidate.key = entry.key
      if duplicate then .error (.DuplicateInvocationHandler entry.key) else .ok ()
  if middlewareIds.any fun id => (rt.middleware id).isNone then .error .FiberNotFound else .ok ()

/-- The registry checks of `commit_activation`. -/
def checkActivation (f : FiberId) (c : FiberCell) : Outcome := do
  if !rt.admission then .error .RuntimeShuttingDown else .ok ()
  c.inner.provided.forM fun key =>
    match rt.services c.inner.scope key with
    | none => .error (.Invariant "activation service disappeared")
    | some entry =>
      if entry.owner ≠ f then .error (.Invariant "activation service owner changed") else .ok ()
  rt.validateActivation c.inner.invocationHandlers c.inner.invocationMiddleware

/-- The label with what the section reads in the registries in place of its free arguments; `none`
when the section cannot run now or has a label of its own. -/
def answered (f : FiberId) (c : FiberCell) : FiberLabel → Option FiberLabel
  | .activationBegin n _ _ =>
    some (.activationBegin n rt.admission (.ok (rt.nextGeneration c.plugin)))
  | .activationSeal n _ => some (.activationSeal n rt.admission)
  | .activationCheck n _ => some (.activationCheck n (rt.checkActivation f c))
  | .activationCommit n _ _ =>
    -- the guard of the check is held still, so `begin_shutdown` has not returned
    some (.activationCommit n (if rt.admission then .ok () else .error .RuntimeShuttingDown)
      (rt.selectors c.plugin))
  | .childRequested _ =>
    match c.worker with
    | some (.childPicked child) => some (.childRequested (rt.scope child).isSome)
    | _ => none
  | .childDisposed _ =>
    match c.worker with
    | some (.childDisposing child) =>
      ((rt.scopes child).bind (·.published)).map fun o => .childDisposed o.legacyResult
    | _ => none
  | .withdrawLook _ =>
    match c.worker with
    | some (.withdrawn _ key) => some (.withdrawLook ((rt.services c.inner.scope key).any (·.owner == f)))
    | _ => none
  | .installValidate _ => some (.installValidate rt.validateDependencyGraph)
  | .installCheck _ =>
    some (.installCheck (rt.dependenciesMet c.inner.scope c.inner.descriptor.dependencies))
  | .cutover .. | .reloadSuperseded => none
  | .register (.effect id) => if rt.admission then some (.register (.effect id)) else none
  | .register (.handler id) => if rt.admission then some (.register (.handler id)) else none
  | .register (.task id) => if rt.admission then some (.register (.task id)) else none
  | .register _ => none
  | l => some l

/-- A section on one Fiber. -/
def fiberStep (f : FiberId) (l : FiberLabel) : Option Runtime := do
  let c ← rt.fibers f
  let l ← rt.answered f c l
  let c' ← c.step l
  pure (fiberEffect f c c' l (rt.setFiber f c'))

/-- The record section of `dispose_fiber_observation`, whose caller has found the Fiber: the call that is to be
awaited. -/
def disposeFound (f : FiberId) (waitForDependencies persistentDrain allowReloadOwned : Bool) :
    Runtime × Except CordisError Nat :=
  match rt.fibers f with
  | none => (rt, .error .FiberNotFound)
  | some c =>
    match c.dispose waitForDependencies persistentDrain allowReloadOwned with
    | (c', answer) =>
      (fiberEffect f c c' (.callDispose waitForDependencies persistentDrain allowReloadOwned)
        (rt.setFiber f c'), answer)

/-! ## Scopes -/

/-- A thread of Scope `s` moves, whether or not the arena still knows the Scope. -/
def modifyScopeCell (s : ScopeId) (f : ScopeCell → ScopeCell) : Runtime :=
  match rt.scopes s with
  | some c => rt.setScope s (f c)
  | none => rt

/-- `dispose_scope_observation` up to the wait. -/
def requestScopeDisposal (s : ScopeId) (persistent : Bool) : Runtime × Outcome :=
  match rt.scope s with
  | none => (rt, .error .ScopeNotFound)
  | some c =>
    let c := { c with persistent := c.persistent || persistent }
    if c.state = .Active then
      (rt.setScope s { c with state := .Disposing, worker := some .copying }, .ok ())
    else (rt.setScope s c, .ok ())

/-- The result that `finalize_scope_disposal` publishes. -/
def finalScopeResult (result : Outcome) (terminated : Bool) : Outcome :=
  if terminated && (match result with
    | .ok () => true
    | .error e => !e.isScopeWorkerError) then
    .error (.ScopeDisposalTerminated (match result with
      | .ok () => "descendant cleanup terminated"
      | .error e => e.display))
  else result

/-- The sections of `dispose_scope_body` and `finalize_scope_disposal` for Scope `s`, whose worker
stands at `pc`. -/
def stepScope (s : ScopeId) (c : ScopeCell) (pc : ScopePc) : ScopeLabel → Option Runtime
  | .copy =>
    match pc with
    | .copying =>
      if c.inArena then
        some (rt.setScope s { c with
          worker := some (.visiting ⟨c.children, c.fibers, c.persistent, [], false⟩) })
      else some (rt.setScope s { c with
        worker := some (.finished (.error (.ScopeDisposalTerminated
          "scope disappeared during traversal")) true) })
    | _ => none
  | .visit =>
    match pc with
    | .visiting t =>
      match t.children.getLast?, t.fibers.getLast? with
      | some child, _ =>
        let t := { t with children := t.children.dropLast }
        match rt.requestScopeDisposal child t.persistent with
        | (rt, .ok ()) =>
          some (rt.modifyScopeCell s fun c => { c with worker := some (.childWaiting t child) })
        | (rt, .error e) =>
          some (rt.modifyScopeCell s fun c => { c with worker := some (.childFailed t child e) })
      | none, some f =>
        let t := { t with fibers := t.fibers.dropLast }
        match rt.fiber f with
        | none => some (rt.setScope s { c with worker := some (.visiting t) })
        | some d =>
          let next : ScopePc := if d.inner.state = .Disposed then .visiting t else .fiberSeen t f
          some (rt.setScope s { c with worker := some next })
      | none, none =>
        some (rt.setScope s { c with
          issues := if c.inArena then t.errors else c.issues
          worker := some (.finished t.result t.terminated) })
    | _ => none
  | .childReturned =>
    match pc with
    | .childWaiting t child =>
      match (rt.scopes child).bind (·.published) with
      | none => none
      | some o =>
        let next : ScopePc :=
          match o.legacyResult with
          | .ok () => .visiting t
          | .error e => .childFailed t child e
        some (rt.setScope s { c with worker := some next })
    | _ => none
  | .childReread =>
    match pc with
    | .childFailed t child e =>
      let committed := (rt.scope child).any (·.state == .Disposed)
      some (rt.setScope s { c with worker := some (.visiting
        (t.failed .ChildScopeCleanup ("child scope " ++ toString child) e committed)) })
    | _ => none
  | .fiberLookup =>
    match pc with
    | .fiberSeen t f =>
      let next : ScopePc := if (rt.fiber f).isSome then .fiberFound t f else .fiberFailed t f .FiberNotFound
      some (rt.setScope s { c with worker := some next })
    | _ => none
  | .fiberCall =>
    match pc with
    | .fiberFound t f =>
      match rt.disposeFound f false t.persistent true with
      | (rt, .ok call) =>
        some (rt.setScope s { c with worker := some (.fiberWaiting t f call) })
      | (rt, .error e) =>
        some (rt.setScope s { c with worker := some (.fiberFailed t f e) })
    | _ => none
  | .fiberReturned =>
    match pc with
    | .fiberWaiting t f call =>
      match (rt.fibers f).bind fun d => (d.calls call).bind fun q => d.published q.round with
      | none => none
      | some o =>
        let next : ScopePc :=
          match o.legacyResult with
          | .ok () => .visiting t
          | .error e => .fiberFailed t f e
        some (rt.setScope s { c with worker := some next })
    | _ => none
  | .fiberReread =>
    match pc with
    | .fiberFailed t f e =>
      let committed := (rt.fiber f).any fun d =>
        d.inner.state = .Disposed ∨ d.inner.state = .WaitingDependencies
      some (rt.setScope s { c with worker := some (.visiting
        (t.failed .FiberDetach ("fiber " ++ toString f) e committed)) })
    | _ => none
  | .workerDied panic =>
    match pc with
    | .finished .. => none
    | _ => some (rt.setScope s { c with worker := some (.finished (.error (match panic with
        | some message => .ScopeDisposalPanicked message
        | none => .ScopeDisposalCancelled)) true) })
  | .finalize =>
    match pc with
    | .finished result terminated =>
      if c.inArena then
        let result := finalScopeResult result terminated
        let rt := rt.setScope s { c with
          state := if terminated then .Terminated else .Disposed
          result := some result
          worker := none
          published := c.published.or (some
            { legacyResult := result
              terminal :=
                if terminated then
                  .Incomplete (match result with
                    | .error e => e
                    | .ok () => .ScopeDisposalTerminated "scope disposal terminated")
                else .Committed
              issues := c.issues }) }
        match c.parent with
        | some parent =>
          if terminated then some rt
          else some (rt.modifyScope parent fun p =>
            { p with children := p.children.filter (· ≠ s) })
        | none => some rt
      else some (rt.setScope s { c with worker := none })
    | _ => none

/-- `create_scope_internal`, and the insertion in `Context::create_scope`. -/
def createScope (parent : ScopeId) (hidden : Bool) : Option Runtime :=
  if rt.admission ∧ (rt.scope parent).any (·.state == .Active) then
    let id := rt.nextScope
    let rt := { rt.setScope id (.created (some parent) hidden) with nextScope := id + 1 }
    some (rt.modifyScope parent fun c => { c with children := c.children ++ [id] })
  else none

/-! ## Installs and Context calls -/

/-- `install_arc` under the lock of the Scopes: the Fiber is inserted. -/
def insertFiber (scope : ScopeId) (plugin : Option PluginId) (descriptor : PluginDescriptor)
    (staged : Bool) : Option Runtime :=
  if rt.admission ∧ (rt.scope scope).any (·.state == .Active) then
    let id := rt.nextFiber
    let plugin := plugin.getD rt.nextPlugin
    let generation := rt.nextGeneration plugin
    let rt := { rt.setFiber id (.created id plugin scope descriptor generation staged) with
      nextFiber := id + 1
      nextPlugin := max rt.nextPlugin (plugin + 1)
      nextGeneration := Function.update rt.nextGeneration plugin (generation + 1) }
    some (rt.modifyScope scope fun c => { c with fibers := c.fibers ++ [id] })
  else none

/-- A Context of Fiber `c` was admitted for `scope`: the Fiber's Scope now, or the one it had when
the Context was created. -/
def contextScope (c : FiberCell) (scope : ScopeId) : Bool :=
  scope == c.inner.scope || scope == c.origin

/-- A Context call of Fiber `f` that adds `entry` to the ledger. -/
def registerEntry (f : FiberId) (scope : ScopeId) (entry : Registration) : Option Runtime :=
  match rt.fibers f with
  | none => none
  | some c =>
    if rt.admission ∧ contextScope c scope then
      (c.step (.register entry)).map fun c' => rt.setFiber f c'
    else none

/-- `Context::provide_arc`. -/
def provide (f : FiberId) (scope : ScopeId) (key : ServiceSymbol) : Option Runtime :=
  match rt.fibers f with
  | none => none
  | some c =>
    if rt.services scope key = none then
      (rt.registerEntry f scope (.provided key)).map fun rt =>
        rt.insertService scope key ⟨f, scope, gateOf c⟩
    else none

/-- The test of `register_handler`: the Scope has an entry for the key that is visible, or has the gate of `c`. -/
def duplicateHandler (c : FiberCell) (scope : ScopeId) (key : InvocationKey) : Bool :=
  (List.range rt.nextHandler).any fun id =>
    (rt.handlers id).any fun entry =>
      (rt.visible entry.gate ∨ entry.gate = gateOf c) ∧ entry.scope = scope ∧ entry.key = key

/-- `register_handler` past its test. -/
def insertHandler (f : FiberId) (c : FiberCell) (scope : ScopeId) (key : InvocationKey) : Option Runtime :=
  let id := rt.nextHandler
  (rt.registerEntry f scope (.invocationHandler id)).map fun rt => { rt with
    handlers := Function.update rt.handlers id (some ⟨scope, key, gateOf c⟩)
    nextHandler := id + 1 }

/-- `Context::handle_invocation`. -/
def handle (f : FiberId) (scope : ScopeId) (key : InvocationKey) : Option Runtime :=
  match rt.fibers f with
  | none => none
  | some c => if rt.duplicateHandler c scope key then none else rt.insertHandler f c scope key

/-- `Context::invocation_middleware`. -/
def intercept (f : FiberId) (scope : ScopeId) (key : InvocationKey) : Option Runtime :=
  match rt.fibers f with
  | none => none
  | some c =>
    let id := rt.nextMiddleware
    (rt.registerEntry f scope (.invocationMiddleware id)).map fun rt => { rt with
      middleware := Function.update rt.middleware id (some ⟨scope, key, gateOf c, id⟩)
      nextMiddleware := id + 1 }

/-- `Context::create_scope`. -/
def ownScope (f : FiberId) (scope : ScopeId) : Option Runtime :=
  (rt.createScope scope false).bind fun rt' =>
    rt'.registerEntry f scope (.childScope rt.nextScope)

/-- The reload transaction of `old`, which holds the mutex of `old`, reaches the cutover to the Fiber
it has staged; `commit` is the cutover. -/
def reloadWith (commit : Runtime × Except CordisError (List Nat)) (old staged : FiberId) : Option Runtime :=
  match (rt.fibers old).bind (·.lifecycle) with
  | some (Operation.reload ReloadPc.reloading) =>
    if (rt.fibers staged).any (·.inner.staged) then
      match commit with
      | (rt, .ok _) =>
        (rt.fibers old).map fun c => rt.setFiber old { c with lifecycle := some (.reload .ended) }
      | (rt, .error _) => some rt
    else none
  | _ => none

def commitReload (old staged : FiberId) (staging target : ScopeId) : Option Runtime :=
  rt.reloadWith (rt.commitStagedRevision old staged staging target) old staged

/-! ## Garbage collection -/

/-- `collect_garbage` forgets a Fiber it has taken out of the arena. -/
def sweepFiber (f : FiberId) : Option Runtime :=
  if (rt.fibers f).any fun c => !c.inArena then
    some { rt with
      dependents := fun k => (rt.dependents k).filter (· ≠ f)
      declared := fun s k => (rt.declared s k).filter (· ≠ f)
      scopes := fun s => (rt.scopes s).map fun c =>
        if c.inArena then { c with fibers := c.fibers.filter (· ≠ f) } else c }
  else none

/-- `collect_garbage` removes a Scope. -/
def sweepScope (s : ScopeId) : Option Runtime :=
  match rt.scope s with
  | none => none
  | some c =>
    if s ≠ root ∧ c.state = .Disposed ∧ c.children = [] ∧ c.fibers = [] then
      some (rt.setScope s { c with inArena := false })
    else none

/-- One critical section of one thread. -/
def step (rt : Runtime) (l : RuntimeLabel) : Option Runtime :=
  match l with
  | .fiber f l => rt.fiberStep f l
  | .scope s l =>
    match rt.scopes s with
    | none => none
    | some c => c.worker.bind fun pc => rt.stepScope s c pc l
  | .disposeScope s persistent => some (rt.requestScopeDisposal s persistent).1
  | .createScope parent hidden => rt.createScope parent hidden
  | .install scope plugin descriptor staged => rt.insertFiber scope plugin descriptor staged
  | .provide f scope key => rt.provide f scope key
  | .handle f scope key => rt.handle f scope key
  | .intercept f scope key => rt.intercept f scope key
  | .ownScope f scope => rt.ownScope f scope
  | .commitReload old staged staging target => rt.commitReload old staged staging target
  | .sweepFiber f => rt.sweepFiber f
  | .sweepScope s => rt.sweepScope s
  | .beginShutdown => some { rt with admission := false }

/-! ## Tasks -/

/-- The tasks of Fiber `f` that have not ended are in its ledger; `owner` names the Fibers of such tasks. -/
def InLedger (owner : Nat → Option FiberId) (nextTask : Nat) (f : FiberId) : Prop :=
  ∀ id < nextTask, owner id = some f → (rt.fibers f).any (fun c => id ∈ c.inner.tasks) = true

instance (owner : Nat → Option FiberId) (nextTask : Nat) (f : FiberId) :
    Decidable (rt.InLedger owner nextTask f) := by
  unfold InLedger
  infer_instance

/-- The section can be made now, as far as tasks are concerned. -/
def tasksReady (owner : Nat → Option FiberId) (nextTask : Nat) : RuntimeLabel → Bool
  -- `cancel_all` joins the tasks that the worker has taken out of the ledger
  | .fiber f (.tasksJoined _) => decide (rt.InLedger owner nextTask f)
  -- `detach_task` comes after the task has ended
  | .fiber _ (.taskDetached id) => (owner id).isNone
  | _ => true

end Runtime

end Cordis
