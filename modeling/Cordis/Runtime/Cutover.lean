import Cordis.Runtime.State

/-!
# The reload cutover

`commit_staged_revision` and the registry operations it is made of. Five registries are changed in
sequence; every failure after the first change undoes the changes made so far with hand-written
inverses.
-/

namespace Cordis

namespace Runtime

variable (rt : Runtime)

/-! ## Invocation registry -/

/-- `InvocationRegistry::validate_revision`. -/
def validateRevision (oldHandlers stagedHandlers : List Nat) (target : ScopeId) : Outcome :=
  stagedHandlers.forM fun id =>
    match rt.handlers id with
    | none => .error .FiberNotFound
    | some entry =>
      let duplicate := (List.range rt.nextHandler).any fun candidateId =>
        match rt.handlers candidateId with
        | none => false
        | some candidate =>
          candidateId ∉ oldHandlers ∧ candidateId ≠ id ∧
            (rt.visible candidate.gate ∨ candidateId ∈ stagedHandlers) ∧
            candidate.scope = target ∧ candidate.key = entry.key
      if duplicate then .error (.DuplicateInvocationHandler entry.key) else .ok ()

/-- `InvocationRegistry::commit_revision`: the registrations of the staged Fiber move to `target`. -/
def commitRevision (stagedHandlers stagedMiddleware : List Nat) (target : ScopeId) : Runtime :=
  { rt with
    handlers := fun id =>
      if id ∈ stagedHandlers then (rt.handlers id).map fun e => { e with scope := target }
      else rt.handlers id
    middleware := fun id =>
      if id ∈ stagedMiddleware then (rt.middleware id).map fun e => { e with scope := target }
      else rt.middleware id }

/-! ## Service registry -/

/-- The check that `prepare_revision` and `commit_revision_and_publish` share: every staged entry is
still the staged Fiber's, and the target holds nothing but entries of the old one. -/
def revisionIntact (source target : ScopeId) (symbols : List ServiceSymbol) (old staged : FiberId) :
    Bool :=
  symbols.all fun symbol =>
    (rt.services source symbol).any (·.owner == staged) &&
      (rt.services target symbol).all (·.owner == old)

/-- `CapabilityGate::cutover_from`, on the selector: the staged generation replaces the old one. -/
def cutoverFrom (staged old : FiberCell) : Option Runtime :=
  if staged.inner.capabilities.retired ∨ staged.plugin ≠ old.plugin ∨
      rt.selectors old.plugin ≠ old.inner.capabilities.generation then none
  else some { rt with
    selectors := Function.update rt.selectors staged.plugin staged.inner.capabilities.generation }

/-- Removes the entry of `symbol` from `scope` and returns it. -/
def takeService (scope : ScopeId) (symbol : ServiceSymbol) : Runtime × Option ServiceEntry :=
  ({ rt with services := fun s k => if s = scope ∧ k = symbol then none else rt.services s k },
    rt.services scope symbol)

/-- `ServiceRegistry::insert`: the entry is filed under `scope`. -/
def insertService (scope : ScopeId) (symbol : ServiceSymbol) (entry : ServiceEntry) : Runtime :=
  { rt with services := fun s k =>
      if s = scope ∧ k = symbol then some { entry with scope := scope } else rt.services s k }

/-- The first loop of the commit: the staged entries are taken out. -/
def takeServices (scope : ScopeId) : List ServiceSymbol →
    Runtime → Runtime × List (ServiceSymbol × ServiceEntry)
  | [], rt => (rt, [])
  | symbol :: rest, rt =>
    match rt.takeService scope symbol with
    | (rt', none) => takeServices scope rest rt'
    | (rt', some entry) =>
      let (rt'', taken) := takeServices scope rest rt'
      (rt'', (symbol, entry) :: taken)

/-- `ServiceRegistry::commit_revision_and_publish`. -/
def commitRevisionAndPublish (source target : ScopeId) (symbols : List ServiceSymbol)
    (old staged : FiberId) (stagedCell oldCell : FiberCell) : Except CordisError Runtime :=
  if !rt.revisionIntact source target symbols old staged then
    .error (.RevisionValidationFailed "prepared service revision changed before commit")
  else
    match rt.cutoverFrom stagedCell oldCell with
    | none => .error (.CapabilityPublicationFailed staged)
    | some rt =>
      let (rt, taken) := takeServices source symbols rt
      .ok (taken.foldl (fun rt p => rt.insertService target p.1 p.2) rt)

/-! ## Dependency graph -/

/-- One symbol of `move_providers`. -/
def moveProvider (source target : ScopeId) (fiber : FiberId) (rt : Runtime)
    (symbol : ServiceSymbol) : Runtime :=
  let rt : Runtime := { rt with declared := fun s k =>
    if s = source ∧ k = symbol then (rt.declared s k).filter (· ≠ fiber) else rt.declared s k }
  { rt with declared := fun s k =>
    if s = target ∧ k = symbol then rt.declared s k ++ [fiber] else rt.declared s k }

/-- `DependencyGraph::move_providers`. -/
def moveProviders (source target : ScopeId) (symbols : List ServiceSymbol) (fiber : FiberId) :
    Except CordisError Runtime :=
  if ¬ symbols.Nodup then
    .error (.RevisionValidationFailed "dependency provider revision contains duplicate symbols")
  else if symbols.any fun symbol =>
      (rt.declared source symbol).count fiber ≠ 1 ∨ fiber ∈ rt.declared target symbol ∨
        (List.range rt.nextScope).any fun scope =>
          scope ≠ source ∧ fiber ∈ rt.declared scope symbol then
    .error (.RevisionValidationFailed
      "dependency provider topology changed before reload revision")
  else .ok (symbols.foldl (moveProvider source target fiber) rt)

/-! ## Scope tree -/

/-- `PreparedScopeRevision`. -/
structure PreparedScopeRevision where
  staging : ScopeId
  target : ScopeId
  staged : FiberId
  old : FiberId
  children : List ScopeId

/-- `PreparedScopeRevision::prepare`. -/
def prepareScopeRevision (p : PreparedScopeRevision) : Outcome :=
  match rt.scope p.staging, rt.scope p.target with
  | none, _ | _, none => .error .ScopeNotFound
  | some staging, some target =>
    if staging.state ≠ .Active ∨ target.state ≠ .Active ∨ p.staged ∉ staging.fibers ∨
        p.old ∉ target.fibers ∨
        p.children.any fun child => (rt.scope child).all (·.parent ≠ some p.staging) then
      .error (.RevisionValidationFailed "prepared scope topology changed before reload commit")
    else .ok ()

/-- The staged Fiber is listed in no Scope but `s`. -/
def listedOnlyIn (s : ScopeId) (fiber : FiberId) : Bool :=
  (List.range rt.nextScope).all fun id =>
    id = s ∨ (rt.scope id).all fun record => fiber ∉ record.fibers

/-- The loop over the children: their parent becomes `s`. -/
def adopt (s : ScopeId) (children : List ScopeId) (rt : Runtime) : Runtime :=
  children.foldl (fun rt child => rt.modifyScope child fun c => { c with parent := some s }) rt

/-- The changes that `commit_locked` and `rollback_locked` make: the staged Fiber and its child Scopes
leave `source` and join `dest`. -/
def relocate (source dest : ScopeId) (fiber : FiberId) (children : List ScopeId) : Runtime :=
  let rt := rt.modifyScope source fun c => { c with
    fibers := c.fibers.filter (· ≠ fiber)
    children := c.children.filter (· ∉ children) }
  let rt := rt.modifyScope dest fun c => { c with
    fibers := c.fibers ++ [fiber]
    children := c.children ++ children }
  adopt dest children rt

/-- `PreparedScopeRevision::commit_locked`. -/
def commitLocked (p : PreparedScopeRevision) : Except CordisError Runtime :=
  let valid :=
    (rt.scope p.staging).any (fun record =>
      record.state = .Active ∧ record.fibers.count p.staged = 1 ∧
        p.children.all (· ∈ record.children)) &&
    (rt.scope p.target).any (fun record =>
      record.state = .Active ∧ record.fibers.count p.old = 1 ∧ p.staged ∉ record.fibers ∧
        p.children.all (· ∉ record.children)) &&
    rt.listedOnlyIn p.staging p.staged &&
    p.children.all fun child => (rt.scope child).any (·.parent = some p.staging)
  if !valid then
    .error (.RevisionValidationFailed "scope topology changed before reload commit")
  else .ok (rt.relocate p.staging p.target p.staged p.children)

/-- `PreparedScopeRevision::rollback_locked`. -/
def rollbackLocked (p : PreparedScopeRevision) : Except CordisError Runtime :=
  let valid :=
    (rt.scope p.target).any (fun record =>
      record.state = .Active ∧ record.fibers.count p.old = 1 ∧
        record.fibers.count p.staged = 1 ∧ p.children.all (· ∈ record.children)) &&
    (rt.scope p.staging).any (fun record =>
      record.state = .Active ∧ p.staged ∉ record.fibers ∧
        p.children.all (· ∉ record.children)) &&
    rt.listedOnlyIn p.target p.staged &&
    p.children.all fun child => (rt.scope child).any (·.parent = some p.target)
  if !valid then
    .error (.RevisionValidationFailed "scope topology changed before reload rollback")
  else .ok (rt.relocate p.target p.staging p.staged p.children)

/-! ## The transaction -/

/-- The outcome of an inverse operation: the state it leaves and the error to report. -/
def undo (r : Except CordisError Runtime) (rt : Runtime) : Runtime × List CordisError :=
  match r with
  | .ok rt => (rt, [])
  | .error e => (rt, [e])

/-- The second half of `commit_staged_revision`: the prepared revisions are committed in sequence
under the Fiber and Scope locks, and undone when one of them fails. -/
def commitPrepared (p : PreparedScopeRevision) (oldCell stagedCell : FiberCell) :
    Runtime × Except CordisError (List Nat) :=
  let provided := stagedCell.inner.provided
  let handlers := stagedCell.inner.invocationHandlers
  let middleware := stagedCell.inner.invocationMiddleware
  let provisions := stagedCell.inner.descriptor.provisions
  match rt.moveProviders p.staging p.target provisions p.staged with
  | .error e => (rt, .error e)
  | .ok rt =>
  match rt.commitLocked p with
  | .error e =>
    let (rt, cleanup) := undo (rt.moveProviders p.target p.staging provisions p.staged) rt
    (rt, .error (.ReloadFailed e cleanup))
  | .ok rt =>
  let rt := rt.commitRevision handlers middleware p.target
  match rt.commitRevisionAndPublish p.staging p.target provided p.old p.staged stagedCell
    oldCell with
  | .error e =>
    let rt := rt.commitRevision handlers middleware p.staging
    let (rt, cleanup) := undo (rt.rollbackLocked p) rt
    let (rt, cleanup') := undo (rt.moveProviders p.target p.staging provisions p.staged) rt
    (rt, .error (.ReloadFailed e (cleanup ++ cleanup')))
  | .ok rt =>
    let rt := rt.setFiber p.old { oldCell with
      inner := { oldCell.inner with capabilities := oldCell.inner.capabilities.close } }
    let rt := rt.setFiber p.staged { stagedCell with inner := stagedCell.inner.cutover p.target }
    (rt, .ok stagedCell.inner.handlers)

/-- `commit_staged_revision`, where `valid` stands for `validate_revision`. The answer on success is the staged
Fiber's handler ledger. -/
def commitRevisionIf (valid : FiberCell → FiberCell → Outcome) (old staged : FiberId) (staging target : ScopeId) :
    Runtime × Except CordisError (List Nat) :=
  if !rt.admission then (rt, .error .RuntimeShuttingDown) else
  match rt.fiber old, rt.fiber staged with
  | none, _ | _, none => (rt, .error .FiberNotFound)
  | some oldCell, some stagedCell =>
    if oldCell.inner.state ≠ .Reloading then
      (rt, .error (.InvalidFiberState old oldCell.inner.state .Active))
    else if stagedCell.inner.state ≠ .Active ∨
        stagedCell.inner.capabilities.isStaged (rt.selectors stagedCell.plugin) = false then
      (rt, .error (.CapabilityPublicationFailed staged))
    else
    match valid oldCell stagedCell with
    | .error e => (rt, .error e)
    | .ok () =>
    match stagedCell.inner.provided.find? fun key =>
      (rt.services target key).any (·.owner ≠ old) with
    | some key => (rt, .error (.DuplicateService key))
    | none =>
    if !rt.revisionIntact staging target stagedCell.inner.provided old staged then
      (rt, .error (.RevisionValidationFailed "staged service disappeared or changed owner"))
    else
    let prepared : PreparedScopeRevision :=
      ⟨staging, target, staged, old, stagedCell.inner.childScopes⟩
    match rt.prepareScopeRevision prepared with
    | .error e => (rt, .error e)
    | .ok () => rt.commitPrepared prepared oldCell stagedCell

/-- `commit_staged_revision`. -/
def commitStagedRevision (old staged : FiberId) (staging target : ScopeId) :
    Runtime × Except CordisError (List Nat) :=
  rt.commitRevisionIf (fun oldCell stagedCell => rt.validateRevision oldCell.inner.invocationHandlers
    stagedCell.inner.invocationHandlers target) old staged staging target

end Runtime

end Cordis
