import Cordis.Fiber.Control

/-!
# What a section writes to the record

`Writes` inverts the step function for the record of a Fiber: one constructor for each write of the source, with
what the section has seen when it makes the write. The ledgers, the gate, the seat and the start barrier of a Fiber
are followed through it.
-/

namespace Cordis

/-- The section is the start of a disposal that a caller asks for. -/
inductive FiberLabel.Asks : FiberLabel → Bool → Bool → Prop
  | call (w p a : Bool) : Asks (.callDispose w p a) w a
  | cleanup (n : Nat) : Asks (.activationDispose n) false true

variable {c c' : FiberCell} {l : FiberLabel}

theorem FiberLabel.Asks.requests {w a : Bool} (h : l.Asks w a) : l.Requests w := by
  cases h with
  | call w p a => exact .inl ⟨p, a, rfl⟩
  | cleanup n => exact .inr ⟨rfl, n, rfl⟩

/-- The disposal worker is done with stage `pc`, goes on at `q` and writes the phase. -/
inductive DisposalPc.Done (r : FiberMutable) : DisposalPc → DisposalPc → DisposalPhase → Prop
  | drained (idle : r.capabilities.execution.inflight = 0) : Done r .draining .children .ChildScopes
  | childless (empty : r.childScopes = []) : Done r .children .unregistering .Handlers
  | unregistered (handlers : r.handlers = []) (invocation : r.invocationHandlers = [])
      (middleware : r.invocationMiddleware = []) : Done r .unregistering (.withdrawing []) .Services
  | withdrawn (removed : List ServiceSymbol) (empty : r.provided = []) :
      Done r (.withdrawing removed) (.cleaning removed) .Effects
  | cleaned (removed : List ServiceSymbol) (empty : r.effects = []) :
      Done r (.cleaning removed) (.reconciling removed) .Reconciling
  | ended (result result' : Outcome) (target : Option FiberState) (terminated : Bool) (indexes : Option ScopeId) :
      Done r (.finished result target terminated) (.finalizing result' target terminated indexes) .Finalizing

/-- What section `l` writes to the record of `c`. -/
inductive FiberCell.Writes (l : FiberLabel) (c c' : FiberCell) : Prop
  | kept (label : ∀ entry, l ≠ .register entry) (refused : ∀ w, l.Requests w → c'.control = c.control)
      (inner : c'.inner = c.inner)
  | joined (w p a : Bool) (label : l.Asks w a) (claim : c.inner.reloadOwned = true → a = true)
      (inner : c'.inner = { c.inner with
        reloadOwned := false
        disposal := { c.inner.disposal with
          waitForDependencies := c.inner.disposal.waitForDependencies && w
          persistentDrain := c.inner.disposal.persistentDrain || p } })
  | opened (w p a : Bool) (label : l.Asks w a) (claim : c.inner.reloadOwned = true → a = true)
      (idle : c.inner.disposal.phase = .Idle)
      (inner : c'.inner = { c.inner with
        state := .Disposing
        cancelled := true
        capabilities := c.inner.capabilities.close
        activation := false
        activationSealed := false
        reloadOwned := false
        disposal := { c.inner.disposal with
          waitForDependencies := c.inner.disposal.waitForDependencies && w
          persistentDrain := c.inner.disposal.persistentDrain || p
          phase := .Tasks } })
  | halted (n : Nat) (e : CordisError) (label : l = .activationBegin n true (.error e))
      (inner : c'.inner = { c.inner with disposal := .fresh c.nextCompletion, cancelled := false })
  | renewed (n : Nat) (g : GenerationId) (label : l = .activationBegin n true (.ok g))
      (was : c.activations n = some .locked) (now : c'.activations n = some .selecting)
      (waiting : c.inner.state = .WaitingDependencies) (complete : c.inner.disposal.phase = .Complete)
      (inner : c'.inner = FiberMutable.starting { c.inner with
        disposal := .fresh c.nextCompletion
        cancelled := false
        generation := g
        capabilities := .staged g })
  | started (n : Nat) (fresh : Except CordisError GenerationId) (label : l = .activationBegin n true fresh)
      (was : c.activations n = some .locked) (now : c'.activations n = some .selecting)
      (idle : c.inner.state = .Created ∨ c.inner.state = .WaitingDependencies)
      (inner : c'.inner = c.inner.starting)
  | sealed (n : Nat) (label : l = .activationSeal n true) (was : c.activations n = some .started)
      (starting : c.inner.state = .Starting) (inner : c'.inner = { c.inner with activationSealed := true })
  | deferred (n : Nat) (label : l = .activationDefer n) (was : c.activations n = some .deferring)
      (now : c'.activations n = some .committed) (inner : c'.inner = c.inner.deferActivation)
  | committed (n : Nat) (label : l = .activationCommit n (.ok ()) .NONE) (was : c.activations n = some .checked)
      (now : c'.activations n = some .committed) (starting : c.inner.state = .Starting)
      (live : c.inner.capabilities.retired = false)
      (inner : c'.inner = { c.inner with
        staged := false
        state := .Active
        activationSealed := false
        activation := false })
  | failed (n : Nat) (e : CordisError) (label : l = .activationFail n) (was : c.activations n = some (.unlocked e))
      (inner : c'.inner = c.inner.failActivation)
  | emptied (label : l = .takeTasks) (worker : c.worker = some .locked)
      (inner : c'.inner = { c.inner with tasks := [], cancelled := true })
  | draining (outcome : Outcome) (errors : List CleanupIssue) (label : l = .tasksJoined outcome)
      (worker : c.worker = some .cancelling)
      (inner : c'.inner = { c.inner with
        disposal := { c.inner.disposal with errors := errors, phase := .Draining }
        capabilities := { c.inner.capabilities with
          execution := c.inner.capabilities.execution.beginDraining } })
  /-- The gate that the worker holds is drained also when the Fiber has left the arena. -/
  | detachedDraining (outcome : Outcome) (label : l = .tasksJoined outcome) (worker : c.worker = some .cancelling)
      (inner : c'.inner = { c.inner with
        capabilities := { c.inner.capabilities with
          execution := c.inner.capabilities.execution.beginDraining } })
  | advanced (pc q : DisposalPc) (p : DisposalPhase) (worker : c.worker = some pc) (now : c'.worker = some q)
      (done : pc.Done c.inner q p) (label : ∀ entry, l ≠ .register entry) (asked : ∀ w, ¬ l.Requests w)
      (inner : c'.inner = c.inner.setDisposalPhase p)
  | childDone (child : ScopeId) (outcome : Outcome) (errors : List CleanupIssue)
      (worker : ∃ pc, c.worker = some pc)
      (label : l = .childRequested false ∨ l = .childDisposed outcome)
      (inner : c'.inner = { c.inner with
        disposal := { c.inner.disposal with errors := errors }
        childScopes := c.inner.childScopes.filter (· ≠ child) })
  | handlerTaken (label : l = .unregister) (worker : c.worker = some .unregistering)
      (inner : c'.inner = { c.inner with handlers := c.inner.handlers.dropLast })
  | invocationHandlerTaken (label : l = .unregister) (worker : c.worker = some .unregistering)
      (inner : c'.inner = { c.inner with invocationHandlers := c.inner.invocationHandlers.dropLast })
  | middlewareTaken (label : l = .unregister) (worker : c.worker = some .unregistering)
      (inner : c'.inner = { c.inner with invocationMiddleware := c.inner.invocationMiddleware.dropLast })
  | withdrawn (removed : List ServiceSymbol) (label : l = .withdraw)
      (worker : c.worker = some (.withdrawing removed))
      (inner : c'.inner = { c.inner with provided := c.inner.provided.dropLast })
  | effectTaken (removed : List ServiceSymbol) (id : Nat) (label : l = .takeEffect)
      (worker : c.worker = some (.cleaning removed)) (arena : c.inArena = true)
      (last : c.inner.effects.getLast? = some id)
      (inner : c'.inner = { c.inner with effects := c.inner.effects.dropLast })
  | reported (outcome : Outcome) (errors : List CleanupIssue) (worker : ∃ pc, c.worker = some pc)
      (label : l = .effectDisposed outcome ∨ l = .reconciled outcome)
      (inner : c'.inner = { c.inner with disposal := { c.inner.disposal with errors := errors } })
  | finalized (result : Outcome) (target : Option FiberState) (terminated : Bool) (label : l = .finalizeCommit)
      (worker : c.worker = some (.indexed result target terminated))
      (inner : c'.inner = { c.inner with
        state := if terminated then c.inner.state else target.getD c.inner.state
        disposal := { c.inner.disposal with
          result := some result
          phase := if terminated then .Terminated else .Complete } })
  | marked (label : l = .reloadTransition) (was : c.lifecycle = some (.reload .checked))
      (now : c'.lifecycle = some (.reload .reloading)) (active : c.inner.state = .Active)
      (inner : c'.inner = { c.inner with state := .Reloading })
  | restored (label : l = .reloadRollback) (was : c.lifecycle = some (.reload .reloading))
      (legal : c.inner.state = .Reloading ∨ c.inner.state = .Starting)
      (inner : c'.inner = { c.inner with state := .Active })
  | superseded (label : l = .reloadSuperseded)
      (inner : c'.inner = { c.inner with capabilities := c.inner.capabilities.close })
  | parked (label : l = .installWait) (inner : c'.inner = { c.inner with state := .WaitingDependencies })
  | cutover (target : ScopeId) (active : GenerationId) (label : l = .cutover target active)
      (active : c.inner.state = .Active) (inner : c'.inner = c.inner.cutover target)
  | hostFailed (generation : GenerationId) (label : l = .hostFailure generation)
      (inner : c'.inner = { c.inner with state := .Failed })
  | registered (entry : Registration) (label : l = .register entry) (accepts : c.accepts entry = true)
      (inner : c'.inner = FiberCell.registered entry c.inner)
  | detached (task : Nat) (label : l = .taskDetached task)
      (inner : c'.inner = { c.inner with tasks := c.inner.tasks.filter (· ≠ task) })
  | acquired (label : l = .acquireLease) (accepting : c.inner.capabilities.execution.accepting = true)
      (inner : c'.inner = { c.inner with capabilities := { c.inner.capabilities with
        execution := ⟨true, c.inner.capabilities.execution.inflight + 1⟩ } })
  | dropped (label : l = .dropLease) (inflight : Nat) (held : c.inner.capabilities.execution.inflight =
      inflight + 1)
      (inner : c'.inner = { c.inner with capabilities := { c.inner.capabilities with
        execution := ⟨c.inner.capabilities.execution.accepting, inflight⟩ } })

namespace FiberCell.Writes

theorem same (inner : c'.inner = c.inner) (hentry : ∀ entry, l ≠ .register entry)
    (hask : ∀ w, ¬ l.Requests w) : c.Writes l c' :=
  .kept hentry (fun w hw => absurd hw (hask w)) inner

end FiberCell.Writes

theorem writes_dispose {w p a : Bool} (hl : l.Asks w a) (hinner : c'.inner = (c.dispose w p a).1.inner)
    (hcontrol : c'.control = (c.dispose w p a).1.control) : c.Writes l c' := by
  unfold FiberCell.dispose FiberMutable.requestDisposal at hinner hcontrol
  by_cases hrefused : (c.inner.reloadOwned && !a) = true
  · simp only [if_pos hrefused] at hinner hcontrol
    refine .kept (fun entry => ?_) (fun _ _ => hcontrol) hinner
    cases hl <;> simp
  have hfree : (c.inner.reloadOwned && !a) = false := by simpa using hrefused
  have hclaim : c.inner.reloadOwned = true → a = true := by
    intro howned
    simpa [howned] using hfree
  simp only [hfree, Bool.false_eq_true, if_false] at hinner
  by_cases hidle : c.inner.disposal.phase = .Idle
  · simp only [if_pos hidle] at hinner
    split_ifs at hinner
    · exact .joined w p a hl hclaim hinner
    · exact .opened w p a hl hclaim hidle hinner
  · simp only [if_neg hidle] at hinner
    exact .joined w p a hl hclaim hinner

theorem writes_activation {n : Nat} {pc : ActivationPc} (hl : l.call? = some n) (hpc : c.activations n = some pc)
    (h : c.stepActivation n pc l = some c') : c.Writes l c' := by
  cases l <;> simp only [FiberLabel.call?, reduceCtorEq, Option.some.injEq] at hl <;> subst hl <;>
    simp only [FiberCell.stepActivation] at h
  case activationBegin admitted fresh =>
    split at h <;> try contradiction
    cases admitted with
    | false =>
      cases h
      exact .same rfl (by simp) (by simp [FiberLabel.Requests])
    | true =>
      simp only [if_true, FiberMutable.beginActivation] at h
      split_ifs at h with hidle hback
      · cases fresh with
        | error e =>
          cases h
          exact .halted _ e rfl rfl
        | ok g =>
          cases h
          exact .renewed _ g rfl hpc (by simp [FiberCell.setActivation]) hback.1 hback.2 rfl
      · cases h
        exact .started _ fresh rfl hpc (by simp [FiberCell.setActivation]) hidle rfl
      · cases h
        exact .same rfl (by simp) (by simp [FiberLabel.Requests])
  case activationSeal admitted =>
    split at h <;> try contradiction
    unfold FiberMutable.sealActivation at h
    by_cases hstarting : c.inner.state = .Starting
    · simp only [if_pos hstarting] at h
      split_ifs at h with hadmitted <;> cases h
      · obtain ⟨rfl, -⟩ := hadmitted
        exact .sealed _ rfl hpc hstarting rfl
      · exact .same rfl (by simp) (by simp [FiberLabel.Requests])
    · simp only [if_neg hstarting, Bool.false_eq_true, and_false, if_false] at h
      cases h
      exact .same rfl (by simp) (by simp [FiberLabel.Requests])
  case activationDefer =>
    split at h <;> try contradiction
    cases h
    exact .deferred _ rfl hpc (by simp [FiberCell.setActivation]) rfl
  case activationCommit checked active =>
    split at h <;> try contradiction
    split at h
    · cases h
      exact .same rfl (by simp) (by simp [FiberLabel.Requests])
    simp only [FiberMutable.commitActivation] at h
    split_ifs at h with hin hstate hstaged hpublishes <;> cases h
    case neg =>
      simp only [CapabilityGate.publishes, Bool.and_eq_false_iff, not_or] at hpublishes
      have hlive : c.inner.capabilities.retired = false := by simpa using hpublishes.1
      have hnone : active = .NONE := by simpa using hpublishes.2
      subst hnone
      exact .committed _ rfl hpc (by simp [FiberCell.setActivation]) (not_not.mp (not_or.mp hstate).1) hlive rfl
    all_goals exact .same rfl (by simp) (by simp [FiberLabel.Requests])
  case activationFail =>
    split at h <;> try contradiction
    cases h
    unfold FiberCell.withMut
    split_ifs
    · exact .failed _ _ rfl hpc rfl
    · exact .same rfl (by simp) (by simp [FiberLabel.Requests])
  case activationDispose m =>
    obtain ⟨e, pc', -, rfl⟩ := stepDispose_eq (m := m) h
    exact writes_dispose (p := false) (.cleanup m) rfl rfl
  all_goals
    repeat' split at h
    all_goals first
      | contradiction
      | (cases h; exact .same rfl (by simp) (by simp [FiberLabel.Requests]))

theorem pushOutcome_eq (r : FiberMutable) (p : CleanupPhase) (o : Outcome) :
    ∃ errors, r.pushOutcome p o = { r with disposal := { r.disposal with errors := errors } } := by
  cases o with
  | ok => exact ⟨r.disposal.errors, rfl⟩
  | error e => exact ⟨_, rfl⟩

theorem childDone_eq (r : FiberMutable) (child : ScopeId) (o : Outcome) :
    ∃ errors, r.childDone child o = { r with
      disposal := { r.disposal with errors := errors }
      childScopes := r.childScopes.filter (· ≠ child) } := by
  obtain ⟨errors, heq⟩ := pushOutcome_eq r .ChildScopeCleanup o
  refine ⟨errors, ?_⟩
  simp only [FiberMutable.childDone, heq]

theorem writes_withMut {f : FiberMutable → FiberMutable} (hinner : c'.inner = (c.withMut f).inner)
    (hl : ∀ entry, l ≠ .register entry) (hask : ∀ w, ¬ l.Requests w)
    (hf : c.inArena = true → c'.inner = f c.inner → c.Writes l c') : c.Writes l c' := by
  rw [withMut_eq] at hinner
  by_cases hin : c.inArena = true
  · exact hf hin (hinner.trans (if_pos hin))
  · exact .same (hinner.trans (if_neg hin)) hl hask

theorem look_eq_none {α : Type} {f : FiberMutable → Option α} (hin : c.inArena = true) (h : c.look f = none) :
    f c.inner = none := by
  simpa [FiberCell.look, hin] using h

theorem look_eq_some {α : Type} {f : FiberMutable → Option α} {x : α} (h : c.look f = some x) :
    c.inArena = true ∧ f c.inner = some x := by
  unfold FiberCell.look at h
  split_ifs at h with hin
  exact ⟨hin, h⟩

theorem writes_worker {pc : DisposalPc} (hw : c.worker = some pc) (h : c.stepWorker pc l = some c') :
    c.Writes l c' := by
  cases l <;> simp only [FiberCell.stepWorker] at h <;> try contradiction
  case takeTasks =>
    split at h <;> try contradiction
    cases h
    exact .emptied rfl hw rfl
  case tasksJoined outcome =>
    split at h <;> try contradiction
    cases h
    unfold FiberCell.setWorker FiberCell.withMut
    split_ifs
    · cases outcome with
      | ok => exact .draining _ c.inner.disposal.errors rfl hw rfl
      | error => exact .draining _ _ rfl hw rfl
    · exact .detachedDraining outcome rfl hw rfl
  case drained =>
    split at h <;> try contradiction
    split_ifs at h with hzero
    cases h
    exact writes_withMut rfl (by simp) (by simp [FiberLabel.Requests]) fun _ =>
      .advanced _ _ _ hw rfl (.drained hzero) (by simp) (by simp [FiberLabel.Requests])
  case pickChild =>
    split at h <;> try contradiction
    split at h <;> cases h
    · exact .same rfl (by simp) (by simp [FiberLabel.Requests])
    · rename_i hnone
      exact writes_withMut rfl (by simp) (by simp [FiberLabel.Requests]) fun hin =>
        .advanced _ _ _ hw rfl (.childless (List.getLast?_eq_none_iff.mp (look_eq_none hin hnone))) (by simp)
          (by simp [FiberLabel.Requests])
  case childRequested found =>
    split at h <;> try contradiction
    split_ifs at h with hfound <;> cases h
    · exact .same rfl (by simp) (by simp [FiberLabel.Requests])
    · refine writes_withMut rfl (by simp) (by simp [FiberLabel.Requests]) fun _ hinner => ?_
      obtain ⟨errors, heq⟩ := childDone_eq c.inner _ (.error .ScopeNotFound)
      exact .childDone _ (.ok ()) errors ⟨_, hw⟩ (.inl (by simpa using hfound)) (hinner.trans heq)
  case childDisposed outcome =>
    split at h <;> try contradiction
    cases h
    refine writes_withMut rfl (by simp) (by simp [FiberLabel.Requests]) fun _ hinner => ?_
    obtain ⟨errors, heq⟩ := childDone_eq c.inner _ outcome
    exact .childDone _ outcome errors ⟨_, hw⟩ (.inr rfl) (hinner.trans heq)
  case unregister =>
    split at h <;> try contradiction
    split_ifs at h with hhandlers hinvocation hmiddleware hin <;> cases h
    · exact writes_withMut rfl (by simp) (by simp [FiberLabel.Requests]) fun _ => .handlerTaken rfl hw
    · exact writes_withMut rfl (by simp) (by simp [FiberLabel.Requests]) fun _ => .invocationHandlerTaken rfl hw
    · exact writes_withMut rfl (by simp) (by simp [FiberLabel.Requests]) fun _ => .middlewareTaken rfl hw
    · refine writes_withMut rfl (by simp) (by simp [FiberLabel.Requests]) fun _ =>
        .advanced _ _ _ hw rfl (.unregistered ?_ ?_ ?_) (by simp) (by simp [FiberLabel.Requests])
      · simpa [FiberCell.look, hin] using hhandlers
      · simpa [FiberCell.look, hin] using hinvocation
      · simpa [FiberCell.look, hin] using hmiddleware
    · exact .same rfl (by simp) (by simp [FiberLabel.Requests])
  case withdraw =>
    split at h <;> try contradiction
    split at h <;> cases h
    · rename_i hlast
      exact writes_withMut rfl (by simp) (by simp [FiberLabel.Requests]) fun _ => .withdrawn _ rfl hw
    · rename_i hnone
      exact writes_withMut rfl (by simp) (by simp [FiberLabel.Requests]) fun hin =>
        .advanced _ _ _ hw rfl (.withdrawn _ (List.getLast?_eq_none_iff.mp (look_eq_none hin hnone))) (by simp)
          (by simp [FiberLabel.Requests])
  case takeEffect =>
    split at h <;> try contradiction
    split at h <;> cases h
    · rename_i id hlast
      exact writes_withMut rfl (by simp) (by simp [FiberLabel.Requests]) fun hin =>
        .effectTaken _ id rfl hw hin (look_eq_some hlast).2
    · rename_i hnone
      exact writes_withMut rfl (by simp) (by simp [FiberLabel.Requests]) fun hin =>
        .advanced _ _ _ hw rfl (.cleaned _ (List.getLast?_eq_none_iff.mp (look_eq_none hin hnone))) (by simp)
          (by simp [FiberLabel.Requests])
  case effectDisposed outcome =>
    split at h <;> try contradiction
    cases h
    refine writes_withMut rfl (by simp) (by simp [FiberLabel.Requests]) fun _ hinner => ?_
    obtain ⟨errors, heq⟩ := pushOutcome_eq c.inner .EffectCleanup outcome
    exact .reported outcome errors ⟨_, hw⟩ (.inl rfl) (hinner.trans heq)
  case reconciled outcome =>
    split at h <;> try contradiction
    cases h
    refine writes_withMut rfl (by simp) (by simp [FiberLabel.Requests]) fun _ hinner => ?_
    obtain ⟨errors, heq⟩ := pushOutcome_eq c.inner .DependencyCleanup outcome
    exact .reported outcome errors ⟨_, hw⟩ (.inr rfl) (hinner.trans heq)
  case finalizeBegin =>
    split at h <;> try contradiction
    split_ifs at h <;> cases h
    · exact .advanced _ _ _ hw rfl (.ended ..) (by simp) (by simp [FiberLabel.Requests]) rfl
    · exact .same rfl (by simp) (by simp [FiberLabel.Requests])
  case finalizeCommit =>
    split at h <;> try contradiction
    split_ifs at h <;> cases h
    · exact .finalized _ _ _ rfl hw rfl
    · exact .same rfl (by simp) (by simp [FiberLabel.Requests])
  all_goals
    repeat' split at h
    all_goals first
      | contradiction
      | (cases h; exact .same rfl (by simp) (by simp [FiberLabel.Requests]))

theorem writes_reload {pc : ReloadPc} (hpc : c.lifecycle = some (.reload pc)) (h : c.stepReload pc l = some c') :
    c.Writes l c' := by
  cases l <;> simp only [FiberCell.stepReload] at h <;> try contradiction
  case reloadTransition =>
    split at h <;> try contradiction
    split_ifs at h
    · rcases transition_cases c.inner c.id .Reloading with ⟨hlegal, heq⟩ | ⟨e, heq⟩ <;>
        simp only [heq] at h <;> cases h
      · refine .marked rfl hpc rfl ?_ rfl
        revert hlegal
        cases c.inner.state <;> simp [FiberState.canTransitionTo]
      · exact .same rfl (by simp) (by simp [FiberLabel.Requests])
    · cases h
      exact .same rfl (by simp) (by simp [FiberLabel.Requests])
  case reloadRollback =>
    split at h <;> try contradiction
    cases h
    unfold FiberCell.withMut
    split_ifs
    · rcases transition_cases c.inner c.id .Active with ⟨hlegal, heq⟩ | ⟨e, heq⟩ <;> simp only [heq]
      · refine .restored rfl hpc ?_ rfl
        revert hlegal
        cases c.inner.state <;> simp [FiberState.canTransitionTo]
      · exact .same rfl (by simp) (by simp [FiberLabel.Requests])
    · exact .same rfl (by simp) (by simp [FiberLabel.Requests])
  case reloadSuperseded =>
    split at h <;> try contradiction
    cases h
    exact .superseded rfl rfl
  all_goals
    repeat' split at h
    all_goals first
      | contradiction
      | (cases h; exact .same rfl (by simp) (by simp [FiberLabel.Requests]))

theorem writes_install {pc : InstallPc} (h : c.stepInstall pc l = some c') : c.Writes l c' := by
  cases l <;> simp only [FiberCell.stepInstall] at h <;> try contradiction
  case installWait =>
    split at h <;> try contradiction
    split_ifs at h
    · rcases transition_cases c.inner c.id .WaitingDependencies with ⟨hlegal, heq⟩ | ⟨e, heq⟩ <;>
        simp only [heq] at h <;> cases h
      · exact .parked rfl rfl
      · exact .same rfl (by simp) (by simp [FiberLabel.Requests])
    · cases h
      exact .same rfl (by simp) (by simp [FiberLabel.Requests])
  all_goals
    repeat' split at h
    all_goals first
      | contradiction
      | (cases h; exact .same rfl (by simp) (by simp [FiberLabel.Requests]))

/-- **What a section writes to the record.** -/
theorem step_writes (h : c.step l = some c') : c.Writes l c' := by
  cases step_turn h with
  | activation n pc label was step => exact writes_activation label was step
  | worker pc was step => exact writes_worker was step
  | reload pc was step => exact writes_reload was step
  | install step => exact writes_install step
  | disposed w p a label now =>
    subst label now
    exact writes_dispose (.call w p a) rfl rfl
  | cutover target active label state _ now =>
    subst label now
    exact .cutover target active rfl state rfl
  | hostFailed generation label _ now =>
    subst label now
    unfold FiberMutable.convergeHostFailure
    split_ifs
    · exact .same rfl (by simp) (by simp [FiberLabel.Requests])
    · exact .hostFailed generation rfl rfl
  | registered entry label accepts now =>
    subst label now
    exact .registered entry rfl accepts rfl
  | detached task label now =>
    subst label now
    exact .detached task rfl rfl
  | acquired label x took now =>
    subst label now
    unfold GenerationExecution.tryAcquire at took
    split_ifs at took with haccepting
    cases took
    refine .acquired rfl haccepting ?_
    simp only [haccepting]
  | dropped label x gave now =>
    subst label now
    unfold GenerationExecution.dropInflight at gave
    split_ifs at gave with hzero
    cases gave
    exact .dropped rfl _ (Nat.succ_pred hzero).symm rfl
  | called label _ now | replaced label _ now | reclaimed label _ _ now =>
    subst label now
    exact .same rfl (by simp) (by simp [FiberLabel.Requests])

theorem step_registers {entry : Registration} (h : c.step (.register entry) = some c') :
    c.accepts entry = true ∧ c' = { c with inner := FiberCell.registered entry c.inner } := by
  simp only [FiberCell.step] at h
  split_ifs at h with haccepts
  exact ⟨haccepts, (Option.some.inj h).symm⟩

theorem step_cutovers {target : ScopeId} {active : GenerationId} (h : c.step (.cutover target active) = some c') :
    c.inner.state = .Active ∧ c' = { c with inner := c.inner.cutover target } := by
  simp only [FiberCell.step] at h
  split_ifs at h with hactive
  exact ⟨hactive.1, (Option.some.inj h).symm⟩

theorem step_commits {n : Nat} {o : Outcome} {active : GenerationId}
    (h : c.step (.activationCommit n o active) = some c') (hwas : c.inner.state = .Starting)
    (hnow : c'.inner.state = .Active) :
    o = .ok () ∧ active = .NONE ∧ c.inner.capabilities.retired = false ∧ c'.inner = { c.inner with
      staged := false
      state := .Active
      activationSealed := false
      activation := false } := by
  cases step_writes h <;> try contradiction
  case committed label _ _ _ live inner =>
    cases label
    exact ⟨rfl, rfl, live, inner⟩
  case childDone label _ | reported label _ => rcases label with label | label <;> cases label
  case kept inner | advanced inner =>
    have hsame : c'.inner.state = c.inner.state := congrArg (·.state) inner
    rw [hsame, hwas] at hnow
    contradiction

/-! ## What every section leaves alone -/

theorem step_worker (h : c.step l = some c') :
    c'.worker = c.worker ∨ (∃ w, l.Requests w) ∧ c.inner.disposal.phase = .Idle ∧ c'.worker = some .spawned ∨
      ∃ pc, c.worker = some pc ∧ c.stepWorker pc l = some c' := by
  cases step_turn h with
  | activation n pc label was step =>
    by_cases hl : ∃ m, l = .activationDispose m
    · obtain ⟨m, rfl⟩ := hl
      obtain ⟨e, pc', -, rfl⟩ := stepDispose_eq step
      rcases dispose_worker (c := c) false false true with hsame | hspawned
      · exact .inl hsame
      · exact .inr (.inl ⟨⟨false, .inr ⟨rfl, m, rfl⟩⟩, hspawned⟩)
    · obtain ⟨pc', heq⟩ := stepActivation_eq step fun m hm => hl ⟨m, hm⟩
      rw [heq]
      exact .inl rfl
  | worker pc was step => exact .inr (.inr ⟨pc, was, step⟩)
  | reload pc was step =>
    rw [stepReload_eq step]
    exact .inl rfl
  | install step =>
    rw [stepInstall_eq step]
    exact .inl rfl
  | disposed w p a label now =>
    subst label now
    rcases dispose_worker (c := c) w p a with hsame | hspawned
    · exact .inl hsame
    · exact .inr (.inl ⟨⟨w, .inl ⟨p, a, rfl⟩⟩, hspawned⟩)
  | called _ _ now | replaced _ _ now | cutover _ _ _ _ _ now | hostFailed _ _ _ now | reclaimed _ _ _ now
  | registered _ _ _ now | detached _ _ now | acquired _ _ _ now | dropped _ _ _ now =>
    subst now
    exact .inl rfl

/-- What no section changes. -/
structure FiberCell.Same (c c' : FiberCell) : Prop where
  id : c'.id = c.id
  plugin : c'.plugin = c.plugin
  origin : c'.origin = c.origin
  arena : c'.inArena = true → c.inArena = true
  descriptor : c'.inner.descriptor = c.inner.descriptor

theorem step_same (h : c.step l = some c') : c.Same c' := by
  have hdescriptor : c'.inner.descriptor = c.inner.descriptor := by
    cases step_writes h with
    | registered entry _ _ inner =>
      rw [inner]
      cases entry <;> rfl
    | _ =>
      rename_i inner
      exact congrArg (·.descriptor) inner
  suffices hframe : c'.id = c.id ∧ c'.plugin = c.plugin ∧ c'.origin = c.origin ∧
      (c'.inArena = true → c.inArena = true) from
    ⟨hframe.1, hframe.2.1, hframe.2.2.1, hframe.2.2.2, hdescriptor⟩
  cases step_turn h with
  | activation n pc label was step =>
    by_cases hl : ∃ m, l = .activationDispose m
    · obtain ⟨m, rfl⟩ := hl
      obtain ⟨e, pc', -, rfl⟩ := stepDispose_eq step
      rw [dispose_eq]
      exact ⟨rfl, rfl, rfl, id⟩
    · obtain ⟨pc', heq⟩ := stepActivation_eq step fun m hm => hl ⟨m, hm⟩
      rw [heq]
      exact ⟨rfl, rfl, rfl, id⟩
  | worker pc was step =>
    rw [stepWorker_eq step]
    exact ⟨rfl, rfl, rfl, id⟩
  | reload pc was step =>
    rw [stepReload_eq step]
    exact ⟨rfl, rfl, rfl, id⟩
  | install step =>
    have harena := stepInstall_arena step
    rw [stepInstall_eq step]
    exact ⟨rfl, rfl, rfl, harena⟩
  | disposed w p a label now =>
    subst now
    rw [dispose_eq]
    exact ⟨rfl, rfl, rfl, id⟩
  | called _ _ now | replaced _ _ now | cutover _ _ _ _ _ now | hostFailed _ _ _ now
  | registered _ _ _ now | detached _ _ now | acquired _ _ _ now | dropped _ _ _ now =>
    subst now
    exact ⟨rfl, rfl, rfl, id⟩
  | reclaimed _ arena _ now =>
    subst now
    exact ⟨rfl, rfl, rfl, fun _ => arena⟩

end Cordis
