import Cordis.Fiber.Step

/-!
# Whose section it is

`Turn` inverts the step function once: a section is one of an activation call, of the disposal worker, of a
reload that replaces the Fiber, of the install that created it, or of a caller that touches nothing but what
the constructor says.
-/

namespace Cordis

/-- The activation call that makes the section. -/
def FiberLabel.call? : FiberLabel → Option Nat
  | activationLock n | activationBegin n _ _ | activationPoll n | activationPending n | activationReturn n _
  | activationSeal n _ | activationValidate n | activationReadStaged n | activationDefer n | activationCheck n _
  | activationCommit n _ _ | activationRelease n | activationUnlock n | activationFail n
  | activationCleanup n | activationDispose n | activationCleaned n => some n
  | _ => none

variable {c c' : FiberCell} {l : FiberLabel}

/-- The thread that makes section `l`, and what the section does if it is a caller's. -/
inductive FiberCell.Turn (l : FiberLabel) (c c' : FiberCell) : Prop
  | activation (n : Nat) (pc : ActivationPc) (label : l.call? = some n) (was : c.activations n = some pc)
      (step : c.stepActivation n pc l = some c')
  | worker (pc : DisposalPc) (was : c.worker = some pc) (step : c.stepWorker pc l = some c')
  | reload (pc : ReloadPc) (was : c.lifecycle = some (.reload pc)) (step : c.stepReload pc l = some c')
  | install (step : c.stepInstall c.installer l = some c')
  | called (label : l = .callActivate) (arena : c.inArena = true) (now : c' = c.callActivate)
  | disposed (w p a : Bool) (label : l = .callDispose w p a) (now : c' = (c.dispose w p a).1)
  | replaced (label : l = .reloadLock) (free : c.lifecycle = none)
      (now : c' = { c with lifecycle := some (.reload .locked) })
  | cutover (target : ScopeId) (active : GenerationId) (label : l = .cutover target active)
      (state : c.inner.state = .Active) (staged : c.inner.capabilities.isStaged active = true)
      (now : c' = { c with inner := c.inner.cutover target })
  | hostFailed (generation : GenerationId) (label : l = .hostFailure generation) (free : c.lifecycle = none)
      (now : c' = { c with inner := (c.inner.convergeHostFailure generation).1 })
  | reclaimed (label : l = .reclaim) (arena : c.inArena = true) (state : c.inner.state = .Disposed)
      (now : c' = { c with inArena := false })
  | registered (entry : Registration) (label : l = .register entry) (accepts : c.accepts entry = true)
      (now : c' = { c with inner := FiberCell.registered entry c.inner })
  | detached (task : Nat) (label : l = .taskDetached task)
      (now : c' = { c with inner := { c.inner with tasks := c.inner.tasks.filter (· ≠ task) } })
  | acquired (label : l = .acquireLease) (x : GenerationExecution)
      (took : c.inner.capabilities.execution.tryAcquire = some x)
      (now : c' = { c with
        inner := { c.inner with capabilities := { c.inner.capabilities with execution := x } } })
  | dropped (label : l = .dropLease) (x : GenerationExecution)
      (gave : c.inner.capabilities.execution.dropInflight = some x)
      (now : c' = { c with
        inner := { c.inner with capabilities := { c.inner.capabilities with execution := x } } })

theorem step_turn (h : c.step l = some c') : c.Turn l c' := by
  cases l <;> simp only [FiberCell.step] at h
  case callActivate =>
    split_ifs at h with harena
    exact .called rfl harena (Option.some.inj h).symm
  case callDispose w p a => exact .disposed w p a rfl (Option.some.inj h).symm
  case reloadLock =>
    split at h <;> try contradiction
    exact .replaced rfl ‹_› (Option.some.inj h).symm
  case cutover target active =>
    split_ifs at h with hfound
    exact .cutover target active rfl hfound.1 hfound.2 (Option.some.inj h).symm
  case hostFailure generation =>
    split at h <;> try contradiction
    exact .hostFailed generation rfl ‹_› (Option.some.inj h).symm
  case reclaim =>
    split_ifs at h with hfound
    exact .reclaimed rfl hfound.1 hfound.2 (Option.some.inj h).symm
  case register entry =>
    split_ifs at h with haccepts
    exact .registered entry rfl haccepts (Option.some.inj h).symm
  case taskDetached task => exact .detached task rfl (Option.some.inj h).symm
  case acquireLease =>
    obtain ⟨x, hx, rfl⟩ := Option.map_eq_some_iff.mp h
    exact .acquired rfl x hx rfl
  case dropLease =>
    obtain ⟨x, hx, rfl⟩ := Option.map_eq_some_iff.mp h
    exact .dropped rfl x hx rfl
  case installIndex | installValidate | installRemove | installCheck | installWait | installActivated =>
    exact .install h
  case reloadCheck | reloadTransition | reloadRollback | reloadSuperseded | reloadUnlock =>
    split at h <;> try contradiction
    exact .reload _ ‹_› h
  all_goals obtain ⟨pc, hpc, h⟩ := Option.bind_eq_some_iff.mp h
  all_goals first
    | exact .activation _ pc rfl hpc h
    | exact .worker pc hpc h

/-! ## What the sections of a thread leave alone -/

theorem withMut_eq (c : FiberCell) (f : FiberMutable → FiberMutable) :
    c.withMut f = { c with inner := if c.inArena then f c.inner else c.inner } := by
  unfold FiberCell.withMut
  split_ifs <;> rfl

theorem setWorker_eq (c : FiberCell) (pc : DisposalPc) (f : FiberMutable → FiberMutable) :
    c.setWorker pc f = { c with
      inner := if c.inArena then f c.inner else c.inner
      worker := some pc } := by
  rw [FiberCell.setWorker, withMut_eq]

theorem dispose_eq (c : FiberCell) (w p a : Bool) :
    (c.dispose w p a).1 = { c with
      inner := (c.inner.requestDisposal c.id w p a).1
      worker := (c.dispose w p a).1.worker
      calls := (c.dispose w p a).1.calls
      nextCall := (c.dispose w p a).1.nextCall } := by
  unfold FiberCell.dispose
  split
  all_goals
    rename_i heq
    rw [heq]

theorem dispose_worker (w p a : Bool) :
    (c.dispose w p a).1.worker = c.worker ∨
      c.inner.disposal.phase = .Idle ∧ (c.dispose w p a).1.worker = some .spawned := by
  unfold FiberCell.dispose FiberMutable.requestDisposal
  simp only
  split_ifs with _ hidle <;> first | exact .inl rfl | exact .inr ⟨hidle, rfl⟩

theorem stepActivation_eq {n : Nat} {pc : ActivationPc} (h : c.stepActivation n pc l = some c')
    (hl : ∀ m, l ≠ .activationDispose m) :
    ∃ pc', c' = { c with
      inner := c'.inner
      lifecycle := c'.lifecycle
      activations := Function.update c.activations n (some pc')
      nextCompletion := c'.nextCompletion } := by
  cases l <;> simp only [FiberCell.stepActivation, withMut_eq] at h
  case activationDispose m => exact absurd rfl (hl m)
  all_goals
    repeat' split at h
    all_goals first
      | contradiction
      | exact ⟨_, (Option.some.inj h).symm.trans (by cases h; rfl)⟩

theorem stepDispose_eq {n m : Nat} {pc : ActivationPc}
    (h : c.stepActivation n pc (.activationDispose m) = some c') :
    ∃ e pc', pc = .found e ∧ c' = (c.dispose false false true).1.setActivation n pc' := by
  simp only [FiberCell.stepActivation] at h
  split at h <;> try contradiction
  rename_i e
  split at h
  all_goals
    rename_i heq
    rw [heq]
    exact ⟨e, _, rfl, (Option.some.inj h).symm⟩

theorem stepWorker_eq {pc : DisposalPc} (h : c.stepWorker pc l = some c') :
    c' = { c with
      inner := c'.inner
      lifecycle := c'.lifecycle
      worker := c'.worker
      published := c'.published } := by
  cases l <;> simp only [FiberCell.stepWorker, setWorker_eq, withMut_eq, FiberCell.finishBody] at h
  all_goals
    repeat' split at h
    all_goals first
      | contradiction
      | (cases h; rfl)

theorem stepReload_eq {pc : ReloadPc} (h : c.stepReload pc l = some c') :
    c' = { c with inner := c'.inner, lifecycle := c'.lifecycle } := by
  cases l <;> simp only [FiberCell.stepReload, withMut_eq] at h
  all_goals
    repeat' split at h
    all_goals first
      | contradiction
      | (cases h; rfl)

theorem stepInstall_eq {pc : InstallPc} (h : c.stepInstall pc l = some c') :
    c' = { c with
      inner := c'.inner
      inArena := c'.inArena
      activations := c'.activations
      nextActivation := c'.nextActivation
      installer := c'.installer } := by
  cases l <;> simp only [FiberCell.stepInstall] at h
  all_goals
    repeat' split at h
    all_goals first
      | contradiction
      | (cases h; rfl)

theorem stepInstall_arena {pc : InstallPc} (h : c.stepInstall pc l = some c') (hin : c'.inArena = true) :
    c.inArena = true := by
  cases l <;> simp only [FiberCell.stepInstall] at h
  all_goals
    repeat' split at h
    all_goals first
      | contradiction
      | (cases h; exact hin)
      | (cases h; contradiction)

end Cordis
