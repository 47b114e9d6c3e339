import Cordis.Fiber.Permanence
import Cordis.Fiber.Writes

/-!
# The tenure of a Fiber

A Fiber that was committed and not retired stands for its plugin. `Latch`, `Seat` and `step_ledger`
say what one section may do to the gate, to the states `Active` and `Reloading`, and to the ledgers
of a Fiber, as far as its writes tell.
-/

namespace Cordis

variable {c c' : FiberCell} {l : FiberLabel}

/-- The generation that the gate of `c` stands for. -/
def FiberCell.generation (c : FiberCell) : GenerationId := c.inner.capabilities.generation

/-- The gate of `c` was closed. -/
def FiberCell.retired (c : FiberCell) : Bool := c.inner.capabilities.retired

/-- The gate of `c` still hands out leases. -/
def FiberCell.accepting (c : FiberCell) : Bool := c.inner.capabilities.execution.accepting

/-! ## The gate -/

/-- What section `l` does to the capabilities of `c`. -/
inductive FiberCell.Latch (l : FiberLabel) (c c' : FiberCell) : Prop
  | kept (capabilities : c'.inner.capabilities = c.inner.capabilities)
  | acquired (label : l = .acquireLease) (accepting : c.accepting = true)
      (capabilities : c'.inner.capabilities = { c.inner.capabilities with
        execution := ⟨true, c.inner.capabilities.execution.inflight + 1⟩ })
  | dropped (label : l = .dropLease) (inflight : Nat)
      (held : c.inner.capabilities.execution.inflight = inflight + 1)
      (capabilities : c'.inner.capabilities = { c.inner.capabilities with
        execution := ⟨c.accepting, inflight⟩ })
  | draining (pc : DisposalPc) (worker : c.worker = some pc)
      (capabilities : c'.inner.capabilities = { c.inner.capabilities with
        execution := c.inner.capabilities.execution.beginDraining })
  | closed (w : Bool) (asked : l.Requests w) (idle : c.inner.disposal.phase = .Idle)
      (tasks : c'.inner.disposal.phase = .Tasks) (disposing : c'.inner.state = .Disposing)
      (capabilities : c'.inner.capabilities = c.inner.capabilities.close)
  | superseded (label : l = .reloadSuperseded)
      (capabilities : c'.inner.capabilities = c.inner.capabilities.close)
  /-- An activation after a dependency-loss disposal has a gate of its own. -/
  | renewed (n : Nat) (g : GenerationId) (label : l = .activationBegin n true (.ok g))
      (waiting : c.inner.state = .WaitingDependencies)
      (complete : c.inner.disposal.phase = .Complete)
      (capabilities : c'.inner.capabilities = .staged g) (starting : c'.inner.state = .Starting)
      (idle : c'.inner.disposal.phase = .Idle)

/-- **Only a lease section counts leases**, and a closed gate is never opened again. -/
theorem step_latch (h : c.step l = some c') : c.Latch l c' := by
  cases step_writes h with
  | opened w _ _ label _ idle inner =>
    exact .closed w label.requests idle (by rw [inner]) (by rw [inner]) (by rw [inner])
  | renewed n g label _ _ waiting complete inner =>
    exact .renewed n g label waiting complete (by rw [inner]; rfl) (by rw [inner]; rfl) (by rw [inner]; rfl)
  | draining _ _ _ worker inner | detachedDraining _ _ worker inner => exact .draining _ worker (by rw [inner])
  | superseded label inner => exact .superseded label (by rw [inner])
  | acquired label accepting inner => exact .acquired label accepting (by rw [inner])
  | dropped label inflight held inner => exact .dropped label inflight held (by rw [inner]; rfl)
  | registered entry _ _ inner =>
    refine .kept ?_
    rw [inner]
    cases entry <;> rfl
  | _ =>
    rename_i inner
    exact .kept (congrArg (·.capabilities) inner)

/-- What section `l` may do to the gate of `c`, as other Fibers see it. -/
inductive FiberCell.Gated (l : FiberLabel) (c c' : FiberCell) : Prop
  | kept (generation : c'.generation = c.generation) (retired : c'.retired = c.retired)
      (accepting : c.worker = none → c'.retired = false → c'.accepting = c.accepting)
  | closed (w : Bool) (asked : l.Requests w) (idle : c.inner.disposal.phase = .Idle)
      (tasks : c'.inner.disposal.phase = .Tasks) (generation : c'.generation = c.generation)
      (retired : c'.retired = true)
  | superseded (label : l = .reloadSuperseded) (generation : c'.generation = c.generation)
      (retired : c'.retired = true)
  /-- An activation after a dependency-loss disposal has a gate of its own. -/
  | renewed (n : Nat) (g : GenerationId) (label : l = .activationBegin n true (.ok g))
      (waiting : c.inner.state = .WaitingDependencies)
      (complete : c.inner.disposal.phase = .Complete) (generation : c'.generation = g)
      (starting : c'.inner.state = .Starting) (idle : c'.inner.disposal.phase = .Idle)
      (fresh : c'.retired = false)

/-- **A gate is replaced only by the activation that follows a dependency loss**; no section opens a
closed one. -/
theorem step_gated (h : c.step l = some c') : c.Gated l c' := by
  cases step_latch h with
  | kept capabilities =>
    exact .kept (by simp [FiberCell.generation, capabilities])
      (by simp [FiberCell.retired, capabilities])
      fun _ _ => by simp [FiberCell.accepting, capabilities]
  | acquired _ haccepting capabilities =>
    exact .kept (by simp [FiberCell.generation, capabilities])
      (by simp [FiberCell.retired, capabilities])
      fun _ _ => by rw [haccepting, FiberCell.accepting, capabilities]
  | dropped _ _ _ capabilities =>
    exact .kept (by simp [FiberCell.generation, capabilities])
      (by simp [FiberCell.retired, capabilities])
      fun _ _ => by rw [FiberCell.accepting, capabilities]
  | draining pc worker capabilities =>
    exact .kept (by simp [FiberCell.generation, capabilities])
      (by simp [FiberCell.retired, capabilities])
      fun hnone => by rw [worker] at hnone; contradiction
  | closed w asked idle tasks _ capabilities =>
    exact .closed w asked idle tasks
      (by simp [FiberCell.generation, capabilities, CapabilityGate.close])
      (by simp [FiberCell.retired, capabilities, CapabilityGate.close])
  | superseded label capabilities =>
    exact .superseded label (by simp [FiberCell.generation, capabilities, CapabilityGate.close])
      (by simp [FiberCell.retired, capabilities, CapabilityGate.close])
  | renewed n g label waiting complete capabilities starting idle =>
    exact .renewed n g label waiting complete
      (by simp [FiberCell.generation, capabilities, CapabilityGate.staged]) starting idle
      (by simp [FiberCell.retired, capabilities, CapabilityGate.staged])

/-- A Fiber that was disposed, or is being disposed, has closed its gate. -/
def FiberCell.Closed (c : FiberCell) : Prop :=
  c.inner.disposal.phase ≠ .Idle → c.retired = true

theorem closed_step (hk : c.control.Consistent) (hc : c.Closed) (h : c.step l = some c') :
    c'.Closed := by
  unfold FiberCell.Closed FiberCell.retired at hc ⊢
  -- a worker is there only for a round that was opened
  have hopen : ∀ pc, c.worker = some pc → c.inner.disposal.phase ≠ .Idle := by
    intro pc hw hidle
    have hrunning := hk.running pc hw
    rw [show c.control.phase = .Idle from hidle] at hrunning
    contradiction
  intro hphase
  cases step_writes h with
  | opened _ _ _ _ _ _ inner | superseded _ inner =>
    rw [inner]
    rfl
  | halted _ _ _ inner | renewed _ _ _ _ _ _ _ inner =>
    rw [inner] at hphase
    exact absurd rfl hphase
  | advanced _ _ _ worker _ _ _ _ inner | finalized _ _ _ _ worker inner | draining _ _ _ worker inner
  | detachedDraining _ _ worker inner =>
    rw [inner]
    exact hc (hopen _ worker)
  | registered entry _ _ inner =>
    rw [inner] at hphase ⊢
    cases entry <;> exact hc hphase
  | _ =>
    rename_i inner
    rw [inner] at hphase ⊢
    exact hc hphase

theorem step_commit {n : Nat} {o : Outcome} {active : GenerationId}
    (h : c.step (.activationCommit n o active) = some c') (hstate : c.inner.state = .Starting)
    (hnow : c'.inner.state = .Active) :
    o = .ok () ∧ active = .NONE ∧ c.retired = false ∧ c'.retired = false ∧
      c'.generation = c.generation := by
  obtain ⟨hok, hnone, hlive, hinner⟩ := step_commits h hstate hnow
  refine ⟨hok, hnone, hlive, ?_, ?_⟩
  · rw [FiberCell.retired, hinner]
    exact hlive
  · rw [FiberCell.generation, hinner]
    rfl

/-! ## The states `Active` and `Reloading` -/

/-- What section `l` may do to the `staged` flag and to the states of a committed Fiber. -/
inductive FiberCell.Seat (l : FiberLabel) (c c' : FiberCell) : Prop
  /-- Neither `Active` nor `Reloading` is entered, and `Starting` only by an activation. -/
  | kept (staged : c'.inner.staged = c.inner.staged)
      (state : c'.inner.state = c.inner.state ∨
        (c'.inner.state ≠ .Active ∧ c'.inner.state ≠ .Reloading ∧
          (c'.inner.state = .Starting → ∃ n, c.activations n = some .locked)))
  | deferred (n : Nat) (label : l = .activationDefer n) (was : c.activations n = some .deferring)
      (now : c'.activations n = some .committed) (staged : c'.inner.staged = c.inner.staged)
      (state : c'.inner.state = .Active)
  | committed (n : Nat) (checked : Outcome) (label : l = .activationCommit n checked .NONE)
      (was : c.activations n = some .checked) (now : c'.activations n = some .committed)
      (starting : c.inner.state = .Starting) (state : c'.inner.state = .Active)
  | marked (label : l = .reloadTransition) (was : c.lifecycle = some (.reload .checked))
      (now : c'.lifecycle = some (.reload .reloading)) (active : c.inner.state = .Active)
      (state : c'.inner.state = .Reloading) (staged : c'.inner.staged = c.inner.staged)
  | restored (label : l = .reloadRollback) (was : c.lifecycle = some (.reload .reloading))
      (legal : c.inner.state = .Reloading ∨ c.inner.state = .Starting)
      (state : c'.inner.state = .Active)
      (staged : c'.inner.staged = c.inner.staged)
  | cutover (target : ScopeId) (active : GenerationId) (label : l = .cutover target active)
      (was : c.inner.state = .Active) (state : c'.inner.state = .Active)

/-- **Who makes a Fiber `Active` or `Reloading`.** -/
theorem step_seat (hc : c.control.Consistent) (h : c.step l = some c') : c.Seat l c' := by
  cases step_writes h with
  | opened _ _ _ _ _ _ inner | parked _ inner | hostFailed _ _ inner =>
    exact .kept (by rw [inner]) (.inr (by simp [inner]))
  | renewed n _ _ was _ _ _ inner | started n _ _ was _ _ inner =>
    refine .kept (by rw [inner]; rfl) (.inr ?_)
    simp only [inner, FiberMutable.starting]
    exact ⟨nofun, nofun, fun _ => ⟨n, was⟩⟩
  | deferred n label was now inner => exact .deferred n label was now (by rw [inner]; rfl) (by rw [inner]; rfl)
  | committed n label was now starting _ inner => exact .committed n _ label was now starting (by rw [inner])
  | failed _ _ _ _ inner =>
    refine .kept (by rw [inner]; rfl) ?_
    by_cases hs : c.inner.state = .Starting
    · exact .inr (by simp [inner, FiberMutable.failActivation, hs])
    · exact .inl (by rw [inner]; exact if_neg hs)
  | finalized result target terminated _ worker inner =>
    refine .kept (by rw [inner]) ?_
    cases terminated with
    | true => exact .inl (by rw [inner]; rfl)
    | false =>
      -- a worker aims at `Disposed` or `WaitingDependencies`
      cases target with
      | none => exact .inl (by rw [inner]; rfl)
      | some t =>
        refine .inr ?_
        rcases hc.target _ t worker rfl with rfl | rfl <;> simp [inner]
  | marked label was now active inner => exact .marked label was now active (by rw [inner]) (by rw [inner])
  | restored label was legal inner => exact .restored label was legal (by rw [inner]) (by rw [inner])
  | cutover target active label state inner =>
    exact .cutover target active label state (by rw [inner]; exact state)
  | registered entry _ _ inner =>
    rw [FiberCell.registered.eq_def] at inner
    cases entry <;> exact .kept (by rw [inner]) (.inl (by rw [inner]))
  | _ =>
    rename_i inner
    exact .kept (congrArg (·.staged) inner) (.inl (congrArg (·.state) inner))

/-! ## The ledgers -/

/-- The resource ledgers of a Fiber. -/
structure Ledger where
  effects : List Nat
  tasks : List Nat
  handlers : List Nat
  invocationHandlers : List Nat
  invocationMiddleware : List Nat
  provided : List ServiceSymbol
  childScopes : List ScopeId

/-- The resource ledgers of `c`. -/
def FiberCell.ledger (c : FiberCell) : Ledger where
  effects := c.inner.effects
  tasks := c.inner.tasks
  handlers := c.inner.handlers
  invocationHandlers := c.inner.invocationHandlers
  invocationMiddleware := c.inner.invocationMiddleware
  provided := c.inner.provided
  childScopes := c.inner.childScopes

namespace Ledger

/-- A Context call of the Fiber adds `entry`. -/
def add (x : Ledger) : Registration → Ledger
  | .effect id => { x with effects := x.effects ++ [id] }
  | .handler id => { x with handlers := x.handlers ++ [id] }
  | .invocationHandler id => { x with invocationHandlers := x.invocationHandlers ++ [id] }
  | .invocationMiddleware id => { x with invocationMiddleware := x.invocationMiddleware ++ [id] }
  | .provided key => { x with provided := x.provided ++ [key] }
  | .childScope scope => { x with childScopes := x.childScopes ++ [scope] }
  | .task id => { x with tasks := x.tasks ++ [id] }

/-- What the Fiber itself does to its ledgers: its Contexts register and its tasks end. -/
inductive Own : Ledger → Ledger → Prop
  | registered (x : Ledger) (entry : Registration) : Own x (x.add entry)
  | detached (x : Ledger) (task : Nat) : Own x { x with tasks := x.tasks.filter (· ≠ task) }

end Ledger

/-- **Away from its disposal worker only a Fiber itself changes its ledgers.** -/
theorem step_ledger (hw : c.worker = none) (h : c.step l = some c') :
    c'.ledger = c.ledger ∨ Ledger.Own c.ledger c'.ledger := by
  have hledger : ∀ {r : FiberMutable}, c'.inner = r → c'.ledger = FiberCell.ledger { c with inner := r } := by
    rintro _ rfl
    rfl
  cases step_writes h with
  | emptied _ worker | draining _ _ _ worker | detachedDraining _ _ worker | advanced _ _ _ worker
  | handlerTaken _ worker | invocationHandlerTaken _ worker | middlewareTaken _ worker | withdrawn _ _ worker
  | effectTaken _ _ _ worker | finalized _ _ _ _ worker =>
    rw [hw] at worker
    contradiction
  | childDone _ _ _ worker | reported _ _ worker =>
    obtain ⟨pc, worker⟩ := worker
    rw [hw] at worker
    contradiction
  | registered entry _ _ inner =>
    have hadd : FiberCell.ledger { c with inner := FiberCell.registered entry c.inner } = c.ledger.add entry := by
      cases entry <;> rfl
    rw [hledger inner, hadd]
    exact .inr (.registered c.ledger entry)
  | detached task _ inner =>
    rw [hledger inner]
    exact .inr (.detached c.ledger task)
  | _ =>
    rename_i inner
    exact .inl ((hledger inner).trans rfl)

/-! ## Activations about to commit -/

/-- The activation is past sealing and before its commit. -/
def ActivationPc.seated : ActivationPc → Bool
  | sealed | validated | deferring | committing | checked => true
  | _ => false

theorem ActivationPc.held_of_seated {pc : ActivationPc} (h : pc.seated = true) :
    pc.held = true := by
  cases pc <;> simp_all [seated, held]

/-- What the writes of `Active` rely on. -/
structure FiberCell.Seated (c : FiberCell) : Prop where
  activation : ∀ n pc, c.activations n = some pc → pc.seated = true →
    c.inner.state ≠ .Active ∧ c.inner.state ≠ .Reloading
  deferring : ∀ n, c.activations n = some .deferring → c.inner.staged = true
  reloading : c.lifecycle = some (.reload .reloading) → c.inner.state ≠ .Starting

theorem seated_created (id : FiberId) (plugin : PluginId) (scope : ScopeId)
    (descriptor : PluginDescriptor) (generation : GenerationId) (staged : Bool) :
    (FiberCell.created id plugin scope descriptor generation staged).Seated := by
  constructor <;> simp [FiberCell.created]

theorem activation_seating {n : Nat} {pc : ActivationPc}
    (h : c.stepActivation n pc l = some c') :
    ∃ pc', c'.activations = Function.update c.activations n (some pc') ∧
      (pc'.seated = true → pc.seated = true ∨
        c'.inner.state = .Starting ∧ c'.inner.activationSealed = true) ∧
      (pc' = .deferring → c'.inner.staged = true) := by
  cases l <;> simp only [FiberCell.stepActivation] at h
  case activationSeal call admitted =>
    split at h <;> try contradiction
    split_ifs at h with hseal <;> cases h
    · refine ⟨.sealed, rfl, fun _ => .inr ?_, by simp⟩
      unfold FiberMutable.sealActivation at hseal ⊢
      split_ifs with hs
      · exact ⟨hs, rfl⟩
      · simp [hs] at hseal
    · exact ⟨_, rfl, by simp [ActivationPc.seated], by simp⟩
  case activationReadStaged =>
    split at h <;> try contradiction
    cases h
    by_cases hs : c.inner.staged
    · exact ⟨_, rfl, fun _ => .inl rfl, fun _ => hs⟩
    · exact ⟨_, rfl, fun _ => .inl rfl, by simp [hs]⟩
  case activationFail =>
    split at h <;> try contradiction
    cases h
    unfold FiberCell.withMut
    split_ifs <;> exact ⟨_, rfl, by simp [ActivationPc.seated], by simp⟩
  case activationDispose =>
    split at h <;> try contradiction
    obtain ⟨hactivations, -⟩ := dispose_frame c false false true
    split at h
    all_goals
      rename_i hdispose
      cases h
      rw [hdispose] at hactivations
      exact ⟨_, congrArg (Function.update · n _) hactivations, by simp [ActivationPc.seated],
        by simp⟩
  all_goals
    repeat' split at h
    all_goals first
      | contradiction
      | (cases h; exact ⟨_, rfl, by simp [ActivationPc.seated], by simp⟩)

theorem step_activations (h : c.step l = some c') {m : Nat} {q : ActivationPc}
    (hq : c'.activations m = some q) :
    c.activations m = some q ∨ q = .queued ∨
      ∃ pc, c.activations m = some pc ∧ c.stepActivation m pc l = some c' := by
  rcases step_thread h with ⟨n, pc, hpc, hstep⟩ | haside
  · obtain ⟨pc', hnext⟩ := stepActivation_next hstep
    by_cases hm : m = n
    · subst hm
      exact .inr (.inr ⟨pc, hpc, hstep⟩)
    · rw [hnext.moved, Function.update_of_ne hm] at hq
      exact .inl hq
  · exact (haside.activations m q hq).imp_right .inl

theorem step_seating (h : c.step l = some c') {m : Nat} {q : ActivationPc}
    (hq : c'.activations m = some q) (hseated : q.seated = true) :
    (∃ pc, c.activations m = some pc ∧ pc.seated = true ∧
      (q = .deferring → pc = .deferring ∨ c'.inner.staged = true)) ∨
    c'.inner.state = .Starting ∧ (q = .deferring → c'.inner.staged = true) := by
  rcases step_activations h hq with hsame | rfl | ⟨pc, hpc, hstep⟩
  · exact .inl ⟨q, hsame, hseated, .inl⟩
  · contradiction
  · obtain ⟨pc', hmoved, hseat, hdefer⟩ := activation_seating hstep
    obtain rfl : pc' = q := by simpa [hmoved] using hq
    rcases hseat hseated with hs | hs
    · exact .inl ⟨pc, hpc, hs, fun h => .inr (hdefer h)⟩
    · exact .inr ⟨hs.1, hdefer⟩

theorem step_reloading (h : c.step l = some c') (hl : c'.lifecycle = some (.reload .reloading)) :
    c.lifecycle = some (.reload .reloading) ∨
      c.inner.state = .Active ∧ c'.inner = { c.inner with state := .Reloading } := by
  cases step_turn h with
  | activation n pc _ _ step =>
    obtain ⟨pc', hnext⟩ := stepActivation_next step
    rcases hnext.mutex with ⟨-, hlock, -⟩ | ⟨hsame, -⟩ | ⟨-, -, hfree⟩
    · rw [hlock] at hl
      simp at hl
    · exact .inl (hsame ▸ hl)
    · rw [hfree] at hl
      simp at hl
  | worker pc _ step =>
    rcases worker_lifecycle step with hsame | ⟨-, hlock⟩ | ⟨-, hfree⟩
    · exact .inl (hsame ▸ hl)
    · rw [hlock] at hl
      simp at hl
    · rw [hfree] at hl
      simp at hl
  | reload pc was step =>
    cases l <;> simp only [FiberCell.stepReload, FiberMutable.transition] at step <;> try contradiction
    case reloadTransition =>
      split at step <;> try contradiction
      split_ifs at step with _ hlegal <;> cases step
      · refine .inr ⟨?_, rfl⟩
        revert hlegal
        cases c.inner.state <;> simp [FiberState.canTransitionTo]
      · simp at hl
      · simp at hl
    all_goals
      repeat' split at step
      all_goals first | contradiction | (cases step; simp at hl)
  | install step =>
    rw [stepInstall_eq step] at hl
    exact .inl hl
  | disposed w p a _ now =>
    subst now
    exact .inl ((dispose_frame c w p a).2 ▸ hl)
  | replaced _ _ now =>
    subst now
    simp at hl
  | called _ _ now | cutover _ _ _ _ _ now | hostFailed _ _ _ now | reclaimed _ _ _ now | registered _ _ _ now
  | detached _ _ now | acquired _ _ _ now | dropped _ _ _ now =>
    subst now
    exact .inl hl

theorem seated_step (hc : c.Sound) (hs : c.Seated) (h : c.step l = some c') : c'.Seated := by
  have hseat := step_seat hc.consistent h
  have hexclusive : ∀ m q n pc, c.activations m = some q → q.held = true →
      c.activations n = some pc → pc.held = true → m = n := by
    intro m q n pc hm hq hn hpc
    have hholder := hc.exclusive m q hm hq
    rw [hc.exclusive n pc hn hpc] at hholder
    simpa [eq_comm] using hholder
  have hreload : ∀ m q pc, c.activations m = some q → q.held = true →
      c.lifecycle ≠ some (.reload pc) := by
    intro m q pc hm hq hlifecycle
    have hholder := hc.exclusive m q hm hq
    rw [hlifecycle] at hholder
    simp at hholder
  refine ⟨fun m q hq hseated => ?_, fun m hq => ?_, fun hl => ?_⟩
  · rcases step_seating h hq hseated with ⟨pc, hpc, hpcs, -⟩ | ⟨hstarting, -⟩
    swap
    · simp [hstarting]
    have hheld := ActivationPc.held_of_seated hpcs
    cases hseat with
    | kept _ hstate =>
      rcases hstate with hsame | ⟨hactive, hreloading, -⟩
      · rw [hsame]
        exact hs.activation m pc hpc hpcs
      · exact ⟨hactive, hreloading⟩
    | deferred n _ hwas hnow =>
      obtain rfl := hexclusive m pc n _ hpc hheld hwas rfl
      rw [hnow] at hq
      cases hq
      contradiction
    | committed n _ _ hwas hnow =>
      obtain rfl := hexclusive m pc n _ hpc hheld hwas rfl
      rw [hnow] at hq
      cases hq
      contradiction
    | marked _ hwas => exact absurd hwas (hreload m pc _ hpc hheld)
    | restored _ hwas => exact absurd hwas (hreload m pc _ hpc hheld)
    | cutover _ _ _ hwas => exact absurd hwas (hs.activation m pc hpc hpcs).1
  · rcases step_seating h hq rfl with ⟨pc, hpc, hpcs, hdefer⟩ | ⟨-, hstaged⟩
    swap
    · exact hstaged rfl
    rcases hdefer rfl with rfl | hstaged
    swap
    · exact hstaged
    have hwas := hs.deferring m hpc
    cases hseat with
    | kept hstaged => rw [hstaged]; exact hwas
    | deferred _ _ _ _ hstaged => rw [hstaged]; exact hwas
    | committed n _ _ hcommitting _ _ _ =>
      obtain rfl := hexclusive m _ n _ hpc rfl hcommitting rfl
      rw [hpc] at hcommitting
      simp at hcommitting
    | marked _ _ _ _ _ hstaged => rw [hstaged]; exact hwas
    | restored _ _ _ _ hstaged => rw [hstaged]; exact hwas
    | cutover _ _ _ hactive => exact absurd hactive (hs.activation m _ hpc rfl).1
  · rcases step_reloading h hl with hwas | ⟨-, hinner⟩
    swap
    · simp [hinner]
    cases hseat with
    | kept _ hstate =>
      rcases hstate with hsame | ⟨-, -, hstarting⟩
      · rw [hsame]
        exact hs.reloading hwas
      · intro hnow
        obtain ⟨n, hn⟩ := hstarting hnow
        exact absurd hwas (hreload n _ _ hn rfl)
    | deferred _ _ _ _ _ hstate => simp [hstate]
    | committed _ _ _ _ _ _ hstate => simp [hstate]
    | marked _ _ _ _ hstate => simp [hstate]
    | restored _ _ _ hstate => simp [hstate]
    | cutover _ _ _ _ hstate => simp [hstate]

/-! ## Fibers that stand for their plugin -/

/-- The Fiber was committed and has not been retired. -/
structure FiberCell.Serves (c : FiberCell) : Prop where
  state : c.inner.state = .Active ∨ c.inner.state = .Reloading
  committed : c.inner.staged = false
  current : c.retired = false

/-- **A Fiber comes to stand for its plugin by a commit or a cutover only.** -/
theorem serves_step (hc : c.Sound) (hs : c.Seated) (h : c.step l = some c') (hnow : c'.Serves) :
    (c.Serves ∧ c'.generation = c.generation) ∨
    (∃ n checked, l = .activationCommit n checked .NONE ∧ c'.generation = c.generation ∧
      c.inner.state = .Starting ∧ c'.inner.state = .Active) ∨
        ∃ target active, l = .cutover target active := by
  have hgate : c.retired = false ∧ c'.generation = c.generation := by
    cases step_gated h with
    | kept hgeneration hretired => exact ⟨hretired.symm.trans hnow.current, hgeneration⟩
    | closed _ _ _ _ _ hretired | superseded _ _ hretired =>
      rw [hnow.current] at hretired
      contradiction
    | renewed _ _ _ _ _ _ hstarting => simpa [hstarting] using hnow.state
  have hkept : c'.inner.staged = c.inner.staged → (c.inner.state = .Active ∨
      c.inner.state = .Reloading) → c.Serves ∧ c'.generation = c.generation :=
    fun hstaged hstate => ⟨⟨hstate, hstaged ▸ hnow.committed, hgate.1⟩, hgate.2⟩
  cases step_seat hc.consistent h with
  | kept hstaged hstate =>
    rcases hstate with hsame | ⟨hactive, hreloading, -⟩
    · exact .inl (hkept hstaged (hsame ▸ hnow.state))
    · exact absurd hnow.state (by simp [hactive, hreloading])
  | deferred n _ hwas _ hstaged =>
    have hflag := hnow.committed
    rw [hstaged, hs.deferring n hwas] at hflag
    contradiction
  | committed n checked hlabel _ _ hstarting hstate =>
    exact .inr (.inl ⟨n, checked, hlabel, hgate.2, hstarting, hstate⟩)
  | marked _ _ _ hactive _ hstaged => exact .inl (hkept hstaged (.inl hactive))
  | restored _ hwas hlegal _ hstaged =>
    exact .inl (hkept hstaged (.inr (hlegal.resolve_right (hs.reloading hwas))))
  | cutover target active hlabel => exact .inr (.inr ⟨target, active, hlabel⟩)

end Cordis
