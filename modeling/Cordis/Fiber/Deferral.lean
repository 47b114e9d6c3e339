import Cordis.Fiber.Tenure

/-!
# The start barrier of a Fiber

`activation` is the `watch` sender that tasks spawned during an activation wait for. It is made when an
activation begins and given up by the commit, the cutover, the failure or the disposal, whichever comes
first. A staged Fiber is `Active` with its barrier still in place until the cutover; that the state of such
a Fiber tells nothing else rests on its being activated once.
-/

namespace Cordis

variable {c c' : FiberCell} {l : FiberLabel}

/-- The activation has begun, and its call has not returned. -/
def ActivationPc.begun : ActivationPc → Bool
  | queued | locked | returned _ => false
  | _ => true

/-- What a section does to the start barrier, the `staged` flag and the claim of a reload on the Fiber. -/
inductive FiberCell.Barred (l : FiberLabel) (c c' : FiberCell) : Prop
  | kept (activation : c'.inner.activation = c.inner.activation)
      (staged : c'.inner.staged = c.inner.staged) (claimed : c'.inner.reloadOwned = c.inner.reloadOwned)
      (quiet : ∀ w, l.Requests w → c'.control = c.control)
  | made (n : Nat) (label : ∃ b x, l = .activationBegin n b x) (was : c.activations n = some .locked)
      (now : c'.activations n = some .selecting)
      (idle : c.inner.state = .Created ∨ c.inner.state = .WaitingDependencies)
      (starting : c'.inner.state = .Starting) (activation : c'.inner.activation = true)
      (staged : c'.inner.staged = c.inner.staged) (claimed : c'.inner.reloadOwned = c.inner.reloadOwned)
  | asked (w a : Bool) (label : l.Asks w a) (claim : c.inner.reloadOwned = true → a = true)
      (activation : c'.inner.activation = c.inner.activation ∨
        c'.inner.state = .Disposing ∧ c'.inner.activation = false)
      (waits : c'.inner.disposal.waitForDependencies = (c.inner.disposal.waitForDependencies && w))
      (staged : c'.inner.staged = c.inner.staged) (claimed : c'.inner.reloadOwned = false)
  | failed (n : Nat) (e : CordisError) (label : l = .activationFail n)
      (was : c.activations n = some (.unlocked e))
      (state : c'.inner.state = if c.inner.state = .Starting then .Failed else c.inner.state)
      (activation : c'.inner.activation = false) (staged : c'.inner.staged = c.inner.staged)
      (claimed : c'.inner.reloadOwned = c.inner.reloadOwned)
  | committed (n : Nat) (o : Outcome) (g : GenerationId) (label : l = .activationCommit n o g)
      (was : c.activations n = some .checked) (now : c'.activations n = some .committed)
      (starting : c.inner.state = .Starting) (state : c'.inner.state = .Active)
      (activation : c'.inner.activation = false) (staged : c'.inner.staged = false)
  | cutover (target : ScopeId) (g : GenerationId) (label : l = .cutover target g)
      (active : c.inner.state = .Active) (activations : c'.activations = c.activations)
      (activation : c'.inner.activation = false) (staged : c'.inner.staged = false)

theorem step_barred (h : c.step l = some c') : c.Barred l c' := by
  cases step_writes h with
  | kept _ refused inner => exact .kept (by rw [inner]) (by rw [inner]) (by rw [inner]) refused
  | joined w _ a label claim inner =>
    exact .asked w a label claim (.inl (by rw [inner])) (by rw [inner]) (by rw [inner]) (by rw [inner])
  | opened w _ a label claim _ inner =>
    exact .asked w a label claim (.inr ⟨by rw [inner], by rw [inner]⟩) (by rw [inner]) (by rw [inner])
        (by rw [inner])
  | renewed n g label was now waiting _ inner =>
    exact .made n ⟨_, _, label⟩ was now (.inr waiting) (by rw [inner]; rfl) (by rw [inner]; rfl)
        (by rw [inner]; rfl)
      (by rw [inner]; rfl)
  | started n fresh label was now idle inner =>
    exact .made n ⟨_, _, label⟩ was now idle (by rw [inner]; rfl) (by rw [inner]; rfl) (by rw [inner]; rfl)
      (by rw [inner]; rfl)
  | failed n e label was inner =>
    exact .failed n e label was (by rw [inner]; rfl) (by rw [inner]; rfl) (by rw [inner]; rfl) (by rw [inner]; rfl)
  | committed n label was now starting _ inner =>
    exact .committed n _ _ label was now starting (by rw [inner]) (by rw [inner]) (by rw [inner])
  | cutover target g label active inner =>
    subst label
    obtain ⟨-, rfl⟩ := step_cutovers h
    exact .cutover target g rfl active rfl rfl rfl
  | registered entry label _ inner =>
    subst label
    rw [FiberCell.registered.eq_def] at inner
    cases entry <;> exact .kept (by rw [inner]) (by rw [inner]) (by rw [inner]) (by simp [FiberLabel.Requests])
  | advanced _ _ _ _ _ _ _ asked inner =>
    exact .kept (by rw [inner]; rfl) (by rw [inner]; rfl) (by rw [inner]; rfl) fun w hw => absurd hw (asked w)
  | childDone _ _ _ _ label inner | reported _ _ _ label inner =>
    refine .kept (by rw [inner]) (by rw [inner]) (by rw [inner]) fun w hw => ?_
    rcases label with rfl | rfl <;> simp [FiberLabel.Requests] at hw
  | halted _ _ label inner | sealed _ label _ _ inner | deferred _ label _ _ inner | emptied label _ inner
  | draining _ _ label _ inner | detachedDraining _ label _ inner | handlerTaken label _ inner
  | invocationHandlerTaken label _ inner | middlewareTaken label _ inner | withdrawn _ label _ inner
  | effectTaken _ _ label _ _ _ inner | finalized _ _ _ label _ inner | marked label _ _ _ inner
  | restored label _ _ inner | superseded label inner | parked label inner | hostFailed _ label inner
  | detached _ label inner | acquired label _ inner | dropped label _ _ inner =>
    subst label
    exact .kept (congrArg (·.activation) inner) (congrArg (·.staged) inner) (congrArg (·.reloadOwned) inner)
      (by simp [FiberLabel.Requests])

/-! ## A staged Fiber is activated once -/

/-- The callers of `activate` have just seen the Fiber waiting, and those who may dispose a Fiber that a
reload owns do it for good. -/
def FiberCell.Called (c : FiberCell) : FiberLabel → Prop
  | .callActivate => c.inner.state = .WaitingDependencies
  | .callDispose w _ a => a = true → w = false
  | _ => True

instance (c : FiberCell) (l : FiberLabel) : Decidable (c.Called l) := by
  apply l.casesOn (motive := fun l => Decidable (c.Called l)) <;> intros <;> unfold FiberCell.Called <;>
    infer_instance

/-- The staged branch of `activate_body` finds the activation still the Fiber's state. -/
def FiberCell.Prompt (c : FiberCell) : FiberLabel → Prop
  | .activationDefer _ => c.inner.state = .Starting
  | _ => True

instance (c : FiberCell) (l : FiberLabel) : Decidable (c.Prompt l) := by
  apply l.casesOn (motive := fun l => Decidable (c.Prompt l)) <;> intros <;> unfold FiberCell.Prompt <;>
    infer_instance

theorem Asks.called {w a : Bool} (h : l.Asks w a) (hl : c.Called l) : a = true → w = false := by
  cases h with
  | call w p a => exact hl
  | cleanup n => exact fun _ => rfl

/-- No round of the Fiber ends in `WaitingDependencies`. -/
structure Control.Lowered (k : Control) : Prop where
  waits : k.waits = false
  aim : k.worker.bind DisposalPc.target ≠ some .WaitingDependencies
  complete : k.phase = .Complete → k.state = .Disposed

theorem lowered_move {k : Control} (hc : c.Sound) (hk : c.control.Lowered) (hm : Move l c k) : k.Lowered := by
  obtain ⟨hwaits, haim, hcomplete⟩ := hk
  have hkeep : c.inner.disposal.phase = .Complete → k.state = .Disposed :=
    fun h => disposed_move hc (hcomplete h) hm
  have hlow : c.inner.disposal.waitForDependencies = false := hwaits
  cases hm with
  | quiet => exact ⟨hwaits, haim, hcomplete⟩
  | start | deferred | parked | written | failed => exact ⟨hwaits, haim, hkeep⟩
  | restart _ waiting complete =>
    have hdisposed : c.inner.state = .Disposed := hcomplete complete
    rw [hdisposed] at waiting
    contradiction
  | refused | joined => exact ⟨by simp [hlow], haim, hkeep⟩
  | requested => exact ⟨by simp [hlow], by simp [DisposalPc.target], nofun⟩
  | worked pc pc' ph' b was next phase =>
    refine ⟨hwaits, ?_, fun h => ?_⟩
    · have hold : pc.target ≠ some .WaitingDependencies := by
        simpa [FiberCell.control, was] using haim
      show pc'.target ≠ _
      rcases next.target with h | h | h | ⟨-, h⟩
      · rwa [h]
      · simp [h]
      · simp [h]
      · rw [hlow] at h
        contradiction
    · rcases phase with hsame | hrunning
      · exact hkeep (hsame.symm.trans h)
      · rw [show ph' = .Complete from h] at hrunning
        contradiction
  | gaveUp => exact ⟨hwaits, by simp, hkeep⟩
  | finalized result target terminated was =>
    refine ⟨hwaits, by simp, fun h => ?_⟩
    cases terminated with
    | true => simp at h
    | false =>
      obtain ⟨t, ht⟩ := hc.consistent.decided _ was rfl rfl
      obtain rfl : target = some t := ht
      rcases hc.consistent.target _ t was rfl with rfl | rfl
      · rfl
      · exact absurd (by simp [FiberCell.control, was, DisposalPc.target]) haim

theorem idle_move {k : Control} (hidle : c.inner.disposal.phase = .Idle) (hworker : c.worker = none)
    (hm : Move l c k) : k.phase = .Idle ∧ k.worker = none ∨
      (∃ w, l.Requests w) ∧ k.phase = .Tasks ∧ k.worker = some .spawned := by
  cases hm with
  | quiet | start | deferred | parked | written | failed | refused => exact .inl ⟨hidle, hworker⟩
  | restart _ _ complete =>
    rw [hidle] at complete
    contradiction
  | joined _ _ _ _ phase => exact absurd hidle phase
  | requested w _ _ label => exact .inr ⟨⟨w, label⟩, rfl, rfl⟩
  | worked _ _ _ _ was | gaveUp _ was | finalized _ _ _ was =>
    rw [hworker] at was
    contradiction

/-- Nobody disposes a staged Fiber to have it wait. -/
def FiberCell.Claimed (c : FiberCell) : Prop :=
  c.inner.staged = true →
    c.inner.reloadOwned = true ∧ c.inner.disposal.phase = .Idle ∧ c.worker = none ∨ c.control.Lowered

theorem barred_staged (h : c.Barred l c') (hs : c'.inner.staged = true) : c.inner.staged = true := by
  cases h with
  | kept _ staged | made _ _ _ _ _ _ _ staged | asked _ _ _ _ _ _ staged | failed _ _ _ _ _ _ staged =>
    rwa [staged] at hs
  | committed _ _ _ _ _ _ _ _ _ staged | cutover _ _ _ _ _ _ staged =>
    rw [staged] at hs
    contradiction

theorem claimed_step (hc : c.Sound) (hl : c.Called l) (hclaimed : c.Claimed) (h : c.step l = some c') :
    c'.Claimed := by
  intro hs'
  have hbarred := step_barred h
  have hmove := step_move h
  rcases hclaimed (barred_staged hbarred hs') with ⟨howned, hidle, hworker⟩ | hlow
  swap
  · exact .inr (lowered_move hc hlow hmove)
  -- as long as the reload owns the Fiber its disposal has not begun
  have hstay : c'.inner.reloadOwned = c.inner.reloadOwned → (∀ w, ¬ l.Requests w) →
      c'.inner.reloadOwned = true ∧ c'.inner.disposal.phase = .Idle ∧ c'.worker = none ∨
        c'.control.Lowered := by
    intro hsame hquiet
    rcases idle_move hidle hworker hmove with ⟨hphase, hnone⟩ | ⟨⟨w, hw⟩, -⟩
    · exact .inl ⟨hsame.trans howned, hphase, hnone⟩
    · exact absurd hw (hquiet w)
  cases hbarred with
  | kept _ _ claimed quiet =>
    by_cases hasks : ∃ w, l.Requests w
    · obtain ⟨w, hw⟩ := hasks
      have hcontrol := quiet w hw
      exact .inl ⟨claimed.trans howned, (congrArg Control.phase hcontrol).trans hidle,
        (congrArg Control.worker hcontrol).trans hworker⟩
    · exact hstay claimed (not_exists.mp hasks)
  | made _ label _ _ _ _ _ _ claimed =>
    obtain ⟨_, _, rfl⟩ := label
    exact hstay claimed (by simp [FiberLabel.Requests])
  | failed _ _ label _ _ _ _ claimed =>
    subst label
    exact hstay claimed (by simp [FiberLabel.Requests])
  | asked w a label claim _ waits =>
    right
    have hw : w = false := Asks.called label hl (claim howned)
    refine ⟨by rw [show c'.control.waits = _ from waits, hw, Bool.and_false], ?_, fun hcomplete => ?_⟩
    · rcases idle_move hidle hworker hmove with ⟨-, hnone⟩ | ⟨-, -, hspawned⟩
      · simp [hnone]
      · simp [hspawned, DisposalPc.target]
    · rcases idle_move hidle hworker hmove with ⟨hphase, -⟩ | ⟨-, hphase, -⟩
      all_goals
        rw [hphase] at hcomplete
        contradiction
  | committed _ _ _ _ _ _ _ _ _ staged | cutover _ _ _ _ _ _ staged =>
    rw [staged] at hs'
    contradiction

/-! ## One activation of a staged Fiber -/

theorem begun_activation {n : Nat} {pc : ActivationPc} (h : c.stepActivation n pc l = some c') :
    ∃ pc', c'.activations = Function.update c.activations n (some pc') ∧
      (pc'.begun = true → pc.begun = true ∧ pc ≠ .committed ∨ pc = .locked ∧
        (c.inner.state = .Created ∨ c.inner.state = .WaitingDependencies) ∧ c'.inner.state = .Starting) := by
  cases l <;> simp only [FiberCell.stepActivation] at h
  case activationBegin call admitted fresh =>
    split at h <;> try contradiction
    cases admitted with
    | false =>
      cases h
      exact ⟨_, rfl, by simp [ActivationPc.begun]⟩
    | true =>
      simp only [if_true, FiberMutable.beginActivation] at h
      split_ifs at h with hfrom hback
      · cases fresh <;> cases h
        · exact ⟨_, rfl, by simp [ActivationPc.begun]⟩
        · exact ⟨_, rfl, fun _ => .inr ⟨rfl, hfrom, rfl⟩⟩
      · cases h
        exact ⟨_, rfl, fun _ => .inr ⟨rfl, hfrom, rfl⟩⟩
      · cases h
        exact ⟨_, rfl, by simp [ActivationPc.begun]⟩
  case activationFail =>
    split at h <;> try contradiction
    cases h
    unfold FiberCell.withMut
    split_ifs <;> exact ⟨_, rfl, fun _ => .inl ⟨rfl, by simp⟩⟩
  case activationDispose =>
    split at h <;> try contradiction
    obtain ⟨hactivations, -⟩ := dispose_frame c false false true
    split at h
    all_goals
      rename_i hdispose
      cases h
      rw [hdispose] at hactivations
      exact ⟨_, congrArg (Function.update · n _) hactivations, fun _ => .inl ⟨rfl, by simp⟩⟩
  all_goals
    repeat' split at h
    all_goals first
      | contradiction
      | (cases h; exact ⟨_, rfl, by simp [ActivationPc.begun]⟩)

theorem step_begun (h : c.step l = some c') {n : Nat} {q : ActivationPc} (hq : c'.activations n = some q)
    (hbegun : q.begun = true) :
    (∃ pc, c.activations n = some pc ∧ pc.begun = true ∧ (pc = .committed → q = .committed)) ∨
      c.activations n = some .locked ∧ (c.inner.state = .Created ∨ c.inner.state = .WaitingDependencies) ∧
        c'.inner.state = .Starting := by
  rcases step_activations h hq with hsame | rfl | ⟨pc, hpc, hstep⟩
  · exact .inl ⟨q, hsame, hbegun, id⟩
  · contradiction
  · obtain ⟨pc', hmoved, hbefore⟩ := begun_activation hstep
    obtain rfl : pc' = q := by simpa [hmoved] using hq
    rcases hbefore hbegun with ⟨hold, hne⟩ | ⟨rfl, hidle, hstarting⟩
    · exact .inl ⟨pc, hpc, hold, fun heq => absurd heq hne⟩
    · exact .inr ⟨hpc, hidle, hstarting⟩

/-- The install has not come to its call of `activate` or its `transition`. -/
def InstallPc.early : InstallPc → Bool
  | indexing _ | checking | waiting => true
  | _ => false

/-- What is known of a staged Fiber. -/
structure FiberCell.Once (c : FiberCell) : Prop where
  claimed : c.Claimed
  early : c.inner.staged = true → c.installer.early = true →
    (∀ n, c.activations n = none) ∧ c.inner.state ≠ .WaitingDependencies
  fresh : c.inner.staged = true → c.inner.state = .Created ∨ c.inner.state = .WaitingDependencies →
    ∀ n pc, c.activations n = some pc → pc.begun = false
  single : c.inner.staged = true → ∀ n m p q, c.activations n = some p → c.activations m = some q →
    p.begun = true → q.begun = true → n = m
  deferred : c.inner.staged = true → c.inner.state = .Active ∨ c.inner.state = .Reloading →
    ∀ n pc, c.activations n = some pc → pc.begun = true → pc = .committed

theorem once_created (id : FiberId) (plugin : PluginId) (scope : ScopeId)
    (descriptor : PluginDescriptor) (generation : GenerationId) (staged : Bool) :
    (FiberCell.created id plugin scope descriptor generation staged).Once where
  claimed := fun hs => .inl ⟨hs, rfl, rfl⟩
  early := fun _ _ => ⟨fun _ => rfl, nofun⟩
  fresh := fun _ _ _ _ h => by cases h
  single := fun _ _ _ _ _ h => by cases h
  deferred := fun _ _ _ _ h => by cases h

theorem step_idle (hc : c.Sound) (h : c.step l = some c')
    (hidle : c'.inner.state = .Created ∨ c'.inner.state = .WaitingDependencies) :
    c'.inner.state = c.inner.state ∨ l = .installWait ∨
      c.worker.bind DisposalPc.target = some .WaitingDependencies := by
  have hmove := step_move h
  have hstate : c'.control.state = c'.inner.state := rfl
  generalize c'.control = k at hmove hstate
  rw [← hstate] at hidle ⊢
  cases hmove with
  | quiet | refused | joined | worked | gaveUp => exact .inl rfl
  | start s' from_ =>
    rcases from_ with heq | ⟨-, rfl⟩
    · exact .inl heq
    · simp at hidle
  | restart s' waiting _ next =>
    rcases next with rfl | rfl
    · exact .inl waiting.symm
    · simp at hidle
  | deferred | requested => simp at hidle
  | parked label => exact .inr (.inl label)
  | written s' _ next =>
    rcases next with rfl | rfl | rfl <;> simp at hidle
  | failed s' next =>
    rcases next with heq | ⟨-, rfl⟩
    · exact .inl heq
    · simp at hidle
  | finalized result target terminated was =>
    cases terminated with
    | true => exact .inl rfl
    | false =>
      obtain ⟨t, ht⟩ := hc.consistent.decided _ was rfl rfl
      obtain rfl : target = some t := ht
      rcases hc.consistent.target _ t was rfl with rfl | rfl
      · simp at hidle
      · exact .inr (.inr (by simp [was, DisposalPc.target]))

/-- Before the install comes to its call of `activate`, only somebody else may call it. -/
theorem step_early (h : c.step l = some c') (hearly : c'.installer.early = true) :
    c.installer.early = true ∧ l ≠ .installWait ∧
      (l ≠ .callActivate → (∀ n, c.activations n = none) → ∀ n, c'.activations n = none) := by
  have hsame : l ≠ .installWait → c'.installer = c.installer →
      (l ≠ .callActivate → c'.activations = c.activations) →
      c.installer.early = true ∧ l ≠ .installWait ∧
        (l ≠ .callActivate → (∀ n, c.activations n = none) → ∀ n, c'.activations n = none) :=
    fun hne hinstaller hactivations =>
      ⟨hinstaller ▸ hearly, hne, fun hl hnone n => by rw [hactivations hl, hnone]⟩
  cases step_turn h with
  | activation n pc label was step =>
    refine ⟨?_, ?_, fun _ hnone => ?_⟩
    · by_cases hl : ∃ m, l = .activationDispose m
      · obtain ⟨m, rfl⟩ := hl
        obtain ⟨e, pc', -, rfl⟩ := stepDispose_eq step
        rwa [dispose_eq] at hearly
      · obtain ⟨pc', heq⟩ := stepActivation_eq step fun m hm => hl ⟨m, hm⟩
        rwa [heq] at hearly
    · rintro rfl
      contradiction
    · rw [hnone] at was
      contradiction
  | worker pc was step =>
    refine hsame ?_ (by rw [stepWorker_eq step]) fun _ => by rw [stepWorker_eq step]
    rintro rfl
    contradiction
  | reload pc was step =>
    refine hsame ?_ (by rw [stepReload_eq step]) fun _ => by rw [stepReload_eq step]
    rintro rfl
    contradiction
  | install step =>
    cases l <;> simp only [FiberCell.stepInstall] at step <;> try contradiction
    all_goals
      repeat' split at step
      all_goals first
        | contradiction
        | (cases step; simp [InstallPc.early] at hearly; done)
        | (cases step; exact ⟨by simp [*, InstallPc.early], by simp, fun _ hnone => hnone⟩)
  | disposed w p a label now =>
    subst label now
    exact hsame (by simp) (by rw [dispose_eq]) fun _ => by rw [dispose_eq]
  | called label _ now =>
    subst label now
    exact hsame (by simp) rfl fun hne => absurd rfl hne
  | replaced label _ now | cutover _ _ label _ _ now | hostFailed _ label _ now | reclaimed label _ _ now
  | registered _ label _ now | detached _ label now | acquired label _ _ now | dropped label _ _ now =>
    subst label now
    exact hsame (by simp) rfl fun _ => rfl

theorem commit_staged {n : Nat} {o : Outcome} {g : GenerationId}
    (h : c.step (.activationCommit n o g) = some c') (hwas : c.inner.state = .Starting)
    (hnow : c'.inner.state = .Active) : c'.inner.staged = false ∧ c'.inner.activation = false := by
  obtain ⟨-, -, -, hinner⟩ := step_commits h hwas hnow
  rw [hinner]
  exact ⟨rfl, rfl⟩

theorem cutover_staged {target : ScopeId} {g : GenerationId} (h : c.step (.cutover target g) = some c') :
    c'.inner.staged = false ∧ c'.inner.activation = false := by
  obtain ⟨-, rfl⟩ := step_cutovers h
  exact ⟨rfl, rfl⟩

theorem once_step (hc : c.Sound) (hseated : c.Seated) (hl : c.Called l) (hprompt : c.Prompt l) (ho : c.Once)
    (h : c.step l = some c') : c'.Once := by
  have hbarred := step_barred h
  have hseat := step_seat hc.consistent h
  -- a staged Fiber comes to wait by the install alone, before its only activation
  have hidle : c'.inner.staged = true → c'.inner.state = .Created ∨ c'.inner.state = .WaitingDependencies →
      c'.inner.state = c.inner.state ∨ l = .installWait := by
    intro hs' hstate
    rcases step_idle hc h hstate with hsame | hinstall | haim
    · exact .inl hsame
    · exact .inr hinstall
    · rcases ho.claimed (barred_staged hbarred hs') with ⟨-, -, hnone⟩ | hlow
      · rw [hnone] at haim
        contradiction
      · exact absurd haim hlow.aim
  refine ⟨claimed_step hc hl ho.claimed h, fun hs' hearly => ?_, fun hs' hstate n pc hpc => ?_,
    fun hs' n m p q hp hq hbp hbq => ?_, fun hs' hstate n pc hpc hbegun => ?_⟩
  · have hs := barred_staged hbarred hs'
    obtain ⟨hwas, hwait, hnone⟩ := step_early h hearly
    obtain ⟨hactivations, hstate⟩ := ho.early hs hwas
    refine ⟨hnone ?_ hactivations, fun hnow => ?_⟩
    · rintro rfl
      exact hstate hl
    · rcases hidle hs' (.inr hnow) with hsame | hinstall
      · exact hstate (hsame.symm.trans hnow)
      · exact hwait hinstall
  · have hs := barred_staged hbarred hs'
    by_contra hne
    rcases step_begun h hpc (by simpa using hne) with ⟨p, hp, hbegun, -⟩ | ⟨-, -, hstarting⟩
    · rcases hidle hs' hstate with hsame | rfl
      · rw [ho.fresh hs (hsame ▸ hstate) n p hp] at hbegun
        contradiction
      · have hwaiting : c.installer.early = true := by
          simp only [FiberCell.step, FiberCell.stepInstall] at h
          split at h <;> try contradiction
          rename_i hpc
          rw [hpc]
          rfl
        rw [(ho.early hs hwaiting).1] at hp
        contradiction
    · rw [hstarting] at hstate
      simp at hstate
  · have hs := barred_staged hbarred hs'
    rcases step_begun h hp hbp with ⟨p', hp', hbp', -⟩ | ⟨hn, hidle', -⟩
    · rcases step_begun h hq hbq with ⟨q', hq', hbq', -⟩ | ⟨-, hidle', -⟩
      · exact ho.single hs n m p' q' hp' hq' hbp' hbq'
      · rw [ho.fresh hs hidle' n p' hp'] at hbp'
        contradiction
    · rcases step_begun h hq hbq with ⟨q', hq', hbq', -⟩ | ⟨hm, -, -⟩
      · rw [ho.fresh hs hidle' m q' hq'] at hbq'
        contradiction
      · -- both hold the mutex
        have hholder := hc.exclusive n _ hn rfl
        rw [hc.exclusive m _ hm rfl] at hholder
        simpa [eq_comm] using hholder
  · have hs := barred_staged hbarred hs'
    rcases step_begun h hpc hbegun with ⟨p, hp, hbp, hstay⟩ | ⟨-, -, hstarting⟩
    swap
    · rw [hstarting] at hstate
      simp at hstate
    cases hseat with
    | kept _ state =>
      rcases state with hsame | ⟨hactive, hreloading, -⟩
      · exact hstay (ho.deferred hs (hsame ▸ hstate) n p hp hbp)
      · simp [hactive, hreloading] at hstate
    | deferred m label was now =>
      obtain rfl : n = m := ho.single hs n m p _ hp was hbp rfl
      rw [now] at hpc
      exact (Option.some.inj hpc).symm
    | committed m checked label was now starting state =>
      rw [(commit_staged (label ▸ h) starting state).1] at hs'
      contradiction
    | marked _ _ _ active => exact hstay (ho.deferred hs (.inl active) n p hp hbp)
    | restored _ was legal =>
      exact hstay (ho.deferred hs (.inr (legal.resolve_right (hseated.reloading was))) n p hp hbp)
    | cutover target active label =>
      rw [(cutover_staged (label ▸ h)).1] at hs'
      contradiction

/-! ## What the state tells of the barrier -/

/-- The barrier of a Fiber that is starting is in place; that of one that is active, only while it is
staged. -/
structure FiberCell.Withheld (c : FiberCell) : Prop where
  starting : c.inner.state = .Starting → c.inner.activation = true
  staged : c.inner.state = .Active ∨ c.inner.state = .Reloading → c.inner.activation = true →
    c.inner.staged = true

theorem withheld_created (id : FiberId) (plugin : PluginId) (scope : ScopeId)
    (descriptor : PluginDescriptor) (generation : GenerationId) (staged : Bool) :
    (FiberCell.created id plugin scope descriptor generation staged).Withheld where
  starting := nofun
  staged := fun h => by simp [FiberCell.created, FiberMutable.created] at h

theorem step_starting (hc : c.control.Consistent) (h : c.step l = some c') (hnow : c'.inner.state = .Starting) :
    c.inner.state = .Starting ∨ c'.inner.activation = true := by
  cases step_writes h with
  | renewed _ _ _ _ _ _ _ inner | started _ _ _ _ _ _ inner =>
    rw [inner]
    exact .inr rfl
  | failed _ _ _ _ inner =>
    rw [inner] at hnow
    by_contra hne
    exact hne (.inl ((if_neg (not_or.mp hne).1).symm.trans hnow))
  | finalized result target terminated _ worker inner =>
    rw [inner] at hnow
    cases terminated with
    | true => exact .inl hnow
    | false =>
      cases target with
      | none => exact .inl hnow
      | some t => rcases hc.target _ t worker rfl with rfl | rfl <;> contradiction
  | opened _ _ _ _ _ _ inner | deferred _ _ _ _ inner | committed _ _ _ _ _ _ inner | marked _ _ _ _ inner
  | restored _ _ _ inner | parked _ inner | hostFailed _ _ inner =>
    rw [inner] at hnow
    contradiction
  | cutover _ _ _ active inner =>
    rw [inner, FiberMutable.cutover, active] at hnow
    contradiction
  | registered entry _ _ inner =>
    rw [inner] at hnow
    cases entry <;> exact .inl hnow
  | _ =>
    rename_i inner
    rw [inner] at hnow
    exact .inl hnow

theorem withheld_step (hc : c.Sound) (hseated : c.Seated) (hw : c.Withheld) (h : c.step l = some c') :
    c'.Withheld := by
  have hbarred := step_barred h
  have hseat := step_seat hc.consistent h
  refine ⟨fun hnow => ?_, fun hnow hflag => ?_⟩
  · rcases step_starting hc.consistent h hnow with hwas | hnew
    swap
    · exact hnew
    have hflag := hw.starting hwas
    cases hbarred with
    | kept activation => exact activation.trans hflag
    | made _ _ _ _ _ _ activation => exact activation
    | asked _ _ _ _ activation =>
      rcases activation with hsame | ⟨hdisposing, -⟩
      · exact hsame.trans hflag
      · rw [hdisposing] at hnow
        contradiction
    | failed _ _ _ _ state =>
      rw [state, if_pos hwas] at hnow
      contradiction
    | committed _ _ _ _ _ _ _ state =>
      rw [state] at hnow
      contradiction
    | cutover _ _ _ active =>
      rw [active] at hwas
      contradiction
  · have hkept : c.inner.state = .Active ∨ c.inner.state = .Reloading → c'.inner.staged = c.inner.staged →
        c'.inner.staged = true := by
      intro hwas hstaged
      cases hbarred with
      | kept activation => exact hstaged.trans (hw.staged hwas (activation.symm.trans hflag))
      | made _ _ _ _ idle =>
        rcases idle with h | h <;> rw [h] at hwas <;> simp at hwas
      | asked _ _ _ _ activation =>
        rcases activation with hsame | ⟨hdisposing, -⟩
        · exact hstaged.trans (hw.staged hwas (hsame.symm.trans hflag))
        · rw [hdisposing] at hnow
          simp at hnow
      | failed _ _ _ _ _ activation | committed _ _ _ _ _ _ _ _ activation | cutover _ _ _ _ _ activation =>
        rw [activation] at hflag
        contradiction
    cases hseat with
    | kept staged state =>
      rcases state with hsame | ⟨hactive, hreloading, -⟩
      · exact hkept (hsame ▸ hnow) staged
      · simp [hactive, hreloading] at hnow
    | deferred m label was now staged state => exact staged.trans (hseated.deferring m was)
    | committed m checked label was now starting state =>
      rw [(commit_staged (label ▸ h) starting state).2] at hflag
      contradiction
    | marked _ _ _ active _ staged => exact hkept (.inl active) staged
    | restored _ was legal _ staged =>
      exact hkept (.inr (legal.resolve_right (hseated.reloading was))) staged
    | cutover target active label =>
      rw [(cutover_staged (label ▸ h)).2] at hflag
      contradiction

end Cordis
