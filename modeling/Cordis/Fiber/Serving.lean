import Cordis.Fiber.Ledger
import Cordis.Fiber.Tenure

/-!
# A Fiber that serves

A committed Fiber that is `Active` stands for its plugin, and what its descriptor declares is in
`provided`: a sealed activation has been validated, and takes no registration until it commits.
-/

namespace Cordis

open Machine

variable {c c' : FiberCell} {l : FiberLabel}

/-! ## Sealed activations -/

/-- The record is sealed, or its state is not `Starting`. -/
def FiberMutable.Seals (r : FiberMutable) : Prop := r.activationSealed = true ∨ r.state ≠ .Starting

/-- **A seal is broken by a new activation, or with the state `Starting`.** -/
theorem step_seals (hk : c.control.Consistent) (hc : c.inner.Seals) (h : c.step l = some c') :
    c'.inner.Seals ∨ ∃ n, c.activations n = some .locked := by
  cases step_writes h with
  | renewed n _ _ was | started n _ _ was => exact .inr ⟨n, was⟩
  | sealed _ _ _ _ inner | failed _ _ _ _ inner =>
    rw [inner]
    exact .inl (.inl rfl)
  | opened _ _ _ _ _ _ inner | deferred _ _ _ _ inner | committed _ _ _ _ _ _ inner | marked _ _ _ _ inner
  | restored _ _ _ inner | parked _ inner | hostFailed _ _ inner =>
    rw [inner]
    exact .inl (.inr nofun)
  | cutover _ _ _ active inner =>
    refine .inl (.inr ?_)
    rw [inner, FiberMutable.cutover, active]
    nofun
  | finalized result target terminated _ worker inner =>
    rw [inner]
    refine .inl (hc.imp id fun hstate => ?_)
    cases terminated with
    | true => exact hstate
    | false =>
      -- a worker aims at `Disposed` or `WaitingDependencies`
      cases target with
      | none => exact hstate
      | some t => rcases hk.target _ t worker rfl with rfl | rfl <;> nofun
  | registered entry _ _ inner =>
    rw [inner]
    cases entry <;> exact .inl hc
  | _ =>
    rename_i inner
    rw [inner]
    exact .inl hc

/-- An activation past sealing leaves the record sealed. -/
def FiberCell.Frozen (c : FiberCell) : Prop :=
  ∀ n pc, c.activations n = some pc → pc.seated = true → c.inner.Seals

theorem frozen_step (hc : c.Sound) (hf : c.Frozen) (h : c.step l = some c') : c'.Frozen := by
  intro m q hq hseated
  -- the mutex is taken, so no activation is about to begin
  have hfree : ∀ m pc, c.activations m = some pc → pc.seated = true → ∀ n, c.activations n ≠ some .locked := by
    intro m pc hpc hpcs n hn
    have hholder := hc.exclusive n .locked hn rfl
    rw [hc.exclusive m pc hpc (ActivationPc.held_of_seated hpcs)] at hholder
    obtain rfl : m = n := by simpa using hholder
    rw [hpc] at hn
    cases hn
    contradiction
  rcases step_activations h hq with hsame | rfl | ⟨pc, hpc, hstep⟩
  · rcases step_seals hc.consistent (hf m q hsame hseated) h with hseals | ⟨n, hn⟩
    · exact hseals
    · exact absurd hn (hfree m q hsame hseated n)
  · contradiction
  · obtain ⟨pc', hmoved, hseat, -⟩ := activation_seating hstep
    obtain rfl : pc' = q := by simpa [hmoved] using hq
    rcases hseat hseated with hpcs | ⟨-, hsealed⟩
    · rcases step_seals hc.consistent (hf m pc hpc hpcs) h with hseals | ⟨n, hn⟩
      · exact hseals
      · exact absurd hn (hfree m pc hpc hpcs n)
    · exact .inl hsealed

/-! ## Declared provisions -/

/-- Every declared service has been provided. -/
def FiberMutable.Declares (r : FiberMutable) : Prop :=
  ∀ k ∈ r.descriptor.provisions, k ∈ r.provided

theorem declares_kept (hc : c.inner.Declares) (h : c.step l = some c')
    (hl : l ≠ .withdraw) : c'.inner.Declares := by
  intro k hk
  rw [(step_same h).descriptor] at hk
  exact step_provided h hl k (hc k hk)

/-! ## Services on their way out -/

/-- The Fiber has provided the service, and its worker has not dealt with the entry. -/
def FiberCell.Holds (c : FiberCell) (k : ServiceSymbol) : Prop :=
  k ∈ c.inner.provided ∨ c.worker.bind DisposalPc.taken = some k

theorem worker_of_taken {k : ServiceSymbol} (h : c.worker.bind DisposalPc.taken = some k) :
    ∃ removed, c.worker = some (.withdrawn removed k) ∨ c.worker = some (.removing removed k) := by
  obtain ⟨pc, hw, hpc⟩ := Option.bind_eq_some_iff.mp h
  cases pc <;> simp only [DisposalPc.taken, Option.some.injEq, reduceCtorEq] at hpc
  · exact ⟨_, .inl (hpc ▸ hw)⟩
  · exact ⟨_, .inr (hpc ▸ hw)⟩

theorem taken_step (hk : c.control.Consistent) (h : c.step l = some c') (hlook : ∀ owned, l ≠ .withdrawLook owned)
    (hremove : l ≠ .withdrawRemove) {k : ServiceSymbol} (hc : c.worker.bind DisposalPc.taken = some k) :
    c'.worker = c.worker := by
  obtain ⟨removed, hw⟩ := worker_of_taken hc
  obtain ⟨pc, hpc⟩ : ∃ pc, c.worker = some pc := hw.elim (fun h => ⟨_, h⟩) fun h => ⟨_, h⟩
  have hopen : c.inner.disposal.phase ≠ .Idle := fun hidle => by
    have hrunning := hk.running pc hpc
    rw [show c.control.phase = .Idle from hidle] at hrunning
    contradiction
  rcases step_worker h with hsame | ⟨-, hidle, -⟩ | ⟨pc, was, step⟩
  · exact hsame
  · exact absurd hidle hopen
  · rcases hw with hw | hw
    all_goals
      rw [hw] at was
      cases was
      cases l <;> first
        | exact absurd rfl (hlook _)
        | exact absurd rfl hremove
        | cases step

/-- The disposal record is in order, and a Fiber that was disposed, or is being disposed, has closed its gate. -/
structure FiberCell.Guarded (c : FiberCell) : Prop where
  consistent : c.control.Consistent
  closed : c.Closed

theorem guarded_created (id : FiberId) (plugin : PluginId) (scope : ScopeId)
    (descriptor : PluginDescriptor) (generation : GenerationId) (staged : Bool) :
    (FiberCell.created id plugin scope descriptor generation staged).Guarded where
  consistent := consistent_created ..
  closed := fun h => absurd rfl h

theorem FiberCell.Guarded.step (hc : c.Guarded) (h : c.step l = some c') : c'.Guarded where
  consistent := consistent_move hc.consistent (step_move h)
  closed := closed_step hc.consistent hc.closed h

theorem FiberCell.Guarded.worker (hc : c.Guarded) (hlive : c.retired = false) : c.worker = none := by
  cases hw : c.worker with
  | none => rfl
  | some pc =>
    have hrunning := hc.consistent.running pc hw
    rw [hc.closed fun hidle => by rw [show c.control.phase = .Idle from hidle] at hrunning; contradiction] at hlive
    contradiction

theorem FiberCell.Guarded.provided (hc : c.Guarded) (hlive : c.retired = false) {k : ServiceSymbol}
    (hk : c.Holds k) : k ∈ c.inner.provided := by
  rcases hk with hk | htaken
  · exact hk
  · rw [hc.worker hlive] at htaken
    contradiction

/-- **A service that was provided is held until its entry has been dealt with.** -/
theorem holds_step (hk : c.control.Consistent) (h : c.step l = some c') (hlook : ∀ owned, l ≠ .withdrawLook owned)
    (hremove : l ≠ .withdrawRemove) {k : ServiceSymbol} (hc : c.Holds k) : c'.Holds k := by
  rcases hc with hmem | htaken
  · by_cases hw : l = .withdraw
    · subst hw
      obtain ⟨removed, -, ⟨-, hsame⟩ | ⟨key, hnow, hprovided⟩⟩ := withdraw_cases h
      · exact .inl (hsame ▸ hmem)
      · rw [hprovided] at hmem
        rcases List.mem_append.mp hmem with hmem | hkey
        · exact .inl hmem
        · refine .inr ?_
          rw [hnow, List.mem_singleton.mp hkey]
          rfl
    · exact .inl (step_provided h hw k hmem)
  · refine .inr ?_
    rw [taken_step hk h hlook hremove htaken]
    exact htaken

/-- The activation has been validated and has not committed. -/
def ActivationPc.approved : ActivationPc → Bool
  | validated | deferring | committing | checked => true
  | _ => false

theorem ActivationPc.live_of_approved {pc : ActivationPc} (h : pc.approved = true) :
    pc.live = true := by
  cases pc <;> simp_all [approved, live]

theorem declares_of_validate {r : FiberMutable} (h : r.validateStagedRevision = .ok ()) :
    r.Declares := by
  unfold FiberMutable.validateStagedRevision at h
  split_ifs at h with hsame
  intro k hk
  simpa using List.all_eq_true.mp hsame.1 k hk

theorem activation_approves {n : Nat} {pc : ActivationPc} (h : c.stepActivation n pc l = some c') :
    ∃ pc', c'.activations = Function.update c.activations n (some pc') ∧
      (pc'.approved = true → pc.approved = true ∨ c.inner.Declares) := by
  cases l <;> simp only [FiberCell.stepActivation] at h
  case activationValidate =>
    split at h <;> try contradiction
    split_ifs at h
    · split at h <;> cases h
      · rename_i hvalid
        exact ⟨_, rfl, fun _ => .inr (declares_of_validate hvalid)⟩
      · exact ⟨_, rfl, by rintro ⟨⟩⟩
    · cases h
      exact ⟨_, rfl, by rintro ⟨⟩⟩
  case activationReadStaged =>
    split at h <;> try contradiction
    cases h
    exact ⟨_, rfl, fun _ => .inl rfl⟩
  case activationCheck =>
    split at h <;> try contradiction
    split at h <;> cases h
    · exact ⟨_, rfl, by rintro ⟨⟩⟩
    · exact ⟨_, rfl, fun _ => .inl rfl⟩
  case activationFail =>
    split at h <;> try contradiction
    cases h
    unfold FiberCell.withMut
    split_ifs <;> exact ⟨_, rfl, by rintro ⟨⟩⟩
  case activationDispose =>
    split at h <;> try contradiction
    obtain ⟨hactivations, -⟩ := dispose_frame c false false true
    split at h
    all_goals
      rename_i hdispose
      cases h
      rw [hdispose] at hactivations
      exact ⟨_, congrArg (Function.update · n _) hactivations, by rintro ⟨⟩⟩
  all_goals
    repeat' split at h
    all_goals first
      | contradiction
      | (cases h; exact ⟨_, rfl, by rintro ⟨⟩⟩)

/-- What was validated is still there. -/
structure FiberCell.Declared (c : FiberCell) : Prop where
  approved : ∀ n pc, c.activations n = some pc → pc.approved = true → c.inner.Declares
  active : c.inner.state = .Active ∨ c.inner.state = .Reloading → c.retired = false →
    c.inner.Declares

/-- The worker that withdraws services is past the mutex, and its Fiber is retired. -/
theorem withdraws_alone (hc : c.Sound) (hclosed : c.Closed) {removed : List ServiceSymbol}
    (hw : c.worker = some (.withdrawing removed)) :
    c.retired = true ∧ ∀ n pc, c.activations n = some pc → pc.live = false := by
  constructor
  · refine hclosed fun hidle => ?_
    have hrunning := hc.consistent.running _ hw
    rw [show c.control.phase = .Idle from hidle] at hrunning
    contradiction
  · intro n pc hpc
    by_contra hlive
    rcases (hc.shielded n pc hpc (by simpa using hlive)).2 _ hw with hearly | hterminated
    · contradiction
    · contradiction

theorem declared_step (hc : c.Sound) (hs : c.Seated) (hclosed : c.Closed) (hd : c.Declared)
    (h : c.step l = some c') : c'.Declared where
  approved := fun m q hq happroved => by
    have hkept : ∀ pc, c.activations m = some pc → pc.approved = true → c'.inner.Declares := by
      intro pc hpc hpcs
      refine declares_kept (hd.approved m pc hpc hpcs) h ?_
      rintro rfl
      obtain ⟨removed, hw, -⟩ := withdraw_cases h
      have hdead := (withdraws_alone hc hclosed hw).2 m pc hpc
      rw [ActivationPc.live_of_approved hpcs] at hdead
      contradiction
    rcases step_activations h hq with hsame | rfl | ⟨pc, hpc, hstep⟩
    · exact hkept q hsame happroved
    · contradiction
    · obtain ⟨pc', hmoved, happroves⟩ := activation_approves hstep
      obtain rfl : pc' = q := by simpa [hmoved] using hq
      rcases happroves happroved with hpcs | hdeclares
      · exact hkept pc hpc hpcs
      · refine declares_kept hdeclares h ?_
        rintro rfl
        contradiction
  active := fun hstate hlive => by
    have hwas : c.retired = false := by
      cases step_latch h with
      | kept capabilities | acquired _ _ capabilities | dropped _ _ _ capabilities
      | draining _ _ capabilities =>
        simpa [FiberCell.retired, capabilities] using hlive
      | closed _ _ _ _ _ capabilities | superseded _ capabilities =>
        simp [FiberCell.retired, capabilities, CapabilityGate.close] at hlive
      | renewed _ _ _ _ _ _ hstarting => simp [hstarting] at hstate
    have hkept : c.inner.Declares → c'.inner.Declares := by
      intro hdeclares
      refine declares_kept hdeclares h ?_
      rintro rfl
      obtain ⟨removed, hw, -⟩ := withdraw_cases h
      rw [(withdraws_alone hc hclosed hw).1] at hwas
      contradiction
    cases step_seat hc.consistent h with
    | kept _ hsame =>
      rcases hsame with hsame | ⟨hactive, hreloading, -⟩
      · exact hkept (hd.active (hsame ▸ hstate) hwas)
      · exact absurd hstate (by simp [hactive, hreloading])
    | deferred n _ hpc => exact hkept (hd.approved n _ hpc rfl)
    | committed n _ _ hpc => exact hkept (hd.approved n _ hpc rfl)
    | marked _ _ _ hactive => exact hkept (hd.active (.inl hactive) hwas)
    | restored _ hpc hlegal =>
      exact hkept (hd.active (.inr (hlegal.resolve_right (hs.reloading hpc))) hwas)
    | cutover _ _ _ hactive => exact hkept (hd.active (.inl hactive) hwas)

/-! ## Active Fibers have not retired -/

/-- A committed Fiber that is `Active`, or that a reload may put back, has not retired. -/
structure FiberCell.Live (c : FiberCell) : Prop where
  active : c.inner.state = .Active → c.inner.staged = false → c.retired = false
  reloading : c.lifecycle = some (.reload .reloading) → c.inner.state ≠ .Active ∧
    (c.inner.state = .Reloading → c.inner.staged = false → c.retired = false)

theorem live_created (id : FiberId) (plugin : PluginId) (scope : ScopeId)
    (descriptor : PluginDescriptor) (generation : GenerationId) (staged : Bool) :
    (FiberCell.created id plugin scope descriptor generation staged).Live := by
  constructor <;> simp [FiberCell.created, FiberMutable.created]

theorem cutover_live {target : ScopeId} {active : GenerationId}
    (h : c.step (.cutover target active) = some c') : c'.retired = false := by
  simp only [FiberCell.step] at h
  split_ifs at h with hstaged
  cases h
  have hgate := hstaged.2
  simp only [CapabilityGate.isStaged, Bool.and_eq_true, Bool.not_eq_true'] at hgate
  exact hgate.1

theorem step_retires (h : c.step l = some c') (hlive : c.retired = false)
    (hretired : c'.retired = true) : c'.inner.state = .Disposing ∨ l = .reloadSuperseded := by
  cases step_latch h with
  | kept capabilities | acquired _ _ capabilities | dropped _ _ _ capabilities
  | draining _ _ capabilities =>
    have hsame : c'.retired = c.retired := by simp [FiberCell.retired, capabilities]
    rw [hsame, hlive] at hretired
    contradiction
  | closed _ _ _ _ hdisposing => exact .inl hdisposing
  | superseded label => exact .inr label
  | renewed _ _ _ _ _ capabilities =>
    simp [FiberCell.retired, capabilities, CapabilityGate.staged] at hretired

theorem superseded_ended (h : c.step .reloadSuperseded = some c') :
    c.lifecycle = some (.reload .reloading) ∧ c'.inner.state = c.inner.state ∧
      c'.lifecycle = some (.reload .ended) := by
  simp only [FiberCell.step] at h
  split at h <;> try contradiction
  rename_i pc hpc
  simp only [FiberCell.stepReload] at h
  split at h <;> try contradiction
  cases h
  exact ⟨hpc, rfl, rfl⟩

theorem rollback_ended (h : c.step .reloadRollback = some c') :
    c'.lifecycle = some (.reload .ended) := by
  simp only [FiberCell.step] at h
  split at h <;> try contradiction
  rename_i pc _
  simp only [FiberCell.stepReload] at h
  split at h <;> try contradiction
  cases h
  rfl

theorem live_step (hc : c.Sound) (hs : c.Seated) (hl : c.Live) (h : c.step l = some c') :
    c'.Live := by
  -- a reload holds the mutex, so no activation writes a state under it
  have hreload : ∀ n pc q, c.lifecycle = some (.reload q) → c.activations n = some pc →
      pc.held = false := by
    intro n pc q hq hpc
    by_contra hheld
    have hholder := hc.exclusive n pc hpc (by simpa using hheld)
    rw [hq] at hholder
    simp at hholder
  have hkept : ∀ {s : FiberState}, s = .Active ∨ s = .Reloading → c'.inner.state = s →
      c'.lifecycle ≠ some (.reload .ended) ∨ c.inner.state = .Active → c.retired = false →
        c'.retired = false := by
    intro s hs hstate hended hlive
    by_contra hretired
    rcases step_retires h hlive (by simpa using hretired) with hdisposing | rfl
    · rw [hdisposing] at hstate
      subst hstate
      rcases hs with hs | hs <;> cases hs
    · obtain ⟨hwas, -, hnow⟩ := superseded_ended h
      rcases hended with hended | hactive
      · exact hended hnow
      · exact (hl.reloading hwas).1 hactive
  refine ⟨fun hactive hstaged => ?_, fun hnow => ⟨fun hactive => ?_, fun hstate hstaged => ?_⟩⟩
  · cases step_seat hc.consistent h with
    | kept hflag hsame =>
      rcases hsame with hsame | ⟨hne, -, -⟩
      · have hwas := hsame.symm.trans hactive
        exact hkept (.inl rfl) hactive (.inr hwas) (hl.active hwas (hflag ▸ hstaged))
      · exact absurd hactive hne
    | deferred n _ hpc _ hflag =>
      rw [hflag, hs.deferring n hpc] at hstaged
      contradiction
    | committed n checked hlabel _ _ hstarting hstate =>
      subst hlabel
      exact (step_commit h hstarting hstate).2.2.2.1
    | marked _ _ _ _ hstate =>
      rw [hstate] at hactive
      contradiction
    | restored hlabel hpc hlegal _ hflag =>
      have hlive := (hl.reloading hpc).2 (hlegal.resolve_right (hs.reloading hpc))
        (hflag ▸ hstaged)
      subst hlabel
      by_contra hretired
      rcases step_retires h hlive (by simpa using hretired) with hdisposing | hlabel
      · rw [hdisposing] at hactive
        contradiction
      · contradiction
    | cutover target active hlabel =>
      subst hlabel
      exact cutover_live h
  · rcases step_reloading h hnow with hwas | ⟨-, hinner⟩
    · cases step_seat hc.consistent h with
      | kept _ hsame =>
        rcases hsame with hsame | ⟨hne, -, -⟩
        · exact (hl.reloading hwas).1 (hsame.symm.trans hactive)
        · exact hne hactive
      | deferred n _ hpc => exact absurd (hreload n _ _ hwas hpc) nofun
      | committed n _ _ hpc => exact absurd (hreload n _ _ hwas hpc) nofun
      | marked _ _ _ _ hstate =>
        rw [hstate] at hactive
        contradiction
      | restored hlabel =>
        subst hlabel
        rw [rollback_ended h] at hnow
        cases hnow
      | cutover _ _ _ hwas' => exact (hl.reloading hwas).1 hwas'
    · rw [hinner] at hactive
      contradiction
  · rcases step_reloading h hnow with hwas | ⟨hactive, hinner⟩
    · have hwasReloading : c.inner.state = .Reloading ∧ c'.inner.staged = c.inner.staged := by
        cases step_seat hc.consistent h with
        | kept hflag hsame =>
          rcases hsame with hsame | ⟨-, hne, -⟩
          · exact ⟨hsame.symm.trans hstate, hflag⟩
          · exact absurd hstate hne
        | deferred _ _ _ _ _ hactive | committed _ _ _ _ _ _ hactive | restored _ _ _ hactive
        | cutover _ _ _ _ hactive =>
          rw [hactive] at hstate
          contradiction
        | marked _ _ _ hactive => exact absurd hactive (hl.reloading hwas).1
      exact hkept (.inr rfl) hstate (.inl (by rw [hnow]; nofun))
        ((hl.reloading hwas).2 hwasReloading.1 (hwasReloading.2 ▸ hstaged))
    · rw [hinner] at hstaged
      exact hkept (.inr rfl) hstate (.inr hactive) (hl.active hactive hstaged)

/-! ## The worker's hold of the mutex -/

/-- The worker has the mutex from taking it to the end of the body. -/
def FiberCell.Locked (c : FiberCell) : Prop :=
  ∀ pc, c.worker = some pc → pc.early = false → pc.inBody = true → c.lifecycle = some .disposal

theorem worker_locks {pc pc' : DisposalPc} (h : c.stepWorker pc l = some c') (hw : c'.worker = some pc')
    (hearly : pc'.early = false) (hbody : pc'.inBody = true) :
    c'.lifecycle = some .disposal ∨ c'.lifecycle = c.lifecycle ∧ pc.early = false ∧ pc.inBody = true := by
  cases l <;> simp only [FiberCell.stepWorker, setWorker_eq, withMut_eq, FiberCell.finishBody] at h
  all_goals
    repeat' split at h
    all_goals first
      | contradiction
      | (cases h
         first
           | (cases hw <;> first
               | exact .inl rfl
               | exact .inr ⟨rfl, rfl, rfl⟩
               | (cases hearly; done)
               | cases hbody)
           | exact .inr ⟨rfl, rfl, rfl⟩)

theorem locked_step (hc : c.Sound) (hlocked : c.Locked) (h : c.step l = some c') : c'.Locked := by
  intro pc' hw' hearly hbody
  -- a section that leaves the worker alone, or starts it, and does not take the mutex from it
  have hkept : (c'.worker = c.worker ∨ c'.worker = some .spawned) →
      (c.lifecycle = some .disposal → c'.lifecycle = c.lifecycle) → c'.lifecycle = some .disposal := by
    rintro (hsame | hnew) hmutex
    · have hheld := hlocked pc' (hsame ▸ hw') hearly hbody
      exact (hmutex hheld).trans hheld
    · rw [hnew] at hw'
      cases hw'
      contradiction
  cases step_turn h with
  | worker pc was step =>
    rcases worker_locks step hw' hearly hbody with hnow | ⟨hsame, hwas⟩
    · exact hnow
    · exact hsame.trans (hlocked pc was hwas.1 hwas.2)
  | activation n pc _ was step =>
    refine hkept ?_ fun hheld => ?_
    · by_cases hdispose : ∃ m, l = .activationDispose m
      · obtain ⟨m, rfl⟩ := hdispose
        obtain ⟨e, pc', -, rfl⟩ := stepDispose_eq step
        exact (dispose_worker false false true).imp_right (·.2)
      · obtain ⟨pc', heq⟩ := stepActivation_eq step fun m hm => hdispose ⟨m, hm⟩
        exact .inl (by rw [heq])
    · obtain ⟨pc', hnext⟩ := stepActivation_next step
      rcases hnext.mutex with ⟨hfree, -⟩ | ⟨hsame, -⟩ | ⟨hpc, -⟩
      · rw [hheld] at hfree
        cases hfree
      · exact hsame
      · have hmine := hc.exclusive n pc was hpc
        rw [hheld] at hmine
        cases hmine
  | reload pc was step =>
    exact hkept (.inl (by rw [stepReload_eq step])) fun hheld => by
      rw [hheld] at was
      cases was
  | install step => exact hkept (.inl (by rw [stepInstall_eq step])) fun _ => by rw [stepInstall_eq step]
  | disposed w p a _ now =>
    subst now
    exact hkept ((dispose_worker w p a).imp_right (·.2)) fun _ => (dispose_frame c w p a).2
  | replaced _ free now =>
    subst now
    exact hkept (.inl rfl) fun hheld => by
      rw [hheld] at free
      cases free
  | called _ _ now | cutover _ _ _ _ _ now | hostFailed _ _ _ now | reclaimed _ _ _ now
  | registered _ _ _ now | detached _ _ now | acquired _ _ _ now | dropped _ _ _ now =>
    subst now
    exact hkept (.inl rfl) fun _ => rfl

theorem FiberCell.Locked.removing (hc : c.Locked) {removed : List ServiceSymbol} {key : ServiceSymbol}
    (hw : c.worker = some (.removing removed key)) : c.lifecycle = some .disposal := hc _ hw rfl rfl

theorem removing_step (h : c.step l = some c') {removed : List ServiceSymbol} {key : ServiceSymbol}
    (hw : c'.worker = some (.removing removed key)) :
    c.worker = some (.removing removed key) ∨
      l = .withdrawLook true ∧ c.worker = some (.withdrawn removed key) := by
  rcases step_worker h with hsame | ⟨-, -, hspawned⟩ | ⟨pc, was, step⟩
  · exact .inl (hsame ▸ hw)
  · rw [hspawned] at hw
    cases hw
  rw [was]
  cases l <;> simp only [FiberCell.stepWorker, setWorker_eq, withMut_eq, FiberCell.finishBody] at step
  case withdrawLook owned =>
    split at step <;> cases step
    cases owned with
    | true =>
      cases hw
      exact .inr ⟨rfl, rfl⟩
    | false => cases hw
  all_goals
    repeat' split at step
    all_goals first
      | contradiction
      | (cases step; first | exact .inl (was.symm.trans hw) | cases hw)

/-! ## Runs -/

/-- What holds of a Fiber in every run. -/
structure FiberCell.Steady (c : FiberCell) : Prop where
  sound : c.Sound
  seated : c.Seated
  closed : c.Closed
  frozen : c.Frozen
  declared : c.Declared
  live : c.Live
  locked : c.Locked

theorem steady_created (id : FiberId) (plugin : PluginId) (scope : ScopeId)
    (descriptor : PluginDescriptor) (generation : GenerationId) (staged : Bool) :
    (FiberCell.created id plugin scope descriptor generation staged).Steady where
  sound := sound_created ..
  seated := seated_created ..
  closed := fun h => absurd rfl h
  frozen := fun n pc h => by simp [FiberCell.created] at h
  declared := by constructor <;> simp [FiberCell.created, FiberMutable.created]
  live := live_created ..
  locked := fun pc h => by simp [FiberCell.created] at h

theorem steady_step (hc : c.Steady) (h : c.step l = some c') : c'.Steady where
  sound := sound_step hc.sound h
  seated := seated_step hc.sound hc.seated h
  closed := closed_step hc.sound.consistent hc.closed h
  frozen := frozen_step hc.sound hc.frozen h
  declared := declared_step hc.sound hc.seated hc.closed hc.declared h
  live := live_step hc.sound hc.seated hc.live h
  locked := locked_step hc.sound hc.locked h

end Cordis
