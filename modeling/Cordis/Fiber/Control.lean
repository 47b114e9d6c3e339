import Cordis.Fiber.Turn

/-!
# What one section can do to the lifecycle of a Fiber

`Control` is the part of a Fiber that its lifecycle truth depends on: the state, the disposal
record, the disposal worker, the calls that joined a round and the published observations.
`Move l c k` says that `k` is what the section `l` may leave of the control of `c`; `step_move` is
the one place that unfolds the step function, and the invariants of the lifecycle are proved from
`Move` alone.
-/

namespace Cordis

/-- The lifecycle part of a Fiber. -/
structure Control where
  state : FiberState
  phase : DisposalPhase
  waits : Bool
  completion : Nat
  cancelled : Bool
  worker : Option DisposalPc
  calls : Nat → Option DisposeCall
  nextCall : Nat
  published : Nat → Option DisposalObservation
  nextCompletion : Nat

/-- The lifecycle part of `c`. -/
def FiberCell.control (c : FiberCell) : Control where
  state := c.inner.state
  phase := c.inner.disposal.phase
  waits := c.inner.disposal.waitForDependencies
  completion := c.inner.disposal.completion
  cancelled := c.inner.cancelled
  worker := c.worker
  calls := c.calls
  nextCall := c.nextCall
  published := c.published
  nextCompletion := c.nextCompletion

/-- A phase in which the worker of the round is at work. -/
def DisposalPhase.running : DisposalPhase → Bool
  | Idle | Complete | Terminated => false
  | _ => true

/-- The worker has not taken the lifecycle mutex yet. -/
def DisposalPc.early : DisposalPc → Bool
  | spawned | queued => true
  | _ => false

/-- The worker is past its body. -/
def DisposalPc.ended : DisposalPc → Bool
  | finished .. | finalizing .. | indexed .. => true
  | _ => false

/-- The activation is between the poll that found the token unfired and its commit. -/
def ActivationPc.live : ActivationPc → Bool
  | polling | started | sealed | validated | deferring | committing | checked => true
  | _ => false

/-- The activation holds the lifecycle mutex. -/
def ActivationPc.held : ActivationPc → Bool
  | locked | selecting | polling | started | sealed | validated | deferring | committing | checked
  | committed | failed _ => true
  | _ => false

theorem ActivationPc.held_of_live {pc : ActivationPc} (h : pc.live = true) : pc.held = true := by
  cases pc <;> simp_all [live, held]

/-- A body that was cut short reports an error, and the indexes are cleaned only on the way to
`Disposed`. -/
def DisposalPc.Faithful : DisposalPc → Prop
  | finished result _ terminated | indexed result _ terminated => terminated = true → result ≠ .ok ()
  | finalizing result target terminated indexes =>
    (terminated = true → result ≠ .ok ()) ∧
      (indexes.isSome → target = some .Disposed ∧ terminated = false)
  | _ => True

/-- The worker may go from `pc` to `pc'`: the target is fixed once, from the waiting flag, and a
body that ended normally has fixed it. -/
structure DisposalPc.Next (c : FiberCell) (pc pc' : DisposalPc) : Prop where
  target : pc'.target = pc.target ∨ pc'.target = none ∨ pc'.target = some .Disposed ∨
    (pc'.target = some .WaitingDependencies ∧ c.inner.disposal.waitForDependencies = true)
  early : pc.early = true → pc'.early = true ∨ pc'.terminated = true ∨ c.lifecycle = none
  terminated : pc.terminated = true → pc'.terminated = true
  ended : pc'.ended = true → pc.ended = true ∨ pc'.terminated = true ∨ ∃ t, pc'.target = some t
  kept : pc.ended = true → pc'.ended = true ∧ pc'.target = pc.target
  lawful : (∀ t, pc.target = some t → t = .Disposed ∨ t = .WaitingDependencies) →
    ∀ t, pc'.target = some t → t = .Disposed ∨ t = .WaitingDependencies
  faithful : pc.Faithful → pc'.Faithful
  unfinished : ∀ result t b, pc ≠ .indexed result t b
  clears : ∀ result t b s, pc' = .finalizing result t b (some s) → c.inner.state = .Disposing

/-- The section `l` asks for a disposal with `wait_for_dependencies = w`. -/
def FiberLabel.Requests (l : FiberLabel) (w : Bool) : Prop :=
  (∃ p a, l = .callDispose w p a) ∨ (w = false ∧ ∃ n, l = .activationDispose n)

/-- What a section may do to the control of `c`. -/
inductive Move (l : FiberLabel) (c : FiberCell) : Control → Prop
  | quiet : Move l c c.control
  /-- `beginActivation` on a record that was never disposed, or refused (`s' = state`). -/
  | start (s' : FiberState)
      (from_ : s' = c.inner.state ∨ ((c.inner.state = .Created ∨
        c.inner.state = .WaitingDependencies) ∧ s' = .Starting)) :
      Move l c { c.control with state := s', nextCompletion := c.nextCompletion + 1 }
  /-- `beginActivation` after a dependency-loss disposal: a fresh disposal record. -/
  | restart (s' : FiberState) (waiting : c.inner.state = .WaitingDependencies)
      (complete : c.inner.disposal.phase = .Complete)
      (next : s' = .WaitingDependencies ∨ s' = .Starting) :
      Move l c { c.control with
        state := s', phase := .Idle, waits := true, completion := c.nextCompletion
        cancelled := false, nextCompletion := c.nextCompletion + 1 }
  | deferred (n : Nat) (label : ∃ m, l = .activationDefer m)
      (pc : c.activations n = some .deferring) :
      Move l c { c.control with state := .Active }
  | parked (label : l = .installWait)
      (legal : c.inner.state.canTransitionTo .WaitingDependencies = true) :
      Move l c { c.control with state := .WaitingDependencies }
  /-- A commit, a reload or a host failure writes a state it has checked. -/
  | written (s' : FiberState) (legal : c.inner.state.canTransitionTo s' = true)
      (next : s' = .Active ∨ s' = .Reloading ∨ s' = .Failed) :
      Move l c { c.control with state := s' }
  | failed (s' : FiberState)
      (next : s' = c.inner.state ∨ (c.inner.state = .Starting ∧ s' = .Failed)) :
      Move l c { c.control with state := s', cancelled := true }
  /-- A dispose call that is refused after it recorded its wait flag. -/
  | refused (w : Bool) (label : l.Requests w) (idle : c.inner.disposal.phase = .Idle) :
      Move l c { c.control with waits := c.inner.disposal.waitForDependencies && w }
  | joined (w p a : Bool) (label : l.Requests w) (phase : c.inner.disposal.phase ≠ .Idle) :
      Move l c { c.control with
        waits := c.inner.disposal.waitForDependencies && w
        calls := Function.update c.calls c.nextCall
          (some ⟨w, p, a, c.inner.disposal.completion⟩)
        nextCall := c.nextCall + 1 }
  | requested (w p a : Bool) (label : l.Requests w) (idle : c.inner.disposal.phase = .Idle)
      (legal : c.inner.state = .Disposing ∨
        c.inner.state.canTransitionTo .Disposing = true) :
      Move l c { c.control with
        state := .Disposing, phase := .Tasks, cancelled := true, worker := some .spawned
        waits := c.inner.disposal.waitForDependencies && w
        calls := Function.update c.calls c.nextCall
          (some ⟨w, p, a, c.inner.disposal.completion⟩)
        nextCall := c.nextCall + 1 }
  | worked (pc pc' : DisposalPc) (ph' : DisposalPhase) (b : Bool) (was : c.worker = some pc)
      (next : DisposalPc.Next c pc pc')
      (phase : ph' = c.inner.disposal.phase ∨ ph'.running = true)
      (token : c.inner.cancelled = true → b = true) :
      Move l c { c.control with worker := some pc', phase := ph', cancelled := b }
  /-- The finalizer gives up because the arena no longer knows the Fiber. -/
  | gaveUp (pc : DisposalPc) (was : c.worker = some pc) (gone : c.inArena = false) :
      Move l c { c.control with worker := none }
  | finalized (result : Outcome) (target : Option FiberState) (terminated : Bool)
      (was : c.worker = some (.indexed result target terminated)) :
      Move l c { c.control with
        state := if terminated then c.inner.state else target.getD c.inner.state
        phase := if terminated then .Terminated else .Complete
        worker := none
        published := Function.update c.published c.inner.disposal.completion
          ((c.published c.inner.disposal.completion).or
            (some (c.inner.finalizeCommit result target terminated).2)) }

/-! ## Every section is a move -/

variable {c c' : FiberCell} {l : FiberLabel}

theorem move_dispose {w p a : Bool} (hl : l.Requests w) :
    Move l c (c.dispose w p a).1.control := by
  unfold FiberCell.dispose FiberMutable.requestDisposal
  by_cases hown : (c.inner.reloadOwned && !a) = true
  · rw [if_pos hown]
    exact .quiet
  rw [if_neg hown]
  by_cases hidle : c.inner.disposal.phase = .Idle
  · simp only [hidle, if_true]
    by_cases hlegal : c.inner.state ≠ .Disposing ∧ c.inner.state.canTransitionTo .Disposing = false
    · rw [if_pos hlegal]
      convert Move.refused w hl hidle using 1
      simp [FiberCell.control, hidle]
    · rw [if_neg hlegal]
      refine Move.requested w p a hl hidle ?_
      grind
  · simp only [hidle, if_false]
    exact Move.joined w p a hl hidle

theorem move_begin (l : FiberLabel) (c : FiberCell) (fresh : Except CordisError GenerationId)
    {k : Control}
    (hk : k = { c.control with
      state := (c.inner.beginActivation c.id c.nextCompletion fresh).1.state
      phase := (c.inner.beginActivation c.id c.nextCompletion fresh).1.disposal.phase
      waits := (c.inner.beginActivation c.id c.nextCompletion fresh).1.disposal.waitForDependencies
      completion := (c.inner.beginActivation c.id c.nextCompletion fresh).1.disposal.completion
      cancelled := (c.inner.beginActivation c.id c.nextCompletion fresh).1.cancelled
      nextCompletion := c.nextCompletion + 1 }) :
    Move l c k := by
  subst hk
  unfold FiberMutable.beginActivation
  split_ifs with hfrom hback
  · cases fresh with
    | error e => exact .restart _ hback.1 hback.2 (.inl hback.1)
    | ok g => exact .restart _ hback.1 hback.2 (.inr rfl)
  · exact .start _ (.inr ⟨hfrom, rfl⟩)
  · exact .start _ (.inl rfl)

theorem move_commit (l : FiberLabel) (c : FiberCell) {active : GenerationId} {r : FiberMutable}
    (h : c.inner.commitActivation c.id active = (r, .ok ())) :
    Move l c { c.control with state := .Active } ∧
      r.state = .Active ∧ r.disposal = c.inner.disposal ∧ r.cancelled = c.inner.cancelled := by
  unfold FiberMutable.commitActivation at h
  split_ifs at h with hstate hstaged hpub
  all_goals cases h
  refine ⟨.written .Active ?_ (.inl rfl), rfl, rfl, rfl⟩
  have : c.inner.state = .Starting := by
    by_contra hne
    exact hstate (.inl hne)
  rw [this]
  rfl

theorem move_activation {n : Nat} {pc : ActivationPc} (hpc : c.activations n = some pc)
    (h : c.stepActivation n pc l = some c') : Move l c c'.control := by
  cases l <;> simp only [FiberCell.stepActivation] at h
  case activationBegin call admitted fresh =>
    split at h <;> try contradiction
    split_ifs at h
    · split at h <;> cases h <;> refine move_begin _ c fresh ?_ <;>
        simp_all [FiberCell.control, FiberCell.setActivation]
    · cases h
      exact .quiet
  case activationCommit call checked active =>
    split at h <;> try contradiction
    split at h
    · cases h
      exact .quiet
    split_ifs at h
    · split at h
      · cases h
        rename_i hcommit
        obtain ⟨hmove, hstate, hdisposal, hcancelled⟩ := move_commit (.activationCommit call _ active) c hcommit
        convert hmove using 1
        simp [FiberCell.control, FiberCell.setActivation, hstate, hdisposal, hcancelled]
      · cases h
        exact .quiet
    · cases h
      exact .quiet
  case activationDefer call =>
    split at h <;> try contradiction
    cases h
    exact .deferred n ⟨call, rfl⟩ hpc
  case activationFail call =>
    split at h <;> try contradiction
    cases h
    by_cases hin : c.inArena
    · simp only [FiberCell.withMut, hin, if_true]
      refine .failed _ ?_
      by_cases hs : c.inner.state = .Starting
      · exact .inr ⟨hs, if_pos hs⟩
      · exact .inl (if_neg hs)
    · simp only [FiberCell.withMut, hin]
      exact .quiet
  case activationDispose call =>
    split at h <;> try contradiction
    have hmove := move_dispose (c := c) (p := false) (a := true)
      (l := .activationDispose call) (w := false) (.inr ⟨rfl, call, rfl⟩)
    split at h
    all_goals
      rename_i hdispose
      cases h
      rw [hdispose] at hmove
      exact hmove
  case activationSeal call admitted =>
    split at h <;> try contradiction
    split_ifs at h <;> cases h
    · unfold FiberMutable.sealActivation
      split_ifs <;> exact .quiet
    · exact .quiet
  all_goals
    repeat' split at h
    all_goals first | contradiction | (cases h; exact .quiet)

/-- A worker section that leaves the disposal record alone but for errors and a running phase. -/
theorem move_setWorker {pc q : DisposalPc} {f : FiberMutable → FiberMutable}
    (hw : c.worker = some pc) (hnext : DisposalPc.Next c pc q)
    (hf : ∀ r : FiberMutable, (f r).state = r.state ∧ (f r).cancelled = r.cancelled ∧
      (f r).disposal.waitForDependencies = r.disposal.waitForDependencies ∧
      (f r).disposal.completion = r.disposal.completion ∧
      ((f r).disposal.phase = r.disposal.phase ∨ (f r).disposal.phase.running = true)) :
    Move l c (c.setWorker q f).control := by
  unfold FiberCell.setWorker FiberCell.withMut
  obtain ⟨hstate, hcancelled, hwaits, hcompletion, hphase⟩ := hf c.inner
  split_ifs with hin
  · convert Move.worked pc q (f c.inner).disposal.phase c.inner.cancelled hw hnext hphase id
      using 1
    simp [FiberCell.control, hstate, hcancelled, hwaits, hcompletion]
  · exact .worked pc q _ c.inner.cancelled hw hnext (.inl rfl) id

theorem move_pc {pc q : DisposalPc} {k : Control} (hw : c.worker = some pc)
    (hnext : DisposalPc.Next c pc q) (hk : k = { c.control with worker := some q }) :
    Move l c k := by
  subst hk
  exact .worked pc q _ c.inner.cancelled hw hnext (.inl rfl) id

@[simp] theorem pushOutcome_state (r : FiberMutable) (p : CleanupPhase) (o : Outcome) :
    (r.pushOutcome p o).state = r.state := by
  cases o <;> rfl

@[simp] theorem pushOutcome_cancelled (r : FiberMutable) (p : CleanupPhase) (o : Outcome) :
    (r.pushOutcome p o).cancelled = r.cancelled := by
  cases o <;> rfl

@[simp] theorem pushOutcome_waits (r : FiberMutable) (p : CleanupPhase) (o : Outcome) :
    (r.pushOutcome p o).disposal.waitForDependencies = r.disposal.waitForDependencies := by
  cases o <;> rfl

@[simp] theorem pushOutcome_completion (r : FiberMutable) (p : CleanupPhase) (o : Outcome) :
    (r.pushOutcome p o).disposal.completion = r.disposal.completion := by
  cases o <;> rfl

@[simp] theorem pushOutcome_phase (r : FiberMutable) (p : CleanupPhase) (o : Outcome) :
    (r.pushOutcome p o).disposal.phase = r.disposal.phase := by
  cases o <;> rfl

attribute [local simp] DisposalPc.target DisposalPc.early DisposalPc.terminated DisposalPc.ended
  DisposalPc.Faithful

theorem move_finishBody {pc : DisposalPc} {r : Outcome} {t : Option FiberState} {b : Bool}
    (hw : c.worker = some pc) (hend : pc.ended = false)
    (ht : b = false → ∃ s, pc.target = some s ∧ t = some s)
    (hb : b = true → t = none ∧ r ≠ .ok ()) : Move l c (c.finishBody r t b).control := by
  refine move_pc (q := .finished r t b) hw ?_ rfl
  cases b with
  | false =>
    obtain ⟨s, hs, rfl⟩ := ht rfl
    exact ⟨.inl hs.symm, fun _ => by cases pc <;> simp_all, fun _ => by cases pc <;> simp_all,
      fun _ => .inr (.inr ⟨s, rfl⟩), fun h => by rw [h] at hend; contradiction,
      fun hl t h => hl t (hs.trans h), by simp, fun _ _ _ h => by rw [h] at hend; contradiction, by simp⟩
  | true =>
    obtain ⟨rfl, hr⟩ := hb rfl
    exact ⟨.inr (.inl rfl), fun _ => .inr (.inl rfl), fun _ => rfl, fun _ => .inr (.inl rfl),
      fun h => by rw [h] at hend; contradiction, by simp, fun _ _ => hr,
      fun _ _ _ h => by rw [h] at hend; contradiction, by simp⟩

theorem move_ledger (c : FiberCell) {f : FiberMutable → FiberMutable}
    (hf : ∀ r, FiberCell.control { c with inner := f r } = FiberCell.control { c with inner := r }) :
    Move l c (c.withMut f).control := by
  unfold FiberCell.withMut
  split_ifs with hin
  · rw [hf c.inner]
    exact .quiet
  · exact .quiet

/-- The target a body reads is the waiting flag's, and `Disposed` off the arena. -/
theorem FiberCell.target_read (c : FiberCell) :
    let t := (c.look fun r => some r.disposalTarget).getD .Disposed
    t = .Disposed ∨ c.inner.disposal.waitForDependencies = true ∧ t = .WaitingDependencies := by
  unfold FiberCell.look FiberMutable.disposalTarget
  split_ifs <;> simp_all

/-- The first section of the finalizer keeps the report of a body that was cut short. -/
theorem finalizeBegin_faithful (r : FiberMutable) {result : Outcome} {target : Option FiberState}
    {terminated : Bool} (h : terminated = true → result ≠ .ok ()) :
    (terminated = true → (r.finalizeBegin result target terminated).2.1 ≠ .ok ()) ∧
      ((r.finalizeBegin result target terminated).2.2.isSome →
        target = some .Disposed ∧ terminated = false) := by
  unfold FiberMutable.finalizeBegin
  refine ⟨fun hb => ?_, fun hi => ?_⟩
  · cases target with
    | none => exact h hb
    | some t =>
      simp only
      split_ifs
      · exact h hb
      · simp
  · simp only at hi
    split_ifs at hi with hgo
    · refine ⟨hgo.1, ?_⟩
      cases terminated with
      | false => rfl
      | true => simp at hgo
    · contradiction

theorem finalizeBegin_clears (r : FiberMutable) {result : Outcome} {target : Option FiberState}
    {terminated : Bool} {s : ScopeId}
    (h : (r.finalizeBegin result target terminated).2.2 = some s) : r.state = .Disposing := by
  unfold FiberMutable.finalizeBegin at h
  simp only at h
  split_ifs at h with hgo
  obtain ⟨rfl, hinner⟩ := hgo
  simp only at hinner
  split_ifs at hinner with hlegal
  · cases hs : r.state <;> simp_all [FiberState.canTransitionTo]
  · simp [CordisError.isWorkerError] at hinner

theorem move_worker {pc : DisposalPc} (hw : c.worker = some pc)
    (h : c.stepWorker pc l = some c') : Move l c c'.control := by
  cases l <;> simp only [FiberCell.stepWorker] at h
  case workerLookup =>
    split at h <;> try contradiction
    split_ifs at h <;> cases h
    · exact move_pc (q := .queued) hw (by constructor <;> simp) rfl
    · exact move_finishBody hw rfl (by simp) (by simp)
  case workerLock =>
    split at h <;> try contradiction
    rename_i hfree
    cases h
    exact move_pc (q := .locked) hw (by constructor <;> simp [hfree]) rfl
  case takeTasks =>
    split at h <;> try contradiction
    cases h
    exact .worked _ .cancelling _ true hw (by constructor <;> simp) (.inl rfl) (fun _ => rfl)
  case tasksJoined outcome =>
    split at h <;> try contradiction
    cases h
    exact move_setWorker (q := .draining) hw (by constructor <;> simp)
      (by simp [FiberMutable.setDisposalPhase, DisposalPhase.running])
  case drained =>
    split at h <;> try contradiction
    split_ifs at h
    cases h
    exact move_setWorker hw (by constructor <;> simp)
      (by simp [FiberMutable.setDisposalPhase, DisposalPhase.running])
  case drainTimedOut =>
    split at h <;> try contradiction
    split_ifs at h <;> cases h
    · exact .quiet
    · exact move_finishBody hw rfl (by simp) (by simp)
  case pickChild =>
    split at h <;> try contradiction
    split at h <;> cases h
    · exact move_pc hw (by constructor <;> simp) rfl
    · exact move_setWorker hw (by constructor <;> simp)
        (by simp [FiberMutable.setDisposalPhase, DisposalPhase.running])
  case childRequested found =>
    split at h <;> try contradiction
    split_ifs at h <;> cases h
    · exact move_pc hw (by constructor <;> simp) rfl
    · exact move_setWorker hw (by constructor <;> simp) (by simp [FiberMutable.childDone])
  case childDisposed outcome =>
    split at h <;> try contradiction
    cases h
    exact move_setWorker hw (by constructor <;> simp) (by simp [FiberMutable.childDone])
  case unregister =>
    split at h <;> try contradiction
    split_ifs at h <;> cases h
    iterate 3
      · exact move_ledger _ fun _ => rfl
    · exact move_setWorker hw (by constructor <;> simp)
        (by simp [FiberMutable.setDisposalPhase, DisposalPhase.running])
    · exact move_finishBody hw rfl (by simp) (by simp)
  case withdraw =>
    split at h <;> try contradiction
    split at h <;> cases h
    · exact move_setWorker hw (by constructor <;> simp) (by simp)
    · exact move_setWorker hw (by constructor <;> simp)
        (by simp [FiberMutable.setDisposalPhase, DisposalPhase.running])
  case withdrawLook owned =>
    split at h <;> try contradiction
    cases h
    cases owned <;> exact move_pc hw (by constructor <;> simp) rfl
  case withdrawRemove =>
    split at h <;> try contradiction
    cases h
    exact move_pc hw (by constructor <;> simp) rfl
  case takeEffect =>
    split at h <;> try contradiction
    split at h <;> cases h
    · exact move_setWorker hw (by constructor <;> simp) (by simp)
    · exact move_setWorker hw (by constructor <;> simp)
        (by simp [FiberMutable.setDisposalPhase, DisposalPhase.running])
  case effectDisposed outcome =>
    split at h <;> try contradiction
    cases h
    exact move_setWorker hw (by constructor <;> simp) (by simp)
  case readTarget =>
    split at h <;> try contradiction
    cases h
    refine move_pc (q := .targeted _ _) hw ?_ rfl
    have htarget := c.target_read
    constructor <;> simp
    · exact htarget.imp_right And.symm
    · exact htarget.imp_right And.right
  case reconciled outcome =>
    split at h <;> try contradiction
    cases h
    exact move_setWorker hw (by constructor <;> simp) (by simp)
  case report =>
    split at h <;> try contradiction
    cases h
    exact move_finishBody hw rfl (by simp) (by simp)
  case workerDied panic =>
    split_ifs at h with hbody
    cases h
    refine move_finishBody hw ?_ (by simp) (by simp)
    cases pc <;> simp_all [DisposalPc.inBody]
  case finalizeBegin =>
    split at h <;> try contradiction
    split_ifs at h <;> cases h
    · refine .worked _ (.finalizing _ _ _ _) .Finalizing c.inner.cancelled hw ?_ (.inr rfl) id
      constructor
      case faithful => exact fun h => finalizeBegin_faithful c.inner h
      case clears =>
        intro r t b s h
        injection h with _ _ _ hindexes
        exact finalizeBegin_clears c.inner hindexes
      all_goals simp
    · exact .gaveUp _ hw (by simpa using ‹¬ c.inArena = true›)
  case indexCleanup =>
    split at h <;> try contradiction
    cases h
    exact move_pc hw (by constructor <;> simp +contextual) rfl
  case finalizeCommit =>
    split at h <;> try contradiction
    split_ifs at h <;> cases h
    · exact .finalized _ _ _ hw
    · exact .gaveUp _ hw (by simpa using ‹¬ c.inArena = true›)
  all_goals contradiction

theorem transition_cases (r : FiberMutable) (f : FiberId) (next : FiberState) :
    (r.state.canTransitionTo next = true ∧
        r.transition f next = ({ r with state := next }, .ok ())) ∨
      ∃ e, r.transition f next = (r, .error e) := by
  unfold FiberMutable.transition
  split_ifs with hlegal
  · exact .inl ⟨hlegal, rfl⟩
  · exact .inr ⟨_, rfl⟩

theorem move_reload {pc : ReloadPc} (h : c.stepReload pc l = some c') : Move l c c'.control := by
  cases l <;> simp only [FiberCell.stepReload] at h
  case reloadTransition =>
    split at h <;> try contradiction
    split_ifs at h
    · rcases transition_cases c.inner c.id .Reloading with ⟨hlegal, heq⟩ | ⟨e, heq⟩ <;>
        simp only [heq] at h <;> cases h
      · exact .written .Reloading hlegal (.inr (.inl rfl))
      · exact .quiet
    · cases h
      exact .quiet
  case reloadRollback =>
    split at h <;> try contradiction
    cases h
    unfold FiberCell.withMut
    split_ifs
    · rcases transition_cases c.inner c.id .Active with ⟨hlegal, heq⟩ | ⟨e, heq⟩ <;>
        simp only [heq]
      · exact .written .Active hlegal (.inl rfl)
      · exact .quiet
    · exact .quiet
  all_goals
    repeat' split at h
    all_goals first | contradiction | (cases h; exact .quiet)

theorem move_install {pc : InstallPc} (h : c.stepInstall pc l = some c') : Move l c c'.control := by
  cases l <;> simp only [FiberCell.stepInstall] at h
  case installWait =>
    split at h <;> try contradiction
    split_ifs at h
    · rcases transition_cases c.inner c.id .WaitingDependencies with ⟨hlegal, heq⟩ | ⟨e, heq⟩ <;>
        simp only [heq] at h <;> cases h
      · exact .parked rfl hlegal
      · exact .quiet
    · cases h
      exact .quiet
  all_goals
    repeat' split at h
    all_goals first | contradiction | (cases h; exact .quiet)

/-- **Every section is a move.** -/
theorem step_move (h : c.step l = some c') : Move l c c'.control := by
  cases step_turn h with
  | activation n pc _ was step => exact move_activation was step
  | worker pc was step => exact move_worker was step
  | reload pc _ step => exact move_reload step
  | install step => exact move_install step
  | disposed w p a label now =>
    subst now
    exact move_dispose (.inl ⟨p, a, label⟩)
  | hostFailed generation _ _ now =>
    subst now
    unfold FiberMutable.convergeHostFailure
    split_ifs with hrefused
    · exact .quiet
    · refine .written .Failed ?_ (.inr (.inr rfl))
      rcases (not_or.mp (not_or.mp hrefused).2).2 with h
      rcases not_not.mp h with hs | hs <;> rw [hs] <;> rfl
  | registered entry _ _ now =>
    subst now
    cases entry <;> exact .quiet
  | called _ _ now | replaced _ _ now | cutover _ _ _ _ _ now | reclaimed _ _ _ now | detached _ _ now
  | acquired _ _ _ now | dropped _ _ _ now =>
    subst now
    exact .quiet

end Cordis
