import Cordis.Fiber.Control
import Cordis.Library.Machine

/-!
# The Fiber state machine over whole runs

Two of the writes of `state` do not look at what they overwrite: the staged branch of
`activate_body` writes `Active` after it sealed the activation in an earlier section, and the
finalizer of a disposal writes its target. The first is legal as long as no disposal slipped in
between, and the second as long as the install that is about to park the Fiber has not already moved
it out of `Disposing`. In a run whose sections keep clear of both (`Orderly`), the worker of a
disposal always finds the Fiber in `Disposing` (`Attended`), and every change of state is one of
`canTransitionTo`.
-/

namespace Cordis

open Machine

/-- The section does not overwrite a disposal in flight: the deferred write of `Active` finds the
activation it sealed, and `install_arc` does not park a Fiber that is being disposed. -/
def FiberCell.Orderly (c : FiberCell) : FiberLabel → Prop
  | .activationDefer _ => c.inner.state = .Starting
  | .installWait => c.inner.state ≠ .Disposing
  | _ => True

instance (c : FiberCell) (l : FiberLabel) : Decidable (c.Orderly l) := by
  cases l <;> unfold FiberCell.Orderly <;> infer_instance

/-- While a disposal worker is at work the Fiber is `Disposing`, and the worker aims at one of the
two successors of `Disposing`. -/
structure Control.Attended (k : Control) : Prop where
  disposing : ∀ pc, k.worker = some pc → k.state = .Disposing
  running : ∀ pc, k.worker = some pc → k.phase.running = true
  target : ∀ pc t, k.worker = some pc → pc.target = some t →
    t = .Disposed ∨ t = .WaitingDependencies

theorem attended_created (id : FiberId) (plugin : PluginId) (scope : ScopeId)
    (descriptor : PluginDescriptor) (generation : GenerationId) (staged : Bool) :
    (FiberCell.created id plugin scope descriptor generation staged).control.Attended where
  disposing := by simp [FiberCell.control, FiberCell.created]
  running := by simp [FiberCell.control, FiberCell.created]
  target := by simp [FiberCell.control, FiberCell.created]

section

variable {c c' d : FiberCell} {l : FiberLabel} {k : Control}

theorem attended_of_no_worker (h : k.worker = none) : k.Attended where
  disposing := by simp [h]
  running := by simp [h]
  target := by simp [h]

theorem Control.Attended.no_worker (hk : k.Attended) (h : k.state ≠ .Disposing) :
    k.worker = none := by
  cases hw : k.worker with
  | none => rfl
  | some pc => exact absurd (hk.disposing pc hw) h

theorem ne_disposing_of_written {s s' : FiberState} (hlegal : s.canTransitionTo s' = true)
    (hnext : s' = .Active ∨ s' = .Reloading ∨ s' = .Failed) : s ≠ .Disposing := by
  rintro rfl
  rcases FiberState.of_disposing hlegal with rfl | rfl <;> simp at hnext

theorem attended_move (hc : c.control.Attended) (hl : c.Orderly l) (hm : Move l c k) :
    k.Attended := by
  cases hm with
  | quiet => exact hc
  | start s' hfrom =>
    rcases hfrom with rfl | ⟨hs, rfl⟩
    · exact ⟨hc.disposing, hc.running, hc.target⟩
    · refine attended_of_no_worker (hc.no_worker ?_)
      change c.inner.state ≠ _
      rcases hs with hs | hs <;> simp [hs]
  | restart s' hwaiting _ _ =>
    refine attended_of_no_worker (hc.no_worker ?_)
    change c.inner.state ≠ _
    simp [hwaiting]
  | deferred n hlabel _ =>
    obtain ⟨m, rfl⟩ := hlabel
    have hs : c.inner.state = .Starting := hl
    refine attended_of_no_worker (hc.no_worker ?_)
    change c.inner.state ≠ _
    simp [hs]
  | parked hlabel _ =>
    subst hlabel
    exact attended_of_no_worker (hc.no_worker hl)
  | written s' hlegal hnext =>
    exact attended_of_no_worker (hc.no_worker (ne_disposing_of_written hlegal hnext))
  | failed s' hnext =>
    rcases hnext with rfl | ⟨hs, rfl⟩
    · exact ⟨hc.disposing, hc.running, hc.target⟩
    · refine attended_of_no_worker (hc.no_worker ?_)
      change c.inner.state ≠ _
      simp [hs]
  | refused => exact ⟨hc.disposing, hc.running, hc.target⟩
  | joined => exact ⟨hc.disposing, hc.running, hc.target⟩
  | requested =>
    refine ⟨fun _ _ => rfl, fun _ _ => rfl, fun pc t hw ht => ?_⟩
    obtain rfl : DisposalPc.spawned = pc := Option.some.inj hw
    simp [DisposalPc.target] at ht
  | worked pc pc' ph' b hwas hnext hphase _ =>
    refine ⟨fun _ _ => hc.disposing pc hwas, fun _ _ => ?_, fun q t hw ht => ?_⟩
    · rcases hphase with rfl | hphase
      · exact hc.running pc hwas
      · exact hphase
    · obtain rfl : pc' = q := Option.some.inj hw
      exact hnext.lawful (fun t ht => hc.target pc t hwas ht) t ht
  | gaveUp => exact attended_of_no_worker rfl
  | finalized => exact attended_of_no_worker rfl

theorem move_legal (hc : c.control.Attended) (hl : c.Orderly l) (hm : Move l c k)
    (hne : k.state ≠ c.inner.state) : c.inner.state.canTransitionTo k.state = true := by
  cases hm with
  | quiet => exact absurd rfl hne
  | start s' hfrom =>
    rcases hfrom with rfl | ⟨hs, rfl⟩
    · exact absurd rfl hne
    · rcases hs with hs | hs <;> rw [hs] <;> rfl
  | restart s' hwaiting _ hnext =>
    rcases hnext with rfl | rfl
    · exact absurd hwaiting.symm hne
    · rw [hwaiting]
      rfl
  | deferred n hlabel _ =>
    obtain ⟨m, rfl⟩ := hlabel
    have hs : c.inner.state = .Starting := hl
    rw [hs]
    rfl
  | parked _ hlegal => exact hlegal
  | written s' hlegal _ => exact hlegal
  | failed s' hnext =>
    rcases hnext with rfl | ⟨hs, rfl⟩
    · exact absurd rfl hne
    · rw [hs]
      rfl
  | refused => exact absurd rfl hne
  | joined => exact absurd rfl hne
  | requested w p a _ _ hlegal =>
    rcases hlegal with hs | hlegal
    · exact absurd hs.symm hne
    · exact hlegal
  | worked => exact absurd rfl hne
  | gaveUp => exact absurd rfl hne
  | finalized result target terminated hwas =>
    cases terminated with
    | true => exact absurd rfl hne
    | false =>
      cases target with
      | none => exact absurd rfl hne
      | some t =>
        have hs : c.inner.state = .Disposing := hc.disposing _ hwas
        rw [hs]
        rcases hc.target _ t hwas rfl with rfl | rfl <;> rfl

theorem reach_attended {c₀ : FiberCell} (h₀ : c₀.control.Attended)
    (hr : Reach FiberCell.step FiberCell.Orderly c₀ c) : c.control.Attended :=
  hr.invariant (I := fun c => c.control.Attended) h₀
    fun _ _ _ hc hl hs => attended_move hc hl (step_move hs)

theorem step_legal (hc : c.control.Attended) (hl : c.Orderly l) (hs : c.step l = some c')
    (hne : c'.inner.state ≠ c.inner.state) : c.inner.state.canTransitionTo c'.inner.state = true :=
  move_legal hc hl (step_move hs) hne

theorem reach_disposed (hc : c.control.Attended) (hdisposed : c.inner.state = .Disposed)
    (hr : Reach FiberCell.step FiberCell.Orderly c d) : d.inner.state = .Disposed := by
  have hboth : d.control.Attended ∧ d.inner.state = .Disposed := by
    refine hr.invariant (I := fun c => c.control.Attended ∧ c.inner.state = .Disposed)
      ⟨hc, hdisposed⟩ ?_
    rintro t a u ⟨ht, hs⟩ hl hstep
    refine ⟨attended_move ht hl (step_move hstep), ?_⟩
    by_contra hne
    have hlegal := step_legal ht hl hstep (by rw [hs]; exact hne)
    rw [hs, FiberState.not_canTransitionTo_of_disposed] at hlegal
    contradiction
  exact hboth.2

/-- Out of `Disposing` an orderly run stays in `Disposing` or `Disposed` until it passes through
`WaitingDependencies`. -/
theorem reach_disposing (hc : c.control.Attended) (hdisposing : c.inner.state = .Disposing)
    (hr : Reach FiberCell.step
      (fun c l => c.Orderly l ∧ c.inner.state ≠ .WaitingDependencies) c d) :
    d.inner.state = .Disposing ∨ d.inner.state = .Disposed ∨
      d.inner.state = .WaitingDependencies := by
  have hboth : d.control.Attended ∧ (d.inner.state = .Disposing ∨ d.inner.state = .Disposed ∨
      d.inner.state = .WaitingDependencies) := by
    refine hr.invariant (I := fun c => c.control.Attended ∧ (c.inner.state = .Disposing ∨
      c.inner.state = .Disposed ∨ c.inner.state = .WaitingDependencies))
      ⟨hc, .inl hdisposing⟩ ?_
    rintro t a u ⟨ht, hs⟩ ⟨hl, hnw⟩ hstep
    refine ⟨attended_move ht hl (step_move hstep), ?_⟩
    by_cases hsame : u.inner.state = t.inner.state
    · rw [hsame]
      exact hs
    have hlegal := step_legal ht hl hstep hsame
    rcases hs with hs | hs | hs
    · rw [hs] at hlegal
      exact .inr (FiberState.of_disposing hlegal)
    · rw [hs, FiberState.not_canTransitionTo_of_disposed] at hlegal
      contradiction
    · exact absurd hs hnw
  exact hboth.2

end

/-! ## The state machine of a Fiber -/

/-- **In an orderly run every change of state is a legal transition**, `Disposed` is never left, and
a Fiber that entered `Disposing` is not `Active` again before it was in `WaitingDependencies`. -/
theorem fiber_lifecycle_legal (id : FiberId) (plugin : PluginId) (scope : ScopeId)
    (descriptor : PluginDescriptor) (generation : GenerationId) (staged : Bool) {c : FiberCell}
    (hr : Reach FiberCell.step FiberCell.Orderly
      (FiberCell.created id plugin scope descriptor generation staged) c) :
    (∀ l c', c.Orderly l → c.step l = some c' → c'.inner.state ≠ c.inner.state →
      c.inner.state.canTransitionTo c'.inner.state = true) ∧
    (c.inner.state = .Disposed → ∀ d, Reach FiberCell.step FiberCell.Orderly c d →
      d.inner.state = .Disposed) ∧
    (c.inner.state = .Disposing → ∀ d, Reach FiberCell.step
      (fun c l => c.Orderly l ∧ c.inner.state ≠ .WaitingDependencies) c d →
      d.inner.state ≠ .Active) := by
  have hc : c.control.Attended :=
    reach_attended (attended_created id plugin scope descriptor generation staged) hr
  refine ⟨fun l c' hl hs hne => step_legal hc hl hs hne, fun hd d hrd => reach_disposed hc hd hrd,
    fun hd d hrd => ?_⟩
  rcases reach_disposing hc hd hrd with h | h | h <;> simp [h]

/-- A reload-staged Fiber up to the point where it has read `staged = true`. -/
def stagedToDeferring : List FiberLabel :=
  [.installValidate (.ok ()), .installCheck true, .activationLock 0,
    .activationBegin 0 true (.ok 2), .activationPoll 0, .activationReturn 0 (.ok ()),
    .activationSeal 0 true, .activationValidate 0, .activationReadStaged 0]

/-- The staged Fiber of the runs below: generation 2 of plugin 0, in the staging Scope 1. -/
def stagedFiber : FiberCell := .created 1 0 1 ⟨[], [], .Restart⟩ 2 true

theorem fiber_lifecycle_legal_staged :
    ∃ c, Reach FiberCell.step FiberCell.Orderly stagedFiber c ∧ c.inner.state = .Active ∧
      ∀ l c', c.Orderly l → c.step l = some c' → c'.inner.state ≠ c.inner.state →
        c.inner.state.canTransitionTo c'.inner.state = true := by
  obtain ⟨c, hrun, hstate⟩ : ∃ c, runIf FiberCell.step FiberCell.Orderly stagedFiber
      (stagedToDeferring ++ [.activationDefer 0]) = some c ∧ c.inner.state = .Active :=
    ⟨_, rfl, rfl⟩
  exact ⟨c, reach_of_runIf hrun, hstate,
    (fiber_lifecycle_legal 1 0 1 ⟨[], [], .Restart⟩ 2 true (reach_of_runIf hrun)).1⟩

/-- Without the condition the staged write overwrites the disposal that its staging Scope asked for
after the activation was sealed: `Disposing` becomes `Active`. -/
theorem staged_write_not_legal :
    ¬ ∀ c₀, (∃ id plugin scope descriptor generation staged,
        c₀ = FiberCell.created id plugin scope descriptor generation staged) →
      ∀ c, Reach FiberCell.step anyStep c₀ c → ∀ l c', c.step l = some c' →
        c'.inner.state ≠ c.inner.state →
        c.inner.state.canTransitionTo c'.inner.state = true := by
  intro h
  obtain ⟨c, hrun, hstate, hnext⟩ : ∃ c, run FiberCell.step stagedFiber
      (stagedToDeferring ++ [.callDispose false false true]) = some c ∧
      c.inner.state = .Disposing ∧
      ∃ c', c.step (.activationDefer 0) = some c' ∧ c'.inner.state = .Active :=
    ⟨_, rfl, rfl, _, rfl, rfl⟩
  obtain ⟨c', hstep, hstate'⟩ := hnext
  have hlegal := h stagedFiber ⟨1, 0, 1, _, 2, true, rfl⟩ c (reach_of_run hrun) _ c' hstep
    (by simp [hstate, hstate'])
  rw [hstate, hstate'] at hlegal
  contradiction

end Cordis
