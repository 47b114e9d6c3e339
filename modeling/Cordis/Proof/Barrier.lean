import Cordis.Fiber.Refusal
import Cordis.Library.Barrier
import Cordis.Proof.Generation
import Cordis.Proof.Members

/-!
# The shutdown barrier

`AdmissionGate` is a read-write lock with a flag: an operation enters it again before every section
that installs, starts, registers or publishes something, and keeps its guard until the section is
over, while `begin_shutdown` takes the write lock. `barrier` puts the Runtime behind that gate: the
threads and the guards they hold are explicit, and a gated section runs under a guard or on the path
of a refused `enter`. What runs after `begin_shutdown` has returned only winds down.
-/

namespace Cordis

open Machine

namespace RuntimeLabel

/-- The section is inside a guard of the admission gate. -/
def gated : RuntimeLabel → Bool
  | fiber _ (.activationBegin ..) | fiber _ (.activationSeal ..) | fiber _ (.activationCheck ..)
  | fiber _ (.activationCommit ..) | fiber _ (.register _) | fiber _ .installIndex => true
  | createScope .. | install .. | provide .. | handle .. | intercept .. | ownScope ..
  | commitReload .. => true
  | _ => false

end RuntimeLabel

namespace Runtime

/-- The Runtime behind its admission gate. -/
def barrier : Barrier Runtime RuntimeLabel where
  step rt l :=
    match l with
    | .beginShutdown => none
    | l => rt.step l
  isOpen rt := rt.admission
  lower rt := { rt with admission := false }
  gated := RuntimeLabel.gated

/-- A fresh Runtime; no thread holds a guard. -/
def unguarded : Barrier.State Runtime Nat := ⟨.new, []⟩

variable {rt rt' : Runtime} {f : FiberId} {c c' : FiberCell} {l : FiberLabel}

/-- Nothing is added, started or published. -/
structure Wanes (rt rt' : Runtime) : Prop where
  scopes : ∀ s, (rt'.scope s).isSome → (rt.scope s).isSome
  fibers : ∀ f, (rt'.fiber f).isSome → (rt.fiber f).isSome
  records : ∀ f c c', rt.fibers f = some c → rt'.fibers f = some c' → c.inner.Wanes c'.inner
  services : ∀ s k e, rt'.services s k = some e → rt.services s k = some e
  selectors : ∀ p, rt'.selectors p = rt.selectors p ∨ rt'.selectors p = .NONE

theorem Wanes.refl (rt : Runtime) : Wanes rt rt where
  scopes := fun _ => id
  fibers := fun _ => id
  records := fun f c c' hc hc' => by
    rw [hc] at hc'
    cases hc'
    exact .refl _
  services := fun _ _ _ => id
  selectors := fun _ => .inl rfl

/-! ## Selectors -/

theorem fiberEffect_selectors (rt : Runtime) (f : FiberId) (hstep : c.step l = some c')
    (hl : l.admitted = false) (q : PluginId) :
    (fiberEffect f c c' l rt).selectors q = rt.selectors q ∨
      (fiberEffect f c c' l rt).selectors q = .NONE := by
  rcases fiberEffect_selects f rt hstep with hcleared | ⟨n, checked, active, rfl, hstarting, hactive, -⟩
  · exact hcleared q
  · -- a commit that is refused leaves the state alone
    have hsame : c'.inner.state = c.inner.state := by
      cases checked with
      | ok => cases hl
      | error e =>
        obtain ⟨pc, -, hstep⟩ := Option.bind_eq_some_iff.mp hstep
        simp only [FiberCell.stepActivation] at hstep
        split at hstep <;> try contradiction
        cases hstep
        rfl
    rw [hsame, hstarting] at hactive
    contradiction

/-! ## One section after the closing -/

theorem answered_refused {a : FiberLabel} (hclosed : rt.admission = false)
    (h : rt.answered f c l = some a) : a.admitted = false := by
  cases l <;> simp only [answered] at h
  case activationBegin | activationSeal =>
    cases h
    exact hclosed
  case activationCommit =>
    cases h
    rw [hclosed]
    rfl
  case childDisposed =>
    split at h <;> try contradiction
    obtain ⟨o, -, rfl⟩ := Option.map_eq_some_iff.mp h
    rfl
  case register entry =>
    cases entry <;> simp [hclosed] at h
  all_goals
    repeat' split at h
    all_goals first | contradiction | (cases h; rfl)

theorem wanes_of {l : RuntimeLabel} (hsound : ∀ f c, rt.fibers f = some c → c.Sound)
    (hfollows : Follows rt l rt') (hacts : ∀ f c a, Acts rt f c l a → a.admitted = false)
    (htame : Tame rt rt')
    (hplaces : ∀ s r r', rt.scopes s = some r → rt'.scopes s = some r' → r'.inArena = true →
      r.inArena = true)
    (hselectors : ∀ p, rt'.selectors p = rt.selectors p ∨ rt'.selectors p = .NONE) :
    Wanes rt rt' where
  scopes := fun s hs => by
    obtain ⟨r', hr'⟩ := Option.isSome_iff_exists.mp hs
    obtain ⟨hr', hin⟩ := scope_eq_some.mp hr'
    obtain ⟨r, hr, -⟩ := htame.scopes s r' hr'
    exact Option.isSome_iff_exists.mpr ⟨r, scope_eq_some.mpr ⟨hr, hplaces s r r' hr hr' hin⟩⟩
  fibers := fun f hf => by
    obtain ⟨c', hc'⟩ := Option.isSome_iff_exists.mp hf
    obtain ⟨hc', hin⟩ := fiber_eq_some.mp hc'
    obtain ⟨c, hc, -⟩ := htame.fibers f c' hc'
    refine Option.isSome_iff_exists.mpr ⟨c, fiber_eq_some.mpr ⟨hc, ?_⟩⟩
    obtain ⟨d, hd, hsame | ⟨a, ha, -⟩⟩ := hfollows.cells f c hc
    all_goals obtain rfl : d = c' := by simpa [hd] using hc'
    · rwa [← hsame]
    · exact (step_same ha).arena hin
  records := fun f c c' hc hc' => by
    obtain ⟨d, hd, hsame | ⟨a, ha, hact⟩⟩ := hfollows.cells f c hc
    all_goals obtain rfl : d = c' := by simpa [hd] using hc'
    · rw [hsame]
      exact .refl _
    · exact step_wanes (hsound f c hc).consistent ha (hacts f c a hact)
  services := htame.services
  selectors := hselectors

theorem disposeFound_selectors (rt : Runtime) (f : FiberId) (w p a : Bool) (q : PluginId) :
    (rt.disposeFound f w p a).1.selectors q = rt.selectors q ∨
      (rt.disposeFound f w p a).1.selectors q = .NONE := by
  rcases disposeFound_spec rt f w p a with ⟨-, heq⟩ | ⟨c, c', hc, hstep, heq⟩ <;> rw [heq]
  · exact .inl rfl
  · exact fiberEffect_selectors (rt.setFiber f c') f hstep rfl q

theorem stepScope_selectors {s : ScopeId} {r : ScopeCell} {pc : ScopePc} {a : ScopeLabel}
    (h : rt.stepScope s r pc a = some rt') (q : PluginId) :
    rt'.selectors q = rt.selectors q ∨ rt'.selectors q = .NONE := by
  rcases stepScope_only h with honly | ⟨f, p, honly⟩ <;> rw [honly.eq]
  · exact .inl rfl
  · exact disposeFound_selectors rt f false p true q

theorem Steady.places (h : Steady rt rt') {s : ScopeId} {r r' : ScopeCell}
    (hr : rt.scopes s = some r) (hr' : rt'.scopes s = some r') (hin : r'.inArena = true) :
    r.inArena = true := by
  obtain ⟨q, hq, hsteady⟩ := h s r hr
  obtain rfl : q = r' := by simpa [hq] using hr'
  rwa [← hsteady.arena]

theorem registerEntry_closed (hclosed : rt.admission = false) (scope : ScopeId)
    (entry : Registration) : rt.registerEntry f scope entry = none := by
  cases h : rt.registerEntry f scope entry with
  | none => rfl
  | some rt' =>
    rw [registerEntry_admission h] at hclosed
    contradiction

/-- **With admission closed a section only winds down.** -/
theorem wanes_step {l : RuntimeLabel} (ht : Topology rt)
    (hsound : ∀ f c, rt.fibers f = some c → c.Sound) (hclosed : rt.admission = false)
    (h : rt.step l = some rt') : Wanes rt rt' := by
  have hfollows := step_follows ht h
  have hframes := step_frames ht h
  cases l <;> simp only [step] at h
  case fiber f a =>
    refine wanes_of hsound hfollows (fun g c b hact => ?_) (tame_fiberStep h)
      (fun s r r' hr hr' hin => ?_) fun q => ?_
    · cases hact with
      | own hanswer => exact answered_refused hclosed hanswer
    · rcases hframes.scopes s r' hr' (by simp) with ⟨hlo, hhi, -⟩ | ⟨r₀, hr₀, hframe⟩
      · rw [(tame_fiberStep h).nextScope] at hhi
        exact absurd hhi (Nat.not_lt.mpr hlo)
      · obtain rfl : r₀ = r := by simpa [hr₀] using hr
        rcases hframe with hframe | hopened
        · exact hframe.arena hin
        · exact hopened.arena hin
    · obtain ⟨c, b, c', hc, hb, hstep, rfl⟩ := fiberStep_spec h
      exact fiberEffect_selectors (rt.setFiber f c') f hstep (answered_refused hclosed hb) q
  case scope s a =>
    split at h <;> try contradiction
    rename_i r hr
    obtain ⟨pc, -, h⟩ := Option.bind_eq_some_iff.mp h
    refine wanes_of hsound hfollows (fun g c b hact => ?_) (tame_stepScope hr h)
      (fun s r r' => (steady_stepScope hr h).places) (stepScope_selectors h)
    cases hact
    rfl
  case disposeScope s p =>
    cases h
    refine wanes_of hsound hfollows (fun g c b hact => ?_) (tame_requestScopeDisposal rt s p)
      (fun s' r r' => (steady_requestScopeDisposal rt s p).places) fun q => ?_
    · cases hact
    · rw [(requestScopeDisposal_only rt s p).eq]
      exact .inl rfl
  case createScope =>
    simp [createScope, hclosed] at h
  case install =>
    simp [insertFiber, hclosed] at h
  case provide =>
    unfold provide at h
    split at h <;> try contradiction
    split_ifs at h
    simp [registerEntry_closed hclosed] at h
  case handle =>
    obtain ⟨-, rt₁, -, -, h₁, -⟩ := handle_spec h
    rw [registerEntry_closed hclosed] at h₁
    contradiction
  case intercept =>
    unfold intercept at h
    split at h <;> try contradiction
    simp [registerEntry_closed hclosed] at h
  case ownScope => simp [ownScope, createScope, hclosed] at h
  case commitReload old staged staging target =>
    have hrefused : rt.commitStagedRevision old staged staging target =
        (rt, .error .RuntimeShuttingDown) := by
      simp [commitStagedRevision, commitRevisionIf, hclosed]
    obtain rfl : rt = rt' := by
      unfold commitReload reloadWith at h
      rw [hrefused] at h
      split at h <;> try contradiction
      split_ifs at h
      exact Option.some.inj h
    exact .refl rt
  case sweepFiber g =>
    refine wanes_of hsound hfollows (fun f c b hact => by cases hact) (tame_sweepFiber h)
      (fun s r r' hr hr' hin => ?_) fun q => ?_
    all_goals
      unfold sweepFiber at h
      split_ifs at h
      cases h
    · simp only [hr, Option.map_some, Option.some.injEq] at hr'
      subst hr'
      split_ifs at hin with harena
      · exact harena
      · exact hin
    · exact .inl rfl
  case sweepScope s =>
    refine wanes_of hsound hfollows (fun f c b hact => by cases hact) (tame_sweepScope h)
      (fun x r r' hr hr' hin => ?_) fun q => ?_
    all_goals
      unfold sweepScope at h
      split at h <;> try contradiction
      split_ifs at h
      cases h
    · by_cases hx : x = s
      · subst hx
        simp only [setScope, Function.update_self, Option.some.injEq] at hr'
        rw [← hr'] at hin
        contradiction
      · simp only [setScope, Function.update_of_ne hx, hr, Option.some.injEq] at hr'
        rwa [hr']
    · exact .inl rfl
  case beginShutdown =>
    cases h
    exact { Wanes.refl rt with }

/-! ## Runs behind the gate -/

theorem switch_admission (rt : Runtime) (p : PluginId) (g g' : GenerationId) :
    (rt.switch p g g').admission = rt.admission := by
  unfold switch
  split_ifs <;> rfl

theorem fiberEffect_admission (f : FiberId) (rt : Runtime) (hstep : c.step l = some c') :
    (fiberEffect f c c' l rt).admission = rt.admission := by
  have heffect := section_effect f rt hstep
  generalize fiberEffect f c c' l rt = rt₁ at heffect ⊢
  cases heffect with
  | closed | published => exact switch_admission ..
  | none | numbered | indexed | unregistered | withdrawn | forgotten => rfl

theorem registerEntry_keeps {scope : ScopeId} {entry : Registration}
    (h : rt.registerEntry f scope entry = some rt') : rt'.admission = rt.admission := by
  obtain ⟨c, -, -, -, rfl⟩ := registerEntry_spec h
  rfl

theorem step_admission {l : RuntimeLabel} (ht : Topology rt) (h : barrier.step rt l = some rt') :
    rt'.admission = rt.admission := by
  cases l <;> simp only [barrier, step] at h
  case fiber f a =>
    obtain ⟨c, a', c', -, -, hstep, rfl⟩ := fiberStep_spec h
    exact fiberEffect_admission _ _ hstep
  case scope s a =>
    split at h <;> try contradiction
    obtain ⟨pc, -, h⟩ := Option.bind_eq_some_iff.mp h
    rcases stepScope_only h with honly | ⟨f, p, honly⟩ <;> rw [honly.eq]
    rcases disposeFound_spec rt f false p true with ⟨-, heq⟩ | ⟨c, c', -, hstep, heq⟩ <;> rw [heq]
    exact fiberEffect_admission _ _ hstep
  case disposeScope s p =>
    cases h
    rw [(requestScopeDisposal_only rt s p).eq]
  case createScope =>
    obtain ⟨-, heq, -⟩ := createScope_spec h
    rw [heq]
  case install =>
    obtain ⟨p, heq, -⟩ := insertFiber_spec h
    rw [heq]
  case provide =>
    unfold provide at h
    split at h <;> try contradiction
    split_ifs at h
    obtain ⟨rt₁, h₁, rfl⟩ := Option.map_eq_some_iff.mp h
    have hkeeps := registerEntry_keeps h₁
    exact hkeeps
  case handle =>
    obtain ⟨c₀, rt₁, -, -, h₁, rfl⟩ := handle_spec h
    have hkeeps := registerEntry_keeps h₁
    exact hkeeps
  case intercept =>
    unfold intercept at h
    split at h <;> try contradiction
    obtain ⟨rt₁, h₁, rfl⟩ := Option.map_eq_some_iff.mp h
    have hkeeps := registerEntry_keeps h₁
    exact hkeeps
  case ownScope =>
    unfold ownScope at h
    obtain ⟨rt₁, h₁, h⟩ := Option.bind_eq_some_iff.mp h
    obtain ⟨-, heq, -⟩ := createScope_spec h₁
    rw [registerEntry_keeps h, heq]
  case commitReload =>
    rcases commitReload_cases ht h with hsame | ⟨oldCell, c, hcut, rfl⟩
    · rw [hsame.rest]
    · rfl
  case sweepFiber =>
    unfold sweepFiber at h
    split_ifs at h
    cases h
    rfl
  case sweepScope =>
    unfold sweepScope at h
    split at h <;> try contradiction
    split_ifs at h
    cases h
    rfl
  case beginShutdown => contradiction

/-- What the step lemmas ask of a Runtime. -/
structure Good (rt : Runtime) : Prop where
  topology : Topology rt
  sound : ∀ f c, rt.fibers f = some c → c.Sound

theorem good_new : Good .new := ⟨topology_new, fun f c hc => by cases hc⟩

theorem good_step {l : RuntimeLabel} (hgood : Good rt) (h : rt.step l = some rt') : Good rt' :=
  ⟨topology_step hgood.topology h, (step_evolves hgood.topology h).sound hgood.sound⟩

theorem barrier_step {l : RuntimeLabel} (h : barrier.step rt l = some rt') :
    rt.step l = some rt' := by
  cases l
  case beginShutdown => cases h
  all_goals exact h

theorem barrier_sane : barrier.Sane Good where
  kept := fun _ _ _ hgood h => ⟨good_step hgood (barrier_step h), step_admission hgood.topology h⟩
  lowered := fun rt hgood => ⟨good_step (l := .beginShutdown) hgood rfl, rfl⟩
  again := fun rt h => by
    cases rt
    simp only [barrier] at h ⊢
    rw [h]

theorem good_reach {s : Barrier.State Runtime Nat}
    (h : Reach barrier.gate anyStep unguarded s) : Good s.inner :=
  h.invariant (I := fun s => Good s.inner) good_new fun _ _ _ hgood _ hstep =>
    Barrier.gate_invariant barrier_sane hgood hstep

/-- A thread that holds a guard finds the gate as `enter` found it. -/
theorem guard_admits {s : Barrier.State Runtime Nat}
    (h : Reach barrier.gate anyStep unguarded s) {t : Nat} (ht : t ∈ s.guards) :
    s.inner.admission = true := by
  have hheld : Good s.inner ∧ barrier.Held s := by
    refine h.invariant (I := fun s => Good s.inner ∧ barrier.Held s) ⟨good_new, ?_⟩ ?_
    · exact fun hne => absurd rfl hne
    · rintro s l s' ⟨hgood, hheld⟩ - hstep
      exact ⟨Barrier.gate_invariant barrier_sane hgood hstep,
        Barrier.held_step barrier_sane hgood hheld hstep⟩
  exact hheld.2 (List.ne_nil_of_mem ht)

/-- **Shutdown barrier.** Whatever was accepted before, no step after `begin_shutdown` has returned
adds a Scope or a Fiber, starts a Fiber, adds to a ledger or to the services, or publishes a
generation. -/
theorem shutdown_barrier {s s₁ s₂ s₃ : Barrier.State Runtime Nat}
    (h : Reach barrier.gate anyStep unguarded s) (hshut : barrier.gate s .close = some s₁)
    (hlater : Reach barrier.gate anyStep s₁ s₂) {l : Barrier.Label Nat RuntimeLabel}
    (hstep : barrier.gate s₂ l = some s₃) : Wanes s₂.inner s₃.inner := by
  have hgood := good_reach h
  obtain ⟨hclosed, hnone⟩ := Barrier.closed_close barrier_sane hgood hshut
  have hgood₁ := Barrier.gate_invariant barrier_sane hgood hshut
  obtain ⟨hgood₂, hclosed₂, hnone₂⟩ :=
    Barrier.closed_reach barrier_sane hgood₁ hclosed hnone hlater
  obtain ⟨-, hsame | ⟨a, -, ha⟩⟩ := Barrier.closed_step barrier_sane hgood₂ hclosed₂ hnone₂ hstep
  · rw [hsame]
    exact .refl _
  · exact wanes_step hgood₂.topology hgood₂.sound hclosed₂ (barrier_step ha)

/-- Thread `t` enters the gate for one section. -/
def entered (t : Nat) (l : RuntimeLabel) : List (Barrier.Label Nat RuntimeLabel) :=
  [.enter t, .inside t l, .leave t]

/-- An install is accepted and starts, and its plugin has provided a service, when the Runtime shuts
down: the activation that comes back from `plugin.start` is refused. -/
theorem shutdown_barrier_install :
    ∃ s₂ s₃, Reach barrier.gate anyStep unguarded s₂ ∧
      (s₂.inner.fibers 0).any (fun c => c.inner.state == .Starting && c.inner.provided == [7]) ∧
      barrier.gate s₂ (.outside (.fiber 0 (.activationSeal 0 true))) = some s₃ ∧
      Wanes s₂.inner s₃.inner := by
  have hrun : ((run barrier.gate unguarded ([.enter 0, .inside 0 (.install 0 none ⟨[], [7], .Restart⟩ false),
        .inside 0 (.fiber 0 .installIndex), .leave 0] ++
      [.outside (.fiber 0 (.installValidate (.ok ()))), .outside (.fiber 0 (.installCheck true)),
        .outside (.fiber 0 (.activationLock 0))] ++
      entered 0 (.fiber 0 (.activationBegin 0 true (.ok 0))) ++
      [.outside (.fiber 0 (.activationPoll 0))] ++ entered 1 (.provide 0 0 7))).any fun s =>
        (barrier.gate s .close).any fun s₁ =>
          (run barrier.gate s₁ [.outside (.fiber 0 (.activationReturn 0 (.ok ())))]).any fun s₂ =>
            (s₂.inner.fibers 0).any (fun c => c.inner.state == .Starting &&
              c.inner.provided == [7]) &&
            (barrier.gate s₂ (.outside (.fiber 0 (.activationSeal 0 true)))).isSome) = true := by
    decide
  obtain ⟨s, hs, hrun⟩ := (Option.any_eq_true _ _).mp hrun
  obtain ⟨s₁, hclose, hrun⟩ := (Option.any_eq_true _ _).mp hrun
  obtain ⟨s₂, hlater, hrun⟩ := (Option.any_eq_true _ _).mp hrun
  obtain ⟨hstarting, hrun⟩ := Bool.and_eq_true_iff.mp hrun
  obtain ⟨s₃, hstep⟩ := Option.isSome_iff_exists.mp hrun
  have hreach : Reach barrier.gate anyStep unguarded s₁ :=
    (reach_of_run hs).tail trivial hclose
  exact ⟨s₂, s₃, hreach.trans (reach_of_run hlater), hstarting, hstep,
    shutdown_barrier (reach_of_run hs) hclose (reach_of_run hlater) hstep⟩

end Runtime

end Cordis
