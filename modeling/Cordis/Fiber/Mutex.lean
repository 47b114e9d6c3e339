import Cordis.Fiber.Control
import Cordis.Library.Machine

/-!
# The lifecycle mutex

At most one activation of a Fiber is between taking its async `lifecycle` mutex and releasing it,
and an activation that passed the poll found the cancellation token unfired.
-/

namespace Cordis

open Machine

/-- What activation call `n`, which stood at `pc`, did. -/
structure ActivationPc.Next (c c' : FiberCell) (n : Nat) (pc pc' : ActivationPc) : Prop where
  moved : c'.activations = Function.update c.activations n (some pc')
  mutex : (c.lifecycle = none ∧ c'.lifecycle = some (.activation n) ∧ pc'.live = false) ∨
    (c'.lifecycle = c.lifecycle ∧ (pc'.held = true → pc.held = true)) ∨
    (pc.held = true ∧ pc'.held = false ∧ c'.lifecycle = none)
  live : pc'.live = true → pc.live = true ∨ c.inner.cancelled = false

variable {c c' : FiberCell} {l : FiberLabel}

attribute [local simp] ActivationPc.held ActivationPc.live FiberCell.setActivation

theorem activation_next {n : Nat} {pc pc' : ActivationPc}
    (hmoved : c'.activations = Function.update c.activations n (some pc'))
    (hmutex : c'.lifecycle = c.lifecycle) (hheld : pc'.held = true → pc.held = true)
    (hlive : pc'.live = true → pc.live = true ∨ c.inner.cancelled = false) :
    ∃ pc', ActivationPc.Next c c' n pc pc' :=
  ⟨pc', hmoved, .inr (.inl ⟨hmutex, hheld⟩), hlive⟩

theorem activation_release {n : Nat} {pc pc' : ActivationPc}
    (hmoved : c'.activations = Function.update c.activations n (some pc'))
    (hmutex : c'.lifecycle = none) (hheld : pc.held = true) (hfree : pc'.held = false)
    (hlive : pc'.live = false) : ∃ pc', ActivationPc.Next c c' n pc pc' :=
  ⟨pc', hmoved, .inr (.inr ⟨hheld, hfree, hmutex⟩),
    fun h => by rw [hlive] at h; contradiction⟩

theorem dispose_frame (c : FiberCell) (w p a : Bool) :
    (c.dispose w p a).1.activations = c.activations ∧
      (c.dispose w p a).1.lifecycle = c.lifecycle := by
  unfold FiberCell.dispose
  split <;> exact ⟨rfl, rfl⟩

theorem stepActivation_next {n : Nat} {pc : ActivationPc}
    (h : c.stepActivation n pc l = some c') : ∃ pc', ActivationPc.Next c c' n pc pc' := by
  cases l <;> simp only [FiberCell.stepActivation] at h
  case activationLock =>
    split at h <;> try contradiction
    rename_i hfree
    cases h
    exact ⟨.locked, rfl, .inl ⟨hfree, rfl, rfl⟩, by simp⟩
  case activationPoll =>
    split at h <;> try contradiction
    split_ifs at h with hfired <;> cases h
    · exact activation_next rfl rfl (by simp) (by simp)
    · exact activation_next rfl rfl (by simp) fun _ => .inr (by simpa using hfired)
  case activationFail =>
    split at h <;> try contradiction
    cases h
    unfold FiberCell.withMut
    split_ifs <;> exact activation_next rfl rfl (by simp) (by simp)
  case activationDispose =>
    split at h <;> try contradiction
    obtain ⟨hactivations, hlifecycle⟩ := dispose_frame c false false true
    split at h
    all_goals
      rename_i hdispose
      cases h
      rw [hdispose] at hactivations hlifecycle
      exact activation_next (congrArg (Function.update · n _) hactivations) hlifecycle
        (by simp) (by simp)
  case activationReadStaged =>
    split at h <;> try contradiction
    cases h
    split_ifs <;> exact activation_next rfl rfl (by simp) (by simp)
  all_goals
    repeat' split at h
    all_goals first
      | contradiction
      | (cases h; exact activation_next rfl rfl (by simp) (by simp))
      | (cases h; exact activation_release rfl rfl rfl rfl rfl)

/-- What a section of another thread does to the activation calls: at most one is queued, and the
mutex does not change hands away from an activation. -/
structure Aside (c c' : FiberCell) : Prop where
  activations : ∀ n pc, c'.activations n = some pc → c.activations n = some pc ∨ pc = .queued
  mutex : ∀ n, c.lifecycle = some (.activation n) → c'.lifecycle = some (.activation n)

theorem aside_of_eq (ha : c'.activations = c.activations) (hm : c'.lifecycle = c.lifecycle) :
    Aside c c' :=
  ⟨fun _ _ h => .inl (ha ▸ h), fun _ h => hm.trans h⟩

theorem aside_callActivate (c : FiberCell) {c' : FiberCell}
    (ha : c'.activations = c.callActivate.activations) (hm : c'.lifecycle = c.lifecycle) :
    Aside c c' := by
  refine ⟨fun n pc h => ?_, fun n h => hm.trans h⟩
  rw [ha] at h
  by_cases hn : n = c.nextActivation
  · subst hn
    simp [FiberCell.callActivate] at h
    exact .inr h.symm
  · simp [FiberCell.callActivate, Function.update_of_ne hn] at h
    exact .inl h

theorem worker_lifecycle {pc : DisposalPc} (h : c.stepWorker pc l = some c') :
    c'.lifecycle = c.lifecycle ∨ c.lifecycle = none ∧ c'.lifecycle = some .disposal ∨
      c.lifecycle = some .disposal ∧ c'.lifecycle = none := by
  have hfinish : ∀ r t b, (c.finishBody r t b).lifecycle = c.lifecycle ∨
      c.lifecycle = none ∧ (c.finishBody r t b).lifecycle = some .disposal ∨
      c.lifecycle = some .disposal ∧ (c.finishBody r t b).lifecycle = none := by
    intro r t b
    simp only [FiberCell.finishBody]
    split
    · exact .inr (.inr ⟨‹_›, rfl⟩)
    · exact .inl rfl
  cases l <;> simp only [FiberCell.stepWorker, setWorker_eq, withMut_eq] at h
  case workerLock =>
    split at h <;> try contradiction
    rename_i hfree
    cases h
    exact .inr (.inl ⟨hfree, rfl⟩)
  all_goals
    repeat' split at h
    all_goals first
      | contradiction
      | (cases h; exact .inl rfl)
      | (cases h; exact hfinish _ _ _)

theorem stepInstall_aside {pc : InstallPc} (h : c.stepInstall pc l = some c') : Aside c c' := by
  cases l <;> simp only [FiberCell.stepInstall] at h
  case installCheck met =>
    split at h <;> try contradiction
    split_ifs at h <;> cases h
    · exact aside_of_eq rfl rfl
    · exact aside_callActivate c rfl rfl
    · exact aside_of_eq rfl rfl
  all_goals
    repeat' split at h
    all_goals first | contradiction | (cases h; exact aside_of_eq rfl rfl)

theorem step_thread (h : c.step l = some c') :
    (∃ n pc, c.activations n = some pc ∧ c.stepActivation n pc l = some c') ∨ Aside c c' := by
  cases step_turn h with
  | activation n pc _ was step => exact .inl ⟨n, pc, was, step⟩
  | worker pc _ step =>
    refine .inr ⟨fun n pc h => .inl ?_, fun n hn => ?_⟩
    · rwa [stepWorker_eq step] at h
    · rcases worker_lifecycle step with hsame | ⟨hfree, -⟩ | ⟨howned, -⟩
      · exact hsame.trans hn
      · rw [hfree] at hn
        contradiction
      · simp [howned] at hn
  | reload pc was step =>
    refine .inr ⟨fun n pc h => .inl ?_, fun n hn => ?_⟩
    · rwa [stepReload_eq step] at h
    · simp [was] at hn
  | install step => exact .inr (stepInstall_aside step)
  | called _ _ now =>
    subst now
    exact .inr (aside_callActivate c rfl rfl)
  | disposed w p a _ now =>
    subst now
    exact .inr (aside_of_eq (dispose_frame c w p a).1 (dispose_frame c w p a).2)
  | replaced _ free now =>
    subst now
    exact .inr ⟨fun _ _ h => .inl h, fun n hn => by rw [free] at hn; contradiction⟩
  | cutover _ _ _ _ _ now | hostFailed _ _ _ now | reclaimed _ _ _ now | registered _ _ _ now | detached _ _ now
  | acquired _ _ _ now | dropped _ _ _ now =>
    subst now
    exact .inr (aside_of_eq rfl rfl)

/-! ## Mutual exclusion -/

/-- The activation that is inside the mutex is the one recorded as its holder. -/
def FiberCell.Exclusive (c : FiberCell) : Prop :=
  ∀ n pc, c.activations n = some pc → pc.held = true → c.lifecycle = some (.activation n)

/-- **The lifecycle mutex excludes**: every step keeps the recorded holder right. -/
theorem exclusive_step (hc : c.Exclusive) (h : c.step l = some c') : c'.Exclusive := by
  intro m q hq hheld
  rcases step_thread h with ⟨n, pc, hpc, hstep⟩ | haside
  · obtain ⟨pc', hnext⟩ := stepActivation_next hstep
    rw [hnext.moved] at hq
    by_cases hm : m = n
    · subst hm
      obtain rfl : pc' = q := by simpa using hq
      rcases hnext.mutex with ⟨-, hlock, -⟩ | ⟨hsame, hkept⟩ | ⟨-, hfree, -⟩
      · exact hlock
      · rw [hsame]
        exact hc m pc hpc (hkept hheld)
      · rw [hfree] at hheld
        contradiction
    · rw [Function.update_of_ne hm] at hq
      have howner := hc m q hq hheld
      rcases hnext.mutex with ⟨hfree, -, -⟩ | ⟨hsame, -⟩ | ⟨hheld', -, -⟩
      · rw [howner] at hfree
        contradiction
      · rw [hsame, howner]
      · have := hc n pc hpc hheld'
        rw [howner] at this
        exact absurd (by simpa using this) hm
  · rcases haside.activations m q hq with hq | rfl
    · exact haside.mutex m (hc m q hq hheld)
    · contradiction

end Cordis
