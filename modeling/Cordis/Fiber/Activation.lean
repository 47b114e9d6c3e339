import Cordis.Fiber.Deferral

/-!
# Activation calls go forward

An activation call waits for the mutex, works, and has succeeded or failed from then on. Calls are numbered
in the order in which they are made, and no section moves two of them.
-/

namespace Cordis

variable {c c' : FiberCell} {l : FiberLabel} {n : Nat} {pc : ActivationPc}

namespace ActivationPc

/-- The call has not entered its first section. -/
def early : ActivationPc → Bool
  | queued | locked => true
  | _ => false

/-- The call has begun, and neither committed nor failed. -/
def working : ActivationPc → Bool
  | selecting | polling | started | sealed | validated | deferring | committing | checked => true
  | _ => false

/-- The call has committed, or left that to the cutover. -/
def succeeded : ActivationPc → Bool
  | committed | returned (.ok _) => true
  | _ => false

/-- The call is on its way to an error. -/
def failing : ActivationPc → Bool
  | failed _ | unlocked _ | cleanup _ | found _ | cleaning .. | returned (.error _) => true
  | _ => false

/-- The call has returned an error. -/
def rejected : ActivationPc → Bool
  | returned (.error _) => true
  | _ => false

theorem returned_of_rejected {pc : ActivationPc} (h : pc.rejected = true) : ∃ e, pc = returned (.error e) := by
  cases pc with
  | returned outcome =>
    cases outcome with
    | error e => exact ⟨e, rfl⟩
    | ok _ => exact absurd h Bool.false_ne_true
  | _ => exact absurd h Bool.false_ne_true

theorem held_of_working {pc : ActivationPc} (h : pc.working = true) : pc.held = true := by
  cases pc <;> simp_all [working, held]

theorem not_failing_of_succeeded {pc : ActivationPc} (h : pc.succeeded = true) : pc.failing = false := by
  cases pc <;> try contradiction
  · rfl
  · rename_i outcome
    cases outcome
    · contradiction
    · rfl

/-- A call may go from `pc` to `q`. -/
structure Onward (pc q : ActivationPc) : Prop where
  succeeded : pc.succeeded = true → q.succeeded = true
  failing : pc.failing = true → q.failing = true
  begun : pc.early = false → q.early = false
  working : q.working = true → pc.working = true ∨ pc = .locked ∧ q = .selecting

theorem Onward.refl (pc : ActivationPc) : pc.Onward pc := ⟨id, id, id, .inl⟩

end ActivationPc

theorem activation_onward (h : c.stepActivation n pc l = some c') :
    ∃ q, c'.activations = Function.update c.activations n (some q) ∧
      c'.nextActivation = c.nextActivation ∧ pc.Onward q := by
  cases l <;> simp only [FiberCell.stepActivation] at h <;> try contradiction
  case activationReadStaged =>
    split at h <;> try contradiction
    cases h
    cases hs : c.inner.staged
    all_goals
      refine ⟨_, rfl, rfl, ?_⟩
      constructor <;> simp [ActivationPc.succeeded, ActivationPc.failing, ActivationPc.early,
        ActivationPc.working]
  case activationFail =>
    split at h <;> try contradiction
    cases h
    unfold FiberCell.withMut
    split_ifs
    all_goals
      refine ⟨_, rfl, rfl, ?_⟩
      constructor <;> simp [ActivationPc.succeeded, ActivationPc.failing, ActivationPc.early,
        ActivationPc.working]
  case activationDispose =>
    split at h <;> try contradiction
    have hactivations := (dispose_frame c false false true).1
    have hnext : (c.dispose false false true).1.nextActivation = c.nextActivation := by
      unfold FiberCell.dispose
      split <;> rfl
    split at h
    all_goals
      rename_i hdispose
      cases h
      rw [hdispose] at hactivations hnext
      refine ⟨_, congrArg (Function.update · n _) hactivations, hnext, ?_⟩
      constructor <;> simp [ActivationPc.succeeded, ActivationPc.failing, ActivationPc.early,
        ActivationPc.working]
  all_goals
    repeat' split at h
    all_goals first
      | contradiction
      | (cases h
         refine ⟨_, rfl, rfl, ?_⟩
         constructor <;> simp [ActivationPc.succeeded, ActivationPc.failing, ActivationPc.early,
           ActivationPc.working])

/-- What a section does to the activation calls. -/
inductive FiberCell.Calls (l : FiberLabel) (c c' : FiberCell) : Prop
  | kept (activations : c'.activations = c.activations) (next : c'.nextActivation = c.nextActivation)
  | called (activations : c'.activations = Function.update c.activations c.nextActivation (some .queued))
      (next : c'.nextActivation = c.nextActivation + 1)
  | moved (n : Nat) (pc q : ActivationPc) (label : l.call? = some n) (was : c.activations n = some pc)
      (step : c.stepActivation n pc l = some c')
      (activations : c'.activations = Function.update c.activations n (some q))
      (next : c'.nextActivation = c.nextActivation) (onward : pc.Onward q)

theorem step_calls (h : c.step l = some c') : c.Calls l c' := by
  cases step_turn h with
  | activation n pc label was step =>
    obtain ⟨q, hactivations, hnext, honward⟩ := activation_onward step
    exact .moved n pc q label was step hactivations hnext honward
  | worker _ _ step =>
    rw [stepWorker_eq step]
    exact .kept rfl rfl
  | reload _ _ step =>
    rw [stepReload_eq step]
    exact .kept rfl rfl
  | install step =>
    cases l <;> simp only [FiberCell.stepInstall] at step <;> try contradiction
    case installCheck met =>
      split at step <;> try contradiction
      split_ifs at step <;> cases step
      · exact .kept rfl rfl
      · exact .called rfl rfl
      · exact .kept rfl rfl
    all_goals
      repeat' split at step
      all_goals first
        | contradiction
        | (cases step; exact .kept rfl rfl)
  | called _ _ now =>
    subst now
    exact .called rfl rfl
  | disposed w p a _ now =>
    subst now
    rw [dispose_eq]
    exact .kept rfl rfl
  | replaced _ _ now | cutover _ _ _ _ _ now | hostFailed _ _ _ now | reclaimed _ _ _ now | registered _ _ _ now
  | detached _ _ now | acquired _ _ _ now | dropped _ _ _ now =>
    subst now
    exact .kept rfl rfl

/-- Calls are numbered in the order in which they are made. -/
def FiberCell.Issued (c : FiberCell) : Prop := ∀ n pc, c.activations n = some pc → n < c.nextActivation

theorem issued_step (hc : c.Issued) (h : c.step l = some c') : c'.Issued := by
  intro n pc hpc
  cases step_calls h with
  | kept activations next =>
    rw [activations] at hpc
    rw [next]
    exact hc n pc hpc
  | called activations next =>
    rw [activations] at hpc
    rw [next]
    by_cases hn : n = c.nextActivation
    · omega
    · rw [Function.update_of_ne hn] at hpc
      exact Nat.lt_succ_of_lt (hc n pc hpc)
  | moved m p q _ was _ activations next =>
    rw [activations] at hpc
    rw [next]
    by_cases hn : n = m
    · rw [hn]
      exact hc m p was
    · rw [Function.update_of_ne hn] at hpc
      exact hc n pc hpc

theorem step_onward (hc : c.Issued) (h : c.step l = some c') (hpc : c.activations n = some pc) :
    ∃ q, c'.activations n = some q ∧ pc.Onward q ∧ (q = pc ∨ c.stepActivation n pc l = some c') := by
  cases step_calls h with
  | kept activations =>
    rw [activations]
    exact ⟨pc, hpc, .refl pc, .inl rfl⟩
  | called activations =>
    have hn : n ≠ c.nextActivation := Nat.ne_of_lt (hc n pc hpc)
    rw [activations, Function.update_of_ne hn]
    exact ⟨pc, hpc, .refl pc, .inl rfl⟩
  | moved m p q _ was step activations _ onward =>
    by_cases hn : n = m
    · subst hn
      obtain rfl : pc = p := by simpa [hpc] using was
      rw [activations, Function.update_self]
      exact ⟨q, rfl, onward, .inr step⟩
    · rw [activations, Function.update_of_ne hn]
      exact ⟨pc, hpc, .refl pc, .inl rfl⟩

theorem activation_stays {P : ActivationPc → Bool}
    (hP : ∀ pc q : ActivationPc, pc.Onward q → P pc = true → P q = true)
    (hissued : c.Issued) {Q : FiberLabel → Prop} (hcase : c' = c ∨ ∃ b, c.step b = some c' ∧ Q b)
    (h : ∃ pc, c.activations n = some pc ∧ P pc = true) : ∃ pc, c'.activations n = some pc ∧ P pc = true := by
  obtain ⟨pc, hpc, hstands⟩ := h
  rcases hcase with rfl | ⟨b, hb, -⟩
  · exact ⟨pc, hpc, hstands⟩
  · obtain ⟨q, hq, honward, -⟩ := step_onward hissued hb hpc
    exact ⟨q, hq, hP pc q honward hstands⟩

theorem step_working (h : c.step l = some c') {q : ActivationPc}
    (hq : c'.activations n = some q) (hworking : q.working = true) :
    (∃ pc, c.activations n = some pc ∧ pc.working = true) ∨
      c.activations n = some .locked ∧ q = .selecting ∧ ∃ a x, l = .activationBegin n a x := by
  cases step_calls h with
  | kept activations =>
    rw [activations] at hq
    exact .inl ⟨q, hq, hworking⟩
  | called activations =>
    rw [activations] at hq
    by_cases hn : n = c.nextActivation
    · subst hn
      rw [Function.update_self] at hq
      cases hq
      contradiction
    · rw [Function.update_of_ne hn] at hq
      exact .inl ⟨q, hq, hworking⟩
  | moved m p q' label was step activations _ onward =>
    rw [activations] at hq
    by_cases hn : n = m
    swap
    · rw [Function.update_of_ne hn] at hq
      exact .inl ⟨q, hq, hworking⟩
    subst hn
    rw [Function.update_self] at hq
    cases hq
    rcases onward.working hworking with hold | ⟨rfl, rfl⟩
    · exact .inl ⟨p, was, hold⟩
    · refine .inr ⟨was, rfl, ?_⟩
      cases l <;> simp only [FiberCell.stepActivation] at step <;> try contradiction
      cases label
      exact ⟨_, _, rfl⟩

/-! ## Who opens the barrier -/

/-- What is known of every Fiber whose callers keep to what they may do. -/
structure FiberCell.Governed (c : FiberCell) : Prop where
  sound : c.Sound
  seated : c.Seated
  issued : c.Issued
  once : c.Once
  withheld : c.Withheld

theorem governed_created (id : FiberId) (plugin : PluginId) (scope : ScopeId)
    (descriptor : PluginDescriptor) (generation : GenerationId) (staged : Bool) :
    (FiberCell.created id plugin scope descriptor generation staged).Governed where
  sound := sound_created ..
  seated := seated_created ..
  issued := fun _ _ h => by cases h
  once := once_created ..
  withheld := withheld_created ..

theorem governed_step (hc : c.Governed) (hl : c.Called l) (hprompt : c.Prompt l) (h : c.step l = some c') :
    c'.Governed where
  sound := sound_step hc.sound h
  seated := seated_step hc.sound hc.seated h
  issued := issued_step hc.issued h
  once := once_step hc.sound hc.seated hl hprompt hc.once h
  withheld := withheld_step hc.sound hc.seated hc.withheld h

theorem opened_step (hc : c.Governed) (hprompt : c.Prompt l) (h : c.step l = some c')
    (hnow : c'.inner.state = .Active ∨ c'.inner.state = .Reloading) (hopen : c'.inner.activation = false) :
    (c.inner.state = .Active ∨ c.inner.state = .Reloading) ∧ c.inner.activation = false ∨
      (∃ n o, l = .activationCommit n o .NONE ∧ c.inner.state = .Starting ∧ c'.inner.state = .Active) ∨
      ∃ target g, l = .cutover target g := by
  -- nothing else gives up the barrier of an active Fiber
  have hkept : c.inner.state = .Active ∨ c.inner.state = .Reloading →
      c'.inner.staged = c.inner.staged → c.inner.activation = false := by
    intro hwas hstaged
    by_contra hflag
    rw [Bool.not_eq_false] at hflag
    have hs := hc.withheld.staged hwas hflag
    cases step_barred h with
    | kept activation =>
      rw [← activation, hopen] at hflag
      contradiction
    | made _ _ _ _ idle => rcases idle with h | h <;> rw [h] at hwas <;> simp at hwas
    | asked _ _ _ _ activation =>
      rcases activation with hsame | ⟨hdisposing, -⟩
      · rw [← hsame, hopen] at hflag
        contradiction
      · rw [hdisposing] at hnow
        simp at hnow
    | failed n e _ was =>
      -- the only call of a staged Fiber has deferred its commit
      have hpc := hc.once.deferred hs hwas n _ was rfl
      contradiction
    | committed _ _ _ _ _ _ _ _ _ staged | cutover _ _ _ _ _ _ staged =>
      rw [staged, hs] at hstaged
      contradiction
  cases step_seat hc.sound.consistent h with
  | kept staged state =>
    rcases state with hsame | ⟨hactive, hreloading, -⟩
    · exact .inl ⟨hsame ▸ hnow, hkept (hsame ▸ hnow) staged⟩
    · simp [hactive, hreloading] at hnow
  | deferred n label was now staged state =>
    subst label
    have hstarting : c.inner.state = .Starting := hprompt
    have hflag := hc.withheld.starting hstarting
    obtain ⟨pc, hpc, hstep⟩ := Option.bind_eq_some_iff.mp h
    simp only [FiberCell.stepActivation] at hstep
    split at hstep <;> try contradiction
    cases hstep
    rw [show c.inner.activation = false from hopen] at hflag
    contradiction
  | committed n checked label was now starting state =>
    exact .inr (.inl ⟨n, checked, label, starting, state⟩)
  | marked _ _ _ active _ staged => exact .inl ⟨.inl active, hkept (.inl active) staged⟩
  | restored _ was legal _ staged =>
    have hreloading := legal.resolve_right (hc.seated.reloading was)
    exact .inl ⟨.inr hreloading, hkept (.inr hreloading) staged⟩
  | cutover target g label => exact .inr (.inr ⟨target, g, label⟩)

theorem barred_step (hc : c.Governed) (h : c.step l = some c')
    (hnow : c'.inner.state = .Active ∨ c'.inner.state = .Reloading) (hflag : c'.inner.activation = true) :
    (c.inner.state = .Active ∨ c.inner.state = .Reloading) ∧ c.inner.activation = true ∨
      ∃ n, c.activations n = some .deferring ∧ c'.activations n = some .committed := by
  have hkept : c.inner.state = .Active ∨ c.inner.state = .Reloading → c.inner.activation = true := by
    intro hwas
    cases step_barred h with
    | kept activation => exact activation.symm.trans hflag
    | made _ _ _ _ idle => rcases idle with h | h <;> rw [h] at hwas <;> simp at hwas
    | asked _ _ _ _ activation =>
      rcases activation with hsame | ⟨-, hnone⟩
      · exact hsame.symm.trans hflag
      · rw [hnone] at hflag
        contradiction
    | failed _ _ _ _ _ activation | committed _ _ _ _ _ _ _ _ activation | cutover _ _ _ _ _ activation =>
      rw [activation] at hflag
      contradiction
  cases step_seat hc.sound.consistent h with
  | kept staged state =>
    rcases state with hsame | ⟨hactive, hreloading, -⟩
    · exact .inl ⟨hsame ▸ hnow, hkept (hsame ▸ hnow)⟩
    · simp [hactive, hreloading] at hnow
  | deferred n label was now => exact .inr ⟨n, was, now⟩
  | committed n checked label was now starting state =>
    rw [(commit_staged (label ▸ h) starting state).2] at hflag
    contradiction
  | marked _ _ _ active => exact .inl ⟨.inl active, hkept (.inl active)⟩
  | restored _ was legal =>
    have hreloading := legal.resolve_right (hc.seated.reloading was)
    exact .inl ⟨.inr hreloading, hkept (.inr hreloading)⟩
  | cutover target g label =>
    rw [(cutover_staged (label ▸ h)).2] at hflag
    contradiction

end Cordis
