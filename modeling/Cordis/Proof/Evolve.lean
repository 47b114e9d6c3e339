import Cordis.Fiber.Legality
import Cordis.Fiber.Permanence
import Cordis.Proof.Topology

/-!
# The Fibers of a Runtime are Fiber machines

Whatever section the Runtime executes, each Fiber either stays or takes a step of its own machine, so
that what holds of a single Fiber in every run holds of every Fiber of a Runtime.
-/

namespace Cordis

open Machine

variable {c c' : FiberCell} {l : FiberLabel}

/-- The sections that write a state without looking at what they overwrite. -/
def FiberLabel.blind : FiberLabel → Bool
  | activationDefer _ | installWait => true
  | _ => false

namespace Runtime

variable {rt rt' : Runtime} {f : FiberId}

/-- Step `l` of the Runtime may run section `a` on Fiber `f`. -/
structure Runs (l : RuntimeLabel) (f : FiberId) (a : FiberLabel) : Prop where
  blind : a.blind = true → l = .fiber f a
  cutover : ∀ target active, a = .cutover target active →
    ∃ old staging, l = .commitReload old f staging target

/-- Every Fiber stays or takes a step of its own machine; an install adds one. -/
structure Evolves (rt : Runtime) (l : RuntimeLabel) (rt' : Runtime) : Prop where
  next : rt.nextFiber ≤ rt'.nextFiber
  cells : ∀ f c, rt.fibers f = some c → ∃ c', rt'.fibers f = some c' ∧
    (c' = c ∨ ∃ a, c.step a = some c' ∧ Runs l f a)
  fresh : ∀ f c', rt'.fibers f = some c' → rt.fibers f = none → f = rt.nextFiber ∧
    f < rt'.nextFiber ∧ ∃ plugin? plugin scope descriptor generation staged,
      l = .install scope plugin? descriptor staged ∧
        c' = .created f plugin scope descriptor generation staged

/-- Step `l` of the Runtime runs section `a` on Fiber `f`, whose cell is `c`. -/
inductive Acts (rt : Runtime) (f : FiberId) (c : FiberCell) : RuntimeLabel → FiberLabel → Prop
  | own {l a : FiberLabel} (answer : rt.answered f c l = some a) : Acts rt f c (.fiber f l) a
  | visited (s : ScopeId) (p : Bool)
      (found : ∃ r t, rt.scopes s = some r ∧ r.worker = some (.fiberFound t f)) :
      Acts rt f c (.scope s .fiberCall) (.callDispose false p true)
  | provided {scope : ScopeId} {key : ServiceSymbol} (admitted : rt.admission = true)
      (bound : scope = c.inner.scope ∨ scope = c.origin) (free : rt.services scope key = none) :
      Acts rt f c (.provide f scope key) (.register (.provided key))
  | handled {scope : ScopeId} {key : InvocationKey} (admitted : rt.admission = true)
      (bound : scope = c.inner.scope ∨ scope = c.origin) :
      Acts rt f c (.handle f scope key) (.register (.invocationHandler rt.nextHandler))
  | intercepted {scope : ScopeId} {key : InvocationKey} (admitted : rt.admission = true)
      (bound : scope = c.inner.scope ∨ scope = c.origin) :
      Acts rt f c (.intercept f scope key) (.register (.invocationMiddleware rt.nextMiddleware))
  | owned {scope : ScopeId} (admitted : rt.admission = true)
      (bound : scope = c.inner.scope ∨ scope = c.origin) :
      Acts rt f c (.ownScope f scope) (.register (.childScope rt.nextScope))
  | superseded (staged : FiberId) (staging target : ScopeId) :
      Acts rt f c (.commitReload f staged staging target) .reloadSuperseded
  | cut (old : FiberId) (staging target : ScopeId) :
      Acts rt f c (.commitReload old f staging target) (.cutover target (rt.selectors c.plugin))

/-- `Evolves`, with the section that runs. -/
structure Follows (rt : Runtime) (l : RuntimeLabel) (rt' : Runtime) : Prop where
  next : rt.nextFiber ≤ rt'.nextFiber
  cells : ∀ f c, rt.fibers f = some c → ∃ c', rt'.fibers f = some c' ∧
    (c' = c ∨ ∃ a, c.step a = some c' ∧ Acts rt f c l a)
  fresh : ∀ f c', rt'.fibers f = some c' → rt.fibers f = none → f = rt.nextFiber ∧
    f < rt'.nextFiber ∧ ∃ plugin? plugin scope descriptor generation staged,
      l = .install scope plugin? descriptor staged ∧
        c' = .created f plugin scope descriptor generation staged

theorem Follows.of_eq {l : RuntimeLabel} (hf : rt'.fibers = rt.fibers)
    (hn : rt'.nextFiber = rt.nextFiber) : Follows rt l rt' where
  next := hn.ge
  cells := fun f c hc => ⟨c, by rw [hf, hc], .inl rfl⟩
  fresh := fun f c' hc' hnone => by
    rw [hf, hnone] at hc'
    contradiction

theorem Follows.of_set {l : RuntimeLabel} {a : FiberLabel} (hc : rt.fibers f = some c)
    (hstep : c.step a = some c') (hacts : Acts rt f c l a)
    (hf : rt'.fibers = Function.update rt.fibers f (some c'))
    (hn : rt'.nextFiber = rt.nextFiber) : Follows rt l rt' where
  next := hn.ge
  cells := fun g d hd => by
    by_cases hg : g = f
    · subst hg
      rw [hc] at hd
      cases hd
      exact ⟨c', by rw [hf, Function.update_self], .inr ⟨a, hstep, hacts⟩⟩
    · exact ⟨d, by rw [hf, Function.update_of_ne hg, hd], .inl rfl⟩
  fresh := fun g d' hd' hnone => by
    by_cases hg : g = f
    · subst hg
      rw [hc] at hnone
      contradiction
    · rw [hf, Function.update_of_ne hg, hnone] at hd'
      contradiction

theorem modifyScope_fibers (rt : Runtime) (s : ScopeId) (g : ScopeCell → ScopeCell) :
    (rt.modifyScope s g).fibers = rt.fibers ∧ (rt.modifyScope s g).nextFiber = rt.nextFiber := by
  rw [(modifyScope_only rt s g).eq]
  exact ⟨rfl, rfl⟩

theorem switch_fibers (rt : Runtime) (p : PluginId) (old new : GenerationId) :
    (rt.switch p old new).fibers = rt.fibers ∧ (rt.switch p old new).nextFiber = rt.nextFiber := by
  unfold switch
  split_ifs <;> exact ⟨rfl, rfl⟩

theorem fiberEffect_fibers (f : FiberId) (rt : Runtime) (hstep : c.step l = some c') :
    (fiberEffect f c c' l rt).fibers = rt.fibers ∧ (fiberEffect f c c' l rt).nextFiber = rt.nextFiber := by
  have heffect := section_effect f rt hstep
  generalize fiberEffect f c c' l rt = rt₁ at heffect
  cases heffect with
  | closed | published => exact switch_fibers ..
  | none | numbered | indexed | unregistered | withdrawn | forgotten => exact ⟨rfl, rfl⟩

/-- A section without free arguments is its own answer, and no thread asks for a cutover. -/
theorem answered_runs {l' : FiberLabel} (h : rt.answered f c l = some l') :
    Runs (.fiber f l) f l' := by
  have hkind := answered_kind h
  refine ⟨fun hl => ?_, fun target active hl => ?_⟩
  · cases l' <;> try contradiction
    all_goals cases l <;> try contradiction
    all_goals exact congrArg (RuntimeLabel.fiber f) hkind.symm
  · subst hl
    cases l <;> contradiction

theorem runs_of_plain {l : RuntimeLabel} {a : FiberLabel} (hb : a.blind = false)
    (hc : ∀ target active, a ≠ .cutover target active) : Runs l f a where
  blind := fun h => by rw [hb] at h; contradiction
  cutover := fun target active h => absurd h (hc target active)

theorem Acts.runs {l : RuntimeLabel} {a : FiberLabel} (h : Acts rt f c l a) : Runs l f a := by
  cases h with
  | own answer => exact answered_runs answer
  | cut old staging target =>
    refine ⟨fun h => by contradiction, fun _ _ h => ?_⟩
    cases h
    exact ⟨old, staging, rfl⟩
  | _ => exact runs_of_plain rfl (by simp)

theorem Follows.evolves {l : RuntimeLabel} (h : Follows rt l rt') : Evolves rt l rt' where
  next := h.next
  cells := fun f c hc => by
    obtain ⟨c', hc', hsame | ⟨a, ha, hacts⟩⟩ := h.cells f c hc
    · exact ⟨c', hc', .inl hsame⟩
    · exact ⟨c', hc', .inr ⟨a, ha, hacts.runs⟩⟩
  fresh := h.fresh

theorem follows_disposeFound {s : ScopeId} {f : FiberId}
    (hfound : ∃ r t, rt.scopes s = some r ∧ r.worker = some (.fiberFound t f)) (p : Bool) :
    Follows rt (.scope s .fiberCall) (rt.disposeFound f false p true).1 := by
  rcases disposeFound_spec rt f false p true with ⟨-, heq⟩ | ⟨c, c', hc, hstep, heq⟩ <;> rw [heq]
  · exact .of_eq rfl rfl
  · obtain ⟨hfibers, hnext⟩ :=
      fiberEffect_fibers f (rt.setFiber f c') hstep
    exact .of_set hc hstep (.visited s p hfound) hfibers hnext

theorem requestScopeDisposal_fibers (rt : Runtime) (s : ScopeId) (p : Bool) :
    (rt.requestScopeDisposal s p).1.fibers = rt.fibers ∧
      (rt.requestScopeDisposal s p).1.nextFiber = rt.nextFiber := by
  unfold requestScopeDisposal
  split
  · exact ⟨rfl, rfl⟩
  · simp only
    split_ifs <;> exact ⟨rfl, rfl⟩

theorem modifyScopeCell_fibers (rt : Runtime) (s : ScopeId) (g : ScopeCell → ScopeCell) :
    (rt.modifyScopeCell s g).fibers = rt.fibers ∧
      (rt.modifyScopeCell s g).nextFiber = rt.nextFiber := by
  unfold modifyScopeCell
  split <;> exact ⟨rfl, rfl⟩

theorem Follows.congr {l : RuntimeLabel} {rt₁ rt₂ : Runtime} (h : Follows rt l rt₁)
    (hf : rt₂.fibers = rt₁.fibers) (hn : rt₂.nextFiber = rt₁.nextFiber) : Follows rt l rt₂ where
  next := hn ▸ h.next
  cells := by rw [hf]; exact h.cells
  fresh := by rw [hf, hn]; exact h.fresh

theorem follows_stepScope {s : ScopeId} {r : ScopeCell} {pc : ScopePc} {a : ScopeLabel}
    (hr : rt.scopes s = some r) (hpc : r.worker = some pc) (h : rt.stepScope s r pc a = some rt') :
    Follows rt (.scope s a) rt' := by
  cases a <;> simp only [stepScope] at h
  case visit =>
    split at h <;> try contradiction
    rename_i t
    split at h
    · rename_i child _
      obtain ⟨hfibers, hnext⟩ := requestScopeDisposal_fibers rt child t.persistent
      split at h
      all_goals
        rename_i rt₁ _ heq
        rw [heq] at hfibers hnext
        cases h
        refine .of_eq ?_ ?_
        · exact (modifyScopeCell_fibers ..).1.trans hfibers
        · exact (modifyScopeCell_fibers ..).2.trans hnext
    · split at h <;> cases h <;> exact .of_eq rfl rfl
    · cases h
      exact .of_eq rfl rfl
  case fiberCall =>
    split at h <;> try contradiction
    rename_i t f
    have hdispose := follows_disposeFound ⟨r, t, hr, hpc⟩ t.persistent
    split at h
    all_goals
      rename_i heq
      rw [heq] at hdispose
      cases h
      exact hdispose.congr rfl rfl
  case finalize =>
    repeat' split at h
    all_goals first
      | contradiction
      | (cases h; exact .of_eq rfl rfl)
      | (cases h
         obtain ⟨hfibers, hnext⟩ := modifyScope_fibers (rt.setScope s _) _ _
         exact .of_eq hfibers hnext)
  all_goals
    repeat' split at h
    all_goals first | contradiction | (cases h; exact .of_eq rfl rfl)

theorem registerEntry_admission {scope : ScopeId} {entry : Registration}
    (h : rt.registerEntry f scope entry = some rt') : rt.admission = true := by
  unfold registerEntry at h
  split at h <;> try contradiction
  split_ifs at h with hopen
  exact hopen.1

theorem follows_register {l : RuntimeLabel} {scope : ScopeId} {entry : Registration}
    (hacts : ∀ c, rt.admission = true → scope = c.inner.scope ∨ scope = c.origin →
      Acts rt f c l (.register entry))
    (h : rt.registerEntry f scope entry = some rt') : Follows rt l rt' := by
  obtain ⟨c, hc, hbound, haccepts, rfl⟩ := registerEntry_spec h
  refine .of_set (a := .register entry) hc ?_ (hacts c (registerEntry_admission h) hbound) rfl rfl
  simp only [FiberCell.step]
  rw [if_pos haccepts]

theorem follows_commitReload {old staged : FiberId} {staging target : ScopeId}
    (ht : Topology rt) (h : rt.commitReload old staged staging target = some rt') :
    Follows rt (.commitReload old staged staging target) rt' := by
  rcases commitReload_cases ht h with hsame | ⟨oldCell, c, hcut, rfl⟩
  · exact .of_eq (by rw [hsame.rest]) (by rw [hsame.rest])
  have hclose : oldCell.step .reloadSuperseded = some (superseded oldCell) := by
    simp [FiberCell.step, FiberCell.stepReload, hcut.lifecycle, superseded]
  have hcutover : c.step (.cutover target (rt.selectors c.plugin)) =
      some { c with inner := c.inner.cutover target } := by
    simp only [FiberCell.step]
    rw [if_pos ⟨hcut.active, hcut.gate⟩]
  exact {
    next := le_rfl
    cells := fun g e he => by
      by_cases hg : g = old
      · subst hg
        rw [hcut.oldFiber] at he
        cases he
        exact ⟨_, by simp [setFiber], .inr ⟨_, hclose, .superseded ..⟩⟩
      · by_cases hg' : g = staged
        · subst hg'
          rw [hcut.stagedFiber] at he
          cases he
          exact ⟨_, by simp [setFiber, hg, cutOver], .inr ⟨_, hcutover, .cut ..⟩⟩
        · exact ⟨e, by simp [setFiber, hg, cutOver, hg', he], .inl rfl⟩
    fresh := fun g e he hnone => by
      have hg : g ≠ old := fun heq => by simp [heq, hcut.oldFiber] at hnone
      have hg' : g ≠ staged := fun heq => by simp [heq, hcut.stagedFiber] at hnone
      simp [setFiber, hg, cutOver, hg', hnone] at he }

/-- **Every section of the Runtime is, for each Fiber, a section of that Fiber or none.** -/
theorem step_follows {l : RuntimeLabel} (ht : Topology rt) (h : rt.step l = some rt') :
    Follows rt l rt' := by
  cases l <;> simp only [step] at h
  case fiber f a =>
    obtain ⟨c, a', c', hc, ha', hstep, rfl⟩ := fiberStep_spec h
    obtain ⟨hfibers, hnext⟩ := fiberEffect_fibers f (rt.setFiber f c') hstep
    exact .of_set hc hstep (.own ha') hfibers hnext
  case scope s a =>
    split at h <;> try contradiction
    rename_i r hr
    obtain ⟨pc, hpc, h⟩ := Option.bind_eq_some_iff.mp h
    exact follows_stepScope hr hpc h
  case disposeScope s p =>
    cases h
    obtain ⟨hfibers, hnext⟩ := requestScopeDisposal_fibers rt s p
    exact .of_eq hfibers hnext
  case createScope =>
    obtain ⟨-, heq, -⟩ := createScope_spec h
    exact .of_eq (by rw [heq]) (by rw [heq])
  case install scope plugin descriptor staged =>
    obtain ⟨p, heq, -⟩ := insertFiber_spec h
    have hfibers : rt'.fibers = Function.update rt.fibers rt.nextFiber (some (.created rt.nextFiber
        p scope descriptor (rt.nextGeneration p) staged)) := by rw [heq]
    have hnext : rt'.nextFiber = rt.nextFiber + 1 := by rw [heq]
    exact {
      next := hnext ▸ Nat.le_succ _
      cells := fun g d hd => by
        have hg : g ≠ rt.nextFiber := Nat.ne_of_lt (ht.fibers g d hd)
        exact ⟨d, by rw [hfibers, Function.update_of_ne hg, hd], .inl rfl⟩
      fresh := fun g d' hd' hnone => by
        by_cases hg : g = rt.nextFiber
        · subst hg
          rw [hfibers, Function.update_self] at hd'
          cases hd'
          exact ⟨rfl, hnext ▸ Nat.lt_succ_self _, _, _, _, _, _, _, rfl, rfl⟩
        · rw [hfibers, Function.update_of_ne hg, hnone] at hd'
          contradiction }
  case provide =>
    unfold provide at h
    split at h <;> try contradiction
    split_ifs at h with hfree
    obtain ⟨rt₁, h₁, rfl⟩ := Option.map_eq_some_iff.mp h
    exact (follows_register (fun _ ha hb => .provided ha hb hfree) h₁).congr rfl rfl
  case handle =>
    obtain ⟨c₀, rt₁, -, -, h₁, rfl⟩ := handle_spec h
    exact (follows_register (fun _ ha hb => .handled ha hb) h₁).congr rfl rfl
  case intercept =>
    unfold intercept at h
    split at h <;> try contradiction
    obtain ⟨rt₁, h₁, rfl⟩ := Option.map_eq_some_iff.mp h
    exact (follows_register (fun _ ha hb => .intercepted ha hb) h₁).congr rfl rfl
  case ownScope f scope =>
    unfold ownScope at h
    obtain ⟨rt₁, h₁, h⟩ := Option.bind_eq_some_iff.mp h
    obtain ⟨-, heq, -⟩ := createScope_spec h₁
    have hfibers : rt₁.fibers = rt.fibers := by rw [heq]
    have hnext : rt₁.nextFiber = rt.nextFiber := by rw [heq]
    have hadmission : rt.admission = true := by
      rw [← registerEntry_admission h, heq]
    obtain ⟨c, hc, hbound, haccepts, rfl⟩ := registerEntry_spec h
    rw [hfibers] at hc
    have hstep : c.step (.register (.childScope rt.nextScope)) = some { c with
        inner := FiberCell.registered (.childScope rt.nextScope) c.inner } := by
      simp only [FiberCell.step]
      rw [if_pos haccepts]
    refine .of_set hc hstep (.owned hadmission hbound) ?_ hnext
    unfold setFiber
    rw [hfibers]
  case commitReload => exact follows_commitReload ht h
  case sweepFiber =>
    unfold sweepFiber at h
    split_ifs at h
    cases h
    exact .of_eq rfl rfl
  case sweepScope =>
    unfold sweepScope at h
    split at h <;> try contradiction
    split_ifs at h
    cases h
    exact .of_eq rfl rfl
  case beginShutdown =>
    cases h
    exact .of_eq rfl rfl

theorem step_evolves {l : RuntimeLabel} (ht : Topology rt) (h : rt.step l = some rt') :
    Evolves rt l rt' :=
  (step_follows ht h).evolves

/-! ## What holds of every Fiber -/

theorem Evolves.sound {l : RuntimeLabel} (h : Evolves rt l rt')
    (hsound : ∀ f c, rt.fibers f = some c → c.Sound) :
    ∀ f c, rt'.fibers f = some c → c.Sound := by
  intro f c' hc'
  cases hc : rt.fibers f with
  | none =>
    obtain ⟨-, -, -, p, s, d, g, b, -, rfl⟩ := h.fresh f c' hc' hc
    exact sound_created ..
  | some c =>
    obtain ⟨d, hd, hstep⟩ := h.cells f c hc
    obtain rfl : c' = d := by simpa [hc'] using hd
    rcases hstep with rfl | ⟨a, ha, -⟩
    · exact hsound f c' hc
    · exact sound_step (hsound f c hc) ha

end Runtime

end Cordis
