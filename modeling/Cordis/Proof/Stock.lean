import Cordis.Fiber.Serving
import Cordis.Proof.Calls

/-!
# What a section does to the service registry

Services are taken out by the disposal of their owner, put in by a call, or moved by a cutover, which
leaves nothing in the way but what the old Fiber owned.
-/

namespace Cordis

open Machine

variable {c c' : FiberCell} {f : FiberId}

namespace Runtime

variable {rt rt' : Runtime} {l : RuntimeLabel}

/-- What a step that is no `provide` does to the services. -/
inductive Stocks (rt : Runtime) (l : RuntimeLabel) (rt' : Runtime) : Prop
  | kept (services : rt'.services = rt.services) (uncut : ∀ old staged staging target,
      l = .commitReload old staged staging target → rt'.fibers = rt.fibers)
  | withdrawn (f : FiberId) (c c' : FiberCell) (label : l = .fiber f .withdrawRemove)
      (was : rt.fibers f = some c) (now : rt'.fibers = Function.update rt.fibers f (some c'))
      (removed : List ServiceSymbol) (key : ServiceSymbol) (worker : c.worker = some (.removing removed key))
      (after : c'.worker = some (.withdrawing (removed ++ [key])))
      (services : ∀ s k, rt'.services s k = if s = c.inner.scope ∧ k = key then none else rt.services s k)
  | cut (old staged : FiberId) (staging target : ScopeId) (oldCell c : FiberCell)
      (label : l = .commitReload old staged staging target)
      (found : CutFrom rt old staged staging target oldCell c)
      (replaced : Supersedes rt old target oldCell c)
      (now : rt' = (rt.cutOver ⟨staging, target, staged, old, c.inner.childScopes⟩ oldCell
        c).setFiber old (superseded oldCell))

theorem fiberEffect_services {a : FiberLabel} (f : FiberId) (rt : Runtime) (hstep : c.step a = some c')
    (ha : a ≠ .withdrawRemove) : (fiberEffect f c c' a rt).services = rt.services := by
  have heffect := section_effect f rt hstep
  generalize fiberEffect f c c' a rt = rt₁ at heffect ⊢
  cases heffect with
  | closed | published =>
    unfold switch
    split_ifs <;> rfl
  | withdrawn _ _ label => exact absurd label ha
  | none | numbered | indexed | unregistered | forgotten => rfl

theorem stocks_fiberStep {a : FiberLabel} (h : rt.fiberStep f a = some rt') :
    Stocks rt (.fiber f a) rt' := by
  obtain ⟨c, b, c', hc, hanswer, hstep, rfl⟩ := fiberStep_spec h
  by_cases hremove : b = .withdrawRemove
  · subst hremove
    obtain rfl : a = .withdrawRemove := by
      have hkind := answered_kind hanswer
      cases a <;> first | rfl | contradiction
    obtain ⟨pc, hw, hremove⟩ := Option.bind_eq_some_iff.mp hstep
    simp only [FiberCell.stepWorker] at hremove
    split at hremove <;> try contradiction
    rename_i removed key
    refine .withdrawn f c c' rfl hc (fiberEffect_fibers _ _ hstep).1 removed key hw ?_ fun s k => ?_
    · cases hremove
      rfl
    · simp only [fiberEffect, hw]
      rfl
  · refine .kept ?_ (by simp)
    exact fiberEffect_services f (rt.setFiber f c') hstep hremove

theorem step_stocks (ht : Topology rt) (hl : ∀ f s k, l ≠ .provide f s k)
    (h : rt.step l = some rt') : Stocks rt l rt' := by
  cases l <;> simp only [step] at h
  case fiber f a => exact stocks_fiberStep h
  case scope s a =>
    split at h <;> try contradiction
    obtain ⟨pc, -, h⟩ := Option.bind_eq_some_iff.mp h
    refine .kept ?_ (by simp)
    rcases stepScope_only h with honly | ⟨f, b, honly⟩ <;> rw [honly.eq]
    rcases disposeFound_spec rt f false b true with ⟨-, heq⟩ | ⟨c, c', -, hstep, heq⟩ <;> rw [heq]
    exact fiberEffect_services f (rt.setFiber f c') hstep (by simp)
  case disposeScope s b =>
    cases h
    exact .kept (by rw [(requestScopeDisposal_only rt s b).eq]) (by simp)
  case createScope =>
    obtain ⟨-, heq, -⟩ := createScope_spec h
    exact .kept (by rw [heq]) (by simp)
  case install =>
    obtain ⟨p, heq, -⟩ := insertFiber_spec h
    exact .kept (by rw [heq]) (by simp)
  case provide f s k => exact absurd rfl (hl f s k)
  case handle =>
    obtain ⟨c, rt₁, -, -, h₁, rfl⟩ := handle_spec h
    obtain ⟨d, -, -, -, rfl⟩ := registerEntry_spec h₁
    exact .kept rfl (by simp)
  case intercept =>
    obtain ⟨c, rt₁, -, h₁, rfl⟩ := intercept_spec h
    obtain ⟨d, -, -, -, rfl⟩ := registerEntry_spec h₁
    exact .kept rfl (by simp)
  case ownScope =>
    obtain ⟨rt₁, h₁, h⟩ := ownScope_spec h
    obtain ⟨-, heq, -⟩ := createScope_spec h₁
    obtain ⟨d, -, -, -, rfl⟩ := registerEntry_spec h
    exact .kept (show rt₁.services = rt.services by rw [heq]) (by simp)
  case commitReload old staged staging target =>
    rcases commitReload_supersedes ht h with heq | ⟨oldCell, c, hcut, hreplaced, heq⟩
    · exact .kept (by rw [heq.rest]) fun _ _ _ _ _ => by rw [heq.rest]
    · exact .cut old staged staging target oldCell c rfl hcut hreplaced heq
  case sweepFiber =>
    unfold sweepFiber at h
    split_ifs at h
    cases h
    exact .kept rfl (by simp)
  case sweepScope =>
    unfold sweepScope at h
    split at h <;> try contradiction
    split_ifs at h
    cases h
    exact .kept rfl (by simp)
  case beginShutdown =>
    cases h
    exact .kept rfl (by simp)

end Runtime

namespace Contexts

variable {w w' : Contexts} {l : ContextLabel}

/-- What a section does to the services, by the step of the Runtime that it makes. -/
inductive Stocks (w : Contexts) (l : ContextLabel) (w' : Contexts) : Prop
  | idle (same : w'.runtime = w.runtime)
  | runs (a : RuntimeLabel) (step : w.runtime.step a = some w'.runtime) (drives : Drives w l a)
      (stocks : Runtime.Stocks w.runtime a w'.runtime)
  | inserted (i : Nat) (f : FiberId) (gate : Gate) (scope : ScopeId) (key : ServiceSymbol)
      (c : FiberCell) (label : l = .insert i) (call : w.calls i = some ⟨f, gate, scope, .free key⟩)
      (was : w.runtime.fibers f = some c) (bound : scope = c.inner.scope ∨ scope = c.origin)
      (accepts : c.accepts (.provided key) = true)
      (now : w'.runtime = (w.runtime.setFiber f
        { c with inner := FiberCell.registered (.provided key) c.inner }).insertService scope key
          ⟨f, scope, Runtime.gateOf c⟩)

theorem step_stocks (ht : Runtime.Topology w.runtime) (h : w.step l = some w') :
    Stocks w l w' := by
  cases step_moves h with
  | kept same => exact .idle same
  | runs a step drives =>
    refine .runs a step drives (Runtime.step_stocks ht ?_ step)
    rintro f s k rfl
    cases drives with
    | own _ ready => cases ready
    | registered _ _ _ _ _ _ _ _ other => exact other f s k rfl
  | inserts i f gate scope key label was step =>
    unfold Runtime.provideFound at step
    split at step <;> try contradiction
    rename_i c hc
    obtain ⟨rt₁, h₁, hnow⟩ := Option.map_eq_some_iff.mp step
    obtain ⟨d, hd, hbound, haccepts, rfl⟩ := Runtime.registerEntry_spec h₁
    obtain rfl := Option.some.inj (hc.symm.trans hd)
    exact .inserted i f gate scope key c label was hc hbound haccepts hnow.symm

end Contexts

end Cordis
