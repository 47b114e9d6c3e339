import Cordis.Fiber.Activation
import Cordis.Proof.Leads

/-!
# Who switches a selector

A commit that goes through and a cutover that goes through name a generation that was not named, of a gate
that is not retired; nothing else does.
-/

namespace Cordis

namespace Runtime

variable {rt rt' : Runtime} {f : FiberId} {c c' : FiberCell} {l : RuntimeLabel}

theorem answered_self {a b : FiberLabel} (h : rt.answered f c a = some b)
    (hb : b = .callActivate ∨ (∃ n, b = .activationDefer n) ∨ ∃ w p x, b = .callDispose w p x) : a = b := by
  have hkind := answered_kind h
  rcases hb with rfl | ⟨n, rfl⟩ | ⟨w, p, x, rfl⟩ <;> cases a <;> simp_all [FiberLabel.kind]

theorem begin_label {a : FiberLabel} {n : Nat} {b : Bool} {x : Except CordisError GenerationId}
    (h : rt.answered f c a = some (.activationBegin n b x)) : ∃ b' x', a = .activationBegin n b' x' := by
  have hkind := answered_kind h
  cases a <;> simp_all [FiberLabel.kind]

theorem acts_cutover {target : ScopeId} {g : GenerationId} (h : Acts rt f c l (.cutover target g)) :
    ∃ old staging, l = .commitReload old f staging target := by
  cases h with
  | @own b _ answer =>
    have hkind := answered_kind answer
    cases b <;> simp only [answered] at answer <;> contradiction
  | cut old staging => exact ⟨old, staging, rfl⟩

theorem commit_publishes {a : FiberLabel} {n : Nat} {o : Outcome} {g : GenerationId}
    (h : rt.step (.fiber f a) = some rt') (hc : rt.fibers f = some c) (hc' : rt'.fibers f = some c')
    (ha : rt.answered f c a = some (.activationCommit n o g)) (hwas : c.inner.state = .Starting)
    (hnow : c'.inner.state = .Active) :
    rt.selectors c.plugin = .NONE ∧ rt'.selectors c.plugin = c.generation ∧
      c.retired = false := by
  obtain ⟨d, b, d', hd, hanswer, hstep, rfl⟩ := fiberStep_spec h
  rw [hc] at hd
  cases hd
  rw [ha] at hanswer
  cases hanswer
  rw [(fiberEffect_fibers _ _ hstep).1] at hc'
  have hself : (rt.setFiber f d').fibers f = some d' := Function.update_self ..
  rw [hself] at hc'
  cases hc'
  obtain ⟨-, hactive⟩ := answered_commit ha
  obtain ⟨rfl, rfl, hlive, -, -⟩ := step_commit hstep hwas hnow
  refine ⟨hactive.symm, ?_, hlive⟩
  simp only [fiberEffect, hwas, hnow, and_self, if_true]
  unfold switch
  rw [if_pos (show (rt.setFiber f c').selectors c.plugin = .NONE from hactive.symm)]
  exact Function.update_self ..

theorem cutover_publishes (ht : Topology rt) {old : FiberId} {staging target : ScopeId}
    (h : rt.step (.commitReload old f staging target) = some rt') (hc : rt.fibers f = some c)
    (hc' : rt'.fibers f = some c') (hflag : c.inner.staged = true) (hnow : c'.inner.staged = false) :
    rt.selectors c.plugin ≠ c.generation ∧ rt'.selectors c.plugin = c.generation ∧ c.retired = false := by
  rcases commitReload_cases ht h with hsame | ⟨oldCell, d, hcut, rfl⟩
  · have hfibers : rt'.fibers = rt.fibers := by rw [hsame.rest]
    rw [hfibers, hc] at hc'
    cases hc'
    rw [hflag] at hnow
    contradiction
  · obtain rfl : c = d := by simpa [hc] using hcut.stagedFiber
    have hgate := hcut.gate
    simp only [CapabilityGate.isStaged, Bool.and_eq_true, bne_iff_ne, Bool.not_eq_eq_eq_not,
      Bool.not_true] at hgate
    exact ⟨hgate.2, Function.update_self .., hgate.1⟩

theorem switched_live (ht : Topology rt) (hn : Numbered rt) (h : rt.step l = some rt')
    (hc : rt.fibers f = some c) (hwas : rt.selectors c.plugin ≠ c.generation)
    (hnow : rt'.selectors c.plugin = c.generation) : c.retired = false := by
  cases step_selects ht h with
  | cleared selectors =>
    rcases selectors c.plugin with hsame | hnone
    · exact absurd (hsame.symm.trans hnow) hwas
    · have hpos := (hn.fibers f c hc).1
      rw [← hnow, hnone] at hpos
      exact absurd hpos (Nat.lt_irrefl _)
  | published g n d d' was _ _ _ _ live _ _ _ selectors =>
    by_cases hp : c.plugin = d.plugin
    · have hgeneration : c.generation = d.generation := by
        rw [← hnow, selectors, hp]
        exact Function.update_self ..
      obtain rfl := hn.apart f g c d hc was (gateOf_eq hp hgeneration)
      rw [hc] at was
      cases was
      exact live
    · rw [selectors, Function.update_of_ne hp] at hnow
      exact absurd hnow hwas
  | cut old staged staging target oldCell d _ found now =>
    have hselectors : rt'.selectors = Function.update rt.selectors d.plugin d.generation := by
      rw [now]
      rfl
    by_cases hp : c.plugin = d.plugin
    · have hgeneration : c.generation = d.generation := by
        rw [← hnow, hselectors, hp]
        exact Function.update_self ..
      obtain rfl := hn.apart f staged c d hc found.stagedFiber (gateOf_eq hp hgeneration)
      obtain rfl : c = d := by simpa [hc] using found.stagedFiber
      exact found.live
    · rw [hselectors, Function.update_of_ne hp] at hnow
      exact absurd hnow hwas

end Runtime

end Cordis
