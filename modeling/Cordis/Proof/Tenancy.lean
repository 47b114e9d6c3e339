import Cordis.Fiber.Deferral
import Cordis.Proof.Publishing
import Cordis.Proof.Stock

/-!
# One Fiber stands for a plugin

A commit and a cutover make a selector name a Fiber, and the selector names it until the Fiber retires. So a
committed Fiber is the one that its selector names, and a selector names a committed Fiber.
-/

namespace Cordis

open Machine

variable {c c' : FiberCell} {f : FiberId}

/-! ## Past the activation -/

/-- The gate is closed, or its activation has ended. -/
def FiberCell.Past (c : FiberCell) : Prop :=
  c.retired = true ∨ c.inner.state = .Active ∨ c.inner.state = .Reloading ∨ c.inner.state = .Failed

theorem past_move {l : FiberLabel} {k : Control} (hm : Move l c k) (hidle : c.inner.disposal.phase = .Idle)
    (hworker : c.worker = none)
    (hc : c.inner.state = .Active ∨ c.inner.state = .Reloading ∨ c.inner.state = .Failed) :
    k.phase ≠ .Idle ∨ k.state = .Active ∨ k.state = .Reloading ∨ k.state = .Failed := by
  cases hm with
  | quiet | refused | joined => exact .inr hc
  | start s' hfrom =>
    rcases hfrom with rfl | ⟨hfrom, -⟩
    · exact .inr hc
    · rcases hfrom with hfrom | hfrom <;> simp [hfrom] at hc
  | restart _ _ hcomplete =>
    rw [hidle] at hcomplete
    contradiction
  | deferred => exact .inr (.inl rfl)
  | parked _ hlegal => rcases hc with hc | hc | hc <;> rw [hc] at hlegal <;> contradiction
  | written s' _ hnext => exact .inr hnext
  | failed s' hnext =>
    rcases hnext with rfl | ⟨-, rfl⟩
    · exact .inr hc
    · exact .inr (.inr (.inr rfl))
  | requested => exact .inl (by simp)
  | worked _ _ _ _ hwas | gaveUp _ hwas | finalized _ _ _ hwas =>
    rw [hworker] at hwas
    contradiction

theorem live_idle (hsound : c.Sound) (hclosed : c.Closed) (hlive : c.retired = false) :
    c.inner.disposal.phase = .Idle ∧ c.worker = none := by
  have hidle : c.inner.disposal.phase = .Idle := by
    by_contra hphase
    rw [hclosed hphase] at hlive
    contradiction
  refine ⟨hidle, ?_⟩
  cases hw : c.worker with
  | none => rfl
  | some pc =>
    have hrunning := hsound.consistent.running pc hw
    rw [show c.control.phase = .Idle from hidle] at hrunning
    contradiction

theorem past_live {l : FiberLabel} (hsound : c.Sound) (hclosed : c.Closed) (hlive : c.retired = false)
    (hc : c.Past) (h : c.step l = some c') : c'.Past := by
  obtain ⟨hidle, hworker⟩ := live_idle hsound hclosed hlive
  rcases past_move (step_move h) hidle hworker (hc.resolve_left (by simp [hlive])) with hphase | hstate
  · exact .inl (closed_step hsound.consistent hclosed h hphase)
  · exact .inr hstate

/-- **A Fiber comes back to its activation with a new gate only.** -/
theorem past_step {l : FiberLabel} (hsound : c.Sound) (hclosed : c.Closed) (hc : c.Past)
    (h : c.step l = some c') :
    c'.Past ∨ ∃ n g, l = .activationBegin n true (.ok g) ∧ c'.generation = g := by
  by_cases hretired : c.retired = true
  · cases step_gated h with
    | kept _ hsame => exact .inl (.inl (hsame.trans hretired))
    | closed _ _ _ _ _ hnow | superseded _ _ hnow => exact .inl (.inl hnow)
    | renewed n g hlabel _ _ hgeneration => exact .inr ⟨n, g, hlabel, hgeneration⟩
  · exact .inl (past_live hsound hclosed (by simpa using hretired) hc h)

namespace Runtime

variable {rt rt' : Runtime} {l : RuntimeLabel}

/-! ## Who is named -/

theorem fiberEffect_unnames {a : FiberLabel} {p : PluginId} (f : FiberId) (rt : Runtime) (hstep : c.step a =
    some c')
    (hp : rt.selectors p ≠ .NONE) (h : (fiberEffect f c c' a rt).selectors p ≠ rt.selectors p) :
    c.plugin = p ∧ c.generation = rt.selectors p ∧ c'.inner.disposal.phase = .Tasks := by
  have heffect := section_effect f rt hstep
  generalize fiberEffect f c c' a rt = rt₁ at heffect h
  cases heffect with
  | closed _ _ _ htasks =>
    unfold switch at h
    split_ifs at h with hnamed
    · by_cases hplugin : p = c.plugin
      · subst hplugin
        exact ⟨rfl, hnamed.symm, htasks⟩
      · exact absurd (Function.update_of_ne hplugin ..) h
    · exact absurd rfl h
  | published =>
    unfold switch at h
    split_ifs at h with hfree
    · by_cases hplugin : p = c.plugin
      · subst hplugin
        exact absurd hfree hp
      · exact absurd (Function.update_of_ne hplugin ..) h
    · exact absurd rfl h
  | none | numbered | indexed | unregistered | withdrawn | forgotten => exact absurd rfl h

/-- How a step comes to change a selector. -/
inductive Switches (rt : Runtime) (l : RuntimeLabel) (rt' : Runtime) : Prop
  | same (selectors : rt'.selectors = rt.selectors)
  | effect (f : FiberId) (a : FiberLabel) (c c' : FiberCell) (was : rt.fibers f = some c)
      (step : c.step a = some c') (fibers : rt'.fibers f = some c')
      (selectors : rt'.selectors = (fiberEffect f c c' a (rt.setFiber f c')).selectors)
  | cut (old staged : FiberId) (staging target : ScopeId) (oldCell c : FiberCell)
      (found : CutFrom rt old staged staging target oldCell c)
      (replaced : Supersedes rt old target oldCell c)
      (now : rt' = (rt.cutOver ⟨staging, target, staged, old, c.inner.childScopes⟩ oldCell
        c).setFiber old (superseded oldCell))

theorem switches_effect {a : FiberLabel} (hc : rt.fibers f = some c) (hstep : c.step a = some c') :
    Switches rt l (fiberEffect f c c' a (rt.setFiber f c')) := by
  refine .effect f a c c' hc hstep ?_ rfl
  rw [(fiberEffect_fibers _ _ hstep).1]
  exact Function.update_self ..

theorem step_switches (ht : Topology rt) (h : rt.step l = some rt') : Switches rt l rt' := by
  cases l <;> simp only [step] at h
  case fiber f a =>
    obtain ⟨c, a', c', hc, -, hstep, rfl⟩ := fiberStep_spec h
    exact switches_effect hc hstep
  case scope s a =>
    split at h <;> try contradiction
    obtain ⟨pc, -, h⟩ := Option.bind_eq_some_iff.mp h
    rcases stepScope_only h with honly | ⟨f, b, honly⟩
    · exact .same (by rw [honly.eq])
    rcases disposeFound_spec rt f false b true with ⟨-, heq⟩ | ⟨c, c', hc, hstep, heq⟩ <;>
      rw [honly.eq, heq]
    · exact .same rfl
    · refine .effect f _ c c' hc hstep ?_ rfl
      change (fiberEffect f c c' _ (rt.setFiber f c')).fibers f = some c'
      rw [(fiberEffect_fibers _ _ hstep).1]
      exact Function.update_self ..
  case disposeScope s b =>
    cases h
    exact .same (by rw [(requestScopeDisposal_only rt s b).eq])
  case createScope =>
    obtain ⟨-, heq, -⟩ := createScope_spec h
    exact .same (by rw [heq])
  case install =>
    obtain ⟨q, heq, -⟩ := insertFiber_spec h
    exact .same (by rw [heq])
  case provide =>
    obtain ⟨c, rt₁, -, -, h₁, rfl⟩ := provide_spec h
    obtain ⟨d, -, -, -, rfl⟩ := registerEntry_spec h₁
    exact .same rfl
  case handle =>
    obtain ⟨c, rt₁, -, -, h₁, rfl⟩ := handle_spec h
    obtain ⟨d, -, -, -, rfl⟩ := registerEntry_spec h₁
    exact .same rfl
  case intercept =>
    obtain ⟨c, rt₁, -, h₁, rfl⟩ := intercept_spec h
    obtain ⟨d, -, -, -, rfl⟩ := registerEntry_spec h₁
    exact .same rfl
  case ownScope =>
    obtain ⟨rt₁, h₁, h⟩ := ownScope_spec h
    obtain ⟨-, heq, -⟩ := createScope_spec h₁
    obtain ⟨d, -, -, -, rfl⟩ := registerEntry_spec h
    exact .same (show rt₁.selectors = rt.selectors by rw [heq])
  case commitReload old staged staging target =>
    rcases commitReload_supersedes ht h with heq | ⟨oldCell, c, hcut, hreplaced, hnow⟩
    · exact .same (by rw [heq.rest])
    · exact .cut old staged staging target oldCell c hcut hreplaced hnow
  case sweepFiber =>
    unfold sweepFiber at h
    split_ifs at h
    cases h
    exact .same rfl
  case sweepScope =>
    unfold sweepScope at h
    split at h <;> try contradiction
    split_ifs at h
    cases h
    exact .same rfl
  case beginShutdown =>
    cases h
    exact .same rfl

/-- The Fiber that was named has retired. -/
structure Unnamed (rt rt' : Runtime) (p : PluginId) (f : FiberId) (c c' : FiberCell) : Prop where
  was : rt.fibers f = some c
  now : rt'.fibers f = some c'
  plugin : c.plugin = p
  generation : c.generation = rt.selectors p
  retired : c'.retired = true

/-- **A selector leaves the generation that it names when the Fiber retires.** -/
theorem step_unnames (ht : Topology rt) (hsteady : ∀ f c, rt.fibers f = some c → c.Steady)
    (h : rt.step l = some rt') {p : PluginId} (hp : rt.selectors p ≠ .NONE)
    (hleaves : rt'.selectors p ≠ rt.selectors p) : ∃ f c c', Unnamed rt rt' p f c c' := by
  cases step_switches ht h with
  | same selectors => exact absurd (congrFun selectors p) hleaves
  | effect f a c c' was step fibers selectors =>
    rw [selectors] at hleaves
    obtain ⟨hplugin, hgeneration, htasks⟩ := fiberEffect_unnames f (rt.setFiber f c') step hp hleaves
    refine ⟨f, c, c', was, fibers, hplugin, hgeneration, ?_⟩
    refine closed_step (hsteady f c was).sound.consistent (hsteady f c was).closed step ?_
    rw [htasks]
    decide
  | cut old staged staging target oldCell c found replaced now =>
    subst now
    have hplugin : p = c.plugin := by
      by_contra hne
      exact hleaves (Function.update_of_ne hne ..)
    refine ⟨old, oldCell, superseded oldCell, found.oldFiber, Function.update_self .., ?_, ?_, rfl⟩
    · rw [hplugin, found.plugin]
    · rw [hplugin, replaced.selector]
      rfl

/-- Fiber `f` stands for plugin `p`: the selector names it, its gate is open, and it is committed. -/
structure Reigns (rt : Runtime) (p : PluginId) (f : FiberId) (c : FiberCell) : Prop where
  found : rt.fibers f = some c
  plugin : c.plugin = p
  generation : c.generation = rt.selectors p
  live : c.retired = false
  committed : c.inner.staged = false
  state : c.inner.state = .Active ∨ c.inner.state = .Reloading ∨ c.inner.state = .Failed

/-- **A selector comes to name a Fiber by its commit or its cutover.** -/
theorem step_names (ht : Topology rt) (h : rt.step l = some rt') {p : PluginId} (hp : rt'.selectors p ≠ .NONE)
    (hleaves : rt'.selectors p ≠ rt.selectors p) : ∃ f c, Reigns rt' p f c := by
  cases step_switches ht h with
  | same selectors => exact absurd (congrFun selectors p) hleaves
  | effect f a c c' was step fibers selectors =>
    rcases fiberEffect_selects f (rt.setFiber f c') step with
      hcleared | ⟨n, o, g, rfl, hstarting, hactive, hnow, -⟩
    · rw [selectors] at hp hleaves
      rcases hcleared p with hsame | hnone
      · exact absurd hsame hleaves
      · exact absurd hnone hp
    · rw [hnow] at selectors
      obtain ⟨-, -, -, hlive, hgeneration⟩ := step_commit step hstarting hactive
      unfold switch at selectors
      split_ifs at selectors
      · by_cases hplugin : p = c.plugin
        · subst hplugin
          refine ⟨f, c', fibers, (step_same step).plugin, ?_, hlive, (commit_staged step hstarting hactive).1,
            .inl hactive⟩
          rw [selectors, hgeneration]
          exact (Function.update_self c.plugin c.generation rt.selectors).symm
        · refine absurd ?_ hleaves
          rw [selectors]
          exact Function.update_of_ne hplugin ..
      · rw [selectors] at hleaves
        exact absurd rfl hleaves
  | cut old staged staging target oldCell c found replaced now =>
    subst now
    have hplugin : p = c.plugin := by
      by_contra hne
      exact hleaves (Function.update_of_ne hne ..)
    subst hplugin
    refine ⟨staged, { c with inner := c.inner.cutover target }, ?_, rfl, ?_, found.live, rfl, .inl found.active⟩
    · simp [setFiber, cutOver, found.ne]
    · exact (Function.update_self c.plugin c.generation rt.selectors).symm

/-- A Fiber that serves is named by its selector. -/
def Named (rt : Runtime) : Prop :=
  ∀ f c, rt.fibers f = some c → c.Serves → rt.selectors c.plugin = c.generation

theorem named_kept (ht : Topology rt) (hn : Numbered rt) (hsteady : ∀ f c, rt.fibers f = some c → c.Steady)
    (h : rt.step l = some rt') (hc : rt.fibers f = some c) (hc' : rt'.fibers f = some c')
    (hwas : rt.selectors c.plugin = c.generation) (hgate : gateOf c' = gateOf c)
    (hlive : c'.retired = false) : rt'.selectors c'.plugin = c'.generation := by
  rw [plugin_of_gateOf hgate, generation_of_gateOf hgate, ← hwas]
  by_contra hleaves
  have hpos := (hn.fibers f c hc).1
  obtain ⟨g, d, d', hunnamed⟩ := step_unnames ht hsteady h (hwas ▸ Nat.ne_of_gt hpos) hleaves
  have hsame : gateOf c = gateOf d :=
    gateOf_eq hunnamed.plugin.symm (hwas.symm.trans hunnamed.generation.symm)
  obtain rfl := hn.apart f g c d hc hunnamed.was hsame
  obtain rfl := Option.some.inj (hc'.symm.trans hunnamed.now)
  rw [hunnamed.retired] at hlive
  contradiction

/-- **Commits and cutovers name the Fiber, and it stays named until it retires.** -/
theorem named_step (ht : Topology rt) (hn : Numbered rt) (hsteady : ∀ f c, rt.fibers f = some c → c.Steady)
    (hnamed : Named rt) (h : rt.step l = some rt') : Named rt' := by
  intro f c' hc' hserves
  cases hc : rt.fibers f with
  | none =>
    obtain ⟨-, -, p?, p, s, d, g, b, -, rfl⟩ := (step_follows ht h).fresh f c' hc' hc
    rcases hserves.state with hstate | hstate <;> contradiction
  | some c =>
    obtain ⟨d, hd, hmove⟩ := (step_follows ht h).cells f c hc
    obtain rfl := Option.some.inj (hd.symm.trans hc')
    rcases hmove with rfl | ⟨a, ha, hacts⟩
    · exact named_kept ht hn hsteady h hc hc' (hnamed f d hc hserves) rfl hserves.current
    have hplugin := (step_same ha).plugin
    rcases serves_step (hsteady f c hc).sound (hsteady f c hc).seated ha hserves with
      ⟨hbefore, hgeneration⟩ | ⟨n, o, rfl, hgeneration, hstarting, hactive⟩ | ⟨target, g, rfl⟩
    · exact named_kept ht hn hsteady h hc hc' (hnamed f c hc hbefore) (gateOf_eq hplugin hgeneration)
        hserves.current
    · cases hacts with
      | own hanswer =>
        rw [hplugin, hgeneration]
        exact (commit_publishes h hc hc' hanswer hstarting hactive).2.1
    · obtain ⟨old, staging, rfl⟩ := acts_cutover hacts
      rcases commitReload_cases ht h with heq | ⟨oldCell, e, hcut, rfl⟩
      · rw [heq.rest, hc] at hd
        cases hd
        exact named_kept ht hn hsteady h hc hc' (hnamed f c hc hserves) rfl hserves.current
      · obtain rfl := Option.some.inj (hc.symm.trans hcut.stagedFiber)
        have hcell : d = { c with inner := c.inner.cutover target } := by
          have hself := hd
          simp only [setFiber, cutOver, Function.update_of_ne hcut.ne, Function.update_self,
            Option.some.injEq] at hself
          exact hself.symm
        subst hcell
        exact Function.update_self ..

/-- A selector names a committed Fiber. -/
def Reigned (rt : Runtime) : Prop :=
  ∀ p, rt.selectors p ≠ .NONE → ∃ f c, Reigns rt p f c

theorem reigned_step (ht : Topology rt) (hn : Numbered rt) (hsteady : ∀ f c, rt.fibers f = some c → c.Steady)
    (htenured : Tenured rt) (hr : Reigned rt) (h : rt.step l = some rt') : Reigned rt' := by
  intro p hp
  by_cases hsame : rt'.selectors p = rt.selectors p
  swap
  · exact step_names ht h hp hsame
  obtain ⟨f, c, hc⟩ := hr p (hsame ▸ hp)
  obtain ⟨c', hc', hmove⟩ := (step_follows ht h).cells f c hc.found
  have hgate := live_gate ht htenured h hc.found hc' hc.live
  have hlive : c'.retired = false := by
    by_contra hretired
    refine retires_clears ht hn h hc.found hc' hc.live (by simpa using hretired) ?_
    rw [hc.plugin, hsame, hc.generation]
  refine ⟨f, c', hc', (plugin_of_gateOf hgate).trans hc.plugin,
    (generation_of_gateOf hgate).trans (hc.generation.trans hsame.symm), hlive, ?_, ?_⟩
  all_goals rcases hmove with rfl | ⟨a, ha, -⟩
  · exact hc.committed
  · by_contra hstaged
    have hwas := barred_staged (step_barred ha) (by simpa using hstaged)
    rw [hc.committed] at hwas
    cases hwas
  · exact hc.state
  · have hsteadyc := hsteady f c hc.found
    refine (past_live hsteadyc.sound hsteadyc.closed hc.live (.inr hc.state) ha).resolve_left ?_
    simp [hlive]

end Runtime

namespace Contexts

variable {w w' : Contexts} {l : ContextLabel}

/-- What every section keeps of Fibers and selectors. -/
structure Settled (w : Contexts) : Prop where
  standing : Standing w
  steady : ∀ f c, w.runtime.fibers f = some c → c.Steady
  tenured : Runtime.Tenured w.runtime
  named : Runtime.Named w.runtime
  reigned : Runtime.Reigned w.runtime

theorem settled_new : Settled .new where
  standing := standing_new
  steady := fun f c h => by cases h
  tenured := Runtime.tenured_new
  named := fun f c h => by cases h
  reigned := fun p h => absurd rfl h

theorem Settled.frees (hw : Settled w) {rt₀ : Runtime} (h : Runtime.Frees w.runtime rt₀) :
    Runtime.Topology rt₀ ∧ Runtime.Numbered rt₀ ∧ (∀ f c, rt₀.fibers f = some c → c.Steady) ∧
      Runtime.Tenured rt₀ ∧ Runtime.Named rt₀ ∧ Runtime.Reigned rt₀ := by
  refine ⟨Runtime.topology_tame hw.standing.topology h.tame, h.numbered hw.standing.numbered, ?_⟩
  rw [h.rest]
  refine ⟨hw.steady, ⟨hw.tenured.closed, hw.tenured.tenant, hw.tenured.owned⟩, hw.named, fun p hp => ?_⟩
  obtain ⟨f, c, hc⟩ := hw.reigned p hp
  exact ⟨f, c, hc.found, hc.plugin, hc.generation, hc.live, hc.committed, hc.state⟩

theorem settled_step (hw : Settled w) (h : w.step l = some w') : Settled w' := by
  have hstanding := standing_step hw.standing h
  have hsteady : ∀ f c, w'.runtime.fibers f = some c → c.Steady := fun f c' hc' => by
    cases step_turns hw.standing.topology h hc' with
    | kept was => exact hw.steady f c' was
    | stepped _ _ _ c _ was step => exact steady_step (hw.steady f c was) step
    | created _ _ _ _ _ _ now => exact now ▸ steady_created ..
  rcases step_runs h with heq | ⟨rt₀, a, hruns⟩
  · exact ⟨hstanding, hsteady, heq ▸ hw.tenured, heq ▸ hw.named, heq ▸ hw.reigned⟩
  · obtain ⟨ht, hn, hsteady₀, htenured, hnamed, hreigned⟩ := hw.frees hruns.frees
    exact {
      standing := hstanding
      steady := hsteady
      tenured := Runtime.tenured_step ht (fun f c hc => (hsteady₀ f c hc).sound) hn htenured hruns.step
      named := Runtime.named_step ht hn hsteady₀ hnamed hruns.step
      reigned := Runtime.reigned_step ht hn hsteady₀ htenured hreigned hruns.step }

theorem settled_reach (h : Reach step anyStep .new w) : Settled w :=
  h.invariant settled_new fun _ _ _ hw _ hs => settled_step hw hs

/-- **One Fiber stands for a plugin**: the Fiber that the selector names is committed, has an open gate and is the
only one that does so, and a committed Fiber that is `Active` or `Reloading` with an open gate is the named one. -/
theorem one_reigns (h : Reach step anyStep .new w) (p : PluginId) :
    (w.runtime.selectors p ≠ .NONE → ∃! f, ∃ c, Runtime.Reigns w.runtime p f c) ∧
      ∀ f c, w.runtime.fibers f = some c → c.plugin = p → c.Serves → Runtime.Reigns w.runtime p f c := by
  have hw := settled_reach h
  refine ⟨fun hp => ?_, fun f c hc hplugin hserves => ?_⟩
  · obtain ⟨f, c, hc⟩ := hw.reigned p hp
    refine ⟨f, ⟨c, hc⟩, ?_⟩
    rintro g ⟨d, hd⟩
    refine hw.standing.numbered.apart g f d c hd.found hc.found ?_
    exact Runtime.gateOf_eq (hd.plugin.trans hc.plugin.symm) (hd.generation.trans hc.generation.symm)
  · exact ⟨hc, hplugin, hplugin ▸ (hw.named f c hc hserves).symm, hserves.current, hserves.committed,
      hserves.state.imp_right .inl⟩

/-- Fiber 0 starts, and one of its calls registers a subscription, a handler, a middleware and service 7; then its
activation is committed. -/
def servingRun : List ContextLabel :=
  ([.install 0 none ⟨[], [7], .Restart⟩ false, .fiber 0 .installIndex, .fiber 0 (.installValidate (.ok ())),
    .fiber 0 (.installCheck true), .fiber 0 (.activationLock 0), .fiber 0 (.activationBegin 0 true (.ok 0)),
    .fiber 0 (.activationPoll 0)] : List RuntimeLabel).map .runtime ++
  [.capture 0, .lease 0, .on 0, .handle 0 0, .intercept 0 0, .check 0 7, .insert 0, .finish 0] ++
  ([.activationReturn 0 (.ok ()), .activationSeal 0 true, .activationValidate 0, .activationReadStaged 0,
    .activationCheck 0 (.ok ()), .activationCommit 0 (.ok ()) .NONE] : List FiberLabel).map (.runtime ∘ .fiber 0)

theorem one_reigns_committed :
    ∃ w, Reach step anyStep .new w ∧ ∃! f, ∃ c, Runtime.Reigns w.runtime 0 f c := by
  have hrun : ((run step .new servingRun).any fun w => w.runtime.selectors 0 ≠ .NONE) = true := by
    decide +kernel
  obtain ⟨w, hw, hnamed⟩ := (Option.any_eq_true _ _).mp hrun
  exact ⟨w, reach_of_run hw, (one_reigns (reach_of_run hw) 0).1 (of_decide_eq_true hnamed)⟩

end Contexts

end Cordis
