import Cordis.Fiber.Tenure
import Cordis.Proof.Frame

/-!
# Generations and who stands for them

A generation is handed out once, so no two Fibers have the same gate. A selector names the gate of a
Fiber that has not retired, and whatever is filed under such a gate is in the ledger of that Fiber.
-/

namespace Cordis

open Machine

namespace Runtime

variable {rt rt' : Runtime} {f : FiberId} {c c' : FiberCell} {l : RuntimeLabel}

/-! ## Generations are handed out once -/

/-- Generations that were handed out lie below the counter of their plugin, and no two Fibers have
one in common. -/
structure Numbered (rt : Runtime) : Prop where
  positive : ∀ p, 0 < rt.nextGeneration p
  fibers : ∀ f c, rt.fibers f = some c →
    0 < c.generation ∧ c.generation < rt.nextGeneration c.plugin
  entries : ∀ id e, rt.handlers id = some e →
    0 < e.gate.generation ∧ e.gate.generation < rt.nextGeneration e.gate.plugin
  apart : ∀ f g c d, rt.fibers f = some c → rt.fibers g = some d → gateOf c = gateOf d → f = g

/-- Step `l` gives Fiber `f` a new generation. -/
inductive Issues (rt : Runtime) (f : FiberId) : RuntimeLabel → Prop
  | restarted (n : Nat) (a : Bool) (x : Except CordisError GenerationId) :
      Issues rt f (.fiber f (.activationBegin n a x))
  | installed (scope : ScopeId) (plugin : Option PluginId) (descriptor : PluginDescriptor)
      (staged : Bool) (new : f = rt.nextFiber) : Issues rt f (.install scope plugin descriptor staged)

theorem Issues.unique {g : FiberId} (h : Issues rt f l) (h' : Issues rt g l) : f = g := by
  cases h <;> cases h'
  · rfl
  · rename_i hf hg
    exact hf.trans hg.symm

/-- Where the gate of a Fiber comes from. -/
inductive Provenance (rt : Runtime) (l : RuntimeLabel) (rt' : Runtime) (f : FiberId)
    (c' : FiberCell) : Prop
  /-- It was the Fiber's gate before. -/
  | kept (c : FiberCell) (was : rt.fibers f = some c)
      (move : c' = c ∨ ∃ a, c.step a = some c' ∧ Acts rt f c l a) (same : gateOf c' = gateOf c)
      (live : c'.retired = false → c.retired = false)
  | issued (issues : Issues rt f l) (generation : c'.generation = rt.nextGeneration c'.plugin)
      (counted : c'.generation < rt'.nextGeneration c'.plugin)

theorem switch_generation (rt : Runtime) (p : PluginId) (g g' : GenerationId) :
    (rt.switch p g g').nextGeneration = rt.nextGeneration := by
  unfold switch
  split_ifs <;> rfl

theorem switch_handlers (rt : Runtime) (p : PluginId) (g g' : GenerationId) :
    (rt.switch p g g').handlers = rt.handlers := by
  unfold switch
  split_ifs <;> rfl

theorem fiberEffect_generation {a : FiberLabel} (f : FiberId) (rt : Runtime) (hstep : c.step a = some c')
    (p : PluginId) : rt.nextGeneration p ≤ (fiberEffect f c c' a rt).nextGeneration p := by
  have heffect := section_effect f rt hstep
  generalize fiberEffect f c c' a rt = rt₁ at heffect ⊢
  cases heffect with
  | closed | published => exact (congrFun (switch_generation ..) p).ge
  | numbered =>
    by_cases hp : p = c.plugin
    · subst hp
      exact (Function.update_self c.plugin _ rt.nextGeneration).ge.trans' (Nat.le_succ _)
    · exact (Function.update_of_ne hp _ rt.nextGeneration).ge
  | none | indexed | unregistered | withdrawn | forgotten => exact le_rfl

theorem insertFiber_generation {scope : ScopeId} {plugin : Option PluginId}
    {descriptor : PluginDescriptor} {staged : Bool}
    (h : rt.insertFiber scope plugin descriptor staged = some rt') :
    ∃ p, rt'.fibers = Function.update rt.fibers rt.nextFiber (some (.created rt.nextFiber p scope
        descriptor (rt.nextGeneration p) staged)) ∧
      rt'.nextGeneration = Function.update rt.nextGeneration p (rt.nextGeneration p + 1) := by
  unfold insertFiber at h
  split_ifs at h
  cases h
  refine ⟨plugin.getD rt.nextPlugin, ?_, ?_⟩
  · rw [(modifyScope_only _ scope _).eq]
    rfl
  · rw [(modifyScope_only _ scope _).eq]

theorem step_counts (ht : Topology rt) (h : rt.step l = some rt') (p : PluginId) :
    rt.nextGeneration p ≤ rt'.nextGeneration p := by
  cases l <;> simp only [step] at h
  case fiber f a =>
    obtain ⟨c, a', c', -, -, hstep, rfl⟩ := fiberStep_spec h
    exact fiberEffect_generation f (rt.setFiber f c') hstep p
  case scope s a =>
    split at h <;> try contradiction
    obtain ⟨pc, -, h⟩ := Option.bind_eq_some_iff.mp h
    rcases stepScope_only h with honly | ⟨f, b, honly⟩ <;> rw [honly.eq]
    rcases disposeFound_spec rt f false b true with ⟨-, heq⟩ | ⟨c, c', -, hstep, heq⟩ <;> rw [heq]
    exact fiberEffect_generation f (rt.setFiber f c') hstep p
  case disposeScope s b =>
    cases h
    rw [(requestScopeDisposal_only rt s b).eq]
  case createScope =>
    obtain ⟨-, heq, -⟩ := createScope_spec h
    rw [heq]
  case install =>
    obtain ⟨q, -, heq⟩ := insertFiber_generation h
    rw [heq]
    by_cases hp : p = q
    · subst hp
      rw [Function.update_self]
      exact Nat.le_succ _
    · rw [Function.update_of_ne hp]
  case provide =>
    obtain ⟨c, rt₁, -, -, h₁, rfl⟩ := provide_spec h
    obtain ⟨d, -, -, -, rfl⟩ := registerEntry_spec h₁
    exact le_rfl
  case handle =>
    obtain ⟨c, rt₁, -, -, h₁, rfl⟩ := handle_spec h
    obtain ⟨d, -, -, -, rfl⟩ := registerEntry_spec h₁
    exact le_rfl
  case intercept =>
    obtain ⟨c, rt₁, -, h₁, rfl⟩ := intercept_spec h
    obtain ⟨d, -, -, -, rfl⟩ := registerEntry_spec h₁
    exact le_rfl
  case ownScope =>
    obtain ⟨rt₁, h₁, h⟩ := ownScope_spec h
    obtain ⟨-, heq, -⟩ := createScope_spec h₁
    obtain ⟨d, -, -, -, rfl⟩ := registerEntry_spec h
    rw [heq]
    exact le_rfl
  case commitReload =>
    rcases commitReload_cases ht h with hsame | ⟨oldCell, c, hcut, rfl⟩
    · rw [hsame.rest]
    · exact le_rfl
  case sweepFiber =>
    unfold sweepFiber at h
    split_ifs at h
    cases h
    exact le_rfl
  case sweepScope =>
    unfold sweepScope at h
    split at h <;> try contradiction
    split_ifs at h
    cases h
    exact le_rfl
  case beginShutdown =>
    cases h
    exact le_rfl

theorem gateOf_eq {c d : FiberCell} (hp : c.plugin = d.plugin) (hg : c.generation = d.generation) :
    gateOf c = gateOf d := by
  unfold gateOf
  unfold FiberCell.generation at hg
  rw [hp, hg]

theorem generation_of_gateOf {c d : FiberCell} (h : gateOf c = gateOf d) :
    c.generation = d.generation :=
  congrArg Gate.generation h

theorem plugin_of_gateOf {c d : FiberCell} (h : gateOf c = gateOf d) : c.plugin = d.plugin :=
  congrArg Gate.plugin h

theorem answered_begin {c : FiberCell} {a : FiberLabel} {n : Nat} {g : GenerationId}
    (h : rt.answered f c a = some (.activationBegin n true (.ok g))) :
    (∃ b x, a = .activationBegin n b x) ∧ rt.admission = true ∧ g = rt.nextGeneration c.plugin := by
  have hkind := answered_kind h
  cases a <;> try contradiction
  simp only [answered, Option.some.injEq, FiberLabel.activationBegin.injEq, Except.ok.injEq] at h
  obtain ⟨rfl, hadmission, hg⟩ := h
  exact ⟨⟨_, _, rfl⟩, hadmission, hg.symm⟩

/-- **Where the gates of the Fibers come from.** -/
theorem step_provenance (ht : Topology rt) (h : rt.step l = some rt') (hc' : rt'.fibers f = some c') :
    Provenance rt l rt' f c' := by
  cases hc : rt.fibers f with
  | none =>
    obtain ⟨hf, -, p?, -, s, d, -, b, rfl, -⟩ := (step_follows ht h).fresh f c' hc' hc
    obtain ⟨p, hfibers, hgeneration⟩ := insertFiber_generation (show rt.insertFiber s p? d b = some rt' from h)
    subst hf
    rw [hfibers, Function.update_self] at hc'
    cases hc'
    refine .issued (.installed s p? d b rfl) rfl ?_
    rw [hgeneration]
    simp [FiberCell.generation, FiberCell.created, FiberMutable.created, CapabilityGate.staged]
  | some c =>
    obtain ⟨d, hd, hmove⟩ := (step_follows ht h).cells f c hc
    obtain rfl : d = c' := by simpa [hd] using hc'
    rcases hmove with rfl | ⟨a, ha, hacts⟩
    · exact .kept d hc (.inl rfl) rfl id
    have hplugin := (step_same ha).plugin
    cases step_gated ha with
    | kept hgeneration hretired =>
      exact .kept c hc (.inr ⟨a, ha, hacts⟩) (gateOf_eq hplugin hgeneration) fun hlive => by
        rw [← hretired, hlive]
    | superseded _ hgeneration hretired | closed _ _ _ _ hgeneration hretired =>
      exact .kept c hc (.inr ⟨a, ha, hacts⟩) (gateOf_eq hplugin hgeneration) fun hlive => by
        rw [hretired] at hlive
        contradiction
    | renewed n g hlabel hwaiting hcomplete hgeneration =>
      subst hlabel
      cases hacts with
      | own hanswer =>
        obtain ⟨⟨b, x, rfl⟩, hadmission, rfl⟩ := answered_begin hanswer
        refine .issued (.restarted n b x) (hgeneration.trans (by rw [hplugin])) ?_
        obtain ⟨e, a', e', he, ha', hstep, rfl⟩ := fiberStep_spec h
        obtain rfl : c = e := by simpa [hc] using he
        rw [hanswer] at ha'
        cases ha'
        rw [hgeneration, hplugin]
        simp [fiberEffect, hwaiting, hcomplete, setFiber]

/-! ## What a step files in the invocation registry -/

/-- What a step does to the handlers of the invocation registry. -/
inductive Files (rt : Runtime) (l : RuntimeLabel) (rt' : Runtime) : Prop
  /-- Handlers are at most removed. -/
  | kept (entries : ∀ id e, rt'.handlers id = some e → rt.handlers id = some e)
      (next : rt'.nextHandler = rt.nextHandler)
  | handled (f : FiberId) (scope : ScopeId) (key : InvocationKey) (c : FiberCell)
      (label : l = .handle f scope key) (was : rt.fibers f = some c)
      (free : ∀ id < rt.nextHandler, ∀ e, rt.handlers id = some e →
        rt.visible e.gate ∨ e.gate = gateOf c → ¬ (e.scope = scope ∧ e.key = key))
      (handlers : rt'.handlers =
        Function.update rt.handlers rt.nextHandler (some ⟨scope, key, gateOf c⟩))
      (next : rt'.nextHandler = rt.nextHandler + 1) (selectors : rt'.selectors = rt.selectors)
      (now : rt'.fibers f = some
        { c with inner := FiberCell.registered (.invocationHandler rt.nextHandler) c.inner })
  | cut (old staged : FiberId) (staging target : ScopeId) (oldCell c : FiberCell)
      (label : l = .commitReload old staged staging target)
      (found : CutFrom rt old staged staging target oldCell c)
      (now : rt' = (rt.cutOver ⟨staging, target, staged, old, c.inner.childScopes⟩ oldCell
        c).setFiber old (superseded oldCell))

theorem fiberEffect_handlers {a : FiberLabel} (f : FiberId) (rt : Runtime) (hstep : c.step a = some c')
    (id : Nat) (e : HandlerEntry) (h : (fiberEffect f c c' a rt).handlers id = some e) :
    rt.handlers id = some e := by
  have heffect := section_effect f rt hstep
  generalize fiberEffect f c c' a rt = rt₁ at heffect h
  cases heffect with
  | closed | published => rwa [switch_handlers] at h
  | unregistered =>
    simp only at h
    split_ifs at h
    exact h
  | none | numbered | indexed | withdrawn | forgotten => exact h

theorem step_files (ht : Topology rt) (h : rt.step l = some rt') : Files rt l rt' := by
  have hsame : rt'.handlers = rt.handlers → rt'.nextHandler = rt.nextHandler → Files rt l rt' :=
    fun heq hnext => .kept (fun id e he => by rwa [← heq]) hnext
  cases l <;> simp only [step] at h
  case fiber f a =>
    have hnext := (tame_fiberStep h).nextHandler
    obtain ⟨c, a', c', -, -, hstep, rfl⟩ := fiberStep_spec h
    exact .kept (fiberEffect_handlers f (rt.setFiber f c') hstep) hnext
  case scope s a =>
    split at h <;> try contradiction
    rename_i r hr
    obtain ⟨pc, -, h⟩ := Option.bind_eq_some_iff.mp h
    have hnext := (tame_stepScope hr h).nextHandler
    rcases stepScope_only h with honly | ⟨f, b, honly⟩
    · exact hsame (by rw [honly.eq]) hnext
    · refine .kept (fun id e he => ?_) hnext
      rw [honly.eq] at he
      rcases disposeFound_spec rt f false b true with ⟨-, heq⟩ | ⟨c, c', -, hstep, heq⟩ <;>
        rw [heq] at he
      · exact he
      · exact fiberEffect_handlers f (rt.setFiber f c') hstep id e he
  case disposeScope s b =>
    cases h
    exact hsame (by rw [(requestScopeDisposal_only rt s b).eq])
      (by rw [(requestScopeDisposal_only rt s b).eq])
  case createScope =>
    obtain ⟨-, heq, -⟩ := createScope_spec h
    exact hsame (by rw [heq]) (by rw [heq])
  case install =>
    obtain ⟨p, heq, -⟩ := insertFiber_spec h
    exact hsame (by rw [heq]) (by rw [heq])
  case provide =>
    obtain ⟨c, rt₁, -, -, h₁, rfl⟩ := provide_spec h
    obtain ⟨d, -, -, -, rfl⟩ := registerEntry_spec h₁
    exact hsame rfl rfl
  case handle f scope key =>
    obtain ⟨c, rt₁, hc, hfree, h₁, rfl⟩ := handle_spec h
    obtain ⟨d, hd, -, -, rfl⟩ := registerEntry_spec h₁
    obtain rfl : c = d := by simpa [hc] using hd
    exact .handled f scope key c rfl hc hfree rfl rfl rfl (by simp [setFiber])
  case intercept =>
    obtain ⟨c, rt₁, -, h₁, rfl⟩ := intercept_spec h
    obtain ⟨d, -, -, -, rfl⟩ := registerEntry_spec h₁
    exact hsame rfl rfl
  case ownScope =>
    obtain ⟨rt₁, h₁, h⟩ := ownScope_spec h
    obtain ⟨-, heq, -⟩ := createScope_spec h₁
    obtain ⟨d, -, -, -, rfl⟩ := registerEntry_spec h
    exact hsame (show rt₁.handlers = rt.handlers by rw [heq])
      (show rt₁.nextHandler = rt.nextHandler by rw [heq])
  case commitReload old staged staging target =>
    rcases commitReload_cases ht h with heq | ⟨oldCell, c, hcut, heq⟩
    · exact hsame (by rw [heq.rest]) (by rw [heq.rest])
    · exact .cut old staged staging target oldCell c rfl hcut heq
  case sweepFiber =>
    unfold sweepFiber at h
    split_ifs at h
    cases h
    exact hsame rfl rfl
  case sweepScope =>
    unfold sweepScope at h
    split at h <;> try contradiction
    split_ifs at h
    cases h
    exact hsame rfl rfl
  case beginShutdown =>
    cases h
    exact hsame rfl rfl

theorem numbered_new : Numbered .new where
  positive := fun _ => Nat.one_pos
  fibers := fun f c h => by cases h
  entries := fun id e h => by cases h
  apart := fun f g c d h => by cases h

theorem numbered_step (ht : Topology rt) (hn : Numbered rt) (h : rt.step l = some rt') :
    Numbered rt' := by
  have hcounts := step_counts ht h
  have hprovenance : ∀ f c', rt'.fibers f = some c' → Provenance rt l rt' f c' :=
    fun f c' => step_provenance ht h
  -- a gate of before is below the counters of before
  have hold : ∀ {f c' g d'}, rt'.fibers f = some c' → rt'.fibers g = some d' →
      (∃ d, rt.fibers g = some d ∧ gateOf d' = gateOf d) →
      c'.generation = rt.nextGeneration c'.plugin → gateOf c' ≠ gateOf d' := by
    rintro f c' g d' - - ⟨d, hd, hsame⟩ hissued heq
    have hbelow := (hn.fibers g d hd).2
    rw [← generation_of_gateOf hsame, ← plugin_of_gateOf hsame, ← generation_of_gateOf heq,
      ← plugin_of_gateOf heq, hissued] at hbelow
    exact absurd hbelow (lt_irrefl _)
  exact {
    positive := fun p => (hn.positive p).trans_le (hcounts p)
    fibers := fun f c' hc' => by
      cases hprovenance f c' hc' with
      | kept c hc _ hsame _ =>
        rw [generation_of_gateOf hsame, plugin_of_gateOf hsame]
        exact ⟨(hn.fibers f c hc).1, (hn.fibers f c hc).2.trans_le (hcounts _)⟩
      | issued _ hgeneration hcounted =>
        exact ⟨hgeneration ▸ hn.positive _, hcounted⟩
    entries := fun id e he => by
      cases step_files ht h with
      | kept hentries =>
        obtain ⟨hpos, hbelow⟩ := hn.entries id e (hentries id e he)
        exact ⟨hpos, hbelow.trans_le (hcounts _)⟩
      | handled f scope key c _ hc _ hhandlers =>
        rw [hhandlers] at he
        by_cases hid : id = rt.nextHandler
        · subst hid
          rw [Function.update_self] at he
          cases he
          exact ⟨(hn.fibers f c hc).1, (hn.fibers f c hc).2.trans_le (hcounts _)⟩
        · rw [Function.update_of_ne hid] at he
          obtain ⟨hpos, hbelow⟩ := hn.entries id e he
          exact ⟨hpos, hbelow.trans_le (hcounts _)⟩
      | cut old staged staging target oldCell c _ _ hnow =>
        have hgate : ∃ e₀, rt.handlers id = some e₀ ∧ e₀.gate = e.gate := by
          subst hnow
          simp only [setFiber, cutOver] at he
          split_ifs at he
          · obtain ⟨e₀, he₀, rfl⟩ := Option.map_eq_some_iff.mp he
            exact ⟨e₀, he₀, rfl⟩
          · exact ⟨e, he, rfl⟩
        obtain ⟨e₀, he₀, heq⟩ := hgate
        obtain ⟨hpos, hbelow⟩ := hn.entries id e₀ he₀
        rw [← heq]
        exact ⟨hpos, hbelow.trans_le (hcounts _)⟩
    apart := fun f g c' d' hc' hd' heq => by
      cases hprovenance f c' hc' with
      | kept c hc _ hsame =>
        cases hprovenance g d' hd' with
        | kept d hd _ hsame' =>
          exact hn.apart f g c d hc hd (hsame.symm.trans (heq.trans hsame'))
        | issued _ hgeneration => exact absurd heq.symm (hold hd' hc' ⟨c, hc, hsame⟩ hgeneration)
      | issued hissues hgeneration =>
        cases hprovenance g d' hd' with
        | kept d hd _ hsame' => exact absurd heq (hold hc' hd' ⟨d, hd, hsame'⟩ hgeneration)
        | issued hissues' => exact hissues.unique hissues' }

/-! ## What a step does to the selectors -/

theorem switch_none (rt : Runtime) (p q : PluginId) (g : GenerationId) :
    (rt.switch p g .NONE).selectors q = rt.selectors q ∨
      (rt.switch p g .NONE).selectors q = .NONE := by
  unfold switch
  split_ifs
  · by_cases hq : q = p
    · subst hq
      exact .inr (Function.update_self ..)
    · exact .inl (Function.update_of_ne hq ..)
  · exact .inl rfl

theorem fiberEffect_selects {a : FiberLabel} (f : FiberId) (rt : Runtime) (hstep : c.step a = some c') :
    (∀ q, (fiberEffect f c c' a rt).selectors q = rt.selectors q ∨
      (fiberEffect f c c' a rt).selectors q = .NONE) ∨
    ∃ n o b, a = .activationCommit n o b ∧ c.inner.state = .Starting ∧ c'.inner.state = .Active ∧
      (fiberEffect f c c' a rt).selectors = (rt.switch c.plugin .NONE c.generation).selectors ∧
      (fiberEffect f c c' a rt).handlers = rt.handlers := by
  have heffect := section_effect f rt hstep
  generalize fiberEffect f c c' a rt = rt₁ at heffect ⊢
  cases heffect with
  | closed => exact .inl fun q => switch_none ..
  | published n o b hlabel hstarting hnow =>
    exact .inr ⟨n, o, b, hlabel, hstarting, hnow, rfl, switch_handlers ..⟩
  | none | numbered | indexed | unregistered | withdrawn | forgotten => exact .inl fun q => .inl rfl

/-- What a step does to the generation selectors. -/
inductive Selects (rt : Runtime) (l : RuntimeLabel) (rt' : Runtime) : Prop
  | cleared (selectors : ∀ p, rt'.selectors p = rt.selectors p ∨ rt'.selectors p = .NONE)
  | published (f : FiberId) (n : Nat) (c c' : FiberCell) (was : rt.fibers f = some c)
      (now : rt'.fibers f = some c') (label : ∃ o g, l = .fiber f (.activationCommit n o g))
      (starting : c.inner.state = .Starting) (active : c'.inner.state = .Active)
      (live : c.retired = false) (still : c'.retired = false)
      (same : c'.generation = c.generation) (free : rt.selectors c.plugin = .NONE)
      (selectors : rt'.selectors = Function.update rt.selectors c.plugin c.generation)
      (handlers : rt'.handlers = rt.handlers)
  | cut (old staged : FiberId) (staging target : ScopeId) (oldCell c : FiberCell)
      (label : l = .commitReload old staged staging target)
      (found : CutFrom rt old staged staging target oldCell c)
      (now : rt' = (rt.cutOver ⟨staging, target, staged, old, c.inner.childScopes⟩ oldCell
        c).setFiber old (superseded oldCell))

theorem answered_commit {c : FiberCell} {a : FiberLabel} {n : Nat} {o : Outcome}
    {active : GenerationId} (h : rt.answered f c a = some (.activationCommit n o active)) :
    o = (if rt.admission then .ok () else .error .RuntimeShuttingDown) ∧ active = rt.selectors c.plugin := by
  have hkind := answered_kind h
  cases a <;> try contradiction
  cases h
  exact ⟨rfl, rfl⟩

theorem commit_label {c : FiberCell} {a : FiberLabel} {n : Nat} {o : Outcome} {g : GenerationId}
    (h : rt.answered f c a = some (.activationCommit n o g)) : ∃ o' g', a = .activationCommit n o' g' := by
  have hkind := answered_kind h
  cases a <;> simp_all [FiberLabel.kind]

theorem step_selectors (h : rt.step l = some rt') :
    (∀ p, rt'.selectors p = rt.selectors p ∨ rt'.selectors p = .NONE) ∨
      (∃ f n o b, l = .fiber f (.activationCommit n o b)) ∨
        ∃ old staged staging target, l = .commitReload old staged staging target := by
  have hsame : rt'.selectors = rt.selectors → ∀ p, rt'.selectors p = rt.selectors p ∨ rt'.selectors p = .NONE :=
    fun heq p => .inl (congrFun heq p)
  cases l <;> simp only [step] at h
  case fiber f a =>
    obtain ⟨c, a', c', hc, ha', hstep, rfl⟩ := fiberStep_spec h
    rcases fiberEffect_selects f (rt.setFiber f c') hstep with hcleared | ⟨n, o, b, rfl, -⟩
    · exact .inl hcleared
    · obtain ⟨o', b', rfl⟩ := commit_label ha'
      exact .inr (.inl ⟨f, n, o', b', rfl⟩)
  case scope s a =>
    split at h <;> try contradiction
    obtain ⟨pc, -, h⟩ := Option.bind_eq_some_iff.mp h
    rcases stepScope_only h with honly | ⟨f, b, honly⟩
    · exact .inl (hsame (by rw [honly.eq]))
    · refine .inl fun q => ?_
      rw [honly.eq]
      rcases disposeFound_spec rt f false b true with ⟨-, heq⟩ | ⟨c, c', -, hstep, heq⟩ <;> rw [heq]
      · exact .inl rfl
      · rcases fiberEffect_selects f (rt.setFiber f c') hstep with
          hcleared | ⟨n, o, g, hlabel, -⟩
        · exact hcleared q
        · contradiction
  case disposeScope s b =>
    cases h
    exact .inl (hsame (by rw [(requestScopeDisposal_only rt s b).eq]))
  case createScope =>
    obtain ⟨-, heq, -⟩ := createScope_spec h
    exact .inl (hsame (by rw [heq]))
  case install =>
    obtain ⟨p, heq, -⟩ := insertFiber_spec h
    exact .inl (hsame (by rw [heq]))
  case provide =>
    obtain ⟨c, rt₁, -, -, h₁, rfl⟩ := provide_spec h
    obtain ⟨d, -, -, -, rfl⟩ := registerEntry_spec h₁
    exact .inl (hsame rfl)
  case handle =>
    obtain ⟨c, rt₁, -, -, h₁, rfl⟩ := handle_spec h
    obtain ⟨d, -, -, -, rfl⟩ := registerEntry_spec h₁
    exact .inl (hsame rfl)
  case intercept =>
    obtain ⟨c, rt₁, -, h₁, rfl⟩ := intercept_spec h
    obtain ⟨d, -, -, -, rfl⟩ := registerEntry_spec h₁
    exact .inl (hsame rfl)
  case ownScope =>
    obtain ⟨rt₁, h₁, h⟩ := ownScope_spec h
    obtain ⟨-, heq, -⟩ := createScope_spec h₁
    obtain ⟨d, -, -, -, rfl⟩ := registerEntry_spec h
    exact .inl (hsame (show rt₁.selectors = rt.selectors by rw [heq]))
  case commitReload old staged staging target => exact .inr (.inr ⟨old, staged, staging, target, rfl⟩)
  case sweepFiber =>
    unfold sweepFiber at h
    split_ifs at h
    cases h
    exact .inl (hsame rfl)
  case sweepScope =>
    unfold sweepScope at h
    split at h <;> try contradiction
    split_ifs at h
    cases h
    exact .inl (hsame rfl)
  case beginShutdown =>
    cases h
    exact .inl (hsame rfl)

/-! ## Who stands for a plugin -/

theorem step_selects (ht : Topology rt) (h : rt.step l = some rt') : Selects rt l rt' := by
  rcases step_selectors h with hcleared | ⟨f, n, o, b, rfl⟩ | ⟨old, staged, staging, target, rfl⟩
  · exact .cleared hcleared
  · obtain ⟨c, a', c', hc, ha', hstep, rfl⟩ := fiberStep_spec h
    rcases fiberEffect_selects f (rt.setFiber f c') hstep with hcleared |
      ⟨n, o, b, rfl, hstarting, hactive, hselectors, hhandlers⟩
    · exact .cleared hcleared
    · obtain ⟨rfl, rfl, hlive, hstill, hgeneration⟩ := step_commit hstep hstarting hactive
      obtain ⟨-, hfree⟩ := answered_commit ha'
      obtain ⟨o', g', heq⟩ := commit_label ha'
      refine .published f n c c' hc ?_ ⟨o', g', congrArg _ heq⟩ hstarting hactive hlive hstill hgeneration
          hfree.symm
        ?_ hhandlers
      · rw [(fiberEffect_fibers _ _ hstep).1]
        exact Function.update_self ..
      · rw [hselectors]
        unfold switch
        rw [if_pos (show (rt.setFiber f c').selectors c.plugin = .NONE from hfree.symm)]
        rfl
  · rcases commitReload_cases ht h with heq | ⟨oldCell, c, hcut, heq⟩
    · exact .cleared fun p => .inl (by rw [heq.rest])
    · exact .cut old staged staging target oldCell c rfl hcut heq

theorem close_selectors {a : FiberLabel} {w : Bool} (f : FiberId) (rt : Runtime) (ha : a.Requests w)
    (hidle : c.inner.disposal.phase = .Idle) (htasks : c'.inner.disposal.phase = .Tasks)
    (hpos : 0 < c.generation) : (fiberEffect f c c' a rt).selectors c.plugin ≠ c.generation := by
  have hswitch : (rt.switch c.plugin c.generation .NONE).selectors c.plugin ≠ c.generation := by
    unfold switch
    split_ifs with hnamed
    · change Function.update rt.selectors c.plugin .NONE c.plugin ≠ c.generation
      rw [Function.update_self]
      exact Nat.ne_of_lt hpos
    · exact hnamed
  rcases ha with ⟨p, b, rfl⟩ | ⟨-, n, rfl⟩
  all_goals
    simp only [fiberEffect]
    rw [if_pos ⟨hidle, htasks⟩]
    exact hswitch

theorem answered_superseded {c : FiberCell} {a : FiberLabel}
    (h : rt.answered f c a = some .reloadSuperseded) : False := by
  have hkind := answered_kind h
  cases a <;> contradiction

theorem retires_clears (ht : Topology rt) (hn : Numbered rt) (h : rt.step l = some rt')
    (hc : rt.fibers f = some c) (hc' : rt'.fibers f = some c') (hlive : c.retired = false)
    (hretired : c'.retired = true) : rt'.selectors c.plugin ≠ c.generation := by
  have hunmoved : rt'.fibers f ≠ rt.fibers f := fun heq => by
    rw [hc', hc] at heq
    cases heq
    rw [hlive] at hretired
    contradiction
  obtain ⟨d, hd, hmove⟩ := (step_follows ht h).cells f c hc
  obtain rfl : d = c' := by simpa [hd] using hc'
  rcases hmove with rfl | ⟨a, ha, hacts⟩
  · rw [hlive] at hretired
    contradiction
  cases step_gated ha with
  | kept _ hsame =>
    rw [hsame, hlive] at hretired
    contradiction
  | renewed _ _ _ _ _ _ _ _ hfresh =>
    rw [hfresh] at hretired
    contradiction
  | closed w hasked hidle htasks =>
    cases hacts with
    | own hanswer =>
      obtain ⟨e, b, e', he, hb, hstep, rfl⟩ := fiberStep_spec h
      obtain rfl : c = e := by simpa [hc] using he
      obtain rfl : a = b := by simpa [hanswer] using hb
      obtain rfl : d = e' := by simpa [ha] using hstep
      exact close_selectors f _ hasked hidle htasks (hn.fibers f c hc).1
    | visited s p =>
      simp only [step] at h
      split at h <;> try contradiction
      obtain ⟨pc, -, h⟩ := Option.bind_eq_some_iff.mp h
      rcases stepScope_only h with honly | ⟨g, b, honly⟩
      · exact absurd (by rw [honly.eq]) hunmoved
      rw [honly.eq] at hunmoved hd ⊢
      rcases disposeFound_spec rt g false b true with ⟨-, heq⟩ | ⟨e, e', he, hstep, heq⟩ <;>
        rw [heq] at hunmoved hd ⊢
      · exact absurd rfl hunmoved
      obtain rfl : f = g := by
        by_contra hne
        refine hunmoved ?_
        rw [show _ = _ from (fiberEffect_fibers _ _ hstep).1]
        exact Function.update_of_ne hne ..
      obtain rfl : c = e := by simpa [hc] using he
      rw [show _ = _ from (fiberEffect_fibers _ _ hstep).1] at hd
      obtain rfl : e' = d := by simpa [setFiber] using hd
      exact close_selectors f _ (.inl ⟨b, true, rfl⟩) hidle htasks (hn.fibers f c hc).1
    | provided | handled | intercepted | owned | cut => rcases hasked with ⟨_, _, h⟩ | ⟨_, _, h⟩ <;> cases h
    | superseded => rcases hasked with ⟨_, _, h⟩ | ⟨_, _, h⟩ <;> cases h
  | superseded hlabel =>
    subst hlabel
    cases hacts with
    | own hanswer => exact (answered_superseded hanswer).elim
    | superseded staged staging target =>
      rcases commitReload_cases ht h with heq | ⟨oldCell, e, hcut, rfl⟩
      · exact absurd (by rw [heq.rest]) hunmoved
      obtain rfl : c = oldCell := by simpa [hc] using hcut.oldFiber
      have hother : e.generation ≠ c.generation := fun heq =>
        hcut.ne (hn.apart staged f e c hcut.stagedFiber hc (gateOf_eq hcut.plugin heq))
      change Function.update rt.selectors e.plugin e.generation c.plugin ≠ c.generation
      rw [hcut.plugin, Function.update_self]
      exact hother

/-- A selector names a Fiber that has not retired, and the handlers that are filed under the gate of
such a Fiber are in its ledger. -/
structure Tenured (rt : Runtime) : Prop where
  closed : ∀ f c, rt.fibers f = some c → c.Closed
  tenant : ∀ p, rt.selectors p ≠ .NONE → ∃ f c, rt.fibers f = some c ∧ c.plugin = p ∧
    c.generation = rt.selectors p ∧ c.retired = false
  owned : ∀ f c, rt.fibers f = some c → c.retired = false → ∀ id e, rt.handlers id = some e →
    e.gate = gateOf c → id ∈ c.inner.invocationHandlers

theorem tenured_new : Tenured .new where
  closed := fun f c h => by cases h
  tenant := fun p h => absurd rfl h
  owned := fun f c h => by cases h

theorem live_keeps {a : FiberLabel} (hsound : c.Sound) (hclosed : c.Closed)
    (hlive : c.retired = false) (h : c.step a = some c') :
    ∀ id ∈ c.inner.invocationHandlers, id ∈ c'.inner.invocationHandlers := by
  have hidle : c.inner.disposal.phase = .Idle := by
    by_contra hphase
    rw [hclosed hphase] at hlive
    contradiction
  have hworker : c.worker = none := by
    cases hw : c.worker with
    | none => rfl
    | some pc =>
      have hrunning := hsound.consistent.running pc hw
      rw [show c.control.phase = .Idle from hidle] at hrunning
      contradiction
  have hledger : ∀ x y : Ledger, Ledger.Own x y → ∀ id ∈ x.invocationHandlers,
      id ∈ y.invocationHandlers := by
    intro x y hown id hid
    cases hown with
    | registered entry =>
      cases entry with
      | invocationHandler n => exact List.mem_append_left _ hid
      | _ => exact hid
    | detached task => exact hid
  intro id hid
  rcases step_ledger hworker h with hsame | hown
  · have : c'.inner.invocationHandlers = c.inner.invocationHandlers :=
      congrArg Ledger.invocationHandlers hsame
    rwa [this]
  · exact hledger _ _ hown id hid

/-- What a Fiber that has not retired was before: the same Fiber with the same gate, unless it was
given its gate just now. -/
theorem live_before {rt rt' : Runtime} (ht : Topology rt)
    (hsound : ∀ f c, rt.fibers f = some c → c.Sound) (htenured : Tenured rt)
    (h : rt.step l = some rt') (hc' : rt'.fibers f = some c') (hlive : c'.retired = false) :
    (∃ c, rt.fibers f = some c ∧ c.retired = false ∧ gateOf c' = gateOf c ∧
      ∀ id ∈ c.inner.invocationHandlers, id ∈ c'.inner.invocationHandlers) ∨
    c'.generation = rt.nextGeneration c'.plugin := by
  cases step_provenance ht h hc' with
  | issued _ hgeneration => exact .inr hgeneration
  | kept c hc hmove hsame hbefore =>
    rcases hmove with rfl | ⟨a, ha, -⟩
    · exact .inl ⟨c', hc, hlive, rfl, fun _ hid => hid⟩
    · exact .inl ⟨c, hc, hbefore hlive, hsame,
        live_keeps (hsound f c hc) (htenured.closed f c hc) (hbefore hlive) ha⟩

theorem live_gate (ht : Topology rt) (htenured : Tenured rt) (h : rt.step l = some rt')
    (hc : rt.fibers f = some c) (hc' : rt'.fibers f = some c') (hlive : c.retired = false) :
    gateOf c' = gateOf c := by
  obtain ⟨d, hd, hmove⟩ := (step_follows ht h).cells f c hc
  obtain rfl : d = c' := by simpa [hd] using hc'
  rcases hmove with rfl | ⟨a, ha, -⟩
  · rfl
  refine gateOf_eq (step_same ha).plugin ?_
  cases step_gated ha with
  | kept hgeneration | superseded _ hgeneration | closed _ _ _ _ hgeneration => exact hgeneration
  | renewed n g _ _ hcomplete =>
    rw [htenured.closed f c hc (by rw [hcomplete]; decide)] at hlive
    contradiction

theorem CutFrom.live {old staged : FiberId} {staging target : ScopeId} {oldCell c : FiberCell}
    (h : CutFrom rt old staged staging target oldCell c) : c.retired = false :=
  live_of_staged h.gate

/-- A Fiber that has not retired is named as long as its selector is not cleared. -/
theorem tenant_step (ht : Topology rt) (hn : Numbered rt) (htenured : Tenured rt)
    (h : rt.step l = some rt') (p : PluginId) (hp : rt'.selectors p ≠ .NONE) :
    ∃ f c, rt'.fibers f = some c ∧ c.plugin = p ∧ c.generation = rt'.selectors p ∧
      c.retired = false := by
  -- a Fiber that was named and still is has neither retired nor got another gate
  have hstays : rt'.selectors p = rt.selectors p → ∃ f c, rt'.fibers f = some c ∧ c.plugin = p ∧
      c.generation = rt'.selectors p ∧ c.retired = false := by
    intro hsame
    rw [hsame] at hp
    obtain ⟨f, c, hc, hplugin, hgeneration, hlive⟩ := htenured.tenant p hp
    obtain ⟨c', hc', -⟩ := (step_follows ht h).cells f c hc
    have hstill : c'.retired = false := by
      by_contra hretired
      refine retires_clears ht hn h hc hc' hlive (by simpa using hretired) ?_
      rw [hplugin, hsame, hgeneration]
    have hgate := live_gate ht htenured h hc hc' hlive
    exact ⟨f, c', hc', (plugin_of_gateOf hgate).trans hplugin,
      (generation_of_gateOf hgate).trans (hgeneration.trans hsame.symm), hstill⟩
  cases step_selects ht h with
  | cleared hselectors =>
    rcases hselectors p with hsame | hnone
    · exact hstays hsame
    · exact absurd hnone hp
  | published f n c c' hc hc' _ _ _ hlive hstill hgeneration _ hselectors =>
    by_cases hplugin : p = c.plugin
    · subst hplugin
      refine ⟨f, c', hc', plugin_of_gateOf (live_gate ht htenured h hc hc' hlive), ?_, hstill⟩
      rw [hselectors, Function.update_self, hgeneration]
    · refine hstays ?_
      rw [hselectors, Function.update_of_ne hplugin]
  | cut old staged staging target oldCell c _ hcut hnow =>
    by_cases hplugin : p = c.plugin
    · subst hplugin
      refine ⟨staged, { c with inner := c.inner.cutover target }, ?_, rfl, ?_, hcut.live⟩
      · rw [hnow]
        simp [setFiber, cutOver, hcut.ne]
      · rw [hnow]
        exact (Function.update_self c.plugin _ rt.selectors).symm
    · refine hstays ?_
      rw [hnow]
      exact Function.update_of_ne hplugin ..

theorem tenured_step (ht : Topology rt) (hsound : ∀ f c, rt.fibers f = some c → c.Sound)
    (hn : Numbered rt) (htenured : Tenured rt) (h : rt.step l = some rt') : Tenured rt' where
  closed := fun f c' hc' => by
    cases hc : rt.fibers f with
    | none =>
      obtain ⟨-, -, p?, p, s, d, g, b, -, rfl⟩ := (step_follows ht h).fresh f c' hc' hc
      exact fun hphase => absurd rfl hphase
    | some c =>
      obtain ⟨d, hd, hmove⟩ := (step_follows ht h).cells f c hc
      obtain rfl : d = c' := by simpa [hd] using hc'
      rcases hmove with rfl | ⟨a, ha, -⟩
      · exact htenured.closed f d hc
      · exact closed_step (hsound f c hc).consistent (htenured.closed f c hc) ha
  tenant := tenant_step ht hn htenured h
  owned := fun f c' hc' hlive id e' he' hgate => by
    -- an entry of before was filed under a gate of before
    have hbefore : ∀ e, rt.handlers id = some e → e.gate = e'.gate →
        id ∈ c'.inner.invocationHandlers := by
      intro e he hsame
      rcases live_before ht hsound htenured h hc' hlive with ⟨c, hc, hlive, hkept, hledger⟩ | hnew
      · exact hledger id (htenured.owned f c hc hlive id e he (hsame.trans (hgate.trans hkept)))
      · have hbelow := (hn.entries id e he).2
        rw [hsame, hgate] at hbelow
        exact absurd (hnew ▸ hbelow) (lt_irrefl _)
    cases step_files ht h with
    | kept hentries => exact hbefore e' (hentries id e' he') rfl
    | handled g scope key d _ hd _ hhandlers _ _ hnow =>
      rw [hhandlers] at he'
      by_cases hid : id = rt.nextHandler
      · subst hid
        rw [Function.update_self] at he'
        cases he'
        -- the new entry is in the ledger of the Fiber that has this gate
        have hg : gateOf c' = gateOf { d with
            inner := FiberCell.registered (.invocationHandler rt.nextHandler) d.inner } := hgate.symm
        obtain rfl := (numbered_step ht hn h).apart f g c' _ hc' hnow hg
        obtain rfl := Option.some.inj (hnow.symm.trans hc')
        simp [FiberCell.registered]
      · rw [Function.update_of_ne hid] at he'
        exact hbefore e' he' rfl
    | cut old staged staging target oldCell c _ _ hnow =>
      subst hnow
      simp only [setFiber, cutOver] at he'
      split_ifs at he'
      · obtain ⟨e, he, rfl⟩ := Option.map_eq_some_iff.mp he'
        exact hbefore e he rfl
      · exact hbefore e' he' rfl

end Runtime

end Cordis
