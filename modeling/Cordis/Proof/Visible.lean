import Cordis.Proof.Tenancy

/-!
# What can be seen is in a ledger

Registries keep what a Fiber has registered, under its gate; the Fiber keeps it in its ledgers, for its disposal.
As long as the gate is open, what is filed under it is in the ledgers of the Fiber that has it.
-/

namespace Cordis

open Machine

variable {c c' : FiberCell} {f : FiberId}

/-- What is in the ledgers of `c` stays in those of `c'`. -/
structure FiberCell.Grows (c c' : FiberCell) : Prop where
  handlers : ∀ id ∈ c.inner.handlers, id ∈ c'.inner.handlers
  middleware : ∀ id ∈ c.inner.invocationMiddleware, id ∈ c'.inner.invocationMiddleware
  provided : ∀ k ∈ c.inner.provided, k ∈ c'.inner.provided

theorem grows_step {a : FiberLabel} (hsound : c.Sound) (hclosed : c.Closed) (hlive : c.retired = false)
    (h : c.step a = some c') : c.Grows c' := by
  have hkept : ∀ y : Ledger, c'.ledger = y → (∀ id ∈ c.ledger.handlers, id ∈ y.handlers) →
      (∀ id ∈ c.ledger.invocationMiddleware, id ∈ y.invocationMiddleware) →
      (∀ k ∈ c.ledger.provided, k ∈ y.provided) → c.Grows c' := by
    rintro _ rfl hhandlers hmiddleware hprovided
    exact ⟨hhandlers, hmiddleware, hprovided⟩
  rcases step_ledger (live_idle hsound hclosed hlive).2 h with hsame | hown
  · exact hkept _ hsame (fun _ h => h) (fun _ h => h) fun _ h => h
  generalize hy : c'.ledger = y at hown
  cases hown with
  | detached task => exact hkept _ hy (fun _ h => h) (fun _ h => h) fun _ h => h
  | registered entry =>
    cases entry
    case handler => exact hkept _ hy (fun _ h => List.mem_append_left _ h) (fun _ h => h) fun _ h => h
    case invocationMiddleware =>
      exact hkept _ hy (fun _ h => h) (fun _ h => List.mem_append_left _ h) fun _ h => h
    case provided => exact hkept _ hy (fun _ h => h) (fun _ h => h) fun _ h => List.mem_append_left _ h
    all_goals exact hkept _ hy (fun _ h => h) (fun _ h => h) fun _ h => h

namespace Runtime

variable {rt rt' : Runtime} {l : RuntimeLabel} {g : Gate} {P : FiberId → FiberCell → Prop}

/-- Gate `g` has been handed out, and the Fiber that has it satisfies `P` as long as the gate is open. -/
structure Backed (rt : Runtime) (g : Gate) (P : FiberId → FiberCell → Prop) : Prop where
  positive : 0 < g.generation
  issued : g.generation < rt.nextGeneration g.plugin
  holds : ∀ f c, rt.fibers f = some c → c.retired = false → gateOf c = g → P f c

theorem backed_step (ht : Topology rt) (hsteady : ∀ f c, rt.fibers f = some c → c.Steady)
    (hP : ∀ f c c', c.Grows c' → P f c → P f c') (hb : Backed rt g P) (h : rt.step l = some rt') :
    Backed rt' g P where
  positive := hb.positive
  issued := hb.issued.trans_le (step_counts ht h g.plugin)
  holds := fun f c' hc' hlive hgate => by
    cases step_provenance ht h hc' with
    | issued _ hgeneration =>
      have hbelow := hb.issued
      rw [← hgate] at hbelow
      exact absurd (hgeneration ▸ hbelow) (Nat.lt_irrefl _)
    | kept c was move same live =>
      have hwas := hb.holds f c was (live hlive) (same.symm.trans hgate)
      rcases move with rfl | ⟨a, ha, -⟩
      · exact hwas
      · exact hP f c c' (grows_step (hsteady f c was).sound (hsteady f c was).closed (live hlive) ha) hwas

theorem backed_new (hn : Numbered rt) (hc : rt.fibers f = some c) (hP : P f c) : Backed rt (gateOf c) P where
  positive := (hn.fibers f c hc).1
  issued := (hn.fibers f c hc).2
  holds := fun g d hd _ hgate => by
    obtain rfl := hn.apart g f d c hd hc hgate
    obtain rfl := Option.some.inj (hc.symm.trans hd)
    exact hP

/-- A gate that can be seen is that of the Fiber that stands for the plugin. -/
theorem Backed.reigns (hr : Reigned rt) (hb : Backed rt g P) (hshown : rt.visible g = true) :
    ∃ f c, Reigns rt g.plugin f c ∧ P f c := by
  have hnamed : rt.selectors g.plugin = g.generation := by simpa [visible] using hshown
  obtain ⟨f, c, hc⟩ := hr g.plugin (hnamed ▸ Nat.ne_of_gt hb.positive)
  refine ⟨f, c, hc, hb.holds f c hc.found hc.live ?_⟩
  exact congrArg₂ Gate.mk hc.plugin (hc.generation.trans hnamed)

/-! ### Middleware -/

/-- What a step does to the middleware of the invocation registry. -/
inductive Intercepts (rt rt' : Runtime) : Prop
  | kept (entries : ∀ id e', rt'.middleware id = some e' → ∃ e, rt.middleware id = some e ∧ e.gate = e'.gate)
  | intercepted (f : FiberId) (c' : FiberCell) (e : MiddlewareEntry) (now : rt'.fibers f = some c')
      (gate : e.gate = gateOf c') (filed : rt.nextMiddleware ∈ c'.inner.invocationMiddleware)
      (middleware : rt'.middleware = Function.update rt.middleware rt.nextMiddleware (some e))

theorem fiberEffect_middleware {a : FiberLabel} (f : FiberId) (rt : Runtime) (hstep : c.step a = some c') (id : Nat)
    (e : MiddlewareEntry) (h : (fiberEffect f c c' a rt).middleware id = some e) :
    rt.middleware id = some e := by
  have heffect := section_effect f rt hstep
  generalize fiberEffect f c c' a rt = rt₁ at heffect h
  cases heffect with
  | closed | published =>
    unfold switch at h
    split_ifs at h <;> exact h
  | unregistered =>
    simp only at h
    split_ifs at h
    exact h
  | none | numbered | indexed | withdrawn | forgotten => exact h

theorem step_intercepts (ht : Topology rt) (h : rt.step l = some rt') : Intercepts rt rt' := by
  have hsame : rt'.middleware = rt.middleware → Intercepts rt rt' :=
    fun heq => .kept fun id e he => ⟨e, heq ▸ he, rfl⟩
  cases l <;> simp only [step] at h
  case fiber f a =>
    obtain ⟨c, a', c', -, -, hstep, rfl⟩ := fiberStep_spec h
    exact .kept fun id e he => ⟨e, fiberEffect_middleware f (rt.setFiber f c') hstep id e he, rfl⟩
  case scope s a =>
    split at h <;> try contradiction
    obtain ⟨pc, -, h⟩ := Option.bind_eq_some_iff.mp h
    rcases stepScope_only h with honly | ⟨f, b, honly⟩
    · exact hsame (by rw [honly.eq])
    refine .kept fun id e he => ⟨e, ?_, rfl⟩
    rw [honly.eq] at he
    rcases disposeFound_spec rt f false b true with ⟨-, heq⟩ | ⟨c, c', -, hstep, heq⟩ <;> rw [heq] at he
    · exact he
    · exact fiberEffect_middleware f (rt.setFiber f c') hstep id e he
  case disposeScope s b =>
    cases h
    exact hsame (by rw [(requestScopeDisposal_only rt s b).eq])
  case createScope =>
    obtain ⟨-, heq, -⟩ := createScope_spec h
    exact hsame (by rw [heq])
  case install =>
    obtain ⟨q, heq, -⟩ := insertFiber_spec h
    exact hsame (by rw [heq])
  case provide =>
    obtain ⟨c, rt₁, -, -, h₁, rfl⟩ := provide_spec h
    obtain ⟨d, -, -, -, rfl⟩ := registerEntry_spec h₁
    exact hsame rfl
  case handle =>
    obtain ⟨c, rt₁, -, -, h₁, rfl⟩ := handle_spec h
    obtain ⟨d, -, -, -, rfl⟩ := registerEntry_spec h₁
    exact hsame rfl
  case intercept f scope key =>
    obtain ⟨c, rt₁, hc, h₁, rfl⟩ := intercept_spec h
    obtain ⟨d, hd, -, -, rfl⟩ := registerEntry_spec h₁
    obtain rfl := Option.some.inj (hc.symm.trans hd)
    exact .intercepted f _ _ (Function.update_self ..) rfl
      (List.mem_append_right _ (List.mem_singleton.mpr rfl)) rfl
  case ownScope =>
    obtain ⟨rt₁, h₁, h⟩ := ownScope_spec h
    obtain ⟨-, heq, -⟩ := createScope_spec h₁
    obtain ⟨d, -, -, -, rfl⟩ := registerEntry_spec h
    exact hsame (show rt₁.middleware = rt.middleware by rw [heq])
  case commitReload old staged staging target =>
    rcases commitReload_cases ht h with heq | ⟨oldCell, c, hcut, rfl⟩
    · exact hsame (by rw [heq.rest])
    · refine .kept fun id e' he' => ?_
      simp only [setFiber, cutOver] at he'
      split_ifs at he'
      · obtain ⟨e, he, rfl⟩ := Option.map_eq_some_iff.mp he'
        exact ⟨e, he, rfl⟩
      · exact ⟨e', he', rfl⟩
  case sweepFiber =>
    unfold sweepFiber at h
    split_ifs at h
    cases h
    exact hsame rfl
  case sweepScope =>
    unfold sweepScope at h
    split at h <;> try contradiction
    split_ifs at h
    cases h
    exact hsame rfl
  case beginShutdown =>
    cases h
    exact hsame rfl

end Runtime

namespace Contexts

variable {w w' : Contexts} {l : ContextLabel}

/-- What is filed in a registry is in the ledger of the Fiber that has the gate, as long as the gate is open. -/
structure Booked (w : Contexts) : Prop where
  services : ∀ s k e, w.runtime.services s k = some e →
    w.runtime.Backed e.gate fun f c => e.owner = f ∧ k ∈ c.inner.provided
  middleware : ∀ id e, w.runtime.middleware id = some e →
    w.runtime.Backed e.gate fun _ c => id ∈ c.inner.invocationMiddleware
  events : ∀ id g, w.events id = some g → w.runtime.Backed g fun _ c => id ∈ c.inner.handlers

theorem booked_new : Booked .new where
  services := fun s k e h => by cases h
  middleware := fun id e h => by cases h
  events := fun id g h => by cases h

theorem backed_turn (hw : Settled w) {g : Gate} {P : FiberId → FiberCell → Prop}
    (hP : ∀ f c c', c.Grows c' → P f c → P f c') (hb : w.runtime.Backed g P) (h : w.step l = some w') :
    w'.runtime.Backed g P := by
  rcases step_runs h with heq | ⟨rt₀, a, hruns⟩
  · exact heq ▸ hb
  · obtain ⟨ht, -, hsteady, -⟩ := hw.frees hruns.frees
    refine Runtime.backed_step ht hsteady hP ?_ hruns.step
    rw [hruns.frees.rest]
    exact ⟨hb.positive, hb.issued, hb.holds⟩

theorem stocked (ht : Runtime.Topology w.runtime) (h : w.step l = some w') {s : ScopeId} {k : ServiceSymbol}
    {e' : ServiceEntry} (he' : w'.runtime.services s k = some e') :
    (∃ s₀ e, w.runtime.services s₀ k = some e ∧ e.owner = e'.owner ∧ e.gate = e'.gate) ∨
      ∃ c', w'.runtime.fibers e'.owner = some c' ∧ e'.gate = Runtime.gateOf c' ∧ k ∈ c'.inner.provided := by
  cases step_stocks ht h with
  | idle same => exact .inl ⟨s, e', same ▸ he', rfl, rfl⟩
  | runs a step drives stocks =>
    refine .inl ?_
    cases stocks with
    | kept services => exact ⟨s, e', services ▸ he', rfl, rfl⟩
    | withdrawn g c c' _ _ _ _ _ _ _ services =>
      rw [services] at he'
      split_ifs at he'
      exact ⟨s, e', he', rfl, rfl⟩
    | cut old staged staging target oldCell d _ found replaced now =>
      rw [now] at he'
      change Runtime.movedServices w.runtime.services staging target d.inner.provided s k = some e' at he'
      unfold Runtime.movedServices at he'
      split_ifs at he'
      · obtain ⟨e, he, rfl⟩ := Option.map_eq_some_iff.mp he'
        exact ⟨staging, e, he, rfl, rfl⟩
      · exact ⟨s, e', he', rfl, rfl⟩
  | inserted i f gate scope key c label call was bound accepts now =>
    rw [now] at he' ⊢
    simp only [Runtime.insertService, Runtime.setFiber] at he' ⊢
    split_ifs at he' with hslot
    · cases he'
      obtain ⟨-, rfl⟩ := hslot
      exact .inr ⟨_, Function.update_self .., rfl, List.mem_append_right _ (List.mem_singleton.mpr rfl)⟩
    · exact .inl ⟨s, e', he', rfl, rfl⟩

theorem step_events (h : w.step l = some w') :
    (∀ id g, w'.events id = some g → w.events id = some g) ∨
      ∃ i call, w.calls i = some call ∧ call.stage = .leased ∧
        w.runtime.step (.fiber call.fiber (.register (.handler w.nextEvent))) = some w'.runtime ∧
        w'.events = Function.update w.events w.nextEvent (some call.gate) := by
  have hsame : w'.events = w.events → (∀ id g, w'.events id = some g → w.events id = some g) ∨
      ∃ i call, w.calls i = some call ∧ call.stage = .leased ∧
        w.runtime.step (.fiber call.fiber (.register (.handler w.nextEvent))) = some w'.runtime ∧
        w'.events = Function.update w.events w.nextEvent (some call.gate) :=
    fun heq => .inl fun id g hid => heq ▸ hid
  have hregister : ∀ {i : Nat} {a : FiberId → ScopeId → RuntimeLabel} {v : Contexts} {call : ContextCall},
      w.register i a = some (v, call) → v.events = w.events :=
    fun h₁ => by rw [(register_spec h₁).2.2.2]
  cases l <;> simp only [step] at h
  case capture f =>
    split at h <;> try contradiction
    split_ifs at h
    cases h
    exact hsame rfl
  case runtime a =>
    split_ifs at h
    obtain ⟨rt, -, rfl⟩ := Option.map_eq_some_iff.mp h
    refine .inl fun id g hid => ?_
    simp only [unsubscribed] at hid
    split at hid
    · split_ifs at hid
      exact hid
    · exact hid
  case lease i =>
    obtain ⟨call, -, h⟩ := Option.bind_eq_some_iff.mp h
    split at h <;> try contradiction
    split_ifs at h
    · split at h
      · rename_i heq
        cases h
        exact hsame (by rw [(fiberSection_spec heq).2]; rfl)
      · cases h
        exact hsame rfl
    · cases h
      exact hsame rfl
  case check i key =>
    obtain ⟨call, -, h⟩ := Option.bind_eq_some_iff.mp h
    split_ifs at h
    cases h
    exact hsame rfl
  case insert i =>
    split at h <;> try contradiction
    obtain ⟨rt, -, rfl⟩ := Option.map_eq_some_iff.mp h
    exact hsame rfl
  case finish i =>
    split at h <;> try contradiction
    split_ifs at h
    · cases h
      exact hsame rfl
    · obtain ⟨w₁, h₁, rfl⟩ := Option.map_eq_some_iff.mp h
      exact hsame (by rw [(fiberSection_spec h₁).2]; rfl)
  case taskEnded id =>
    split_ifs at h
    cases h
    exact hsame rfl
  case on i =>
    obtain ⟨⟨w₁, call⟩, h₁, rfl⟩ := Option.map_eq_some_iff.mp h
    obtain ⟨hcall, hstage, hstep, hw₁⟩ := register_spec h₁
    refine .inr ⟨i, call, hcall, hstage, hstep, ?_⟩
    rw [hw₁]
  all_goals
    obtain ⟨⟨w₁, call⟩, h₁, rfl⟩ := Option.map_eq_some_iff.mp h
    have hevents := hregister h₁
    exact hsame hevents

theorem subscribed (hw : Settled w) {i : Nat} {call : ContextCall} {id : Nat} {rt : Runtime}
    (hcall : w.calls i = some call) (hstage : call.stage = .leased)
    (h : w.runtime.step (.fiber call.fiber (.register (.handler id))) = some rt) :
    ∃ c', rt.fibers call.fiber = some c' ∧ Runtime.gateOf c' = call.gate ∧ id ∈ c'.inner.handlers := by
  obtain ⟨c, hc, hgate⟩ := hw.standing.current i call hcall (by simp [hstage])
  obtain ⟨d, b, d', hd, hanswer, hstep, rfl⟩ := Runtime.fiberStep_spec h
  obtain rfl := Option.some.inj (hc.symm.trans hd)
  simp only [Runtime.answered] at hanswer
  split_ifs at hanswer
  cases hanswer
  have hfibers := (Runtime.fiberEffect_fibers call.fiber (w.runtime.setFiber call.fiber d') hstep).1
  simp only [FiberCell.step] at hstep
  split_ifs at hstep
  cases hstep
  refine ⟨{ c with inner := FiberCell.registered (.handler id) c.inner }, ?_, hgate, ?_⟩
  · rw [hfibers]
    exact Function.update_self ..
  · exact List.mem_append_right c.inner.handlers (List.mem_singleton.mpr rfl)

theorem booked_step (hw : Settled w) (ha : Booked w) (h : w.step l = some w') : Booked w' := by
  have hnumbered := (standing_step hw.standing h).numbered
  refine ⟨fun s k e' he' => ?_, fun id e' he' => ?_, fun id g hg => ?_⟩
  · rcases stocked hw.standing.topology h he' with ⟨s₀, e, he, howner, hgate⟩ | ⟨c', hc', hgate, hk⟩
    · rw [← howner, ← hgate]
      exact backed_turn hw (fun f c c' hgrows hP => ⟨hP.1, hgrows.provided k hP.2⟩) (ha.services s₀ k e he) h
    · rw [hgate]
      exact Runtime.backed_new hnumbered hc' ⟨rfl, hk⟩
  · have hbefore : ∀ e, w.runtime.middleware id = some e → e.gate = e'.gate →
        w'.runtime.Backed e'.gate fun _ c => id ∈ c.inner.invocationMiddleware := by
      intro e he hgate
      rw [← hgate]
      exact backed_turn hw (fun f c c' hgrows => hgrows.middleware id) (ha.middleware id e he) h
    rcases step_runs h with heq | ⟨rt₀, a, hruns⟩
    · exact hbefore e' (heq ▸ he') rfl
    have hmiddleware : rt₀.middleware = w.runtime.middleware := by rw [hruns.frees.rest]
    cases Runtime.step_intercepts (hw.frees hruns.frees).1 hruns.step with
    | kept entries =>
      obtain ⟨e, he, hgate⟩ := entries id e' he'
      exact hbefore e (hmiddleware ▸ he) hgate
    | intercepted f c' e now gate filed middleware =>
      rw [middleware] at he'
      by_cases hid : id = rt₀.nextMiddleware
      · subst hid
        rw [Function.update_self] at he'
        cases he'
        rw [gate]
        exact Runtime.backed_new hnumbered now filed
      · rw [Function.update_of_ne hid, hmiddleware] at he'
        exact hbefore e' he' rfl
  · have hbefore : w.events id = some g → w'.runtime.Backed g fun _ c => id ∈ c.inner.handlers := fun hid =>
      backed_turn hw (fun f c c' hgrows => hgrows.handlers id) (ha.events id g hid) h
    rcases step_events h with hkept | ⟨i, call, hcall, hstage, hstep, hevents⟩
    · exact hbefore (hkept id g hg)
    · rw [hevents] at hg
      by_cases hid : id = w.nextEvent
      · subst hid
        rw [Function.update_self] at hg
        cases hg
        obtain ⟨c', hc', hgate, hfiled⟩ := subscribed hw hcall hstage hstep
        rw [← hgate]
        exact Runtime.backed_new hnumbered hc' hfiled
      · rw [Function.update_of_ne hid] at hg
        exact hbefore hg

theorem booked_reach (h : Reach step anyStep .new w) : Settled w ∧ Booked w :=
  h.invariant (I := fun w => Settled w ∧ Booked w) ⟨settled_new, booked_new⟩
    fun _ _ _ hw _ hs => ⟨settled_step hw.1 hs, booked_step hw.1 hw.2 hs⟩

/-- **Whatever can be seen is in the ledger of a Fiber that stands for its plugin**: a service that lookups find, a
handler or middleware that invocations find and a subscription that dispatches call belong to a committed Fiber with
an open gate, and its disposal will come to them. -/
theorem visible_filed (h : Reach step anyStep .new w) :
    (∀ s k e, w.runtime.services s k = some e → w.runtime.visible e.gate = true →
      ∃ c, Runtime.Reigns w.runtime e.gate.plugin e.owner c ∧ k ∈ c.inner.provided) ∧
    (∀ id e, w.runtime.handlers id = some e → w.runtime.visible e.gate = true →
      ∃ f c, Runtime.Reigns w.runtime e.gate.plugin f c ∧ id ∈ c.inner.invocationHandlers) ∧
    (∀ id e, w.runtime.middleware id = some e → w.runtime.visible e.gate = true →
      ∃ f c, Runtime.Reigns w.runtime e.gate.plugin f c ∧ id ∈ c.inner.invocationMiddleware) ∧
    ∀ id g, w.events id = some g → w.runtime.visible g = true →
      ∃ f c, Runtime.Reigns w.runtime g.plugin f c ∧ id ∈ c.inner.handlers := by
  obtain ⟨hw, ha⟩ := booked_reach h
  refine ⟨fun s k e he hshown => ?_, fun id e he hshown => ?_, fun id e he hshown => ?_, fun id g hg hshown => ?_⟩
  · obtain ⟨f, c, hc, rfl, hk⟩ := (ha.services s k e he).reigns hw.reigned hshown
    exact ⟨c, hc, hk⟩
  · have hentry := hw.standing.numbered.entries id e he
    refine Runtime.Backed.reigns (P := fun _ c => id ∈ c.inner.invocationHandlers) hw.reigned
      ⟨hentry.1, hentry.2, fun f c hc hlive hgate => ?_⟩ hshown
    exact hw.tenured.owned f c hc hlive id e he hgate.symm
  · exact (ha.middleware id e he).reigns hw.reigned hshown
  · exact (ha.events id g hg).reigns hw.reigned hshown

theorem visible_filed_committed :
    ∃ w, Reach step anyStep .new w ∧ ∃ f c, Runtime.Reigns w.runtime 0 f c ∧ 0 ∈ c.inner.handlers := by
  have hrun : ((run step .new servingRun).any fun w => w.events 0 = some ⟨0, 1⟩ ∧
      w.runtime.visible ⟨0, 1⟩ = true) = true := by
    decide +kernel
  obtain ⟨w, hw, hshown⟩ := (Option.any_eq_true _ _).mp hrun
  obtain ⟨hsubscribed, hvisible⟩ := of_decide_eq_true hshown
  obtain ⟨-, -, -, hevents⟩ := visible_filed (reach_of_run hw)
  exact ⟨w, reach_of_run hw, hevents 0 ⟨0, 1⟩ hsubscribed hvisible⟩

end Contexts

end Cordis
