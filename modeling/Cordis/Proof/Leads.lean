import Cordis.Proof.Calls

/-!
# What a Context section does to a Fiber

A section leaves the cell of a Fiber as it is, or makes one section of the Fiber, and the label tells which.
-/

namespace Cordis.Contexts

variable {w w' : Contexts} {f : FiberId} {c c' : FiberCell} {l : ContextLabel}

/-- The section that the label makes on Fiber `f`. -/
inductive Leads (w : Contexts) (f : FiberId) (c : FiberCell) : ContextLabel → FiberLabel → Prop
  | runtime {a : RuntimeLabel} {b : FiberLabel} (ready : w.ready a = true)
      (acts : Runtime.Acts w.runtime f c a b) : Leads w f c (.runtime a) b
  | leased (i : Nat) : Leads w f c (.lease i) .acquireLease
  | returned (i : Nat) : Leads w f c (.finish i) .dropLease
  | effect (i id : Nat) (call : ContextCall) (was : w.calls i = some call) (fiber : call.fiber = f) :
      Leads w f c (.effect i id) (.register (.effect id))
  | registered {l : ContextLabel} {entry : Registration} (held : ∃ i, w.holds f i = true)
      (other : ∀ id, entry ≠ .effect id) : Leads w f c l (.register entry)

theorem leads_register {i : Nat} {a : FiberId → ScopeId → RuntimeLabel} {v : Contexts} {call : ContextCall}
    (ht : Runtime.Topology w.runtime) (h : w.register i a = some (v, call))
    (hc : w.runtime.fibers f = some c)
    (hacts : ∀ s b, Runtime.Acts w.runtime f c (a call.fiber s) b →
      f = call.fiber ∧ ∃ entry, b = .register entry ∧ ∀ id, entry ≠ .effect id) :
    ∃ c', v.runtime.fibers f = some c' ∧ (c' = c ∨ ∃ b, c.step b = some c' ∧ Leads w f c l b) := by
  obtain ⟨hcall, hstage, hstep, -⟩ := register_spec h
  obtain ⟨c', hc', hcase⟩ := (Runtime.step_follows ht hstep).cells f c hc
  refine ⟨c', hc', hcase.imp id fun ⟨b, hb, hb'⟩ => ?_⟩
  obtain ⟨rfl, entry, rfl, hother⟩ := hacts _ b hb'
  refine ⟨_, hb, .registered ⟨i, holds_iff.mpr ⟨call, hcall, rfl, ?_⟩⟩ hother⟩
  rw [hstage]
  nofun

theorem acts_register_of_fiber {rt : Runtime} {g : FiberId} {entry : Registration} {b : FiberLabel}
    (h : Runtime.Acts rt f c (.fiber g (.register entry)) b) : f = g ∧ b = .register entry := by
  cases h with
  | own answer =>
    refine ⟨rfl, ?_⟩
    cases entry <;> simp only [Runtime.answered] at answer <;> try contradiction
    all_goals
      split_ifs at answer
      cases answer
      rfl

theorem acts_lease {rt : Runtime} {g : FiberId} {a b : FiberLabel}
    (h : Runtime.Acts rt f c (.fiber g a) b) (ha : a = .acquireLease ∨ a = .dropLease) :
    f = g ∧ b = a := by
  cases h with
  | own answer => rcases ha with rfl | rfl <;> cases answer <;> exact ⟨rfl, rfl⟩

theorem step_leads (ht : Runtime.Topology w.runtime) (h : w.step l = some w')
    (hc : w.runtime.fibers f = some c) :
    ∃ c', w'.runtime.fibers f = some c' ∧ (c' = c ∨ ∃ b, c.step b = some c' ∧ Leads w f c l b) := by
  have hstay : w'.runtime = w.runtime →
      ∃ c', w'.runtime.fibers f = some c' ∧ (c' = c ∨ ∃ b, c.step b = some c' ∧ Leads w f c l b) := by
    intro heq
    rw [heq]
    exact ⟨c, hc, .inl rfl⟩
  cases l <;> simp only [step] at h
  case runtime a =>
    split_ifs at h with hready
    obtain ⟨rt, hrt, rfl⟩ := Option.map_eq_some_iff.mp h
    obtain ⟨c', hc', hcase⟩ := (Runtime.step_follows ht hrt).cells f c hc
    refine ⟨c', hc', hcase.imp_right ?_⟩
    rintro ⟨b, hb, hacts⟩
    exact ⟨b, hb, .runtime hready hacts⟩
  case capture g =>
    split at h <;> try contradiction
    split_ifs at h
    cases h
    exact hstay rfl
  case lease i =>
    obtain ⟨call, hcall, h⟩ := Option.bind_eq_some_iff.mp h
    split at h <;> try contradiction
    split_ifs at h
    · split at h
      · rename_i heq
        obtain ⟨hstep, -⟩ := fiberSection_spec heq
        cases h
        obtain ⟨c', hc', hcase⟩ := (Runtime.step_follows ht hstep).cells f c hc
        refine ⟨c', hc', hcase.imp_right ?_⟩
        rintro ⟨b, hb, hacts⟩
        obtain ⟨-, rfl⟩ := acts_lease hacts (.inl rfl)
        exact ⟨_, hb, .leased i⟩
      · cases h
        exact hstay rfl
    · cases h
      exact hstay rfl
  case check i key =>
    obtain ⟨call, -, h⟩ := Option.bind_eq_some_iff.mp h
    split_ifs at h
    cases h
    exact hstay rfl
  case insert i =>
    split at h <;> try contradiction
    rename_i g gate scope key hwas
    obtain ⟨rt, hrt, rfl⟩ := Option.map_eq_some_iff.mp h
    rw [Runtime.provideFound_eq] at hrt
    have hfrees := Runtime.frees_take w.runtime scope key
    have htake : (w.runtime.takeService scope key).1.fibers = w.runtime.fibers :=
      by rw [hfrees.rest]
    obtain ⟨c', hc', hcase⟩ := (Runtime.step_follows (l := .provide g scope key)
      (Runtime.topology_tame ht hfrees.tame) hrt).cells f c (htake ▸ hc)
    refine ⟨c', hc', hcase.imp_right ?_⟩
    rintro ⟨b, hb, hacts⟩
    refine ⟨b, hb, ?_⟩
    cases hacts
    exact .registered ⟨i, holds_iff.mpr ⟨_, hwas, rfl, by simp⟩⟩ (by simp)
  case effect i x =>
    obtain ⟨⟨w₁, call⟩, h₁, rfl⟩ := Option.map_eq_some_iff.mp h
    obtain ⟨hcall, -, hstep, -⟩ := register_spec h₁
    obtain ⟨c', hc', hcase⟩ := (Runtime.step_follows ht hstep).cells f c hc
    refine ⟨c', hc', hcase.imp_right ?_⟩
    rintro ⟨b, hb, hacts⟩
    obtain ⟨hf, rfl⟩ := acts_register_of_fiber hacts
    exact ⟨_, hb, .effect i x call hcall hf.symm⟩
  case on i | spawn i =>
    obtain ⟨⟨w₁, call⟩, h₁, rfl⟩ := Option.map_eq_some_iff.mp h
    refine leads_register (v := w₁) ht h₁ hc fun s b hacts => ?_
    obtain ⟨hf, hb⟩ := acts_register_of_fiber hacts
    exact ⟨hf, _, hb, by simp⟩
  case handle i key | intercept i key | createScope i =>
    obtain ⟨⟨w₁, call⟩, h₁, rfl⟩ := Option.map_eq_some_iff.mp h
    refine leads_register ht h₁ hc fun s b hacts => ?_
    cases hacts
    exact ⟨rfl, _, rfl, by simp⟩
  case finish i =>
    split at h <;> try contradiction
    rename_i call hwas
    split_ifs at h with hstage
    · cases h
      exact hstay rfl
    · obtain ⟨w₁, h₁, rfl⟩ := Option.map_eq_some_iff.mp h
      obtain ⟨c', hc', hcase⟩ := (Runtime.step_follows ht (fiberSection_spec h₁).1).cells f c hc
      refine ⟨c', hc', hcase.imp_right ?_⟩
      rintro ⟨b, hb, hacts⟩
      obtain ⟨-, rfl⟩ := acts_lease hacts (.inr rfl)
      exact ⟨_, hb, .returned i⟩
  case taskEnded id =>
    split_ifs at h
    cases h
    exact hstay rfl

theorem step_fiber_cell {rt rt' : Runtime} {a : FiberLabel} (hc : rt.fibers f = some c)
    (hc' : rt'.fibers f = some c') (ha : ∀ b, rt.answered f c a = some b → b = a)
    (h : rt.step (.fiber f a) = some rt') : c.step a = some c' := by
  obtain ⟨d, b, d', hd, hanswer, hstep, rfl⟩ := Runtime.fiberStep_spec h
  rw [hc] at hd
  cases hd
  obtain rfl := ha b hanswer
  rw [(Runtime.fiberEffect_fibers _ _ hstep).1] at hc'
  have hself : (rt.setFiber f d').fibers f = some d' := Function.update_self ..
  rw [hself] at hc'
  cases hc'
  exact hstep

theorem leads_begin {n : Nat} {g : GenerationId}
    (h : Leads w f c l (.activationBegin n true (.ok g))) :
    (∃ b x, l = .runtime (.fiber f (.activationBegin n b x))) ∧ g = w.runtime.nextGeneration c.plugin := by
  cases h with
  | runtime ready acts =>
    cases acts with
    | own answer =>
      obtain ⟨⟨b, x, rfl⟩, -, hg⟩ := Runtime.answered_begin answer
      exact ⟨⟨b, x, rfl⟩, hg⟩

theorem gate_cases (hcase : c' = c ∨ ∃ b, c.step b = some c' ∧ Leads w f c l b) :
    Runtime.gateOf c' = Runtime.gateOf c ∨ c.inner.disposal.phase = .Complete ∧
      c'.generation = w.runtime.nextGeneration c'.plugin ∧
        ∃ n b x, l = .runtime (.fiber f (.activationBegin n b x)) := by
  rcases hcase with rfl | ⟨b, hb, hleads⟩
  · exact .inl rfl
  · cases step_gated hb with
    | kept generation | closed _ _ _ _ generation | superseded _ generation =>
      exact .inl (Runtime.gateOf_eq (step_same hb).plugin generation)
    | renewed n g label _ complete generation =>
      subst label
      obtain ⟨⟨b, x, hl⟩, hg⟩ := leads_begin hleads
      refine .inr ⟨complete, ?_, n, b, x, hl⟩
      rw [generation, hg, (step_same hb).plugin]

theorem step_generations (ht : Runtime.Topology w.runtime) (h : w.step l = some w') (p : PluginId) :
    w.runtime.nextGeneration p ≤ w'.runtime.nextGeneration p := by
  rcases step_runs h with hsame | ⟨rt₀, a, hruns⟩
  · rw [hsame]
  · have hcounts := Runtime.step_counts (Runtime.topology_tame ht hruns.frees.tame) hruns.step p
    rwa [show rt₀.nextGeneration = w.runtime.nextGeneration by rw [hruns.frees.rest]] at hcounts

end Cordis.Contexts
