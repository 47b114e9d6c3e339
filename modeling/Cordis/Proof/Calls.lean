import Cordis.Fiber.Clearing
import Cordis.Proof.Generation
import Cordis.Runtime.Context

/-!
# Context calls hold leases

A section of `Contexts` leaves the Runtime alone or makes one of its steps; the insertion of
`provide_arc` is the step `provide` of a Runtime whose slot is free. Registrations are made under a
lease, a lease keeps the disposal worker before the end of the drain, and so the gate that a call has
captured is the gate of its Fiber until it returns.
-/

namespace Cordis

open Machine

namespace RuntimeLabel

/-- The Fiber for which a Context call registers something. -/
def registrant : RuntimeLabel → Option FiberId
  | fiber f (.register _) => some f
  | provide f .. | handle f .. | intercept f .. | ownScope f _ => some f
  | _ => none

end RuntimeLabel

namespace Runtime

/-- The insertion of `provide_arc` is made as if the slot were free. -/
theorem provideFound_eq (rt : Runtime) (f : FiberId) (scope : ScopeId) (key : ServiceSymbol) :
    rt.provideFound f scope key = (rt.takeService scope key).1.provide f scope key := by
  have hfree : (rt.takeService scope key).1.services scope key = none := by simp [takeService]
  have hfibers : (rt.takeService scope key).1.fibers f = rt.fibers f := rfl
  unfold provideFound provide
  rw [hfibers]
  cases hc : rt.fibers f with
  | none => rfl
  | some c =>
    simp only [if_pos hfree, registerEntry, hfibers, hc]
    have hadmission : (rt.takeService scope key).1.admission = rt.admission := rfl
    rw [hadmission]
    split_ifs
    · cases c.step (.register (.provided key)) with
      | none => rfl
      | some c' =>
        refine congrArg some ?_
        simp only [insertService, setFiber, takeService]
        congr 1
        funext s k
        by_cases h : s = scope ∧ k = key
        · rw [if_pos h, if_pos h]
        · rw [if_neg h, if_neg h, if_neg h]
    · rfl

/-- `rt₀` has at most less services than `rt`. -/
structure Frees (rt rt₀ : Runtime) : Prop where
  rest : rt₀ = { rt with services := rt₀.services }
  services : ∀ s k e, rt₀.services s k = some e → rt.services s k = some e

theorem Frees.refl (rt : Runtime) : Frees rt rt := ⟨rfl, fun _ _ _ h => h⟩

theorem frees_take (rt : Runtime) (scope : ScopeId) (key : ServiceSymbol) :
    Frees rt (rt.takeService scope key).1 where
  rest := rfl
  services := fun s k e he => by
    simp only [takeService] at he
    split_ifs at he
    exact he

theorem Frees.tame {rt rt₀ : Runtime} (h : Frees rt rt₀) : Tame rt rt₀ := by
  rw [h.rest]
  exact { Tame.refl rt with
    services := h.services
    provided := fun f c c' hc hc' _ k hk _ _ _ => by
      obtain rfl := Option.some.inj (hc.symm.trans hc')
      exact hk }

theorem Frees.numbered {rt rt₀ : Runtime} (h : Frees rt rt₀) (hn : Numbered rt) : Numbered rt₀ := by
  rw [h.rest]
  exact ⟨hn.positive, hn.fibers, hn.entries, hn.apart⟩

end Runtime

namespace Contexts

variable {w w' : Contexts} {f : FiberId} {c c' : FiberCell} {l : ContextLabel}

/-! ## What a section does -/

/-- Why section `l` makes the step `a` of the Runtime. -/
inductive Drives (w : Contexts) : ContextLabel → RuntimeLabel → Prop
  | own (a : RuntimeLabel) (ready : w.ready a = true) : Drives w (.runtime a) a
  | leased (i : Nat) (call : ContextCall) (was : w.calls i = some call)
      (stage : call.stage = .captured) : Drives w (.lease i) (.fiber call.fiber .acquireLease)
  | returned (i : Nat) (call : ContextCall) (was : w.calls i = some call)
      (stage : call.stage ≠ .captured) : Drives w (.finish i) (.fiber call.fiber .dropLease)
  | registered (i : Nat) (call : ContextCall) (l : ContextLabel) (a : RuntimeLabel)
      (was : w.calls i = some call) (stage : call.stage = .leased)
      (registrant : a.registrant = some call.fiber)
      (spawns : ∀ id, a = .fiber call.fiber (.register (.task id)) → l = .spawn i ∧ id = w.nextTask)
      (other : ∀ f s k, a ≠ .provide f s k) : Drives w l a

/-- What section `l` does to the Runtime. -/
inductive Moves (w : Contexts) (l : ContextLabel) (rt' : Runtime) : Prop
  | kept (same : rt' = w.runtime)
  | runs (a : RuntimeLabel) (step : w.runtime.step a = some rt') (drives : Drives w l a)
  | inserts (i : Nat) (f : FiberId) (gate : Gate) (scope : ScopeId) (key : ServiceSymbol)
      (label : l = .insert i) (was : w.calls i = some ⟨f, gate, scope, .free key⟩)
      (step : w.runtime.provideFound f scope key = some rt')

theorem callAt_spec {i : Nat} {stage : CallStage} {call : ContextCall}
    (h : w.callAt i stage = some call) : w.calls i = some call ∧ call.stage = stage := by
  obtain ⟨hcall, hstage⟩ := Option.filter_eq_some_iff.mp h
  exact ⟨hcall, by simpa using hstage⟩

theorem register_spec {i : Nat} {a : FiberId → ScopeId → RuntimeLabel} {call : ContextCall}
    (h : w.register i a = some (w', call)) :
    w.calls i = some call ∧ call.stage = .leased ∧
      w.runtime.step (a call.fiber call.scope) = some w'.runtime ∧
      w' = { w with runtime := w'.runtime } := by
  obtain ⟨call', hcall, h⟩ := Option.bind_eq_some_iff.mp h
  obtain ⟨rt, hrt, heq⟩ := Option.map_eq_some_iff.mp h
  cases heq
  obtain ⟨hwas, hstage⟩ := callAt_spec hcall
  exact ⟨hwas, hstage, hrt, rfl⟩

theorem fiberSection_spec {a : FiberLabel} (h : w.fiberSection f a = some w') :
    w.runtime.step (.fiber f a) = some w'.runtime ∧ w' = { w with runtime := w'.runtime } := by
  obtain ⟨rt, hrt, rfl⟩ := Option.map_eq_some_iff.mp h
  exact ⟨hrt, rfl⟩

theorem moves_register {i : Nat} {a : FiberId → ScopeId → RuntimeLabel} {call : ContextCall}
    (h : w.register i a = some (w', call))
    (registrant : ∀ f s, (a f s).registrant = some f)
    (spawns : ∀ f s id, a f s = .fiber f (.register (.task id)) → l = .spawn i ∧ id = w.nextTask)
    (other : ∀ f s g s' k, a f s ≠ .provide g s' k) : Moves w l w'.runtime := by
  obtain ⟨hwas, hstage, hstep, -⟩ := register_spec h
  exact .runs _ hstep (.registered i call l _ hwas hstage (registrant ..)
    (fun id heq => spawns _ _ id heq) (other _ _))

/-- **A section makes at most one step of the Runtime.** -/
theorem step_moves (h : w.step l = some w') : Moves w l w'.runtime := by
  cases l <;> simp only [step] at h
  case runtime a =>
    split_ifs at h with hready
    obtain ⟨rt, hrt, rfl⟩ := Option.map_eq_some_iff.mp h
    exact .runs a hrt (.own a hready)
  case capture f =>
    split at h <;> try contradiction
    split_ifs at h
    cases h
    exact .kept rfl
  case lease i =>
    obtain ⟨call, hcall, h⟩ := Option.bind_eq_some_iff.mp h
    obtain ⟨hwas, hstage⟩ := callAt_spec hcall
    split at h <;> try contradiction
    split_ifs at h
    · split at h
      · rename_i heq
        obtain ⟨hstep, -⟩ := fiberSection_spec heq
        cases h
        exact .runs _ hstep (.leased i call hwas hstage)
      · cases h
        exact .kept rfl
    · cases h
      exact .kept rfl
  case check i key =>
    obtain ⟨call, -, h⟩ := Option.bind_eq_some_iff.mp h
    split_ifs at h
    cases h
    exact .kept rfl
  case insert i =>
    split at h <;> try contradiction
    rename_i f gate scope key hwas
    obtain ⟨rt, hrt, rfl⟩ := Option.map_eq_some_iff.mp h
    exact .inserts i f gate scope key rfl hwas hrt
  case effect i id =>
    obtain ⟨⟨w₁, call⟩, h₁, rfl⟩ := Option.map_eq_some_iff.mp h
    exact moves_register h₁ (fun _ _ => rfl) nofun nofun
  case on i =>
    obtain ⟨⟨w₁, call⟩, h₁, rfl⟩ := Option.map_eq_some_iff.mp h
    have hmoves : Moves w (.on i) w₁.runtime := moves_register h₁ (fun _ _ => rfl) nofun nofun
    exact hmoves
  case spawn i =>
    obtain ⟨⟨w₁, call⟩, h₁, rfl⟩ := Option.map_eq_some_iff.mp h
    have hmoves : Moves w (.spawn i) w₁.runtime :=
      moves_register h₁ (fun _ _ => rfl) (fun _ _ _ heq => by cases heq; exact ⟨rfl, rfl⟩) nofun
    exact hmoves
  case handle i key | intercept i key =>
    obtain ⟨⟨w₁, call⟩, h₁, rfl⟩ := Option.map_eq_some_iff.mp h
    exact moves_register h₁ (fun _ _ => rfl) nofun nofun
  case createScope i =>
    obtain ⟨⟨w₁, call⟩, h₁, rfl⟩ := Option.map_eq_some_iff.mp h
    exact moves_register h₁ (fun _ _ => rfl) nofun nofun
  case finish i =>
    split at h <;> try contradiction
    rename_i call hwas
    split_ifs at h with hstage
    · cases h
      exact .kept rfl
    · obtain ⟨w₁, h₁, rfl⟩ := Option.map_eq_some_iff.mp h
      exact .runs _ (fiberSection_spec h₁).1 (.returned i call hwas hstage)
  case taskEnded id =>
    split_ifs at h
    cases h
    exact .kept rfl

theorem holds_iff {i : Nat} : w.holds f i = true ↔
    ∃ call, w.calls i = some call ∧ call.fiber = f ∧ call.stage ≠ .captured := by
  unfold holds
  cases w.calls i <;> simp

/-- The step of the Runtime that a section makes, if it makes one. -/
structure Runs (w : Contexts) (l : ContextLabel) (rt' rt₀ : Runtime) (a : RuntimeLabel) : Prop where
  frees : Runtime.Frees w.runtime rt₀
  step : rt₀.step a = some rt'
  leased : ∀ f, a.registrant = some f → ∃ i, w.holds f i = true
  spawns : ∀ f id, a = .fiber f (.register (.task id)) →
    id = w.nextTask ∧ ∃ i call, l = .spawn i ∧ w.calls i = some call ∧ call.fiber = f
  drops : ∀ f, a = .fiber f .dropLease → l = .runtime (.fiber f .dropLease) ∧
    w.ready (.fiber f .dropLease) = true ∨ ∃ i call, l = .finish i ∧ w.calls i = some call ∧
      call.fiber = f ∧ call.stage ≠ .captured

theorem step_runs (h : w.step l = some w') :
    w'.runtime = w.runtime ∨ ∃ rt₀ a, Runs w l w'.runtime rt₀ a := by
  cases step_moves h with
  | kept same => exact .inl same
  | runs a step drives =>
    refine .inr ⟨w.runtime, a, .refl _, step, ?_, ?_, ?_⟩
    · intro f hf
      cases drives with
      | own _ ready =>
        cases a with
        | fiber g b => cases b <;> contradiction
        | provide | handle | intercept | ownScope => cases ready
        | _ => contradiction
      | leased | returned => contradiction
      | registered i call _ _ was stage registrant =>
        exact ⟨i, holds_iff.mpr ⟨call, was, Option.some.inj (registrant.symm.trans hf),
          by rw [stage]; nofun⟩⟩
    · rintro f id rfl
      cases drives with
      | own _ ready => cases ready
      | registered i call _ _ was _ registrant spawns =>
        obtain rfl : f = call.fiber := Option.some.inj registrant
        obtain ⟨hlabel, hid⟩ := spawns id rfl
        exact ⟨hid, i, call, hlabel, was, rfl⟩
    · rintro f rfl
      cases drives with
      | own _ ready => exact .inl ⟨rfl, ready⟩
      | returned i call was stage => exact .inr ⟨i, call, rfl, was, rfl, stage⟩
      | registered _ _ _ _ _ _ registrant => contradiction
  | inserts i f gate scope key label was step =>
    rw [Runtime.provideFound_eq] at step
    refine .inr ⟨_, .provide f scope key, Runtime.frees_take _ scope key, step, ?_, nofun, nofun⟩
    intro g hg
    obtain rfl : f = g := Option.some.inj hg
    exact ⟨i, holds_iff.mpr ⟨_, was, rfl, nofun⟩⟩

/-! ## Calls -/

theorem setCall_calls {i j : Nat} {call : Option ContextCall} {call' : ContextCall}
    (h : (w.setCall i call).calls j = some call') : j = i ∧ call = some call' ∨
      j ≠ i ∧ w.calls j = some call' := by
  by_cases hj : j = i
  · subst hj
    simp only [setCall, Function.update_self] at h
    exact .inl ⟨rfl, h⟩
  · simp only [setCall, Function.update_of_ne hj] at h
    exact .inr ⟨hj, h⟩

/-- Where call `i`, which is `call'` after section `l`, stood before. -/
inductive Continues (w : Contexts) (l : ContextLabel) (w' : Contexts) (i : Nat)
    (call' : ContextCall) : Prop
  | kept (call : ContextCall) (was : w.calls i = some call) (fiber : call'.fiber = call.fiber)
      (gate : call'.gate = call.gate) (scope : call'.scope = call.scope)
      (stage : call.stage = .captured → call'.stage = .captured) (next : w.nextCall ≤ w'.nextCall)
  | leased (call : ContextCall) (label : l = .lease i) (was : w.calls i = some call)
      (stage : call.stage = .captured) (now : call' = { call with stage := .leased })
      (acquired : w.runtime.step (.fiber call.fiber .acquireLease) = some w'.runtime)
      (c : FiberCell) (record : w.runtime.fibers call.fiber = some c)
      (gate : Runtime.gateOf c = call.gate) (next : w.nextCall ≤ w'.nextCall)
  | captured (new : i = w.nextCall) (stage : call'.stage = .captured)
      (next : w'.nextCall = w.nextCall + 1)

theorem continues_of_eq {i : Nat} {call' : ContextCall} (hcall : w.calls i = some call')
    (hnext : w.nextCall ≤ w'.nextCall) : Continues w l w' i call' :=
  .kept call' hcall rfl rfl rfl id hnext

/-- **A call that holds a lease held it before, or takes it now.** -/
theorem step_calls (h : w.step l = some w') {i : Nat} {call' : ContextCall}
    (hcall : w'.calls i = some call') : Continues w l w' i call' := by
  have hregister : ∀ {j : Nat} {a : FiberId → ScopeId → RuntimeLabel} {w₁ : Contexts}
      {call : ContextCall}, w.register j a = some (w₁, call) →
        w₁.calls = w.calls ∧ w.nextCall ≤ w₁.nextCall :=
    fun h₁ => by rw [(register_spec h₁).2.2.2]; exact ⟨rfl, le_rfl⟩
  have hset : ∀ {j : Nat} {w₁ : Contexts}, w₁.calls = w.calls → w.nextCall ≤ w₁.nextCall →
      (w₁.setCall j none).calls i = some call' → Continues w l (w₁.setCall j none) i call' := by
    intro j w₁ hcalls hnext hi
    rcases setCall_calls hi with ⟨-, heq⟩ | ⟨-, hother⟩
    · cases heq
    · exact continues_of_eq (hcalls ▸ hother) hnext
  cases l <;> simp only [step] at h
  case runtime a =>
    split_ifs at h
    obtain ⟨rt, -, rfl⟩ := Option.map_eq_some_iff.mp h
    exact continues_of_eq hcall le_rfl
  case capture f =>
    split at h <;> try contradiction
    split_ifs at h
    cases h
    rcases setCall_calls hcall with ⟨hi, heq⟩ | ⟨-, hother⟩
    · cases heq
      exact .captured hi rfl rfl
    · exact continues_of_eq hother (Nat.le_succ _)
  case lease j =>
    obtain ⟨call, hj, h⟩ := Option.bind_eq_some_iff.mp h
    obtain ⟨hwas, hcaptured⟩ := callAt_spec hj
    split at h <;> try contradiction
    rename_i c hc
    split_ifs at h with hgate
    · split at h
      · rename_i w₁ heq
        obtain ⟨hstep, hw₁⟩ := fiberSection_spec heq
        cases h
        rcases setCall_calls hcall with ⟨rfl, heq'⟩ | ⟨-, hother⟩
        · cases heq'
          exact .leased call rfl hwas hcaptured rfl hstep c hc hgate (by rw [hw₁]; exact le_rfl)
        · rw [hw₁] at hother
          exact continues_of_eq hother (by rw [hw₁]; exact le_rfl)
      · cases h
        exact hset rfl le_rfl hcall
    · cases h
      exact hset rfl le_rfl hcall
  case check j key =>
    obtain ⟨call, hj, h⟩ := Option.bind_eq_some_iff.mp h
    obtain ⟨hwas, hleased⟩ := callAt_spec hj
    split_ifs at h
    cases h
    rcases setCall_calls hcall with ⟨rfl, heq⟩ | ⟨-, hother⟩
    · cases heq
      exact .kept call hwas rfl rfl rfl (fun hstage => by rw [hleased] at hstage; contradiction) le_rfl
    · exact continues_of_eq hother le_rfl
  case insert j =>
    split at h <;> try contradiction
    rename_i f gate scope key hwas
    obtain ⟨rt, -, rfl⟩ := Option.map_eq_some_iff.mp h
    rcases setCall_calls hcall with ⟨rfl, heq⟩ | ⟨-, hother⟩
    · cases heq
      exact .kept _ hwas rfl rfl rfl nofun le_rfl
    · exact continues_of_eq hother le_rfl
  case finish j =>
    split at h <;> try contradiction
    split_ifs at h
    · cases h
      exact hset rfl le_rfl hcall
    · obtain ⟨w₁, h₁, rfl⟩ := Option.map_eq_some_iff.mp h
      have hw₁ := (fiberSection_spec h₁).2
      exact hset (by rw [hw₁]) (by rw [hw₁]) hcall
  case taskEnded id =>
    split_ifs at h
    cases h
    exact continues_of_eq hcall le_rfl
  all_goals
    obtain ⟨⟨w₁, call⟩, h₁, rfl⟩ := Option.map_eq_some_iff.mp h
    obtain ⟨hcalls, hnext⟩ := hregister h₁
    exact continues_of_eq (hcalls ▸ hcall) hnext

theorem step_finish {i : Nat} {call : ContextCall} (hcall : w.calls i = some call)
    (hstage : call.stage ≠ .captured) (h : w.step (.finish i) = some w') :
    w.runtime.step (.fiber call.fiber .dropLease) = some w'.runtime ∧
      w'.holds call.fiber i = false := by
  simp only [step, hcall, if_neg hstage] at h
  obtain ⟨w₁, h₁, rfl⟩ := Option.map_eq_some_iff.mp h
  refine ⟨(fiberSection_spec h₁).1, ?_⟩
  simp [holds, setCall]

/-! ## The invariant -/

/-- Leases and calls fit together, and what disposals have cleared is empty. -/
structure Standing (w : Contexts) : Prop where
  topology : Runtime.Topology w.runtime
  numbered : Runtime.Numbered w.runtime
  sound : ∀ f c, w.runtime.fibers f = some c → c.Sound
  closed : ∀ f c, w.runtime.fibers f = some c → c.Closed
  shut : ∀ f c, w.runtime.fibers f = some c → c.Shut
  passed : ∀ f c, w.runtime.fibers f = some c → c.Passed
  emptied : ∀ f c, w.runtime.fibers f = some c → c.Emptied 2
  issued : ∀ i call, w.calls i = some call → i < w.nextCall
  current : ∀ i call, w.calls i = some call → call.stage ≠ .captured →
    ∃ c, w.runtime.fibers call.fiber = some c ∧ Runtime.gateOf c = call.gate
  leases : ∀ f c, w.runtime.fibers f = some c →
    w.leases f ≤ c.inner.capabilities.execution.inflight

theorem standing_new : Standing .new where
  topology := Runtime.topology_new
  numbered := Runtime.numbered_new
  sound := fun f c h => by cases h
  closed := fun f c h => by cases h
  shut := fun f c h => by cases h
  passed := fun f c h => by cases h
  emptied := fun f c h => by cases h
  issued := fun i call h => by cases h
  current := fun i call h => by cases h
  leases := fun f c h => by cases h

theorem Standing.inflight (hw : Standing w) (hc : w.runtime.fibers f = some c) {i : Nat}
    (hi : w.holds f i = true) : 0 < c.inner.capabilities.execution.inflight := by
  obtain ⟨call, hcall, -, -⟩ := holds_iff.mp hi
  have hpos : 0 < w.leases f := Tally.count_pos (hw.issued i call hcall) hi
  exact hpos.trans_le (hw.leases f c hc)

/-- How section `l` has made the record `c'` of Fiber `f`. -/
inductive Turn (w : Contexts) (l : ContextLabel) (w' : Contexts) (f : FiberId) (c' : FiberCell) : Prop
  | kept (was : w.runtime.fibers f = some c')
  | stepped (rt₀ : Runtime) (a : RuntimeLabel) (runs : Runs w l w'.runtime rt₀ a) (c : FiberCell)
      (b : FiberLabel) (was : w.runtime.fibers f = some c) (step : c.step b = some c')
      (acts : Runtime.Acts rt₀ f c a b)
  | created (free : w.runtime.fibers f = none) (plugin : PluginId) (scope : ScopeId)
      (descriptor : PluginDescriptor) (generation : GenerationId) (staged : Bool)
      (now : c' = .created f plugin scope descriptor generation staged)

theorem Runs.fibers {rt₀ rt' : Runtime} {a : RuntimeLabel} (h : Runs w l rt' rt₀ a) :
    rt₀.fibers = w.runtime.fibers := by
  rw [h.frees.rest]

theorem step_turns (ht : Runtime.Topology w.runtime) (h : w.step l = some w')
    (hc' : w'.runtime.fibers f = some c') : Turn w l w' f c' := by
  rcases step_runs h with heq | ⟨rt₀, a, hruns⟩
  · exact .kept (heq ▸ hc')
  have hfollows := Runtime.step_follows (Runtime.topology_tame ht hruns.frees.tame) hruns.step
  cases hc : rt₀.fibers f with
  | none =>
    obtain ⟨-, -, -, p, s, d, g, b, -, rfl⟩ := hfollows.fresh f c' hc' hc
    exact .created (hruns.fibers ▸ hc) p s d g b rfl
  | some c =>
    obtain ⟨d, hd, hstep⟩ := hfollows.cells f c hc
    obtain rfl := Option.some.inj (hc'.symm.trans hd)
    rcases hstep with rfl | ⟨b, hb, hacts⟩
    · exact .kept (hruns.fibers ▸ hc)
    · exact .stepped rt₀ a hruns c b (hruns.fibers ▸ hc) hb hacts

theorem step_forward (ht : Runtime.Topology w.runtime) (h : w.step l = some w')
    (hc : w.runtime.fibers f = some c) : ∃ c', w'.runtime.fibers f = some c' := by
  rcases step_runs h with heq | ⟨rt₀, a, hruns⟩
  · exact ⟨c, by rw [heq]; exact hc⟩
  · have hfollows := Runtime.step_follows (Runtime.topology_tame ht hruns.frees.tame) hruns.step
    obtain ⟨c', hc', -⟩ := hfollows.cells f c (hruns.fibers ▸ hc)
    exact ⟨c', hc'⟩

theorem gateOf_step {b : FiberLabel} (h : c.step b = some c') :
    Runtime.gateOf c' = Runtime.gateOf c ∨ c.inner.disposal.phase = .Complete ∧
      ∃ n g, b = .activationBegin n true (.ok g) := by
  cases step_gated h with
  | kept generation | closed _ _ _ _ generation | superseded _ generation =>
    exact .inl (Runtime.gateOf_eq (step_same h).plugin generation)
  | renewed n g label _ complete => exact .inr ⟨complete, n, g, label⟩

theorem acts_registrant {rt : Runtime} {a : RuntimeLabel} {entry : Registration}
    (h : Runtime.Acts rt f c a (.register entry)) : a.registrant = some f := by
  generalize hb : FiberLabel.register entry = b at h
  cases h with
  | own answer =>
    subst hb
    rw [Runtime.answered_register answer]
    rfl
  | visited | superseded | cut => cases hb
  | provided | handled | intercepted | owned => rfl

theorem acts_drop {rt : Runtime} {a : RuntimeLabel} (h : Runtime.Acts rt f c a .dropLease) :
    a = .fiber f .dropLease := by
  generalize hb : FiberLabel.dropLease = b at h
  cases h with
  | own answer =>
    subst hb
    rename_i l
    have hkind := Runtime.answered_kind answer
    cases l <;> first | rfl | contradiction
  | _ => cases hb

theorem Standing.complete (hw : Standing w) (hc : w.runtime.fibers f = some c)
    (hcomplete : c.inner.disposal.phase = .Complete) {n : Nat} (hn : 2 ≤ n) (hn' : n ≤ 7) :
    c.inner.Cleared n := by
  refine hw.emptied f c hc n hn (hn'.trans ?_)
  unfold FiberCell.cleared
  cases hworker : c.worker with
  | none =>
    simp only [hcomplete, if_true]
    exact le_rfl
  | some pc =>
    have hrunning := (hw.sound f c hc).consistent.running pc hworker
    rw [show c.control.phase = .Complete from hcomplete] at hrunning
    contradiction

theorem leases_step (hw : Standing w) (h : w.step l = some w') (f : FiberId) :
    w'.leases f ≤ w.leases f ∨ w.runtime.step (.fiber f .acquireLease) = some w'.runtime ∧
      w'.leases f ≤ w.leases f + 1 := by
  by_cases hleased : ∃ i, l = .lease i ∧
      w.runtime.step (.fiber f .acquireLease) = some w'.runtime
  · obtain ⟨i, hl, hstep⟩ := hleased
    refine .inr ⟨hstep, Tally.count_le_succ (k := i) fun x _ hx => ?_⟩
    obtain ⟨call', hcall', hfiber, hstage⟩ := holds_iff.mp hx
    cases step_calls h hcall' with
    | kept call was fiber _ _ stage _ =>
      exact .inr ⟨hw.issued x call was, holds_iff.mpr
        ⟨call, was, fiber ▸ hfiber, fun hcaptured => hstage (stage hcaptured)⟩⟩
    | leased call label =>
      rw [hl] at label
      cases label
      exact .inl rfl
    | captured _ stage => exact absurd stage hstage
  · refine .inl (Tally.count_le fun x _ hx => ?_)
    obtain ⟨call', hcall', hfiber, hstage⟩ := holds_iff.mp hx
    cases step_calls h hcall' with
    | kept call was fiber _ _ stage _ =>
      exact ⟨hw.issued x call was, holds_iff.mpr
        ⟨call, was, fiber ▸ hfiber, fun hcaptured => hstage (stage hcaptured)⟩⟩
    | leased call label _ _ now acquired =>
      subst now
      exact absurd ⟨x, label, hfiber ▸ acquired⟩ hleased
    | captured _ stage => exact absurd stage hstage

theorem step_acquire {rt rt' : Runtime} (h : rt.step (.fiber f .acquireLease) = some rt') :
    ∃ c c', rt.fibers f = some c ∧ c.step .acquireLease = some c' ∧ rt' = rt.setFiber f c' := by
  obtain ⟨c, b, c', hc, hanswer, hstep, rfl⟩ := Runtime.fiberStep_spec h
  cases hanswer
  exact ⟨c, c', hc, hstep, rfl⟩

theorem acquire_inflight (h : c.step .acquireLease = some c') :
    c'.inner.capabilities.execution.inflight = c.inner.capabilities.execution.inflight + 1 := by
  obtain ⟨x, hx, rfl⟩ := Option.map_eq_some_iff.mp h
  unfold GenerationExecution.tryAcquire at hx
  split_ifs at hx
  cases hx
  rfl

/-- Besides the leases of the calls a gate keeps the `k` that others hold, unless one of these drops its own. -/
theorem held_step (hw : Standing w) (h : w.step l = some w') (hc : w.runtime.fibers f = some c)
    (hc' : w'.runtime.fibers f = some c') {k : Nat}
    (hk : w.leases f + k ≤ c.inner.capabilities.execution.inflight)
    (hother : l = .runtime (.fiber f .dropLease) → w.leases f + k < c.inner.capabilities.execution.inflight) :
    w'.leases f + k ≤ c'.inner.capabilities.execution.inflight := by
  rcases leases_step hw h f with hle | ⟨hstep, hle⟩
  · cases step_turns hw.topology h hc' with
    | kept was =>
      obtain rfl := Option.some.inj (hc.symm.trans was)
      omega
    | stepped rt₀ a runs d b was step acts =>
      obtain rfl := Option.some.inj (hc.symm.trans was)
      cases step_latch step with
      | kept capabilities | draining _ _ capabilities | closed _ _ _ _ _ capabilities
      | superseded _ capabilities =>
        rw [capabilities]
        exact (Nat.add_le_add_right hle k).trans hk
      | acquired _ _ capabilities =>
        rw [capabilities]
        exact ((Nat.add_le_add_right hle k).trans hk).trans (Nat.le_succ _)
      | dropped label inflight held capabilities =>
        subst label
        rw [capabilities]
        rcases runs.drops f (acts_drop acts) with ⟨hl, -⟩ | ⟨i, call, rfl, hcall, rfl, hstage⟩
        · have hlt := hother hl
          simp only
          omega
        · -- the call that returns has given its lease back
          have hlt : w'.leases call.fiber < w.leases call.fiber := by
            refine Tally.count_lt (hw.issued i call hcall) (holds_iff.mpr ⟨call, hcall, rfl, hstage⟩)
              (step_finish hcall hstage h).2 fun x _ hx => ?_
            obtain ⟨call', hcall', hfiber, hstage'⟩ := holds_iff.mp hx
            cases step_calls h hcall' with
            | kept d hd fiber _ _ stage _ =>
              exact ⟨hw.issued x d hd, holds_iff.mpr
                ⟨d, hd, fiber ▸ hfiber, fun hcaptured => hstage' (stage hcaptured)⟩⟩
            | leased _ label => cases label
            | captured _ stage => exact absurd stage hstage'
          simp only
          omega
      | renewed _ _ _ _ complete =>
        have hzero : c.inner.capabilities.execution.inflight = 0 :=
          hw.complete was complete (n := 3) (by omega) (by omega)
        omega
    | created free =>
      rw [free] at hc
      contradiction
  · obtain ⟨d, d', hd, hacquire, hrt'⟩ := step_acquire hstep
    obtain rfl := Option.some.inj (hc.symm.trans hd)
    obtain rfl : d' = c' := by
      rw [hrt'] at hc'
      simpa [Runtime.setFiber] using hc'
    rw [acquire_inflight hacquire]
    omega

theorem leased_step (hw : Standing w) (h : w.step l = some w')
    (hc' : w'.runtime.fibers f = some c') :
    w'.leases f ≤ c'.inner.capabilities.execution.inflight := by
  cases hc : w.runtime.fibers f with
  | some c =>
    refine held_step (k := 0) hw h hc hc' (hw.leases f c hc) ?_
    rintro rfl
    simp only [step] at h
    split_ifs at h with hready
    simpa [ready, hc] using hready
  | none =>
    have hzero : w.leases f ≤ Tally.count 0 fun _ => false := Tally.count_le fun x _ hx => by
      obtain ⟨call, hcall, rfl, hstage⟩ := holds_iff.mp hx
      obtain ⟨c, hfound, -⟩ := hw.current x call hcall hstage
      rw [hc] at hfound
      contradiction
    rcases leases_step hw h f with hle | ⟨hstep, -⟩
    · exact (hle.trans hzero).trans (Nat.zero_le _)
    · obtain ⟨d, -, hd, -⟩ := step_acquire hstep
      rw [hc] at hd
      contradiction

theorem current_step (hw : Standing w) (h : w.step l = some w') {i : Nat} {call' : ContextCall}
    (hcall' : w'.calls i = some call') (hstage' : call'.stage ≠ .captured) :
    ∃ c', w'.runtime.fibers call'.fiber = some c' ∧ Runtime.gateOf c' = call'.gate := by
  cases step_calls h hcall' with
  | kept call was fiber gate scope stage =>
    have hstage : call.stage ≠ .captured := fun hcaptured => hstage' (stage hcaptured)
    obtain ⟨c, hc, hgate⟩ := hw.current i call was hstage
    obtain ⟨c', hc'⟩ := step_forward hw.topology h hc
    rw [fiber, gate]
    refine ⟨c', hc', ?_⟩
    cases step_turns hw.topology h hc' with
    | kept hwas =>
      obtain rfl := Option.some.inj (hc.symm.trans hwas)
      exact hgate
    | stepped rt₀ a runs d b hwas step =>
      obtain rfl := Option.some.inj (hc.symm.trans hwas)
      rcases gateOf_step step with heq | ⟨hcomplete, -⟩
      · exact heq.trans hgate
      · have hinflight := hw.inflight hc (holds_iff.mpr ⟨call, was, rfl, hstage⟩)
        have hzero : c.inner.capabilities.execution.inflight = 0 :=
          hw.complete hc hcomplete (n := 3) (by omega) (by omega)
        omega
    | created free =>
      rw [free] at hc
      contradiction
  | leased call label was stage now acquired c record gate =>
    obtain ⟨d, c', hd, hstep, hrt'⟩ := step_acquire acquired
    obtain rfl := Option.some.inj (record.symm.trans hd)
    subst now
    refine ⟨c', by rw [hrt']; simp [Runtime.setFiber], ?_⟩
    rcases gateOf_step hstep with heq | ⟨-, _, _, hlabel⟩
    · exact heq.trans gate
    · contradiction
  | captured _ stage => exact absurd stage hstage'

/-- **Leases and calls stay together.** -/
theorem standing_step (hw : Standing w) (h : w.step l = some w') : Standing w' where
  topology := by
    rcases step_runs h with heq | ⟨rt₀, a, hruns⟩
    · exact heq ▸ hw.topology
    · exact Runtime.topology_step (Runtime.topology_tame hw.topology hruns.frees.tame) hruns.step
  numbered := by
    rcases step_runs h with heq | ⟨rt₀, a, hruns⟩
    · exact heq ▸ hw.numbered
    · exact Runtime.numbered_step (Runtime.topology_tame hw.topology hruns.frees.tame)
        (hruns.frees.numbered hw.numbered) hruns.step
  sound := fun f c' hc' => by
    cases step_turns hw.topology h hc' with
    | kept was => exact hw.sound f c' was
    | stepped _ _ _ c _ was step => exact sound_step (hw.sound f c was) step
    | created _ _ _ _ _ _ now => exact now ▸ sound_created ..
  closed := fun f c' hc' => by
    cases step_turns hw.topology h hc' with
    | kept was => exact hw.closed f c' was
    | stepped _ _ _ c _ was step =>
      exact closed_step (hw.sound f c was).consistent (hw.closed f c was) step
    | created _ _ _ _ _ _ now =>
      subst now
      exact fun hphase => absurd rfl hphase
  shut := fun f c' hc' => by
    cases step_turns hw.topology h hc' with
    | kept was => exact hw.shut f c' was
    | stepped _ _ _ c _ was step => exact shut_step (hw.shut f c was) step
    | created _ _ _ _ _ _ now =>
      subst now
      nofun
  passed := fun f c' hc' => by
    cases step_turns hw.topology h hc' with
    | kept was => exact hw.passed f c' was
    | stepped _ _ _ c _ was step =>
      exact passed_step (hw.sound f c was).consistent (hw.closed f c was) (hw.shut f c was) (hw.passed f c was) step
    | created _ _ _ _ _ _ now =>
      subst now
      nofun
  emptied := fun f c' hc' => by
    cases step_turns hw.topology h hc' with
    | kept was => exact hw.emptied f c' was
    | stepped rt₀ a runs c b was step acts =>
      refine emptied_step (by omega) (hw.sound f c was).consistent (hw.closed f c was)
        (hw.shut f c was) (hw.emptied f c was) ?_ (fun _ _ => .inl (by omega)) step
      rintro entry rfl
      obtain ⟨i, hi⟩ := runs.leased f (acts_registrant acts)
      exact hw.inflight was hi
    | created _ _ _ _ _ _ now =>
      subst now
      intro n hn hle
      have hzero : n ≤ 0 := hle
      omega
  issued := fun i call' hcall' => by
    cases step_calls h hcall' with
    | kept call was _ _ _ _ next => exact (hw.issued i call was).trans_le next
    | leased call _ was _ _ _ _ _ _ next => exact (hw.issued i call was).trans_le next
    | captured new _ next => omega
  current := fun i call' => current_step hw h
  leases := fun f c' => leased_step hw h

end Contexts

end Cordis
