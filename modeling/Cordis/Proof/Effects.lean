import Cordis.Fiber.Effects
import Cordis.Library.History
import Cordis.Proof.Leads

/-!
# Effects run once, last in first out, after the drain

The log has the effects that Context calls registered, those that disposal workers invoked, and the rounds
that were published as committed. For the current generation of a Fiber, what was registered is the ledger
followed by what was invoked in reverse; the ledger is empty when a round is committed, and what is drained
stays drained until there is a new generation.
-/

namespace Cordis.Contexts

open Machine

variable {w w' : Contexts} {f : FiberId} {c c' : FiberCell} {l : ContextLabel}

/-! ## The log -/

/-- What is kept of a step. -/
inductive EffectEvent
  | registered (fiber : FiberId) (gate : Gate) (id : Nat)
  /-- `dispose` of the effect is called while the gate has this many leases. -/
  | invoked (fiber : FiberId) (gate : Gate) (id inflight : Nat)
  | committed (fiber : FiberId) (gate : Gate)
  deriving DecidableEq

namespace EffectEvent

def fiber : EffectEvent → FiberId
  | registered f .. | invoked f .. | committed f _ => f

def gate : EffectEvent → Gate
  | registered _ g _ | invoked _ g .. | committed _ g => g

/-- The effect that a Context of this gate has registered. -/
def registers (f : FiberId) (g : Gate) : EffectEvent → Option Nat
  | registered f' g' id => if f' = f ∧ g' = g then some id else none
  | _ => none

/-- The effect of this gate that was invoked. -/
def invokes (f : FiberId) (g : Gate) : EffectEvent → Option Nat
  | invoked f' g' id _ => if f' = f ∧ g' = g then some id else none
  | _ => none

end EffectEvent

/-- The effects of a generation in the order of their registration. -/
def registered (log : List EffectEvent) (f : FiberId) (g : Gate) : List Nat :=
  log.filterMap (EffectEvent.registers f g)

/-- The effects of a generation in the order in which they were invoked. -/
def invoked (log : List EffectEvent) (f : FiberId) (g : Gate) : List Nat :=
  log.filterMap (EffectEvent.invokes f g)

/-- The observation is there, and reports a committed lifecycle. -/
def reportsCommitted (o : Option DisposalObservation) : Bool :=
  o.any fun o =>
    match o.terminal with
    | .Committed => true
    | .Incomplete _ => false

def effectNote (w : Contexts) (l : ContextLabel) (w' : Contexts) : List EffectEvent :=
  match l with
  | .effect i id =>
    match w.calls i with
    | some call => [.registered call.fiber call.gate id]
    | none => []
  | .runtime (.fiber f .takeEffect) =>
    match w.runtime.fibers f with
    | some c =>
      match c.look fun r => r.effects.getLast? with
      | some id => [.invoked f (Runtime.gateOf c) id c.inner.capabilities.execution.inflight]
      | none => []
    | none => []
  | .runtime (.fiber f .finalizeCommit) =>
    match w.runtime.fibers f, w'.runtime.fibers f with
    | some c, some c' =>
      let round := c.inner.disposal.completion
      if (c.published round).isNone ∧ reportsCommitted (c'.published round) then
        [.committed f (Runtime.gateOf c)]
      else []
    | _, _ => []
  | _ => []

/-- What a section does to the effects of a Fiber, and what the log has of it. -/
inductive Logs (w : Contexts) (l : ContextLabel) (w' : Contexts) (f : FiberId) (c c' : FiberCell) : Prop
  | quiet (effects : c'.inner.effects = c.inner.effects)
      (note : ∀ x ∈ effectNote w l w', x.fiber ≠ f)
  | registered (i id : Nat) (call : ContextCall) (was : w.calls i = some call) (fiber : call.fiber = f)
      (leased : call.stage = .leased) (effects : c'.inner.effects = c.inner.effects ++ [id])
      (note : effectNote w l w' = [.registered f call.gate id])
  | invoked (id : Nat) (removed : List ServiceSymbol) (worker : c.worker = some (.cleaning removed))
      (arena : c.inArena = true) (effects : c.inner.effects = c'.inner.effects ++ [id])
      (note : effectNote w l w' =
        [.invoked f (Runtime.gateOf c) id c.inner.capabilities.execution.inflight])
  | committed (result : Outcome) (target : Option FiberState)
      (worker : c.worker = some (.indexed result target false)) (arena : c.inArena = true)
      (effects : c'.inner.effects = c.inner.effects)
      (note : effectNote w l w' = [.committed f (Runtime.gateOf c)])

theorem finalizeCommit_reports (h : c.step .finalizeCommit = some c')
    (hnone : (c.published c.inner.disposal.completion).isNone = true)
    (hcommitted : reportsCommitted (c'.published c.inner.disposal.completion) = true) :
    ∃ result target, c.worker = some (.indexed result target false) ∧ c.inArena = true := by
  obtain ⟨pc, hw, h⟩ := Option.bind_eq_some_iff.mp h
  simp only [FiberCell.stepWorker] at h
  split at h <;> try contradiction
  rename_i result target terminated
  split_ifs at h with hin
  · cases h
    cases terminated with
    | false => exact ⟨result, target, hw, hin⟩
    | true =>
      rw [Option.isNone_iff_eq_none] at hnone
      simp [FiberMutable.finalizeCommit, hnone, reportsCommitted] at hcommitted
  · cases h
    rw [Option.isNone_iff_eq_none.mp hnone] at hcommitted
    contradiction

theorem leads_effect {id : Nat} (h : Leads w f c l (.register (.effect id))) :
    ∃ i call, l = .effect i id ∧ w.calls i = some call ∧ call.fiber = f := by
  cases h with
  | runtime ready acts =>
    cases acts with
    | own answer =>
      rw [Runtime.answered_register answer] at ready
      cases ready
  | effect i _ call was fiber => exact ⟨i, call, rfl, was, fiber⟩
  | registered held other => exact absurd rfl (other id)

theorem leads_takeEffect (h : Leads w f c l .takeEffect) : l = .runtime (.fiber f .takeEffect) := by
  cases h with
  | runtime ready acts =>
    cases acts with
    | @own a _ answer =>
      have hkind := Runtime.answered_kind answer
      cases a <;> first | rfl | contradiction

theorem effects_kept (hcase : c' = c ∨ ∃ b, c.step b = some c' ∧ Leads w f c l b)
    (heffect : ∀ i id call, l = .effect i id → w.calls i = some call → call.fiber ≠ f)
    (htake : l ≠ .runtime (.fiber f .takeEffect)) : c'.inner.effects = c.inner.effects := by
  rcases hcase with rfl | ⟨b, hb, hleads⟩
  · rfl
  · cases step_effects hb with
    | kept effects => exact effects
    | registered id label =>
      subst label
      obtain ⟨i, call, hl, hcall, hf⟩ := leads_effect hleads
      exact absurd hf (heffect i id call hl hcall)
    | taken id removed label =>
      subst label
      exact absurd (leads_takeEffect hleads) htake

theorem step_logs (ht : Runtime.Topology w.runtime) (h : w.step l = some w')
    (hc : w.runtime.fibers f = some c) :
    ∃ c', w'.runtime.fibers f = some c' ∧ (c' = c ∨ ∃ b, c.step b = some c' ∧ Leads w f c l b) ∧
      Logs w l w' f c c' := by
  obtain ⟨c', hc', hcase⟩ := step_leads ht h hc
  refine ⟨c', hc', hcase, ?_⟩
  have hquiet : effectNote w l w' = [] → (∀ i id, l ≠ .effect i id) →
      l ≠ .runtime (.fiber f .takeEffect) → Logs w l w' f c c' := by
    intro hnil hl htake
    refine .quiet (effects_kept hcase (fun i id _ heq => absurd heq (hl i id)) htake) fun x hx => ?_
    rw [hnil] at hx
    cases hx
  cases l with
  | effect i id =>
    obtain ⟨⟨w₁, call⟩, h₁, rfl⟩ := Option.map_eq_some_iff.mp h
    obtain ⟨hcall, hstage, hstep, -⟩ := register_spec h₁
    have hnote : effectNote w (.effect i id) w₁ = [.registered call.fiber call.gate id] := by
      simp only [effectNote, hcall]
    by_cases hf : call.fiber = f
    · rw [hf] at hstep hnote
      have hb := step_fiber_cell hc hc' (fun b answer => by
        simp only [Runtime.answered] at answer
        split_ifs at answer
        cases answer
        rfl) hstep
      cases step_effects hb with
      | kept _ label => exact absurd rfl (label id)
      | registered id' label effects =>
        cases label
        exact .registered i id call hcall hf hstage effects hnote
      | taken _ _ label => cases label
    · refine .quiet (effects_kept hcase (fun j _ call' heq hcall' => ?_) (by simp)) fun x hx => ?_
      · cases heq
        rw [hcall] at hcall'
        cases hcall'
        exact hf
      · rw [hnote, List.mem_singleton] at hx
        rw [hx]
        exact hf
  | runtime a =>
    simp only [step] at h
    split_ifs at h
    obtain ⟨rt, hrt, rfl⟩ := Option.map_eq_some_iff.mp h
    cases a with
    | fiber g b =>
      cases b with
      | takeEffect =>
        by_cases hg : g = f
        · subst hg
          have hb := step_fiber_cell hc hc' (fun b answer => by cases answer; rfl) hrt
          cases step_effects hb with
          | kept effects _ untaken =>
            refine .quiet effects fun x hx => ?_
            simp only [effectNote, hc, untaken rfl] at hx
            cases hx
          | registered _ label => cases label
          | taken id removed _ worker arena effects =>
            refine .invoked id removed worker arena effects ?_
            have hlook : c.look (fun r => r.effects.getLast?) = some id := by
              rw [FiberCell.look, if_pos arena, effects, List.getLast?_concat]
            simp only [effectNote, hc, hlook]
        · refine .quiet (effects_kept hcase (by simp) fun heq => ?_) fun x hx => ?_
          · cases heq
            exact hg rfl
          · simp only [effectNote] at hx
            split at hx <;> try split at hx
            all_goals first | (rw [List.mem_singleton.mp hx]; exact hg) | cases hx
      | finalizeCommit =>
        by_cases hg : g = f
        · subst hg
          have hb := step_fiber_cell hc hc' (fun b answer => by cases answer; rfl) hrt
          have heffects := effects_kept hcase (by simp) (by simp)
          have hnow : rt.fibers g = some c' := hc'
          by_cases hreports : (c.published c.inner.disposal.completion).isNone = true ∧
              reportsCommitted (c'.published c.inner.disposal.completion) = true
          · obtain ⟨result, target, worker, arena⟩ := finalizeCommit_reports hb hreports.1 hreports.2
            refine .committed result target worker arena heffects ?_
            simp only [effectNote, hc, hnow]
            exact if_pos hreports
          · refine .quiet heffects fun x hx => ?_
            simp only [effectNote, hc, hnow] at hx
            rw [if_neg hreports] at hx
            cases hx
        · refine .quiet (effects_kept hcase (by simp) (by simp)) fun x hx => ?_
          simp only [effectNote] at hx
          split at hx <;> try split at hx
          all_goals first | (rw [List.mem_singleton.mp hx]; exact hg) | cases hx
      | _ => exact hquiet rfl (by simp) (by simp)
    | _ => exact hquiet rfl (by simp) (by simp)
  | _ => exact hquiet rfl (by simp) (by simp)

/-! ## The invariant -/

theorem registers_other {x : EffectEvent} {g : Gate} (hx : x.fiber ≠ f ∨ x.gate ≠ g) :
    x.registers f g = none := by
  cases x with
  | registered f' g' id =>
    simp only [EffectEvent.registers]
    exact if_neg fun h => hx.elim (fun hf => hf h.1) fun hg => hg h.2
  | invoked | committed => rfl

theorem invokes_other {x : EffectEvent} {g : Gate} (hx : x.fiber ≠ f ∨ x.gate ≠ g) :
    x.invokes f g = none := by
  cases x with
  | invoked f' g' id n =>
    simp only [EffectEvent.invokes]
    exact if_neg fun h => hx.elim (fun hf => hf h.1) fun hg => hg h.2
  | registered | committed => rfl

section Log

variable {log new : List EffectEvent} {g : Gate}

theorem registered_append : registered (log ++ new) f g = registered log f g ++ registered new f g :=
  List.filterMap_append

theorem invoked_append : invoked (log ++ new) f g = invoked log f g ++ invoked new f g :=
  List.filterMap_append

theorem registered_other (h : ∀ x ∈ new, x.fiber ≠ f ∨ x.gate ≠ g) : registered new f g = [] :=
  List.filterMap_eq_nil_iff.mpr fun x hx => registers_other (h x hx)

theorem invoked_other (h : ∀ x ∈ new, x.fiber ≠ f ∨ x.gate ≠ g) : invoked new f g = [] :=
  List.filterMap_eq_nil_iff.mpr fun x hx => invokes_other (h x hx)

theorem same_log (log : List EffectEvent) (h : ∀ x ∈ new, x.fiber ≠ f ∨ x.gate ≠ g) :
    registered (log ++ new) f g = registered log f g ∧ invoked (log ++ new) f g = invoked log f g ∧
      (.committed f g ∈ log ++ new → .committed f g ∈ log) := by
  rw [registered_append, invoked_append, registered_other h, invoked_other h]
  refine ⟨List.append_nil _, List.append_nil _, fun hmem => ?_⟩
  rcases List.mem_append.mp hmem with hold | hnew
  · exact hold
  · rcases h _ hnew with hf | hg
    · exact absurd rfl hf
    · exact absurd rfl hg

end Log

/-- What the log has of the current generation of a Fiber. -/
structure Accounted (c : FiberCell) (f : FiberId) (g : Gate) (log : List EffectEvent) : Prop where
  balance : registered log f g = c.inner.effects ++ (invoked log f g).reverse
  drained : invoked log f g ≠ [] ∨ .committed f g ∈ log →
    c.accepting = false ∧ c.inner.capabilities.execution.inflight = 0
  emptied : .committed f g ∈ log → c.inner.effects = []

structure Tidy (w : Contexts) (log : List EffectEvent) : Prop where
  standing : Standing w
  known : ∀ x ∈ log, (∃ c, w.runtime.fibers x.fiber = some c) ∧
    x.gate.generation < w.runtime.nextGeneration x.gate.plugin
  current : ∀ f c, w.runtime.fibers f = some c → Accounted c f (Runtime.gateOf c) log
  past : ∀ f c g, w.runtime.fibers f = some c → g ≠ Runtime.gateOf c →
    registered log f g = (invoked log f g).reverse
  silent : ∀ f g id n, .invoked f g id n ∈ log → n = 0

/-! ## One step -/

theorem drained_step (hcase : c' = c ∨ ∃ b, c.step b = some c' ∧ Leads w f c l b)
    (hfresh : c.generation < w.runtime.nextGeneration c.plugin)
    (hgate : Runtime.gateOf c' = Runtime.gateOf c)
    (hc : c.accepting = false ∧ c.inner.capabilities.execution.inflight = 0) :
    c'.accepting = false ∧ c'.inner.capabilities.execution.inflight = 0 := by
  rcases hcase with rfl | ⟨b, hb, hleads⟩
  · exact hc
  refine ⟨?_, step_drained hb hc.1 hc.2⟩
  have hgeneration := Runtime.generation_of_gateOf hgate
  cases step_latch hb with
  | kept capabilities =>
    unfold FiberCell.accepting
    rw [capabilities]
    exact hc.1
  | acquired _ accepting =>
    rw [hc.1] at accepting
    contradiction
  | dropped _ _ _ capabilities =>
    unfold FiberCell.accepting
    rw [capabilities]
    exact hc.1
  | draining _ _ capabilities | closed _ _ _ _ _ capabilities | superseded _ capabilities =>
    unfold FiberCell.accepting
    rw [capabilities]
    rfl
  | renewed n g label _ _ capabilities =>
    subst label
    obtain ⟨-, hg⟩ := leads_begin hleads
    have hnew : c'.generation = g := by
      unfold FiberCell.generation
      rw [capabilities]
      rfl
    rw [← hgeneration, hnew, hg] at hfresh
    exact absurd hfresh (Nat.lt_irrefl _)

theorem Standing.drained (hw : Standing w) (hc : w.runtime.fibers f = some c) {pc : DisposalPc}
    (hworker : c.worker = some pc) (hrank : 3 ≤ pc.rank) :
    c.accepting = false ∧ c.inner.capabilities.execution.inflight = 0 :=
  ⟨accepting_of_worker (hw.sound f c hc).consistent (hw.closed f c hc) (hw.shut f c hc) hworker,
    hw.passed f c hc pc hworker hrank⟩

theorem note_current (hw : Standing w) (h : w.step l = some w') {x : EffectEvent}
    (hx : x ∈ effectNote w l w') :
    ∃ c, w.runtime.fibers x.fiber = some c ∧ x.gate = Runtime.gateOf c := by
  unfold effectNote at hx
  split at hx
  · rename_i i id
    obtain ⟨⟨w₁, call⟩, h₁, -⟩ := Option.map_eq_some_iff.mp h
    obtain ⟨hcall, hstage, -⟩ := register_spec h₁
    rw [hcall] at hx
    obtain ⟨c, hc, hgate⟩ := hw.current i call hcall (by rw [hstage]; nofun)
    rw [List.mem_singleton.mp hx]
    exact ⟨c, hc, hgate.symm⟩
  · split at hx
    · rename_i c hc
      split at hx
      · rw [List.mem_singleton.mp hx]
        exact ⟨c, hc, rfl⟩
      · cases hx
    · cases hx
  · split at hx
    · rename_i c c' hc hc'
      dsimp only at hx
      split_ifs at hx
      · rw [List.mem_singleton.mp hx]
        exact ⟨c, hc, rfl⟩
      · cases hx
    · cases hx
  · cases hx

section Step

variable {log : List EffectEvent}

theorem Tidy.accounted (ht : Tidy w log) (hc : w.runtime.fibers f = some c)
    (hcase : c' = c ∨ ∃ b, c.step b = some c' ∧ Leads w f c l b) (hlogs : Logs w l w' f c c')
    (hgate : Runtime.gateOf c' = Runtime.gateOf c) :
    Accounted c' f (Runtime.gateOf c) (log ++ effectNote w l w') := by
  have hw := ht.standing
  obtain ⟨hbalance, hdrained, hemptied⟩ := ht.current f c hc
  have hstays := drained_step hcase (hw.numbered.fibers f c hc).2 hgate
  cases hlogs with
  | quiet effects note =>
    obtain ⟨hreg, hinv, hcom⟩ := same_log (g := Runtime.gateOf c) log
      fun x hx => .inl (note x hx)
    refine ⟨by rw [hreg, hinv, effects, hbalance], fun hany => ?_, fun hmem => ?_⟩
    · rw [hinv] at hany
      exact hstays (hdrained (hany.imp id hcom))
    · rw [effects]
      exact hemptied (hcom hmem)
  | registered i id call was fiber leased effects note =>
    have hholds : w.holds f i = true := holds_iff.mpr ⟨call, was, fiber, by rw [leased]; nofun⟩
    have hinflight := hw.inflight hc hholds
    obtain ⟨d, hd, hcallgate⟩ := hw.current i call was (by rw [leased]; nofun)
    rw [fiber, hc] at hd
    cases hd
    rw [← hcallgate] at note
    have hnone : invoked log f (Runtime.gateOf c) = [] ∧ .committed f (Runtime.gateOf c) ∉ log := by
      constructor
      · by_contra hne
        have hzero := (hdrained (.inl hne)).2
        omega
      · intro hmem
        have hzero := (hdrained (.inr hmem)).2
        omega
    have hinv : invoked (log ++ effectNote w l w') f (Runtime.gateOf c) = [] := by
      rw [invoked_append, hnone.1, note]
      rfl
    have hcom : .committed f (Runtime.gateOf c) ∉ log ++ effectNote w l w' := by
      rw [note]
      simp [hnone.2]
    refine ⟨?_, fun hany => ?_, fun hmem => absurd hmem hcom⟩
    · have hone : registered [.registered f (Runtime.gateOf c) id] f (Runtime.gateOf c) = [id] := by
        simp [registered, EffectEvent.registers]
      rw [registered_append, hinv, hbalance, hnone.1, note, hone, effects]
      simp
    · rcases hany with hne | hmem
      · exact absurd hinv hne
      · exact absurd hmem hcom
  | invoked id removed worker _ effects note =>
    have hzero := hw.drained hc worker (by simp [DisposalPc.rank])
    have hreg : registered (log ++ effectNote w l w') f (Runtime.gateOf c) =
        registered log f (Runtime.gateOf c) := by
      rw [registered_append, note]
      exact List.append_nil _
    have hinv : invoked (log ++ effectNote w l w') f (Runtime.gateOf c) =
        invoked log f (Runtime.gateOf c) ++ [id] := by
      rw [invoked_append, note]
      simp [invoked, EffectEvent.invokes]
    refine ⟨?_, fun _ => hstays hzero, fun hmem => ?_⟩
    · rw [hreg, hinv, hbalance, effects]
      simp
    · have hold : .committed f (Runtime.gateOf c) ∈ log := by
        rw [note] at hmem
        simpa using hmem
      rw [effects] at hemptied
      exact absurd (hemptied hold) (by simp)
  | committed result target worker arena effects note =>
    have hzero := hw.drained hc worker (by simp [DisposalPc.rank])
    have hempty : c.inner.effects = [] := by
      refine hw.emptied f c hc 7 (by omega) ?_
      rw [cleared_of_worker worker arena]
      exact le_rfl
    have hreg : registered (log ++ effectNote w l w') f (Runtime.gateOf c) =
        registered log f (Runtime.gateOf c) := by
      rw [registered_append, note]
      exact List.append_nil _
    have hinv : invoked (log ++ effectNote w l w') f (Runtime.gateOf c) =
        invoked log f (Runtime.gateOf c) := by
      rw [invoked_append, note]
      exact List.append_nil _
    refine ⟨by rw [hreg, hinv, hbalance, effects], fun _ => hstays hzero, fun _ => by rw [effects, hempty]⟩

theorem Tidy.renewed (ht : Tidy w log) (hc : w.runtime.fibers f = some c)
    (hcase : c' = c ∨ ∃ b, c.step b = some c' ∧ Leads w f c l b) (hlogs : Logs w l w' f c c')
    (hgate : Runtime.gateOf c' ≠ Runtime.gateOf c) :
    effectNote w l w' = [] ∧ c.inner.effects = [] ∧ Accounted c' f (Runtime.gateOf c') log := by
  have hw := ht.standing
  rcases gate_cases hcase with hsame | ⟨hcomplete, hnew, n, b, x, rfl⟩
  · exact absurd hsame hgate
  have hempty : c.inner.effects = [] := hw.complete hc hcomplete (by omega) le_rfl
  have hunknown : ∀ y ∈ log, y.fiber ≠ f ∨ y.gate ≠ Runtime.gateOf c' := by
    refine fun y hy => .inr fun heq => ?_
    have hlt := (ht.known y hy).2
    rw [heq] at hlt
    have hbelow : c'.generation < w.runtime.nextGeneration c'.plugin := hlt
    rw [hnew] at hbelow
    exact Nat.lt_irrefl _ hbelow
  have heffects : c'.inner.effects = c.inner.effects := effects_kept hcase nofun nofun
  refine ⟨rfl, hempty, ⟨?_, fun hany => ?_, fun _ => heffects.trans hempty⟩⟩
  · rw [registered_other hunknown, invoked_other hunknown, heffects, hempty]
    rfl
  · rcases hany with hne | hmem
    · exact absurd (invoked_other hunknown) hne
    · rcases hunknown _ hmem with hne | hne <;> exact absurd rfl hne

theorem tidy_step (ht : Tidy w log) (hs : w.step l = some w') :
    Tidy w' (log ++ effectNote w l w') := by
  have hw := ht.standing
  have hw' := standing_step hw hs
  -- nothing is known of a Fiber that has just been installed
  have hcreated : ∀ f, w.runtime.fibers f = none → ∀ x ∈ log ++ effectNote w l w', x.fiber ≠ f := by
    intro f hnone x hx heq
    have hex : ∃ c, w.runtime.fibers x.fiber = some c := by
      rcases List.mem_append.mp hx with hold | hnew
      · exact (ht.known x hold).1
      · obtain ⟨c, hc, -⟩ := note_current hw hs hnew
        exact ⟨c, hc⟩
    obtain ⟨c, hc⟩ := hex
    rw [heq, hnone] at hc
    contradiction
  refine ⟨hw', fun x hx => ?_, fun f c' hc' => ?_, fun f c' g hc' hg => ?_, fun f g id n hmem => ?_⟩
  · rcases List.mem_append.mp hx with hold | hnew
    · obtain ⟨⟨c, hc⟩, hlt⟩ := ht.known x hold
      obtain ⟨c', hc', -⟩ := step_logs hw.topology hs hc
      exact ⟨⟨c', hc'⟩, Nat.lt_of_lt_of_le hlt (step_generations hw.topology hs _)⟩
    · obtain ⟨c, hc, hgate⟩ := note_current hw hs hnew
      obtain ⟨c', hc', -⟩ := step_logs hw.topology hs hc
      rw [hgate]
      exact ⟨⟨c', hc'⟩, Nat.lt_of_lt_of_le (hw.numbered.fibers _ c hc).2
        (step_generations hw.topology hs _)⟩
  · cases hc : w.runtime.fibers f with
    | none =>
      have hother : ∀ x ∈ log ++ effectNote w l w', x.fiber ≠ f ∨ x.gate ≠ Runtime.gateOf c' :=
        fun x hx => .inl (hcreated f hc x hx)
      have hempty : c'.inner.effects = [] := by
        cases step_turns hw.topology hs hc' with
        | kept was =>
          rw [hc] at was
          contradiction
        | stepped _ _ _ _ _ was =>
          rw [hc] at was
          contradiction
        | created _ _ _ _ _ _ now =>
          rw [now]
          rfl
      refine ⟨?_, fun hany => ?_, fun _ => hempty⟩
      · rw [registered_other hother, invoked_other hother, hempty]
        rfl
      · rcases hany with hne | hmem
        · exact absurd (invoked_other hother) hne
        · exact absurd rfl (hcreated f hc _ hmem)
    | some c =>
      obtain ⟨c'', hc'', hcase, hlogs⟩ := step_logs hw.topology hs hc
      rw [hc'] at hc''
      cases hc''
      by_cases hgate : Runtime.gateOf c' = Runtime.gateOf c
      · rw [hgate]
        exact ht.accounted hc hcase hlogs hgate
      · obtain ⟨hnil, -, haccounted⟩ := ht.renewed hc hcase hlogs hgate
        rw [hnil, List.append_nil]
        exact haccounted
  · cases hc : w.runtime.fibers f with
    | none =>
      have hother : ∀ x ∈ log ++ effectNote w l w', x.fiber ≠ f ∨ x.gate ≠ g :=
        fun x hx => .inl (hcreated f hc x hx)
      rw [registered_other hother, invoked_other hother]
      rfl
    | some c =>
      obtain ⟨c'', hc'', hcase, hlogs⟩ := step_logs hw.topology hs hc
      rw [hc'] at hc''
      cases hc''
      by_cases hcg : g = Runtime.gateOf c
      · -- the generation has just ended, with nothing left in the ledger
        have hgate : Runtime.gateOf c' ≠ Runtime.gateOf c := fun heq => hg (hcg.trans heq.symm)
        obtain ⟨hnil, hempty, -⟩ := ht.renewed hc hcase hlogs hgate
        have hbalance := (ht.current f c hc).balance
        rw [hnil, List.append_nil, hcg, hbalance, hempty]
        rfl
      · have hother : ∀ x ∈ effectNote w l w', x.fiber ≠ f ∨ x.gate ≠ g := by
          intro x hx
          obtain ⟨d, hd, hgate⟩ := note_current hw hs hx
          by_cases hf : x.fiber = f
          · rw [hf, hc] at hd
            cases hd
            rw [hgate]
            exact .inr (Ne.symm hcg)
          · exact .inl hf
        obtain ⟨hreg, hinv, -⟩ := same_log log hother
        rw [hreg, hinv]
        exact ht.past f c g hc hcg
  · rcases List.mem_append.mp hmem with hold | hnew
    · exact ht.silent f g id n hold
    · obtain ⟨c, hc, -⟩ := note_current hw hs hnew
      obtain ⟨c', -, -, hlogs⟩ := step_logs hw.topology hs hc
      cases hlogs with
      | quiet _ note => exact absurd rfl (note _ hnew)
      | registered _ _ _ _ _ _ _ note | committed _ _ _ _ _ note =>
        rw [note] at hnew
        simp at hnew
      | invoked _ removed worker _ _ note =>
        rw [note, List.mem_singleton] at hnew
        cases hnew
        exact (hw.drained hc worker (by simp [DisposalPc.rank])).2

theorem tidy_new : Tidy .new [] where
  standing := standing_new
  known := nofun
  current := fun f c hc => by cases hc
  past := fun f c g hc => by cases hc
  silent := nofun

end Step

/-! ## Whole runs -/

theorem tidy_reach {p : Contexts × List EffectEvent}
    (h : Reach (recording step effectNote) anyStep (.new, []) p) : Tidy p.1 p.2 := by
  induction h with
  | refl => exact tidy_new
  | tail _ _ hstep ih =>
    obtain ⟨hs, hlog⟩ := recording_eq_some hstep
    rw [hlog]
    exact tidy_step ih hs

/-- What a generation registered is what was invoked for it, last in first out, and what is left. -/
theorem Tidy.order {log : List EffectEvent} (ht : Tidy w log) (f : FiberId) (g : Gate) :
    ∃ left, registered log f g = left ++ (invoked log f g).reverse ∧
      (.committed f g ∈ log → left = []) := by
  cases hc : w.runtime.fibers f with
  | none =>
    have hother : ∀ x ∈ log, x.fiber ≠ f ∨ x.gate ≠ g := by
      refine fun x hx => .inl fun heq => ?_
      obtain ⟨⟨c, hex⟩, -⟩ := ht.known x hx
      rw [heq, hc] at hex
      contradiction
    refine ⟨[], ?_, fun _ => rfl⟩
    rw [registered_other hother, invoked_other hother]
    rfl
  | some c =>
    by_cases hg : g = Runtime.gateOf c
    · obtain ⟨hbalance, -, hemptied⟩ := ht.current f c hc
      rw [hg]
      exact ⟨c.inner.effects, hbalance, hemptied⟩
    · exact ⟨[], ht.past f c g hc hg, fun _ => rfl⟩

/-- Each effect is invoked at most once, last in first out, with no lease of its generation left; all of
them are when the disposal is committed. -/
theorem effects_once {log : List EffectEvent}
    (h : Reach (recording step effectNote) anyStep (.new, []) (w, log)) (f : FiberId) (g : Gate) :
    invoked log f g <+: (registered log f g).reverse ∧
      (.committed f g ∈ log → invoked log f g = (registered log f g).reverse) ∧
      ∀ id inflight, .invoked f g id inflight ∈ log → inflight = 0 := by
  have ht := tidy_reach h
  obtain ⟨left, hbalance, hleft⟩ := ht.order f g
  have hreverse : (registered log f g).reverse = invoked log f g ++ left.reverse := by
    rw [hbalance, List.reverse_append, List.reverse_reverse]
  refine ⟨⟨left.reverse, hreverse.symm⟩, fun hcommitted => ?_, ht.silent f g⟩
  rw [hreverse, hleft hcommitted]
  exact (List.append_nil _).symm

/-- A Fiber that registers two effects, and is disposed; the one that is invoked first fails. -/
def effectsRun : List ContextLabel :=
  (([.install 0 none ⟨[], [], .Restart⟩ false, .fiber 0 (.installValidate (.ok ())),
    .fiber 0 (.installCheck true), .fiber 0 (.activationLock 0), .fiber 0 (.activationBegin 0 true (.ok 0)),
    .fiber 0 (.activationPoll 0)] : List RuntimeLabel).map .runtime) ++
  [ContextLabel.capture 0, .lease 0, .effect 0 1, .effect 0 2, .finish 0] ++
  ([.activationReturn 0 (.ok ()), .activationSeal 0 true, .activationValidate 0, .activationReadStaged 0,
      .activationCheck 0 (.ok ()),
    .activationCommit 0 (.ok ()) .NONE, .activationRelease 0, .installActivated,
    .callDispose false false false, .workerLookup, .workerLock, .takeTasks, .tasksJoined (.ok ()),
    .drained, .pickChild, .unregister, .withdraw, .takeEffect,
    .effectDisposed (.error (.PluginDisposeFailed "")),
    .takeEffect, .effectDisposed (.ok ()), .takeEffect, .readTarget, .reconciled (.ok ()), .report,
    .finalizeBegin, .indexCleanup, .finalizeCommit] : List FiberLabel).map (.runtime ∘ .fiber 0)

theorem effects_once_disposed :
    ∃ w log, Reach (recording step effectNote) anyStep (.new, []) (w, log) ∧
      registered log 0 ⟨0, 1⟩ = [1, 2] ∧ .committed 0 ⟨0, 1⟩ ∈ log ∧
      invoked log 0 ⟨0, 1⟩ = (registered log 0 ⟨0, 1⟩).reverse := by
  have hrun : ((run (recording step effectNote) (.new, []) effectsRun).any fun p =>
      registered p.2 0 ⟨0, 1⟩ = [1, 2] ∧ .committed 0 ⟨0, 1⟩ ∈ p.2) = true := by
    decide
  obtain ⟨⟨w, log⟩, hp, hrun⟩ := (Option.any_eq_true _ _).mp hrun
  obtain ⟨hregistered, hcommitted⟩ := of_decide_eq_true hrun
  have hreach := reach_of_run hp
  exact ⟨w, log, hreach, hregistered, hcommitted, (effects_once hreach 0 ⟨0, 1⟩).2.1 hcommitted⟩

end Cordis.Contexts
