import Cordis.Proof.Topology
import Cordis.Runtime.Reconcile

/-!
# Which candidates are reached

What a visit of a candidate leads to, and that every candidate is visited as long as no call fails while
there are others left.
-/

namespace Cordis

open Machine

/-- Why a Fiber that depends on a symbol has to be seen to. -/
inductive Duty
  | dispose (key : ServiceSymbol)
  | activate

namespace Duty

variable (duty : Duty) (f : FiberId) (d : PluginDescriptor)

def state : Duty → FiberState
  | dispose _ => .Active
  | activate => .WaitingDependencies

/-- The answer of `dependencies_met`. -/
def satisfied : Duty → Bool
  | dispose _ => false
  | activate => true

/-- What is to be done. -/
def handover : Duty → Handover
  | dispose _ => .disposeFiber f (d.dependencyPolicy == .Restart)
  | activate => .activate f

/-- What the lookups from `scope` say. -/
def Resolves (rt : Runtime) (scope : ScopeId) : Duty → Prop
  | dispose key => key ∈ d.dependencies ∧ rt.resolveSymbol scope key = none
  | activate => ∀ key ∈ d.dependencies, (rt.resolveSymbol scope key).isSome = true

/-- The lookups that are left will tell. -/
def Remains (keys : List ServiceSymbol) : Duty → Prop
  | dispose key => key ∈ keys
  | activate => ∀ key ∈ keys, key ∈ d.dependencies

/-- Fiber `f` is in that situation, whichever of the Scopes `within` it is in. -/
def Due (rt : Runtime) (within : ScopeId → Prop) : Prop :=
  (∃ c, rt.fiber f = some c ∧ c.inner.state = duty.state ∧ c.inner.descriptor = d ∧ within c.inner.scope) ∧
    ∀ scope, within scope → duty.Resolves d rt scope

end Duty

namespace Reconcile

variable {s s' : Reconcile} {l : ReconcileLabel} {duty : Duty} {f : FiberId} {d : PluginDescriptor}
  {within : ScopeId → Prop}

/-- No call returns an error while there are candidates left. -/
def Unfailed (s : Reconcile) (l : ReconcileLabel) : Prop :=
  l = .propagate → ∀ e left, s.pc = .answered (.error e) left → left = []

/-- Fiber `f` is still to be seen to. -/
def Awaits (duty : Duty) (f : FiberId) (d : PluginDescriptor) (within : ScopeId → Prop) (s : Reconcile) : Prop :=
  match s.pc with
  | .collecting _ => True
  | .visiting left | .found _ _ left | .disposing _ _ left | .activating _ _ left | .answered _ left => f ∈ left
  | .looking g state scope policy keys left => f ∈ left ∨
      g = f ∧ state = duty.state ∧ within scope ∧ policy = d.dependencyPolicy ∧ duty.Remains d keys
  | .looked g state policy satisfied left => f ∈ left ∨
      g = f ∧ state = duty.state ∧ policy = d.dependencyPolicy ∧ satisfied = duty.satisfied
  | .returned _ => False

theorem make_prefix (g : FiberId) (policy : DependencyPolicy) (left : List FiberId) (state : FiberState)
    (satisfied : Bool) : s.handed <+: (s.make g policy left state satisfied).handed := by
  unfold make
  split
  · exact List.prefix_append ..
  · split
    · exact List.prefix_append ..
    · exact List.prefix_append ..
  · exact List.prefix_rfl

theorem step_handed (h : s.step l = some s') : s.handed <+: s'.handed := by
  cases l with
  | call =>
    simp only [step] at h
    split at h
    · cases h
      exact make_prefix ..
    · cases h
  | awaited | runtime =>
    obtain ⟨-, -, rfl⟩ := Option.map_eq_some_iff.mp h
    exact List.prefix_rfl
  | collect | resolve | propagate =>
    simp only [step] at h
    split at h <;> cases h <;> exact List.prefix_rfl
  | dispose =>
    simp only [step] at h
    split at h
    · split at h <;> cases h <;> exact List.prefix_rfl
    · cases h
  | iterate order =>
    simp only [step] at h
    split at h
    · split_ifs at h
      cases h
      exact List.prefix_rfl
    · cases h
  | visit =>
    simp only [step] at h
    split at h
    · cases h
      exact List.prefix_rfl
    · split at h <;> cases h <;> exact List.prefix_rfl
    · cases h

theorem make_candidates (g : FiberId) (policy : DependencyPolicy) (left : List FiberId) (state : FiberState)
    (satisfied : Bool) : (s.make g policy left state satisfied).candidates = s.candidates := by
  unfold make
  split
  · rfl
  · split <;> rfl
  · rfl

theorem make_handed (left : List FiberId) :
    duty.handover f d ∈ (s.make f d.dependencyPolicy left duty.state duty.satisfied).handed := by
  cases duty with
  | dispose key => exact List.mem_append_right _ (List.mem_singleton.mpr rfl)
  | activate =>
    show _ ∈ (s.make f d.dependencyPolicy left .WaitingDependencies true).handed
    unfold make
    simp only
    split
    · exact List.mem_append_right _ (List.mem_singleton.mpr rfl)
    · exact List.mem_append_right _ (List.mem_singleton.mpr rfl)

theorem make_left (g : FiberId) (policy : DependencyPolicy) {left : List FiberId} (state : FiberState)
    (satisfied : Bool) (hf : f ∈ left) : Awaits duty f d within (s.make g policy left state satisfied) := by
  unfold make
  split
  · unfold Awaits
    simp only
    split_ifs <;> exact hf
  · split
    · exact hf
    · exact hf
  · exact hf

theorem remains_all {rt : Runtime} {scope : ScopeId} (hresolves : duty.Resolves d rt scope) :
    duty.Remains d d.dependencies := by
  cases duty with
  | dispose key => exact hresolves.1
  | activate => exact fun _ hk => hk

theorem remains_resolve {rt : Runtime} {scope : ScopeId} {key : ServiceSymbol} {keys : List ServiceSymbol}
    (hresolves : duty.Resolves d rt scope) (hremains : duty.Remains d (key :: keys)) :
    if (rt.resolveSymbol scope key).isSome then duty.Remains d keys else duty.satisfied = false := by
  cases duty with
  | dispose unmet =>
    split_ifs with hsome
    · rcases List.mem_cons.mp hremains with rfl | hrest
      · rw [hresolves.2] at hsome
        cases hsome
      · exact hrest
    · rfl
  | activate =>
    rw [if_pos (hresolves key (hremains key List.mem_cons_self))]
    exact fun k hk => hremains k (List.mem_cons_of_mem _ hk)

theorem awaits_step (hf : f ∈ s.candidates → duty.handover f d ∈ s.handed ∨ Awaits duty f d within s)
    (hdue : duty.handover f d ∉ s.handed → duty.Due f d s.runtime within) (hok : Unfailed s l)
    (h : s.step l = some s') :
    f ∈ s'.candidates → duty.handover f d ∈ s'.handed ∨ Awaits duty f d within s' := by
  intro hf'
  by_cases hhanded : duty.handover f d ∈ s.handed
  · exact .inl ((step_handed h).subset hhanded)
  have hdue := hdue hhanded
  -- what was awaited before the step
  have hawaits : f ∈ s.candidates → Awaits duty f d within s := fun hmem => (hf hmem).resolve_left hhanded
  cases l with
  | collect =>
    simp only [step] at h
    split at h
    · cases h
      exact .inr trivial
    · cases h
  | iterate order =>
    simp only [step] at h
    split at h
    · split_ifs at h with hperm
      cases h
      exact .inr (hperm.mem_iff.mpr (List.mem_dedup.mpr hf'))
    · cases h
  | visit =>
    simp only [step] at h
    split at h
    · rename_i hpc
      cases h
      have hnil := hawaits hf'
      unfold Awaits at hnil
      rw [hpc] at hnil
      cases hnil
    · rename_i g left hpc
      have hmem : f ∈ g :: left := by
        have hold := hawaits (by split at h <;> (cases h; exact hf'))
        unfold Awaits at hold
        rwa [hpc] at hold
      obtain ⟨⟨c, hc, hstate, hdescriptor, hwithin⟩, hresolves⟩ := hdue
      rcases List.mem_cons.mp hmem with rfl | hleft
      · rw [hc] at h
        cases h
        rw [← hdescriptor] at hresolves ⊢
        exact .inr (.inr ⟨rfl, hstate, hwithin, rfl, remains_all (hresolves _ hwithin)⟩)
      · split at h
        · cases h
          exact .inr (.inl hleft)
        · cases h
          exact .inr hleft
    · cases h
  | resolve =>
    simp only [step] at h
    split at h
    · rename_i g state scope policy left hpc
      cases h
      have hold := hawaits hf'
      unfold Awaits at hold
      rw [hpc] at hold
      rcases hold with hleft | ⟨hg, hstate, -, hpolicy, hremains⟩
      · exact .inr (.inl hleft)
      · refine .inr (.inr ⟨hg, hstate, hpolicy, ?_⟩)
        cases duty with
        | dispose key => cases hremains
        | activate => rfl
    · rename_i g state scope policy key keys left hpc
      cases h
      have hold := hawaits hf'
      unfold Awaits at hold
      rw [hpc] at hold
      unfold Awaits
      rcases hold with hleft | ⟨hg, hstate, hwithin, hpolicy, hremains⟩
      · split_ifs
        · exact .inr (.inl hleft)
        · exact .inr (.inl hleft)
      · have hnext := remains_resolve (hdue.2 scope hwithin) hremains
        split_ifs at hnext ⊢
        · exact .inr (.inr ⟨hg, hstate, hwithin, hpolicy, hnext⟩)
        · exact .inr (.inr ⟨hg, hstate, hpolicy, hnext.symm⟩)
    · cases h
  | call =>
    simp only [step] at h
    split at h
    · rename_i g state policy satisfied left hpc
      cases h
      have hold := hawaits (make_candidates g policy left state satisfied ▸ hf')
      unfold Awaits at hold
      rw [hpc] at hold
      rcases hold with hleft | ⟨rfl, rfl, rfl, rfl⟩
      · exact .inr (make_left g policy state satisfied hleft)
      · exact .inl (make_handed left)
    · cases h
  | dispose =>
    simp only [step] at h
    split at h
    · rename_i g wait left hpc
      have hleft : f ∈ s.candidates → f ∈ left := fun hmem => by
        have hold := hawaits hmem
        unfold Awaits at hold
        rwa [hpc] at hold
      split at h <;> (cases h; exact .inr (hleft hf'))
    · cases h
  | awaited =>
    obtain ⟨⟨answer, left⟩, houtcome, rfl⟩ := Option.map_eq_some_iff.mp h
    have hold := hawaits hf'
    right
    unfold Awaits at hold
    unfold Reconcile.outcome at houtcome
    split at houtcome
    · rename_i g call left' hpc
      simp only [Option.bind_eq_some_iff, Option.map_eq_some_iff, Prod.mk.injEq] at houtcome
      obtain ⟨c, -, call, -, o, -, -, rfl⟩ := houtcome
      rwa [hpc] at hold
    · rename_i g call left' hpc
      split at houtcome
      · cases houtcome
        rwa [hpc] at hold
      · cases houtcome
    · cases houtcome
  | propagate =>
    simp only [step] at h
    split at h
    · rename_i left hpc
      cases h
      have hold := hawaits hf'
      unfold Awaits at hold
      rw [hpc] at hold
      exact .inr hold
    · rename_i e left hpc
      cases h
      have hold := hawaits hf'
      unfold Awaits at hold
      rw [hpc, hok rfl e left hpc] at hold
      cases hold
    · cases h
  | runtime l =>
    obtain ⟨rt, -, rfl⟩ := Option.map_eq_some_iff.mp h
    exact .inr (hawaits hf')

/-- **Every candidate is reached**, as long as no call fails while there are candidates left: one that is
due until it is handed over is handed over before the call returns. -/
theorem reconcile_reaches_candidates {rt : Runtime} {symbols : List ServiceSymbol} {outcome : Outcome}
    (h : Reach step (fun t l => Unfailed t l ∧
      (duty.handover f d ∉ t.handed → duty.Due f d t.runtime within)) (start rt symbols) s)
    (hreturned : s.pc = .returned outcome) (hf : f ∈ s.candidates) : duty.handover f d ∈ s.handed := by
  have hinv : f ∈ s.candidates → duty.handover f d ∈ s.handed ∨ Awaits duty f d within s :=
    h.invariant (I := fun t => f ∈ t.candidates → duty.handover f d ∈ t.handed ∨ Awaits duty f d within t)
      (fun _ => .inr (show Awaits duty f d within (start rt symbols) from trivial)) fun _ _ _ ht hok hs =>
        awaits_step ht hok.2 hok.1 hs
  rcases hinv hf with hhanded | hawaits
  · exact hhanded
  · unfold Awaits at hawaits
    rw [hreturned] at hawaits
    cases hawaits

/-- The provider of key 5 is being disposed, and has withdrawn the service. Fiber 1 depends on it, and is
being replaced by Fiber 2; what the list installs comes after. -/
def providerLost (others : List RuntimeLabel) : List RuntimeLabel :=
  Runtime.installed 0 0 none ⟨[], [5], .Restart⟩ false [.provide 0 0 5] ++
  Runtime.installed 1 0 none ⟨[5], [], .Restart⟩ false [] ++ Runtime.reloading 1 ++ [.createScope 0 true] ++
  Runtime.installed 2 1 (some 1) ⟨[5], [], .Restart⟩ true [] ++ others ++
  Runtime.sections 0 [.callDispose false false false, .workerLookup, .workerLock, .takeTasks,
    .tasksJoined (.ok ()), .drained, .pickChild, .unregister, .withdraw, .withdrawLook true, .withdrawRemove,
        .withdraw, .takeEffect,
    .readTarget]

/-- Fiber `f` in `scope` is `Active` without its only dependency, key 5. -/
def lost (f : FiberId) (scope : ScopeId) (s : Reconcile) : Bool :=
  ((s.runtime.fiber f).any fun c => c.inner.state == .Active && c.inner.descriptor.dependencies == [5] &&
    c.inner.descriptor.provisions == [] && c.inner.descriptor.dependencyPolicy == .Restart &&
    c.inner.scope == scope) && (s.runtime.resolveSymbol scope 5).isNone

theorem due_of_lost {f : FiberId} {scope : ScopeId} (h : lost f scope s = true) :
    (Duty.dispose 5).Due f ⟨[5], [], .Restart⟩ s.runtime (· = scope) := by
  unfold lost at h
  obtain ⟨hfiber, hnone⟩ := Bool.and_eq_true_iff.mp h
  obtain ⟨c, hc, hfiber⟩ := (Option.any_eq_true _ _).mp hfiber
  simp only [Bool.and_eq_true, beq_iff_eq] at hfiber
  obtain ⟨⟨⟨⟨hstate, hdependencies⟩, hprovisions⟩, hpolicy⟩, hscope⟩ := hfiber
  refine ⟨⟨c, hc, hstate, ?_, hscope⟩, fun scope' hscope' => ⟨List.mem_cons_self, ?_⟩⟩
  · generalize c.inner.descriptor = d at hdependencies hprovisions hpolicy
    obtain ⟨dependencies, provisions, policy⟩ := d
    simp only at hdependencies hprovisions hpolicy
    subst hdependencies hprovisions hpolicy
    rfl
  · subst hscope'
    exact Option.isNone_iff_eq_none.mp hnone

def unfailed (s : Reconcile) (l : ReconcileLabel) : Bool :=
  match l, s.pc with
  | .propagate, .answered (.error _) left => left == []
  | _, _ => true

theorem unfailed_of {s : Reconcile} {l : ReconcileLabel} (h : unfailed s l = true) : Unfailed s l := by
  rintro rfl e left hpc
  unfold unfailed at h
  rw [hpc] at h
  exact beq_iff_eq.mp h

/-- Fiber 1 is passed over, and then Fiber 2 is refused. -/
theorem reconcile_reaches_candidates_refused :
    ∃ rt s, Reach Runtime.step anyStep .new rt ∧ Reach step anyStep (start rt [5]) s ∧
      s.pc = .returned (.error (.FiberLifecycleOwned 2)) ∧ .disposeFiber 2 true ∈ s.handed := by
  obtain ⟨rt, hrt⟩ : ∃ rt, run Runtime.step .new (providerLost []) = some rt := ⟨_, rfl⟩
  obtain ⟨s, hs, hpc, hmem⟩ : ∃ s, runIf step (fun t l => unfailed t l = true ∧
      (.disposeFiber 2 true ∉ t.handed → lost 2 1 t = true)) (start rt [5])
      [.collect, .iterate [1, 2], .visit, .resolve, .call, .visit, .resolve, .call, .dispose, .propagate] =
        some s ∧ s.pc = .returned (.error (.FiberLifecycleOwned 2)) ∧ 2 ∈ s.candidates := by
    cases hrt
    refine ⟨_, rfl, rfl, ?_⟩
    decide
  have hreach : Reach step (fun t l => Unfailed t l ∧
      ((Duty.dispose 5).handover 2 ⟨[5], [], .Restart⟩ ∉ t.handed →
        (Duty.dispose 5).Due 2 ⟨[5], [], .Restart⟩ t.runtime (· = 1))) (start rt [5]) s :=
    (reach_of_runIf hs).mono fun t l hok => ⟨unfailed_of hok.1, fun hnot => due_of_lost (hok.2 hnot)⟩
  exact ⟨rt, s, reach_of_run hrt, hreach.weaken, hpc, reconcile_reaches_candidates hreach hpc hmem⟩

/-- Fiber 2 is refused, and Fiber 3 is not reached. -/
theorem candidate_not_reached :
    ¬ ∀ rt, Reach Runtime.step anyStep .new rt → ∀ symbols (duty : Duty) f d within s outcome,
      Reach step (fun t _ => duty.Due f d t.runtime within) (start rt symbols) s → s.pc = .returned outcome →
        f ∈ s.candidates → duty.handover f d ∈ s.handed := by
  intro h
  obtain ⟨rt, hrt⟩ : ∃ rt, run Runtime.step .new
    (providerLost (Runtime.installed 3 0 none ⟨[5], [], .Restart⟩ false [])) = some rt := ⟨_, rfl⟩
  obtain ⟨s, hs, hpc, hmem, hhanded⟩ : ∃ s, runIf step (fun t _ => lost 3 0 t = true) (start rt [5])
      [.collect, .iterate [2, 3, 1], .visit, .resolve, .call, .dispose, .propagate] = some s ∧
      s.pc = .returned (.error (.FiberLifecycleOwned 2)) ∧ 3 ∈ s.candidates ∧
      s.handed = [.disposeFiber 2 true] := by
    cases hrt
    refine ⟨_, rfl, rfl, ?_, rfl⟩
    decide
  have hreach := (reach_of_runIf hs).mono fun t l => due_of_lost
  have hmem := h rt (reach_of_run hrt) [5] (.dispose 5) 3 _ _ s _ hreach hpc hmem
  rw [hhanded] at hmem
  cases List.mem_singleton.mp hmem

end Reconcile

end Cordis
