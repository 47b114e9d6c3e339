import Cordis.Proof.Members

/-!
# What a finalizer publishes and what it has done

`finalize_fiber_disposal` in one go, on any record and for any report of a disposal body or of the supervisor
in its place. The block that checks the target decides about the indexes with a `terminated` of its own;
everything later goes by the argument.
-/

namespace Cordis

namespace Runtime

open Machine

variable {rt : Runtime} {f : FiberId} {c : FiberCell} {result : Outcome} {target : Option FiberState}
  {terminated : Bool}

/-- What a body that has recorded `errors` reports, or the supervisor in its place. -/
inductive Reported (errors : List CleanupIssue) : Outcome → Option FiberState → Bool → Prop
  | finished (target : FiberState) (lawful : target = .Disposed ∨ target = .WaitingDependencies) :
      Reported errors (aggregate errors) (some target) false
  | cutShort (primary : CordisError) : Reported errors (.error primary) none true

theorem reported_of_step {pc : DisposalPc} {l : FiberLabel} {c' : FiberCell}
    (hlawful : ∀ t, pc.target = some t → t = .Disposed ∨ t = .WaitingDependencies) (hpc : c.worker = some pc)
    (hbody : pc.inBody = true) (hin : c.inArena = true) (h : c.stepWorker pc l = some c')
    (hw : c'.worker = some (.finished result target terminated)) :
    Reported c'.inner.disposal.errors result target terminated := by
  have hset : ∀ q g, (c.setWorker q g).worker = some q := by
    intro q g
    unfold FiberCell.setWorker
    rfl
  have hmut : ∀ g, (c.withMut g).worker = some pc := by
    intro g
    unfold FiberCell.withMut
    rw [if_pos hin]
    exact hpc
  cases l
  all_goals simp only [FiberCell.stepWorker] at h
  case drainTimedOut =>
    split at h
    · split_ifs at h
      · cases h
        rw [hpc] at hw
        cases hw
      · cases h
        cases hw
        exact .cutShort _
    · contradiction
  case report =>
    cases pc with
    | reporting t =>
      cases h
      cases hw
      have hresult : c.look (fun r => some (aggregate r.disposal.errors)) =
          some (aggregate c.inner.disposal.errors) := if_pos hin
      rw [hresult]
      exact .finished t (hlawful t rfl)
    | _ => contradiction
  case workerDied =>
    split_ifs at h
    cases h
    cases hw
    exact .cutShort _
  all_goals
    repeat' split at h
    all_goals first
      | contradiction
      | (cases h
         simp only [hset, hmut, reduceCtorEq, Option.some.injEq] at hw)

/-- `finalize_fiber_disposal`: the Runtime in which the observation is published, and the one after that. -/
def finalizeFiberDisposal (rt : Runtime) (f : FiberId) : Option (Runtime × Runtime) := do
  let rt ← rt.fiberStep f .finalizeBegin
  let rt ← rt.fiberStep f .indexCleanup
  let rt' ← rt.fiberStep f .finalizeCommit
  pure (rt, rt')

/-- No index has Fiber `f` for what its record `c` says about it. -/
structure Detached (rt : Runtime) (f : FiberId) (c : FiberCell) : Prop where
  dependents : ∀ key ∈ c.inner.descriptor.dependencies, f ∉ rt.dependents key
  declared : ∀ key ∈ c.inner.descriptor.provisions, f ∉ rt.declared c.inner.scope key
  member : ∀ r, rt.scope c.inner.scope = some r → f ∉ r.fibers

/-- The dependency edges, the provider declarations and the Scopes are the same. -/
structure SameIndexes (rt rt' : Runtime) : Prop where
  dependents : rt'.dependents = rt.dependents
  declared : rt'.declared = rt.declared
  scopes : rt'.scopes = rt.scopes

/-- The observation tells what became of Fiber `f`, whose record was `c` in `rt`, in `rt'`; it was published
in `before`. -/
structure Coherent (rt before rt' : Runtime) (f : FiberId) (c c' : FiberCell) (target : Option FiberState)
    (o : DisposalObservation) : Prop where
  moved : o.IsCommitted ↔
    ∃ t, target = some t ∧ c.inner.state.canTransitionTo t = true ∧ c'.inner.state = t
  committed : o.IsCommitted →
    c'.inner.disposal.phase = .Complete ∧ (target = some .Disposed → before.Detached f c)
  incomplete : ¬ o.IsCommitted →
    c'.inner.disposal.phase = .Terminated ∧ c'.inner.state = c.inner.state ∧ SameIndexes rt rt'
  legacy : o.IsCommitted → (o.legacyResult = .ok () ↔ o.issues = [])

/-! ## The three sections -/

theorem fiberStep_of {l l' : FiberLabel} {c' : FiberCell} (hf : rt.fibers f = some c)
    (hl : rt.answered f c l = some l') (hs : c.step l' = some c') :
    rt.fiberStep f l = some (fiberEffect f c c' l' (rt.setFiber f c')) := by
  unfold fiberStep
  rw [hf]
  simp only [Option.bind_eq_bind, Option.bind_some, hl, hs, Option.pure_def]

/-- The indexes without Fiber `f`, if there is a Scope to be left. -/
def detach (rt : Runtime) (f : FiberId) (c : FiberCell) : Option ScopeId → Runtime
  | some scope => ((rt.removeDependencies c.inner.descriptor.dependencies f).removeProviders scope
      c.inner.descriptor.provisions f).delist scope f
  | none => rt

theorem detach_fibers (rt : Runtime) (f : FiberId) (c : FiberCell) (indexes : Option ScopeId) :
    (rt.detach f c indexes).fibers = rt.fibers := by
  cases indexes with
  | none => rfl
  | some scope =>
    simp only [detach, delist, modifyScope]
    split <;> rfl

theorem finalize_eq (hc : rt.fiber f = some c) (hw : c.worker = some (.finished result target terminated)) :
    let p := c.inner.finalizeBegin result target terminated
    let q := p.1.finalizeCommit p.2.1 target terminated
    ∃ (rt₁ : Runtime) (c' : FiberCell), SameIndexes rt rt₁ ∧
      rt.finalizeFiberDisposal f =
        some (rt₁.detach f c p.2.2, (rt₁.detach f c p.2.2).setFiber f c') ∧ c'.inner = q.1 ∧
      c'.published = Function.update c.published c.inner.disposal.completion
        ((c.published c.inner.disposal.completion).or (some q.2)) := by
  intro p q
  obtain ⟨hf, hin⟩ := fiber_eq_some.mp hc
  -- the record after each of the sections
  let c₁ := { c with inner := p.1, worker := some (.finalizing p.2.1 target terminated p.2.2) }
  let c₂ := { c with inner := p.1, worker := some (.indexed p.2.1 target terminated) }
  let c₃ := { c₂ with
    inner := q.1
    worker := none
    published := Function.update c.published c.inner.disposal.completion
      ((c.published c.inner.disposal.completion).or (some q.2)) }
  have hbegin : rt.fiberStep f .finalizeBegin = some (rt.setFiber f c₁) := by
    refine fiberStep_of (l := .finalizeBegin) hf rfl ?_
    simp [FiberCell.step, hw, FiberCell.stepWorker, hin, c₁, p]
  have hindex : (rt.setFiber f c₁).fiberStep f .indexCleanup =
      some (((rt.setFiber f c₁).setFiber f c₂).detach f c p.2.2) := by
    have hstep : c₁.step .indexCleanup = some c₂ := by simp [FiberCell.step, FiberCell.stepWorker, c₁, c₂]
    rw [fiberStep_of (by simp [setFiber]) rfl hstep]
    simp only [fiberEffect, c₁]
    cases p.2.2 <;> rfl
  let before := ((rt.setFiber f c₁).setFiber f c₂).detach f c p.2.2
  have hbefore : before.fibers f = some c₂ := by
    simp only [before, detach_fibers]
    simp [setFiber]
  have hcommit : before.fiberStep f .finalizeCommit = some (before.setFiber f c₃) := by
    refine fiberStep_of (l := .finalizeCommit) hbefore rfl ?_
    have hstep : c₂.step .finalizeCommit = some c₃ := by
      simp only [FiberCell.step, FiberCell.stepWorker, c₂, Option.bind_some, if_pos hin]
      rfl
    exact hstep
  refine ⟨(rt.setFiber f c₁).setFiber f c₂, c₃, ⟨rfl, rfl, rfl⟩, ?_, rfl, rfl⟩
  unfold finalizeFiberDisposal
  rw [hbegin]
  simp only [Option.bind_eq_bind, Option.bind_some]
  rw [hindex]
  simp only [Option.bind_some]
  rw [hcommit]
  rfl

theorem detach_detached (rt : Runtime) (f : FiberId) (c : FiberCell) :
    (rt.detach f c (some c.inner.scope)).Detached f c := by
  let rt₁ := (rt.removeDependencies c.inner.descriptor.dependencies f).removeProviders c.inner.scope
    c.inner.descriptor.provisions f
  have hsame : (rt₁.delist c.inner.scope f).dependents = rt₁.dependents ∧
      (rt₁.delist c.inner.scope f).declared = rt₁.declared := by
    unfold delist modifyScope
    split <;> exact ⟨rfl, rfl⟩
  constructor
  · intro key hkey hmem
    rw [detach, hsame.1] at hmem
    simp [rt₁, removeDependencies, removeProviders, hkey] at hmem
  · intro key hkey hmem
    rw [detach, hsame.2] at hmem
    simp [rt₁, removeDependencies, removeProviders, hkey] at hmem
  · intro r hr hmem
    obtain ⟨hscopes, hin⟩ := scope_eq_some.mp hr
    rw [detach, delist_scopes] at hscopes
    obtain ⟨r₀, -, rfl⟩ := Option.map_eq_some_iff.mp hscopes
    have hin₀ : r₀.inArena = true := by
      split_ifs at hin with h
      · exact h.2
      · exact hin
    rw [if_pos ⟨rfl, hin₀⟩] at hmem
    simp at hmem

theorem SameIndexes.detached {rt' : Runtime} (h : SameIndexes rt rt') : rt'.Detached f c ↔ rt.Detached f c := by
  have hscope : ∀ s, rt'.scope s = rt.scope s := fun s => by rw [scope, h.scopes, scope]
  constructor
  · intro hd
    exact ⟨fun k hk => h.dependents ▸ hd.dependents k hk, fun k hk => h.declared ▸ hd.declared k hk,
      fun r hr => hd.member r (by rw [hscope, hr])⟩
  · intro hd
    exact ⟨fun k hk => h.dependents ▸ hd.dependents k hk, fun k hk => h.declared ▸ hd.declared k hk,
      fun r hr => hd.member r (by rw [← hscope, hr])⟩

theorem aggregate_ok {errors : List CleanupIssue} : aggregate errors = .ok () ↔ errors = [] := by
  match errors with
  | [] => simp [aggregate]
  | [issue] => simp [aggregate]
  | _ :: _ :: _ => simp [aggregate]

/-- The indexes are left for `Disposed`, unless the result passes for that of a worker. -/
theorem finalizeBegin_legal {r : FiberMutable} {t : FiberState} (hlegal : r.state.canTransitionTo t = true) :
    (r.finalizeBegin result (some t) false).2.1 = result ∧
      ((∀ e, result = .error e → e.isWorkerError = false) → t = .Disposed →
        (r.finalizeBegin result (some t) false).2.2 = some r.scope) ∧
      ((∃ e, result = .error e ∧ e.isWorkerError = true) →
        (r.finalizeBegin result (some t) false).2.2 = none) := by
  unfold FiberMutable.finalizeBegin
  simp only [if_pos hlegal, Bool.false_or]
  refine ⟨trivial, fun hother ht => ?_, fun ⟨e, he, hworker⟩ => ?_⟩
  · subst ht
    cases result with
    | ok => rfl
    | error e => simp [hother e rfl]
  · subst he
    simp [hworker]

/-- **A finalization is coherent** just when its target is a legal successor, and it does not take a
collected error for that of a worker while the indexes still have the Fiber. -/
theorem finalize_coherent_iff (hc : rt.fiber f = some c)
    (hw : c.worker = some (.finished result target terminated))
    (hreported : Reported c.inner.disposal.errors result target terminated)
    (hopen : c.published c.inner.disposal.completion = none) :
    ∃ before rt' c' o, rt.finalizeFiberDisposal f = some (before, rt') ∧ rt'.fibers f = some c' ∧
      c'.published c.inner.disposal.completion = some o ∧
      (Coherent rt before rt' f c c' target o ↔
        ∀ t, target = some t → c.inner.state.canTransitionTo t = true ∧
          (t = .Disposed → (∀ e, result = .error e → e.isWorkerError = false) ∨ rt.Detached f c)) := by
  obtain ⟨rt₁, c', hsame, hfinal, hinner, hpublished⟩ := finalize_eq hc hw
  have hobservation : c'.published c.inner.disposal.completion =
      some ((c.inner.finalizeBegin result target terminated).1.finalizeCommit
        (c.inner.finalizeBegin result target terminated).2.1 target terminated).2 := by
    rw [hpublished, Function.update_self, hopen]
    rfl
  refine ⟨_, _, c', _, hfinal, Function.update_self .., hobservation, ?_⟩
  cases hreported with
  | cutShort primary =>
    have hnot : ¬ ((c.inner.finalizeBegin (.error primary) none true).1.finalizeCommit
        (c.inner.finalizeBegin (.error primary) none true).2.1 none true).2.IsCommitted := nofun
    refine ⟨fun _ => nofun, fun _ => ⟨⟨fun h => absurd h hnot, nofun⟩, fun h => absurd h hnot, fun _ => ?_,
      fun h => absurd h hnot⟩⟩
    have hkept : (c.inner.finalizeBegin (.error primary) none true).2.2 = none := by
      simp [FiberMutable.finalizeBegin]
    rw [hinner, hkept]
    exact ⟨rfl, rfl, hsame.dependents, hsame.declared, hsame.scopes⟩
  | finished target hlawful =>
    have hcommitted :
        ((c.inner.finalizeBegin (aggregate c.inner.disposal.errors) (some target) false).1.finalizeCommit
        (c.inner.finalizeBegin (aggregate c.inner.disposal.errors) (some target) false).2.1 (some target)
        false).2.IsCommitted := rfl
    have hstate : c'.inner.state = target := by
      rw [hinner]
      rfl
    constructor
    · intro hcoherent t ht
      cases ht
      obtain ⟨t, ht, hlegal, -⟩ := hcoherent.moved.mp hcommitted
      cases ht
      refine ⟨hlegal, fun hdisposed => ?_⟩
      by_cases hworker : ∃ e, aggregate c.inner.disposal.errors = .error e ∧ e.isWorkerError = true
      · have hdetached := (hcoherent.committed hcommitted).2 (congrArg some hdisposed)
        rw [(finalizeBegin_legal hlegal).2.2 hworker] at hdetached
        exact .inr (hsame.detached.mp hdetached)
      · exact .inl fun e he => Bool.eq_false_of_not_eq_true fun h => hworker ⟨e, he, h⟩
    · intro hcondition
      obtain ⟨hlegal, hdisposed⟩ := hcondition target rfl
      obtain ⟨hresult, hleft, hkept⟩ := @finalizeBegin_legal (aggregate c.inner.disposal.errors) _ _ hlegal
      refine ⟨⟨fun _ => ⟨target, rfl, hlegal, hstate⟩, fun _ => hcommitted⟩, fun _ => ⟨?_, fun ht => ?_⟩,
        fun h => absurd hcommitted h, fun _ => ?_⟩
      · rw [hinner]
        rfl
      · cases ht
        rcases hdisposed rfl with hother | hdetached
        · rw [hleft hother rfl]
          exact detach_detached rt₁ f c
        · by_cases hworker : ∃ e, aggregate c.inner.disposal.errors = .error e ∧ e.isWorkerError = true
          · rw [hkept hworker]
            exact hsame.detached.mpr hdetached
          · have hother : ∀ e, aggregate c.inner.disposal.errors = .error e → e.isWorkerError = false :=
              fun e he => Bool.eq_false_of_not_eq_true fun h => hworker ⟨e, he, h⟩
            rw [hleft hother rfl]
            exact detach_detached rt₁ f c
      · show (c.inner.finalizeBegin (aggregate c.inner.disposal.errors) (some target) false).2.1 = .ok () ↔
          c.inner.disposal.errors = []
        rw [hresult]
        exact aggregate_ok

/-- The disposal of an `Active` Fiber that has one effect, up to the report of its body. -/
def reporting (outcome : Outcome) : List RuntimeLabel :=
  installed 0 0 none ⟨[], [], .Restart⟩ false [.fiber 0 (.register (.effect 0))] ++
  sections 0 [.callDispose false false false, .workerLookup, .workerLock, .takeTasks, .tasksJoined (.ok ()),
    .drained, .pickChild, .unregister, .withdraw, .takeEffect, .effectDisposed outcome, .takeEffect,
    .readTarget, .reconciled (.ok ()), .report]

/-- The effect fails, and the finalization is coherent. -/
theorem finalize_coherent_iff_effect :
    ∃ rt c before rt' c' o, Reach step anyStep .new rt ∧ rt.fiber 0 = some c ∧
      rt.finalizeFiberDisposal 0 = some (before, rt') ∧ rt'.fibers 0 = some c' ∧
      c'.published c.inner.disposal.completion = some o ∧
      Coherent rt before rt' 0 c c' (some .Disposed) o := by
  obtain ⟨rt, hrt⟩ : ∃ rt, run step .new (reporting (.error (.CleanupFailed "flush"))) = some rt := ⟨_, rfl⟩
  obtain ⟨c, hc, hw, herrors, hopen⟩ : ∃ c, rt.fiber 0 = some c ∧
      c.worker = some (.finished (aggregate c.inner.disposal.errors) (some .Disposed) false) ∧
      c.inner.disposal.errors = [.of .EffectCleanup (.CleanupFailed "flush")] ∧
      c.published c.inner.disposal.completion = none := by
    cases hrt
    exact ⟨_, rfl, rfl, rfl, rfl⟩
  have hstate : c.inner.state = .Disposing := by
    cases hrt
    cases hc
    rfl
  obtain ⟨before, rt', c', o, hfinal, hc', ho, hcoherent⟩ :=
    finalize_coherent_iff hc hw (.finished _ (.inl rfl)) hopen
  refine ⟨rt, c, before, rt', c', o, reach_of_run hrt, hc, hfinal, hc', ho, hcoherent.mpr fun t ht => ?_⟩
  cases ht
  refine ⟨by rw [hstate]; rfl, fun _ => .inl fun e he => ?_⟩
  rw [herrors] at he
  cases he
  rfl

/-- The effect fails with the error of a worker: the disposal is published as committed, and the root Scope
still has the Fiber. -/
theorem finalize_incoherent :
    ¬ ∀ rt, Reach step anyStep .new rt → ∀ f c result target terminated, rt.fiber f = some c →
      c.worker = some (.finished result target terminated) → ∀ before rt' c' o,
        rt.finalizeFiberDisposal f = some (before, rt') → rt'.fibers f = some c' →
          c'.published c.inner.disposal.completion = some o → Coherent rt before rt' f c c' target o := by
  intro h
  obtain ⟨rt, hrt⟩ : ∃ rt, run step .new (reporting (.error (.DisposalWorkerTerminated "gone"))) = some rt :=
    ⟨_, rfl⟩
  obtain ⟨c, result, before, rt', c', o, hc, hw, hfinal, hc', ho, hcommitted, hlisted⟩ :
      ∃ c result before rt' c' o, rt.fiber 0 = some c ∧
        c.worker = some (.finished result (some .Disposed) false) ∧
        rt.finalizeFiberDisposal 0 = some (before, rt') ∧ rt'.fibers 0 = some c' ∧
        c'.published c.inner.disposal.completion = some o ∧ o.IsCommitted ∧
        ∃ r, before.scope c.inner.scope = some r ∧ 0 ∈ r.fibers := by
    cases hrt
    exact ⟨_, _, _, _, _, _, rfl, rfl, rfl, rfl, rfl, rfl, _, rfl, List.mem_cons_self⟩
  have hcoherent := h rt (reach_of_run hrt) 0 c result _ _ hc hw before rt' c' o hfinal hc' ho
  obtain ⟨r, hr, hmem⟩ := hlisted
  exact ((hcoherent.committed hcommitted).2 rfl).member r hr hmem

end Runtime

end Cordis
