import Cordis.Proof.DeadScope

/-!
# Nobody waits for a disposal that nobody finishes

A caller of `dispose_fiber` or `dispose_scope` holds the completion of the round it joined, which only
the supervisor of that round publishes. A supervisor looks its Fiber up again by id and gives up when
the arena no longer knows it. `collect_garbage` takes out what is `Disposed` and so has no supervisor;
`remove_unstarted_fiber` looks at nothing. A disposal that came in between the insertion of the Fiber and
the failing validation of its install is lost (`a_waiter_is_stranded`), and so is one whose caller has
found the Fiber before and locks the record after. Where neither happens, every supervisor publishes, and
once (`no_waiter_stranded`).
-/

namespace Cordis

open Machine

variable {c c' : FiberCell} {l : FiberLabel} {k : Control}

/-! ## Who takes a Fiber out of the arena -/

theorem withMut_inArena (c : FiberCell) (f : FiberMutable → FiberMutable) :
    (c.withMut f).inArena = c.inArena := by
  unfold FiberCell.withMut
  split_ifs <;> rfl

theorem dispose_inArena (c : FiberCell) (w p a : Bool) : (c.dispose w p a).1.inArena = c.inArena := by
  unfold FiberCell.dispose
  split <;> rfl

theorem stepActivation_inArena {n : Nat} {pc : ActivationPc}
    (h : c.stepActivation n pc l = some c') : c'.inArena = c.inArena := by
  cases l <;> simp only [FiberCell.stepActivation] at h
  case activationFail =>
    split at h <;> try contradiction
    cases h
    exact withMut_inArena c _
  case activationDispose =>
    split at h <;> try contradiction
    have hdispose := dispose_inArena c false false true
    split at h
    all_goals
      rename_i heq
      cases h
      rw [heq] at hdispose
      exact hdispose
  all_goals
    repeat' split at h
    all_goals first | contradiction | (cases h; rfl)

theorem stepWorker_inArena {pc : DisposalPc} (h : c.stepWorker pc l = some c') :
    c'.inArena = c.inArena := by
  cases l <;> simp only [FiberCell.stepWorker] at h
  all_goals
    repeat' split at h
    all_goals first
      | contradiction
      | (cases h; rfl)
      | (cases h; exact withMut_inArena c _)

theorem step_inArena (h : c.step l = some c') (hreclaim : l ≠ .reclaim) (hremove : l ≠ .installRemove) :
    c'.inArena = c.inArena := by
  cases l <;> simp only [FiberCell.step] at h
  case callDispose w p a =>
    cases h
    exact dispose_inArena c w p a
  case reclaim => exact absurd rfl hreclaim
  all_goals first
    | (obtain ⟨pc, -, h⟩ := Option.bind_eq_some_iff.mp h
       first | exact stepActivation_inArena h | exact stepWorker_inArena h)
    | skip
  case installRemove => exact absurd rfl hremove
  case reloadRollback =>
    split at h <;> try contradiction
    simp only [FiberCell.stepReload] at h
    split at h <;> try contradiction
    cases h
    exact withMut_inArena c _
  all_goals
    try simp only [FiberCell.stepReload, FiberCell.stepInstall] at h
    repeat' split at h
    all_goals first
      | contradiction
      | (cases h; rfl)
      | (obtain ⟨x, -, rfl⟩ := Option.map_eq_some_iff.mp h; rfl)

/-! ## The waiters of a Fiber -/

/-- The round in progress is published or has a supervisor, and every call joined that round or one
that is published. -/
structure Control.Awaited (k : Control) : Prop where
  opened : k.phase ≠ .Idle → (k.published k.completion).isSome ∨ k.worker.isSome
  answered : ∀ n call, k.calls n = some call → (k.published call.round).isSome ∨
    call.round = k.completion ∧ k.phase ≠ .Idle

theorem awaited_created (id : FiberId) (plugin : PluginId) (scope : ScopeId)
    (descriptor : PluginDescriptor) (generation : GenerationId) (staged : Bool) :
    (FiberCell.created id plugin scope descriptor generation staged).control.Awaited where
  opened := fun h => absurd rfl h
  answered := by simp [FiberCell.control, FiberCell.created]

theorem awaited_called {call : DisposeCall} (hk : k.Awaited) (hround : call.round = k.completion)
    {n : Nat} {d : DisposeCall}
    (h : Function.update k.calls k.nextCall (some call) n = some d) :
    (k.published d.round).isSome ∨ d.round = k.completion := by
  by_cases hn : n = k.nextCall
  · rw [hn, Function.update_self] at h
    cases h
    exact .inr hround
  · rw [Function.update_of_ne hn] at h
    exact (hk.answered n d h).imp_right And.left

theorem published_move {n : Nat} {o : DisposalObservation} (hc : c.control.Consistent)
    (hm : Move l c k) (ho : c.published n = some o) : k.published n = some o := by
  cases hm with
  | finalized result target terminated hwas =>
    have hopen : c.published c.inner.disposal.completion = none :=
      hc.unpublished (.inr (by simp [FiberCell.control, hwas]))
    have hn : n ≠ c.inner.disposal.completion := by
      rintro rfl
      rw [hopen] at ho
      contradiction
    exact (Function.update_of_ne hn ..).trans ho
  | _ => exact ho

theorem supervised_move (hc : c.control.Consistent) (hin : c.worker.isSome → c.inArena = true)
    (hm : Move l c k) (hw : c.worker.isSome) (hk : k.worker = none) :
    c.published c.inner.disposal.completion = none ∧
      (k.published c.inner.disposal.completion).isSome := by
  refine ⟨hc.unpublished (.inr hw), ?_⟩
  have hsome : c.worker ≠ none := Option.isSome_iff_ne_none.mp hw
  cases hm with
  | finalized result target terminated hwas =>
    show (Function.update c.published _ _ _).isSome
    rw [Function.update_self, Option.isSome_or]
    simp
  | gaveUp pc hwas hgone =>
    rw [hin hw] at hgone
    contradiction
  | requested | worked => contradiction
  | _ => exact absurd hk hsome

theorem awaited_move (hc : c.control.Consistent) (hin : c.worker.isSome → c.inArena = true)
    (hk : c.control.Awaited) (hm : Move l c k) : k.Awaited := by
  cases hm with
  | quiet => exact hk
  | start s' hfrom => exact ⟨hk.opened, hk.answered⟩
  | restart s' hwaiting hcomplete hnext =>
    have hpublished : (c.published c.inner.disposal.completion).isSome := by
      rcases hk.opened (by simp [FiberCell.control, hcomplete]) with hp | hw
      · exact hp
      · obtain ⟨pc, hpc⟩ := Option.isSome_iff_exists.mp hw
        have hrunning := hc.running pc hpc
        simp [FiberCell.control, hcomplete, DisposalPhase.running] at hrunning
    refine ⟨fun h => absurd rfl h, fun n call hcall => .inl ?_⟩
    rcases hk.answered n call hcall with hp | ⟨hround, -⟩
    · exact hp
    · rw [hround]
      exact hpublished
  | deferred n hl hpc => exact ⟨hk.opened, hk.answered⟩
  | parked hl hlegal => exact ⟨hk.opened, hk.answered⟩
  | written s' hlegal hnext => exact ⟨hk.opened, hk.answered⟩
  | failed s' hnext => exact ⟨hk.opened, hk.answered⟩
  | refused w hl hidle => exact ⟨hk.opened, hk.answered⟩
  | joined w p a hl hphase =>
    refine ⟨hk.opened, fun n d hd => ?_⟩
    exact (awaited_called hk rfl hd).imp_right fun hround => ⟨hround, hphase⟩
  | requested w p a hl hidle hlegal =>
    refine ⟨fun _ => .inr rfl, fun n d hd => ?_⟩
    exact (awaited_called hk rfl hd).imp_right fun hround => ⟨hround, by simp⟩
  | worked pc pc' ph' b hwas hnext hphase htoken =>
    refine ⟨fun _ => .inr rfl, fun n d hd => (hk.answered n d hd).imp_right fun h => ⟨h.1, ?_⟩⟩
    rcases hphase with rfl | hrunning
    · exact h.2
    · rintro rfl
      contradiction
  | gaveUp pc hwas hgone =>
    rw [hin (by rw [hwas]; rfl)] at hgone
    contradiction
  | finalized result target terminated hwas =>
    have hpublished : (Function.update c.published c.inner.disposal.completion
        ((c.published c.inner.disposal.completion).or
          (some (c.inner.finalizeCommit result target terminated).2))
        c.inner.disposal.completion).isSome := by
      rw [Function.update_self, Option.isSome_or]
      simp
    refine ⟨fun _ => .inl hpublished, fun n d hd => .inl ?_⟩
    rcases hk.answered n d hd with hp | ⟨hround, -⟩
    · obtain ⟨o, ho⟩ := Option.isSome_iff_exists.mp hp
      exact Option.isSome_iff_exists.mpr
        ⟨o, published_move hc (.finalized (l := l) result target terminated hwas) ho⟩
    · rw [hround]
      exact hpublished

/-- Nobody waits for nothing: the supervisor of the round in progress will find the Fiber. -/
structure FiberCell.Awaited (c : FiberCell) : Prop where
  sound : c.Sound
  housed : c.worker.isSome → c.inArena = true
  control : c.control.Awaited

theorem FiberCell.Awaited.observed (hc : c.Awaited) (hw : c.worker = none) {n : Nat}
    {call : DisposeCall} (hcall : c.calls n = some call) : (c.published call.round).isSome := by
  rcases hc.control.answered n call hcall with hp | ⟨hround, hphase⟩
  · exact hp
  · rcases hc.control.opened hphase with hp | hsome
    · rw [hround]
      exact hp
    · exact absurd hw (Option.isSome_iff_ne_none.mp hsome)

/-- The Fiber has left the arena, and a dispose call would still open a round. -/
def FiberCell.LateFor (c : FiberCell) (allowReloadOwned : Bool) : Prop :=
  c.inArena = false ∧ c.inner.disposal.phase = .Idle ∧ (c.inner.reloadOwned && !allowReloadOwned) = false ∧
    (c.inner.state = .Disposing ∨ c.inner.state.canTransitionTo .Disposing = true)

instance (c : FiberCell) (allowReloadOwned : Bool) : Decidable (c.LateFor allowReloadOwned) := by
  unfold FiberCell.LateFor
  infer_instance

/-- The section neither takes a Fiber with a supervisor out of the arena nor opens a round on one that has left. -/
def FiberCell.Undisturbed (c : FiberCell) : FiberLabel → Prop
  | .installRemove => c.worker.isNone
  | .callDispose _ _ allowReloadOwned => ¬ c.LateFor allowReloadOwned
  | .activationDispose _ => ¬ c.LateFor true
  | _ => True

instance (c : FiberCell) (l : FiberLabel) : Decidable (c.Undisturbed l) := by
  apply l.casesOn (motive := fun l => Decidable (c.Undisturbed l)) <;> intros <;>
    unfold FiberCell.Undisturbed <;> infer_instance

/-- A dispose call that is not late gives a Fiber that has left the arena no supervisor. -/
theorem dispose_late {w p a : Bool} (hin : c.inArena = false) (hok : ¬ c.LateFor a) :
    (c.dispose w p a).1.worker = c.worker := by
  unfold FiberCell.dispose FiberMutable.requestDisposal
  simp only
  split_ifs with hown hidle hlegal
  · rfl
  · rfl
  · refine absurd ⟨hin, hidle, by simpa using hown, ?_⟩ hok
    by_contra hno
    obtain ⟨hdisposing, hrefused⟩ := not_or.mp hno
    exact hlegal ⟨hdisposing, by simpa using hrefused⟩
  · rfl

theorem unhoused_step (hin : c.inArena = false) (hw : c.worker = none) (hok : c.Undisturbed l)
    (h : c.step l = some c') : c'.worker = none := by
  cases step_turn h with
  | activation n pc _ was step =>
    by_cases hdispose : ∃ m, l = .activationDispose m
    · obtain ⟨m, rfl⟩ := hdispose
      obtain ⟨e, pc', -, rfl⟩ := stepDispose_eq step
      exact (dispose_late hin hok).trans hw
    · obtain ⟨pc', heq⟩ := stepActivation_eq step fun m hm => hdispose ⟨m, hm⟩
      rw [heq]
      exact hw
  | worker pc was =>
    rw [hw] at was
    contradiction
  | reload pc was step => rw [stepReload_eq step]; exact hw
  | install step => rw [stepInstall_eq step]; exact hw
  | disposed w p a label now =>
    subst label now
    exact (dispose_late hin hok).trans hw
  | called _ _ now | replaced _ _ now | cutover _ _ _ _ _ now | hostFailed _ _ _ now | reclaimed _ _ _ now
  | registered _ _ _ now | detached _ _ now | acquired _ _ _ now | dropped _ _ _ now =>
    subst now
    exact hw

theorem awaited_step (hc : c.Awaited) (hok : c.Undisturbed l) (h : c.step l = some c') : c'.Awaited where
  sound := sound_step hc.sound h
  control := awaited_move hc.sound.consistent hc.housed hc.control (step_move h)
  housed := fun hw => by
    -- a Fiber that leaves the arena has no supervisor and gets none
    have hleft : c.worker = none → c'.worker = none → c'.inArena = true :=
      fun _ hnone => absurd hnone (Option.isSome_iff_ne_none.mp hw)
    by_cases hreclaim : l = .reclaim
    · subst hreclaim
      simp only [FiberCell.step] at h
      split_ifs at h with hdisposed
      cases h
      have hidle := (hc.sound.consistent.disposed hdisposed.2).1
      exact hleft hidle hidle
    · by_cases hremove : l = .installRemove
      · subst hremove
        have hidle := Option.isNone_iff_eq_none.mp hok
        refine hleft hidle ?_
        simp only [FiberCell.step] at h
        rw [stepInstall_eq h]
        exact hidle
      · rw [step_inArena h hreclaim hremove]
        by_contra hin
        have hin : c.inArena = false := by simpa using hin
        have hidle : c.worker = none := by
          by_contra hne
          rw [hc.housed (Option.isSome_iff_ne_none.mpr hne)] at hin
          contradiction
        exact Option.isSome_iff_ne_none.mp hw (unhoused_step hin hidle hok h)

/-! ## The waiters of a Scope -/

/-- A Scope whose disposal was requested has its observation or a supervisor, which has not
published yet and will find the Scope. -/
structure ScopeCell.Awaited (r : ScopeCell) : Prop where
  opened : r.state ≠ .Active → r.published.isSome ∨ r.worker.isSome
  unpublished : r.state = .Active ∨ r.worker.isSome → r.published = none
  housed : r.state ≠ .Disposed → r.inArena = true

namespace Runtime

variable {rt rt' : Runtime} {f : FiberId} {s : ScopeId} {r r' : ScopeCell}

theorem step_scope_inArena {l : RuntimeLabel} (ht : Topology rt) (h : rt.step l = some rt')
    (hr : rt.scopes s = some r) (hr' : rt'.scopes s = some r') (hstate : r.state ≠ .Disposed) :
    r'.inArena = r.inArena := by
  have hkeep : Steady rt rt' → r'.inArena = r.inArena := fun hsteady => by
    obtain ⟨q, hq, hsame⟩ := hsteady s r hr
    obtain rfl : q = r' := by simpa [hq] using hr'
    exact hsame.arena
  have hmap : ∀ g : ScopeCell → ScopeCell, rt'.scopes s = (rt.scopes s).map g →
      (g r).inArena = r.inArena → r'.inArena = r.inArena := fun g hs hg => by
    rw [hs, hr, Option.map_some] at hr'
    cases hr'
    exact hg
  cases l <;> simp only [step] at h
  case fiber f a =>
    obtain ⟨c, a', c', -, -, hstep, rfl⟩ := fiberStep_spec h
    obtain ⟨-, hsame | ⟨scope, hdelist, -⟩⟩ := fiberEffect_scopes f (rt.setFiber f c') hstep
    · exact hkeep (.of_eq hsame)
    · refine hmap _ ((hdelist s).trans (delist_scopes (rt.setFiber f c') scope f s)) ?_
      split_ifs <;> rfl
  case scope s' a =>
    split at h <;> try contradiction
    rename_i q hq
    obtain ⟨pc, -, h⟩ := Option.bind_eq_some_iff.mp h
    exact hkeep (steady_stepScope hq h)
  case disposeScope s' p =>
    cases h
    exact hkeep (steady_requestScopeDisposal rt s' p)
  case createScope => exact hkeep (steady_createScope ht h)
  case install =>
    obtain ⟨p, -, hscopes⟩ := insertFiber_spec h
    refine hmap _ (hscopes s) ?_
    split_ifs <;> rfl
  case provide =>
    unfold provide at h
    split at h <;> try contradiction
    split_ifs at h
    obtain ⟨rt₁, h₁, rfl⟩ := Option.map_eq_some_iff.mp h
    obtain ⟨c, -, -, -, rfl⟩ := registerEntry_spec h₁
    exact hkeep (.of_eq rfl)
  case handle =>
    obtain ⟨c₀, rt₁, -, -, h₁, rfl⟩ := handle_spec h
    obtain ⟨c, -, -, -, rfl⟩ := registerEntry_spec h₁
    exact hkeep (.of_eq rfl)
  case intercept =>
    unfold intercept at h
    split at h <;> try contradiction
    obtain ⟨rt₁, h₁, rfl⟩ := Option.map_eq_some_iff.mp h
    obtain ⟨c, -, -, -, rfl⟩ := registerEntry_spec h₁
    exact hkeep (.of_eq rfl)
  case ownScope =>
    unfold ownScope at h
    obtain ⟨rt₁, h₁, h⟩ := Option.bind_eq_some_iff.mp h
    obtain ⟨c, -, -, -, rfl⟩ := registerEntry_spec h
    have hsteady : Steady rt rt₁ := steady_createScope ht h₁
    exact hkeep hsteady
  case commitReload old staged staging target =>
    rcases commitReload_cases ht h with hsame | ⟨oldCell, c, hcut, rfl⟩
    · have hscopes := hsame.scopes s
      rw [hr, hr'] at hscopes
      cases hscopes with
      | some hperm => rw [hperm.rest]
    · exact hmap (relocated staging target staged c.inner.childScopes s) rfl (relocated_inArena ..)
  case sweepFiber f =>
    unfold sweepFiber at h
    split_ifs at h
    cases h
    refine hmap (fun c => if c.inArena then
      { c with fibers := c.fibers.filter (· ≠ f) } else c) rfl ?_
    split_ifs <;> rfl
  case sweepScope s' =>
    unfold sweepScope at h
    split at h <;> try contradiction
    rename_i q hq
    split_ifs at h with hswept
    cases h
    have hs : s ≠ s' := by
      rintro rfl
      obtain rfl : r = q := by simpa [hr] using (scope_eq_some.mp hq).1
      exact hstate hswept.2.1
    exact hmap id ((Function.update_of_ne hs _ rt.scopes).trans (congrFun Option.map_id _).symm) rfl
  case beginShutdown =>
    cases h
    exact hkeep (.of_eq rfl)

theorem step_creates {l : RuntimeLabel} (ht : Topology rt) (h : rt.step l = some rt') :
    rt'.nextScope = rt.nextScope ∨ ∃ parent hidden rt₁,
      rt.createScope parent hidden = some rt₁ ∧ rt'.scopes = rt₁.scopes := by
  cases l <;> simp only [step] at h
  case fiber => exact .inl (tame_fiberStep h).nextScope
  case scope s' a =>
    split at h <;> try contradiction
    rename_i q hq
    obtain ⟨pc, -, h⟩ := Option.bind_eq_some_iff.mp h
    exact .inl (tame_stepScope hq h).nextScope
  case disposeScope s' p =>
    cases h
    exact .inl (tame_requestScopeDisposal rt s' p).nextScope
  case createScope parent hidden => exact .inr ⟨parent, hidden, rt', h, rfl⟩
  case install =>
    obtain ⟨p, heq, -⟩ := insertFiber_spec h
    exact .inl (by rw [heq])
  case provide =>
    unfold provide at h
    split at h <;> try contradiction
    split_ifs at h
    obtain ⟨rt₁, h₁, rfl⟩ := Option.map_eq_some_iff.mp h
    obtain ⟨c, -, -, -, rfl⟩ := registerEntry_spec h₁
    exact .inl rfl
  case handle =>
    obtain ⟨c₀, rt₁, -, -, h₁, rfl⟩ := handle_spec h
    obtain ⟨c, -, -, -, rfl⟩ := registerEntry_spec h₁
    exact .inl rfl
  case intercept =>
    unfold intercept at h
    split at h <;> try contradiction
    obtain ⟨rt₁, h₁, rfl⟩ := Option.map_eq_some_iff.mp h
    obtain ⟨c, -, -, -, rfl⟩ := registerEntry_spec h₁
    exact .inl rfl
  case ownScope f scope =>
    unfold ownScope at h
    obtain ⟨rt₁, h₁, h⟩ := Option.bind_eq_some_iff.mp h
    obtain ⟨c, -, -, -, rfl⟩ := registerEntry_spec h
    exact .inr ⟨scope, false, rt₁, h₁, rfl⟩
  case commitReload =>
    rcases commitReload_cases ht h with hsame | ⟨oldCell, c, -, rfl⟩
    · exact .inl (by rw [hsame.rest])
    · exact .inl rfl
  case sweepFiber => exact .inl (tame_sweepFiber h).nextScope
  case sweepScope => exact .inl (tame_sweepScope h).nextScope
  case beginShutdown =>
    cases h
    exact .inl rfl

theorem scope_awaited_turn {l : RuntimeLabel} (hb : Busy rt) (hr : rt.scopes s = some r)
    (ha : r.Awaited) (hin : r.state ≠ .Disposed → r'.inArena = r.inArena)
    (h : Turn rt s l r r') : r'.Awaited := by
  cases h with
  | framed hframe =>
    refine ⟨?_, ?_, fun hstate => ?_⟩
    · rw [hframe.state, hframe.published, hframe.worker]
      exact ha.opened
    · rw [hframe.state, hframe.published, hframe.worker]
      exact ha.unpublished
    · rw [hframe.state] at hstate
      rw [hin hstate]
      exact ha.housed hstate
  | opened hopened =>
    have hstate : r.state ≠ .Disposed := by simp [hopened.active]
    refine ⟨fun _ => .inr (by rw [hopened.worker]; rfl), fun _ => ?_, fun _ => ?_⟩
    · rw [hopened.published]
      exact ha.unpublished (.inl hopened.active)
    · rw [hin hstate]
      exact ha.housed hstate
  | worked a pc pc' hl hwas hnext hat =>
    have hw : r.worker.isSome := by rw [hwas]; rfl
    refine ⟨fun _ => .inr (by rw [hat.worker]; rfl), fun _ => ?_, fun hstate => ?_⟩
    · rw [hat.published]
      exact ha.unpublished (.inr hw)
    · rw [hat.state] at hstate
      rw [hat.arena]
      exact ha.housed hstate
  | finalized result terminated hl hwas hfinal =>
    have hbusy := hb s r hr (by rw [hwas]; rfl)
    have hhoused := ha.housed (by simp [hbusy])
    have hstate : r'.state ≠ .Active := by
      rw [hfinal.state, if_pos hhoused]
      split_ifs <;> simp
    refine ⟨fun _ => .inl ?_, ?_, fun _ => ?_⟩
    · rw [hfinal.published, if_pos hhoused, Option.isSome_or]
      simp
    · rintro (hactive | hsome)
      · exact absurd hactive hstate
      · rw [hfinal.worker] at hsome
        contradiction
    · rw [hfinal.arena]
      exact hhoused

/-! ## No waiter is stranded -/

/-- The Fiber that the worker of Scope `s` has found, as its record is now. -/
def called (rt : Runtime) (s : ScopeId) : Option FiberCell :=
  (((rt.scopes s).bind (·.worker)).bind (·.fiber)).bind rt.fibers

/-- The section takes no Fiber with a disposal at work out of the arena, and opens no disposal of a Fiber that
has left it. -/
def Undisturbed (rt : Runtime) : RuntimeLabel → Prop
  | .fiber f l => ∀ c ∈ rt.fibers f, c.Undisturbed l
  | .scope s .fiberCall => ∀ c ∈ rt.called s, ¬ c.LateFor true
  | _ => True

instance (rt : Runtime) (l : RuntimeLabel) : Decidable (rt.Undisturbed l) := by
  apply l.casesOn (motive := fun l => Decidable (rt.Undisturbed l)) <;> intros <;> unfold Undisturbed
  case scope s l =>
    apply l.casesOn (motive := fun l => Decidable (rt.Undisturbed (.scope s l))) <;> intros <;>
      unfold Undisturbed <;> infer_instance
  all_goals infer_instance

theorem answered_undisturbed {c : FiberCell} {l a : FiberLabel} (h : rt.answered f c l = some a)
    (hok : c.Undisturbed l) : c.Undisturbed a := by
  have hkind := answered_kind h
  cases a <;> try trivial
  all_goals
    cases l <;> try contradiction
    cases hkind
    exact hok

/-- What holds of the waiters in every undisturbed run. -/
structure Attended (rt : Runtime) : Prop where
  topology : Topology rt
  busy : Busy rt
  fibers : ∀ f c, rt.fibers f = some c → c.Awaited
  scopes : ∀ s r, rt.scopes s = some r → r.Awaited

theorem attended_new : Attended .new where
  topology := topology_new
  busy := busy_new
  fibers := fun f c hc => by cases hc
  scopes := fun s r hr => by
    simp only [new] at hr
    split_ifs at hr
    cases hr
    exact ⟨fun h => absurd rfl h, fun _ => rfl, fun _ => rfl⟩

theorem attended_step {l : RuntimeLabel} (ha : Attended rt) (hok : rt.Undisturbed l)
    (h : rt.step l = some rt') : Attended rt' where
  topology := topology_step ha.topology h
  busy := busy_step ha.topology ha.busy h
  fibers := fun f c' hc' => by
    have hfollows := step_follows ha.topology h
    cases hc : rt.fibers f with
    | none =>
      obtain ⟨-, -, -, p, s, d, g, b, -, rfl⟩ := hfollows.fresh f c' hc' hc
      exact ⟨sound_created .., fun hw => absurd hw (by simp [FiberCell.created]),
        awaited_created ..⟩
    | some c =>
      obtain ⟨d, hd, hstep⟩ := hfollows.cells f c hc
      obtain rfl : c' = d := by simpa [hc'] using hd
      rcases hstep with rfl | ⟨a, hstep, hacts⟩
      · exact ha.fibers f c' hc
      refine awaited_step (ha.fibers f c hc) ?_ hstep
      cases hacts with
      | own hanswer => exact answered_undisturbed hanswer (hok c hc)
      | visited s p hfound =>
        obtain ⟨r, t, hr, hw⟩ := hfound
        exact hok c (by simp [called, hr, hw, ScopePc.fiber, hc])
      | provided | handled | intercepted | owned | superseded | cut => trivial
  scopes := fun s r' hr' => by
    rcases step_turn ha.topology ha.busy h hr' with ⟨hle, hlt, hblank⟩ | ⟨r, hr, hturn⟩
    · refine ⟨fun hstate => absurd hblank.state hstate, fun _ => hblank.published, fun _ => ?_⟩
      rcases step_creates ha.topology h with hnext | ⟨parent, hidden, rt₁, hcreate, hscopes⟩
      · rw [hnext] at hlt
        exact absurd hlt (Nat.not_lt.mpr hle)
      · obtain ⟨-, heq, hspec⟩ := createScope_spec hcreate
        have hnone : rt.scopes s = none := by
          by_contra hne
          obtain ⟨r, hr⟩ := Option.ne_none_iff_exists'.mp hne
          exact absurd (ha.topology.scopes s r hr).1 (Nat.not_lt.mpr hle)
        rw [hscopes, hspec] at hr'
        split_ifs at hr' with hs
        · obtain ⟨q, hq, rfl⟩ := Option.map_eq_some_iff.mp hr'
          cases hq
          split_ifs <;> rfl
        · rw [hnone] at hr'
          contradiction
    · exact scope_awaited_turn ha.busy hr (ha.scopes s r hr)
        (step_scope_inArena ha.topology h hr hr') hturn

/-- Whose supervisor has ended has its observation. -/
structure Unstranded (rt : Runtime) : Prop where
  fibers : ∀ f c, rt.fibers f = some c → c.worker = none →
    ∀ n call, c.calls n = some call → (c.published call.round).isSome
  scopes : ∀ s r, rt.scopes s = some r → r.state ≠ .Active → r.worker = none → r.published.isSome

/-- The step publishes where it ends a supervisor, where nothing was published before, and changes no
observation. -/
structure PublishesOnce (rt rt' : Runtime) : Prop where
  fibers : ∀ f c c', rt.fibers f = some c → rt'.fibers f = some c' →
    (c.worker.isSome → c'.worker = none → c.published c.inner.disposal.completion = none ∧
      (c'.published c.inner.disposal.completion).isSome) ∧
    ∀ n o, c.published n = some o → c'.published n = some o
  scopes : ∀ s r r', rt.scopes s = some r → rt'.scopes s = some r' →
    (r.worker.isSome → r'.worker = none → r.published = none ∧ r'.published.isSome) ∧
    ∀ o, r.published = some o → r'.published = some o

theorem Attended.unstranded (ha : Attended rt) : Unstranded rt where
  fibers := fun f c hc hw n call hcall => (ha.fibers f c hc).observed hw hcall
  scopes := fun s r hr hstate hw => by
    rcases (ha.scopes s r hr).opened hstate with hp | hsome
    · exact hp
    · rw [hw] at hsome
      contradiction

theorem Attended.publishesOnce {l : RuntimeLabel} (ha : Attended rt)
    (h : rt.step l = some rt') : PublishesOnce rt rt' where
  fibers := fun f c c' hc hc' => by
    obtain ⟨d, hd, hstep⟩ := (step_follows ha.topology h).cells f c hc
    obtain rfl : c' = d := by simpa [hc'] using hd
    have hawaited := ha.fibers f c hc
    rcases hstep with rfl | ⟨a, hstep, -⟩
    · refine ⟨fun hw hnone => ?_, fun n o ho => ho⟩
      rw [hnone] at hw
      contradiction
    · have hmove := step_move hstep
      exact ⟨supervised_move hawaited.sound.consistent hawaited.housed hmove,
        fun n o ho => published_move hawaited.sound.consistent hmove ho⟩
  scopes := fun s r r' hr hr' => by
    have hawaited := ha.scopes s r hr
    rcases step_turn ha.topology ha.busy h hr' with ⟨hle, -⟩ | ⟨q, hq, hturn⟩
    · exact absurd (ha.topology.scopes s r hr).1 (Nat.not_lt.mpr hle)
    obtain rfl : r = q := by simpa [hr] using hq
    cases hturn with
    | framed hframe =>
      rw [hframe.worker, hframe.published]
      refine ⟨fun hw hnone => ?_, fun o ho => ho⟩
      rw [hnone] at hw
      contradiction
    | opened hopened =>
      rw [hopened.worker, hopened.published]
      exact ⟨fun _ hnone => by contradiction, fun o ho => ho⟩
    | worked a pc pc' hl hwas hnext hat =>
      rw [hat.worker, hat.published]
      exact ⟨fun _ hnone => by contradiction, fun o ho => ho⟩
    | finalized result terminated hl hwas hfinal =>
      have hw : r.worker.isSome := by rw [hwas]; rfl
      have hnone := hawaited.unpublished (.inr hw)
      have hbusy := ha.busy s r hr hw
      rw [hfinal.published, if_pos (hawaited.housed (by simp [hbusy])), hnone]
      exact ⟨fun _ _ => ⟨rfl, rfl⟩, fun o ho => by contradiction⟩

/-- **In an undisturbed run every supervisor that ends has published**, once, and so every caller of
a disposal has or gets its observation. -/
theorem no_waiter_stranded (h : Reach step Undisturbed .new rt) :
    Unstranded rt ∧ ∀ l rt', rt.step l = some rt' → PublishesOnce rt rt' := by
  have ha : Attended rt := h.invariant attended_new fun _ _ _ ha hok hstep =>
    attended_step ha hok hstep
  exact ⟨ha.unstranded, fun l rt' hstep => ha.publishesOnce hstep⟩

/-- A disposal between the insertion of a Fiber and a validation that succeeds. -/
theorem no_waiter_stranded_installing :
    ∃ rt, Reach step Undisturbed .new rt ∧ Unstranded rt ∧
      ∃ c ∈ rt.fibers 0, c.worker.isNone ∧ (c.calls 0).isSome := by
  have hrun : ((runIf step Undisturbed .new ([.install 0 none ⟨[], [], .Restart⟩ false] ++
      sections 0 (.callDispose false false false :: .installValidate (.ok ()) :: quietRound))).any
      fun rt => (rt.fibers 0).any fun c => c.worker.isNone && (c.calls 0).isSome) = true := by
    decide
  obtain ⟨rt, hrt, hrun⟩ := (Option.any_eq_true _ _).mp hrun
  obtain ⟨c, hc, hdone⟩ := (Option.any_eq_true _ _).mp hrun
  have hreach := reach_of_runIf hrt
  exact ⟨rt, hreach, (no_waiter_stranded hreach).1, c, hc, by simpa using hdone⟩

/-- Fibers 0 and 1 each provide what the other depends on, and the install of Fiber 1 is rejected. -/
def rejectedInstall (labels : List FiberLabel) : List RuntimeLabel :=
  [RuntimeLabel.install 0 none ⟨[6], [5], .Restart⟩ false] ++
  sections 0 [.installIndex, .installIndex, .installValidate (.ok ()), .installCheck false, .installWait] ++
  [RuntimeLabel.install 0 none ⟨[5], [6], .Restart⟩ false] ++ sections 1 (.installIndex :: .installIndex :: labels)

/-- Fiber 1 is disposed before its install validates the dependency graph. -/
def strandedInstall : List RuntimeLabel :=
  rejectedInstall [.callDispose false false false, .installValidate (.ok ()), .installRemove, .workerLookup,
    .finalizeBegin]

/-- The supervisor ends without publishing, and the caller waits for ever. -/
theorem a_waiter_is_stranded :
    ¬ ∀ rt, Reach step anyStep .new rt → Unstranded rt := by
  intro hall
  have hrun : ((run step .new strandedInstall).any fun rt => (rt.fibers 1).any fun c =>
      c.worker.isNone && (c.calls 0).any fun call => (c.published call.round).isNone) = true := by
    decide
  obtain ⟨rt, hrt, hrun⟩ := (Option.any_eq_true _ _).mp hrun
  obtain ⟨c, hc, hdone⟩ := (Option.any_eq_true _ _).mp hrun
  rw [Bool.and_eq_true] at hdone
  obtain ⟨call, hcall, hunpublished⟩ := (Option.any_eq_true _ _).mp hdone.2
  have hpublished := (hall rt (reach_of_run hrt)).fibers 1 c hc
    (Option.isNone_iff_eq_none.mp hdone.1) 0 call hcall
  rw [Option.isNone_iff_eq_none.mp hunpublished] at hpublished
  contradiction

/-- The caller has found Fiber 1 before it is removed, and locks its record after. -/
example : ((run step .new (rejectedInstall [.installValidate (.ok ()), .installRemove,
    .callDispose false false false, .workerLookup, .finalizeBegin])).any fun rt => (rt.fibers 1).any fun c =>
      c.worker.isNone && (c.calls 0).any fun call => (c.published call.round).isNone) = true := by
  decide

end Runtime

end Cordis
