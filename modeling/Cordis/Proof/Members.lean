import Cordis.Proof.Frame

/-!
# When a Fiber leaves a membership list

A Fiber is taken off the list of a Scope by the last step but one of its disposal, when it is taken
out of the arena, or by the cutover that rebinds it.
-/

namespace Cordis

/-- `r'` is where `r` is, with the same member Fibers. -/
structure ScopeCell.Steady (r r' : ScopeCell) : Prop where
  fibers : r'.fibers = r.fibers
  arena : r'.inArena = r.inArena
  parent : r'.parent = r.parent

namespace Runtime

variable {rt rt' : Runtime} {f : FiberId} {c c' : FiberCell} {l : FiberLabel}

/-- Every Scope keeps its member Fibers. -/
def Holds (rt rt' : Runtime) : Prop :=
  ∀ s r, rt.scopes s = some r → ∃ r', rt'.scopes s = some r' ∧ ∀ g ∈ r.fibers, g ∈ r'.fibers

theorem Holds.of_eq (h : rt'.scopes = rt.scopes) : Holds rt rt' :=
  fun _ r hr => ⟨r, by rw [h, hr], fun _ hg => hg⟩

theorem Holds.of_map {g : ScopeId → ScopeCell → ScopeCell}
    (hs : ∀ s, rt'.scopes s = (rt.scopes s).map (g s))
    (hg : ∀ s r, rt.scopes s = some r → ∀ f ∈ r.fibers, f ∈ (g s r).fibers) : Holds rt rt' :=
  fun s r hr => ⟨g s r, by rw [hs, hr]; rfl, hg s r hr⟩

theorem holds_setScope {s : ScopeId} {r q : ScopeCell} (hr : rt.scopes s = some r)
    (hq : ∀ f ∈ r.fibers, f ∈ q.fibers) : Holds rt (rt.setScope s q) := by
  intro x r' hr'
  by_cases hx : x = s
  · subst hx
    obtain rfl : r = r' := by simpa [hr] using hr'
    exact ⟨q, by simp [setScope], hq⟩
  · exact ⟨r', by simp [setScope, hx, hr'], fun _ h => h⟩

/-- Every Scope keeps its place: its member Fibers, its parent and its slot of the arena. -/
def Steady (rt rt' : Runtime) : Prop :=
  ∀ s r, rt.scopes s = some r → ∃ r', rt'.scopes s = some r' ∧ r.Steady r'

theorem Steady.holds (h : Steady rt rt') : Holds rt rt' := by
  intro s r hr
  obtain ⟨r', hr', hsteady⟩ := h s r hr
  exact ⟨r', hr', fun g hg => by rw [hsteady.fibers]; exact hg⟩

theorem Steady.of_eq (h : rt'.scopes = rt.scopes) : Steady rt rt' :=
  fun _ r hr => ⟨r, by rw [h, hr], rfl, rfl, rfl⟩

theorem Steady.trans {rt₁ rt₂ : Runtime} (h : Steady rt rt₁) (h' : Steady rt₁ rt₂) :
    Steady rt rt₂ := by
  intro s r hr
  obtain ⟨r₁, hr₁, hsteady⟩ := h s r hr
  obtain ⟨r₂, hr₂, hsteady'⟩ := h' s r₁ hr₁
  exact ⟨r₂, hr₂, hsteady'.fibers.trans hsteady.fibers, hsteady'.arena.trans hsteady.arena,
    hsteady'.parent.trans hsteady.parent⟩

theorem Steady.of_map {g : ScopeId → ScopeCell → ScopeCell}
    (hs : ∀ s, rt'.scopes s = (rt.scopes s).map (g s))
    (hg : ∀ s r, rt.scopes s = some r → r.Steady (g s r)) : Steady rt rt' :=
  fun s r hr => ⟨g s r, by rw [hs, hr]; rfl, hg s r hr⟩

theorem steady_setScope {s : ScopeId} {r q : ScopeCell} (hr : rt.scopes s = some r)
    (hq : r.Steady q) : Steady rt (rt.setScope s q) := by
  intro x r' hr'
  by_cases hx : x = s
  · subst hx
    obtain rfl : r = r' := by simpa [hr] using hr'
    exact ⟨q, by simp [setScope], hq⟩
  · exact ⟨r', by simp [setScope, hx, hr'], rfl, rfl, rfl⟩

theorem steady_modifyScope (rt : Runtime) (s : ScopeId) {g : ScopeCell → ScopeCell}
    (hg : ∀ r : ScopeCell, r.Steady (g r)) : Steady rt (rt.modifyScope s g) := by
  refine .of_map (modifyScope_scopes rt s g) fun x r _ => ?_
  split_ifs
  · exact hg r
  · exact ⟨rfl, rfl, rfl⟩

theorem steady_modifyScopeCell (rt : Runtime) (s : ScopeId) {g : ScopeCell → ScopeCell}
    (hg : ∀ r : ScopeCell, r.Steady (g r)) : Steady rt (rt.modifyScopeCell s g) := by
  unfold modifyScopeCell
  split
  · rename_i r hr
    exact steady_setScope hr (hg r)
  · exact .of_eq rfl

theorem steady_requestScopeDisposal (rt : Runtime) (s : ScopeId) (p : Bool) :
    Steady rt (rt.requestScopeDisposal s p).1 := by
  unfold requestScopeDisposal
  split
  · exact .of_eq rfl
  · rename_i r hr
    have hr' := (scope_eq_some.mp hr).1
    simp only
    split_ifs <;> exact steady_setScope hr' ⟨rfl, rfl, rfl⟩

theorem steady_stepScope {s : ScopeId} {r : ScopeCell} {pc : ScopePc} {a : ScopeLabel}
    (hr : rt.scopes s = some r) (h : rt.stepScope s r pc a = some rt') : Steady rt rt' := by
  have hset : ∀ q : ScopeCell, r.Steady q → Steady rt (rt.setScope s q) :=
    fun q hq => steady_setScope hr hq
  have hleft : ∀ (q : ScopeCell) p, r.Steady q → Steady rt
      ((rt.setScope s q).modifyScope p fun c => { c with children := c.children.filter (· ≠ s) }) :=
    fun q p hq => (hset q hq).trans (steady_modifyScope _ p fun _ => ⟨rfl, rfl, rfl⟩)
  cases a <;> simp only [stepScope] at h
  case visit =>
    split at h <;> try contradiction
    rename_i t
    split at h
    · rename_i child _
      have hrequest := steady_requestScopeDisposal rt child t.persistent
      split at h
      all_goals
        rename_i heq
        rw [heq] at hrequest
        cases h
        exact hrequest.trans (steady_modifyScopeCell _ _ fun _ => ⟨rfl, rfl, rfl⟩)
    · split at h <;> cases h <;> exact hset _ ⟨rfl, rfl, rfl⟩
    · cases h
      exact hset _ ⟨rfl, rfl, rfl⟩
  case fiberCall =>
    split at h <;> try contradiction
    rename_i t f
    have hscopes := disposeFound_scopes rt f false t.persistent true
    split at h
    all_goals
      rename_i heq
      rw [heq] at hscopes
      have hr' := (congrFun hscopes s).trans hr
      cases h
      exact (Steady.of_eq hscopes).trans (steady_setScope hr' ⟨rfl, rfl, rfl⟩)
  case finalize =>
    repeat' split at h
    all_goals first
      | contradiction
      | (cases h; exact hset _ ⟨rfl, rfl, rfl⟩)
      | (cases h; exact hleft _ _ ⟨rfl, rfl, rfl⟩)
  all_goals
    repeat' split at h
    all_goals first | contradiction | (cases h; exact hset _ ⟨rfl, rfl, rfl⟩)

theorem steady_createScope {parent : ScopeId} {hidden : Bool} (ht : Topology rt)
    (h : rt.createScope parent hidden = some rt') : Steady rt rt' := by
  obtain ⟨-, -, hscopes⟩ := createScope_spec h
  intro s r hr
  have hs : s ≠ rt.nextScope := Nat.ne_of_lt (ht.scopes s r hr).1
  rw [hscopes, if_neg hs, hr]
  refine ⟨_, rfl, ?_⟩
  beta_reduce
  split_ifs <;> exact ⟨rfl, rfl, rfl⟩

theorem answered_indexCleanup (h : rt.answered f c l = some .indexCleanup) : l = .indexCleanup := by
  have hkind := answered_kind h
  cases l <;> first | rfl | contradiction

theorem CutFrom.joined {old staged : FiberId} {staging target : ScopeId} {oldCell c : FiberCell}
    (h : CutFrom rt old staged staging target oldCell c) :
    ∃ r, (rt.cutOver ⟨staging, target, staged, old, c.inner.childScopes⟩ oldCell c).scopes target =
      some r ∧ staged ∈ r.fibers := by
  obtain ⟨q, hq, -, -, -⟩ := h.scopes.joins
  obtain ⟨hq, hin⟩ := scope_eq_some.mp hq
  exact ⟨relocated staging target staged c.inner.childScopes target q, by simp [cutOver, hq],
    by simp [relocated, hin]⟩

/-- How a Fiber `g` that is listed in Scope `s` may leave the list. -/
inductive Leaves (rt rt' : Runtime) (g : FiberId) (s : ScopeId) : RuntimeLabel → Prop
  | removed (l : RuntimeLabel) (gone : rt'.fiber g = none) : Leaves rt rt' g s l
  | cleaned (c : FiberCell) (result : Outcome) (target : Option FiberState) (b : Bool)
      (record : rt.fibers g = some c)
      (worker : c.worker = some (.finalizing result target b (some s))) :
      Leaves rt rt' g s (.fiber g .indexCleanup)
  | rebound (old : FiberId) (target : ScopeId) (c : FiberCell) (r : ScopeCell)
      (record : rt'.fibers g = some c) (scope : c.inner.scope = target)
      (joined : rt'.scopes target = some r) (listed : g ∈ r.fibers) :
      Leaves rt rt' g s (.commitReload old g s target)

theorem step_listed {l : RuntimeLabel} {s : ScopeId} {r : ScopeCell} {g : FiberId}
    (ht : Topology rt) (h : rt.step l = some rt') (hr : rt.scopes s = some r)
    (hg : g ∈ r.fibers) :
    (∃ r', rt'.scopes s = some r' ∧ g ∈ r'.fibers) ∨ Leaves rt rt' g s l := by
  have hkeep : Holds rt rt' → (∃ r', rt'.scopes s = some r' ∧ g ∈ r'.fibers) ∨
      Leaves rt rt' g s l := fun hholds => by
    obtain ⟨r', hr', hin⟩ := hholds s r hr
    exact .inl ⟨r', hr', hin g hg⟩
  cases l <;> simp only [step] at h
  case fiber f a =>
    obtain ⟨c, a', c', hc, ha', hstep, rfl⟩ := fiberStep_spec h
    obtain ⟨-, hsame | ⟨scope, hdelist, hwhy⟩⟩ := fiberEffect_scopes f (rt.setFiber f c') hstep
    · exact hkeep (.of_eq hsame)
    have hscopes := (hdelist s).trans (delist_scopes (rt.setFiber f c') scope f s)
    rw [show (rt.setFiber f c').scopes s = some r from hr] at hscopes
    by_cases hleaves : (s = scope ∧ r.inArena = true) ∧ g = f
    · obtain ⟨⟨rfl, -⟩, rfl⟩ := hleaves
      right
      rcases hwhy with hgone | ⟨rfl, result, target, b, hworker⟩
      · refine .removed _ ?_
        unfold fiber
        rw [(fiberEffect_fibers g (rt.setFiber g c') hstep).1]
        simp [setFiber, Option.filter, hgone]
      · obtain rfl := answered_indexCleanup ha'
        exact .cleaned c result target b hc hworker
    · left
      refine ⟨_, hscopes, ?_⟩
      beta_reduce
      split_ifs with hs
      · have hne : g ≠ f := fun heq => hleaves ⟨hs, heq⟩
        simpa [hne] using hg
      · exact hg
  case scope s' a =>
    split at h <;> try contradiction
    rename_i r' hr'
    obtain ⟨pc, -, h⟩ := Option.bind_eq_some_iff.mp h
    exact hkeep (steady_stepScope hr' h).holds
  case disposeScope s' p =>
    cases h
    exact hkeep (steady_requestScopeDisposal rt s' p).holds
  case createScope => exact hkeep (steady_createScope ht h).holds
  case install =>
    obtain ⟨p, -, hscopes⟩ := insertFiber_spec h
    refine hkeep (.of_map hscopes fun x q _ f hf => ?_)
    split_ifs
    · exact List.mem_append_left _ hf
    · exact hf
  case provide =>
    unfold provide at h
    split at h <;> try contradiction
    split_ifs at h
    obtain ⟨rt₁, h₁, rfl⟩ := Option.map_eq_some_iff.mp h
    obtain ⟨c, -, -, -, rfl⟩ := registerEntry_spec h₁
    exact hkeep (.of_eq rfl)
  case handle =>
    obtain ⟨c₀, rt₁, -, -, h₁, rfl⟩ := handle_spec h
    obtain ⟨c, -, -, -, rfl⟩ := registerEntry_spec h₁
    exact hkeep (.of_eq rfl)
  case intercept =>
    unfold intercept at h
    split at h <;> try contradiction
    obtain ⟨rt₁, h₁, rfl⟩ := Option.map_eq_some_iff.mp h
    obtain ⟨c, -, -, -, rfl⟩ := registerEntry_spec h₁
    exact hkeep (.of_eq rfl)
  case ownScope =>
    unfold ownScope at h
    obtain ⟨rt₁, h₁, h⟩ := Option.bind_eq_some_iff.mp h
    obtain ⟨c, -, -, -, rfl⟩ := registerEntry_spec h
    have hholds : Holds rt rt₁ := (steady_createScope ht h₁).holds
    exact hkeep hholds
  case commitReload old staged staging target =>
    rcases commitReload_cases ht h with hsame | ⟨oldCell, c, hcut, rfl⟩
    · have hscopes := hsame.scopes s
      rw [hr] at hscopes
      cases hr' : rt'.scopes s with
      | none =>
        rw [hr'] at hscopes
        cases hscopes
      | some r' =>
        rw [hr'] at hscopes
        cases hscopes with
        | some hperm => exact .inl ⟨r', rfl, hperm.fibers.mem_iff.mpr hg⟩
    by_cases hleaves : s = staging ∧ g = staged ∧ staging ≠ target
    · obtain ⟨rfl, rfl, hne⟩ := hleaves
      obtain ⟨q, hq, hin⟩ := hcut.joined
      exact .inr (.rebound old target { c with inner := c.inner.cutover target } q
        (by simp [setFiber, hcut.ne, cutOver]) rfl hq hin)
    · left
      refine ⟨relocated staging target staged c.inner.childScopes s r, by simp [setFiber, cutOver, hr],
        ?_⟩
      by_cases hin : r.inArena
      swap
      · rwa [relocated, if_neg hin]
      rw [relocated, if_pos hin]
      change g ∈ if s = target then
        (if s = staging then r.fibers.filter (· ≠ staged) else r.fibers) ++ [staged]
        else if s = staging then r.fibers.filter (· ≠ staged) else r.fibers
      split_ifs with hd hs hs
      · rw [List.mem_append, List.mem_filter, List.mem_singleton]
        by_cases hgs : g = staged
        · exact .inr hgs
        · exact .inl ⟨hg, by simpa using hgs⟩
      · exact List.mem_append_left _ hg
      · have hgs : g ≠ staged := fun heq => hleaves ⟨hs, heq, fun h => hd (hs.trans h)⟩
        simpa [hgs] using hg
      · exact hg
  case sweepFiber f =>
    unfold sweepFiber at h
    split_ifs at h with hswept
    cases h
    by_cases hgf : g = f
    · subst hgf
      refine .inr (.removed _ ?_)
      obtain ⟨c, hc, hout⟩ := (Option.any_eq_true _ _).mp hswept
      simp [fiber, hc, Option.filter, by simpa using hout]
    · refine .inl ⟨_, congrArg (Option.map _) hr, ?_⟩
      beta_reduce
      split_ifs
      · simpa [hgf] using hg
      · exact hg
  case sweepScope s' =>
    unfold sweepScope at h
    split at h <;> try contradiction
    rename_i q hq
    split_ifs at h
    cases h
    exact hkeep (holds_setScope (scope_eq_some.mp hq).1 fun _ h => h)
  case beginShutdown =>
    cases h
    exact hkeep (.of_eq rfl)

theorem step_rebinds {l : RuntimeLabel} (ht : Topology rt) (h : rt.step l = some rt')
    (hc : rt.fibers f = some c) (hc' : rt'.fibers f = some c') :
    c'.inner.scope = c.inner.scope ∨
      ∃ r, rt'.scopes c'.inner.scope = some r ∧ f ∈ r.fibers := by
  obtain ⟨d, hd, hstep⟩ := (step_evolves ht h).cells f c hc
  obtain rfl : c' = d := by simpa [hc'] using hd
  rcases hstep with rfl | ⟨a, ha, hruns⟩
  · exact .inl rfl
  by_cases hcut : ∃ target active, a = .cutover target active
  · obtain ⟨target, active, rfl⟩ := hcut
    obtain ⟨old, staging, rfl⟩ := hruns.cutover target active rfl
    rcases commitReload_cases ht h with hsame | ⟨oldCell, e, hcutfrom, rfl⟩
    · rw [hsame.rest, hc] at hc'
      cases hc'
      exact .inl rfl
    · obtain ⟨r, hr, hin⟩ := hcutfrom.joined
      obtain rfl : { e with inner := e.inner.cutover target } = c' := by
        simpa [setFiber, hcutfrom.ne, cutOver] using hc'
      exact .inr ⟨r, hr, hin⟩
  · exact .inl (step_scope ha fun t g heq => hcut ⟨t, g, heq⟩)

theorem step_fresh_listed {l : RuntimeLabel} (ht : Topology rt) (h : rt.step l = some rt')
    (hc' : rt'.fibers f = some c') (hnone : rt.fibers f = none) :
    c'.worker = none ∧ ∃ r, rt'.scopes c'.inner.scope = some r ∧ f ∈ r.fibers := by
  obtain ⟨rfl, -, plugin, p, scope, descriptor, g, staged, rfl, rfl⟩ :=
    (step_evolves ht h).fresh f c' hc' hnone
  refine ⟨rfl, ?_⟩
  have hinsert : rt.insertFiber scope plugin descriptor staged = some rt' := h
  obtain ⟨-, -, hscopes⟩ := insertFiber_spec hinsert
  unfold insertFiber at hinsert
  split_ifs at hinsert with hadmitted
  obtain ⟨q, hq, -⟩ := (Option.any_eq_true _ _).mp hadmitted.2
  obtain ⟨hq, hin⟩ := scope_eq_some.mp hq
  have hlisted := hscopes scope
  rw [hq, Option.map_some, if_pos ⟨rfl, hin⟩] at hlisted
  exact ⟨_, hlisted, by simp⟩

theorem step_indexCleanup (h : rt.step (.fiber f .indexCleanup) = some rt')
    (hc : rt.fibers f = some c) {result : Outcome} {target : Option FiberState} {b : Bool}
    {i : Option ScopeId} (hw : c.worker = some (.finalizing result target b i)) :
    rt'.fibers f = some { c with worker := some (.indexed result target b) } := by
  simp only [step] at h
  obtain ⟨d, a', d', hd, ha', hstep, rfl⟩ := fiberStep_spec h
  obtain rfl : c = d := by simpa [hc] using hd
  obtain rfl : FiberLabel.indexCleanup = a' := by simpa [answered] using ha'
  obtain rfl : { c with worker := some (.indexed result target b) } = d' := by
    simpa [FiberCell.step, hw, FiberCell.stepWorker] using hstep
  rw [(fiberEffect_fibers _ _ hstep).1]
  simp [setFiber]

end Runtime

end Cordis
