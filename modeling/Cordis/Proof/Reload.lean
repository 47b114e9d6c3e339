import Cordis.Fiber.Serving
import Cordis.Proof.Cutover

/-!
# The cutover is all or nothing

`commit_staged_revision` either moves everything the staged Fiber has filed from its staging Scope
to the target Scope and switches the selector, or leaves the registries as they were, up to the
order of the membership and declaration lists.
-/

namespace Cordis

namespace Runtime

variable {rt rt' : Runtime}

/-- Everything a staged Fiber has registered is filed under its own Scope. -/
structure Filed (rt : Runtime) (f : FiberId) (c : FiberCell) : Prop where
  services : ∀ s k e, rt.services s k = some e → e.owner = f →
    s = c.inner.scope ∧ c.Holds k
  handlers : ∀ id ∈ c.inner.invocationHandlers,
    ∃ e, rt.handlers id = some e ∧ e.scope = c.inner.scope
  middleware : ∀ id ∈ c.inner.invocationMiddleware,
    ∃ e, rt.middleware id = some e ∧ e.scope = c.inner.scope
  declared : ∀ s k, f ∈ rt.declared s k → s = c.inner.scope ∧ k ∈ c.inner.descriptor.provisions
  listed : ∀ s r, rt.scopes s = some r → f ∈ r.fibers → s = c.inner.scope
  children : c.inner.childScopes.Nodup

/-- Two Runtimes that differ at most in the order of membership and declaration lists. -/
structure SameTopology (rt rt' : Runtime) : Prop where
  rest : rt' = { rt with declared := rt'.declared, scopes := rt'.scopes }
  declared : ∀ s k, (rt'.declared s k).Perm (rt.declared s k)
  scopes : ∀ s, Option.Rel ScopeCell.Same (rt.scopes s) (rt'.scopes s)

theorem SameTopology.refl (rt : Runtime) : SameTopology rt rt where
  rest := rfl
  declared := fun _ _ => .refl _
  scopes := fun s => by
    cases rt.scopes s with
    | none => exact .none
    | some c => exact .some (.refl c)

/-- Everything the staged Fiber has filed is in the target Scope, nothing is left in the staging
Scope, and the selector names the staged generation. -/
structure CutOver (rt rt' : Runtime) (staged : FiberId) (c : FiberCell) (staging target : ScopeId) :
    Prop where
  selector : rt'.selectors c.plugin = c.inner.capabilities.generation
  services : ∀ k e, rt.services staging k = some e → e.owner = staged →
    rt'.services target k = some { e with scope := target }
  servicesLeft : ∀ k e, rt'.services staging k = some e → e.owner ≠ staged
  handlers : ∀ id ∈ c.inner.invocationHandlers, ∃ e, rt'.handlers id = some e ∧ e.scope = target
  middleware : ∀ id ∈ c.inner.invocationMiddleware,
    ∃ e, rt'.middleware id = some e ∧ e.scope = target
  declared : ∀ k ∈ c.inner.descriptor.provisions, (rt'.declared target k).count staged = 1
  declaredLeft : ∀ k, staged ∉ rt'.declared staging k
  children : ∀ child ∈ c.inner.childScopes,
    (∃ q, rt'.scope child = some q ∧ q.parent = some target) ∧
    (∃ q, rt'.scope target = some q ∧ child ∈ q.children) ∧
    (∃ q, rt'.scope staging = some q ∧ child ∉ q.children)
  member : ∃ q, rt'.scope target = some q ∧ q.fibers.count staged = 1
  memberLeft : ∃ q, rt'.scope staging = some q ∧ staged ∉ q.fibers
  record : rt'.fibers staged = some { c with inner := c.inner.cutover target }

theorem commitRevision_back {handlers middleware : List Nat} {source target : ScopeId}
    (hh : ∀ id ∈ handlers, ∃ e, rt.handlers id = some e ∧ e.scope = source)
    (hm : ∀ id ∈ middleware, ∃ e, rt.middleware id = some e ∧ e.scope = source) :
    (rt.commitRevision handlers middleware target).commitRevision handlers middleware source =
      rt := by
  unfold commitRevision
  congr 1
  · funext id
    by_cases hid : id ∈ handlers
    · obtain ⟨e, he, hs⟩ := hh id hid
      simp [hid, he, ← hs]
    · simp [hid]
  · funext id
    by_cases hid : id ∈ middleware
    · obtain ⟨e, he, hs⟩ := hm id hid
      simp [hid, he, ← hs]
    · simp [hid]

variable {p : PreparedScopeRevision} {oldCell c : FiberCell}

theorem rollback_restores (hne : p.staged ≠ p.old) (hnodup : p.children.Nodup)
    (hlists : ∀ r, rt.scopes p.staging = some r → r.children.Nodup)
    (hrel : Relocatable rt p.staging p.target p.staged p.children)
    (hold : ∃ q, rt.scope p.target = some q ∧ q.fibers.count p.old = 1)
    (hrt' : rt' = rt.relocate p.staging p.target p.staged p.children) :
    ∃ scopes, rt'.rollbackLocked p = .ok { rt' with scopes := scopes } ∧
      ∀ s, Option.Rel ScopeCell.Same (rt.scopes s) (scopes s) := by
  subst hrt'
  have hback : Relocatable (rt.relocate p.staging p.target p.staged p.children) p.target p.staging
      p.staged p.children := relocatable_back hrel rfl (by rw [(relocate_only ..).eq])
  have hold' : ∃ q, (rt.relocate p.staging p.target p.staged p.children).scope p.target = some q ∧
      q.fibers.count p.old = 1 := by
    obtain ⟨q, hq, hone⟩ := hold
    refine ⟨_, by rw [relocate_scope, hq]; rfl, ?_⟩
    simp [relocated, (scope_eq_some.mp hq).2, hrel.ne.symm, hone, hne]
  refine ⟨_, (rollbackLocked_of_relocatable hback hold').trans
    (congrArg Except.ok (relocate_only ..).eq), fun s => ?_⟩
  rw [relocate_scopes, relocate_scopes]
  cases hs : rt.scopes s with
  | none => exact .none
  | some q => exact .some (relocated_back hrel hnodup hlists hs)

theorem commitPrepared_error {e : CordisError} (hc : Filed rt p.staged c)
    (hscope : p.staging = c.inner.scope) (hchildren : p.children = c.inner.childScopes)
    (hne : p.staged ≠ p.old) (hlists : ∀ s r, rt.scopes s = some r → r.children.Nodup)
    (h : rt.commitPrepared p oldCell c = (rt', .error e)) : SameTopology rt rt' := by
  unfold commitPrepared at h
  simp only at h
  cases hmove : rt.moveProviders p.staging p.target c.inner.descriptor.provisions p.staged with
  | error e' =>
    rw [hmove] at h
    cases h
    exact .refl rt
  | ok rt₁ =>
    obtain ⟨hmovable, hrt₁⟩ := moveProviders_ok hmove
    rw [hmove] at h
    simp only at h
    have hd₁ : rt₁.declared = movedProviders rt.declared p.staging p.target
        c.inner.descriptor.provisions p.staged := by rw [hrt₁]
    cases hlocked : rt₁.commitLocked p with
    | error e' =>
      rw [hlocked] at h
      obtain ⟨declared, hback, hperm⟩ := moveProviders_back rt₁ hmovable hd₁ (by rw [hrt₁])
      simp only [hback, undo] at h
      cases h
      refine ⟨by rw [hrt₁], hperm, ?_⟩
      rw [hrt₁]
      exact (SameTopology.refl rt).scopes
    | ok rt₂ =>
      obtain ⟨hrel, hold, hrt₂⟩ := commitLocked_ok hlocked
      have honly : ScopesOnly rt₁ rt₂ := hrt₂ ▸ relocate_only ..
      rw [hlocked] at h
      simp only at h
      cases hpublish : Runtime.commitRevisionAndPublish
        (rt₂.commitRevision c.inner.invocationHandlers c.inner.invocationMiddleware p.target)
        p.staging p.target c.inner.provided p.old p.staged c oldCell with
      | ok rt₃ =>
        rw [hpublish] at h
        cases h
      | error e' =>
        have hhandlers : rt₂.handlers = rt.handlers := by rw [honly.eq, hrt₁]
        have hmiddleware : rt₂.middleware = rt.middleware := by rw [honly.eq, hrt₁]
        have hfiled : (rt₂.commitRevision c.inner.invocationHandlers c.inner.invocationMiddleware
            p.target).commitRevision c.inner.invocationHandlers c.inner.invocationMiddleware
              p.staging = rt₂ :=
          commitRevision_back (by rw [hhandlers, hscope]; exact hc.handlers)
            (by rw [hmiddleware, hscope]; exact hc.middleware)
        obtain ⟨scopes, hrollback, hsame⟩ := rollback_restores hne (hchildren ▸ hc.children)
          (fun r hr => hlists p.staging r (by rw [← hr, hrt₁])) hrel hold hrt₂
        obtain ⟨declared, hback, hperm⟩ := moveProviders_back
          { rt₂ with scopes := scopes } hmovable (by rw [← hd₁, honly.eq]) (by rw [honly.eq, hrt₁])
        rw [hpublish] at h
        simp only [hfiled, hrollback, hback, undo] at h
        cases h
        refine ⟨by rw [honly.eq, hrt₁], hperm, fun s => ?_⟩
        have := hsame s
        rwa [hrt₁] at this

/-- The Runtime after a successful cutover. -/
def cutOver (rt : Runtime) (p : PreparedScopeRevision) (oldCell c : FiberCell) : Runtime :=
  { rt with
    declared := movedProviders rt.declared p.staging p.target c.inner.descriptor.provisions p.staged
    scopes := fun s => (rt.scopes s).map (relocated p.staging p.target p.staged p.children s)
    handlers := fun id =>
      if id ∈ c.inner.invocationHandlers then
        (rt.handlers id).map fun e => { e with scope := p.target }
      else rt.handlers id
    middleware := fun id =>
      if id ∈ c.inner.invocationMiddleware then
        (rt.middleware id).map fun e => { e with scope := p.target }
      else rt.middleware id
    services := movedServices rt.services p.staging p.target c.inner.provided
    selectors := Function.update rt.selectors c.plugin c.inner.capabilities.generation
    fibers := Function.update
      (Function.update rt.fibers p.old (some { oldCell with
        inner := { oldCell.inner with capabilities := oldCell.inner.capabilities.close } }))
      p.staged (some { c with inner := c.inner.cutover p.target }) }

theorem Relocatable.congr {source dest : ScopeId} {fiber : FiberId} {children : List ScopeId}
    (h : Relocatable rt source dest fiber children) (hs : rt'.scopes = rt.scopes)
    (hn : rt'.nextScope = rt.nextScope) : Relocatable rt' source dest fiber children := by
  have hscope : rt'.scope = rt.scope := by
    funext s
    unfold scope
    rw [hs]
  refine ⟨?_, ?_, ?_, ?_⟩
  · rw [hscope]
    exact h.leaves
  · rw [hscope]
    exact h.joins
  · rw [hscope, hn]
    exact h.only
  · rw [hscope]
    exact h.parents

theorem commitPrepared_ok {answer : List Nat}
    (h : rt.commitPrepared p oldCell c = (rt', .ok answer)) :
    Movable rt p.staging p.target c.inner.descriptor.provisions p.staged ∧
      Relocatable rt p.staging p.target p.staged p.children ∧
      (∀ k ∈ c.inner.provided, ∃ e, rt.services p.staging k = some e ∧ e.owner = p.staged) ∧
      c.plugin = oldCell.plugin ∧ rt' = rt.cutOver p oldCell c := by
  unfold commitPrepared at h
  simp only at h
  cases hmove : rt.moveProviders p.staging p.target c.inner.descriptor.provisions p.staged with
  | error e' =>
    rw [hmove] at h
    cases h
  | ok rt₁ =>
    obtain ⟨hmovable, hrt₁⟩ := moveProviders_ok hmove
    rw [hmove] at h
    simp only at h
    cases hlocked : rt₁.commitLocked p with
    | error e' =>
      rw [hlocked] at h
      simp only at h
      cases h
    | ok rt₂ =>
      obtain ⟨hrel, -, hrt₂⟩ := commitLocked_ok hlocked
      have honly : ScopesOnly rt₁ rt₂ := hrt₂ ▸ relocate_only ..
      rw [hlocked] at h
      simp only at h
      cases hpublish : Runtime.commitRevisionAndPublish
        (rt₂.commitRevision c.inner.invocationHandlers c.inner.invocationMiddleware p.target)
        p.staging p.target c.inner.provided p.old p.staged c oldCell with
      | error e' =>
        rw [hpublish] at h
        simp only at h
        cases h
      | ok rt₃ =>
        obtain ⟨hentries, hplugin, hrt₃⟩ := commitRevisionAndPublish_ok hpublish
        rw [hpublish] at h
        cases h
        have hscopes : rt₂.scopes =
            fun s => (rt.scopes s).map (relocated p.staging p.target p.staged p.children s) := by
          funext s
          rw [hrt₂, relocate_scopes, hrt₁]
        have heq : rt₂ = { rt with
            declared := movedProviders rt.declared p.staging p.target
              c.inner.descriptor.provisions p.staged
            scopes := fun s =>
              (rt.scopes s).map (relocated p.staging p.target p.staged p.children s) } := by
          rw [honly.eq, hscopes, hrt₁]
        subst heq
        refine ⟨hmovable, hrel.congr (by rw [hrt₁]) (by rw [hrt₁]), hentries, hplugin, ?_⟩
        rw [hrt₃]
        rfl

/-- **A successful cutover has moved everything.** -/
theorem cutOver_of_ok {answer : List Nat} (hc : Filed rt p.staged c)
    (hprovided : ∀ k, c.Holds k → k ∈ c.inner.provided) (hchildren : p.children = c.inner.childScopes)
    (h : rt.commitPrepared p oldCell c = (rt', .ok answer)) :
    CutOver rt rt' p.staged c p.staging p.target := by
  obtain ⟨hmovable, hrel, hentries, -, rfl⟩ := commitPrepared_ok h
  have hne := hrel.ne
  have hafter : ∀ s, (rt.cutOver p oldCell c).scope s =
      (rt.scope s).map (relocated p.staging p.target p.staged p.children s) := by
    intro s
    rw [← relocate_scope]
    unfold scope cutOver
    rw [relocate_scopes]
  obtain ⟨q, hq, -, -, -⟩ := hrel.leaves
  obtain ⟨d, hd, -, hnot, -⟩ := hrel.joins
  have hqin := (scope_eq_some.mp hq).2
  have hdin := (scope_eq_some.mp hd).2
  have hstaging : (rt.cutOver p oldCell c).scope p.staging =
      some (relocated p.staging p.target p.staged p.children p.staging q) := by
    rw [hafter, hq]
    rfl
  have htarget : (rt.cutOver p oldCell c).scope p.target =
      some (relocated p.staging p.target p.staged p.children p.target d) := by
    rw [hafter, hd]
    rfl
  exact {
    selector := by simp [cutOver]
    services := fun k e he ho => by
      have hk := hprovided k (hc.services p.staging k e he ho).2
      simp [cutOver, movedServices, hk, he]
    servicesLeft := fun k e he ho => by
      by_cases hk : k ∈ c.inner.provided
      · simp [cutOver, movedServices, hk, hne] at he
      · have he' : rt.services p.staging k = some e := by
          simpa [cutOver, movedServices, hk] using he
        exact hk (hprovided k (hc.services p.staging k e he' ho).2)
    handlers := fun id hid => by
      obtain ⟨e, he, -⟩ := hc.handlers id hid
      exact ⟨{ e with scope := p.target }, by simp [cutOver, hid, he], rfl⟩
    middleware := fun id hid => by
      obtain ⟨e, he, -⟩ := hc.middleware id hid
      exact ⟨{ e with scope := p.target }, by simp [cutOver, hid, he], rfl⟩
    declared := fun k hk => by
      have hfresh := List.count_eq_zero_of_not_mem (hmovable.fresh k hk)
      simp [cutOver, movedProviders, hk, hne.symm, hfresh]
    declaredLeft := fun k hk => by
      by_cases hprov : k ∈ c.inner.descriptor.provisions
      · simp [cutOver, movedProviders, hprov] at hk
      · have hk' : p.staged ∈ rt.declared p.staging k := by
          simpa [cutOver, movedProviders, hprov] using hk
        exact hprov (hc.declared p.staging k hk').2
    children := fun child hchild => by
      have hin : child ∈ p.children := hchildren ▸ hchild
      obtain ⟨r, hr, -⟩ := hrel.parents child hin
      refine ⟨⟨_, by rw [hafter, hr]; rfl, ?_⟩, ⟨_, htarget, ?_⟩, ⟨_, hstaging, ?_⟩⟩
      · simp [relocated, (scope_eq_some.mp hr).2, hin]
      · simp [relocated, hdin, hin]
      · simp [relocated, hqin, hne, hin]
    member := ⟨_, htarget, by
      simp [relocated, hdin, hne.symm, List.count_eq_zero_of_not_mem hnot]⟩
    memberLeft := ⟨_, hstaging, by simp [relocated, hqin, hne]⟩
    record := by simp [cutOver] }

/-- `commit_staged_revision` refuses before the first change, or runs the prepared transaction. -/
theorem commitRevisionIf_spec {valid : FiberCell → FiberCell → Outcome} {old staged : FiberId}
    {staging target : ScopeId} {r : Except CordisError (List Nat)}
    (h : rt.commitRevisionIf valid old staged staging target = (rt', r)) :
    (rt' = rt ∧ ∃ e, r = .error e) ∨
      ∃ oldCell stagedCell, rt.fiber old = some oldCell ∧ rt.fiber staged = some stagedCell ∧
        oldCell.inner.state = .Reloading ∧ stagedCell.inner.state = .Active ∧
        stagedCell.inner.capabilities.isStaged (rt.selectors stagedCell.plugin) = true ∧
        (∃ q, rt.scope staging = some q ∧ staged ∈ q.fibers) ∧
        rt.commitPrepared ⟨staging, target, staged, old, stagedCell.inner.childScopes⟩ oldCell
          stagedCell = (rt', r) := by
  have refused : ∀ e, (rt, Except.error e) = (rt', r) → rt' = rt ∧ ∃ e, r = .error e := by
    intro e heq
    cases heq
    exact ⟨rfl, e, rfl⟩
  unfold commitRevisionIf at h
  split at h
  · exact .inl (refused _ h)
  split at h
  · exact .inl (refused _ h)
  · exact .inl (refused _ h)
  rename_i oldCell stagedCell hold hstaged
  split at h
  · exact .inl (refused _ h)
  rename_i hreloading
  split at h
  · exact .inl (refused _ h)
  rename_i hactive
  split at h
  · exact .inl (refused _ h)
  split at h
  · exact .inl (refused _ h)
  split at h
  · exact .inl (refused _ h)
  simp only at h
  split at h
  · exact .inl (refused _ h)
  rename_i hprepared
  refine .inr ⟨oldCell, stagedCell, hold, hstaged, not_not.mp hreloading,
    not_not.mp (not_or.mp hactive).1, by simpa using (not_or.mp hactive).2, ?_, h⟩
  unfold prepareScopeRevision at hprepared
  simp only at hprepared
  split at hprepared <;> try contradiction
  rename_i q d hq hd
  split_ifs at hprepared with hbad
  exact ⟨q, hq, not_not.mp (not_or.mp (not_or.mp (not_or.mp hbad).2).2).1⟩

theorem commitStagedRevision_valid {old staged : FiberId} {staging target : ScopeId}
    {oldCell c : FiberCell} {answer : List Nat} (hold : rt.fiber old = some oldCell)
    (hc : rt.fiber staged = some c)
    (h : rt.commitStagedRevision old staged staging target = (rt', .ok answer)) :
    rt.validateRevision oldCell.inner.invocationHandlers c.inner.invocationHandlers target =
      .ok () := by
  unfold commitStagedRevision commitRevisionIf at h
  simp only [hold, hc] at h
  split at h
  · cases h
  split at h
  · cases h
  split at h
  · cases h
  split at h
  · cases h
  · assumption

theorem commitStagedRevision_free {old staged : FiberId} {staging target : ScopeId}
    {oldCell c : FiberCell} {answer : List Nat} (hold : rt.fiber old = some oldCell)
    (hc : rt.fiber staged = some c)
    (h : rt.commitStagedRevision old staged staging target = (rt', .ok answer)) :
    ∀ k ∈ c.inner.provided, ∀ e, rt.services target k = some e → e.owner = old := by
  unfold commitStagedRevision commitRevisionIf at h
  simp only [hold, hc] at h
  split at h
  · cases h
  split at h
  · cases h
  split at h
  · cases h
  split at h
  · cases h
  split at h
  · cases h
  rename_i hfree
  intro k hk e he
  have hnone := List.find?_eq_none.mp hfree k hk
  simpa [he] using hnone

theorem commitPrepared_named {answer : List Nat}
    (h : rt.commitPrepared p oldCell c = (rt', .ok answer)) :
    rt.selectors oldCell.plugin = oldCell.inner.capabilities.generation := by
  unfold commitPrepared at h
  simp only at h
  cases hmove : rt.moveProviders p.staging p.target c.inner.descriptor.provisions p.staged with
  | error e =>
    rw [hmove] at h
    cases h
  | ok rt₁ =>
    obtain ⟨-, hrt₁⟩ := moveProviders_ok hmove
    rw [hmove] at h
    simp only at h
    cases hlocked : rt₁.commitLocked p with
    | error e =>
      rw [hlocked] at h
      cases h
    | ok rt₂ =>
      obtain ⟨-, -, hrt₂⟩ := commitLocked_ok hlocked
      have honly : ScopesOnly rt₁ rt₂ := hrt₂ ▸ relocate_only ..
      rw [hlocked] at h
      simp only [commitRevisionAndPublish, cutoverFrom] at h
      split at h
      · cases h
      · rename_i hpublish
        split_ifs at hpublish with hintact hrefused
        simp only [not_or, not_not] at hrefused
        have hnamed : rt₂.selectors oldCell.plugin = oldCell.inner.capabilities.generation :=
          hrefused.2.2
        rw [honly.eq, hrt₁] at hnamed
        exact hnamed

theorem fiber_eq_some {f : FiberId} {c : FiberCell} :
    rt.fiber f = some c ↔ rt.fibers f = some c ∧ c.inArena = true := by
  simp [fiber, Option.filter_eq_some_iff]

end Runtime

end Cordis
