import Cordis.Fiber.Serving
import Cordis.Proof.Cutover
import Cordis.Runtime.Step

/-!
# Sections that add nothing

Most sections only take entries out of ledgers and registries, and take a registration out of a
registry only together with its ledger entry. `Tame` says so; every section of a Fiber, of a Scope
worker and of the garbage collector is tame. Only an install files anything there: the keys that its
descriptor declares.
-/

namespace Cordis

/-- `c'` is the same Fiber, bound to the same Scope, and its ledgers at most lose entries. -/
structure FiberCell.Shrinks (c c' : FiberCell) : Prop where
  origin : c'.origin = c.origin
  scope : c'.inner.scope = c.inner.scope
  descriptor : c'.inner.descriptor = c.inner.descriptor
  staged : c'.inner.staged = true → c.inner.staged = true
  handlers : c'.inner.invocationHandlers.Sublist c.inner.invocationHandlers
  middleware : c'.inner.invocationMiddleware.Sublist c.inner.invocationMiddleware
  children : c'.inner.childScopes.Sublist c.inner.childScopes
  guarded : c.Guarded → c'.Guarded

theorem FiberCell.Keeps.shrinks {c c' : FiberCell} (h : c.Keeps c') (hg : c.Guarded → c'.Guarded) : c.Shrinks c' :=
  ⟨h.origin, h.inner.scope, h.inner.descriptor, h.inner.staged, h.inner.handlers,
    h.inner.middleware, h.inner.children, hg⟩

theorem FiberCell.Shrinks.refl (c : FiberCell) : c.Shrinks c :=
  ⟨rfl, rfl, rfl, fun h => h, .refl _, .refl _, .refl _, fun h => h⟩

/-- The lists of `c'` are those of `c` in some order, or less. -/
structure ScopeCell.Shrinks (c c' : ScopeCell) : Prop where
  children : c'.children.Subperm c.children
  fibers : c'.fibers.Subperm c.fibers

theorem ScopeCell.Shrinks.refl (c : ScopeCell) : c.Shrinks c := ⟨.refl _, .refl _⟩

theorem ScopeCell.Shrinks.trans {c d e : ScopeCell} (h : c.Shrinks d) (h' : d.Shrinks e) :
    c.Shrinks e :=
  ⟨h'.children.trans h.children, h'.fibers.trans h.fibers⟩

/-- The section that `l` labels, whatever it was handed by the registries. -/
def FiberLabel.kind : FiberLabel → FiberLabel
  | activationBegin n _ _ => activationBegin n false (.ok 0)
  | activationSeal n _ => activationSeal n false
  | activationCheck n _ => activationCheck n (.ok ())
  | activationCommit n _ _ => activationCommit n (.ok ()) .NONE
  | childRequested _ => childRequested false
  | childDisposed _ => childDisposed (.ok ())
  | withdrawLook _ => withdrawLook false
  | installValidate _ => installValidate (.ok ())
  | installCheck _ => installCheck false
  | l => l

namespace Runtime

variable {rt rt' : Runtime} {f : FiberId} {c c' : FiberCell} {l : FiberLabel}

/-! ## What a section of a Fiber does to the registries -/

theorem delist_eq (rt : Runtime) (s : ScopeId) (f : FiberId) :
    rt.delist s f = { rt with scopes := fun x => (rt.scopes x).map fun r =>
      if x = s ∧ r.inArena then { r with fibers := r.fibers.filter (· ≠ f) } else r } := by
  have hscopes : (rt.delist s f).scopes = fun x => (rt.scopes x).map fun r =>
      if x = s ∧ r.inArena then { r with fibers := r.fibers.filter (· ≠ f) } else r :=
    funext fun x => modifyScope_scopes rt s _ x
  rw [← hscopes]
  exact (modifyScope_only rt s _).eq

/-- What section `l` of Fiber `f`, which led from `c` to `c'`, does to the registries of `rt`. -/
inductive SectionEffect (f : FiberId) (c c' : FiberCell) (l : FiberLabel) (rt : Runtime) : Runtime → Prop
  | none : SectionEffect f c c' l rt rt
  | closed (w : Bool) (asked : l.Requests w) (idle : c.inner.disposal.phase = .Idle)
      (tasks : c'.inner.disposal.phase = .Tasks) :
      SectionEffect f c c' l rt (rt.switch c.plugin c.inner.capabilities.generation .NONE)
  | numbered (n : Nat) (fresh : Except CordisError GenerationId) (label : l = .activationBegin n true fresh)
      (waiting : c.inner.state = .WaitingDependencies) (complete : c.inner.disposal.phase = .Complete) :
      SectionEffect f c c' l rt { rt with
        nextGeneration := Function.update rt.nextGeneration c.plugin (rt.nextGeneration c.plugin + 1) }
  | published (n : Nat) (checked : Outcome) (active : GenerationId) (label : l = .activationCommit n checked active)
      (starting : c.inner.state = .Starting) (now : c'.inner.state = .Active) :
      SectionEffect f c c' l rt (rt.switch c.plugin .NONE c.inner.capabilities.generation)
  | unregistered (label : l = .unregister) :
      SectionEffect f c c' l rt { rt with
        handlers := fun id =>
          if id ∈ c.inner.invocationHandlers ∧ id ∉ c'.inner.invocationHandlers then none else rt.handlers id
        middleware := fun id =>
          if id ∈ c.inner.invocationMiddleware ∧ id ∉ c'.inner.invocationMiddleware then none
          else rt.middleware id }
  | withdrawn (removed : List ServiceSymbol) (key : ServiceSymbol) (label : l = .withdrawRemove)
      (worker : c.worker = some (.removing removed key)) :
      SectionEffect f c c' l rt { rt with
        services := fun s k => if s = c.inner.scope ∧ k = key then none else rt.services s k }
  | indexed (label : l = .installIndex) (dependents : ServiceSymbol → List FiberId)
      (declared : ScopeId → ServiceSymbol → List FiberId)
      (filed : ∀ s k, ∀ g ∈ declared s k, g ∈ rt.declared s k ∨
        g = f ∧ s = c.origin ∧ k ∈ c.inner.descriptor.provisions) :
      SectionEffect f c c' l rt { rt with dependents := dependents, declared := declared }
  /-- The Fiber leaves the indexes and its membership list: with its installation, or with the last step of its
  disposal. -/
  | forgotten (scope : ScopeId)
      (why : (l = .installRemove ∧ c.inArena = true ∧ c'.inArena = false ∧ scope = c.inner.scope) ∨
        l = .indexCleanup ∧ ∃ result target b, c.worker = some (.finalizing result target b (some scope))) :
      SectionEffect f c c' l rt { rt with
        dependents := fun k =>
          if k ∈ c.inner.descriptor.dependencies then (rt.dependents k).filter (· ≠ f) else rt.dependents k
        declared := fun s k =>
          if s = scope ∧ k ∈ c.inner.descriptor.provisions then (rt.declared s k).filter (· ≠ f)
          else rt.declared s k
        scopes := fun x => (rt.scopes x).map fun r =>
          if x = scope ∧ r.inArena then { r with fibers := r.fibers.filter (· ≠ f) } else r }

theorem section_effect (f : FiberId) (rt : Runtime) (hstep : c.step l = some c') :
    SectionEffect f c c' l rt (fiberEffect f c c' l rt) := by
  cases l
  case callDispose w p a =>
    simp only [fiberEffect]
    split_ifs with hopens
    · exact .closed w (.inl ⟨p, a, rfl⟩) hopens.1 hopens.2
    · exact .none
  case activationDispose n =>
    simp only [fiberEffect]
    split_ifs with hopens
    · exact .closed false (.inr ⟨rfl, n, rfl⟩) hopens.1 hopens.2
    · exact .none
  case activationBegin n admitted fresh =>
    simp only [fiberEffect]
    split_ifs with hbegins
    · obtain ⟨rfl, hwaiting, hcomplete⟩ := hbegins
      exact .numbered n fresh rfl hwaiting hcomplete
    · exact .none
  case activationCommit n checked active =>
    simp only [fiberEffect]
    split_ifs with hcommits
    · exact .published n checked active rfl hcommits.1 hcommits.2
    · exact .none
  case unregister => exact .unregistered rfl
  case withdrawRemove =>
    simp only [fiberEffect]
    split
    · exact .withdrawn _ _ rfl ‹_›
    · exact .none
  case indexCleanup =>
    simp only [fiberEffect]
    split
    · rename_i result target b scope hworker
      rw [delist_eq]
      exact .forgotten scope (.inr ⟨rfl, result, target, b, hworker⟩)
    · exact .none
  case installIndex =>
    simp only [fiberEffect]
    split
    · split
      · exact .indexed rfl _ rt.declared fun _ _ _ => .inl
      · split
        · rename_i key hkey
          refine .indexed rfl rt.dependents _ fun s k g hg => ?_
          split_ifs at hg with hplace
          · rcases List.mem_append.mp hg with hwas | hnew
            · exact .inl hwas
            · obtain ⟨rfl, rfl⟩ := hplace
              exact .inr ⟨List.mem_singleton.mp hnew, rfl, List.mem_of_getElem? hkey⟩
          · exact .inl hg
        · exact .none
    · exact .none
  case installRemove =>
    have hgone : c'.inArena = false := by
      simp only [FiberCell.step, FiberCell.stepInstall] at hstep
      split at hstep <;> cases hstep
      rfl
    simp only [fiberEffect]
    split_ifs with hin
    · rw [delist_eq]
      exact .forgotten c.inner.scope (.inl ⟨rfl, hin, hgone, rfl⟩)
    · exact .none
  all_goals exact .none

/-- A step that adds nothing to any list, ledger or registry but the provisions of a Fiber that is being installed,
and takes a registration out of a registry only with its ledger entry. -/
structure Tame (rt rt' : Runtime) : Prop where
  nextFiber : rt'.nextFiber = rt.nextFiber
  nextScope : rt'.nextScope = rt.nextScope
  nextHandler : rt'.nextHandler = rt.nextHandler
  nextMiddleware : rt'.nextMiddleware = rt.nextMiddleware
  fibers : ∀ f c', rt'.fibers f = some c' → ∃ c, rt.fibers f = some c ∧ c.Shrinks c'
  scopes : ∀ s c', rt'.scopes s = some c' → ∃ c, rt.scopes s = some c ∧ c.Shrinks c'
  services : ∀ s k e, rt'.services s k = some e → rt.services s k = some e
  provided : ∀ f c c', rt.fibers f = some c → rt'.fibers f = some c' → c.Guarded →
    ∀ k, c.Holds k → ∀ e, rt'.services c.inner.scope k = some e → e.owner = f → c'.Holds k
  declared : ∀ s k, ∀ f ∈ rt'.declared s k, f ∈ rt.declared s k ∨
    ∃ c, rt.fibers f = some c ∧ s = c.origin ∧ k ∈ c.inner.descriptor.provisions
  handlers : ∀ id, rt'.handlers id = rt.handlers id ∨ ∃ f c c', rt.fibers f = some c ∧
    rt'.fibers f = some c' ∧ id ∈ c.inner.invocationHandlers ∧ id ∉ c'.inner.invocationHandlers
  middleware : ∀ id, rt'.middleware id = rt.middleware id ∨ ∃ f c c', rt.fibers f = some c ∧
    rt'.fibers f = some c' ∧ id ∈ c.inner.invocationMiddleware ∧
      id ∉ c'.inner.invocationMiddleware

theorem Tame.refl (rt : Runtime) : Tame rt rt where
  nextFiber := rfl
  nextScope := rfl
  nextHandler := rfl
  nextMiddleware := rfl
  fibers := fun f c hc => ⟨c, hc, .refl c⟩
  scopes := fun s c hc => ⟨c, hc, .refl c⟩
  services := fun s k e he => he
  provided := fun f c c' hc hc' _ k hk e he ho => by
    rw [hc] at hc'
    cases hc'
    exact hk
  declared := fun _ _ _ => .inl
  handlers := fun id => .inl rfl
  middleware := fun id => .inl rfl

theorem Tame.scopesOnly {rt₁ rt₂ : Runtime} (h : Tame rt rt₁) (ho : ScopesOnly rt₁ rt₂)
    (hs : ∀ s c', rt₂.scopes s = some c' → ∃ c, rt₁.scopes s = some c ∧ c.Shrinks c') :
    Tame rt rt₂ := by
  have hfibers : rt₂.fibers = rt₁.fibers := by rw [ho.eq]
  have hservices : rt₂.services = rt₁.services := by rw [ho.eq]
  have hdeclared : rt₂.declared = rt₁.declared := by rw [ho.eq]
  have hhandlers : rt₂.handlers = rt₁.handlers := by rw [ho.eq]
  have hmiddleware : rt₂.middleware = rt₁.middleware := by rw [ho.eq]
  exact {
    nextFiber := by rw [ho.eq]; exact h.nextFiber
    nextScope := by rw [ho.eq]; exact h.nextScope
    nextHandler := by rw [ho.eq]; exact h.nextHandler
    nextMiddleware := by rw [ho.eq]; exact h.nextMiddleware
    fibers := hfibers ▸ h.fibers
    scopes := fun s c' hc' => by
      obtain ⟨d, hd, hshrinks'⟩ := hs s c' hc'
      obtain ⟨c, hc, hshrinks⟩ := h.scopes s d hd
      exact ⟨c, hc, hshrinks.trans hshrinks'⟩
    services := hservices ▸ h.services
    provided := by rw [hfibers, hservices]; exact h.provided
    declared := hdeclared ▸ h.declared
    handlers := by rw [hfibers, hhandlers]; exact h.handlers
    middleware := by rw [hfibers, hmiddleware]; exact h.middleware }

theorem Tame.setScope {rt₁ : Runtime} (h : Tame rt rt₁) {s : ScopeId} {c c' : ScopeCell}
    (hc : rt₁.scopes s = some c) (hs : c.Shrinks c') : Tame rt (rt₁.setScope s c') := by
  refine h.scopesOnly ⟨rfl⟩ fun s' d hd => ?_
  by_cases heq : s' = s
  · subst heq
    obtain rfl : c' = d := by simpa [Runtime.setScope] using hd
    exact ⟨c, hc, hs⟩
  · exact ⟨d, by simpa [Runtime.setScope, heq] using hd, .refl d⟩

theorem Tame.modifyScope {rt₁ : Runtime} (h : Tame rt rt₁) {s : ScopeId}
    {f : ScopeCell → ScopeCell} (hf : ∀ c : ScopeCell, c.Shrinks (f c)) :
    Tame rt (rt₁.modifyScope s f) := by
  unfold Runtime.modifyScope
  split
  · rename_i c hc
    exact h.setScope (scope_eq_some.mp hc).1 (hf c)
  · exact h

theorem Tame.modifyScopeCell {rt₁ : Runtime} (h : Tame rt rt₁) {s : ScopeId}
    {f : ScopeCell → ScopeCell} (hf : ∀ c : ScopeCell, c.Shrinks (f c)) :
    Tame rt (rt₁.modifyScopeCell s f) := by
  unfold Runtime.modifyScopeCell
  split
  · rename_i c hc
    exact h.setScope hc (hf c)
  · exact h

theorem tame_setFiber (hc : rt.fibers f = some c) (hshrinks : c.Shrinks c')
    {services : ScopeId → ServiceSymbol → Option ServiceEntry}
    (hservices : ∀ s k e, services s k = some e → rt.services s k = some e)
    (hprovided : c.Guarded → ∀ k, c.Holds k → ∀ e, services c.inner.scope k = some e → e.owner = f → c'.Holds k) :
    Tame rt { rt.setFiber f c' with services := services } where
  nextFiber := rfl
  nextScope := rfl
  nextHandler := rfl
  nextMiddleware := rfl
  fibers := fun g d hd => by
    by_cases hg : g = f
    · subst hg
      obtain rfl : c' = d := by simpa [setFiber] using hd
      exact ⟨c, hc, hshrinks⟩
    · exact ⟨d, by simpa [setFiber, hg] using hd, .refl d⟩
  scopes := fun s c hc => ⟨c, hc, .refl c⟩
  services := hservices
  provided := fun g d d' hd hd' hguarded k hk e he ho => by
    by_cases hg : g = f
    · subst hg
      obtain rfl : c' = d' := by simpa [setFiber] using hd'
      obtain rfl : c = d := by simpa [hc] using hd
      exact hprovided hguarded k hk e he ho
    · obtain rfl : d = d' := by simpa [setFiber, hg, hd] using hd'
      exact hk
  declared := fun _ _ _ => .inl
  handlers := fun id => .inl rfl
  middleware := fun id => .inl rfl

theorem Tame.quiet {rt₁ : Runtime} (h : Tame rt rt₁) (selectors nextGeneration : PluginId → GenerationId)
    (dependents : ServiceSymbol → List FiberId) :
    Tame rt { rt₁ with
      selectors := selectors, nextGeneration := nextGeneration, dependents := dependents } :=
  ⟨h.nextFiber, h.nextScope, h.nextHandler, h.nextMiddleware, h.fibers, h.scopes, h.services,
    h.provided, h.declared, h.handlers, h.middleware⟩

theorem Tame.switch {rt₁ : Runtime} (h : Tame rt rt₁) (p : PluginId) (old new : GenerationId) :
    Tame rt (rt₁.switch p old new) := by
  unfold Runtime.switch
  split_ifs
  · exact h.quiet _ rt₁.nextGeneration rt₁.dependents
  · exact h

theorem Tame.removeProviders {rt₁ : Runtime} (h : Tame rt rt₁) (s : ScopeId)
    (provisions : List ServiceSymbol) (f : FiberId) :
    Tame rt (rt₁.removeProviders s provisions f) :=
  ⟨h.nextFiber, h.nextScope, h.nextHandler, h.nextMiddleware, h.fibers, h.scopes, h.services,
    h.provided, fun s' k => by
      unfold Runtime.removeProviders
      simp only
      split_ifs
      · exact fun g hg => h.declared s' k g (List.mem_of_mem_filter hg)
      · exact h.declared s' k, h.handlers, h.middleware⟩

theorem Tame.delist {rt₁ : Runtime} (h : Tame rt rt₁) (s : ScopeId) (f : FiberId) :
    Tame rt (rt₁.delist s f) :=
  h.modifyScope fun _ => ⟨.refl _, List.filter_sublist.subperm⟩

theorem tame_effect (hc : rt.fibers f = some c) (hstep : c.step l = some c') (hset : Tame rt (rt.setFiber f c'))
    (hl : l ≠ .withdrawRemove) : Tame rt (fiberEffect f c c' l (rt.setFiber f c')) := by
  have hself : (rt.setFiber f c').fibers f = some c' := by simp [setFiber]
  have heffect := section_effect f (rt.setFiber f c') hstep
  generalize fiberEffect f c c' l (rt.setFiber f c') = rt₁ at heffect
  cases heffect with
  | none => exact hset
  | closed | published => exact hset.switch ..
  | numbered => exact hset.quiet rt.selectors _ rt.dependents
  | unregistered =>
    refine { hset with handlers := fun id => ?_, middleware := fun id => ?_ }
    · by_cases hid : id ∈ c.inner.invocationHandlers ∧ id ∉ c'.inner.invocationHandlers
      · exact .inr ⟨f, c, c', hc, hself, hid⟩
      · exact .inl (if_neg hid)
    · by_cases hid : id ∈ c.inner.invocationMiddleware ∧ id ∉ c'.inner.invocationMiddleware
      · exact .inr ⟨f, c, c', hc, hself, hid⟩
      · exact .inl (if_neg hid)
  | withdrawn _ _ label => exact absurd label hl
  | indexed _ dependents declared filed =>
    refine { hset with declared := fun s k g hg => ?_ }
    rcases filed s k g hg with hwas | ⟨rfl, hs, hk⟩
    · exact hset.declared s k g hwas
    · exact .inr ⟨c, hc, hs, hk⟩
  | forgotten scope =>
    have hforgets := ((hset.quiet rt.selectors rt.nextGeneration ((rt.setFiber f c').removeDependencies
      c.inner.descriptor.dependencies f).dependents).removeProviders scope c.inner.descriptor.provisions f).delist
      scope f
    rw [delist_eq] at hforgets
    exact hforgets

theorem step_shrinks (hstep : c.step l = some c') (hl : l.plain = true ∨ l = .withdraw) : c.Shrinks c' := by
  rcases hl with hl | rfl
  · exact (step_keeps hstep hl).shrinks fun hg => hg.step hstep
  · have hkeeps := step_withdraw hstep
    exact ⟨hkeeps.origin, hkeeps.inner.scope, hkeeps.inner.descriptor, hkeeps.inner.staged, hkeeps.inner.handlers,
      hkeeps.inner.middleware, hkeeps.inner.children, fun hg => hg.step hstep⟩

theorem tame_section (hc : rt.fibers f = some c) (hstep : c.step l = some c')
    (hl : l.plain = true ∨ l = .withdraw) (hlook : ∀ owned, l ≠ .withdrawLook owned)
    (hremove : l ≠ .withdrawRemove) :
    Tame rt (fiberEffect f c c' l (rt.setFiber f c')) :=
  tame_effect hc hstep (tame_setFiber hc (step_shrinks hstep hl) (fun _ _ _ he => he)
    fun hg _ hk _ _ _ => holds_step hg.consistent hstep hlook hremove hk) hremove

/-- The worker finds the entry of the symbol in its hands to be its own, or lets go of it. -/
theorem tame_withdrawLook {owned : Bool} (hc : rt.fibers f = some c)
    (hstep : c.step (.withdrawLook owned) = some c')
    (howned : ∃ removed key, c.worker = some (.withdrawn removed key) ∧
      owned = (rt.services c.inner.scope key).any (·.owner == f)) :
    Tame rt (rt.setFiber f c') := by
  obtain ⟨removed, key, hw, howned⟩ := howned
  have hnow : c' = { c with worker := some (if owned then .removing removed key else .withdrawing removed) } := by
    simp only [FiberCell.step, hw] at hstep
    exact (Option.some.inj hstep).symm
  refine tame_setFiber hc (step_shrinks hstep (.inl rfl)) (fun _ _ _ he => he) fun _ k hk e he ho => ?_
  rcases hk with hk | htaken
  · exact .inl (by rw [hnow]; exact hk)
  · refine .inr ?_
    rw [hw] at htaken
    obtain rfl : key = k := Option.some.inj htaken
    rw [hnow, howned, he]
    simp [ho, DisposalPc.taken]

theorem tame_withdrawRemove (hc : rt.fibers f = some c) (hstep : c.step .withdrawRemove = some c') :
    Tame rt (fiberEffect f c c' .withdrawRemove (rt.setFiber f c')) := by
  obtain ⟨pc, hw, hremove⟩ := Option.bind_eq_some_iff.mp hstep
  simp only [FiberCell.stepWorker] at hremove
  split at hremove <;> try contradiction
  rename_i removed key
  have hnow : c' = { c with worker := some (.withdrawing (removed ++ [key])) } := (Option.some.inj hremove).symm
  simp only [fiberEffect, hw, takeService]
  refine tame_setFiber hc (step_shrinks hstep (.inl rfl)) (fun s k e he => ?_) fun _ k hk e he ho => ?_
  · split_ifs at he
    exact he
  · rcases hk with hk | htaken
    · exact .inl (by rw [hnow]; exact hk)
    · rw [hw] at htaken
      obtain rfl : key = k := Option.some.inj htaken
      simp at he

theorem answered_kind {a : FiberLabel} (h : rt.answered f c l = some a) : a.kind = l.kind := by
  cases l <;> simp only [answered] at h
  case childDisposed =>
    split at h <;> try contradiction
    obtain ⟨o, -, rfl⟩ := Option.map_eq_some_iff.mp h
    rfl
  case register entry =>
    cases entry <;> simp only at h <;> try contradiction
    all_goals
      split_ifs at h
      cases h
      rfl
  all_goals
    repeat' split at h
    all_goals first | contradiction | (cases h; rfl)

theorem answered_register {entry : Registration}
    (h : rt.answered f c l = some (.register entry)) : l = .register entry := by
  have hkind := answered_kind h
  cases l <;> first | exact hkind.symm | contradiction

theorem answered_plain {l' : FiberLabel} (h : rt.answered f c l = some l') : l'.plain = true ∨ l' = .withdraw := by
  have hkind := answered_kind h
  cases l'
  case withdraw => exact .inr rfl
  case cutover => cases l <;> contradiction
  case register entry =>
    obtain rfl := answered_register h
    cases entry <;> simp only [answered] at h <;> try contradiction
    all_goals exact .inl rfl
  all_goals exact .inl rfl

theorem answered_withdrawLook {owned : Bool} (h : rt.answered f c l = some (.withdrawLook owned)) :
    ∃ removed key, c.worker = some (.withdrawn removed key) ∧
      owned = (rt.services c.inner.scope key).any (·.owner == f) := by
  have hkind := answered_kind h
  cases l <;> try contradiction
  simp only [answered] at h
  split at h <;> cases h
  exact ⟨_, _, ‹_›, rfl⟩

theorem fiberStep_spec (h : rt.fiberStep f l = some rt') :
    ∃ c l' c', rt.fibers f = some c ∧ rt.answered f c l = some l' ∧ c.step l' = some c' ∧
      rt' = fiberEffect f c c' l' (rt.setFiber f c') := by
  unfold fiberStep at h
  simp only [Option.bind_eq_bind, Option.bind_eq_some_iff, Option.pure_def, Option.some.injEq] at h
  obtain ⟨c, hc, l', hl', c', hc', rfl⟩ := h
  exact ⟨c, l', c', hc, hl', hc', rfl⟩

theorem tame_fiberStep (h : rt.fiberStep f l = some rt') : Tame rt rt' := by
  obtain ⟨c, l', c', hc, hl', hstep, rfl⟩ := fiberStep_spec h
  by_cases hlook : ∃ owned, l' = .withdrawLook owned
  · obtain ⟨owned, rfl⟩ := hlook
    exact tame_withdrawLook hc hstep (answered_withdrawLook hl')
  by_cases hremove : l' = .withdrawRemove
  · subst hremove
    exact tame_withdrawRemove hc hstep
  · exact tame_section hc hstep (answered_plain hl') (fun owned heq => hlook ⟨owned, heq⟩) hremove

theorem disposeFound_spec (rt : Runtime) (f : FiberId) (w p a : Bool) :
    (rt.fibers f = none ∧ rt.disposeFound f w p a = (rt, .error .FiberNotFound)) ∨
      ∃ c c', rt.fibers f = some c ∧ c.step (.callDispose w p a) = some c' ∧
        rt.disposeFound f w p a =
          (fiberEffect f c c' (.callDispose w p a) (rt.setFiber f c'), (c.dispose w p a).2) := by
  unfold disposeFound
  cases hc : rt.fibers f with
  | none => exact .inl ⟨rfl, rfl⟩
  | some c => exact .inr ⟨c, (c.dispose w p a).1, rfl, rfl, rfl⟩

theorem tame_disposeFound (rt : Runtime) (f : FiberId) (w p a : Bool) : Tame rt (rt.disposeFound f w p a).1 := by
  rcases disposeFound_spec rt f w p a with ⟨-, heq⟩ | ⟨c, c', hc, hstep, heq⟩ <;> rw [heq]
  · exact .refl rt
  · exact tame_section hc hstep (.inl rfl) nofun nofun

theorem disposeFound_scopes (rt : Runtime) (f : FiberId) (w p a : Bool) :
    (rt.disposeFound f w p a).1.scopes = rt.scopes := by
  rcases disposeFound_spec rt f w p a with ⟨-, heq⟩ | ⟨c, c', hc, hstep, heq⟩ <;> rw [heq]
  simp only [fiberEffect]
  split_ifs
  · unfold switch
    split_ifs <;> rfl
  · rfl

theorem tame_requestScopeDisposal (rt : Runtime) (s : ScopeId) (p : Bool) :
    Tame rt (rt.requestScopeDisposal s p).1 := by
  unfold requestScopeDisposal
  cases hs : rt.scope s with
  | none => exact .refl rt
  | some c =>
    have hc := (scope_eq_some.mp hs).1
    simp only
    split_ifs
    all_goals exact (Tame.refl rt).setScope hc ⟨.refl _, .refl _⟩

theorem tame_stepScope {s : ScopeId} {c : ScopeCell} {pc : ScopePc} {l : ScopeLabel}
    (hc : rt.scopes s = some c) (h : rt.stepScope s c pc l = some rt') : Tame rt rt' := by
  have hset : ∀ c' : ScopeCell, c.Shrinks c' → Tame rt (rt.setScope s c') :=
    fun c' hs => (Tame.refl rt).setScope hc hs
  cases l <;> simp only [stepScope] at h
  case visit =>
    split at h <;> try contradiction
    rename_i t
    split at h
    · rename_i child _
      have hrequest := tame_requestScopeDisposal rt child t.persistent
      split at h
      all_goals
        rename_i heq
        rw [heq] at hrequest
        cases h
        exact hrequest.modifyScopeCell fun c => ⟨.refl _, .refl _⟩
    · split at h <;> cases h <;> exact hset _ ⟨.refl _, .refl _⟩
    · cases h
      exact hset _ ⟨.refl _, .refl _⟩
  case fiberCall =>
    split at h <;> try contradiction
    rename_i t f
    have hdispose := tame_disposeFound rt f false t.persistent true
    have hscopes := disposeFound_scopes rt f false t.persistent true
    split at h
    all_goals
      rename_i heq
      rw [heq] at hdispose hscopes
      cases h
      exact hdispose.setScope ((congrFun hscopes s).trans hc) ⟨.refl _, .refl _⟩
  case finalize =>
    repeat' split at h
    all_goals first
      | contradiction
      | (cases h; exact hset _ ⟨.refl _, .refl _⟩)
      | (cases h
         refine Tame.modifyScope (hset _ ?_) ?_
         · exact ⟨.refl _, .refl _⟩
         · exact fun c => ⟨List.filter_sublist.subperm, .refl _⟩)
  all_goals
    repeat' split at h
    all_goals first | contradiction | (cases h; exact hset _ ⟨.refl _, .refl _⟩)

theorem tame_sweepFiber (h : rt.sweepFiber f = some rt') : Tame rt rt' := by
  unfold sweepFiber at h
  split_ifs at h
  cases h
  exact {
    Tame.refl rt with
    declared := fun _ _ _ hg => .inl (List.mem_of_mem_filter hg)
    scopes := fun s c' hc' => by
      obtain ⟨c, hc, rfl⟩ := Option.map_eq_some_iff.mp hc'
      refine ⟨c, hc, ?_⟩
      split_ifs
      · exact ⟨.refl _, List.filter_sublist.subperm⟩
      · exact .refl c }

theorem tame_sweepScope {s : ScopeId} (h : rt.sweepScope s = some rt') : Tame rt rt' := by
  unfold sweepScope at h
  split at h <;> try contradiction
  rename_i c hs
  split_ifs at h
  cases h
  exact (Tame.refl rt).setScope (scope_eq_some.mp hs).1 ⟨.refl _, .refl _⟩

end Runtime

end Cordis
