import Cordis.Proof.Evolve

/-!
# What a section does to the Scopes

Apart from its own disposal worker, a Scope changes in three ways: a request opens its disposal, an
`Active` Scope gains members, and every Scope may lose them. A Fiber leaves the membership list of its
Scope only on the last step of its disposal, when it is taken out of the arena, or when a cutover
rebinds it.
-/

namespace Cordis

/-- `r'` is `r` up to its lists, which grow only while the Scope is `Active`. -/
structure ScopeCell.Frame (r r' : ScopeCell) : Prop where
  arena : r'.inArena = true → r.inArena = true
  state : r'.state = r.state
  worker : r'.worker = r.worker
  published : r'.published = r.published
  children : r.state ≠ .Active → ∀ x ∈ r'.children, x ∈ r.children
  fibers : r.state ≠ .Active → ∀ f ∈ r'.fibers, f ∈ r.fibers

theorem ScopeCell.Frame.refl (r : ScopeCell) : r.Frame r :=
  ⟨id, rfl, rfl, rfl, fun _ _ h => h, fun _ _ h => h⟩

/-- A disposal of `r` is opened. -/
structure ScopeCell.Opened (r r' : ScopeCell) : Prop where
  arena : r'.inArena = true → r.inArena = true
  active : r.state = .Active
  disposing : r'.state = .Disposing
  worker : r'.worker = some .copying
  published : r'.published = r.published

/-- A Scope that was just created. -/
structure ScopeCell.Blank (r : ScopeCell) : Prop where
  state : r.state = .Active
  worker : r.worker = none
  published : r.published = none

namespace Runtime

variable {rt rt' : Runtime} {f : FiberId} {c c' : FiberCell}

/-- No disposal worker of a Scope moves, but for those of `except`. -/
structure Frames (rt rt' : Runtime) (except : ScopeId → Prop) : Prop where
  next : rt.nextScope ≤ rt'.nextScope
  kept : ∀ s r, rt.scopes s = some r → ∃ r', rt'.scopes s = some r'
  scopes : ∀ s r', rt'.scopes s = some r' → ¬ except s →
    (rt.nextScope ≤ s ∧ s < rt'.nextScope ∧ r'.Blank) ∨
      ∃ r, rt.scopes s = some r ∧ (r.Frame r' ∨ r.Opened r')

theorem Frames.refl (rt : Runtime) (except : ScopeId → Prop) : Frames rt rt except where
  next := le_rfl
  kept := fun _ r hr => ⟨r, hr⟩
  scopes := fun _ r hr _ => .inr ⟨r, hr, .inl (.refl r)⟩

theorem Frames.of_map {except : ScopeId → Prop} {g : ScopeId → ScopeCell → ScopeCell}
    (hs : ∀ s, rt'.scopes s = (rt.scopes s).map (g s)) (hn : rt'.nextScope = rt.nextScope)
    (hg : ∀ s r, rt.scopes s = some r → ¬ except s → r.Frame (g s r) ∨ r.Opened (g s r)) :
    Frames rt rt' except where
  next := hn.ge
  kept := fun s r hr => ⟨g s r, by rw [hs, hr]; rfl⟩
  scopes := fun s r' hr' hne => by
    rw [hs] at hr'
    obtain ⟨r, hr, rfl⟩ := Option.map_eq_some_iff.mp hr'
    exact .inr ⟨r, hr, hg s r hr hne⟩

theorem Frames.of_eq {except : ScopeId → Prop} (hs : rt'.scopes = rt.scopes)
    (hn : rt'.nextScope = rt.nextScope) : Frames rt rt' except :=
  .of_map (g := fun _ r => r) (fun s => by rw [hs, Option.map_id']) hn
    fun _ r _ _ => .inl (.refl r)

theorem delist_scopes (rt : Runtime) (s : ScopeId) (f : FiberId) (s' : ScopeId) :
    (rt.delist s f).scopes s' = (rt.scopes s').map fun r =>
      if s' = s ∧ r.inArena then { r with fibers := r.fibers.filter (· ≠ f) } else r :=
  modifyScope_scopes ..

theorem fiberEffect_scopes {l : FiberLabel} (f : FiberId) (rt : Runtime) (hstep : c.step l = some c') :
    (fiberEffect f c c' l rt).nextScope = rt.nextScope ∧
      ((fiberEffect f c c' l rt).scopes = rt.scopes ∨
        ∃ scope, (∀ s, (fiberEffect f c c' l rt).scopes s = (rt.delist scope f).scopes s) ∧
          (c'.inArena = false ∨ l = .indexCleanup ∧
            ∃ result target b, c.worker = some (.finalizing result target b (some scope)))) := by
  have heffect := section_effect f rt hstep
  generalize fiberEffect f c c' l rt = rt₁ at heffect
  cases heffect with
  | closed | published =>
    unfold switch
    split_ifs <;> exact ⟨rfl, .inl rfl⟩
  | none | numbered | indexed | unregistered | withdrawn => exact ⟨rfl, .inl rfl⟩
  | forgotten scope why =>
    exact ⟨rfl, .inr ⟨scope, fun s => (delist_scopes ..).symm, why.imp (·.2.2.1) id⟩⟩

theorem frames_fiberStep {l : FiberLabel} {except : ScopeId → Prop}
    (h : rt.fiberStep f l = some rt') : Frames rt rt' except := by
  obtain ⟨c, l', c', -, -, hstep, rfl⟩ := fiberStep_spec h
  obtain ⟨hnext, hsame | ⟨scope, hdelist, -⟩⟩ := fiberEffect_scopes f (rt.setFiber f c') hstep
  · exact .of_eq hsame hnext
  · refine .of_map (fun s => (hdelist s).trans (delist_scopes ..)) hnext fun s r _ _ => .inl ?_
    split_ifs
    · exact ⟨id, rfl, rfl, rfl, fun _ _ h => h, fun _ _ h => (List.mem_filter.mp h).1⟩
    · exact .refl r

theorem requestScopeDisposal_scopes (rt : Runtime) (s : ScopeId) (p : Bool) :
    (rt.requestScopeDisposal s p).1.nextScope = rt.nextScope ∧
      ∃ g : ScopeCell → ScopeCell, (∀ s', (rt.requestScopeDisposal s p).1.scopes s' =
        (rt.scopes s').map fun r => if s' = s then g r else r) ∧
        ∀ r, rt.scopes s = some r → r.Frame (g r) ∨ r.Opened (g r) := by
  have hset : ∀ (r q : ScopeCell), rt.scopes s = some r → ∀ s', (rt.setScope s q).scopes s' =
      (rt.scopes s').map fun r => if s' = s then q else r := by
    intro r q hr s'
    by_cases hs : s' = s
    · subst hs
      simp [setScope, hr]
    · simp [setScope, hs]
  unfold requestScopeDisposal
  split
  · refine ⟨rfl, id, fun s' => ?_, fun r _ => .inl (.refl r)⟩
    simp
  · rename_i r hr
    have hr' := (scope_eq_some.mp hr).1
    simp only
    split_ifs with hactive
    · refine ⟨rfl, fun _ => _, hset r _ hr', fun q hq => ?_⟩
      obtain rfl : r = q := by simpa [hr'] using hq
      exact .inr ⟨id, hactive, rfl, rfl, rfl⟩
    · refine ⟨rfl, fun _ => _, hset r _ hr', fun q hq => ?_⟩
      obtain rfl : r = q := by simpa [hr'] using hq
      exact .inl ⟨id, rfl, rfl, rfl, fun _ _ h => h, fun _ _ h => h⟩

theorem frames_requestScopeDisposal (rt : Runtime) (s : ScopeId) (p : Bool)
    (except : ScopeId → Prop) : Frames rt (rt.requestScopeDisposal s p).1 except := by
  obtain ⟨hnext, g, hscopes, hg⟩ := requestScopeDisposal_scopes rt s p
  refine .of_map hscopes hnext fun s' r hr _ => ?_
  by_cases hs : s' = s
  · subst hs
    rw [if_pos rfl]
    exact hg r hr
  · rw [if_neg hs]
    exact .inl (.refl r)

theorem frames_createScope {parent : ScopeId} {hidden : Bool} {except : ScopeId → Prop}
    (ht : Topology rt) (h : rt.createScope parent hidden = some rt') : Frames rt rt' except := by
  obtain ⟨-, heq, hscopes⟩ := createScope_spec h
  have hnext : rt'.nextScope = rt.nextScope + 1 := by rw [heq]
  have hopen : ∀ r, rt.scopes parent = some r → r.inArena = true → r.state = .Active := by
    intro r hr hin
    unfold createScope at h
    split_ifs at h with hadmitted
    obtain ⟨q, hq, hactive⟩ := (Option.any_eq_true _ _).mp hadmitted.2
    obtain rfl : q = r := by simpa [hr, eq_comm] using (scope_eq_some.mp hq).1
    simpa using hactive
  exact {
    next := hnext ▸ Nat.le_succ _
    kept := fun s r hr => by
      have hs : s ≠ rt.nextScope := Nat.ne_of_lt (ht.scopes s r hr).1
      rw [hscopes, if_neg hs, hr]
      exact ⟨_, rfl⟩
    scopes := fun s r' hr' _ => by
      rw [hscopes] at hr'
      by_cases hs : s = rt.nextScope
      · rw [if_pos hs] at hr'
        obtain ⟨r, hr, rfl⟩ := Option.map_eq_some_iff.mp hr'
        cases hr
        refine .inl ⟨hs.ge, hs ▸ hnext ▸ Nat.lt_succ_self _, ?_⟩
        split_ifs <;> exact ⟨rfl, rfl, rfl⟩
      · rw [if_neg hs] at hr'
        obtain ⟨r, hr, rfl⟩ := Option.map_eq_some_iff.mp hr'
        refine .inr ⟨r, hr, .inl ?_⟩
        split_ifs with hparent
        · obtain ⟨rfl, hin⟩ := hparent
          have hactive := hopen r hr hin
          exact ⟨id, rfl, rfl, rfl, fun h => absurd hactive h, fun h => absurd hactive h⟩
        · exact .refl r }

theorem Frames.setScope {rt₁ : Runtime} {s : ScopeId} {r : ScopeCell} (h : Frames rt rt₁ (· = s))
    : Frames rt (rt₁.setScope s r) (· = s) where
  next := h.next
  kept := fun s' q hq => by
    by_cases hs : s' = s
    · subst hs
      exact ⟨r, by simp [Runtime.setScope]⟩
    · obtain ⟨q', hq'⟩ := h.kept s' q hq
      exact ⟨q', by simp [Runtime.setScope, hs, hq']⟩
  scopes := fun s' q hq hs =>
    h.scopes s' q (by simpa [Runtime.setScope, show s' ≠ s from hs] using hq) hs

theorem Frames.modifyScopeCell {rt₁ : Runtime} {s : ScopeId} {g : ScopeCell → ScopeCell}
    (h : Frames rt rt₁ (· = s)) : Frames rt (rt₁.modifyScopeCell s g) (· = s) := by
  unfold Runtime.modifyScopeCell
  split
  · exact h.setScope
  · exact h

theorem Frames.modifyScope {rt₁ : Runtime} {except : ScopeId → Prop} {s : ScopeId}
    {g : ScopeCell → ScopeCell} (h : Frames rt rt₁ except) (hg : ∀ r : ScopeCell, r.Frame (g r)) :
    Frames rt (rt₁.modifyScope s g) except where
  next := by
    rw [(modifyScope_only rt₁ s g).eq]
    exact h.next
  kept := fun s' r hr => by
    obtain ⟨q, hq⟩ := h.kept s' r hr
    rw [modifyScope_scopes, hq]
    exact ⟨_, rfl⟩
  scopes := fun s' q' hq' hne => by
    have hnext : (rt₁.modifyScope s g).nextScope = rt₁.nextScope := by
      rw [(modifyScope_only rt₁ s g).eq]
    rw [modifyScope_scopes] at hq'
    obtain ⟨q, hq, rfl⟩ := Option.map_eq_some_iff.mp hq'
    have hframe : q.Frame (if s' = s ∧ q.inArena then g q else q) := by
      split_ifs
      · exact hg q
      · exact .refl q
    rw [hnext]
    rcases h.scopes s' q hq hne with ⟨hge, hlt, hblank⟩ | ⟨r, hr, hstep | hopened⟩
    · exact .inl ⟨hge, hlt, hframe.state.trans hblank.state, hframe.worker.trans hblank.worker,
        hframe.published.trans hblank.published⟩
    · refine .inr ⟨r, hr, .inl ⟨fun h => hstep.arena (hframe.arena h),
        hframe.state.trans hstep.state, hframe.worker.trans hstep.worker,
        hframe.published.trans hstep.published, fun hclosed x hx => ?_, fun hclosed x hx => ?_⟩⟩
      · exact hstep.children hclosed x (hframe.children (hstep.state ▸ hclosed) x hx)
      · exact hstep.fibers hclosed x (hframe.fibers (hstep.state ▸ hclosed) x hx)
    · exact .inr ⟨r, hr, .inr ⟨fun h => hopened.arena (hframe.arena h), hopened.active,
        hframe.state.trans hopened.disposing, hframe.worker.trans hopened.worker,
        hframe.published.trans hopened.published⟩⟩

theorem frame_filterChildren (r : ScopeCell) (p : ScopeId → Bool) :
    r.Frame { r with children := r.children.filter p } :=
  ⟨id, rfl, rfl, rfl, fun _ _ h => (List.mem_filter.mp h).1, fun _ _ h => h⟩

theorem requestScopeDisposal_only (rt : Runtime) (s : ScopeId) (p : Bool) :
    ScopesOnly rt (rt.requestScopeDisposal s p).1 := by
  unfold requestScopeDisposal
  split
  · exact ⟨rfl⟩
  · simp only
    split_ifs <;> exact ⟨rfl⟩

theorem modifyScopeCell_only (rt : Runtime) (s : ScopeId) (g : ScopeCell → ScopeCell) :
    ScopesOnly rt (rt.modifyScopeCell s g) := by
  unfold modifyScopeCell
  split <;> exact ⟨rfl⟩

theorem stepScope_only {s : ScopeId} {r : ScopeCell} {pc : ScopePc} {a : ScopeLabel}
    (h : rt.stepScope s r pc a = some rt') :
    ScopesOnly rt rt' ∨ ∃ f p, ScopesOnly (rt.disposeFound f false p true).1 rt' := by
  cases a <;> simp only [stepScope] at h
  case visit =>
    split at h <;> try contradiction
    rename_i t
    split at h
    · rename_i child _
      have hrequest := requestScopeDisposal_only rt child t.persistent
      split at h
      all_goals
        rename_i heq
        rw [heq] at hrequest
        cases h
        exact .inl (hrequest.trans (modifyScopeCell_only ..))
    · split at h <;> cases h <;> exact .inl ⟨rfl⟩
    · cases h
      exact .inl ⟨rfl⟩
  case fiberCall =>
    split at h <;> try contradiction
    rename_i t f
    refine .inr ⟨f, t.persistent, ?_⟩
    split at h
    all_goals
      rename_i heq
      rw [heq]
      cases h
      exact ⟨rfl⟩
  case finalize =>
    repeat' split at h
    all_goals first
      | contradiction
      | (cases h; exact .inl ⟨rfl⟩)
      | (cases h; exact .inl (.trans ⟨rfl⟩ (modifyScope_only ..)))
  all_goals
    repeat' split at h
    all_goals first | contradiction | (cases h; exact .inl ⟨rfl⟩)

theorem frames_stepScope {s : ScopeId} {r : ScopeCell} {pc : ScopePc} {a : ScopeLabel}
    (h : rt.stepScope s r pc a = some rt') : Frames rt rt' (· = s) := by
  have hset : ∀ q, Frames rt (rt.setScope s q) (· = s) := fun q => (Frames.refl rt _).setScope
  cases a <;> simp only [stepScope] at h
  case visit =>
    split at h <;> try contradiction
    rename_i t
    split at h
    · rename_i child _
      have hrequest := frames_requestScopeDisposal rt child t.persistent (· = s)
      split at h
      all_goals
        rename_i heq
        rw [heq] at hrequest
        cases h
        exact hrequest.modifyScopeCell
    · split at h <;> cases h <;> exact hset _
    · cases h
      exact hset _
  case fiberCall =>
    split at h <;> try contradiction
    rename_i t f
    have hscopes := disposeFound_scopes rt f false t.persistent true
    have hnext : (rt.disposeFound f false t.persistent true).1.nextScope = rt.nextScope :=
      (tame_disposeFound rt f false t.persistent true).nextScope
    split at h
    all_goals
      rename_i heq
      rw [heq] at hscopes hnext
      cases h
      exact (Frames.of_eq hscopes hnext).setScope
  case finalize =>
    repeat' split at h
    all_goals first
      | contradiction
      | (cases h; exact hset _)
      | (cases h; exact (hset _).modifyScope fun p => frame_filterChildren p _)
  all_goals
    repeat' split at h
    all_goals first | contradiction | (cases h; exact hset _)

theorem frames_insertFiber {scope : ScopeId} {plugin : Option PluginId}
    {descriptor : PluginDescriptor} {staged : Bool} {except : ScopeId → Prop}
    (h : rt.insertFiber scope plugin descriptor staged = some rt') : Frames rt rt' except := by
  obtain ⟨p, heq, hscopes⟩ := insertFiber_spec h
  refine .of_map hscopes (by rw [heq]) fun s r hr _ => .inl ?_
  split_ifs with hs
  · have hactive : r.state = .Active := by
      unfold insertFiber at h
      split_ifs at h with hadmitted
      obtain ⟨q, hq, hactive⟩ := (Option.any_eq_true _ _).mp hadmitted.2
      obtain rfl : q = r := by simpa [← hs.1, hr, eq_comm] using (scope_eq_some.mp hq).1
      simpa using hactive
    exact ⟨id, rfl, rfl, rfl, fun h => absurd hactive h, fun h => absurd hactive h⟩
  · exact .refl r

theorem frame_relocated {source dest : ScopeId} {fiber : FiberId} {children : List ScopeId}
    (h : Relocatable rt source dest fiber children) {s : ScopeId} {r : ScopeCell}
    (hr : rt.scopes s = some r) : r.Frame (relocated source dest fiber children s r) := by
  by_cases hin : r.inArena
  swap
  · rw [relocated, if_neg hin]
    exact .refl r
  have hscope : rt.scope s = some r := scope_eq_some.mpr ⟨hr, hin⟩
  rw [relocated, if_pos hin]
  refine ⟨fun _ => hin, rfl, rfl, rfl, fun hclosed x hx => ?_, fun hclosed x hx => ?_⟩
  all_goals
    have hs : s ≠ source := by
      rintro rfl
      obtain ⟨q, hq, hactive, -⟩ := h.leaves
      obtain rfl : r = q := by simpa [hscope] using hq
      exact hclosed hactive
    have hd : s ≠ dest := by
      rintro rfl
      obtain ⟨q, hq, hactive, -⟩ := h.joins
      obtain rfl : r = q := by simpa [hscope] using hq
      exact hclosed hactive
    simpa [hs, hd] using hx

theorem SameTopology.frames {except : ScopeId → Prop} (h : SameTopology rt rt') :
    Frames rt rt' except where
  next := by rw [h.rest]
  kept := fun s r hr => by
    have hsame := h.scopes s
    cases hr' : rt'.scopes s with
    | none =>
      rw [hr, hr'] at hsame
      cases hsame
    | some r' => exact ⟨r', rfl⟩
  scopes := fun s r' hr' _ => by
    have hsame := h.scopes s
    rw [hr'] at hsame
    cases hr : rt.scopes s with
    | none =>
      rw [hr] at hsame
      cases hsame
    | some r =>
      rw [hr] at hsame
      cases hsame with
      | some hsame =>
        refine .inr ⟨r, rfl, .inl ?_⟩
        have hrest := hsame.rest
        exact ⟨by rw [hrest]; exact id, by rw [hrest], by rw [hrest], by rw [hrest],
          fun _ x hx => hsame.children.subset hx, fun _ x hx => hsame.fibers.subset hx⟩

/-- **Only its own worker moves the disposal of a Scope.** -/
theorem step_frames {l : RuntimeLabel} (ht : Topology rt) (h : rt.step l = some rt') :
    Frames rt rt' fun s => ∃ a, l = .scope s a := by
  cases l <;> simp only [step] at h
  case fiber f a => exact frames_fiberStep h
  case scope s a =>
    split at h <;> try contradiction
    obtain ⟨pc, -, h⟩ := Option.bind_eq_some_iff.mp h
    have hframes := frames_stepScope h
    refine ⟨hframes.next, hframes.kept, fun s' r' hr' hne => hframes.scopes s' r' hr' ?_⟩
    rintro rfl
    exact hne ⟨a, rfl⟩
  case disposeScope s p =>
    cases h
    exact frames_requestScopeDisposal rt s p _
  case createScope => exact frames_createScope ht h
  case install => exact frames_insertFiber h
  case provide =>
    unfold provide at h
    split at h <;> try contradiction
    split_ifs at h
    obtain ⟨rt₁, h₁, rfl⟩ := Option.map_eq_some_iff.mp h
    obtain ⟨c, -, -, -, rfl⟩ := registerEntry_spec h₁
    exact .of_eq rfl rfl
  case handle =>
    obtain ⟨c₀, rt₁, -, -, h₁, rfl⟩ := handle_spec h
    obtain ⟨c, -, -, -, rfl⟩ := registerEntry_spec h₁
    exact .of_eq rfl rfl
  case intercept =>
    unfold intercept at h
    split at h <;> try contradiction
    obtain ⟨rt₁, h₁, rfl⟩ := Option.map_eq_some_iff.mp h
    obtain ⟨c, -, -, -, rfl⟩ := registerEntry_spec h₁
    exact .of_eq rfl rfl
  case ownScope f scope =>
    unfold ownScope at h
    obtain ⟨rt₁, h₁, h⟩ := Option.bind_eq_some_iff.mp h
    obtain ⟨c, -, -, -, rfl⟩ := registerEntry_spec h
    have hframes : Frames rt rt₁ fun s => ∃ a, RuntimeLabel.ownScope f scope = .scope s a :=
      frames_createScope ht h₁
    exact ⟨hframes.next, hframes.kept, hframes.scopes⟩
  case commitReload =>
    rcases commitReload_cases ht h with hsame | ⟨oldCell, c, hcut, rfl⟩
    · exact hsame.frames
    · exact .of_map (fun s => rfl) rfl fun s r hr _ => .inl (frame_relocated hcut.scopes hr)
  case sweepFiber f =>
    unfold sweepFiber at h
    split_ifs at h
    cases h
    refine .of_map (fun s => rfl) rfl fun s r hr _ => .inl ?_
    split_ifs
    · exact ⟨id, rfl, rfl, rfl, fun _ _ h => h, fun _ _ h => (List.mem_filter.mp h).1⟩
    · exact .refl r
  case sweepScope s =>
    unfold sweepScope at h
    split at h <;> try contradiction
    rename_i r hr
    split_ifs at h
    cases h
    have hscope := (scope_eq_some.mp hr).1
    refine .of_map (g := fun s' q => if s' = s then { r with inArena := false } else q)
      (fun s' => ?_) rfl fun s' q hq _ => .inl ?_
    · by_cases hs : s' = s
      · subst hs
        simp [setScope, hscope]
      · simp [setScope, hs]
    · by_cases hs : s' = s
      · subst hs
        obtain rfl : r = q := by simpa [hscope] using hq
        rw [if_pos rfl]
        exact ⟨by simp, rfl, rfl, rfl, fun _ _ h => h, fun _ _ h => h⟩
      · rw [if_neg hs]
        exact .refl q
  case beginShutdown =>
    cases h
    exact .of_eq rfl rfl

end Runtime

end Cordis
