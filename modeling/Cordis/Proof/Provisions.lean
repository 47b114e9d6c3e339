import Cordis.Proof.Tenancy

/-!
# Provided services stay where they are

A Fiber that has not retired owns the entries of its ledger, under its Scope, with its gate. `provide_arc` looks for
an entry in one section and inserts in another, and a withdrawal looks whose entry it is in one section and removes
it in another. So this takes insertions that replace neither an entry of another such Fiber nor an entry that is
about to be removed.
-/

namespace Cordis

open Machine

/-- The disposal worker is about to remove the entry for `key` in `scope`. -/
def FiberCell.removes (c : FiberCell) (scope : ScopeId) (key : ServiceSymbol) : Bool :=
  c.inner.scope == scope &&
    match c.worker with
    | some (.removing _ taken) => taken == key
    | _ => false

variable {c c' : FiberCell} {f : FiberId}

theorem removes_of_worker {removed : List ServiceSymbol} {key : ServiceSymbol}
    (hw : c.worker = some (.removing removed key)) : c.removes c.inner.scope key = true := by
  simp [FiberCell.removes, hw]

theorem guarded_of_steady (h : c.Steady) : c.Guarded := ⟨h.sound.consistent, h.closed⟩

namespace Runtime

variable {rt rt' : Runtime} {l : RuntimeLabel}

/-! ## Who owns the entries -/

/-- What the disposal worker of Fiber `f` is about to remove is still the entry that it has looked up. -/
def Aims (rt : Runtime) (f : FiberId) (c : FiberCell) : Prop :=
  ∀ removed key, c.worker = some (.removing removed key) →
    ∃ e, rt.services c.inner.scope key = some e ∧ e.owner = f

/-- The entries of the ledger of Fiber `f` are its own. -/
def Owns (rt : Runtime) (f : FiberId) (c : FiberCell) : Prop :=
  ∀ k ∈ c.inner.provided, ∃ e, rt.services c.inner.scope k = some e ∧ e.owner = f ∧ e.gate = gateOf c

theorem acts_provide {key : ServiceSymbol} (h : Acts rt f c l (.register (.provided key))) :
    ∃ scope, l = .provide f scope key := by
  cases h with
  | @own b _ answer =>
    have hkind := answered_kind answer
    cases b with
    | register entry =>
      cases entry <;> simp only [answered] at answer <;> first | contradiction | (split_ifs at answer; cases answer)
    | _ => contradiction
  | provided => exact ⟨_, rfl⟩

/-- What the ledger of a live Fiber `c'` was, when no service is provided. -/
inductive Carried (rt : Runtime) (l : RuntimeLabel) (f : FiberId) (c' : FiberCell) : Prop
  | kept (c : FiberCell) (was : rt.fibers f = some c) (live : c.retired = false)
      (gate : gateOf c' = gateOf c) (ledger : ∀ k ∈ c'.inner.provided, k ∈ c.inner.provided)
      (scope : c'.inner.scope = c.inner.scope ∨ ∃ old staging target, l = .commitReload old f staging target)
  | empty (ledger : c'.inner.provided = [])

theorem step_carried (ht : Topology rt) (hl : ∀ g s k, l ≠ .provide g s k) (h : rt.step l = some rt')
    (hcleared : ∀ c, rt.fibers f = some c → c.inner.disposal.phase = .Complete → c.inner.provided = [])
    (hc' : rt'.fibers f = some c') (hlive : c'.retired = false) : Carried rt l f c' := by
  cases hc : rt.fibers f with
  | none =>
    obtain ⟨-, -, p?, p, s, d, g, b, -, rfl⟩ := (step_follows ht h).fresh f c' hc' hc
    exact .empty rfl
  | some c =>
    obtain ⟨d, hd, hmove⟩ := (step_follows ht h).cells f c hc
    obtain rfl := Option.some.inj (hd.symm.trans hc')
    rcases hmove with rfl | ⟨a, ha, hacts⟩
    · exact .kept d hc hlive rfl (fun _ hk => hk) (.inl rfl)
    have hledger := provided_of_step ha fun key heq => by
      subst heq
      obtain ⟨scope, rfl⟩ := acts_provide hacts
      exact hl f scope key rfl
    have hscope : d.inner.scope = c.inner.scope ∨ ∃ old staging target, l = .commitReload old f staging target := by
      by_cases hcut : ∃ t g, a = .cutover t g
      · obtain ⟨t, g, rfl⟩ := hcut
        obtain ⟨old, staging, hlabel⟩ := acts_cutover hacts
        exact .inr ⟨old, staging, t, hlabel⟩
      · exact .inl (step_scope ha fun t g heq => hcut ⟨t, g, heq⟩)
    cases step_gated ha with
    | kept hgeneration hretired =>
      exact .kept c hc (hretired.symm.trans hlive) (gateOf_eq (step_same ha).plugin hgeneration) hledger hscope
    | closed _ _ _ _ _ hretired | superseded _ _ hretired =>
      rw [hlive] at hretired
      contradiction
    | renewed _ _ _ _ hcomplete =>
      refine .empty (List.eq_nil_iff_forall_not_mem.mpr fun k hk => ?_)
      have hmem := hledger k hk
      rw [hcleared c hc hcomplete] at hmem
      cases hmem

/-- Fiber `f` takes part in the cutover. -/
def CutWith (rt : Runtime) (l : RuntimeLabel) (f : FiberId) : Prop :=
  ∃ old staged staging target oldCell c, l = .commitReload old staged staging target ∧
    CutFrom rt old staged staging target oldCell c ∧ (f = old ∨ f = staged)

/-- **The entry of a live Fiber stays, unless the Fiber takes part in a cutover.** -/
theorem entry_stays (hsteady : c.Steady) (haims : ∀ g d, rt.fibers g = some d → rt.Aims g d)
    (hstocks : Stocks rt l rt') (hc : rt.fibers f = some c) (hlive : c.retired = false) {s : ScopeId}
        {k : ServiceSymbol} {e : ServiceEntry}
    (he : rt.services s k = some e) (howner : e.owner = f) :
    rt'.services s k = some e ∨ CutWith rt l f := by
  cases hstocks with
  | kept services => exact .inl (services ▸ he)
  | withdrawn g d d' _ was _ removed key worker _ services =>
    refine .inl ?_
    rw [services, if_neg ?_]
    · exact he
    rintro ⟨rfl, rfl⟩
    obtain ⟨e', he', howner'⟩ := haims g d was removed k worker
    obtain rfl := Option.some.inj (he.symm.trans he')
    obtain rfl := howner.symm.trans howner'
    obtain rfl := Option.some.inj (hc.symm.trans was)
    rw [(guarded_of_steady hsteady).worker hlive] at worker
    contradiction
  | cut old staged staging target oldCell d label found replaced now =>
    by_cases hpart : f = old ∨ f = staged
    · exact .inr ⟨old, staged, staging, target, oldCell, d, label, found, hpart⟩
    refine .inl ?_
    subst now
    change movedServices rt.services staging target d.inner.provided s k = some e
    unfold movedServices
    split_ifs with htarget hsource
    · obtain ⟨hk, rfl⟩ := htarget
      exact absurd (.inl (howner.symm.trans (replaced.services k hk e he))) hpart
    · obtain ⟨hk, rfl⟩ := hsource
      obtain ⟨e', he', howner'⟩ := found.services k hk
      obtain rfl := Option.some.inj (he.symm.trans he')
      exact absurd (.inr (howner.symm.trans howner')) hpart
    · exact he

/-- **A live Fiber goes on owning its entries.** -/
theorem owns_step (ht : Topology rt) (hsteady : ∀ f c, rt.fibers f = some c → c.Steady)
    (haims : ∀ g d, rt.fibers g = some d → rt.Aims g d)
    (hcleared : ∀ c, rt.fibers f = some c → c.inner.disposal.phase = .Complete → c.inner.provided = [])
    (howned : ∀ c, rt.fibers f = some c → c.retired = false → rt.Owns f c)
    (hl : ∀ g s k, l ≠ .provide g s k) (h : rt.step l = some rt') (hstocks : Stocks rt l rt')
    (hc' : rt'.fibers f = some c') (hlive : c'.retired = false) : rt'.Owns f c' := by
  cases step_carried ht hl h hcleared hc' hlive with
  | empty hledger =>
    intro k hk
    rw [hledger] at hk
    cases hk
  | kept c hc hwas hgate hledger hscope =>
    have hkept : c'.inner.scope = c.inner.scope →
        (∀ k e, rt.services c.inner.scope k = some e → e.owner = f → rt'.services c.inner.scope k = some e) →
          rt'.Owns f c' := by
      intro hsame hstays k hk
      obtain ⟨e, he, howner, hentry⟩ := howned c hc hwas k (hledger k hk)
      rw [hsame, hgate]
      exact ⟨e, hstays k e he howner, howner, hentry⟩
    have huncut : (∀ old staged staging target, l ≠ .commitReload old staged staging target) →
        rt'.Owns f c' := by
      intro hlabel
      refine hkept (hscope.resolve_right fun ⟨_, _, _, heq⟩ => hlabel _ _ _ _ heq) fun k e he howner => ?_
      refine (entry_stays (hsteady f c hc) haims hstocks hc hwas he howner).resolve_right ?_
      rintro ⟨old, staged, staging, target, -, -, heq, -⟩
      exact hlabel old staged staging target heq
    cases hstocks with
    | kept services uncut =>
      refine hkept (hscope.elim id ?_) fun k e he _ => services ▸ he
      rintro ⟨old, staging, target, heq⟩
      rw [uncut old f staging target heq, hc] at hc'
      cases hc'
      rfl
    | withdrawn g d d' label =>
      subst label
      exact huncut nofun
    | cut old staged staging target oldCell d label found replaced now =>
      by_cases hpart : f = old ∨ f = staged
      · rcases hpart with rfl | rfl
        · rw [now] at hc'
          cases (Function.update_self ..).symm.trans hc'
          cases hlive
        · obtain rfl := Option.some.inj (hc.symm.trans found.stagedFiber)
          have hcell : c' = { c with inner := c.inner.cutover target } := by
            rw [now] at hc'
            simp only [setFiber, cutOver, Function.update_of_ne found.ne, Function.update_self,
              Option.some.injEq] at hc'
            exact hc'.symm
          subst hcell
          intro k hk
          obtain ⟨e, he, howner, hentry⟩ := howned c hc hwas k hk
          rw [← found.scope] at he
          refine ⟨{ e with scope := target }, ?_, howner, hentry⟩
          subst now
          change movedServices rt.services staging target c.inner.provided target k = _
          rw [movedServices, if_pos ⟨hk, rfl⟩, he]
          rfl
      · obtain ⟨hold, hstaged⟩ := not_or.mp hpart
        have hcell : c' = c := by
          rw [now] at hc'
          simp only [setFiber, cutOver, Function.update_of_ne hold, Function.update_of_ne hstaged] at hc'
          exact Option.some.inj (hc'.symm.trans hc)
        refine hkept (by rw [hcell]) fun k e he howner => ?_
        refine (entry_stays (hsteady f c hc) haims (.cut old staged staging target oldCell d label found replaced
          now) hc hwas he howner).resolve_right ?_
        rintro ⟨old', staged', staging', target', -, -, heq, -, hwith⟩
        rw [label] at heq
        cases heq
        exact hpart hwith

/-! ## What a withdrawal is about to remove -/

theorem aims_found (ht : Topology rt) (hsteady : ∀ c, rt.fibers f = some c → c.Steady) (h : rt.step l = some rt')
    (hc' : rt'.fibers f = some c') {removed : List ServiceSymbol} {key : ServiceSymbol}
    (hw : c'.worker = some (.removing removed key)) :
    ∃ c, rt.fibers f = some c ∧ c'.inner.scope = c.inner.scope ∧ (c.worker = some (.removing removed key) ∨
      (∃ owned, l = .fiber f (.withdrawLook owned)) ∧
        (rt.services c.inner.scope key).any (·.owner == f) = true) := by
  cases hc : rt.fibers f with
  | none =>
    obtain ⟨-, -, p?, p, s, d, g, b, -, rfl⟩ := (step_follows ht h).fresh f c' hc' hc
    cases hw
  | some c =>
    obtain ⟨d, hd, hmove⟩ := (step_follows ht h).cells f c hc
    obtain rfl := Option.some.inj (hd.symm.trans hc')
    rcases hmove with rfl | ⟨a, ha, hacts⟩
    · exact ⟨d, rfl, rfl, .inl hw⟩
    have hwas := removing_step ha hw
    have hscope : d.inner.scope = c.inner.scope := by
      refine step_scope ha fun t g heq => ?_
      subst heq
      rw [((guarded_of_steady (hsteady c hc)).step ha).worker (cutover_live ha)] at hw
      cases hw
    refine ⟨c, rfl, hscope, hwas.imp_right fun ⟨hlabel, hworker⟩ => ?_⟩
    subst hlabel
    cases hacts with
    | @own b _ hanswer =>
      have hkind := answered_kind hanswer
      have hlook : ∃ owned, b = .withdrawLook owned := by
        cases b <;> first | exact ⟨_, rfl⟩ | contradiction
      obtain ⟨owned, rfl⟩ := hlook
      obtain ⟨removed', key', hworker', hfound⟩ := answered_withdrawLook hanswer
      rw [hworker] at hworker'
      cases hworker'
      exact ⟨⟨owned, rfl⟩, hfound.symm⟩

/-- **What a withdrawal is about to remove stays where it is**, but for the removal itself. -/
theorem aims_step (ht : Topology rt) (hsteady : ∀ f c, rt.fibers f = some c → c.Steady)
    (haims : ∀ g d, rt.fibers g = some d → rt.Aims g d) (h : rt.step l = some rt') (hstocks : Stocks rt l rt')
    (hc' : rt'.fibers f = some c') : rt'.Aims f c' := by
  intro removed key hw
  obtain ⟨c, hc, hscope, hwas⟩ := aims_found ht (hsteady f) h hc' hw
  obtain ⟨e, he, howner⟩ : ∃ e, rt.services c.inner.scope key = some e ∧ e.owner = f := by
    rcases hwas with hworker | ⟨-, hfound⟩
    · exact haims f c hc removed key hworker
    · obtain ⟨e, he, howner⟩ := (Option.any_eq_true _ _).mp hfound
      exact ⟨e, he, beq_iff_eq.mp howner⟩
  refine ⟨e, ?_, howner⟩
  rw [hscope]
  cases hstocks with
  | kept services => exact services ▸ he
  | withdrawn g d d' label was now removed' key' worker after services =>
    rw [services, if_neg ?_]
    · exact he
    rintro ⟨hsame, rfl⟩
    obtain ⟨e', he', howner'⟩ := haims g d was removed' key worker
    rw [← hsame] at he'
    obtain rfl := Option.some.inj (he.symm.trans he')
    obtain rfl := howner.symm.trans howner'
    -- its own removal leaves the worker with nothing in its hands
    rw [now, Function.update_self] at hc'
    cases hc'
    rw [after] at hw
    cases hw
  | cut old staged staging target oldCell d label found replaced now =>
    have hworker : c.worker = some (.removing removed key) := by
      refine hwas.resolve_right ?_
      rintro ⟨⟨owned, heq⟩, -⟩
      rw [label] at heq
      cases heq
    subst now
    change movedServices rt.services staging target d.inner.provided c.inner.scope key = some e
    unfold movedServices
    split_ifs with htarget hsource
    · -- the old Fiber's mutex is with the reload, not with a worker
      obtain ⟨hk, hscope'⟩ := htarget
      obtain rfl := howner.symm.trans (replaced.services key hk e (hscope' ▸ he))
      obtain rfl := Option.some.inj (hc.symm.trans found.oldFiber)
      have hmutex := (hsteady _ c hc).locked.removing hworker
      rw [found.lifecycle] at hmutex
      cases hmutex
    · obtain ⟨hk, hscope'⟩ := hsource
      obtain ⟨e', he', howner'⟩ := found.services key hk
      rw [hscope'] at he
      obtain rfl := Option.some.inj (he.symm.trans he')
      obtain rfl := howner.symm.trans howner'
      obtain rfl := Option.some.inj (hc.symm.trans found.stagedFiber)
      rw [(guarded_of_steady (hsteady _ c hc)).worker (live_of_staged found.gate)] at hworker
      cases hworker
    · exact he

end Runtime

namespace Contexts

variable {w w' : Contexts} {l : ContextLabel}

/-- The insertion replaces at most an entry of the Fiber itself, or one that a retired Fiber is not about to
remove. -/
def spares (w : Contexts) : ContextLabel → Bool
  | .insert i =>
    match w.calls i with
    | some ⟨f, _, scope, .free key⟩ => (w.runtime.services scope key).all fun e =>
      e.owner == f || (w.runtime.fibers e.owner).all fun c => c.retired && !c.removes scope key
    | _ => true
  | _ => true

theorem spares_insert {i : Nat} {gate : Gate} {scope : ScopeId} {key : ServiceSymbol}
    (h : w.spares (.insert i) = true) (hcall : w.calls i = some ⟨f, gate, scope, .free key⟩)
    {e : ServiceEntry} (he : w.runtime.services scope key = some e) :
    e.owner = f ∨ ∀ c, w.runtime.fibers e.owner = some c → c.retired = true ∧ c.removes scope key = false := by
  simp only [spares, hcall, he, Option.all_some, Bool.or_eq_true, beq_iff_eq] at h
  refine h.imp_right fun hall c hc => ?_
  rw [hc] at hall
  simpa using hall

/-- As long as its gate is that of its Fiber, a call is for the Scope of its Fiber, unless the Fiber is past
its activation. -/
structure Placed (w : Contexts) (call : ContextCall) (c : FiberCell) : Prop where
  fiber : w.runtime.fibers call.fiber = some c
  issued : call.gate.generation < w.runtime.nextGeneration call.gate.plugin
  scope : Runtime.gateOf c = call.gate → call.scope = c.inner.scope ∨ c.Past

/-! ### Calls -/

theorem step_nextCall (h : w.step l = some w') (hnext : w'.nextCall = w.nextCall + 1) :
    ∃ f, l = .capture f := by
  have hsame : w'.nextCall ≠ w.nextCall := by omega
  have hregister : ∀ {i : Nat} {a : FiberId → ScopeId → RuntimeLabel} {v : Contexts} {call : ContextCall},
      w.register i a = some (v, call) → v.nextCall = w.nextCall :=
    fun h₁ => by rw [(register_spec h₁).2.2.2]
  cases l <;> simp only [step] at h
  case capture f => exact ⟨f, rfl⟩
  case runtime a =>
    split_ifs at h
    obtain ⟨rt, -, rfl⟩ := Option.map_eq_some_iff.mp h
    exact absurd rfl hsame
  case lease i =>
    obtain ⟨call, -, h⟩ := Option.bind_eq_some_iff.mp h
    split at h <;> try contradiction
    split_ifs at h
    · split at h
      · rename_i heq
        cases h
        exact absurd (by rw [(fiberSection_spec heq).2]; rfl) hsame
      · cases h
        exact absurd rfl hsame
    · cases h
      exact absurd rfl hsame
  case check i key =>
    obtain ⟨call, -, h⟩ := Option.bind_eq_some_iff.mp h
    split_ifs at h
    cases h
    exact absurd rfl hsame
  case insert i =>
    split at h <;> try contradiction
    obtain ⟨rt, -, rfl⟩ := Option.map_eq_some_iff.mp h
    exact absurd rfl hsame
  case finish i =>
    split at h <;> try contradiction
    split_ifs at h
    · cases h
      exact absurd rfl hsame
    · obtain ⟨w₁, h₁, rfl⟩ := Option.map_eq_some_iff.mp h
      exact absurd (by rw [(fiberSection_spec h₁).2]; rfl) hsame
  case taskEnded id =>
    split_ifs at h
    cases h
    exact absurd rfl hsame
  all_goals
    obtain ⟨⟨w₁, call⟩, h₁, rfl⟩ := Option.map_eq_some_iff.mp h
    exact absurd (hregister h₁) hsame

theorem step_captures {call : ContextCall} (h : w.step (.capture f) = some w')
    (hcall : w'.calls w.nextCall = some call) :
    ∃ c, w.runtime.fibers call.fiber = some c ∧ call.gate = Runtime.gateOf c ∧
      call.scope = c.inner.scope ∧ w'.runtime = w.runtime := by
  simp only [step] at h
  split at h <;> try contradiction
  rename_i c hc
  split_ifs at h
  cases h
  rcases setCall_calls hcall with ⟨-, heq⟩ | ⟨hne, -⟩
  · cases heq
    exact ⟨c, hc, rfl, rfl, rfl⟩
  · exact absurd rfl hne

theorem placed_cell (hw : Settled w) (h : w.step l = some w') {call : ContextCall}
    (hplaced : Placed w call c) : ∃ c', Placed w' call c' := by
  have ht := hw.standing.topology
  obtain ⟨c', hc', hcase⟩ := step_leads ht h hplaced.fiber
  have hissued := hplaced.issued.trans_le (step_generations ht h call.gate.plugin)
  refine ⟨c', hc', hissued, fun hgate => ?_⟩
  have hsteady := hw.steady _ c hplaced.fiber
  rcases gate_cases hcase with hsame | ⟨-, hfresh, -⟩
  · rcases hcase with rfl | ⟨b, hb, hleads⟩
    · exact hplaced.scope hgate
    by_cases hcut : ∃ t a, b = .cutover t a
    · obtain ⟨t, a, rfl⟩ := hcut
      refine .inr (.inr (.inl ?_))
      simp only [FiberCell.step] at hb
      split_ifs at hb with hactive
      cases hb
      exact hactive.1
    rcases hplaced.scope (hsame.symm.trans hgate) with hscope | hpast
    · rw [step_scope hb fun t a heq => hcut ⟨t, a, heq⟩]
      exact .inl hscope
    · rcases past_step hsteady.sound hsteady.closed hpast hb with hpast | ⟨n, g, rfl, hgeneration⟩
      · exact .inr hpast
      · have hbelow := (hw.standing.numbered.fibers _ c hplaced.fiber).2
        rw [← Runtime.generation_of_gateOf hsame, hgeneration, (leads_begin hleads).2] at hbelow
        exact absurd hbelow (Nat.lt_irrefl _)
  · have hbelow := hplaced.issued
    rw [← hgate] at hbelow
    exact absurd (hfresh ▸ hbelow) (Nat.lt_irrefl _)

theorem placed_step (hw : Settled w) (hplaced : ∀ i call, w.calls i = some call → ∃ c, Placed w call c)
    (h : w.step l = some w') {i : Nat} {call' : ContextCall} (hcall' : w'.calls i = some call') :
    ∃ c, Placed w' call' c := by
  have hkept : ∀ call, w.calls i = some call → call'.fiber = call.fiber → call'.gate = call.gate →
      call'.scope = call.scope → ∃ c, Placed w' call' c := by
    intro call hcall hfiber hgate hscope
    obtain ⟨c, hc⟩ := hplaced i call hcall
    obtain ⟨c', hc'⟩ := placed_cell hw h hc
    refine ⟨c', hfiber ▸ hc'.fiber, hgate ▸ hc'.issued, ?_⟩
    rw [hgate, hscope]
    exact hc'.scope
  cases step_calls h hcall' with
  | kept call was fiber gate scope => exact hkept call was fiber gate scope
  | leased call _ was _ now =>
    subst now
    exact hkept call was rfl rfl rfl
  | captured new _ next =>
    obtain ⟨f, rfl⟩ := step_nextCall h next
    obtain ⟨c, record, gate, scope, idle⟩ := step_captures h (new ▸ hcall')
    have hbelow := (hw.standing.numbered.fibers _ c record).2
    refine ⟨c, idle ▸ record, ?_, fun _ => .inl scope⟩
    rw [idle, gate]
    exact hbelow

/-! ### Insertions -/

/-- What holds of the services of live Fibers, and what it rests on. -/
structure Kept (w : Contexts) : Prop where
  settled : Settled w
  placed : ∀ i call, w.calls i = some call → ∃ c, Placed w call c
  aims : ∀ f c, w.runtime.fibers f = some c → w.runtime.Aims f c
  owned : ∀ f c, w.runtime.fibers f = some c → c.retired = false → w.runtime.Owns f c

theorem kept_new : Kept .new where
  settled := settled_new
  placed := fun i call h => by cases h
  aims := fun f c h => by cases h
  owned := fun f c h => by cases h

theorem step_entry (hw : Kept w) (hspares : w.spares l = true) (h : w.step l = some w')
    (hc : w.runtime.fibers f = some c) (hlive : c.retired = false)
    (hown : ∀ i call, l = .insert i → w.calls i = some call → call.fiber ≠ f) {s : ScopeId} {k : ServiceSymbol}
    {e : ServiceEntry} (he : w.runtime.services s k = some e) (howner : e.owner = f) :
    w'.runtime.services s k = some e ∨ ∃ a, Drives w l a ∧ Runtime.CutWith w.runtime a f := by
  cases step_stocks hw.settled.standing.topology h with
  | idle same => exact .inl (same ▸ he)
  | runs a step drives stocks =>
    exact (Runtime.entry_stays (hw.settled.steady f c hc) hw.aims stocks hc hlive he howner).imp_right
      fun hcut => ⟨a, drives, hcut⟩
  | inserted i g gate scope key d label call was bound accepts now =>
    subst label
    refine .inl ?_
    rw [now]
    simp only [Runtime.insertService, Runtime.setFiber]
    rw [if_neg ?_]
    · exact he
    rintro ⟨rfl, rfl⟩
    rcases spares_insert hspares call he with hg | hretired
    · exact hown i _ rfl call (hg.symm.trans howner)
    · rw [(hretired c (howner ▸ hc)).1] at hlive
      cases hlive

/-- What a call inserts elsewhere than in the Scope of its Fiber has been provided there already. -/
theorem inserted_home (hw : Kept w) {i : Nat} {gate : Gate} {scope : ScopeId} {key : ServiceSymbol}
    (hcall : w.calls i = some ⟨f, gate, scope, .free key⟩) (hc : w.runtime.fibers f = some c)
    (hlive : c.retired = false) (haccepts : c.accepts (.provided key) = true) :
    scope = c.inner.scope ∨ key ∈ c.inner.provided := by
  obtain ⟨d, hd, hgate⟩ := hw.settled.standing.current i _ hcall nofun
  obtain rfl := Option.some.inj (hc.symm.trans hd)
  obtain ⟨d, hplaced⟩ := hw.placed i _ hcall
  obtain rfl := Option.some.inj (hc.symm.trans hplaced.fiber)
  refine (hplaced.scope hgate).imp_right fun hpast => ?_
  simp only [FiberCell.accepts, Bool.and_eq_true, decide_eq_true_eq] at haccepts
  obtain ⟨hmutable, hdeclared⟩ := haccepts
  have hstate : c.inner.state = .Active ∨ c.inner.state = .Reloading := by
    rcases hpast with hretired | hstate | hstate | hfailed
    · rw [hretired] at hlive
      cases hlive
    · exact .inl hstate
    · exact .inr hstate
    · unfold FiberMutable.ensureMutable at hmutable
      simp only [hfailed] at hmutable
      split_ifs at hmutable <;> simp_all [Except.isOk, Except.toBool]
  exact (hw.settled.steady f c hc).declared.active hstate hlive key hdeclared

/-- **A live Fiber goes on owning its entries.** -/
theorem owned_step (hw : Kept w) (hspares : w.spares l = true) (h : w.step l = some w')
    (hc' : w'.runtime.fibers f = some c') (hlive : c'.retired = false) : w'.runtime.Owns f c' := by
  have ht := hw.settled.standing.topology
  cases step_stocks ht h with
  | idle same =>
    rw [same] at hc' ⊢
    exact hw.owned f c' hc' hlive
  | runs a step drives stocks =>
    refine Runtime.owns_step ht hw.settled.steady hw.aims (fun c hc hcomplete => ?_)
        (fun c hc => hw.owned f c hc) ?_ step
      stocks hc' hlive
    · exact hw.settled.standing.complete hc hcomplete (n := 6) (by omega) (by omega)
    · rintro g s k rfl
      cases drives with
      | own _ ready => cases ready
      | registered _ _ _ _ _ _ _ _ other => exact other g s k rfl
  | inserted i g gate scope key c label call was bound accepts now =>
    subst label
    by_cases hg : f = g
    · subst hg
      have hcell : c' = { c with inner := FiberCell.registered (.provided key) c.inner } := by
        rw [now] at hc'
        simpa [Runtime.insertService, Runtime.setFiber] using hc'.symm
      subst hcell
      have hhome := inserted_home hw call was hlive accepts
      intro k hk
      rw [now]
      by_cases hslot : c.inner.scope = scope ∧ k = key
      · refine ⟨⟨f, scope, Runtime.gateOf c⟩, ?_, rfl, rfl⟩
        exact if_pos hslot
      · have hmem : k ∈ c.inner.provided := by
          rcases List.mem_append.mp hk with hmem | hnew
          · exact hmem
          · obtain rfl := List.mem_singleton.mp hnew
            exact hhome.resolve_left fun heq => hslot ⟨heq.symm, rfl⟩
        obtain ⟨e, he, howner, hentry⟩ := hw.owned f c was hlive k hmem
        refine ⟨e, ?_, howner, hentry⟩
        exact (if_neg hslot).trans he
    · have hc : w.runtime.fibers f = some c' := by
        rw [now] at hc'
        simpa [Runtime.insertService, Runtime.setFiber, Function.update_of_ne hg] using hc'
      intro k hk
      obtain ⟨e, he, howner, hentry⟩ := hw.owned f c' hc hlive k hk
      refine ⟨e, ?_, howner, hentry⟩
      refine (step_entry hw hspares h hc hlive ?_ he howner).resolve_right ?_
      · intro j call' hj hcall' hfiber
        cases hj
        rw [call] at hcall'
        cases hcall'
        exact hg hfiber.symm
      · rintro ⟨a, drives, old, staged, staging, target, -, -, rfl, -⟩
        cases drives with
        | registered _ _ _ _ _ _ registrant => cases registrant

/-- **A withdrawal removes the entry that it has looked up.** -/
theorem aims_step (hw : Kept w) (hspares : w.spares l = true) (h : w.step l = some w')
    (hc' : w'.runtime.fibers f = some c') : w'.runtime.Aims f c' := by
  have ht := hw.settled.standing.topology
  cases step_stocks ht h with
  | idle same =>
    rw [same] at hc' ⊢
    exact hw.aims f c' hc'
  | runs a step _ stocks => exact Runtime.aims_step ht hw.settled.steady hw.aims step stocks hc'
  | inserted i g gate scope key c label call was _ _ now =>
    subst label
    intro removed taken hworker
    have hwas : ∃ d, w.runtime.fibers f = some d ∧ d.inner.scope = c'.inner.scope ∧ d.worker = c'.worker := by
      rw [now] at hc'
      by_cases hg : f = g
      · subst hg
        obtain rfl : { c with inner := FiberCell.registered (.provided key) c.inner } = c' := by
          simpa [Runtime.insertService, Runtime.setFiber] using hc'
        exact ⟨c, was, rfl, rfl⟩
      · exact ⟨c', by simpa [Runtime.insertService, Runtime.setFiber, Function.update_of_ne hg] using hc', rfl, rfl⟩
    obtain ⟨d, hd, hscope, hsame⟩ := hwas
    have hremoves := hsame.trans hworker
    obtain ⟨e, he, howner⟩ := hw.aims f d hd removed taken hremoves
    rw [now, ← hscope]
    by_cases hslot : d.inner.scope = scope ∧ taken = key
    · obtain ⟨rfl, rfl⟩ := hslot
      refine ⟨⟨g, d.inner.scope, Runtime.gateOf c⟩, if_pos ⟨rfl, rfl⟩, ?_⟩
      rcases spares_insert hspares call he with hg | hspared
      · exact hg.symm.trans howner
      · have hnot := (hspared d (howner ▸ hd)).2
        rw [removes_of_worker hremoves] at hnot
        cases hnot
    · exact ⟨e, (if_neg hslot).trans he, howner⟩

theorem kept_step (hw : Kept w) (hspares : w.spares l = true) (h : w.step l = some w') : Kept w' where
  settled := settled_step hw.settled h
  placed := fun _ _ hcall' => placed_step hw.settled hw.placed h hcall'
  aims := fun _ _ hc' => aims_step hw hspares h hc'
  owned := fun _ _ hc' hlive => owned_step hw hspares h hc' hlive

/-! ## Whole runs -/

/-- The section replaces neither an entry of another live Fiber nor one that is about to be removed. -/
def Sparing (w : Contexts) (l : ContextLabel) : Prop := w.spares l = true

instance : DecidableRel Sparing := fun w l => inferInstanceAs (Decidable (w.spares l = true))

theorem kept_reach (h : Reach step Sparing .new w) : Kept w :=
  h.invariant kept_new fun _ _ _ hw hok hs => kept_step hw hok hs

theorem Kept.entry (hw : Kept w) (hc : w.runtime.fibers f = some c) (hactive : c.inner.state = .Active)
    (hcommitted : c.inner.staged = false) {k : ServiceSymbol} (hk : k ∈ c.inner.provided) :
    ∃ e, w.runtime.services c.inner.scope k = some e ∧ e.owner = f ∧ w.runtime.visible e.gate = true := by
  have hlive := (hw.settled.steady f c hc).live.active hactive hcommitted
  obtain ⟨e, he, howner, hgate⟩ := hw.owned f c hc hlive k hk
  refine ⟨e, he, howner, ?_⟩
  rw [hgate]
  exact beq_iff_eq.mpr (hw.settled.named f c hc ⟨.inl hactive, hcommitted, hlive⟩)

/-- **Provided services are neither lost nor stolen**: as long as no insertion replaces the entry of another live
Fiber or one that a withdrawal is about to remove, a committed `Active` Fiber has a visible entry of its own in its
Scope for every service of its ledger, and no section but an insertion of the Fiber itself touches it. -/
theorem provided_kept (h : Reach step Sparing .new w) (hc : w.runtime.fibers f = some c)
    (hactive : c.inner.state = .Active) (hcommitted : c.inner.staged = false) :
    ∀ k ∈ c.inner.provided, ∃ e, w.runtime.services c.inner.scope k = some e ∧ e.owner = f ∧
      w.runtime.visible e.gate = true ∧
      ∀ l w', Sparing w l → w.step l = some w' →
        (∀ i call, l = .insert i → w.calls i = some call → call.fiber ≠ f) →
          w'.runtime.services c.inner.scope k = some e := by
  have hw := kept_reach h
  have hlive := (hw.settled.steady f c hc).live
  intro k hk
  obtain ⟨e, he, howner, hshown⟩ := hw.entry hc hactive hcommitted hk
  refine ⟨e, he, howner, hshown, fun l w' hspares hstep hown => ?_⟩
  refine (step_entry hw hspares hstep hc (hlive.active hactive hcommitted) hown he howner).resolve_right ?_
  rintro ⟨a, -, old, staged, staging, target, oldCell, d, -, hcut, rfl | rfl⟩
  · obtain rfl := Option.some.inj (hc.symm.trans hcut.oldFiber)
    exact (hlive.reloading hcut.lifecycle).1 hactive
  · obtain rfl := Option.some.inj (hc.symm.trans hcut.stagedFiber)
    rw [hcut.flag] at hcommitted
    cases hcommitted

/-- **What a committed Fiber declares resolves below its Scope**, in runs with no such insertion: a dependent that
needs nothing else is satisfied. -/
theorem declared_resolves (h : Reach step Sparing .new w) (hc : w.runtime.fibers f = some c)
    (hactive : c.inner.state = .Active) (hcommitted : c.inner.staged = false) {s : ScopeId}
    (hs : c.inner.scope ∈ w.runtime.scopeAncestry s) :
    w.runtime.dependenciesMet s c.inner.descriptor.provisions = true := by
  have hw := kept_reach h
  have hsteady := hw.settled.steady f c hc
  have hlive := hsteady.live.active hactive hcommitted
  refine List.all_eq_true.mpr fun k hk => ?_
  obtain ⟨e, he, -, hshown⟩ := hw.entry hc hactive hcommitted (hsteady.declared.active (.inl hactive) hlive k hk)
  refine List.findSome?_isSome_iff.mpr ⟨c.inner.scope, hs, ?_⟩
  rw [he, Option.filter_some, if_pos hshown]
  rfl

/-- Two Fibers that declare the same service are being activated in the same Scope. -/
def rivalsRun : List ContextLabel :=
  [0, 1].flatMap (fun f => (([.install 0 none ⟨[], [7], .Restart⟩ false, .fiber f .installIndex,
    .fiber f (.installValidate (.ok ())), .fiber f (.installCheck true), .fiber f (.activationLock 0),
    .fiber f (.activationBegin 0 true (.ok 0)), .fiber f (.activationPoll 0)] : List RuntimeLabel).map .runtime)) ++
  [.capture 0, .lease 0, .check 0 7, .capture 1, .lease 1]

/-- Fiber 0 has provided the service, and its activation is committed. -/
def firstCommits : List ContextLabel :=
  [.insert 0, .finish 0] ++ ([.activationReturn 0 (.ok ()), .activationSeal 0 true, .activationValidate 0,
    .activationReadStaged 0, .activationCheck 0 (.ok ()), .activationCommit 0 (.ok ()) .NONE] :
        List FiberLabel).map (.runtime ∘ .fiber 0)

/-- The second Fiber looks for the service when the first one has provided it, and finds it. -/
theorem provided_kept_rivals :
    ∃ w c, Reach step Sparing .new w ∧ w.runtime.fibers 0 = some c ∧ c.inner.provided = [7] ∧
      w.step (.check 1 7) = none ∧ ∀ k ∈ c.inner.provided, ∃ e, w.runtime.services c.inner.scope k = some e ∧
        e.owner = 0 ∧ w.runtime.visible e.gate = true ∧ ∀ l w', Sparing w l → w.step l = some w' →
          (∀ i call, l = .insert i → w.calls i = some call → call.fiber ≠ 0) →
            w'.runtime.services c.inner.scope k = some e := by
  have hrun : ((runIf step Sparing .new (rivalsRun ++ firstCommits)).any fun w =>
      (w.runtime.fibers 0).any (fun c =>
        c.inner.state = .Active ∧ c.inner.staged = false ∧ c.inner.provided = [7]) ∧
        (w.step (.check 1 7)).isNone) = true := by
    decide +kernel
  obtain ⟨w, hw, hrun⟩ := (Option.any_eq_true _ _).mp hrun
  obtain ⟨hfiber, hnone⟩ := of_decide_eq_true hrun
  obtain ⟨c, hc, hstate⟩ := (Option.any_eq_true _ _).mp hfiber
  obtain ⟨hactive, hcommitted, hledger⟩ := of_decide_eq_true hstate
  have hreach := reach_of_runIf hw
  exact ⟨w, c, hreach, hc, hledger, Option.isNone_iff_eq_none.mp hnone, provided_kept hreach hc hactive hcommitted⟩

/-- Fiber 0 is committed; what it declares resolves in the root Scope. -/
theorem declared_resolves_root :
    ∃ w c, Reach step Sparing .new w ∧ w.runtime.fibers 0 = some c ∧ c.inner.descriptor.provisions = [7] ∧
      w.runtime.dependenciesMet 0 c.inner.descriptor.provisions = true := by
  have hrun : ((runIf step Sparing .new (rivalsRun ++ firstCommits)).any fun w =>
      (w.runtime.fibers 0).any fun c => c.inner.state = .Active ∧ c.inner.staged = false ∧
        c.inner.descriptor.provisions = [7] ∧ c.inner.scope ∈ w.runtime.scopeAncestry 0) = true := by
    decide +kernel
  obtain ⟨w, hw, hrun⟩ := (Option.any_eq_true _ _).mp hrun
  obtain ⟨c, hc, hstate⟩ := (Option.any_eq_true _ _).mp hrun
  obtain ⟨hactive, hcommitted, hdeclares, hscope⟩ := of_decide_eq_true hstate
  have hreach := reach_of_runIf hw
  exact ⟨w, c, hreach, hc, hdeclares, declared_resolves hreach hc hactive hcommitted hscope⟩

/-- Fiber 1 has looked for the service before Fiber 0 inserted it: its insertion takes the slot of Fiber 0, which is
committed and keeps the service in its ledger. -/
example : ((run step .new (rivalsRun ++ [.check 1 7] ++ firstCommits ++ [.insert 1])).bind fun w =>
    (w.runtime.services 0 7).map fun e => (e.owner, (w.runtime.fibers 0).map (·.inner.provided))) =
      some (1, some [7]) := by
  decide +kernel

end Contexts

end Cordis
