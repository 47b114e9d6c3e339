import Cordis.Proof.Generation
import Cordis.Runtime.Publication

/-!
# One visible handler for a Scope and a key

A registration refuses a key that is visible in its Scope, and an activation or a reload looks for
duplicates before it publishes. A check that is still true when the handler is filed or the generation
is published is enough: then no step makes two handlers of one Scope and one key visible.
-/

namespace Cordis

open Machine

namespace Runtime

variable {rt rt' : Runtime} {f : FiberId} {c c' : FiberCell} {l : RuntimeLabel}

/-! ## What the validations have found -/

/-- `validate_activation` has found no other handler that is visible, or would be, for any of the
Fiber's keys. -/
theorem validateActivation_ok {ids middleware : List Nat}
    (h : rt.validateActivation ids middleware = .ok ()) {id id' : Nat} {e e' : HandlerEntry}
    (hid : id ∈ ids) (he : rt.handlers id = some e) (hlt : id' < rt.nextHandler)
    (he' : rt.handlers id' = some e') (hne : id' ≠ id)
    (hshown : rt.visible e'.gate = true ∨ id' ∈ ids) : ¬ (e'.scope = e.scope ∧ e'.key = e.key) := by
  intro hsame
  have hcheck := Outcome.forM_ok (Outcome.bind_ok h).1 id hid
  simp only [he] at hcheck
  split_ifs at hcheck with hduplicate
  refine hduplicate (List.any_eq_true.mpr ⟨id', List.mem_range.mpr hlt, ?_⟩)
  simp [he', hne, hshown, hsame]

theorem publishes_of_step {n : Nat} {o : Outcome} {g : GenerationId}
    (h : rt.step (.fiber f (.activationCommit n o g)) = some rt') (hc : rt.fibers f = some c)
    (hc' : rt'.fibers f = some c') (hwas : c.inner.state = .Starting) (hnow : c'.inner.state = .Active) :
    rt.publishesActivation f n = true := by
  obtain ⟨d, b, d', hd, hanswer, hstep, rfl⟩ := fiberStep_spec h
  obtain rfl := Option.some.inj (hc.symm.trans hd)
  cases hanswer
  rw [(fiberEffect_fibers _ _ hstep).1] at hc'
  obtain rfl : d' = c' := by simpa [setFiber] using hc'
  obtain ⟨pc, hpc, hstep⟩ := Option.bind_eq_some_iff.mp hstep
  have hstays : ∀ q, (c.setActivation n q).inner.state ≠ .Active := by
    intro q hactive
    rw [show (c.setActivation n q).inner.state = c.inner.state from rfl, hwas] at hactive
    contradiction
  simp only [FiberCell.stepActivation] at hstep
  split at hstep <;> try contradiction
  split at hstep
  · cases hstep
    exact absurd hnow (hstays _)
  rename_i hadmitted
  split_ifs at hstep with hin
  · split at hstep
    · rename_i inner hcommit
      have hadmission : rt.admission = true := by
        by_contra hclosed
        rw [if_neg hclosed] at hadmitted
        contradiction
      simp [publishesActivation, hadmission, fiber, hc, hin, hpc, hcommit, Except.isOk, Except.toBool]
    · cases hstep
      exact absurd hnow (hstays _)
  · cases hstep
    exact absurd hnow (hstays _)

theorem Revalidates.valid (hl : rt.Revalidates l) (h : rt.step l = some rt') {n : Nat}
    (hlabel : ∃ o g, l = .fiber f (.activationCommit n o g)) (hc : rt.fibers f = some c)
    (hc' : rt'.fibers f = some c') (hwas : c.inner.state = .Starting) (hnow : c'.inner.state = .Active) :
    rt.validateActivation c.inner.invocationHandlers c.inner.invocationMiddleware = .ok () := by
  obtain ⟨o, g, rfl⟩ := hlabel
  have hvalid := hl (publishes_of_step h hc hc' hwas hnow)
  rw [validatesActivation, hc, Option.any_some] at hvalid
  exact Outcome.isOk_eq hvalid

theorem validateRevision_ok {oldHandlers ids : List Nat} {target : ScopeId}
    (h : rt.validateRevision oldHandlers ids target = .ok ()) {id id' : Nat} {e e' : HandlerEntry}
    (hid : id ∈ ids) (he : rt.handlers id = some e) (hlt : id' < rt.nextHandler)
    (he' : rt.handlers id' = some e') (hne : id' ≠ id) (hold : id' ∉ oldHandlers)
    (hshown : rt.visible e'.gate = true) : ¬ (e'.scope = target ∧ e'.key = e.key) := by
  intro hsame
  have hcheck := Outcome.forM_ok h id hid
  simp only [he] at hcheck
  split_ifs at hcheck with hduplicate
  refine hduplicate (List.any_eq_true.mpr ⟨id', List.mem_range.mpr hlt, ?_⟩)
  simp [he', hne, hold, hshown, hsame]

/-! ## The invariant -/

/-- No two handlers of one Scope and one key are visible, or filed under one gate that may yet become
visible. -/
structure Singular (rt : Runtime) : Prop where
  bound : ∀ id e, rt.handlers id = some e → id < rt.nextHandler
  distinct : ∀ f c, rt.fibers f = some c → c.retired = false → ∀ id id' e e',
    rt.handlers id = some e → rt.handlers id' = some e' → e.gate = gateOf c → e'.gate = gateOf c →
    e.scope = e'.scope → e.key = e'.key → id = id'
  single : ∀ id id' e e', rt.handlers id = some e → rt.handlers id' = some e' →
    rt.visible e.gate = true → rt.visible e'.gate = true → e.scope = e'.scope → e.key = e'.key →
    id = id'

theorem singular_new : Singular .new where
  bound := fun id e h => by cases h
  distinct := fun f c h => by cases h
  single := fun id id' e e' h => by cases h

/-! ## What one step preserves -/

theorem visible_owner (hn : Numbered rt) (htenured : Tenured rt) {id : Nat} {e : HandlerEntry}
    (he : rt.handlers id = some e) (hshown : rt.visible e.gate = true) :
    ∃ f c, rt.fibers f = some c ∧ e.gate = gateOf c ∧ id ∈ c.inner.invocationHandlers := by
  have hnamed : rt.selectors e.gate.plugin = e.gate.generation := by
    simpa [visible] using hshown
  have hpos : rt.selectors e.gate.plugin ≠ .NONE := by
    rw [hnamed]
    exact (Nat.ne_of_lt (hn.entries id e he).1).symm
  obtain ⟨f, c, hc, hplugin, hgeneration, hlive⟩ := htenured.tenant _ hpos
  have hgate : e.gate = gateOf c := by
    rcases hg : e.gate with ⟨p, g⟩
    rw [hg] at hplugin hgeneration hnamed
    rw [hnamed] at hgeneration
    exact congrArg₂ Gate.mk hplugin.symm hgeneration.symm
  exact ⟨f, c, hc, hgate, htenured.owned f c hc hlive id e he hgate⟩

theorem distinct_step (ht : Topology rt) (hsound : ∀ f c, rt.fibers f = some c → c.Sound)
    (hn : Numbered rt) (htenured : Tenured rt) (hs : Singular rt) (h : rt.step l = some rt')
    (hc' : rt'.fibers f = some c') (hlive : c'.retired = false) {id id' : Nat}
    {e e' : HandlerEntry} (he : rt'.handlers id = some e) (he' : rt'.handlers id' = some e')
    (hgate : e.gate = gateOf c') (hgate' : e'.gate = gateOf c') (hscope : e.scope = e'.scope)
    (hkey : e.key = e'.key) : id = id' := by
  rcases live_before ht hsound htenured h hc' hlive with ⟨c, hc, hlive, hkept, -⟩ | hnew
  swap
  · -- nothing is filed under a gate that was handed out just now
    have hbefore : ∀ id e, rt.handlers id = some e → e.gate ≠ gateOf c' := by
      intro id e he heq
      have hbelow := (hn.entries id e he).2
      rw [heq] at hbelow
      exact absurd (hnew ▸ hbelow) (lt_irrefl _)
    cases step_files ht h with
    | kept hentries => exact absurd hgate (hbefore id e (hentries id e he))
    | handled g scope key d _ hd _ hhandlers =>
      rw [hhandlers] at he
      by_cases hid : id = rt.nextHandler
      · subst hid
        obtain rfl : e = _ := by simpa [eq_comm] using he
        have hbelow := (hn.fibers g d hd).2
        have hsame : gateOf d = gateOf c' := hgate
        rw [generation_of_gateOf hsame, plugin_of_gateOf hsame, hnew] at hbelow
        exact absurd hbelow (lt_irrefl _)
      · rw [Function.update_of_ne hid] at he
        exact absurd hgate (hbefore id e he)
    | cut old staged staging target oldCell d _ _ hnow =>
      subst hnow
      simp only [setFiber, cutOver] at he
      split_ifs at he
      · obtain ⟨e₀, he₀, rfl⟩ := Option.map_eq_some_iff.mp he
        exact absurd hgate (hbefore id e₀ he₀)
      · exact absurd hgate (hbefore id e he)
  rw [hkept] at hgate hgate'
  cases step_files ht h with
  | kept hentries =>
    exact hs.distinct f c hc hlive id id' e e' (hentries id e he) (hentries id' e' he') hgate hgate'
      hscope hkey
  | handled g scope key d _ hd hfree hhandlers =>
    -- the new handler has been compared with those of its gate
    have hnew : ∀ id e, rt'.handlers id = some e → id ≠ rt.nextHandler → ∀ e₁,
        rt'.handlers rt.nextHandler = some e₁ → e.gate = e₁.gate →
          ¬ (e.scope = e₁.scope ∧ e.key = e₁.key) := by
      intro id e he hid e₁ he₁ hsame
      rw [hhandlers, Function.update_of_ne hid] at he
      obtain rfl : e₁ = ⟨scope, key, gateOf d⟩ := by
        simpa [hhandlers, eq_comm] using he₁
      exact hfree id (hs.bound id e he) e he (.inr hsame)
    by_cases hid : id = rt.nextHandler
    · by_cases hid' : id' = rt.nextHandler
      · rw [hid, hid']
      · subst hid
        exact absurd ⟨hscope.symm, hkey.symm⟩ (hnew id' e' he' hid' e he (hgate'.trans hgate.symm))
    · by_cases hid' : id' = rt.nextHandler
      · subst hid'
        exact absurd ⟨hscope, hkey⟩ (hnew id e he hid e' he' (hgate.trans hgate'.symm))
      · rw [hhandlers, Function.update_of_ne hid] at he
        rw [hhandlers, Function.update_of_ne hid'] at he'
        exact hs.distinct f c hc hlive id id' e e' he he' hgate hgate' hscope hkey
  | cut old staged staging target oldCell d _ hcut hnow =>
    subst hnow
    -- a Fiber's handlers move all or not at all
    by_cases hf : f = staged
    · subst hf
      obtain rfl := Option.some.inj (hc.symm.trans hcut.stagedFiber)
      obtain ⟨-, hfiled⟩ := ht.staged f c hc hcut.flag
      have hmoved : ∀ id e, rt.handlers id = some e → e.gate = gateOf c → e.scope = c.inner.scope ∧
          id ∈ c.inner.invocationHandlers := by
        intro id e he hgate
        have hid := htenured.owned f c hc hlive id e he hgate
        obtain ⟨e₀, he₀, hscope⟩ := hfiled.handlers id hid
        obtain rfl := Option.some.inj (he.symm.trans he₀)
        exact ⟨hscope, hid⟩
      have hwas : ∀ id e, ((rt.cutOver ⟨staging, target, f, old, c.inner.childScopes⟩ oldCell
          c).setFiber old (superseded oldCell)).handlers id = some e → e.gate = gateOf c →
          ∃ e₀, rt.handlers id = some e₀ ∧ e₀.gate = e.gate ∧ e₀.key = e.key ∧
            e₀.scope = c.inner.scope := by
        intro id e he hgate
        simp only [setFiber, cutOver] at he
        split_ifs at he with hid
        · obtain ⟨e₀, he₀, rfl⟩ := Option.map_eq_some_iff.mp he
          exact ⟨e₀, he₀, rfl, rfl, (hmoved id e₀ he₀ hgate).1⟩
        · exact absurd (hmoved id e he hgate).2 hid
      obtain ⟨e₀, he₀, hg, hk, hsc⟩ := hwas id e he hgate
      obtain ⟨e₀', he₀', hg', hk', hsc'⟩ := hwas id' e' he' hgate'
      exact hs.distinct f c hc hlive id id' e₀ e₀' he₀ he₀' (hg.trans hgate) (hg'.trans hgate')
        (hsc.trans hsc'.symm) (hk.trans (hkey.trans hk'.symm))
    · have hwas : ∀ id e, ((rt.cutOver ⟨staging, target, staged, old, d.inner.childScopes⟩ oldCell
          d).setFiber old (superseded oldCell)).handlers id = some e → e.gate = gateOf c →
          rt.handlers id = some e := by
        intro id e he hgate
        simp only [setFiber, cutOver] at he
        split_ifs at he with hid
        · obtain ⟨e₀, he₀, rfl⟩ := Option.map_eq_some_iff.mp he
          have hin := htenured.owned f c hc hlive id e₀ he₀ hgate
          exact absurd (ht.handlersApart f staged c d hc hcut.stagedFiber id hin hid) hf
        · exact he
      exact hs.distinct f c hc hlive id id' e e' (hwas id e he hgate) (hwas id' e' he' hgate')
        hgate hgate' hscope hkey

/-- What is visible once generation `gateOf c` is published: its handlers, and what was visible. -/
theorem published_shown (hselectors : rt'.selectors =
    Function.update rt.selectors c.plugin c.generation) {g : Gate} (h : rt'.visible g = true) :
    g = gateOf c ∨ g.plugin ≠ c.plugin ∧ rt.visible g = true := by
  rcases g with ⟨p, n⟩
  have hnamed : rt'.selectors p = n := by simpa [visible] using h
  rw [hselectors] at hnamed
  by_cases hp : p = c.plugin
  · subst hp
    rw [Function.update_self] at hnamed
    exact .inl (congrArg (Gate.mk c.plugin) hnamed.symm)
  · rw [Function.update_of_ne hp] at hnamed
    exact .inr ⟨hp, by simpa [visible] using hnamed⟩

theorem cut_shown (ht : Topology rt) (hn : Numbered rt) (htenured : Tenured rt)
    {old staged : FiberId} {staging target : ScopeId} {oldCell c : FiberCell}
    (hcut : CutFrom rt old staged staging target oldCell c)
    (hnow : rt' = (rt.cutOver ⟨staging, target, staged, old, c.inner.childScopes⟩ oldCell
      c).setFiber old (superseded oldCell)) {id : Nat} {e : HandlerEntry}
    (he : rt'.handlers id = some e) (hshown : rt'.visible e.gate = true) :
    (e.gate = gateOf c ∧ e.scope = target ∧ id ∈ c.inner.invocationHandlers ∧
      ∃ e₀, rt.handlers id = some e₀ ∧ e₀.key = e.key) ∨
    (rt.handlers id = some e ∧ rt.visible e.gate = true ∧
      id ∉ oldCell.inner.invocationHandlers) := by
  have hselectors : rt'.selectors = Function.update rt.selectors c.plugin c.generation := by
    subst hnow
    rfl
  subst hnow
  simp only [setFiber, cutOver] at he
  rcases published_shown hselectors hshown with hgate | ⟨hplugin, hbefore⟩
  · left
    split_ifs at he with hid
    · obtain ⟨e₀, he₀, rfl⟩ := Option.map_eq_some_iff.mp he
      exact ⟨hgate, rfl, hid, e₀, he₀, rfl⟩
    · exact absurd (htenured.owned staged c hcut.stagedFiber hcut.live id e he hgate) hid
  · right
    -- a visible handler of another plugin is in no ledger that the cutover touches
    have hapart : ∀ e₀, rt.handlers id = some e₀ → e₀.gate = e.gate →
        id ∉ c.inner.invocationHandlers ∧ id ∉ oldCell.inner.invocationHandlers := by
      intro e₀ he₀ hsame
      obtain ⟨g, d, hd, hgate, hin⟩ := visible_owner hn htenured he₀ (hsame ▸ hbefore)
      have hother : d.plugin ≠ c.plugin := by
        rw [hsame] at hgate
        rwa [← show e.gate.plugin = d.plugin from congrArg Gate.plugin hgate]
      refine ⟨fun hid => hother ?_, fun hid => hother ?_⟩
      · obtain rfl := ht.handlersApart g staged d c hd hcut.stagedFiber id hin hid
        obtain rfl := Option.some.inj (hd.symm.trans hcut.stagedFiber)
        rfl
      · obtain rfl := ht.handlersApart g old d oldCell hd hcut.oldFiber id hin hid
        obtain rfl := Option.some.inj (hd.symm.trans hcut.oldFiber)
        exact hcut.plugin.symm
    split_ifs at he with hid
    · obtain ⟨e₀, he₀, rfl⟩ := Option.map_eq_some_iff.mp he
      exact absurd hid (hapart e₀ he₀ rfl).1
    · exact ⟨he, hbefore, (hapart e he rfl).2⟩

theorem single_step (ht : Topology rt) (hsound : ∀ f c, rt.fibers f = some c → c.Sound)
    (hn : Numbered rt) (htenured : Tenured rt) (hs : Singular rt) (hl : rt.Revalidates l)
    (h : rt.step l = some rt') {id id' : Nat} {e e' : HandlerEntry} (he : rt'.handlers id = some e)
    (he' : rt'.handlers id' = some e') (hshown : rt'.visible e.gate = true)
    (hshown' : rt'.visible e'.gate = true) (hscope : e.scope = e'.scope) (hkey : e.key = e'.key) :
    id = id' := by
  have hcutover : ∀ old staged staging target oldCell c,
      CutFrom rt old staged staging target oldCell c →
      rt' = (rt.cutOver ⟨staging, target, staged, old, c.inner.childScopes⟩ oldCell
        c).setFiber old (superseded oldCell) → id = id' := by
    intro old staged staging target oldCell c hcut hnow
    have hstaged : rt'.fibers staged = some { c with inner := c.inner.cutover target } := by
      rw [hnow]
      simp [setFiber, cutOver, hcut.ne]
    rcases cut_shown ht hn htenured hcut hnow he hshown with
      ⟨hgate, hto, hid, e₀, he₀, hk⟩ | ⟨hwas, hbefore, hold⟩ <;>
    rcases cut_shown ht hn htenured hcut hnow he' hshown' with
      ⟨hgate', hto', hid', e₀', he₀', hk'⟩ | ⟨hwas', hbefore', hold'⟩
    · exact distinct_step ht hsound hn htenured hs h hstaged hcut.live he he' hgate hgate' hscope hkey
    · by_contra hne
      exact validateRevision_ok hcut.valid hid he₀ (hs.bound id' e' hwas') hwas' (Ne.symm hne) hold'
        hbefore' ⟨hscope.symm.trans hto, hkey.symm.trans hk.symm⟩
    · by_contra hne
      exact validateRevision_ok hcut.valid hid' he₀' (hs.bound id e hwas) hwas hne hold hbefore
        ⟨hscope.trans hto', hkey.trans hk'.symm⟩
    · exact hs.single id id' e e' hwas hwas' hbefore hbefore' hscope hkey
  cases step_files ht h with
  | cut old staged staging target oldCell c _ hcut hnow =>
    exact hcutover old staged staging target oldCell c hcut hnow
  | handled f scope key c _ hc hfree hhandlers _ hselectors =>
    have hsame : ∀ g, rt'.visible g = rt.visible g := fun g => by
      unfold visible
      rw [hselectors]
    rw [hsame] at hshown hshown'
    rw [hhandlers] at he he'
    by_cases hid : id = rt.nextHandler <;> by_cases hid' : id' = rt.nextHandler
    · rw [hid, hid']
    · subst hid
      rw [Function.update_self] at he
      cases he
      rw [Function.update_of_ne hid'] at he'
      exact absurd ⟨hscope.symm, hkey.symm⟩ (hfree id' (hs.bound id' e' he') e' he' (.inl hshown'))
    · subst hid'
      rw [Function.update_self] at he'
      cases he'
      rw [Function.update_of_ne hid] at he
      exact absurd ⟨hscope, hkey⟩ (hfree id (hs.bound id e he) e he (.inl hshown))
    · rw [Function.update_of_ne hid] at he
      rw [Function.update_of_ne hid'] at he'
      exact hs.single id id' e e' he he' hshown hshown' hscope hkey
  | kept hentries =>
    have hwas := hentries id e he
    have hwas' := hentries id' e' he'
    cases step_selects ht h with
    | cut old staged staging target oldCell c _ hcut hnow =>
      exact hcutover old staged staging target oldCell c hcut hnow
    | cleared hselectors =>
      -- what is visible was visible
      have hbefore : ∀ id e, rt.handlers id = some e → rt'.visible e.gate = true →
          rt.visible e.gate = true := by
        intro id e he hshown
        have hnamed : rt'.selectors e.gate.plugin = e.gate.generation := by
          simpa [visible] using hshown
        rcases hselectors e.gate.plugin with hsame | hnone
        · simpa [visible, hsame] using hnamed
        · exact absurd (hnamed.symm.trans hnone) (Nat.ne_of_gt (hn.entries id e he).1)
      exact hs.single id id' e e' hwas hwas' (hbefore id e hwas hshown)
        (hbefore id' e' hwas' hshown') hscope hkey
    | published f n c c' hc hc' hlabel hstarting hactive hlive _ _ _ hselectors =>
      have hvalid := hl.valid h hlabel hc hc' hstarting hactive
      rcases published_shown hselectors hshown with hgate | ⟨-, hbefore⟩ <;>
      rcases published_shown hselectors hshown' with hgate' | ⟨-, hbefore'⟩
      · exact hs.distinct f c hc hlive id id' e e' hwas hwas' hgate hgate' hscope hkey
      · by_contra hne
        exact validateActivation_ok hvalid (htenured.owned f c hc hlive id e hwas hgate) hwas
          (hs.bound id' e' hwas') hwas' (Ne.symm hne) (.inl hbefore') ⟨hscope.symm, hkey.symm⟩
      · by_contra hne
        exact validateActivation_ok hvalid (htenured.owned f c hc hlive id' e' hwas' hgate') hwas'
          (hs.bound id e hwas) hwas hne (.inl hbefore) ⟨hscope, hkey⟩
      · exact hs.single id id' e e' hwas hwas' hbefore hbefore' hscope hkey

theorem singular_step (ht : Topology rt) (hsound : ∀ f c, rt.fibers f = some c → c.Sound)
    (hn : Numbered rt) (htenured : Tenured rt) (hs : Singular rt) (hl : rt.Revalidates l)
    (h : rt.step l = some rt') : Singular rt' where
  bound := fun id e he => by
    cases step_files ht h with
    | kept hentries hnext =>
      rw [hnext]
      exact hs.bound id e (hentries id e he)
    | handled f scope key c _ _ _ hhandlers hnext =>
      rw [hhandlers] at he
      rw [hnext]
      by_cases hid : id = rt.nextHandler
      · omega
      · rw [Function.update_of_ne hid] at he
        exact (hs.bound id e he).trans (Nat.lt_succ_self _)
    | cut old staged staging target oldCell c _ _ hnow =>
      subst hnow
      simp only [setFiber, cutOver] at he ⊢
      split_ifs at he
      · obtain ⟨e₀, he₀, -⟩ := Option.map_eq_some_iff.mp he
        exact hs.bound id e₀ he₀
      · exact hs.bound id e he
  distinct := fun f c hc hlive id id' e e' he he' =>
    distinct_step ht hsound hn htenured hs h hc hlive he he'
  single := fun id id' e e' he he' => single_step ht hsound hn htenured hs hl h he he'

/-! ## Over every run -/

/-- What holds of the Runtime as long as nothing comes between a check and what it is for. -/
structure Registered (rt : Runtime) : Prop where
  topology : Topology rt
  sound : ∀ f c, rt.fibers f = some c → c.Sound
  numbered : Numbered rt
  tenured : Tenured rt
  singular : Singular rt

theorem registered_new : Registered .new :=
  ⟨topology_new, fun _ _ hc => (nomatch hc), numbered_new, tenured_new, singular_new⟩

theorem registered_step (hr : Registered rt) (hl : rt.Revalidates l) (h : rt.step l = some rt') :
    Registered rt' where
  topology := topology_step hr.topology h
  sound := (step_evolves hr.topology h).sound hr.sound
  numbered := numbered_step hr.topology hr.numbered h
  tenured := tenured_step hr.topology hr.sound hr.numbered hr.tenured h
  singular := singular_step hr.topology hr.sound hr.numbered hr.tenured hr.singular hl h

theorem registered_same (hr : Registered rt) (hsame : SameTopology rt rt') : Registered rt' := by
  have htopology := topology_tame hr.topology hsame.tame
  have hrest := hsame.rest
  refine ⟨htopology, ?_, ?_, ?_, ?_⟩ <;> rw [hrest]
  · exact hr.sound
  · exact ⟨hr.numbered.positive, hr.numbered.fibers, hr.numbered.entries, hr.numbered.apart⟩
  · exact ⟨hr.tenured.closed, hr.tenured.tenant, hr.tenured.owned⟩
  · exact ⟨hr.singular.bound, hr.singular.distinct, hr.singular.single⟩

/-- Handlers `id` and `id'` have one Scope and one key, and both are visible. -/
def Clash (rt : Runtime) (id id' : Nat) : Prop :=
  ∃ e e', rt.handlers id = some e ∧ rt.handlers id' = some e' ∧ rt.visible e.gate = true ∧
    rt.visible e'.gate = true ∧ e.scope = e'.scope ∧ e.key = e'.key

/-- Each registration that files its handler, each activation that publishes and each reload that cuts over would
pass its check once more. -/
def Uncontested {τ : Type} [DecidableEq τ] (s : TwoPhase.State Runtime τ RuntimeLabel)
    (l : TwoPhase.Label τ RuntimeLabel) : Prop :=
  publication.Fresh s l ∧ TwoPhase.Whole Revalidates s l

instance {τ : Type} [DecidableEq τ] (s : TwoPhase.State Runtime τ RuntimeLabel)
    (l : TwoPhase.Label τ RuntimeLabel) : Decidable (Uncontested s l) := by
  unfold Uncontested
  infer_instance

/-- A refused cutover is the only section that finds something else than its check against it. -/
theorem registered_refused (hr : Registered rt) (hidle : publication.effective rt l = false)
    (h : publication.act rt l = some rt') : Registered rt' := by
  cases l
  case commitReload old staged staging target =>
    simp only [publication, commitValidatedReload, reloadWith] at h
    split at h <;> try contradiction
    split_ifs at h with hflag
    obtain ⟨c, hc, hflag⟩ := (Option.any_eq_true _ _).mp hflag
    split at h
    · rename_i hcommit
      simp [publication, publishesRevision, hcommit, Except.isOk, Except.toBool] at hidle
    · rename_i hcommit
      cases h
      exact registered_same hr (commitRevisionIf_error hr.topology hc hflag hcommit)
  all_goals cases hidle

/-- **At most one visible handler for a Scope and a key**, in every run in which each check is still true when its
handler is filed or its generation is published. -/
theorem one_visible_handler {τ : Type} [DecidableEq τ] {t : TwoPhase.State Runtime τ RuntimeLabel}
    (h : Reach publication.run Uncontested (TwoPhase.start .new) t) (id id' : Nat)
    (hclash : t.inner.Clash id id') : id = id' := by
  have hregistered : Registered t.inner := by
    refine TwoPhase.invariant registered_new (fun rt l rt' hr hok hstep => ?_)
      (fun rt l rt' hr _ hidle hact => registered_refused hr hidle hact) h
    refine registered_step hr ?_ hstep
    cases l
    case handle | commitReload => trivial
    all_goals exact hok rfl
  obtain ⟨e, e', he, he', hshown, hshown', hscope, hkey⟩ := hclash
  exact hregistered.singular.single id id' e e' he he' hshown hshown' hscope hkey

/-- Fiber `f` of the root Scope starts. -/
def started (f : FiberId) : List (TwoPhase.Label Nat RuntimeLabel) :=
  ([.install 0 none ⟨[], [], .Restart⟩ false, .fiber f (.installValidate (.ok ())),
    .fiber f (.installCheck true), .fiber f (.activationLock 0),
    .fiber f (.activationBegin 0 true (.ok 0)), .fiber f (.activationPoll 0)] : List RuntimeLabel).map .whole

/-- It registers a handler for key 0, and is about to commit. -/
def committing (f : FiberId) : List (TwoPhase.Label Nat RuntimeLabel) :=
  [.check f (.handle f 0 0), .act f] ++
  ([.fiber f (.activationReturn 0 (.ok ())), .fiber f (.activationSeal 0 true),
    .fiber f (.activationValidate 0), .fiber f (.activationReadStaged 0)] : List RuntimeLabel).map .whole

/-- The validation in the commit of Fiber `f`. -/
def validation (f : FiberId) : TwoPhase.Label Nat RuntimeLabel :=
  .whole (.fiber f (.activationCheck 0 (.ok ())))

def publishing (f : FiberId) : TwoPhase.Label Nat RuntimeLabel :=
  .whole (.fiber f (.activationCommit 0 (.ok ()) .NONE))

/-- A Fiber that validates and publishes has the only visible handler. -/
theorem one_visible_handler_published :
    ∃ t : TwoPhase.State Runtime Nat RuntimeLabel,
      Reach publication.run Uncontested (TwoPhase.start .new) t ∧ t.inner.Clash 0 0 ∧
        ¬ t.inner.Clash 0 1 := by
  have hrun : ((runIf publication.run Uncontested
      (TwoPhase.start .new : TwoPhase.State Runtime Nat RuntimeLabel)
      (started 0 ++ committing 0 ++ started 1 ++ committing 1 ++ [validation 0, publishing 0])).any fun t =>
        (t.inner.handlers 0).any fun e => t.inner.visible e.gate) = true := by
    decide
  obtain ⟨t, ht, hrun⟩ := (Option.any_eq_true _ _).mp hrun
  obtain ⟨e, he, hshown⟩ := (Option.any_eq_true _ _).mp hrun
  have hreach := reach_of_runIf ht
  exact ⟨t, hreach, ⟨e, e, he, he, hshown, hshown, rfl, rfl⟩, fun hclash =>
    absurd (one_visible_handler hreach 0 1 hclash) (by decide)⟩

/-- Two Fibers validate, and then both publish. -/
theorem two_visible_handlers :
    ∃ t : TwoPhase.State Runtime Nat RuntimeLabel,
      Reach publication.run anyStep (TwoPhase.start .new) t ∧ t.inner.Clash 0 1 := by
  have hrun : ((run publication.run
      (TwoPhase.start .new : TwoPhase.State Runtime Nat RuntimeLabel)
      (started 0 ++ committing 0 ++ started 1 ++ committing 1 ++
        [validation 0, validation 1, publishing 0, publishing 1])).any fun t =>
        (t.inner.handlers 0).any fun e => (t.inner.handlers 1).any fun e' =>
          t.inner.visible e.gate ∧ t.inner.visible e'.gate ∧ e.scope = e'.scope ∧
            e.key = e'.key) = true := by
    decide
  obtain ⟨t, ht, hrun⟩ := (Option.any_eq_true _ _).mp hrun
  obtain ⟨e, he, hrun⟩ := (Option.any_eq_true _ _).mp hrun
  obtain ⟨e', he', hrun⟩ := (Option.any_eq_true _ _).mp hrun
  obtain ⟨hshown, hshown', hscope, hkey⟩ := of_decide_eq_true hrun
  exact ⟨t, reach_of_run ht, e, e', he, he', hshown, hshown', hscope, hkey⟩

/-- Fiber 1, which is active, finds the handler of Fiber 0 hidden and files its own when that has been published. -/
example : ((run publication.run (TwoPhase.start .new : TwoPhase.State Runtime Nat RuntimeLabel)
    (started 0 ++ committing 0 ++ [validation 0] ++ (installed 1 0 none ⟨[], [], .Restart⟩ false []).map .whole ++
      [.check 1 (.handle 1 0 0), publishing 0, .act 1])).any fun t =>
        (t.inner.handlers 0).any fun e => (t.inner.handlers 1).any fun e' =>
          t.inner.visible e.gate ∧ t.inner.visible e'.gate ∧ e.scope = e'.scope ∧ e.key = e'.key) = true := by
  decide

end Runtime

end Cordis
