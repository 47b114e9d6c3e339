import Cordis.Proof.Frame

/-!
# The disposal worker of a Scope

`ScopePc.Next` says what one section of `dispose_scope_body` found and where it leaves the worker;
`stepScope_next` is the one place that unfolds the sections.
-/

namespace Cordis

/-- Where a section `a` of the worker of Scope record `r` leads from `pc`, and what it found. -/
inductive ScopePc.Next (rt : Runtime) (r : ScopeCell) : ScopeLabel → ScopePc → ScopePc → Prop
  | copied (here : r.inArena = true) :
      Next rt r .copy .copying (.visiting ⟨r.children, r.fibers, r.persistent, [], false⟩)
  | lost (gone : r.inArena = false) (e : CordisError) :
      Next rt r .copy .copying (.finished (.error e) true)
  | childAsked (t : Traversal) (child : ScopeId) (last : t.children.getLast? = some child)
      (here : (rt.scope child).isSome) :
      Next rt r .visit (.visiting t) (.childWaiting { t with children := t.children.dropLast } child)
  | childMissing (t : Traversal) (child : ScopeId) (last : t.children.getLast? = some child)
      (gone : rt.scope child = none) :
      Next rt r .visit (.visiting t)
        (.childFailed { t with children := t.children.dropLast } child .ScopeNotFound)
  | fiberSkipped (t : Traversal) (f : FiberId) (done : t.children = [])
      (last : t.fibers.getLast? = some f)
      (dead : ∀ c, rt.fiber f = some c → c.inner.state = .Disposed) :
      Next rt r .visit (.visiting t) (.visiting { t with fibers := t.fibers.dropLast })
  | fiberFound (t : Traversal) (f : FiberId) (done : t.children = [])
      (last : t.fibers.getLast? = some f) (c : FiberCell) (here : rt.fiber f = some c)
      (alive : c.inner.state ≠ .Disposed) :
      Next rt r .visit (.visiting t) (.fiberSeen { t with fibers := t.fibers.dropLast } f)
  | exhausted (t : Traversal) (children : t.children = []) (fibers : t.fibers = []) :
      Next rt r .visit (.visiting t) (.finished t.result t.terminated)
  | childOk (t : Traversal) (child : ScopeId) (q : ScopeCell) (o : DisposalObservation)
      (record : rt.scopes child = some q) (published : q.published = some o)
      (ok : o.legacyResult = .ok ()) :
      Next rt r .childReturned (.childWaiting t child) (.visiting t)
  | childErr (t : Traversal) (child : ScopeId) (q : ScopeCell) (o : DisposalObservation)
      (e : CordisError) (record : rt.scopes child = some q) (published : q.published = some o)
      (failed : o.legacyResult = .error e) :
      Next rt r .childReturned (.childWaiting t child) (.childFailed t child e)
  | childReread (t : Traversal) (child : ScopeId) (e : CordisError) (committed : Bool)
      (reread : committed = (rt.scope child).any (·.state == .Disposed)) :
      Next rt r .childReread (.childFailed t child e) (.visiting
        (t.failed .ChildScopeCleanup ("child scope " ++ toString child) e committed))
  | fiberHere (t : Traversal) (f : FiberId) (here : (rt.fiber f).isSome) :
      Next rt r .fiberLookup (.fiberSeen t f) (.fiberFound t f)
  | fiberGone (t : Traversal) (f : FiberId) (gone : rt.fiber f = none) :
      Next rt r .fiberLookup (.fiberSeen t f) (.fiberFailed t f .FiberNotFound)
  | fiberCalled (t : Traversal) (f : FiberId) (call : Nat)
      (answer : (rt.disposeFound f false t.persistent true).2 = .ok call) :
      Next rt r .fiberCall (.fiberFound t f) (.fiberWaiting t f call)
  | fiberRefused (t : Traversal) (f : FiberId) (e : CordisError)
      (answer : (rt.disposeFound f false t.persistent true).2 = .error e) :
      Next rt r .fiberCall (.fiberFound t f) (.fiberFailed t f e)
  | fiberOk (t : Traversal) (f : FiberId) (call : Nat) (c : FiberCell) (d : DisposeCall)
      (o : DisposalObservation) (record : rt.fibers f = some c) (joined : c.calls call = some d)
      (published : c.published d.round = some o) (ok : o.legacyResult = .ok ()) :
      Next rt r .fiberReturned (.fiberWaiting t f call) (.visiting t)
  | fiberErr (t : Traversal) (f : FiberId) (call : Nat) (c : FiberCell) (d : DisposeCall)
      (o : DisposalObservation) (e : CordisError) (record : rt.fibers f = some c)
      (joined : c.calls call = some d) (published : c.published d.round = some o)
      (failed : o.legacyResult = .error e) :
      Next rt r .fiberReturned (.fiberWaiting t f call) (.fiberFailed t f e)
  | fiberReread (t : Traversal) (f : FiberId) (e : CordisError) (committed : Bool)
      (reread : committed = (rt.fiber f).any fun d =>
        d.inner.state = .Disposed ∨ d.inner.state = .WaitingDependencies) :
      Next rt r .fiberReread (.fiberFailed t f e) (.visiting
        (t.failed .FiberDetach ("fiber " ++ toString f) e committed))
  | died (panic : Option String) (pc : ScopePc) (e : CordisError) (scopeError : e.isScopeWorkerError) :
      Next rt r (.workerDied panic) pc (.finished (.error e) true)

/-- `r'` is `r` with its worker at `pc`. -/
structure ScopeCell.At (r r' : ScopeCell) (pc : ScopePc) : Prop where
  arena : r'.inArena = r.inArena
  state : r'.state = r.state
  children : r'.children = r.children
  fibers : r'.fibers = r.fibers
  published : r'.published = r.published
  worker : r'.worker = some pc

/-- `r'` is `r` after its finalizer. -/
structure ScopeCell.Finalized (r r' : ScopeCell) (result : Outcome) (terminated : Bool) : Prop where
  arena : r'.inArena = r.inArena
  state : r'.state = if r.inArena then (if terminated then .Terminated else .Disposed) else r.state
  children : ∀ x ∈ r'.children, x ∈ r.children
  fibers : r'.fibers = r.fibers
  published : r'.published = if r.inArena then r.published.or (some
    { legacyResult := Runtime.finalScopeResult result terminated
      terminal := if terminated then
        .Incomplete (match Runtime.finalScopeResult result terminated with
          | .error e => e
          | .ok () => .ScopeDisposalTerminated "scope disposal terminated")
        else .Committed
      issues := r.issues }) else r.published
  worker : r'.worker = none

namespace Runtime

variable {rt rt' : Runtime} {s : ScopeId} {r : ScopeCell} {pc : ScopePc} {a : ScopeLabel}

theorem setScope_self (rt : Runtime) (s : ScopeId) (r : ScopeCell) :
    (rt.setScope s r).scopes s = some r := by
  simp [setScope]

theorem requested_own {d : ScopeId} {p : Bool} {q : ScopePc} (hr : rt.scopes s = some r)
    (hstate : r.state ≠ .Active) :
    ∃ r', ((rt.requestScopeDisposal d p).1.modifyScopeCell s fun c =>
      { c with worker := some q }).scopes s = some r' ∧ r.At r' q := by
  obtain ⟨q, hq, harena, hqstate, hchildren, hfibers, hpublished⟩ : ∃ q,
      (rt.requestScopeDisposal d p).1.scopes s = some q ∧ q.inArena = r.inArena ∧
        q.state = r.state ∧ q.children = r.children ∧ q.fibers = r.fibers ∧
        q.published = r.published := by
    unfold requestScopeDisposal
    split
    · exact ⟨r, hr, rfl, rfl, rfl, rfl, rfl⟩
    · rename_i x hx
      simp only
      by_cases hs : s = d
      · subst hs
        obtain rfl : r = x := by simpa [hr] using (scope_eq_some.mp hx).1
        rw [if_neg hstate]
        exact ⟨_, setScope_self .., rfl, rfl, rfl, rfl, rfl⟩
      · split_ifs
        all_goals exact ⟨r, by simp [setScope, hs, hr], rfl, rfl, rfl, rfl, rfl⟩
  unfold modifyScopeCell
  rw [hq]
  exact ⟨_, setScope_self .., harena, hqstate, hchildren, hfibers, hpublished, rfl⟩

theorem requestScopeDisposal_found (rt : Runtime) (s : ScopeId) (p : Bool) :
    match (rt.requestScopeDisposal s p).2 with
    | .ok () => (rt.scope s).isSome
    | .error e => rt.scope s = none ∧ e = .ScopeNotFound := by
  unfold requestScopeDisposal
  cases hs : rt.scope s with
  | none => exact ⟨rfl, rfl⟩
  | some c =>
    simp only
    split_ifs <;> rfl

theorem finalize_own {result : Outcome} {terminated : Bool}
    (h : rt.stepScope s r (.finished result terminated) .finalize = some rt') :
    ∃ r', rt'.scopes s = some r' ∧ r.Finalized r' result terminated := by
  simp only [stepScope] at h
  by_cases hin : r.inArena = true
  · rw [if_pos hin] at h
    generalize hq : ({ r with
      state := if terminated then .Terminated else .Disposed
      result := some (finalScopeResult result terminated)
      worker := none
      published := r.published.or (some
        { legacyResult := finalScopeResult result terminated
          terminal :=
            if terminated then
              .Incomplete (match finalScopeResult result terminated with
                | .error e => e
                | .ok () => .ScopeDisposalTerminated "scope disposal terminated")
            else .Committed
          issues := r.issues }) } : ScopeCell) = q at h
    have hfinal : r.Finalized q result terminated := by
      subst hq
      exact ⟨rfl, by rw [if_pos hin], fun _ h => h, rfl, by rw [if_pos hin], rfl⟩
    have hown : (rt.setScope s q).scopes s = some q := setScope_self ..
    split at h
    · split at h
      · cases h
        exact ⟨q, hown, hfinal⟩
      · cases h
        rw [modifyScope_scopes, hown]
        refine ⟨_, rfl, ?_⟩
        beta_reduce
        split_ifs
        · exact ⟨hfinal.arena, hfinal.state,
            fun x hx => hfinal.children x (List.mem_filter.mp hx).1, hfinal.fibers,
            hfinal.published, hfinal.worker⟩
        · exact hfinal
    · cases h
      exact ⟨q, hown, hfinal⟩
  · rw [if_neg hin] at h
    cases h
    exact ⟨_, setScope_self .., ⟨rfl, by rw [if_neg hin], fun _ h => h, rfl, by rw [if_neg hin], rfl⟩⟩

/-- **What one section of the worker does to its own Scope.** -/
theorem stepScope_next (hr : rt.scopes s = some r) (hstate : r.state ≠ .Active)
    (h : rt.stepScope s r pc a = some rt') :
    (∃ pc' r', ScopePc.Next rt r a pc pc' ∧ rt'.scopes s = some r' ∧ r.At r' pc') ∨
      ∃ result terminated r', a = .finalize ∧ pc = .finished result terminated ∧
        rt'.scopes s = some r' ∧ r.Finalized r' result terminated := by
  cases a <;> simp only [stepScope] at h
  case copy =>
    split at h <;> try contradiction
    left
    split at h <;> cases h
    · rename_i hin
      exact ⟨_, _, .copied hin, setScope_self .., ⟨rfl, rfl, rfl, rfl, rfl, rfl⟩⟩
    · rename_i hin
      exact ⟨_, _, .lost (by simpa using hin) _, setScope_self .., ⟨rfl, rfl, rfl, rfl, rfl, rfl⟩⟩
  case visit =>
    split at h <;> try contradiction
    rename_i t
    left
    split at h
    · rename_i child hlast
      have hown := fun pc' => requested_own (d := child) (p := t.persistent) (q := pc') hr hstate
      have hfound := requestScopeDisposal_found rt child t.persistent
      split at h
      all_goals
        rename_i heq
        cases h
        rw [heq] at hown hfound
      · obtain ⟨r', hr', hat⟩ := hown (.childWaiting _ child)
        exact ⟨_, r', .childAsked t child hlast hfound, hr', hat⟩
      · obtain ⟨hgone, rfl⟩ := hfound
        obtain ⟨r', hr', hat⟩ := hown (.childFailed _ child .ScopeNotFound)
        exact ⟨_, r', .childMissing t child hlast hgone, hr', hat⟩
    · rename_i f hnone hlast
      have hdone : t.children = [] := List.getLast?_eq_none_iff.mp hnone
      split at h
      · rename_i hgone
        cases h
        refine ⟨_, _, .fiberSkipped t f hdone hlast fun c hc => ?_, setScope_self ..,
          ⟨rfl, rfl, rfl, rfl, rfl, rfl⟩⟩
        rw [hgone] at hc
        contradiction
      · rename_i d hd
        cases h
        by_cases hdead : d.inner.state = .Disposed
        · refine ⟨_, _, .fiberSkipped t f hdone hlast fun c hc => ?_, setScope_self ..,
            ⟨rfl, rfl, rfl, rfl, rfl, by rw [if_pos hdead]⟩⟩
          rw [hd] at hc
          cases hc
          exact hdead
        · exact ⟨_, _, .fiberFound t f hdone hlast d hd hdead, setScope_self ..,
            ⟨rfl, rfl, rfl, rfl, rfl, by rw [if_neg hdead]⟩⟩
    · rename_i hchildren hfibers
      cases h
      exact ⟨_, _, .exhausted t (List.getLast?_eq_none_iff.mp hchildren)
        (List.getLast?_eq_none_iff.mp hfibers), setScope_self .., ⟨rfl, rfl, rfl, rfl, rfl, rfl⟩⟩
  case childReturned =>
    split at h <;> try contradiction
    rename_i t child
    left
    split at h <;> try contradiction
    rename_i o ho
    obtain ⟨q, hq, hpublished⟩ := Option.bind_eq_some_iff.mp ho
    cases h
    cases hresult : o.legacyResult with
    | ok =>
      exact ⟨_, _, .childOk t child q o hq hpublished hresult, setScope_self ..,
        ⟨rfl, rfl, rfl, rfl, rfl, rfl⟩⟩
    | error e =>
      exact ⟨_, _, .childErr t child q o e hq hpublished hresult, setScope_self ..,
        ⟨rfl, rfl, rfl, rfl, rfl, rfl⟩⟩
  case childReread =>
    split at h <;> try contradiction
    rename_i t child e
    cases h
    exact .inl ⟨_, _, .childReread t child e _ rfl, setScope_self .., ⟨rfl, rfl, rfl, rfl, rfl, rfl⟩⟩
  case fiberLookup =>
    split at h <;> try contradiction
    rename_i t f
    cases h
    left
    by_cases hhere : (rt.fiber f).isSome
    · exact ⟨_, _, .fiberHere t f hhere, setScope_self .., ⟨rfl, rfl, rfl, rfl, rfl, by rw [if_pos hhere]⟩⟩
    · exact ⟨_, _, .fiberGone t f (Option.not_isSome_iff_eq_none.mp hhere), setScope_self ..,
        ⟨rfl, rfl, rfl, rfl, rfl, by rw [if_neg hhere]⟩⟩
  case fiberCall =>
    split at h <;> try contradiction
    rename_i t f
    left
    split at h
    all_goals
      rename_i rt₁ _ heq
      cases h
      have hanswer := congrArg Prod.snd heq
    · exact ⟨_, _, .fiberCalled t f _ hanswer, setScope_self .., ⟨rfl, rfl, rfl, rfl, rfl, rfl⟩⟩
    · exact ⟨_, _, .fiberRefused t f _ hanswer, setScope_self .., ⟨rfl, rfl, rfl, rfl, rfl, rfl⟩⟩
  case fiberReturned =>
    split at h <;> try contradiction
    rename_i t f call
    left
    split at h <;> try contradiction
    rename_i o ho
    obtain ⟨c, hc, ho⟩ := Option.bind_eq_some_iff.mp ho
    obtain ⟨d, hd, hpublished⟩ := Option.bind_eq_some_iff.mp ho
    cases h
    cases hresult : o.legacyResult with
    | ok =>
      exact ⟨_, _, .fiberOk t f call c d o hc hd hpublished hresult, setScope_self ..,
        ⟨rfl, rfl, rfl, rfl, rfl, rfl⟩⟩
    | error e =>
      exact ⟨_, _, .fiberErr t f call c d o e hc hd hpublished hresult, setScope_self ..,
        ⟨rfl, rfl, rfl, rfl, rfl, rfl⟩⟩
  case fiberReread =>
    split at h <;> try contradiction
    rename_i t f e
    cases h
    exact .inl ⟨_, _, .fiberReread t f e _ rfl, setScope_self .., ⟨rfl, rfl, rfl, rfl, rfl, rfl⟩⟩
  case workerDied panic =>
    left
    split at h <;> try contradiction
    cases h
    refine ⟨_, _, .died panic pc _ ?_, setScope_self .., ⟨rfl, rfl, rfl, rfl, rfl, rfl⟩⟩
    cases panic <;> rfl
  case finalize =>
    split at h <;> try contradiction
    rename_i result terminated
    right
    obtain ⟨r', hr', hfinal⟩ := finalize_own h
    exact ⟨result, terminated, r', rfl, rfl, hr', hfinal⟩

/-! ## One step of the Runtime, seen from one Scope -/

/-- A Scope has a disposal worker only while it is `Disposing`. -/
def Busy (rt : Runtime) : Prop :=
  ∀ s r, rt.scopes s = some r → r.worker.isSome → r.state = .Disposing

/-- What a step `l` does to the record `r` of Scope `s`. -/
inductive Turn (rt : Runtime) (s : ScopeId) (l : RuntimeLabel) (r r' : ScopeCell) : Prop
  | framed (frame : r.Frame r')
  | opened (opens : r.Opened r')
  | worked (a : ScopeLabel) (pc pc' : ScopePc) (label : l = .scope s a) (was : r.worker = some pc)
      (next : ScopePc.Next rt r a pc pc') (moved : r.At r' pc')
  | finalized (result : Outcome) (terminated : Bool) (label : l = .scope s .finalize)
      (was : r.worker = some (.finished result terminated))
      (final : r.Finalized r' result terminated)

/-- **What one step does to one Scope**: the Scope is new, or its record takes a turn. -/
theorem step_turn {l : RuntimeLabel} {r' : ScopeCell} (ht : Topology rt) (hb : Busy rt)
    (h : rt.step l = some rt') (hr' : rt'.scopes s = some r') :
    (rt.nextScope ≤ s ∧ s < rt'.nextScope ∧ r'.Blank) ∨
      ∃ r, rt.scopes s = some r ∧ Turn rt s l r r' := by
  have hframes := step_frames ht h
  by_cases hl : ∃ a, l = .scope s a
  · obtain ⟨a, rfl⟩ := hl
    right
    simp only [step] at h
    split at h <;> try contradiction
    rename_i r hr
    obtain ⟨pc, hpc, h⟩ := Option.bind_eq_some_iff.mp h
    have hbusy := hb s r hr (by rw [hpc]; rfl)
    refine ⟨r, hr, ?_⟩
    rcases stepScope_next hr (by rw [hbusy]; simp) h with ⟨pc', q, hnext, hq, hat⟩ |
      ⟨result, terminated, q, rfl, rfl, hq, hfinal⟩
    · obtain rfl : q = r' := by simpa [hq] using hr'
      exact .worked a pc pc' rfl hpc hnext hat
    · obtain rfl : q = r' := by simpa [hq] using hr'
      exact .finalized result terminated rfl hpc hfinal
  · rcases hframes.scopes s r' hr' hl with hnew | ⟨r, hr, hframe | hopened⟩
    · exact .inl hnew
    · exact .inr ⟨r, hr, .framed hframe⟩
    · exact .inr ⟨r, hr, .opened hopened⟩

theorem busy_new : Busy .new := by
  intro s r hr hw
  simp only [new] at hr
  split_ifs at hr
  cases hr
  contradiction

theorem busy_step {l : RuntimeLabel} (ht : Topology rt) (hb : Busy rt)
    (h : rt.step l = some rt') : Busy rt' := by
  intro s r' hr' hw
  rcases step_turn ht hb h hr' with ⟨-, -, hblank⟩ | ⟨r, hr, hframe | hopened |
    ⟨a, pc, pc', -, hwas, -, hat⟩ | ⟨result, terminated, -, -, hfinal⟩⟩
  · rw [hblank.worker] at hw
    contradiction
  · rw [hframe.state]
    exact hb s r hr (hframe.worker ▸ hw)
  · exact hopened.disposing
  · rw [hat.state]
    exact hb s r hr (by rw [hwas]; rfl)
  · rw [hfinal.worker] at hw
    contradiction

theorem Turn.arena {l : RuntimeLabel} {r r' : ScopeCell} (h : Turn rt s l r r')
    (hin : r'.inArena = true) : r.inArena = true := by
  cases h with
  | framed hframe => exact hframe.arena hin
  | opened hopened => exact hopened.arena hin
  | worked _ _ _ _ _ _ hat => exact hat.arena ▸ hin
  | finalized _ _ _ _ hfinal => exact hfinal.arena ▸ hin

theorem Turn.members {l : RuntimeLabel} {r r' : ScopeCell} (h : Turn rt s l r r')
    (hstate : r.state ≠ .Active) :
    (∀ x ∈ r'.children, x ∈ r.children) ∧ ∀ f ∈ r'.fibers, f ∈ r.fibers := by
  cases h with
  | framed hframe => exact ⟨hframe.children hstate, hframe.fibers hstate⟩
  | opened hopened => exact absurd hopened.active hstate
  | worked _ _ _ _ _ _ hat => rw [hat.children, hat.fibers]; exact ⟨fun _ h => h, fun _ h => h⟩
  | finalized _ _ _ _ hfinal =>
    rw [hfinal.fibers]
    exact ⟨hfinal.children, fun _ h => h⟩

theorem Turn.settled {l : RuntimeLabel} {r r' : ScopeCell} (hb : Busy rt)
    (hr : rt.scopes s = some r) (h : Turn rt s l r r')
    (hstate : r.state = .Disposed ∨ r.state = .Terminated) : r'.state = r.state := by
  have hidle : r.worker = none := by
    by_contra hne
    have := hb s r hr (Option.isSome_iff_ne_none.mpr hne)
    rw [this] at hstate
    simp at hstate
  cases h with
  | framed hframe => exact hframe.state
  | opened hopened =>
    rw [hopened.active] at hstate
    simp at hstate
  | worked _ _ _ _ hwas =>
    rw [hidle] at hwas
    contradiction
  | finalized _ _ _ hwas =>
    rw [hidle] at hwas
    contradiction

end Runtime

end Cordis
