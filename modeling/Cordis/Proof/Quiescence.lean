import Cordis.Proof.Barrier
import Cordis.Proof.StartBarrier
import Cordis.Proof.Tenancy
import Cordis.Proof.Traversal
import Cordis.Runtime.ShutdownAttempt

/-!
# Complete is final

The audit of a shutdown attempt reads one lock after the other while others go on. With admission closed everything
only winds down, so what the audit has found gone stays gone, and a complete outcome is true of every later state.
-/

namespace Cordis

open Machine

namespace Contexts

variable {w w' : Contexts} {l : ContextLabel}

/-- What every section keeps. -/
structure Grounded (w : Contexts) : Prop where
  standing : Standing w
  busy : Runtime.Busy w.runtime
  issued : ∀ id t, w.tasks id = some t → id < w.nextTask
  owned : ∀ f c, w.runtime.fibers f = some c → ∀ id ∈ c.inner.tasks,
    id < w.nextTask ∧ ∀ t, w.tasks id = some t → t.owner = f

theorem grounded_new : Grounded .new :=
  ⟨standing_new, Runtime.busy_new, fun _ _ h => (nomatch h), fun _ _ h => (nomatch h)⟩

theorem Grounded.frees (hw : Grounded w) {rt₀ : Runtime} (h : Runtime.Frees w.runtime rt₀) :
    Runtime.Topology rt₀ ∧ Runtime.Busy rt₀ ∧ (∀ f c, rt₀.fibers f = some c → c.Sound) ∧
      rt₀.admission = w.runtime.admission := by
  refine ⟨Runtime.topology_tame hw.standing.topology h.tame, ?_⟩
  rw [h.rest]
  exact ⟨hw.busy, hw.standing.sound, rfl⟩

theorem spawn_spec {i : Nat} (h : w.step (.spawn i) = some w') :
    ∃ call, w.calls i = some call ∧ w'.nextTask = w.nextTask + 1 ∧
      w'.tasks = Function.update w.tasks w.nextTask (some ⟨call.fiber, call.gate⟩) := by
  obtain ⟨⟨w₁, call⟩, h₁, rfl⟩ := Option.map_eq_some_iff.mp h
  obtain ⟨hcall, -, -, hw₁⟩ := register_spec h₁
  rw [hw₁]
  exact ⟨call, hcall, rfl, rfl⟩

theorem step_filed (hw : Grounded w) (h : w.step l = some w') {f : FiberId} {c' : FiberCell}
    (hc' : w'.runtime.fibers f = some c') {id : Nat} (hid : id ∈ c'.inner.tasks) :
    (∃ c, w.runtime.fibers f = some c ∧ id ∈ c.inner.tasks) ∨
      id = w.nextTask ∧ ∃ i call, l = .spawn i ∧ w.calls i = some call ∧ call.fiber = f := by
  rcases step_runs h with heq | ⟨rt₀, a, hruns⟩
  · rw [heq] at hc'
    exact .inl ⟨c', hc', hid⟩
  have hfibers : rt₀.fibers = w.runtime.fibers := by rw [hruns.frees.rest]
  have hfollows := Runtime.step_follows (hw.frees hruns.frees).1 hruns.step
  cases hc : rt₀.fibers f with
  | none =>
    obtain ⟨-, -, plugin?, plugin, scope, descriptor, generation, staged, -, rfl⟩ := hfollows.fresh f c' hc' hc
    cases hid
  | some c =>
    obtain ⟨d, hd, hmove⟩ := hfollows.cells f c hc
    obtain rfl := Option.some.inj (hc'.symm.trans hd)
    rw [hfibers] at hc
    rcases hmove with rfl | ⟨b, hb, hacts⟩
    · exact .inl ⟨c', hc, hid⟩
    rcases tasks_of_step hb hid with hwas | rfl
    · exact .inl ⟨c, hc, hwas⟩
    · cases hacts with
      | own answer =>
        obtain rfl := Runtime.answered_register answer
        exact .inr (hruns.spawns f id rfl)

theorem grounded_step (hw : Grounded w) (h : w.step l = some w') : Grounded w' := by
  refine ⟨standing_step hw.standing h, ?_, fun id t ht => ?_, fun f c' hc' id hid => ?_⟩
  · rcases step_runs h with heq | ⟨rt₀, a, hruns⟩
    · rw [heq]
      exact hw.busy
    · obtain ⟨ht, hbusy, -, -⟩ := hw.frees hruns.frees
      exact Runtime.busy_step ht hbusy hruns.step
  · obtain ⟨hnext, htasks⟩ := Barriers.step_tasks h
    rcases htasks id t ht with hwas | ⟨-, -, -, -, hlt, -⟩
    · exact (hw.issued id t hwas).trans_le hnext
    · exact hlt
  · obtain ⟨hnext, htasks⟩ := Barriers.step_tasks h
    rcases step_filed hw h hc' hid with ⟨c, hc, hwas⟩ | ⟨rfl, i, call, rfl, hcall, rfl⟩
    · obtain ⟨hlt, howner⟩ := hw.owned f c hc id hwas
      refine ⟨hlt.trans_le hnext, fun t ht => ?_⟩
      rcases htasks id t ht with hold | ⟨-, -, -, hnew, -⟩
      · exact howner t hold
      · exact absurd hnew hlt.ne
    · obtain ⟨call', hcall', hnew, hupdate⟩ := spawn_spec h
      obtain rfl := Option.some.inj (hcall.symm.trans hcall')
      rw [hnew, hupdate, Function.update_self]
      exact ⟨Nat.lt_succ_self _, fun t ht => by rw [← Option.some.inj ht]⟩

theorem grounded_reach (h : Reach step anyStep .new w) : Grounded w :=
  h.invariant grounded_new fun _ _ _ hw _ hs => grounded_step hw hs

/-! ## Winding down -/

/-- Nothing joins the arenas, what is `Disposed` stays so, and no task comes to be supervised. -/
structure Winds (w w' : Contexts) : Prop where
  fibers : ∀ f c', w'.runtime.fiber f = some c' →
    ∃ c, w.runtime.fiber f = some c ∧ (c.inner.state = .Disposed → c'.inner.state = .Disposed)
  scopes : ∀ s r', w'.runtime.scope s = some r' →
    ∃ r, w.runtime.scope s = some r ∧ (r.state = .Disposed → r'.state = .Disposed)
  tasks : ∀ id, w.supervised id = false → w'.supervised id = false

theorem barrier_of_step {rt rt' : Runtime} {a : RuntimeLabel} (ha : a ≠ .beginShutdown) (h : rt.step a = some rt') :
    Runtime.barrier.step rt a = some rt' := by
  cases a
  case beginShutdown => contradiction
  all_goals exact h

theorem closed_step (hw : Grounded w) (hclosed : w.runtime.admission = false) (h : w.step l = some w') :
    w'.runtime.admission = false := by
  rcases step_runs h with heq | ⟨rt₀, a, hruns⟩
  · rw [heq]
    exact hclosed
  obtain ⟨ht, -, -, hadmission⟩ := hw.frees hruns.frees
  by_cases ha : a = .beginShutdown
  · have hstep := hruns.step
    rw [ha] at hstep
    rw [← Option.some.inj hstep]
  · rw [Runtime.step_admission ht (barrier_of_step ha hruns.step), hadmission]
    exact hclosed

theorem supervised_iff {id : Nat} : w.supervised id = true ↔
    ∃ t c, w.tasks id = some t ∧ w.runtime.fibers t.owner = some c ∧ id ∈ c.inner.tasks := by
  unfold supervised
  cases w.tasks id with
  | none => simp
  | some t => cases hc : w.runtime.fibers t.owner <;> simp [hc]

theorem supervised_step (hw : Grounded w) (hclosed : w.runtime.admission = false) (h : w.step l = some w')
    {id : Nat}
    (hnone : w.supervised id = false) : w'.supervised id = false := by
  by_contra hsome
  obtain ⟨t, c', ht, hc', hid⟩ := supervised_iff.mp (by simpa using hsome)
  rcases (Barriers.step_tasks h).2 id t ht with hwas | ⟨i, call, -, -, -, -, -, -, hspawn⟩
  · rcases step_filed hw h hc' hid with ⟨c, hc, hmem⟩ | ⟨rfl, -⟩
    · rw [supervised_iff.mpr ⟨t, c, hwas, hc, hmem⟩] at hnone
      contradiction
    · exact Nat.lt_irrefl _ (hw.issued _ t hwas)
  · obtain ⟨c, b, c', -, hanswer, -, -⟩ := Runtime.fiberStep_spec hspawn
    simp [Runtime.answered, hclosed] at hanswer

theorem winds_step (hw : Grounded w) (hclosed : w.runtime.admission = false) (h : w.step l = some w') :
    Winds w w' := by
  refine ⟨fun f c' hc' => ?_, fun s r' hr' => ?_, fun id => supervised_step hw hclosed h⟩
  all_goals rcases step_runs h with heq | ⟨rt₀, a, hruns⟩
  · exact ⟨c', heq ▸ hc', id⟩
  · obtain ⟨ht, -, hsound, hadmission⟩ := hw.frees hruns.frees
    have hwanes := Runtime.wanes_step ht hsound (hadmission.trans hclosed) hruns.step
    obtain ⟨c, hc⟩ := Option.isSome_iff_exists.mp (hwanes.fibers f (Option.isSome_iff_exists.mpr ⟨c', hc'⟩))
    refine ⟨c, by rw [hruns.frees.rest] at hc; exact hc, fun hdisposed => ?_⟩
    obtain ⟨d, hd, hmove⟩ := (Runtime.step_follows ht hruns.step).cells f c (Runtime.fiber_eq_some.mp hc).1
    obtain rfl := Option.some.inj ((Runtime.fiber_eq_some.mp hc').1.symm.trans hd)
    rcases hmove with rfl | ⟨b, hb, -⟩
    · exact hdisposed
    · exact disposed_move (hsound f c (Runtime.fiber_eq_some.mp hc).1) hdisposed (step_move hb)
  · exact ⟨r', heq ▸ hr', id⟩
  · obtain ⟨ht, hbusy, hsound, hadmission⟩ := hw.frees hruns.frees
    have hwanes := Runtime.wanes_step ht hsound (hadmission.trans hclosed) hruns.step
    obtain ⟨r, hr⟩ := Option.isSome_iff_exists.mp (hwanes.scopes s (Option.isSome_iff_exists.mpr ⟨r', hr'⟩))
    refine ⟨r, by rw [hruns.frees.rest] at hr; exact hr, fun hdisposed => ?_⟩
    have hwas := (Runtime.scope_eq_some.mp hr).1
    rcases Runtime.step_turn ht hbusy hruns.step (Runtime.scope_eq_some.mp hr').1 with ⟨hlo, -⟩ | ⟨q, hq, hturn⟩
    · exact absurd (ht.scopes s r hwas).1 (Nat.not_lt.mpr hlo)
    · obtain rfl := Option.some.inj (hwas.symm.trans hq)
      rw [hturn.settled hbusy hq (.inl hdisposed)]
      exact hdisposed

/-! ## What the audit has found gone -/

/-- Every Fiber of the arena is `Disposed`, or is still to be read. -/
def FibersGone (w : Contexts) (unread : List FiberId) : Prop :=
  ∀ f c, w.runtime.fiber f = some c → f ∉ unread → c.inner.state = .Disposed

def ScopesGone (w : Contexts) : Prop :=
  ∀ s r, w.runtime.scope s = some r → s ≠ Runtime.root → r.state = .Disposed

def TasksGone (w : Contexts) : Prop := ∀ id, w.supervised id = false

theorem FibersGone.winds {unread : List FiberId} (hg : FibersGone w unread) (h : Winds w w') :
    FibersGone w' unread := by
  intro f c' hc' hread
  obtain ⟨c, hc, hstays⟩ := h.fibers f c' hc'
  exact hstays (hg f c hc hread)

theorem ScopesGone.winds (hg : ScopesGone w) (h : Winds w w') : ScopesGone w' := by
  intro s r' hr' hroot
  obtain ⟨r, hr, hstays⟩ := h.scopes s r' hr'
  exact hstays (hg s r hr hroot)

theorem TasksGone.winds (hg : TasksGone w) (h : Winds w w') : TasksGone w' := fun id => h.tasks id (hg id)

theorem fibersGone_snapshot (ht : Runtime.Topology w.runtime) : FibersGone w w.runtime.fiberIds := by
  intro f c hc hnot
  refine absurd (List.mem_filter.mpr ⟨List.mem_range.mpr (ht.fibers f c (Runtime.fiber_eq_some.mp hc).1), ?_⟩) hnot
  rw [hc]
  rfl

theorem fibersGone_record {f : FiberId} {unread : List FiberId} {hosted : Bool} {serviceHandles : Nat}
    (hg : FibersGone w (f :: unread)) (hnone : w.runtime.recordBlockers f hosted serviceHandles = []) :
    FibersGone w unread := by
  intro g c hc hread
  by_cases hgf : g = f
  · subst hgf
    by_contra hlive
    simp [Runtime.recordBlockers, (Runtime.fiber_eq_some.mp hc).1, hlive] at hnone
  · exact hg g c hc fun hmem => (List.mem_cons.mp hmem).elim hgf hread

theorem scopesGone_residue (ht : Runtime.Topology w.runtime) (hnone : w.runtime.scopeResidue = []) :
    ScopesGone w := by
  intro s r hr hroot
  by_contra hlive
  have hmem : s ∈ w.runtime.scopeResidue := by
    refine List.mem_filter.mpr ⟨List.mem_range.mpr (ht.scopes s r (Runtime.scope_eq_some.mp hr).1).1, ?_⟩
    simp [hr, hroot, hlive]
  rw [hnone] at hmem
  cases hmem

theorem tasksGone_count (hw : Grounded w) (hnone : w.LiveFiberTasks 0) : TasksGone w := by
  intro id
  by_contra hsome
  obtain ⟨t, c, ht, -⟩ := supervised_iff.mp (by simpa using hsome)
  have hzero := List.countP_eq_zero.mp (Nat.le_zero.mp hnone.1)
  exact hzero id (List.mem_range.mpr (hw.issued id t ht)) (by simpa using hsome)

end Contexts

/-- What the audit has made sure of by now, if it has found nothing. -/
def AuditPc.Found (w : Contexts) : AuditPc → Prop
  | .snapshot => True
  | .fibers _ unread => w.FibersGone unread
  | .scopes _ => w.FibersGone []
  | .workers .. | .tasks .. => w.FibersGone [] ∧ w.ScopesGone
  | .reloads .. | .pending .. | .staging .. => w.FibersGone [] ∧ w.ScopesGone ∧ w.TasksGone

def AttemptPc.Found (w : Contexts) (blockers : List ShutdownBlocker) : AttemptPc → Prop
  | .audit pc => blockers = [] → pc.Found w
  | .ended o => o.isIncomplete = false → w.FibersGone [] ∧ w.ScopesGone ∧ w.TasksGone
  | _ => True

theorem AuditPc.Found.winds {w w' : Contexts} {pc : AuditPc} (hpc : pc.Found w) (h : w.Winds w') : pc.Found w' := by
  cases pc with
  | snapshot => trivial
  | fibers | scopes => exact Contexts.FibersGone.winds hpc h
  | workers | tasks => exact ⟨hpc.1.winds h, hpc.2.winds h⟩
  | reloads | pending | staging => exact ⟨hpc.1.winds h, hpc.2.1.winds h, hpc.2.2.winds h⟩

theorem AttemptPc.Found.winds {w w' : Contexts} {pc : AttemptPc} {blockers : List ShutdownBlocker}
    (hpc : pc.Found w blockers) (h : w.Winds w') : pc.Found w' blockers := by
  cases pc with
  | audit pc => exact fun hnone => (hpc hnone).winds h
  | ended o =>
    intro hcomplete
    obtain ⟨hfibers, hscopes, htasks⟩ := hpc hcomplete
    exact ⟨hfibers.winds h, hscopes.winds h, htasks.winds h⟩
  | _ => trivial

namespace ShutdownAttempt

variable {s t : ShutdownAttempt} {w : Contexts}

structure Truthful (s : ShutdownAttempt) : Prop where
  grounded : s.contexts.Grounded
  closed : s.pc ≠ .opening → s.contexts.runtime.admission = false
  found : s.pc.Found s.contexts s.blockers

theorem Truthful.goes (hs : Truthful s) (hopened : s.pc ≠ .opening) {pc : AttemptPc} {issues : List CleanupIssue}
    {blockers : List ShutdownBlocker} (hfound : pc.Found s.contexts blockers) :
    Truthful ⟨s.contexts, pc, issues, blockers⟩ :=
  ⟨hs.grounded, fun _ => hs.closed hopened, hfound⟩

theorem Truthful.calls (hs : Truthful s) (hopened : s.pc ≠ .opening) {l : ContextLabel}
    (h : s.contexts.step l = some w) {pc : AttemptPc} {issues : List CleanupIssue}
    (hfound : pc.Found w s.blockers) : Truthful ⟨w, pc, issues, s.blockers⟩ :=
  ⟨Contexts.grounded_step hs.grounded h, fun _ => Contexts.closed_step hs.grounded (hs.closed hopened) h, hfound⟩

theorem truthful_contexts (hs : Truthful s) {l : ContextLabel} (h : s.contexts.step l = some w) :
    Truthful { s with contexts := w } := by
  by_cases hopened : s.pc = .opening
  · refine ⟨Contexts.grounded_step hs.grounded h, fun hne => absurd hopened hne, ?_⟩
    show s.pc.Found w s.blockers
    rw [hopened]
    trivial
  · exact hs.calls hopened h (hs.found.winds (Contexts.winds_step hs.grounded (hs.closed hopened) h))

theorem truthful_callScope (hs : Truthful s) (hopened : s.pc ≠ .opening) {x : ScopeId} {waiting failed : AttemptPc}
    (hwaiting : ∀ w blockers, waiting.Found w blockers) (hfailed : ∀ w blockers, failed.Found w blockers)
    (h : s.callScope x waiting failed = some t) : Truthful t := by
  obtain ⟨w, hw, rfl⟩ := Option.map_eq_some_iff.mp h
  split
  · exact hs.calls hopened hw (hwaiting ..)
  · exact hs.calls hopened hw (hfailed ..)

theorem truthful_callFiber (hs : Truthful s) (hopened : s.pc ≠ .opening) {f : FiberId} {waiting : Nat → AttemptPc}
    {failed : AttemptPc} (hwaiting : ∀ call w blockers, (waiting call).Found w blockers)
    (hfailed : ∀ w blockers, failed.Found w blockers) (h : s.callFiber f waiting failed = some t) : Truthful t := by
  obtain ⟨w, hw, rfl⟩ := Option.map_eq_some_iff.mp h
  split
  · exact hs.calls hopened hw (hwaiting ..)
  · exact hs.calls hopened hw (hfailed ..)

theorem outcome_complete (h : s.outcome.isIncomplete = false) : s.blockers = [] := by
  unfold outcome at h
  split_ifs at h with hnone
  · exact List.isEmpty_iff.mp hnone
  · exact List.isEmpty_iff.mp hnone
  · cases h

theorem truthful_audit {pc : AuditPc} (hs : Truthful s) (hpc : s.pc = .audit pc) (h : s.advanceAudit pc = some t) :
    Truthful t := by
  have hopened : s.pc ≠ .opening := by simp [hpc]
  have hfound : s.blockers = [] → pc.Found s.contexts := by
    have := hs.found
    rwa [hpc] at this
  unfold advanceAudit at h
  split at h <;> cases h
  · exact hs.goes hopened fun _ => Contexts.fibersGone_snapshot hs.grounded.standing.topology
  · exact hs.goes hopened fun hnone => hfound (List.append_eq_nil_iff.mp hnone).1
  · refine hs.goes hopened fun hnone => ?_
    obtain ⟨hnone, hresidue⟩ := List.append_eq_nil_iff.mp hnone
    exact ⟨hfound hnone,
      Contexts.scopesGone_residue hs.grounded.standing.topology (List.map_eq_nil_iff.mp hresidue)⟩
  · exact hs.goes hopened hfound
  · refine hs.goes hopened fun hcomplete => ?_
    have hnone := outcome_complete hcomplete
    exact hfound (List.append_eq_nil_iff.mp hnone).1

theorem truthful_advance (hs : Truthful s) (h : s.advance = some t) : Truthful t := by
  have hopened : ∀ {pc}, s.pc = pc → pc ≠ .opening → s.pc ≠ .opening := fun hpc hne => hpc ▸ hne
  unfold advance at h
  cases hpc : s.pc with
  | opening =>
    simp only [hpc] at h
    obtain ⟨w, hw, rfl⟩ := Option.map_eq_some_iff.mp h
    refine ⟨Contexts.grounded_step hs.grounded hw, fun _ => ?_, trivial⟩
    simp only [Contexts.step] at hw
    split_ifs at hw
    obtain ⟨rt, hrt, rfl⟩ := Option.map_eq_some_iff.mp hw
    cases hrt
    rfl
  | rootCall =>
    simp only [hpc] at h
    refine truthful_callScope hs (hopened hpc (by simp)) ?_ ?_ h <;> exact fun _ _ => trivial
  | rootWaiting | scopeWaiting =>
    simp only [hpc] at h
    obtain ⟨o, -, rfl⟩ := Option.map_eq_some_iff.mp h
    exact hs.goes (hopened hpc (by simp)) trivial
  | joining | fiberSnapshot =>
    simp only [hpc] at h
    cases h
    exact hs.goes (hopened hpc (by simp)) trivial
  | round n =>
    simp only [hpc] at h
    split_ifs at h <;> cases h <;> exact hs.goes (hopened hpc (by simp)) trivial
  | scopeCalls n quiet left =>
    simp only [hpc] at h
    cases left with
    | nil =>
      cases h
      exact hs.goes (hopened hpc (by simp)) trivial
    | cons x left =>
      refine truthful_callScope hs (hopened hpc (by simp)) ?_ ?_ h <;> exact fun _ _ => trivial
  | fibersRead n quiet alive unread =>
    simp only [hpc] at h
    cases unread <;> cases h <;> exact hs.goes (hopened hpc (by simp)) trivial
  | fiberCalls n quiet left =>
    simp only [hpc] at h
    cases left with
    | nil =>
      cases h
      refine hs.goes (hopened hpc (by simp)) ?_
      cases quiet <;> trivial
    | cons f left =>
      simp only [] at h
      split_ifs at h <;> cases h <;> exact hs.goes (hopened hpc (by simp)) trivial
  | fiberFound n quiet left f =>
    simp only [hpc] at h
    refine truthful_callFiber hs (hopened hpc (by simp)) ?_ ?_ h <;> exact fun _ => by intros; trivial
  | fiberWaiting =>
    simp only [hpc] at h
    obtain ⟨-, -, rfl⟩ := Option.map_eq_some_iff.mp h
    exact hs.goes (hopened hpc (by simp)) trivial
  | collecting =>
    simp only [hpc] at h
    cases h
    exact hs.goes (hopened hpc (by simp)) fun _ => trivial
  | audit pc =>
    simp only [hpc] at h
    exact truthful_audit hs hpc h
  | ended =>
    simp only [hpc] at h
    cases h

theorem truthful_step {l : AttemptLabel} (hs : Truthful s) (h : s.step l = some t) : Truthful t := by
  cases l with
  | contexts l =>
    obtain ⟨w, hw, rfl⟩ := Option.map_eq_some_iff.mp h
    exact truthful_contexts hs hw
  | advance => exact truthful_advance hs h
  | deadline =>
    simp only [step] at h
    split at h <;> cases h
    all_goals
      rename_i hpc
      exact hs.goes (by simp [hpc]) trivial
  | record hosted serviceHandles =>
    simp only [step] at h
    split at h <;> cases h
    rename_i all f unread hpc
    refine hs.goes (by simp [hpc]) fun hnone => ?_
    obtain ⟨hnone, hrecord⟩ := List.append_eq_nil_iff.mp hnone
    have hfound := hs.found
    rw [hpc] at hfound
    exact Contexts.fibersGone_record (hfound hnone) hrecord
  | counter n =>
    have hfound := hs.found
    simp only [step] at h
    split at h
    case h_5 => cases h
    all_goals
      rename_i hpc
      rw [hpc] at hfound
    case h_2 =>
      obtain ⟨hlive, h⟩ := Option.ite_none_right_eq_some.mp h
      cases h
      refine hs.goes (by simp [hpc]) fun hnone => ?_
      obtain ⟨hnone, hcount⟩ := List.append_eq_nil_iff.mp hnone
      obtain ⟨hfibers, hscopes⟩ := hfound hnone
      have hzero : n = 0 := by
        by_contra hne
        rw [if_pos hne] at hcount
        cases hcount
      exact ⟨hfibers, hscopes, Contexts.tasksGone_count hs.grounded (hzero ▸ hlive)⟩
    all_goals
      cases h
      refine hs.goes (by simp [hpc]) fun hnone => ?_
    · exact hfound (List.append_eq_nil_iff.mp hnone).1
    · exact hfound hnone
    · exact hfound (List.append_eq_nil_iff.mp hnone).1

theorem truthful_start (hw : Reach Contexts.step anyStep .new w) : Truthful (start w) :=
  ⟨Contexts.grounded_reach hw, fun hne => absurd rfl hne, trivial⟩

theorem truthful_reach (hw : Reach Contexts.step anyStep .new w) (h : Reach step anyStep (start w) s) :
    Truthful s :=
  h.invariant (truthful_start hw) fun _ _ _ hs _ hstep => truthful_step hs hstep

end ShutdownAttempt

/-! ## Complete means complete -/

/-- What is left in the arenas is `Disposed` and owns nothing that goes on. -/
structure Contexts.Quiescent (w : Contexts) : Prop where
  closed : w.runtime.admission = false
  fibers : ∀ f c, w.runtime.fiber f = some c → c.inner.state = .Disposed ∧
    c.inner.capabilities.execution.inflight = 0 ∧ c.inner.childScopes = [] ∧ c.inner.handlers = [] ∧
    c.inner.invocationHandlers = [] ∧ c.inner.invocationMiddleware = [] ∧ c.inner.provided = [] ∧
    c.inner.effects = [] ∧ ∀ id ∈ c.inner.tasks, w.tasks id = none
  scopes : ∀ s r, w.runtime.scope s = some r → s ≠ Runtime.root → r.state = .Disposed
  tasks : ∀ id, w.supervised id = false
  calls : ∀ i call, w.calls i = some call → (w.runtime.fiber call.fiber).isSome → call.stage = .captured

namespace ShutdownAttempt

theorem ended_step {s s' : ShutdownAttempt} {l : AttemptLabel} {o : ShutdownOutcome} (hended : s.pc = .ended o)
    (h : s.step l = some s') : s'.pc = .ended o := by
  cases l with
  | contexts l =>
    obtain ⟨w, -, rfl⟩ := Option.map_eq_some_iff.mp h
    exact hended
  | advance | deadline | record | counter =>
    simp only [step, advance, hended] at h
    contradiction

theorem ended_reach {s t : ShutdownAttempt} {o : ShutdownOutcome} (hended : s.pc = .ended o)
    (h : Reach step anyStep s t) : t.pc = .ended o :=
  h.invariant (I := fun t => t.pc = .ended o) hended fun _ _ _ hs _ hstep => ended_step hs hstep

theorem quiescent_of_ended {w : Contexts} {s : ShutdownAttempt} {o : ShutdownOutcome}
    (hw : Reach Contexts.step anyStep .new w) (h : Reach step anyStep (.start w) s)
    (hended : s.pc = .ended o) (hcomplete : o.isIncomplete = false) : s.contexts.Quiescent := by
  have hs := truthful_reach hw h
  have hfound := hs.found
  rw [hended] at hfound
  obtain ⟨hfibers, hscopes, htasks⟩ := hfound hcomplete
  have hstanding := hs.grounded.standing
  have hcleared : ∀ f c, s.contexts.runtime.fiber f = some c → ∀ n, 2 ≤ n → n ≤ 7 → c.inner.Cleared n := by
    intro f c hc n hn hn'
    have hwas := (Runtime.fiber_eq_some.mp hc).1
    have hdisposed := hfibers f c hc List.not_mem_nil
    exact hstanding.complete hwas ((hstanding.sound f c hwas).consistent.disposed hdisposed).2.1 hn hn'
  refine ⟨hs.closed (by simp [hended]), fun f c hc => ?_, hscopes, htasks, fun i call hcall hsome => ?_⟩
  · have hclear := hcleared f c hc
    have hended : ∀ id ∈ c.inner.tasks, s.contexts.tasks id = none := by
      intro id hid
      by_contra hlive
      obtain ⟨t, ht⟩ := Option.ne_none_iff_exists'.mp hlive
      have hwas := (Runtime.fiber_eq_some.mp hc).1
      have howner := (hs.grounded.owned f c hwas id hid).2 t ht
      have hnone := htasks id
      rw [Contexts.supervised_iff.mpr ⟨t, c, ht, howner ▸ hwas, hid⟩] at hnone
      contradiction
    exact ⟨hfibers f c hc List.not_mem_nil, hclear 3 (by decide) (by decide), hclear 4 (by decide) (by decide),
      (hclear 5 (by decide) (by decide)).1, (hclear 5 (by decide) (by decide)).2.1,
      (hclear 5 (by decide) (by decide)).2.2, hclear 6 (by decide) (by decide), hclear 7 (by decide) (by decide),
      hended⟩
  · obtain ⟨c, hc⟩ := Option.isSome_iff_exists.mp hsome
    by_contra hstage
    have hpos := hstanding.inflight (Runtime.fiber_eq_some.mp hc).1
      (Contexts.holds_iff.mpr ⟨call, hcall, rfl, hstage⟩)
    rw [hcleared _ c hc 3 (by decide) (by decide)] at hpos
    contradiction

end ShutdownAttempt

/-- **Complete means complete, and for good.** An attempt may start in any state a run can reach, and others may do
anything while it reads one record and one counter after the other. Once it has answered `Complete` or
`CompleteWithIssues`, admission is closed, what is left in the arenas is `Disposed` and owns nothing that goes on, and
so it stays. -/
theorem complete_shutdown_lasts {w : Contexts} {s t : ShutdownAttempt} {o : ShutdownOutcome}
    (hw : Reach Contexts.step anyStep .new w) (h : Reach ShutdownAttempt.step anyStep (.start w) s)
    (hended : s.pc = .ended o) (hcomplete : o.isIncomplete = false)
    (hlater : Reach ShutdownAttempt.step anyStep s t) : t.contexts.Quiescent :=
  ShutdownAttempt.quiescent_of_ended hw (h.trans hlater) (ShutdownAttempt.ended_reach hended hlater) hcomplete

namespace ShutdownAttempt

/-- The root Scope is disposed with Fiber 0, which serves. -/
def rootDisposal : List RuntimeLabel :=
  [.scope 0 .copy, .scope 0 .visit, .scope 0 .fiberLookup, .scope 0 .fiberCall] ++
  Runtime.sections 0 [.workerLookup, .workerLock, .takeTasks, .tasksJoined (.ok ()), .drained, .pickChild,
    .unregister, .unregister, .unregister, .unregister, .withdraw, .withdrawLook true, .withdrawRemove, .withdraw,
    .takeEffect, .readTarget, .reconciled (.ok ()), .report, .finalizeBegin, .indexCleanup, .finalizeCommit] ++
  [.scope 0 .fiberReturned, .scope 0 .visit, .scope 0 .finalize]

/-- The first round finds nothing, and the audit follows. -/
def completeRun : List AttemptLabel :=
  [.advance, .advance] ++ rootDisposal.map (.contexts ∘ .runtime) ++ List.replicate 10 .advance ++
  [.record false 0, .advance, .advance, .counter 0, .counter 0, .counter 0, .counter 0, .advance, .advance]

/-- The attempt has ended with a complete outcome. -/
def complete (s : ShutdownAttempt) : Bool :=
  match s.pc with
  | .ended o => !o.isIncomplete
  | _ => false

end ShutdownAttempt

theorem complete_shutdown_lasts_serving :
    ∃ w s, Reach Contexts.step anyStep .new w ∧ Reach ShutdownAttempt.step anyStep (.start w) s ∧
      (w.runtime.fiber 0).any (fun c => c.inner.provided = [7]) = true ∧
      ∀ t, Reach ShutdownAttempt.step anyStep s t → t.contexts.Quiescent := by
  have hrun : ((run Contexts.step .new (Contexts.servingRun ++ [.runtime (.fiber 0 (.activationRelease 0))])).any
      fun w => (w.runtime.fiber 0).any (fun c => c.inner.provided = [7]) &&
        (run ShutdownAttempt.step (.start w) ShutdownAttempt.completeRun).any (·.complete)) = true := by
    decide +kernel
  obtain ⟨w, hw, hrun⟩ := (Option.any_eq_true _ _).mp hrun
  obtain ⟨hserves, hrun⟩ := Bool.and_eq_true_iff.mp hrun
  obtain ⟨s, hs, hcomplete⟩ := (Option.any_eq_true _ _).mp hrun
  refine ⟨w, s, reach_of_run hw, reach_of_run hs, hserves, ?_⟩
  unfold ShutdownAttempt.complete at hcomplete
  cases hpc : s.pc with
  | ended o =>
    rw [hpc] at hcomplete
    exact fun _ => complete_shutdown_lasts (reach_of_run hw) (reach_of_run hs) hpc (by simpa using hcomplete)
  | _ =>
    rw [hpc] at hcomplete
    cases hcomplete

end Cordis
