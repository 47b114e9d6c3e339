import Cordis.Proof.Members
import Cordis.Proof.Traversal

/-!
# A disposed Scope is dead

The disposal worker of a Scope works through copies of the membership lists and trusts what its
calls report. Three sections can make that trust misplaced: the dispose call joins a round that ends,
or has ended, in a dependency restart; the re-read after a failed call takes `WaitingDependencies` for
a committed disposal; and `install_arc` parks a Fiber whose disposal has already been taken off the
list. In a run that keeps clear of the three (`Attentive`) everything a worker is done with is dead
for good.
-/

namespace Cordis

open Machine

variable {c c' : FiberCell} {l : FiberLabel} {k : Control}

/-! ## A Fiber whose disposal is past its body -/

/-- The Fiber is off the membership list; the last section of its disposal is all that is left. -/
def FiberCell.Leaving (c : FiberCell) : Prop :=
  c.inner.state = .Disposing ∧ ∃ result, c.worker = some (.indexed result (some .Disposed) false)

/-- The finalizer of a Fiber cleans the indexes only while the Fiber is `Disposing`. -/
def FiberCell.Closing (c : FiberCell) : Prop :=
  ∀ result target b s, c.worker = some (.finalizing result target b (some s)) →
    c.inner.state = .Disposing

theorem disposing_move {pc : DisposalPc} (hc : c.Sound) (hstate : c.inner.state = .Disposing)
    (hw : c.worker = some pc) (hearly : pc.early = false) (hopen : pc.terminated = false)
    (hl : l ≠ .installWait) (hm : Move l c k) :
    (k.state = .Disposing ∧ (k.worker = some pc ∨ ∃ pc', k.worker = some pc' ∧
      DisposalPc.Next c pc pc')) ∨
    c.inArena = false ∨
    ∃ result target, pc = .indexed result target false ∧ k.state = target.getD .Disposing := by
  have hbusy : c.inner.disposal.phase ≠ .Idle := by
    intro hidle
    have := hc.consistent.running pc hw
    rw [show c.control.phase = .Idle from hidle] at this
    contradiction
  cases hm with
  | quiet => exact .inl ⟨hstate, .inl hw⟩
  | start s' hfrom =>
    rcases hfrom with rfl | ⟨hs, -⟩
    · exact .inl ⟨hstate, .inl hw⟩
    · rw [hstate] at hs
      simp at hs
  | restart s' hwaiting =>
    rw [hstate] at hwaiting
    contradiction
  | deferred n _ hpc =>
    rcases (hc.shielded n _ hpc rfl).2 pc hw with h | h
    · rw [hearly] at h
      contradiction
    · rw [hopen] at h
      contradiction
  | parked hlabel => exact absurd hlabel hl
  | written s' hlegal hnext => exact absurd hstate (ne_disposing_of_written hlegal hnext)
  | failed s' hnext =>
    rcases hnext with rfl | ⟨hs, -⟩
    · exact .inl ⟨hstate, .inl hw⟩
    · rw [hstate] at hs
      contradiction
  | refused => exact .inl ⟨hstate, .inl hw⟩
  | joined => exact .inl ⟨hstate, .inl hw⟩
  | requested _ _ _ _ hidle => exact absurd hidle hbusy
  | worked p p' _ _ hwas hnext =>
    obtain rfl : pc = p := by simpa [hw] using hwas
    exact .inl ⟨hstate, .inr ⟨p', rfl, hnext⟩⟩
  | gaveUp _ _ hgone => exact .inr (.inl hgone)
  | finalized result target terminated hwas =>
    obtain rfl : pc = .indexed result target terminated := by simpa [hw] using hwas
    obtain rfl : terminated = false := hopen
    exact .inr (.inr ⟨result, target, rfl, by simp [hstate]⟩)

theorem closing_step (hc : c.Sound) (hclosing : c.Closing)
    (hl : l = .installWait → c.inner.state ≠ .Disposing) (h : c.step l = some c')
    (hin : c'.inArena = true) : c'.Closing := by
  intro result target b s hw'
  have hin' : c.inArena = true := (step_same h).arena hin
  have hm := step_move h
  have hkept : c.worker = c'.worker → c'.inner.state = .Disposing := by
    intro hsame
    have hw := hsame.trans hw'
    have hstate := hclosing result target b s hw
    have hopen := ((hc.consistent.faithful _ hw).2 rfl).2
    subst hopen
    rcases disposing_move hc hstate hw rfl rfl (fun h => hl h hstate) hm with
      ⟨hs, -⟩ | hgone | ⟨_, _, hpc, -⟩
    · exact hs
    · rw [hin'] at hgone
      contradiction
    · contradiction
  generalize hk : c'.control = k at hm
  have hwk : k.worker = some (.finalizing result target b (some s)) := by
    rw [← hk]
    exact hw'
  cases hm with
  | worked p p' _ _ _ hnext =>
    obtain rfl : p' = .finalizing result target b (some s) := Option.some.inj hwk
    have hstate := hnext.clears result target b s rfl
    have : c'.control.state = .Disposing := by
      rw [hk]
      exact hstate
    exact this
  | requested => simp at hwk
  | gaveUp => simp at hwk
  | finalized => simp at hwk
  | _ => exact hkept (by rw [show c'.worker = c'.control.worker from rfl, hk]; rfl)

theorem leaving_step (hc : c.Sound) (hleaving : c.Leaving)
    (hl : l = .installWait → c.inner.state ≠ .Disposing) (h : c.step l = some c')
    (hin : c'.inArena = true) : c'.inner.state = .Disposed ∨ c'.Leaving := by
  obtain ⟨hstate, result, hw⟩ := hleaving
  have hin' : c.inArena = true := (step_same h).arena hin
  rcases disposing_move hc hstate hw rfl rfl (fun h => hl h hstate) (step_move h) with
    ⟨hs, hsame | ⟨pc', -, hnext⟩⟩ | hgone | ⟨r, target, hpc, hs⟩
  · exact .inr ⟨hs, result, hsame⟩
  · exact absurd rfl (hnext.unfinished result (some .Disposed) false)
  · rw [hin'] at hgone
    contradiction
  · cases hpc
    exact .inl hs

/-! ## Dispose calls -/

theorem calls_move {n : Nat} {d : DisposeCall} (hc : c.control.Consistent) (hm : Move l c k)
    (hd : c.calls n = some d) : k.calls n = some d := by
  have hn : n ≠ c.nextCall := by
    rintro rfl
    have := hc.uncalled c.nextCall le_rfl
    rw [show c.control.calls c.nextCall = some d from hd] at this
    contradiction
  cases hm with
  | joined => exact (Function.update_of_ne hn _ _).trans hd
  | requested => exact (Function.update_of_ne hn _ _).trans hd
  | _ => exact hd

theorem dispose_call {w p a : Bool} {n : Nat} (h : c.dispose w p a = (c', .ok n)) : ∃ d, c'.calls n = some d := by
  unfold FiberCell.dispose at h
  split at h <;> cases h
  exact ⟨_, Function.update_self ..⟩

theorem dispose_owes {p a : Bool} {n : Nat} (hc : c.Sound) (hjoin : ¬ c.JoinsRestart)
    (h : c.dispose false p a = (c', .ok n)) :
    ∃ d, c'.calls n = some d ∧ c'.control.Owes d.round := by
  unfold FiberCell.dispose FiberMutable.requestDisposal at h
  split_ifs at h with hown hidle hlegal
  all_goals
    injection h with hcell hcall
    injection hcall
  · subst hcell
    rename_i hcall
    subst hcall
    have hopen : c.published c.inner.disposal.completion = none :=
      hc.consistent.unpublished (.inl hidle)
    refine ⟨_, Function.update_self .., fun o ho => ?_,
        fun _ => ⟨?_, by simp [FiberCell.control, DisposalPc.target]⟩⟩
    · exact absurd (hopen.symm.trans ho) (by simp)
    · simp [FiberCell.control]
  · subst hcell
    rename_i hcall
    subst hcall
    refine ⟨_, Function.update_self .., owes_joined hc hjoin ?_ rfl rfl rfl⟩
    simp [FiberCell.control]

/-! ## What a worker has left to do -/

/-- The traversal of a worker with the member it is busy with put back; `none` before the copy. -/
def ScopePc.left : ScopePc → Option Traversal
  | copying => none
  | visiting t => some t
  | childWaiting t child | childFailed t child _ => some { t with children := t.children ++ [child] }
  | fiberSeen t f | fiberFound t f | fiberWaiting t f _ | fiberFailed t f _ =>
    some { t with fibers := t.fibers ++ [f] }
  | finished _ terminated => some ⟨[], [], false, [], terminated⟩

/-- The Fiber that a worker is busy with. -/
def ScopePc.fiber : ScopePc → Option FiberId
  | fiberSeen _ f | fiberFound _ f | fiberWaiting _ f _ | fiberFailed _ f _ => some f
  | _ => none

namespace Runtime

variable {rt rt' : Runtime} {f : FiberId} {s : ScopeId} {r r' : ScopeCell}

/-- The Fiber that the worker of Scope `s` is busy with, as the arena has it. -/
def visited (rt : Runtime) (s : ScopeId) : Option FiberCell :=
  (((rt.scopes s).bind (·.worker)).bind (·.fiber)).bind rt.fiber

/-- The section does not put misplaced trust in a disposal. -/
def Attentive (rt : Runtime) : RuntimeLabel → Prop
  | .fiber f .installWait => ∀ c ∈ rt.fibers f, c.inner.state ≠ .Disposing
  | .scope s .fiberCall => ∀ c ∈ rt.visited s, ¬ c.JoinsRestart
  | .scope s .fiberReread => ∀ c ∈ rt.visited s, c.inner.state ≠ .WaitingDependencies
  | _ => True

instance (rt : Runtime) (l : RuntimeLabel) : Decidable (rt.Attentive l) := by
  unfold Attentive
  split <;> infer_instance

/-- Fiber `f` is `Disposed` or reclaimed. -/
structure Dead (rt : Runtime) (f : FiberId) : Prop where
  known : f < rt.nextFiber
  disposed : ∀ c, rt.fiber f = some c → c.inner.state = .Disposed

/-- Scope `s` is `Disposed` or reclaimed. -/
structure DeadScope (rt : Runtime) (s : ScopeId) : Prop where
  known : s < rt.nextScope
  disposed : ∀ r, rt.scope s = some r → r.state = .Disposed

/-- Every member of `r` that a worker at `pc` has not left to do is dead. -/
def Covered (rt : Runtime) (r : ScopeCell) (pc : ScopePc) : Prop :=
  ∀ t, pc.left = some t → t.terminated = false →
    (∀ x ∈ r.children, x ∈ t.children ∨ rt.DeadScope x) ∧
      ∀ f ∈ r.fibers, f ∈ t.fibers ∨ rt.Dead f

/-- The Scope that Fiber `c` is bound to lists it, unless its disposal is over or about to be. -/
def Bound (rt : Runtime) (f : FiberId) (c : FiberCell) : Prop :=
  (∃ r, rt.scopes c.inner.scope = some r ∧ f ∈ r.fibers) ∨ c.inner.state = .Disposed ∨ c.Leaving

/-- A Scope reports success only when it is `Disposed`. -/
def Faithful (rt : Runtime) : Prop :=
  ∀ s r o, rt.scopes s = some r → r.published = some o → o.legacyResult = .ok () → r.state = .Disposed

/-- What holds in every attentive run. -/
structure Guarded (rt : Runtime) : Prop where
  topology : Topology rt
  busy : Busy rt
  sound : ∀ f c, rt.fibers f = some c → c.Sound
  closing : ∀ f c, rt.fiber f = some c → c.Closing
  bound : ∀ f c, rt.fiber f = some c → Bound rt f c
  truthful : Faithful rt
  owed : ∀ s r t f call, rt.scopes s = some r → r.worker = some (.fiberWaiting t f call) →
    ∃ c d, rt.fibers f = some c ∧ c.calls call = some d ∧ (c.inArena = true → c.control.Owes d.round)
  covered : ∀ s r pc, rt.scopes s = some r → r.worker = some pc → Covered rt r pc
  buried : ∀ s r, rt.scopes s = some r → r.state = .Disposed →
    (∀ f ∈ r.fibers, rt.Dead f) ∧ ∀ x ∈ r.children, rt.DeadScope x

/-! ## What is dead stays dead -/

/-- A Fiber of the arena after a step is new, or was there and took an attentive step. -/
theorem Guarded.cell {l : RuntimeLabel} (hg : Guarded rt) (hok : rt.Attentive l)
    (h : rt.step l = some rt') (hc' : rt'.fiber f = some c') :
    rt.fibers f = none ∨ ∃ c, rt.fiber f = some c ∧ (c' = c ∨ ∃ a, c.step a = some c' ∧
      (a = .installWait → c.inner.state ≠ .Disposing)) := by
  obtain ⟨hcell, hin⟩ := fiber_eq_some.mp hc'
  cases hc : rt.fibers f with
  | none => exact .inl rfl
  | some c =>
    obtain ⟨d, hd, hstep⟩ := (step_evolves hg.topology h).cells f c hc
    obtain rfl : c' = d := by simpa [hcell] using hd
    rcases hstep with rfl | ⟨a, ha, hruns⟩
    · exact .inr ⟨c', fiber_eq_some.mpr ⟨hc, hin⟩, .inl rfl⟩
    · refine .inr ⟨c, fiber_eq_some.mpr ⟨hc, (step_same ha).arena hin⟩, .inr ⟨a, ha, ?_⟩⟩
      rintro rfl
      obtain rfl := hruns.blind rfl
      exact hok c hc

theorem Guarded.dead {l : RuntimeLabel} (hg : Guarded rt) (hok : rt.Attentive l)
    (h : rt.step l = some rt') (hd : rt.Dead f) : rt'.Dead f where
  known := Nat.lt_of_lt_of_le hd.known (step_evolves hg.topology h).next
  disposed := fun c' hc' => by
    rcases hg.cell hok h hc' with hnone | ⟨c, hc, rfl | ⟨a, ha, -⟩⟩
    · have hnew := (step_evolves hg.topology h).fresh f c' (fiber_eq_some.mp hc').1 hnone
      exact absurd hnew.1 (Nat.ne_of_lt hd.known)
    · exact hd.disposed c' hc
    · exact disposed_move (hg.sound f c (fiber_eq_some.mp hc).1) (hd.disposed c hc) (step_move ha)

theorem Guarded.deadScope {l : RuntimeLabel} (hg : Guarded rt) (h : rt.step l = some rt')
    (hd : rt.DeadScope s) : rt'.DeadScope s where
  known := Nat.lt_of_lt_of_le hd.known (step_frames hg.topology h).next
  disposed := fun r' hr' => by
    obtain ⟨hrecord, hin⟩ := scope_eq_some.mp hr'
    rcases step_turn hg.topology hg.busy h hrecord with ⟨hnew, -, -⟩ | ⟨r, hr, hturn⟩
    · exact absurd hd.known (Nat.not_lt_of_le hnew)
    · have hdisposed := hd.disposed r (scope_eq_some.mpr ⟨hr, hturn.arena hin⟩)
      exact (hturn.settled hg.busy hr (.inl hdisposed)).trans hdisposed

theorem Guarded.covers {l : RuntimeLabel} {pc : ScopePc} (hg : Guarded rt) (hok : rt.Attentive l)
    (h : rt.step l = some rt') (hchildren : ∀ x ∈ r'.children, x ∈ r.children)
    (hfibers : ∀ f ∈ r'.fibers, f ∈ r.fibers) (hc : Covered rt r pc) : Covered rt' r' pc := by
  intro t ht hopen
  obtain ⟨hcovers, hcovers'⟩ := hc t ht hopen
  exact ⟨fun x hx => (hcovers x (hchildren x hx)).imp_right (hg.deadScope h),
    fun f hf => (hcovers' f (hfibers f hf)).imp_right (hg.dead hok h)⟩

/-! ## One section of a worker -/

theorem mem_dropLast_or {l : List Nat} {a x : Nat} (hlast : l.getLast? = some a) (hx : x ∈ l) :
    x ∈ l.dropLast ∨ x = a := by
  rw [← List.dropLast_append_getLast? a hlast] at hx
  simpa using hx

/-- **A worker stays covered**: what it drops from its lists is dead. -/
theorem covered_next {a : ScopeLabel} {pc pc' : ScopePc} (hg : Guarded rt)
    (hr : rt.scopes s = some r) (hwas : r.worker = some pc) (hok : rt.Attentive (.scope s a))
    (hnext : ScopePc.Next rt r a pc pc') : Covered rt r pc' := by
  have hcovered := hg.covered s r pc hr hwas
  obtain ⟨-, -, hbelow, hmembers⟩ := hg.topology.scopes s r hr
  intro t' ht' hopen
  cases hnext with
  | copied =>
    cases ht'
    exact ⟨fun x hx => .inl hx, fun f hf => .inl hf⟩
  | lost => cases ht'; contradiction
  | died => cases ht'; contradiction
  | childAsked t child hlast =>
    cases ht'
    obtain ⟨hchildren, hfibers⟩ := hcovered t rfl hopen
    refine ⟨fun x hx => (hchildren x hx).imp_left fun hx => ?_, hfibers⟩
    exact List.mem_append.mpr ((mem_dropLast_or hlast hx).imp_right List.mem_singleton.mpr)
  | childMissing t child hlast =>
    cases ht'
    obtain ⟨hchildren, hfibers⟩ := hcovered t rfl hopen
    refine ⟨fun x hx => (hchildren x hx).imp_left fun hx => ?_, hfibers⟩
    exact List.mem_append.mpr ((mem_dropLast_or hlast hx).imp_right List.mem_singleton.mpr)
  | fiberSkipped t f _ hlast hdead =>
    cases ht'
    obtain ⟨hchildren, hfibers⟩ := hcovered t rfl hopen
    refine ⟨hchildren, fun g hg' => ?_⟩
    rcases hfibers g hg' with hg'' | hdead'
    · rcases mem_dropLast_or hlast hg'' with hmem | rfl
      · exact .inl hmem
      · exact .inr ⟨hmembers g hg', hdead⟩
    · exact .inr hdead'
  | fiberFound t f _ hlast =>
    cases ht'
    obtain ⟨hchildren, hfibers⟩ := hcovered t rfl hopen
    refine ⟨hchildren, fun g hg' => (hfibers g hg').imp_left fun hg'' => ?_⟩
    exact List.mem_append.mpr ((mem_dropLast_or hlast hg'').imp_right List.mem_singleton.mpr)
  | exhausted t hchildren hfibers =>
    cases ht'
    obtain ⟨hcovers, hcovers'⟩ := hcovered t rfl hopen
    rw [hchildren] at hcovers
    rw [hfibers] at hcovers'
    exact ⟨hcovers, hcovers'⟩
  | childOk t child q o hq hpublished hsuccess =>
    obtain rfl : t = t' := Option.some.inj ht'
    obtain ⟨hchildren, hfibers⟩ := hcovered { t with children := t.children ++ [child] } rfl hopen
    refine ⟨fun x hx => ?_, hfibers⟩
    rcases hchildren x hx with hx' | hdead
    · rcases List.mem_append.mp hx' with hx' | hx'
      · exact .inl hx'
      · obtain rfl := List.mem_singleton.mp hx'
        refine .inr ⟨hbelow x hx, fun q' hq' => ?_⟩
        obtain rfl : q = q' := by simpa [hq] using (scope_eq_some.mp hq').1
        exact hg.truthful x q o hq hpublished hsuccess
    · exact .inr hdead
  | childErr t child =>
    cases ht'
    exact hcovered { t with children := t.children ++ [child] } rfl hopen
  | childReread t child e committed hreread =>
    cases ht'
    simp only [Traversal.failed, Bool.or_eq_false_iff, Bool.not_eq_false'] at hopen
    obtain ⟨⟨hbefore, rfl⟩, -⟩ := hopen
    obtain ⟨hchildren, hfibers⟩ :=
      hcovered { t with children := t.children ++ [child] } rfl hbefore
    refine ⟨fun x hx => ?_, hfibers⟩
    rcases hchildren x hx with hx' | hdead
    · rcases List.mem_append.mp hx' with hx' | hx'
      · exact .inl hx'
      · obtain rfl := List.mem_singleton.mp hx'
        refine .inr ⟨hbelow x hx, fun q' hq' => ?_⟩
        rw [hq'] at hreread
        simpa using hreread.symm
    · exact .inr hdead
  | fiberHere t f | fiberGone t f | fiberCalled t f | fiberRefused t f =>
    cases ht'
    exact hcovered { t with fibers := t.fibers ++ [f] } rfl hopen
  | fiberOk t f call c d o hc hd hpublished hsuccess =>
    obtain rfl : t = t' := Option.some.inj ht'
    obtain ⟨hchildren, hfibers⟩ := hcovered { t with fibers := t.fibers ++ [f] } rfl hopen
    obtain ⟨c', d', hc', hd', howes⟩ := hg.owed s r t f call hr hwas
    obtain rfl : c = c' := by simpa [hc] using hc'
    obtain rfl : d = d' := by simpa [hd] using hd'
    have hstate : c.inArena = true → c.inner.state = .Disposed := fun hin => (howes hin).settled o hpublished
      ((hg.sound f c hc).consistent.sincere d.round o hpublished hsuccess)
    refine ⟨hchildren, fun g hg' => ?_⟩
    rcases hfibers g hg' with hg'' | hdead
    · rcases List.mem_append.mp hg'' with hg'' | hg''
      · exact .inl hg''
      · obtain rfl := List.mem_singleton.mp hg''
        refine .inr ⟨hmembers g hg', fun e he => ?_⟩
        obtain ⟨he, hin⟩ := fiber_eq_some.mp he
        obtain rfl : c = e := by simpa [hc] using he
        exact hstate hin
    · exact .inr hdead
  | fiberErr t f =>
    cases ht'
    exact hcovered { t with fibers := t.fibers ++ [f] } rfl hopen
  | fiberReread t f e committed hreread =>
    cases ht'
    simp only [Traversal.failed, Bool.or_eq_false_iff, Bool.not_eq_false'] at hopen
    obtain ⟨⟨hbefore, rfl⟩, -⟩ := hopen
    obtain ⟨hchildren, hfibers⟩ := hcovered { t with fibers := t.fibers ++ [f] } rfl hbefore
    refine ⟨hchildren, fun g hg' => ?_⟩
    rcases hfibers g hg' with hg'' | hdead
    · rcases List.mem_append.mp hg'' with hg'' | hg''
      · exact .inl hg''
      · obtain rfl := List.mem_singleton.mp hg''
        refine .inr ⟨hmembers g hg', fun c hc => ?_⟩
        -- the record was read as `Disposed` or `WaitingDependencies`, and is not the latter
        have hvisited : rt.visited s = some c := by
          simp [visited, hr, hwas, ScopePc.fiber, hc]
        rw [hc] at hreread
        have hread : c.inner.state = .Disposed ∨ c.inner.state = .WaitingDependencies := by
          simpa using hreread.symm
        exact hread.resolve_right (hok c hvisited)
    · exact .inr hdead

/-! ## One step of the Runtime -/

theorem finalScopeResult_ok {result : Outcome} {terminated : Bool}
    (h : finalScopeResult result terminated = .ok ()) : terminated = false := by
  cases terminated with
  | false => rfl
  | true =>
    unfold finalScopeResult at h
    cases result with
    | ok => simp at h
    | error e =>
      simp only [Bool.true_and] at h
      split_ifs at h

theorem faithful_new : Faithful .new := by
  intro s r o hr ho
  simp only [new] at hr
  split_ifs at hr
  cases hr
  cases ho

theorem faithful_step {l : RuntimeLabel} (ht : Topology rt) (hb : Busy rt) (hf : Faithful rt)
    (h : rt.step l = some rt') : Faithful rt' := by
  intro s r' o hr' ho hsuccess
  rcases step_turn ht hb h hr' with ⟨-, -, hblank⟩ | ⟨r, hr, hframe | hopened |
    ⟨a, pc, pc', -, hwas, -, hat⟩ | ⟨result, terminated, -, hwas, hfinal⟩⟩
  · rw [hblank.published] at ho
    contradiction
  · rw [hframe.published] at ho
    rw [hframe.state]
    exact hf s r o hr ho hsuccess
  · rw [hopened.published] at ho
    have hdisposed := hf s r o hr ho hsuccess
    rw [hopened.active] at hdisposed
    contradiction
  · rw [hat.published] at ho
    rw [hat.state]
    exact hf s r o hr ho hsuccess
  · have hbusy := hb s r hr (by rw [hwas]; rfl)
    have hold : r.published ≠ some o := fun hpublished => by
      have hdisposed := hf s r o hr hpublished hsuccess
      rw [hbusy] at hdisposed
      contradiction
    rw [hfinal.published] at ho
    by_cases hin : r.inArena = true
    · rw [if_pos hin] at ho
      cases hpublished : r.published with
      | some o' =>
        rw [hpublished] at ho hold
        exact absurd ho hold
      | none =>
        rw [hpublished] at ho
        cases ho
        have hopen := finalScopeResult_ok hsuccess
        rw [hfinal.state, if_pos hin, hopen]
        rfl
    · rw [if_neg hin] at ho
      exact absurd ho hold

theorem guarded_new : Guarded .new where
  topology := topology_new
  busy := busy_new
  sound := fun f c h => by cases h
  closing := fun f c h => by cases h
  bound := fun f c h => by cases h
  truthful := faithful_new
  owed := fun s r t f call hr hw => by
    simp only [new] at hr
    split_ifs at hr
    cases hr
    cases hw
  covered := fun s r pc hr hw => by
    simp only [new] at hr
    split_ifs at hr
    cases hr
    cases hw
  buried := fun s r hr hd => by
    simp only [new] at hr
    split_ifs at hr
    cases hr
    cases hd

theorem Guarded.bound_step {l : RuntimeLabel} (hg : Guarded rt) (hok : rt.Attentive l)
    (h : rt.step l = some rt') (hc' : rt'.fiber f = some c') : Bound rt' f c' := by
  obtain ⟨hcell', hin'⟩ := fiber_eq_some.mp hc'
  rcases hg.cell hok h hc' with hnone | ⟨c, hc, hstep⟩
  · exact .inl (step_fresh_listed hg.topology h hcell' hnone).2
  have hcell := (fiber_eq_some.mp hc).1
  have hsound := hg.sound f c hcell
  rcases hg.bound f c hc with ⟨r, hr, hlisted⟩ | hdisposed | hleaving
  · rcases step_rebinds hg.topology h hcell hcell' with hscope | hjoined
    · rcases step_listed hg.topology h hr hlisted with hkept | hleaves
      · rw [← hscope] at hkept
        exact .inl hkept
      · generalize hs : c.inner.scope = s at hleaves
        cases hleaves with
        | removed _ hgone =>
          rw [hgone] at hc'
          contradiction
        | cleaned d result target b hd hworker =>
          obtain rfl : c = d := by simpa [hcell] using hd
          have hcleaned := step_indexCleanup h hcell hworker
          obtain rfl : { c with worker := some (.indexed result target b) } = c' := by
            simpa [hcell'] using hcleaned.symm
          have hstate := hg.closing f c hc _ _ _ _ hworker
          obtain ⟨rfl, rfl⟩ := (hsound.consistent.faithful _ hworker).2 rfl
          exact .inr (.inr ⟨hstate, result, rfl⟩)
        | rebound old target d q hd hto hq hin =>
          obtain rfl : c' = d := by simpa [hcell'] using hd
          exact .inl ⟨q, hto ▸ hq, hin⟩
    · exact .inl hjoined
  · rcases hstep with rfl | ⟨a, ha, -⟩
    · exact .inr (.inl hdisposed)
    · exact .inr (.inl (disposed_move hsound hdisposed (step_move ha)))
  · rcases hstep with rfl | ⟨a, ha, hpark⟩
    · exact .inr (.inr hleaving)
    · exact .inr (leaving_step hsound hleaving hpark ha hin')

theorem Guarded.closing_step {l : RuntimeLabel} (hg : Guarded rt) (hok : rt.Attentive l)
    (h : rt.step l = some rt') (hc' : rt'.fiber f = some c') : c'.Closing := by
  obtain ⟨hcell', hin'⟩ := fiber_eq_some.mp hc'
  rcases hg.cell hok h hc' with hnone | ⟨c, hc, rfl | ⟨a, ha, hpark⟩⟩
  · intro result target b s hw
    rw [(step_fresh_listed hg.topology h hcell' hnone).1] at hw
    contradiction
  · exact hg.closing f c' hc
  · exact Cordis.closing_step (hg.sound f c (fiber_eq_some.mp hc).1) (hg.closing f c hc) hpark ha hin'

theorem step_fiberCall {t : Traversal} (h : rt.step (.scope s .fiberCall) = some rt')
    (hr : rt.scopes s = some r) (hw : r.worker = some (.fiberFound t f)) :
    rt'.fibers = (rt.disposeFound f false t.persistent true).1.fibers := by
  simp only [step, hr, hw, Option.bind_some, stepScope] at h
  split at h
  all_goals
    rename_i heq
    rw [heq]
    cases h
    rfl

theorem Guarded.owed_step {l : RuntimeLabel} {t : Traversal} {call : Nat} (hg : Guarded rt)
    (hok : rt.Attentive l) (h : rt.step l = some rt') (hr' : rt'.scopes s = some r')
    (hw' : r'.worker = some (.fiberWaiting t f call)) :
    ∃ c d, rt'.fibers f = some c ∧ c.calls call = some d ∧ (c.inArena = true → c.control.Owes d.round) := by
  rcases step_turn hg.topology hg.busy h hr' with ⟨-, -, hblank⟩ | ⟨r, hr, hframe | hopened |
    ⟨a, pc, pc', rfl, hwas, hnext, hat⟩ | ⟨result, terminated, -, hwas, hfinal⟩⟩
  · rw [hblank.worker] at hw'
    contradiction
  · rw [hframe.worker] at hw'
    obtain ⟨c, d, hc, hd, howes⟩ := hg.owed s r t f call hr hw'
    have hsound := hg.sound f c hc
    obtain ⟨c', hc', hstep⟩ := (step_evolves hg.topology h).cells f c hc
    rcases hstep with rfl | ⟨a, ha, -⟩
    · exact ⟨c', d, hc', hd, howes⟩
    · exact ⟨c', d, hc', calls_move hsound.consistent (step_move ha) hd, fun hin =>
        owes_move hsound (hsound.consistent.rounds call d hd) (howes ((step_same ha).arena hin)) (step_move ha)⟩
  · rw [hopened.worker] at hw'
    cases hw'
  · rw [hat.worker] at hw'
    obtain rfl : pc' = .fiberWaiting t f call := Option.some.inj hw'
    cases hnext with
    | fiberCalled _ _ _ hanswer =>
      have hfibers := step_fiberCall h hr hwas
      rcases disposeFound_spec rt f false t.persistent true with ⟨hnone, heq⟩ | ⟨c, c', hc, hstep, heq⟩
      · simp [disposeFound, hnone] at hanswer
      have hanswer' : (c.dispose false t.persistent true).2 = .ok call := by
        simpa [disposeFound, hc] using hanswer
      have hdispose : c.dispose false t.persistent true = (c', .ok call) :=
        Prod.ext (Option.some.inj hstep) hanswer'
      obtain ⟨d, hd⟩ := dispose_call hdispose
      refine ⟨c', d, ?_, hd, fun hin => ?_⟩
      · rw [hfibers, heq, (fiberEffect_fibers _ _ hstep).1]
        simp [setFiber]
      · have hvisited : rt.visited s = some c := by
          simp [visited, hr, hwas, ScopePc.fiber, fiber, hc, Option.filter, (step_same hstep).arena hin]
        obtain ⟨d', hd', howes⟩ := dispose_owes (hg.sound f c hc) (hok c hvisited) hdispose
        obtain rfl : d = d' := by simpa [hd] using hd'
        exact howes
  · rw [hfinal.worker] at hw'
    contradiction

theorem Guarded.covered_step {l : RuntimeLabel} {pc : ScopePc} (hg : Guarded rt)
    (hok : rt.Attentive l) (h : rt.step l = some rt') (hr' : rt'.scopes s = some r')
    (hw' : r'.worker = some pc) : Covered rt' r' pc := by
  rcases step_turn hg.topology hg.busy h hr' with ⟨-, -, hblank⟩ | ⟨r, hr, hturn⟩
  · rw [hblank.worker] at hw'
    contradiction
  have hcovers : r.state ≠ .Active → Covered rt r pc → Covered rt' r' pc := fun hstate =>
    hg.covers hok h (hturn.members hstate).1 (hturn.members hstate).2
  rcases hturn with hframe | hopened | ⟨a, p, p', rfl, hwas, hnext, hat⟩ |
    ⟨result, terminated, -, -, hfinal⟩
  · rw [hframe.worker] at hw'
    have hbusy := hg.busy s r hr (by rw [hw']; rfl)
    exact hcovers (by simp [hbusy]) (hg.covered s r pc hr hw')
  · rw [hopened.worker] at hw'
    obtain rfl : ScopePc.copying = pc := Option.some.inj hw'
    intro t ht
    cases ht
  · rw [hat.worker] at hw'
    obtain rfl : p' = pc := Option.some.inj hw'
    have hbusy := hg.busy s r hr (by rw [hwas]; rfl)
    exact hcovers (by simp [hbusy]) (covered_next hg hr hwas hok hnext)
  · rw [hfinal.worker] at hw'
    contradiction

theorem Guarded.buried_step {l : RuntimeLabel} (hg : Guarded rt) (hok : rt.Attentive l)
    (h : rt.step l = some rt') (hr' : rt'.scopes s = some r') (hd' : r'.state = .Disposed) :
    (∀ f ∈ r'.fibers, rt'.Dead f) ∧ ∀ x ∈ r'.children, rt'.DeadScope x := by
  rcases step_turn hg.topology hg.busy h hr' with ⟨-, -, hblank⟩ | ⟨r, hr, hturn⟩
  · rw [hblank.state] at hd'
    contradiction
  have hold : r.state ≠ .Active → (∀ f ∈ r.fibers, rt.Dead f) ∧ (∀ x ∈ r.children, rt.DeadScope x) →
      (∀ f ∈ r'.fibers, rt'.Dead f) ∧ ∀ x ∈ r'.children, rt'.DeadScope x :=
    fun hstate ⟨hfibers, hchildren⟩ =>
      ⟨fun f hf => hg.dead hok h (hfibers f ((hturn.members hstate).2 f hf)),
        fun x hx => hg.deadScope h (hchildren x ((hturn.members hstate).1 x hx))⟩
  rcases hturn with hframe | hopened | ⟨a, p, p', -, hwas, -, hat⟩ |
    ⟨result, terminated, -, hwas, hfinal⟩
  · rw [hframe.state] at hd'
    exact hold (by simp [hd']) (hg.buried s r hr hd')
  · rw [hopened.disposing] at hd'
    contradiction
  · rw [hat.state, hg.busy s r hr (by rw [hwas]; rfl)] at hd'
    contradiction
  · have hbusy := hg.busy s r hr (by rw [hwas]; rfl)
    rw [hfinal.state, hbusy] at hd'
    split_ifs at hd' with hin hterm
    obtain ⟨hchildren, hfibers⟩ := hg.covered s r _ hr hwas _ rfl (by simpa using hterm)
    refine hold (by simp [hbusy]) ⟨fun f hf => ?_, fun x hx => ?_⟩
    · exact (hfibers f hf).resolve_left (by simp)
    · exact (hchildren x hx).resolve_left (by simp)

theorem guarded_step {l : RuntimeLabel} (hg : Guarded rt) (hok : rt.Attentive l)
    (h : rt.step l = some rt') : Guarded rt' where
  topology := topology_step hg.topology h
  busy := busy_step hg.topology hg.busy h
  sound := (step_evolves hg.topology h).sound hg.sound
  closing := fun _ _ hc' => hg.closing_step hok h hc'
  bound := fun _ _ hc' => hg.bound_step hok h hc'
  truthful := faithful_step hg.topology hg.busy hg.truthful h
  owed := fun _ _ _ _ _ hr' hw' => hg.owed_step hok h hr' hw'
  covered := fun _ _ _ hr' hw' => hg.covered_step hok h hr' hw'
  buried := fun _ _ hr' hd' => hg.buried_step hok h hr' hd'

/-! ## Over every run -/

theorem guarded_reach {rt₀ : Runtime} (hg : Guarded rt₀) (h : Reach step Attentive rt₀ rt) :
    Guarded rt :=
  h.invariant hg fun _ _ _ hg hok hs => guarded_step hg hok hs

/-- Fiber `f` is dead, or the last section of its disposal is all that is left of it. -/
structure Silent (rt : Runtime) (f : FiberId) : Prop where
  known : f < rt.nextFiber
  state : ∀ c, rt.fiber f = some c → c.inner.state = .Disposed ∨ c.Leaving

theorem silent_step {l : RuntimeLabel} (hg : Guarded rt) (hok : rt.Attentive l)
    (h : rt.step l = some rt') (hs : rt.Silent f) : rt'.Silent f where
  known := Nat.lt_of_lt_of_le hs.known (step_evolves hg.topology h).next
  state := fun c' hc' => by
    rcases hg.cell hok h hc' with hnone | ⟨c, hc, rfl | ⟨a, ha, hpark⟩⟩
    · have hnew := (step_evolves hg.topology h).fresh f c' (fiber_eq_some.mp hc').1 hnone
      exact absurd hnew.1 (Nat.ne_of_lt hs.known)
    · exact hs.state c' hc
    · have hsound := hg.sound f c (fiber_eq_some.mp hc).1
      rcases hs.state c hc with hdisposed | hleaving
      · exact .inl (disposed_move hsound hdisposed (step_move ha))
      · exact leaving_step hsound hleaving hpark ha (fiber_eq_some.mp hc').2

/-- The members of `r`, the record of a disposed Scope `s`, are dead, and every Fiber bound to `s` is
silent. -/
structure Buried (rt : Runtime) (s : ScopeId) (r : ScopeCell) : Prop where
  fibers : ∀ f ∈ r.fibers, rt.Dead f
  children : ∀ x ∈ r.children, rt.DeadScope x
  bound : ∀ f c, rt.fiber f = some c → c.inner.scope = s → rt.Silent f

theorem Guarded.buries (hg : Guarded rt) (hr : rt.scopes s = some r) (hd : r.state = .Disposed) :
    Buried rt s r where
  fibers := (hg.buried s r hr hd).1
  children := (hg.buried s r hr hd).2
  bound := fun f c hc hs => by
    have hknown := hg.topology.fibers f c (fiber_eq_some.mp hc).1
    refine ⟨hknown, fun c' hc' => ?_⟩
    obtain rfl : c = c' := by simpa [hc] using hc'
    rcases hg.bound f c hc with ⟨q, hq, hlisted⟩ | hdisposed | hleaving
    · obtain rfl : r = q := by simpa [hs, hr] using hq
      exact .inl (((hg.buried s r hr hd).1 f hlisted).disposed c hc)
    · exact .inl hdisposed
    · exact .inr hleaving

/-- **A disposed Scope is dead.** In every state of an attentive run the members of a `Disposed`
Scope are `Disposed` or reclaimed, and no later step of the run makes a Fiber of that Scope
`Starting` or `Active`. -/
theorem disposed_scope_dead (h : Reach step Attentive .new rt) (hr : rt.scopes s = some r)
    (hd : r.state = .Disposed) :
    Buried rt s r ∧ ∀ f, (f ∈ r.fibers ∨ ∃ c, rt.fiber f = some c ∧ c.inner.scope = s) →
      ∀ rt', Reach step Attentive rt rt' → ∀ c', rt'.fiber f = some c' →
        c'.inner.state ≠ .Starting ∧ c'.inner.state ≠ .Active := by
  have hg := guarded_reach guarded_new h
  have hburied := hg.buries hr hd
  refine ⟨hburied, fun f hmember rt' hreach c' hc' => ?_⟩
  have hsilent : rt.Silent f := by
    rcases hmember with hlisted | ⟨c, hc, hs⟩
    · have hdead := hburied.fibers f hlisted
      exact ⟨hdead.known, fun c hc => .inl (hdead.disposed c hc)⟩
    · exact hburied.bound f c hc hs
  have hboth : Guarded rt' ∧ rt'.Silent f := by
    refine hreach.invariant (I := fun rt => Guarded rt ∧ rt.Silent f) ⟨hg, hsilent⟩ ?_
    rintro t a u ⟨ht, hts⟩ hok hstep
    exact ⟨guarded_step ht hok hstep, silent_step ht hok hstep hts⟩
  rcases hboth.2.state c' hc' with hstate | ⟨hstate, -⟩ <;> simp [hstate]

/-- The disposal of Scope `s`, whose only member is a Fiber that is alive, around `labels`. -/
def scopeDisposal (s : ScopeId) (labels : List RuntimeLabel) : List RuntimeLabel :=
  [RuntimeLabel.disposeScope s false, .scope s .copy, .scope s .visit, .scope s .fiberLookup,
    .scope s .fiberCall] ++ labels ++
    [RuntimeLabel.scope s .fiberReturned, .scope s .visit, .scope s .finalize]

/-- A Scope is disposed together with the Fiber in it. -/
theorem disposed_scope_dead_member :
    ∃ rt r, Reach step Attentive .new rt ∧ rt.scopes 1 = some r ∧ r.state = .Disposed ∧
      Buried rt 1 r := by
  have hrun : ((runIf step Attentive .new ([.createScope 0 false] ++
      installed 0 1 none ⟨[], [], .Restart⟩ false [] ++
      scopeDisposal 1 (sections 0 quietRound))).any fun rt =>
        (rt.scopes 1).any fun r => r.state == .Disposed) = true := by
    decide +kernel
  obtain ⟨rt, hrt, hrun⟩ := (Option.any_eq_true _ _).mp hrun
  obtain ⟨r, hr, hstate⟩ := (Option.any_eq_true _ _).mp hrun
  have hreach := reach_of_runIf hrt
  have hd : r.state = .Disposed := by simpa using hstate
  exact ⟨rt, r, hreach, hr, hd, (disposed_scope_dead hreach hr hd).1⟩

/-- The provider of key 5 is disposed, and Fiber 1 in Scope 1, which depends on it, waits. -/
def dependencyLost : List RuntimeLabel :=
  [RuntimeLabel.createScope 0 false] ++
  installed 0 0 none ⟨[], [5], .Restart⟩ false [.provide 0 0 5] ++
  installed 1 1 none ⟨[5], [], .Restart⟩ false [] ++
  sections 0 [.callDispose false false false, .workerLookup, .workerLock, .takeTasks,
    .tasksJoined (.ok ()), .drained, .pickChild, .unregister, .withdraw, .withdrawLook true,
    .withdrawRemove, .withdraw, .takeEffect, .readTarget] ++
  sections 1 (.callDispose true false false :: quietRound) ++
  sections 0 [.reconciled (.ok ()), .report, .finalizeBegin, .indexCleanup, .finalizeCommit]

/-- A new provider of key 5 wakes Fiber 1. -/
def dependencyBack : List RuntimeLabel :=
  installed 2 0 none ⟨[], [5], .Restart⟩ false [.provide 2 0 5] ++
  [RuntimeLabel.fiber 1 .callActivate] ++ activation 1 1 false []

/-- Without the condition the Scope disposal reads the observation of the dependency loss for its
own: the Scope ends `Disposed` while its Fiber waits, and a new provider makes it `Active`. -/
theorem waiting_fiber_not_dead :
    ¬ ∀ rt, Reach step anyStep .new rt → ∀ s r, rt.scopes s = some r → r.state = .Disposed →
      ∀ f ∈ r.fibers, rt.Dead f := by
  intro h
  have hrun : ((run step .new (dependencyLost ++ scopeDisposal 1 [] ++ dependencyBack)).any
      fun rt => (rt.scopes 1).any (fun r => r.state == .Disposed && r.fibers.contains 1) &&
        (rt.fiber 1).any fun c => c.inner.state == .Active) = true := by
    decide +kernel
  obtain ⟨rt, hrt, hrun⟩ := (Option.any_eq_true _ _).mp hrun
  obtain ⟨hscope, hfiber⟩ := Bool.and_eq_true_iff.mp hrun
  obtain ⟨r, hr, hscope⟩ := (Option.any_eq_true _ _).mp hscope
  obtain ⟨c, hc, hactive⟩ := (Option.any_eq_true _ _).mp hfiber
  simp only [Bool.and_eq_true, beq_iff_eq, List.contains_iff_mem] at hscope hactive
  have hdead := h rt (reach_of_run hrt) 1 r hr hscope.1 1 hscope.2
  rw [hdead.disposed c hc] at hactive
  cases hactive

end Runtime

end Cordis
