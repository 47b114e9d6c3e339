import Cordis.Proof.Effects
import Cordis.Runtime.Handles

/-!
# A handle keeps its generation

The lease of a `ServiceHandle` is one of the gate that its provider has. As long as the handle is there the gate
stays with the provider, and no disposal of it gets past the drain.
-/

namespace Cordis

open Machine

namespace Handles

variable {w w' : Handles} {l : HandleLabel} {f : FiberId} {n : Nat} {handle : ServiceHandle}

/-- What a section does to the Context calls and the handles. -/
inductive Moved (w w' : Handles) : Prop
  | looked (contexts : w'.contexts = w.contexts) (handles : w'.handles = w.handles)
      (next : w'.nextHandle = w.nextHandle)
  | stepped (l : ContextLabel) (ready : w.ready l = true) (step : w.contexts.step l = some w'.contexts)
      (handles : w'.handles = w.handles) (next : w'.nextHandle = w.nextHandle)
  | taken (handle : ServiceHandle) (c : FiberCell) (record : w.contexts.runtime.fibers handle.provider = some c)
      (gate : Runtime.gateOf c = handle.gate)
      (step : w.contexts.fiberSection handle.provider .acquireLease = some w'.contexts)
      (handles : w'.handles = Function.update w.handles w.nextHandle (some handle))
      (next : w'.nextHandle = w.nextHandle + 1)
  | dropped (n : Nat) (handle : ServiceHandle) (was : w.handles n = some handle)
      (step : w.contexts.fiberSection handle.provider .dropLease = some w'.contexts)
      (handles : w'.handles = Function.update w.handles n none) (next : w'.nextHandle = w.nextHandle)

theorem moved_advance {i : Nat} {next : ContextCall → ServiceLookup → Option (Option LookupPc)}
    (h : w.advance i next = some w') : Moved w w' := by
  unfold advance at h
  split at h
  · obtain ⟨pc, -, rfl⟩ := Option.map_eq_some_iff.mp h
    exact .looked rfl rfl rfl
  · cases h

theorem moved_of_step (h : w.step l = some w') : Moved w w' := by
  cases l <;> simp only [step] at h
  case contexts l =>
    split_ifs at h with hready
    obtain ⟨contexts, hstep, rfl⟩ := Option.map_eq_some_iff.mp h
    exact .stepped l hready hstep rfl rfl
  case tryGet i symbol =>
    split_ifs at h
    cases h
    exact .looked rfl rfl rfl
  case acquire i =>
    split at h <;> try contradiction
    rename_i symbol again entry _
    split at h <;> cases h
    · rename_i contexts hacquire
      unfold acquireService at hacquire
      split at hacquire <;> try contradiction
      rename_i c hc
      split_ifs at hacquire with hgate
      exact .taken ⟨entry.owner, entry.gate, entry.scope, symbol⟩ c hc hgate hacquire rfl rfl
    · exact .looked rfl rfl rfl
  case drop n =>
    obtain ⟨handle, hn, h⟩ := Option.bind_eq_some_iff.mp h
    obtain ⟨contexts, hstep, rfl⟩ := Option.map_eq_some_iff.mp h
    exact .dropped n handle hn hstep rfl rfl
  all_goals exact moved_advance h

theorem holds_iff : w.holds f n = true ↔ ∃ handle, w.handles n = some handle ∧ handle.provider = f := by
  unfold holds
  cases w.handles n <;> simp

/-- Every handle is on a record with the gate that it has a lease of, and the leases of calls and handles are among
those that the gate counts. -/
structure Pinning (w : Handles) : Prop where
  standing : Contexts.Standing w.contexts
  issued : ∀ n handle, w.handles n = some handle → n < w.nextHandle
  current : ∀ n handle, w.handles n = some handle →
    ∃ c, w.contexts.runtime.fibers handle.provider = some c ∧ Runtime.gateOf c = handle.gate
  leases : ∀ f c, w.contexts.runtime.fibers f = some c →
    w.contexts.leases f + w.pinned f ≤ c.inner.capabilities.execution.inflight

theorem pinning_new : Pinning .new where
  standing := Contexts.standing_new
  issued := fun n handle h => by cases h
  current := fun n handle h => by cases h
  leases := fun f c h => by cases h

theorem Pinning.pinned_pos (hw : Pinning w) (hn : w.handles n = some handle) : 0 < w.pinned handle.provider :=
  Tally.count_pos (hw.issued n handle hn) (holds_iff.mpr ⟨handle, hn, rfl⟩)

theorem Pinning.inflight (hw : Pinning w) (hn : w.handles n = some handle) {c : FiberCell}
    (hc : w.contexts.runtime.fibers handle.provider = some c) : 0 < c.inner.capabilities.execution.inflight := by
  have hpos := hw.pinned_pos hn
  have hleases := hw.leases handle.provider c hc
  omega

theorem step_of_section {a : FiberLabel} {contexts : Contexts} (ha : a = .acquireLease ∨ a = .dropLease)
    (hready : w.contexts.ready (.fiber f a) = true) (h : w.contexts.fiberSection f a = some contexts) :
    w.contexts.step (.runtime (.fiber f a)) = some contexts := by
  obtain ⟨rt, hrt, rfl⟩ := Option.map_eq_some_iff.mp h
  simp only [Contexts.step, hready, if_true, hrt, Option.map_some]
  rcases ha with rfl | rfl <;> rfl

theorem Pinning.steps (hw : Pinning w) (h : Moved w w') :
    w'.contexts = w.contexts ∨ ∃ l, w.contexts.step l = some w'.contexts := by
  cases h with
  | looked contexts => exact .inl contexts
  | stepped l _ step => exact .inr ⟨l, step⟩
  | taken handle c record gate step =>
    exact .inr ⟨.runtime (.fiber handle.provider .acquireLease), step_of_section (.inl rfl) rfl step⟩
  | dropped n handle was step =>
    obtain ⟨c, hc, -⟩ := hw.current n handle was
    have hpos := hw.pinned_pos was
    have hleases := hw.leases handle.provider c hc
    refine .inr ⟨.runtime (.fiber handle.provider .dropLease), step_of_section (.inr rfl) ?_ step⟩
    simp only [Contexts.ready, hc, Option.any_some, decide_eq_true_eq]
    omega

theorem Pinning.gate_kept (hw : Pinning w) {l : ContextLabel} {contexts : Contexts}
    (h : w.contexts.step l = some contexts) (hn : w.handles n = some handle) :
    ∃ c, contexts.runtime.fibers handle.provider = some c ∧ Runtime.gateOf c = handle.gate := by
  obtain ⟨c, hc, hgate⟩ := hw.current n handle hn
  obtain ⟨c', hc'⟩ := Contexts.step_forward hw.standing.topology h hc
  refine ⟨c', hc', ?_⟩
  cases Contexts.step_turns hw.standing.topology h hc' with
  | kept was =>
    obtain rfl := Option.some.inj (hc.symm.trans was)
    exact hgate
  | stepped rt₀ a runs d b was step acts =>
    obtain rfl := Option.some.inj (hc.symm.trans was)
    rcases Contexts.gateOf_step step with heq | ⟨hcomplete, -⟩
    · exact heq.trans hgate
    · have hzero : c.inner.capabilities.execution.inflight = 0 :=
        hw.standing.complete hc hcomplete (n := 3) (by omega) (by omega)
      have hpos := hw.inflight hn hc
      omega
  | created free =>
    rw [free] at hc
    contradiction

theorem Pinning.unpinned (hw : Pinning w) (hnone : w.contexts.runtime.fibers f = none) : w.pinned f = 0 := by
  have hle : w.pinned f ≤ Tally.count 0 fun _ => false := Tally.count_le fun n _ hn => by
    obtain ⟨handle, hhandle, rfl⟩ := holds_iff.mp hn
    obtain ⟨c, hc, -⟩ := hw.current n handle hhandle
    rw [hnone] at hc
    contradiction
  exact Nat.le_zero.mp hle

theorem Pinning.leases_step (hw : Pinning w) {l : ContextLabel} {contexts : Contexts} {k : Nat}
    (h : w.contexts.step l = some contexts) (hk : k ≤ w.pinned f)
    (hother : ∀ c, w.contexts.runtime.fibers f = some c → l = .runtime (.fiber f .dropLease) →
      w.contexts.leases f + k < c.inner.capabilities.execution.inflight) {c' : FiberCell}
    (hc' : contexts.runtime.fibers f = some c') :
    contexts.leases f + k ≤ c'.inner.capabilities.execution.inflight := by
  cases hc : w.contexts.runtime.fibers f with
  | some c =>
    refine Contexts.held_step hw.standing h hc hc' ?_ (hother c hc)
    exact (Nat.add_le_add_left hk _).trans (hw.leases f c hc)
  | none =>
    have hzero : k = 0 := Nat.le_zero.mp (hw.unpinned hc ▸ hk)
    rw [hzero]
    exact Contexts.leased_step hw.standing h hc'

theorem pinned_of_eq (hhandles : w'.handles = w.handles) (hnext : w'.nextHandle = w.nextHandle) (f : FiberId) :
    w'.pinned f = w.pinned f := by
  unfold pinned holds
  rw [hhandles, hnext]

theorem pinned_taken (hhandles : w'.handles = Function.update w.handles w.nextHandle (some handle))
    (hnext : w'.nextHandle = w.nextHandle + 1) (f : FiberId) :
    w'.pinned f ≤ w.pinned f + 1 ∧ (f ≠ handle.provider → w'.pinned f ≤ w.pinned f) := by
  have hold : ∀ n < w'.nextHandle, w'.holds f n = true → n = w.nextHandle ∧ f = handle.provider ∨
      n < w.nextHandle ∧ w.holds f n = true := by
    intro n hlt hn
    obtain ⟨x, hx, hf⟩ := holds_iff.mp hn
    rw [hhandles] at hx
    by_cases hnew : n = w.nextHandle
    · subst hnew
      rw [Function.update_self] at hx
      cases hx
      exact .inl ⟨rfl, hf.symm⟩
    · rw [Function.update_of_ne hnew] at hx
      exact .inr ⟨by omega, holds_iff.mpr ⟨x, hx, hf⟩⟩
  constructor
  · exact Tally.count_le_succ (k := w.nextHandle) fun n hlt hn => (hold n hlt hn).imp_left And.left
  · intro hne
    exact Tally.count_le fun n hlt hn => (hold n hlt hn).resolve_left fun h => hne h.2

theorem pinned_dropped (hw : Pinning w) (was : w.handles n = some handle)
    (hhandles : w'.handles = Function.update w.handles n none) (hnext : w'.nextHandle = w.nextHandle)
    (f : FiberId) :
    w'.pinned f ≤ w.pinned f ∧ (f = handle.provider → w'.pinned f < w.pinned f) := by
  have hkept : ∀ m < w'.nextHandle, w'.holds f m = true → m < w.nextHandle ∧ w.holds f m = true := by
    intro m hlt hm
    obtain ⟨x, hx, hf⟩ := holds_iff.mp hm
    rw [hhandles] at hx
    by_cases hmn : m = n
    · subst hmn
      rw [Function.update_self] at hx
      cases hx
    · rw [Function.update_of_ne hmn] at hx
      exact ⟨by omega, holds_iff.mpr ⟨x, hx, hf⟩⟩
  refine ⟨Tally.count_le hkept, ?_⟩
  rintro rfl
  refine Tally.count_lt (hw.issued n handle was) (holds_iff.mpr ⟨handle, was, rfl⟩) ?_ hkept
  unfold holds
  rw [hhandles, Function.update_self]
  rfl

/-- **The leases of the handles are counted by the gates.** -/
theorem pinning_moved (hw : Pinning w) (h : Moved w w') : Pinning w' := by
  have hstanding : Contexts.Standing w'.contexts := by
    rcases hw.steps h with heq | ⟨l, hl⟩
    · exact heq ▸ hw.standing
    · exact Contexts.standing_step hw.standing hl
  have hkept : ∀ n handle, w.handles n = some handle →
      ∃ c, w'.contexts.runtime.fibers handle.provider = some c ∧ Runtime.gateOf c = handle.gate := by
    intro n handle hn
    rcases hw.steps h with heq | ⟨l, hl⟩
    · exact heq ▸ hw.current n handle hn
    · exact hw.gate_kept hl hn
  cases h with
  | looked contexts handles next =>
    refine ⟨hstanding, fun n x hx => ?_, fun n x hx => hkept n x (handles ▸ hx), fun f c hc => ?_⟩
    · rw [next]
      exact hw.issued n x (handles ▸ hx)
    · rw [pinned_of_eq handles next, contexts]
      exact hw.leases f c (contexts ▸ hc)
  | stepped l ready step handles next =>
    refine ⟨hstanding, fun n x hx => ?_, fun n x hx => hkept n x (handles ▸ hx), fun f c' hc' => ?_⟩
    · rw [next]
      exact hw.issued n x (handles ▸ hx)
    · rw [pinned_of_eq handles next]
      refine hw.leases_step step le_rfl ?_ hc'
      rintro c hc rfl
      simpa [Handles.ready, hc] using ready
  | taken handle c record gate step handles next =>
    have hsection := step_of_section (.inl rfl) rfl step
    obtain ⟨rt, hrt, hcontexts⟩ := Option.map_eq_some_iff.mp step
    obtain ⟨d, c', hd, hacquire, hrt'⟩ := Contexts.step_acquire hrt
    obtain rfl := Option.some.inj (record.symm.trans hd)
    have hc' : w'.contexts.runtime.fibers handle.provider = some c' := by
      rw [← hcontexts, hrt']
      simp [Runtime.setFiber]
    have hgate : Runtime.gateOf c' = handle.gate := by
      rcases Contexts.gateOf_step hacquire with heq | ⟨-, _, _, hlabel⟩
      · exact heq.trans gate
      · cases hlabel
    refine ⟨hstanding, fun n x hx => ?_, fun n x hx => ?_, fun f e he => ?_⟩ <;> try rw [handles] at hx
    · rw [next]
      by_cases hn : n = w.nextHandle
      · omega
      · rw [Function.update_of_ne hn] at hx
        exact (hw.issued n x hx).trans (Nat.lt_succ_self _)
    · by_cases hn : n = w.nextHandle
      · subst hn
        rw [Function.update_self] at hx
        cases hx
        exact ⟨c', hc', hgate⟩
      · rw [Function.update_of_ne hn] at hx
        exact hkept n x hx
    · obtain ⟨hmore, hsame⟩ := pinned_taken handles next f
      by_cases hf : f = handle.provider
      · subst hf
        obtain rfl := Option.some.inj (hc'.symm.trans he)
        have hleases := hw.leases handle.provider c record
        have hcalls : w'.contexts.leases handle.provider = w.contexts.leases handle.provider := by
          rw [← hcontexts]
          rfl
        rw [Contexts.acquire_inflight hacquire, hcalls]
        omega
      · refine le_trans (Nat.add_le_add_left (hsame hf) _) (hw.leases_step hsection le_rfl ?_ he)
        rintro d hd hlabel
        cases hlabel
  | dropped n handle was step handles next =>
    have hpos := hw.pinned_pos was
    have hsection : w.contexts.step (.runtime (.fiber handle.provider .dropLease)) = some w'.contexts := by
      obtain ⟨c, hc, -⟩ := hw.current n handle was
      have hleases := hw.leases handle.provider c hc
      refine step_of_section (.inr rfl) ?_ step
      simp only [Contexts.ready, hc, Option.any_some, decide_eq_true_eq]
      omega
    have hold : ∀ m x, w'.handles m = some x → w.handles m = some x := by
      intro m x hx
      rw [handles] at hx
      by_cases hm : m = n
      · subst hm
        rw [Function.update_self] at hx
        cases hx
      · rwa [Function.update_of_ne hm] at hx
    refine ⟨hstanding, fun m x hx => ?_, fun m x hx => hkept m x (hold m x hx), fun f c' hc' => ?_⟩
    · rw [next]
      exact hw.issued m x (hold m x hx)
    · obtain ⟨hle, hless⟩ := pinned_dropped hw was handles next f
      refine hw.leases_step hsection hle (fun c hc hlabel => ?_) hc'
      cases hlabel
      have hleases := hw.leases handle.provider c hc
      have hlt := hless rfl
      omega

theorem pinning_reach {ok : Handles → HandleLabel → Prop} (h : Reach step ok .new w) : Pinning w :=
  h.invariant pinning_new fun _ _ _ hw _ hstep => pinning_moved hw (moved_of_step hstep)

theorem Moved.handle_before (h : Moved w w') (hlt : n < w.nextHandle) (hn : w'.handles n = some handle) :
    w.handles n = some handle := by
  cases h with
  | looked _ handles | stepped _ _ _ handles => rwa [handles] at hn
  | taken _ _ _ _ _ handles =>
    rw [handles, Function.update_of_ne (Nat.ne_of_lt hlt)] at hn
    exact hn
  | dropped m _ _ _ handles =>
    rw [handles] at hn
    by_cases hnm : n = m
    · subst hnm
      rw [Function.update_self] at hn
      cases hn
    · rwa [Function.update_of_ne hnm] at hn

theorem Moved.next_le (h : Moved w w') : w.nextHandle ≤ w'.nextHandle := by
  cases h with
  | looked _ _ next | stepped _ _ _ _ next | dropped _ _ _ _ _ next => exact next.ge
  | taken _ _ _ _ _ _ next => omega

theorem Pinning.effects_kept (hw : Pinning w) (h : Moved w w') (hn : w.handles n = some handle) {c : FiberCell}
    (hc : w.contexts.runtime.fibers handle.provider = some c) :
    ∃ c', w'.contexts.runtime.fibers handle.provider = some c' ∧ c.inner.effects <+: c'.inner.effects := by
  rcases hw.steps h with heq | ⟨l, hl⟩
  · exact ⟨c, by rw [heq]; exact hc, List.prefix_refl _⟩
  obtain ⟨c', hc'⟩ := Contexts.step_forward hw.standing.topology hl hc
  refine ⟨c', hc', ?_⟩
  cases Contexts.step_turns hw.standing.topology hl hc' with
  | kept was =>
    obtain rfl := Option.some.inj (hc.symm.trans was)
    exact List.prefix_refl _
  | stepped rt₀ a runs d b was step acts =>
    obtain rfl := Option.some.inj (hc.symm.trans was)
    cases step_effects step with
    | kept effects => rw [effects]
    | registered id _ effects =>
      rw [effects]
      exact List.prefix_append ..
    | taken id removed _ worker =>
      -- the worker takes effects after the drain
      have hzero := (hw.standing.drained hc worker (by simp [DisposalPc.rank])).2
      have hpos := hw.inflight hn hc
      omega
  | created free =>
    rw [free] at hc
    contradiction

/-- **A handle keeps its generation.** From the lookup that made it until it is dropped, whoever holds it and
whatever is disposed, reloaded or restarted meanwhile: the provider keeps the gate of the handle, its disposal stays
before the end of the drain, and none of its effects is taken. -/
theorem service_handle_pins (h : Reach step anyStep .new w) (h' : Reach step anyStep w w')
    (hn : w.handles n = some handle) (hn' : w'.handles n = some handle) :
    ∃ c c', w.contexts.runtime.fibers handle.provider = some c ∧
      w'.contexts.runtime.fibers handle.provider = some c' ∧ Runtime.gateOf c = handle.gate ∧
      Runtime.gateOf c' = handle.gate ∧ c'.inner.disposal.phase ≠ .Complete ∧
      (∀ pc, c'.worker = some pc → pc.rank < 3) ∧ c.inner.effects <+: c'.inner.effects := by
  have hw := pinning_reach h
  obtain ⟨c, hc, hgate⟩ := hw.current n handle hn
  obtain ⟨hw', -, hheld⟩ : Pinning w' ∧ n < w'.nextHandle ∧ ∀ x, w'.handles n = some x → x = handle ∧
      ∃ c', w'.contexts.runtime.fibers handle.provider = some c' ∧ c.inner.effects <+: c'.inner.effects := by
    clear hn'
    induction h' with
    | refl =>
      refine ⟨hw, hw.issued n handle hn, fun x hx => ?_⟩
      obtain rfl := Option.some.inj (hx.symm.trans hn)
      exact ⟨rfl, c, hc, List.prefix_refl _⟩
    | tail _ _ hs ih =>
      obtain ⟨ht, hlt, hheld⟩ := ih
      have hmoved := moved_of_step hs
      refine ⟨pinning_moved ht hmoved, hlt.trans_le hmoved.next_le, fun x hx => ?_⟩
      have hbefore := hmoved.handle_before hlt hx
      obtain ⟨rfl, d, hd, hprefix⟩ := hheld x hbefore
      obtain ⟨c', hc', hkept⟩ := ht.effects_kept hmoved hbefore hd
      exact ⟨rfl, c', hc', hprefix.trans hkept⟩
  obtain ⟨-, c', hc', hprefix⟩ := hheld handle hn'
  obtain ⟨d, hd, hgate'⟩ := hw'.current n handle hn'
  obtain rfl := Option.some.inj (hc'.symm.trans hd)
  have hpos := hw'.inflight hn' hc'
  refine ⟨c, c', hc, hc', hgate, hgate', fun hcomplete => ?_, fun pc hworker => ?_, hprefix⟩
  · have hzero : c'.inner.capabilities.execution.inflight = 0 :=
      hw'.standing.complete hc' hcomplete (n := 3) (by omega) (by omega)
    omega
  · by_contra hrank
    have hzero := (hw'.standing.drained hc' hworker (Nat.le_of_not_lt hrank)).2
    omega

/-- Fiber 0 has provided a service and an effect and is committed, Fiber 1 is being activated. -/
def providingRun : List ContextLabel :=
  [0, 1].flatMap (fun f => (([.install 0 none ⟨[], [7], .Restart⟩ false, .fiber f .installIndex,
    .fiber f (.installValidate (.ok ())), .fiber f (.installCheck true), .fiber f (.activationLock 0),
    .fiber f (.activationBegin 0 true (.ok 0)), .fiber f (.activationPoll 0)] : List RuntimeLabel).map .runtime)) ++
  [.capture 0, .lease 0, .effect 0 5, .check 0 7, .insert 0, .finish 0] ++
  ([.activationReturn 0 (.ok ()), .activationSeal 0 true, .activationValidate 0, .activationReadStaged 0,
      .activationCheck 0 (.ok ()),
    .activationCommit 0 (.ok ()) .NONE, .activationRelease 0, .installActivated] : List FiberLabel).map
      (.runtime ∘ .fiber 0) ++
  [.capture 1, .lease 1]

/-- Fiber 1 takes a handle on the service. -/
def lookupRun : List HandleLabel :=
  providingRun.map .contexts ++ [.tryGet 1 7, .ancestry 1, .owned 1, .visible 1, .acquire 1, .contexts (.finish 1)]

/-- Fiber 0 is disposed. -/
def disposeRun : List HandleLabel :=
  ([.callDispose false false false, .workerLookup, .workerLock, .takeTasks, .tasksJoined (.ok ())] :
    List FiberLabel).map (.contexts ∘ .runtime ∘ .fiber 0)

theorem service_handle_pins_disposed :
    ∃ w w' handle c c', Reach step anyStep .new w ∧ Reach step anyStep w w' ∧ w.handles 0 = some handle ∧
      handle.provider = 0 ∧ w'.contexts.runtime.fibers 0 = some c' ∧ c'.inner.disposal.phase = .Draining ∧
      w'.step (.contexts (.runtime (.fiber 0 .drained))) = none ∧ w.contexts.runtime.fibers 0 = some c ∧
      Runtime.gateOf c' = handle.gate ∧ c.inner.effects <+: c'.inner.effects := by
  have hrun : ((run step .new lookupRun).any fun w => (run step w disposeRun).any fun w' =>
      w.handles 0 = some ⟨0, ⟨0, 1⟩, 0, 7⟩ ∧ w'.handles 0 = some ⟨0, ⟨0, 1⟩, 0, 7⟩ ∧
        (w'.contexts.runtime.fibers 0).any (fun c => c.inner.disposal.phase = .Draining) ∧
        (w'.step (.contexts (.runtime (.fiber 0 .drained)))).isNone) = true := by
    decide +kernel
  obtain ⟨w, hw, hrun⟩ := (Option.any_eq_true _ _).mp hrun
  obtain ⟨w', hw', hrun⟩ := (Option.any_eq_true _ _).mp hrun
  obtain ⟨hn, hn', hphase, hnone⟩ := of_decide_eq_true hrun
  obtain ⟨d, hd, hdraining⟩ := (Option.any_eq_true _ _).mp hphase
  obtain ⟨c, c', hc, hc', -, hgate', -, -, hprefix⟩ :=
    service_handle_pins (reach_of_run hw) (reach_of_run hw') hn hn'
  obtain rfl := Option.some.inj (hd.symm.trans hc')
  exact ⟨w, w', _, c, d, reach_of_run hw, reach_of_run hw', hn, rfl, hd, of_decide_eq_true hdraining,
    Option.isNone_iff_eq_none.mp hnone, hc, hgate', hprefix⟩

end Handles

end Cordis
