import Cordis.Fiber.Mutex

/-!
# A permanent disposal is permanent

A Fiber keeps one disposal record across a dependency-loss disposal: phase, completion and waiting
flag are only reset by the next activation. A call that asks for a permanent disposal clears the
waiting flag of the record it finds, which binds the worker as long as the worker has not read the
flag yet (`readTarget`). `Heard` is the condition that every permanent request finds such a record:
it joins neither a round that already ended in `WaitingDependencies` nor one whose worker has
already chosen that target. Under it, an observation that reports `Committed` to a permanent request
means `Disposed`, for good.
-/

namespace Cordis

open Machine

/-- The current round ends, or has ended, in `WaitingDependencies`. -/
def FiberCell.JoinsRestart (c : FiberCell) : Prop :=
  (c.inner.disposal.phase = .Complete ∧ c.inner.state ≠ .Disposed) ∨
    c.worker.bind DisposalPc.target = some .WaitingDependencies

instance (c : FiberCell) : Decidable c.JoinsRestart :=
  inferInstanceAs (Decidable (_ ∨ _))

/-- A request for a permanent disposal does not join a round that ends in a restart. -/
def FiberCell.Heard (c : FiberCell) : FiberLabel → Prop
  | .callDispose false _ _ => ¬ c.JoinsRestart
  | .activationDispose _ => ¬ c.JoinsRestart
  | _ => True

instance (c : FiberCell) (l : FiberLabel) : Decidable (c.Heard l) := by
  apply l.casesOn (motive := fun l => Decidable (c.Heard l)) <;> intros <;> unfold FiberCell.Heard
  case callDispose w _ _ =>
    exact w.casesOn (inferInstanceAs (Decidable (¬ c.JoinsRestart))) (inferInstanceAs (Decidable True))
  all_goals infer_instance

variable {c c' d : FiberCell} {l : FiberLabel} {k : Control}

theorem heard_of_requests (hl : c.Heard l) (h : l.Requests false) : ¬ c.JoinsRestart := by
  rcases h with ⟨p, a, rfl⟩ | ⟨-, n, rfl⟩ <;> exact hl

/-! ## The disposal record -/

/-- What holds of the disposal record in every run. -/
structure Control.Consistent (k : Control) : Prop where
  running : ∀ pc, k.worker = some pc → k.phase.running = true
  cancelled : ∀ pc, k.worker = some pc → k.cancelled = true
  target : ∀ pc t, k.worker = some pc → pc.target = some t →
    t = .Disposed ∨ t = .WaitingDependencies
  decided : ∀ pc, k.worker = some pc → pc.ended = true → pc.terminated = false →
    ∃ t, pc.target = some t
  faithful : ∀ pc, k.worker = some pc → pc.Faithful
  unpublished : k.phase = .Idle ∨ k.worker.isSome → k.published k.completion = none
  /-- A committed observation belongs to a completed round. -/
  committed : ∀ o, k.published k.completion = some o → o.IsCommitted → k.phase = .Complete
  sincere : ∀ n o, k.published n = some o → o.legacyResult = .ok () → o.IsCommitted
  rounds : ∀ n call, k.calls n = some call → call.round < k.nextCompletion
  uncalled : ∀ n, k.nextCall ≤ n → k.calls n = none
  current : k.completion < k.nextCompletion
  unused : ∀ n, k.nextCompletion ≤ n → k.published n = none
  /-- A Fiber ends `Disposed` through a completed round. -/
  disposed : k.state = .Disposed →
    k.worker = none ∧ k.phase = .Complete ∧ k.cancelled = true

theorem consistent_created (id : FiberId) (plugin : PluginId) (scope : ScopeId)
    (descriptor : PluginDescriptor) (generation : GenerationId) (staged : Bool) :
    (FiberCell.created id plugin scope descriptor generation staged).control.Consistent := by
  constructor <;>
    simp [FiberCell.control, FiberCell.created, FiberMutable.created, FiberDisposal.fresh]

theorem consistent_written {s' : FiberState} (hk : k.Consistent) (hs : s' ≠ .Disposed) :
    Control.Consistent { k with state := s' } :=
  { hk with disposed := fun h => absurd h hs }

theorem consistent_called {d : DisposeCall} {w : Bool} (hk : k.Consistent)
    (hround : d.round = k.completion) :
    Control.Consistent { k with
      waits := w, calls := Function.update k.calls k.nextCall (some d)
      nextCall := k.nextCall + 1 } := by
  refine { hk with rounds := fun n called h => ?_, uncalled := fun n h => ?_ }
  · by_cases hn : n = k.nextCall
    · subst hn
      obtain rfl : d = called := by simpa using h
      rw [hround]
      exact hk.current
    · exact hk.rounds n called (by simpa [Function.update_of_ne hn] using h)
  · have hn : n ≠ k.nextCall := Nat.ne_of_gt h
    exact (Function.update_of_ne hn _ _).trans (hk.uncalled n (Nat.le_of_succ_le h))

theorem consistent_counted (hk : k.Consistent) :
    Control.Consistent { k with nextCompletion := k.nextCompletion + 1 } :=
  { hk with
    rounds := fun n call h => Nat.lt_succ_of_lt (hk.rounds n call h)
    current := Nat.lt_succ_of_lt hk.current
    unused := fun n h => hk.unused n (Nat.le_of_succ_le h) }

theorem consistent_published {o : DisposalObservation} {b : Bool} {s : FiberState}
    (hk : k.Consistent) (ho : o.IsCommitted → b = false)
    (hsincere : o.legacyResult = .ok () → o.IsCommitted) (hopen : k.published k.completion = none)
    (hs : s = .Disposed → b = false ∧ k.cancelled = true) :
    Control.Consistent { k with
      state := s
      phase := if b then .Terminated else .Complete
      worker := none
      published := Function.update k.published k.completion
        ((k.published k.completion).or (some o)) } where
  running := by simp
  cancelled := by simp
  target := by simp
  decided := by simp
  faithful := by simp
  unpublished := by cases b <;> simp
  sincere := by
    intro n q hq
    by_cases hn : n = k.completion
    · subst hn
      obtain rfl : o = q := by simpa [hopen] using hq
      exact hsincere
    · exact hk.sincere n q (by simpa [Function.update_of_ne hn] using hq)
  committed := by
    intro q hq hcom
    obtain rfl : o = q := by simpa [hopen] using hq
    simp [ho hcom]
  rounds := hk.rounds
  uncalled := hk.uncalled
  current := hk.current
  unused := by
    intro n hn
    have hne : n ≠ k.completion := by
      have := hk.current
      change k.nextCompletion ≤ n at hn
      omega
    exact (Function.update_of_ne hne _ _).trans (hk.unused n hn)
  disposed := by
    intro h
    obtain ⟨hb, hc⟩ := hs h
    exact ⟨rfl, by simp [hb], hc⟩

theorem consistent_move (hc : c.control.Consistent) (hm : Move l c k) : k.Consistent := by
  cases hm with
  | quiet => exact hc
  | start s' hfrom =>
    rcases hfrom with rfl | ⟨-, rfl⟩
    · exact consistent_counted hc
    · exact consistent_counted (consistent_written hc (by simp))
  | restart s' hwaiting hcomplete hnext =>
    have hidle : c.worker = none := by
      by_contra hne
      obtain ⟨pc, hw⟩ := Option.ne_none_iff_exists'.mp hne
      have hrunning := hc.running pc hw
      rw [show c.control.phase = .Complete from hcomplete] at hrunning
      contradiction
    have hunused : c.published c.nextCompletion = none := hc.unused _ (Nat.le_refl _)
    exact {
      running := fun pc hw => by simp [FiberCell.control, hidle] at hw
      cancelled := fun pc hw => by simp [FiberCell.control, hidle] at hw
      target := fun pc t hw => by simp [FiberCell.control, hidle] at hw
      decided := fun pc hw => by simp [FiberCell.control, hidle] at hw
      faithful := fun pc hw => by simp [FiberCell.control, hidle] at hw
      sincere := hc.sincere
      unpublished := fun _ => hunused
      committed := fun o ho => by simp [FiberCell.control, hunused] at ho
      rounds := fun n call h => Nat.lt_succ_of_lt (hc.rounds n call h)
      uncalled := hc.uncalled
      current := Nat.lt_succ_self _
      unused := fun n h => hc.unused n (Nat.le_of_succ_le h)
      disposed := fun h => by rcases hnext with rfl | rfl <;> contradiction }
  | deferred => exact consistent_written hc (by simp)
  | parked => exact consistent_written hc (by simp)
  | written s' _ hnext =>
    refine consistent_written hc ?_
    rcases hnext with rfl | rfl | rfl <;> simp
  | failed s' hnext =>
    refine { hc with
      cancelled := fun _ _ => rfl
      disposed := fun h => ?_ }
    rcases hnext with rfl | ⟨-, rfl⟩
    · exact ⟨(hc.disposed h).1, (hc.disposed h).2.1, rfl⟩
    · contradiction
  | refused => exact { hc with }
  | joined => exact consistent_called hc rfl
  | requested w p a hl hidle hlegal =>
    have hopen := hc.unpublished (.inl hidle)
    refine { consistent_called (w := c.inner.disposal.waitForDependencies && w)
      (d := ⟨w, p, a, c.inner.disposal.completion⟩) hc rfl with
      running := fun _ _ => rfl
      cancelled := fun _ _ => rfl
      target := fun pc t hw ht => ?_
      decided := fun pc hw he => ?_
      faithful := fun pc hw => ?_
      unpublished := fun _ => hopen
      committed := fun o ho => ?_
      disposed := fun h => ?_ }
    · obtain rfl : DisposalPc.spawned = pc := Option.some.inj hw
      contradiction
    · obtain rfl : DisposalPc.spawned = pc := Option.some.inj hw
      contradiction
    · obtain rfl : DisposalPc.spawned = pc := Option.some.inj hw
      trivial
    · exact absurd (hopen.symm.trans ho) (by simp)
    · contradiction
  | worked pc pc' ph' b hwas hnext hphase htoken =>
    have hrunning : ph'.running = true := by
      rcases hphase with rfl | hphase
      · exact hc.running pc hwas
      · exact hphase
    have hopen := hc.unpublished (.inr (by simp [FiberCell.control, hwas]))
    refine { hc with
      running := fun _ _ => hrunning
      cancelled := fun _ _ => htoken (hc.cancelled pc hwas)
      target := fun q t hw ht => ?_
      decided := fun q hw he ht => ?_
      faithful := fun q hw => ?_
      unpublished := fun _ => hopen
      committed := fun o ho => ?_
      disposed := fun h => ?_ }
    · obtain rfl : pc' = q := Option.some.inj hw
      exact hnext.lawful (fun t ht => hc.target pc t hwas ht) t ht
    · obtain rfl : pc' = q := Option.some.inj hw
      rcases hnext.ended he with hended | hterm | hdone
      · have hopen : pc.terminated = false := by
          by_contra hterm
          rw [hnext.terminated (by simpa using hterm)] at ht
          contradiction
        obtain ⟨t, htarget⟩ := hc.decided pc hwas hended hopen
        exact ⟨t, (hnext.kept hended).2.trans htarget⟩
      · rw [hterm] at ht
        contradiction
      · exact hdone
    · obtain rfl : pc' = q := Option.some.inj hw
      exact hnext.faithful (hc.faithful pc hwas)
    · exact absurd (hopen.symm.trans ho) (by simp)
    · exact absurd (hwas.symm.trans (hc.disposed h).1) (by simp)
  | gaveUp pc hwas =>
    exact { hc with
      running := by simp
      cancelled := by simp
      target := by simp
      decided := by simp
      faithful := by simp
      unpublished := fun _ => hc.unpublished (.inr (by simp [FiberCell.control, hwas]))
      disposed := fun h => ⟨rfl, (hc.disposed h).2⟩ }
  | finalized result target terminated hwas =>
    have hopen := hc.unpublished (.inr (by simp [FiberCell.control, hwas]))
    refine consistent_published (b := terminated) hc ?_ ?_ hopen fun h => ?_
    · intro hcom
      cases terminated with
      | false => rfl
      | true => simp [FiberMutable.finalizeCommit, DisposalObservation.IsCommitted] at hcom
    · intro hok
      cases terminated with
      | false => rfl
      | true => exact absurd hok (hc.faithful _ hwas rfl)
    · refine ⟨?_, hc.cancelled _ hwas⟩
      cases terminated with
      | false => rfl
      | true => exact absurd (hwas.symm.trans (hc.disposed h).1) (by simp)

/-! ## Disposed is final -/

/-- An activation that passed its poll never meets a worker that can still commit. -/
def FiberCell.Shielded (c : FiberCell) : Prop :=
  ∀ n pc, c.activations n = some pc → pc.live = true →
    c.inner.state ≠ .Disposed ∧ ∀ w, c.worker = some w → w.early = true ∨ w.terminated = true

theorem shielded_move (hlock : c.lifecycle ≠ none) (hstate : c.inner.state ≠ .Disposed)
    (hworker : ∀ w, c.worker = some w → w.early = true ∨ w.terminated = true)
    (hm : Move l c k) :
    k.state ≠ .Disposed ∧ ∀ w, k.worker = some w → w.early = true ∨ w.terminated = true := by
  cases hm with
  | quiet => exact ⟨hstate, hworker⟩
  | start s' hfrom =>
    refine ⟨?_, hworker⟩
    rcases hfrom with rfl | ⟨-, rfl⟩
    · exact hstate
    · simp
  | restart s' _ _ hnext =>
    refine ⟨?_, hworker⟩
    rcases hnext with rfl | rfl <;> simp
  | deferred => exact ⟨by simp, hworker⟩
  | parked => exact ⟨by simp, hworker⟩
  | written s' _ hnext =>
    refine ⟨?_, hworker⟩
    rcases hnext with rfl | rfl | rfl <;> simp
  | failed s' hnext =>
    refine ⟨?_, hworker⟩
    rcases hnext with rfl | ⟨-, rfl⟩
    · exact hstate
    · simp
  | refused => exact ⟨hstate, hworker⟩
  | joined => exact ⟨hstate, hworker⟩
  | requested =>
    refine ⟨by simp, fun w hw => ?_⟩
    obtain rfl : DisposalPc.spawned = w := Option.some.inj hw
    exact .inl rfl
  | worked pc pc' _ _ hwas hnext =>
    refine ⟨hstate, fun w hw => ?_⟩
    obtain rfl : pc' = w := Option.some.inj hw
    rcases hworker pc hwas with hearly | hterm
    · rcases hnext.early hearly with h | h | h
      · exact .inl h
      · exact .inr h
      · exact absurd h hlock
    · exact .inr (hnext.terminated hterm)
  | gaveUp => exact ⟨hstate, by simp⟩
  | finalized result target terminated hwas =>
    refine ⟨?_, by simp⟩
    rcases hworker _ hwas with h | h
    · contradiction
    · obtain rfl : terminated = true := h
      exact hstate

theorem shielded_step (hex : c.Exclusive) (hc : c.control.Consistent) (hs : c.Shielded)
    (h : c.step l = some c') : c'.Shielded := by
  intro m q hq hlive
  -- whichever thread moved, call `m` was inside the mutex and shielded before
  have hbefore : c.lifecycle ≠ none ∧ c.inner.state ≠ .Disposed ∧
      ∀ w, c.worker = some w → w.early = true ∨ w.terminated = true := by
    have hother : ∀ pc, c.activations m = some pc → pc.live = true → c.lifecycle ≠ none ∧
        c.inner.state ≠ .Disposed ∧
        ∀ w, c.worker = some w → w.early = true ∨ w.terminated = true := fun pc hpc hl => by
      refine ⟨?_, hs m pc hpc hl⟩
      rw [hex m pc hpc (ActivationPc.held_of_live hl)]
      simp
    rcases step_thread h with ⟨n, pc, hpc, hstep⟩ | haside
    · obtain ⟨pc', hnext⟩ := stepActivation_next hstep
      rw [hnext.moved] at hq
      by_cases hm : m = n
      · subst hm
        obtain rfl : pc' = q := by simpa using hq
        rcases hnext.live hlive with hl | hfresh
        · exact hother pc hpc hl
        · have hheld : pc.held = true := by
            rcases hnext.mutex with ⟨-, -, hl⟩ | ⟨-, hkept⟩ | ⟨hheld, -, -⟩
            · rw [hlive] at hl
              contradiction
            · exact hkept (ActivationPc.held_of_live hlive)
            · exact hheld
          refine ⟨by rw [hex m pc hpc hheld]; simp, fun hd => ?_, fun w hw => ?_⟩
          · have htoken := (hc.disposed hd).2.2
            rw [show c.control.cancelled = false from hfresh] at htoken
            contradiction
          · have htoken := hc.cancelled w hw
            rw [show c.control.cancelled = false from hfresh] at htoken
            contradiction
      · exact hother q (by simpa [Function.update_of_ne hm] using hq) hlive
    · rcases haside.activations m q hq with hq | rfl
      · exact hother q hq hlive
      · contradiction
  exact shielded_move hbefore.1 hbefore.2.1 hbefore.2.2 (step_move h)

/-- What holds of a Fiber in every run. -/
structure FiberCell.Sound (c : FiberCell) : Prop where
  exclusive : c.Exclusive
  consistent : c.control.Consistent
  shielded : c.Shielded

theorem sound_created (id : FiberId) (plugin : PluginId) (scope : ScopeId)
    (descriptor : PluginDescriptor) (generation : GenerationId) (staged : Bool) :
    (FiberCell.created id plugin scope descriptor generation staged).Sound where
  exclusive := by simp [FiberCell.Exclusive, FiberCell.created]
  consistent := consistent_created ..
  shielded := by simp [FiberCell.Shielded, FiberCell.created]

theorem sound_step (hc : c.Sound) (h : c.step l = some c') : c'.Sound where
  exclusive := exclusive_step hc.exclusive h
  consistent := consistent_move hc.consistent (step_move h)
  shielded := shielded_step hc.exclusive hc.consistent hc.shielded h

theorem sound_reach {ok : FiberCell → FiberLabel → Prop} (hc : c.Sound)
    (hr : Reach FiberCell.step ok c d) : d.Sound :=
  hr.invariant (I := FiberCell.Sound) hc fun _ _ _ ht _ h => sound_step ht h

theorem disposed_move (hc : c.Sound) (hd : c.inner.state = .Disposed) (hm : Move l c k) :
    k.state = .Disposed := by
  have hidle : c.worker = none := (hc.consistent.disposed hd).1
  cases hm with
  | quiet => exact hd
  | start s' hfrom =>
    rcases hfrom with rfl | ⟨hs, -⟩
    · exact hd
    · rw [hd] at hs
      simp at hs
  | restart s' hwaiting =>
    rw [hd] at hwaiting
    contradiction
  | deferred n _ hpc => exact absurd hd (hc.shielded n _ hpc rfl).1
  | parked _ hlegal =>
    rw [hd, FiberState.not_canTransitionTo_of_disposed] at hlegal
    contradiction
  | written s' hlegal =>
    rw [hd, FiberState.not_canTransitionTo_of_disposed] at hlegal
    contradiction
  | failed s' hnext =>
    rcases hnext with rfl | ⟨hs, -⟩
    · exact hd
    · rw [hd] at hs
      contradiction
  | refused => exact hd
  | joined => exact hd
  | requested w p a _ hidle' =>
    have := (hc.consistent.disposed hd).2.1
    rw [show c.control.phase = .Idle from hidle'] at this
    contradiction
  | worked pc _ _ _ hwas =>
    rw [hidle] at hwas
    contradiction
  | gaveUp => exact hd
  | finalized _ _ _ hwas =>
    rw [hidle] at hwas
    contradiction

/-- **`Disposed` is final in every run**, whatever the callers do. -/
theorem disposed_reach {ok : FiberCell → FiberLabel → Prop} (hc : c.Sound)
    (hd : c.inner.state = .Disposed) (hr : Reach FiberCell.step ok c d) :
    d.inner.state = .Disposed := by
  have hboth : d.Sound ∧ d.inner.state = .Disposed := by
    refine hr.invariant (I := fun c => c.Sound ∧ c.inner.state = .Disposed) ⟨hc, hd⟩ ?_
    rintro t a u ⟨ht, htd⟩ - hstep
    exact ⟨sound_step ht hstep, disposed_move ht htd (step_move hstep)⟩
  exact hboth.2

/-! ## Permanent requests -/

/-- What a permanent request on round `round` is owed: once the round is published as committed the
Fiber is `Disposed`, and while it is the current round the waiting flag is down and no worker aims
at `WaitingDependencies`. -/
structure Control.Owes (k : Control) (round : Nat) : Prop where
  settled : ∀ o, k.published round = some o → o.IsCommitted → k.state = .Disposed
  lowered : round = k.completion →
    k.waits = false ∧ k.worker.bind DisposalPc.target ≠ some .WaitingDependencies

/-- Every permanent request gets what it is owed. -/
def Control.Honest (k : Control) : Prop :=
  ∀ n call, k.calls n = some call → call.waitForDependencies = false → k.Owes call.round

theorem owes_move {round : Nat} (hc : c.Sound) (hround : round < c.nextCompletion)
    (ho : c.control.Owes round) (hm : Move l c k) : k.Owes round := by
  have hkeep : ∀ o, c.published round = some o → o.IsCommitted → k.state = .Disposed :=
    fun o h hcom => disposed_move hc (ho.settled o h hcom) hm
  cases hm with
  | quiet => exact ho
  | start => exact ⟨hkeep, ho.lowered⟩
  | restart =>
    refine ⟨hkeep, fun h => ?_⟩
    exact absurd h (Nat.ne_of_lt hround)
  | deferred => exact ⟨hkeep, ho.lowered⟩
  | parked => exact ⟨hkeep, ho.lowered⟩
  | written => exact ⟨hkeep, ho.lowered⟩
  | failed => exact ⟨hkeep, ho.lowered⟩
  | refused w =>
    refine ⟨hkeep, fun h => ?_⟩
    obtain ⟨hwaits, htarget⟩ := ho.lowered h
    exact ⟨by simp [show c.inner.disposal.waitForDependencies = false from hwaits], htarget⟩
  | joined w =>
    refine ⟨hkeep, fun h => ?_⟩
    obtain ⟨hwaits, htarget⟩ := ho.lowered h
    exact ⟨by simp [show c.inner.disposal.waitForDependencies = false from hwaits], htarget⟩
  | requested w =>
    refine ⟨hkeep, fun h => ?_⟩
    obtain ⟨hwaits, htarget⟩ := ho.lowered h
    exact ⟨by simp [show c.inner.disposal.waitForDependencies = false from hwaits],
      by simp [DisposalPc.target]⟩
  | worked pc pc' _ _ hwas hnext =>
    refine ⟨hkeep, fun h => ?_⟩
    obtain ⟨hwaits, htarget⟩ := ho.lowered h
    refine ⟨hwaits, ?_⟩
    have hold : pc.target ≠ some .WaitingDependencies := by
      simpa [FiberCell.control, hwas] using htarget
    change pc'.target ≠ _
    rcases hnext.target with h | h | h | ⟨-, h⟩
    · rw [h]
      exact hold
    · simp [h]
    · simp [h]
    · rw [show c.inner.disposal.waitForDependencies = false from hwaits] at h
      contradiction
  | gaveUp => exact ⟨hkeep, fun h => ⟨(ho.lowered h).1, by simp⟩⟩
  | finalized result target terminated hwas =>
    refine ⟨fun o h hcom => ?_, fun h => ⟨(ho.lowered h).1, by simp⟩⟩
    by_cases hcur : round = c.inner.disposal.completion
    · subst hcur
      have hopen : c.published c.inner.disposal.completion = none :=
        hc.consistent.unpublished (.inr (by simp [FiberCell.control, hwas]))
      obtain rfl : (c.inner.finalizeCommit result target terminated).2 = o := by
        simpa [hopen] using h
      have hterm : terminated = false := by
        cases terminated with
        | false => rfl
        | true => simp [FiberMutable.finalizeCommit, DisposalObservation.IsCommitted] at hcom
      subst hterm
      obtain ⟨t, ht⟩ := hc.consistent.decided _ hwas rfl rfl
      obtain rfl : target = some t := ht
      have haim : t ≠ .WaitingDependencies := by
        have := (ho.lowered rfl).2
        rw [show c.control.worker = some _ from hwas] at this
        simpa [DisposalPc.target] using this
      rcases hc.consistent.target _ t hwas rfl with rfl | rfl
      · rfl
      · exact absurd rfl haim
    · exact hkeep o (by simpa [Function.update_of_ne hcur] using h) hcom

/-- A permanent request that joins a round which does not end in a restart is owed the round. -/
theorem owes_joined (hc : c.Sound) (hjoin : ¬ c.JoinsRestart)
    (hwaits : k.waits = false) (hpublished : k.published = c.published)
    (hstate : k.state = c.inner.state)
    (hworker : k.worker = c.worker) : k.Owes c.inner.disposal.completion where
  settled := by
    intro o h hcom
    rw [hpublished] at h
    have hphase : c.inner.disposal.phase = .Complete := hc.consistent.committed o h hcom
    rw [hstate]
    by_contra hne
    exact hjoin (.inl ⟨hphase, hne⟩)
  lowered := by
    intro _
    refine ⟨hwaits, fun h => hjoin (.inr ?_)⟩
    rw [← hworker]
    exact h

theorem honest_move (hc : c.Sound) (hl : c.Heard l) (hk : c.control.Honest) (hm : Move l c k) :
    k.Honest := by
  have hold : ∀ n call, c.calls n = some call → call.waitForDependencies = false →
      k.Owes call.round := fun n call h hw =>
    owes_move hc (hc.consistent.rounds n call h) (hk n call h hw) hm
  intro n call h hw
  cases hm with
  | joined w p a hreq hphase =>
    by_cases hn : n = c.nextCall
    · subst hn
      obtain rfl : (⟨w, p, a, c.inner.disposal.completion⟩ : DisposeCall) = call := by
        simpa using h
      obtain rfl : w = false := hw
      exact owes_joined hc (heard_of_requests hl hreq) (by simp) rfl rfl rfl
    · exact hold n call (by simpa [Function.update_of_ne hn] using h) hw
  | requested w p a hreq hidle =>
    by_cases hn : n = c.nextCall
    · subst hn
      obtain rfl : (⟨w, p, a, c.inner.disposal.completion⟩ : DisposeCall) = call := by
        simpa using h
      obtain rfl : w = false := hw
      have hopen : c.published c.inner.disposal.completion = none :=
        hc.consistent.unpublished (.inl hidle)
      refine ⟨fun o ho => ?_, fun _ => ⟨by simp, by simp [DisposalPc.target]⟩⟩
      exact absurd (hopen.symm.trans ho) (by simp)
    · exact hold n call (by simpa [Function.update_of_ne hn] using h) hw
  | _ => exact hold n call h hw

/-- **A permanent disposal is permanent.** In a run whose permanent requests are heard, a published
observation that reports `Committed` to one of them means that the Fiber is `Disposed`, now and
after any further steps of any thread. -/
theorem permanent_disposal_final (id : FiberId) (plugin : PluginId) (scope : ScopeId)
    (descriptor : PluginDescriptor) (generation : GenerationId) (staged : Bool)
    (hr : Reach FiberCell.step FiberCell.Heard
      (FiberCell.created id plugin scope descriptor generation staged) c)
    {n : Nat} {call : DisposeCall} {o : DisposalObservation} (hcall : c.calls n = some call)
    (hpermanent : call.waitForDependencies = false)
    (ho : c.published call.round = some o) (hcom : o.IsCommitted) :
    c.inner.state = .Disposed ∧
      ∀ d, Reach FiberCell.step anyStep c d → d.inner.state = .Disposed := by
  have hboth : c.Sound ∧ c.control.Honest := by
    refine hr.invariant (I := fun c => c.Sound ∧ c.control.Honest)
      ⟨sound_created .., fun n call h => by simp [FiberCell.control, FiberCell.created] at h⟩ ?_
    rintro t a u ⟨ht, hk⟩ hl hstep
    exact ⟨sound_step ht hstep, honest_move ht hl hk (step_move hstep)⟩
  have hd : c.inner.state = .Disposed := (hboth.2 n call hcall hpermanent).settled o ho hcom
  exact ⟨hd, fun d hrd => disposed_reach hboth.1 hd hrd⟩

/-- The labels of a disposal round that finds nothing to clean up, from the spawned worker on. -/
def quietRound : List FiberLabel :=
  [.workerLookup, .workerLock, .takeTasks, .tasksJoined (.ok ()), .drained, .pickChild,
    .unregister, .withdraw, .takeEffect, .readTarget, .reconciled (.ok ()), .report,
    .finalizeBegin, .indexCleanup, .finalizeCommit]

/-- The install and activation of a Fiber with one dependency, which is met. -/
def activeFiber : List FiberLabel :=
  [.installIndex, .installValidate (.ok ()), .installCheck true, .activationLock 0,
    .activationBegin 0 true (.ok 2), .activationPoll 0, .activationReturn 0 (.ok ()),
    .activationSeal 0 true, .activationValidate 0, .activationReadStaged 0, .activationCheck 0 (.ok ()),
    .activationCommit 0 (.ok ()) .NONE, .activationRelease 0, .installActivated]

/-- The Fiber of the runs below: it depends on service 7. -/
def dependentFiber : FiberCell := .created 1 0 0 ⟨[7], [], .Restart⟩ 1 false

/-- A permanent request joins a round that a dependency loss opened. -/
theorem permanent_disposal_final_joined :
    ∃ c, c.inner.state = .Disposed ∧ ∀ d, Reach FiberCell.step anyStep c d →
      d.inner.state = .Disposed := by
  obtain ⟨c, hrun, call, o, hcall, hwait, ho, hcom⟩ : ∃ c,
      runIf FiberCell.step FiberCell.Heard dependentFiber
        (activeFiber ++ [.callDispose true false false, .callDispose false false false] ++
          quietRound) = some c ∧
      ∃ call o, c.calls 1 = some call ∧ call.waitForDependencies = false ∧
        c.published call.round = some o ∧ o.terminal = .Committed :=
    ⟨_, rfl, _, _, rfl, rfl, rfl, rfl⟩
  exact ⟨c, permanent_disposal_final 1 0 0 ⟨[7], [], .Restart⟩ 1 false (reach_of_runIf hrun)
    hcall hwait ho hcom⟩

/-- Without the condition a request that arrives after the dependency loss was finalized reads the
stale observation of that round: `Committed`, while the Fiber is back in `WaitingDependencies`. -/
theorem stale_completion_not_final :
    ¬ ∀ c₀, (∃ id plugin scope descriptor generation staged,
        c₀ = FiberCell.created id plugin scope descriptor generation staged) →
      ∀ c, Reach FiberCell.step anyStep c₀ c → ∀ n call o, c.calls n = some call →
        call.waitForDependencies = false → c.published call.round = some o → o.IsCommitted →
        c.inner.state = .Disposed := by
  intro h
  obtain ⟨c, hrun, call, o, hcall, hwait, ho, hcom, hstate⟩ : ∃ c,
      run FiberCell.step dependentFiber (activeFiber ++ [.callDispose true false false] ++
        quietRound ++ [.callDispose false false false]) = some c ∧
      ∃ call o, c.calls 1 = some call ∧ call.waitForDependencies = false ∧
        c.published call.round = some o ∧ o.terminal = .Committed ∧
        c.inner.state = .WaitingDependencies :=
    ⟨_, rfl, _, _, rfl, rfl, rfl, rfl, rfl⟩
  have := h dependentFiber ⟨1, 0, 0, _, 1, false, rfl⟩ c (reach_of_run hrun) 1 call o hcall hwait
    ho hcom
  rw [hstate] at this
  contradiction

end Cordis
