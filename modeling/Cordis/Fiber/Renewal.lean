import Cordis.Fiber.Activation

/-!
# A gate is activated once

A Fiber goes back to `WaitingDependencies` when a round ends, or because the install that created it parks
it; it never goes back to `Created`. If the install does not park a Fiber that is being disposed of, a gate
for which an activation has begun is not begun again: what comes back from a completed round gets a new one.
-/

namespace Cordis

variable {c c' : FiberCell} {l : FiberLabel}

/-- `install_arc` does not park a Fiber that is being disposed of. -/
def FiberCell.Unparked (c : FiberCell) : FiberLabel → Prop
  | .installWait => c.inner.state ≠ .Disposing
  | _ => True

instance (c : FiberCell) (l : FiberLabel) : Decidable (c.Unparked l) := by
  unfold FiberCell.Unparked
  split <;> infer_instance

/-- An activation may begin. -/
def FiberState.idle : FiberState → Bool
  | Created | WaitingDependencies => true
  | _ => false

/-- No worker runs for a Fiber whose activation may begin. -/
def FiberCell.Resting (c : FiberCell) : Prop := c.inner.state.idle = true → c.worker = none

theorem resting_step (hrest : c.Resting) (hl : c.Unparked l) (h : c.step l = some c') : c'.Resting := by
  have hmove := step_move h
  have hstate : c'.control.state = c'.inner.state := rfl
  have hworker : c'.control.worker = c'.worker := rfl
  unfold FiberCell.Resting
  rw [← hstate, ← hworker]
  generalize c'.control = k at hmove
  cases hmove with
  | quiet | refused | joined => exact hrest
  | start s' from_ =>
    rcases from_ with rfl | ⟨-, rfl⟩
    · exact hrest
    · exact fun hidle => by contradiction
  | restart s' waiting =>
    have hnone := hrest (by rw [waiting]; rfl)
    exact fun _ => hnone
  | deferred | requested => exact fun hidle => by contradiction
  | parked label legal =>
    subst label
    have hcreated : c.inner.state = .Created := by
      have hne : c.inner.state ≠ .Disposing := hl
      cases hs : c.inner.state <;> simp_all [FiberState.canTransitionTo]
    have hnone := hrest (by rw [hcreated]; rfl)
    exact fun _ => hnone
  | written s' _ next =>
    rcases next with rfl | rfl | rfl <;> exact fun hidle => by contradiction
  | failed s' next =>
    rcases next with rfl | ⟨-, rfl⟩
    · exact hrest
    · exact fun hidle => by contradiction
  | worked pc pc' _ _ was =>
    intro hidle
    have hnone := hrest hidle
    rw [was] at hnone
    contradiction
  | gaveUp | finalized => exact fun _ => rfl

theorem step_nextCompletion (h : c.step l = some c') (hl : ∀ n a x, l ≠ .activationBegin n a x) :
    c'.nextCompletion = c.nextCompletion := by
  cases step_turn h with
  | activation n pc label was step =>
    cases l <;> simp only [FiberCell.stepActivation, withMut_eq] at step <;> try contradiction
    case activationBegin call a x => exact absurd rfl (hl call a x)
    case activationDispose m =>
      obtain ⟨e, pc', -, rfl⟩ := stepDispose_eq (m := m) step
      rw [dispose_eq]
      rfl
    all_goals
      repeat' split at step
      all_goals first
        | contradiction
        | (cases step; rfl)
  | worker _ _ step => rw [stepWorker_eq step]
  | reload _ _ step => rw [stepReload_eq step]
  | install step => rw [stepInstall_eq step]
  | disposed w p a _ now => rw [now, dispose_eq]
  | called _ _ now | replaced _ _ now | cutover _ _ _ _ _ now | hostFailed _ _ _ now | reclaimed _ _ _ now
  | registered _ _ _ now | detached _ _ now | acquired _ _ _ now | dropped _ _ _ now =>
    subst now
    rfl

/-- The first section of an activation; `g` is the next generation. -/
inductive FiberCell.Begins (n : Nat) (g : GenerationId) (c c' : FiberCell) : Prop
  | refused (e : CordisError) (now : c'.activations n = some (.returned (.error e))) (inner : c'.inner = c.inner)
  | kept (now : c'.activations n = some .selecting) (idle : c.inner.state.idle = true)
      (incomplete : c.inner.state = .WaitingDependencies → c.inner.disposal.phase ≠ .Complete)
      (starting : c'.inner.state = .Starting) (generation : c'.generation = c.generation)
      (staged : c'.inner.staged = c.inner.staged)
  | renewed (now : c'.activations n = some .selecting) (starting : c'.inner.state = .Starting)
      (generation : c'.generation = g) (staged : c'.inner.staged = c.inner.staged)

theorem step_begins {n : Nat} {a : Bool} {g : GenerationId}
    (h : c.step (.activationBegin n a (.ok g)) = some c') :
    c.activations n = some .locked ∧ c.Begins n g c' := by
  obtain ⟨pc, hpc, h⟩ := Option.bind_eq_some_iff.mp h
  simp only [FiberCell.stepActivation] at h
  split at h <;> try contradiction
  refine ⟨hpc, ?_⟩
  split_ifs at h with hadmitted
  · simp only [FiberMutable.beginActivation] at h
    split_ifs at h with hidle hback <;> cases h
    · exact .renewed (Function.update_self ..) rfl rfl rfl
    · refine .kept (Function.update_self ..) ?_ (fun hwaiting hcomplete => hback ⟨hwaiting, hcomplete⟩) rfl rfl rfl
      rcases hidle with hidle | hidle <;> rw [hidle] <;> rfl
    · exact .refused _ (Function.update_self ..) rfl
  · cases h
    exact .refused _ (Function.update_self ..) rfl

theorem step_committed {n : Nat} {o : Outcome} {g : GenerationId} (h : c.step (.activationCommit n o g) = some c')
    (hwas : c.inner.state = .Starting) (hnow : c'.inner.state = .Active) :
    c.activations n = some .checked ∧ c'.activations n = some .committed ∧
      c.inner.activationSealed = true ∧ o = .ok () := by
  have hne : ∀ {s : FiberState}, c.inner.state = s → s ≠ .Active → c.inner.state ≠ .Active := by
    intro s hs
    rw [hs]
    exact id
  obtain ⟨pc, hpc, h⟩ := Option.bind_eq_some_iff.mp h
  simp only [FiberCell.stepActivation] at h
  split at h <;> try contradiction
  split at h
  · cases h
    exact absurd hnow (hne hwas (by simp))
  split_ifs at h with hin
  · split at h
    · rename_i hcommit
      cases h
      refine ⟨hpc, Function.update_self .., ?_, rfl⟩
      by_contra hsealed
      rw [Bool.not_eq_true] at hsealed
      simp only [FiberMutable.commitActivation, hsealed, or_true, if_true] at hcommit
      cases hcommit
    · cases h
      exact absurd hnow (hne hwas (by simp))
  · cases h
    exact absurd hnow (hne hwas (by simp))

theorem commitActivation_ok {r r' : FiberMutable} {f : FiberId} {g : GenerationId}
    (h : r.commitActivation f g = (r', .ok ())) : r.state = .Starting ∧ r'.state = .Active := by
  unfold FiberMutable.commitActivation at h
  split_ifs at h with hstate
  all_goals cases h
  refine ⟨?_, rfl⟩
  by_contra hne
  exact hstate (.inl hne)

theorem step_succeeds {n : Nat} {pc q : ActivationPc} (h : c.step l = some c') (hpc : c.activations n = some pc)
    (hq : c'.activations n = some q) (hwas : pc.succeeded = false) (hnow : q.succeeded = true) :
    pc = .deferring ∨ ∃ o g, l = .activationCommit n o g ∧ pc = .checked ∧
      c.inner.state = .Starting ∧ c'.inner.state = .Active := by
  have hne : c'.activations n ≠ c.activations n := by
    intro heq
    rw [hq, hpc] at heq
    cases heq
    rw [hwas] at hnow
    contradiction
  cases step_calls h with
  | kept activations => exact absurd (congrFun activations n) hne
  | called activations =>
    rw [activations] at hq hne
    by_cases hn : n = c.nextActivation
    · subst hn
      rw [Function.update_self] at hq
      cases hq
      contradiction
    · exact absurd (Function.update_of_ne hn ..) hne
  | moved m p q' label was step activations =>
    by_cases hn : n = m
    swap
    · rw [activations] at hne
      exact absurd (Function.update_of_ne hn ..) hne
    subst hn
    obtain rfl : pc = p := by simpa [hpc] using was
    cases l <;> simp only [FiberLabel.call?] at label <;> try contradiction
    case activationCommit m o g =>
      cases label
      simp only [FiberCell.stepActivation] at step
      split at step <;> try contradiction
      refine .inr ⟨o, g, rfl, rfl, ?_⟩
      split at step
      · cases step
        obtain rfl : q = _ := by simpa [FiberCell.setActivation, eq_comm] using hq
        contradiction
      split_ifs at step with hin
      · split at step
        · rename_i hcommit
          cases step
          obtain ⟨hstarting, hactive⟩ := commitActivation_ok hcommit
          exact ⟨hstarting, hactive⟩
        · cases step
          obtain rfl : q = _ := by simpa [FiberCell.setActivation, eq_comm] using hq
          contradiction
      · cases step
        obtain rfl : q = _ := by simpa [FiberCell.setActivation, eq_comm] using hq
        contradiction
    all_goals
      simp only [FiberCell.stepActivation] at step
      repeat' split at step
      all_goals first
        | contradiction
        | exact .inl rfl
        | (cases step
           obtain rfl : q = _ := by simpa [FiberCell.setActivation, eq_comm] using hq
           contradiction)

/-- No activation will begin with the gate of the Fiber. -/
structure FiberCell.Spent (c : FiberCell) : Prop where
  begun : c.inner.state ≠ .Created
  ended : c.inner.state = .WaitingDependencies → c.inner.disposal.phase = .Complete

theorem FiberCell.Spent.of_not_idle (h : c.inner.state.idle = false) : c.Spent where
  begun := fun hs => by
    rw [hs] at h
    contradiction
  ended := fun hs => by
    rw [hs] at h
    contradiction

theorem spent_step (hc : c.Sound) (hrest : c.Resting) (hl : c.Unparked l)
    (hfresh : ∀ n a e, l ≠ .activationBegin n a (.error e)) (hs : c.Spent) (h : c.step l = some c') : c'.Spent := by
  by_cases hbegin : ∃ n a x, l = .activationBegin n a x
  · obtain ⟨n, a, x, rfl⟩ := hbegin
    cases x with
    | error e => exact absurd rfl (hfresh n a e)
    | ok g =>
      cases (step_begins h).2 with
      | refused _ _ inner => exact ⟨by rw [inner]; exact hs.begun, by rw [inner]; exact hs.ended⟩
      | kept _ _ _ starting | renewed _ starting => exact .of_not_idle (by rw [starting]; rfl)
  have hnext := step_nextCompletion h fun n a x hl => hbegin ⟨n, a, x, hl⟩
  have hmove := step_move h
  have hstate : c'.control.state = c'.inner.state := rfl
  have hphase : c'.control.phase = c'.inner.disposal.phase := rfl
  have hcontrol : c'.control.nextCompletion = c.nextCompletion := hnext
  suffices hk : c'.control.state ≠ .Created ∧
      (c'.control.state = .WaitingDependencies → c'.control.phase = .Complete) from ⟨hk.1, hk.2⟩
  generalize c'.control = k at hmove hcontrol
  have hkept : c.inner.state ≠ .Created ∧
      (c.inner.state = .WaitingDependencies → c.inner.disposal.phase = .Complete) := ⟨hs.begun, hs.ended⟩
  cases hmove with
  | quiet | refused | joined => exact hkept
  | start | restart => exact absurd hcontrol (Nat.succ_ne_self _)
  | deferred | requested => exact ⟨by simp, by simp⟩
  | parked label legal =>
    subst label
    have hne : c.inner.state ≠ .Disposing := hl
    have hcreated := hs.begun
    cases hs : c.inner.state <;> simp_all [FiberState.canTransitionTo]
  | written s' _ next => rcases next with rfl | rfl | rfl <;> exact ⟨by simp, by simp⟩
  | failed s' next =>
    rcases next with rfl | ⟨-, rfl⟩
    · exact hkept
    · exact ⟨by simp, by simp⟩
  | worked pc pc' _ _ was =>
    refine ⟨hs.begun, fun hwaiting => ?_⟩
    have hnone := hrest (by rw [show c.inner.state = .WaitingDependencies from hwaiting]; rfl)
    rw [was] at hnone
    contradiction
  | gaveUp => exact hkept
  | finalized result target terminated was =>
    cases terminated with
    | true =>
      refine ⟨hs.begun, fun hwaiting => ?_⟩
      have hnone := hrest (by rw [show c.inner.state = .WaitingDependencies from hwaiting]; rfl)
      rw [was] at hnone
      contradiction
    | false =>
      refine ⟨?_, fun _ => rfl⟩
      obtain ⟨t, ht⟩ := hc.consistent.decided _ was rfl rfl
      obtain rfl : target = some t := ht
      rcases hc.consistent.target _ t was rfl with rfl | rfl <;> simp

end Cordis
