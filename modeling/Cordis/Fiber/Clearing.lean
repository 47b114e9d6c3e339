import Cordis.Fiber.Refusal
import Cordis.Fiber.Tenure

/-!
# What a disposal has cleared

The disposal worker empties one ledger after the other, behind the drain of the leases. `cleared`
counts how far it has come, and `Cleared n` is what its `n`th stage leaves behind. A Context call
registers under a lease and the gate takes no lease once the worker is there, so what has been
cleared stays empty (`emptied_step`) until an activation starts a new generation.
-/

namespace Cordis

variable {c c' : FiberCell} {l : FiberLabel}

/-- A retired gate takes no lease. -/
def FiberCell.Shut (c : FiberCell) : Prop := c.retired = true → c.accepting = false

theorem shut_step (hc : c.Shut) (h : c.step l = some c') : c'.Shut := by
  unfold FiberCell.Shut FiberCell.retired FiberCell.accepting at *
  intro hretired
  cases step_latch h with
  | kept capabilities =>
    rw [capabilities] at hretired ⊢
    exact hc hretired
  | acquired _ accepting capabilities =>
    rw [capabilities] at hretired
    exact absurd accepting (by simp [FiberCell.accepting, hc hretired])
  | dropped _ _ _ capabilities =>
    rw [capabilities] at hretired ⊢
    exact hc hretired
  | draining _ _ capabilities | closed _ _ _ _ _ capabilities | superseded _ capabilities =>
    rw [capabilities]
    rfl
  | renewed _ _ _ _ _ capabilities =>
    rw [capabilities] at hretired
    contradiction

/-! ## How far the worker has come -/

/-- The stages that the disposal worker has behind it at this point. -/
def DisposalPc.rank : DisposalPc → Nat
  | spawned | queued | locked => 0
  | cancelling => 1
  | draining => 2
  | children | childPicked _ | childDisposing _ => 3
  | unregistering => 4
  | withdrawing _ | withdrawn .. | removing .. => 5
  | cleaning _ | effectDisposing _ => 6
  | reconciling _ | targeted .. | reporting _ => 7
  | finished _ _ terminated | finalizing _ _ terminated _ | indexed _ _ terminated =>
    if terminated then 0 else 7

/-- The stages of the last disposal of `c`. A worker whose Fiber has left the arena sees no ledger. -/
def FiberCell.cleared (c : FiberCell) : Nat :=
  match c.worker with
  | some pc => if c.inArena then pc.rank else 0
  | none => if c.inner.disposal.phase = .Complete then 7 else 0

/-- What stage `n` of a disposal leaves behind. -/
def FiberMutable.Cleared (r : FiberMutable) : Nat → Prop
  | 1 => r.tasks = []
  | 3 => r.capabilities.execution.inflight = 0
  | 4 => r.childScopes = []
  | 5 => r.handlers = [] ∧ r.invocationHandlers = [] ∧ r.invocationMiddleware = []
  | 6 => r.provided = []
  | 7 => r.effects = []
  | _ => True

theorem cleared_of_worker {pc : DisposalPc} (hw : c.worker = some pc) (hin : c.inArena = true) :
    c.cleared = pc.rank := by
  simp only [FiberCell.cleared, hw, hin, if_true]

theorem cleared_stay {pc q : DisposalPc} (hw : c.worker = some pc) (hin : c.inArena = true)
    (hw' : c'.worker = some q) (hrank : q.rank ≤ pc.rank) : c'.cleared ≤ c.cleared := by
  rw [cleared_of_worker hw hin]
  simp only [FiberCell.cleared, hw']
  split_ifs
  · exact hrank
  · exact Nat.zero_le _

theorem cleared_advance {pc q : DisposalPc} (hw : c.worker = some pc) (hin : c.inArena = true)
    (hw' : c'.worker = some q) (hin' : c'.inArena = true) (hrank : q.rank = pc.rank + 1)
    (hcleared : c'.inner.Cleared q.rank) :
    c'.cleared = c.cleared + 1 ∧ c'.inner.Cleared c'.cleared := by
  rw [cleared_of_worker hw hin, cleared_of_worker hw' hin']
  exact ⟨hrank, hcleared⟩

theorem cleared_worker {pc : DisposalPc} (hk : c.control.Consistent) (hw : c.worker = some pc)
    (h : c.stepWorker pc l = some c') :
    c'.cleared ≤ c.cleared ∨ c'.cleared = c.cleared + 1 ∧ c'.inner.Cleared c'.cleared := by
  have hopen : c.inner.disposal.phase ≠ .Complete := fun hcomplete => by
    have hrunning := hk.running pc hw
    rw [show c.control.phase = .Complete from hcomplete] at hrunning
    contradiction
  by_cases hin : c.inArena = true
  case neg =>
    refine .inl ?_
    have hzero : c'.cleared = 0 := by
      cases l <;> simp only [FiberCell.stepWorker] at h
      all_goals
        repeat' split at h
      all_goals first
        | contradiction
        | (cases h
           simp [FiberCell.cleared, FiberCell.setWorker, FiberCell.withMut, FiberCell.finishBody, hin, hopen, hw])
    rw [hzero]
    exact Nat.zero_le _
  simp only [FiberCell.stepWorker, FiberCell.setWorker, FiberCell.withMut, FiberCell.look, hin,
    if_true] at h
  cases l <;> simp only at h
  case takeTasks =>
    split at h <;> try contradiction
    cases h
    exact .inr (cleared_advance hw hin rfl rfl rfl rfl)
  case tasksJoined outcome =>
    split at h <;> try contradiction
    cases h
    exact .inr (cleared_advance hw hin rfl rfl rfl trivial)
  case drained =>
    split at h <;> try contradiction
    split_ifs at h with hzero
    cases h
    exact .inr (cleared_advance hw hin rfl rfl rfl hzero)
  case pickChild =>
    split at h <;> try contradiction
    split at h <;> cases h
    · exact .inl (cleared_stay hw hin rfl (Nat.le_refl _))
    · rename_i hlast
      exact .inr (cleared_advance hw hin rfl rfl rfl (List.getLast?_eq_none_iff.mp hlast))
  case unregister =>
    split at h <;> try contradiction
    split_ifs at h with hh hi hm <;> cases h
    case pos | pos | pos => exact .inl (cleared_stay hw hin hw (Nat.le_refl _))
    have hempty : c.inner.handlers = [] ∧ c.inner.invocationHandlers = [] ∧
        c.inner.invocationMiddleware = [] := ⟨by simpa using hh, by simpa using hi, by simpa using hm⟩
    exact .inr (cleared_advance hw hin rfl rfl rfl hempty)
  case withdraw =>
    split at h <;> try contradiction
    split at h <;> cases h
    · exact .inl (cleared_stay hw hin rfl (Nat.le_refl _))
    · rename_i hlast
      exact .inr (cleared_advance hw hin rfl rfl rfl (List.getLast?_eq_none_iff.mp hlast))
  case takeEffect =>
    split at h <;> try contradiction
    split at h <;> cases h
    · exact .inl (cleared_stay hw hin rfl (Nat.le_refl _))
    · rename_i hlast
      exact .inr (cleared_advance hw hin rfl rfl rfl (List.getLast?_eq_none_iff.mp hlast))
  case finalizeCommit =>
    split at h <;> try contradiction
    rename_i result target terminated
    cases h
    refine .inl ?_
    rw [cleared_of_worker hw hin]
    cases terminated <;> simp [FiberCell.cleared, FiberMutable.finalizeCommit, DisposalPc.rank]
  case workerDied panic =>
    split_ifs at h
    cases h
    exact .inl (cleared_stay hw hin rfl (Nat.zero_le _))
  case drainTimedOut =>
    split at h <;> try contradiction
    split_ifs at h <;> cases h
    · exact .inl (Nat.le_refl _)
    · exact .inl (cleared_stay hw hin rfl (Nat.zero_le _))
  all_goals
    repeat' split at h
    all_goals first
      | contradiction
      | (cases h; exact .inl (cleared_stay hw hin rfl (Nat.le_refl _)))

/-- Where no worker is, only an old round that is complete counts. -/
theorem cleared_idle (hw : c.worker = none) (hw' : c'.worker = none) (h : c.step l = some c') :
    c'.cleared ≤ c.cleared := by
  have hphase : c'.inner.disposal.phase = c.inner.disposal.phase ∨ c'.inner.disposal.phase ≠ .Complete := by
    cases step_writes h with
    | opened _ _ _ _ _ _ inner | halted _ _ _ inner | renewed _ _ _ _ _ _ _ inner =>
      rw [inner]
      exact .inr nofun
    | draining _ _ _ worker | advanced _ _ _ worker | finalized _ _ _ _ worker =>
      rw [hw] at worker
      contradiction
    | registered entry _ _ inner =>
      rw [inner]
      cases entry <;> exact .inl rfl
    | _ =>
      rename_i inner
      exact .inl (congrArg (·.disposal.phase) inner)
  unfold FiberCell.cleared
  rw [hw, hw']
  rcases hphase with hsame | hopen
  · simp only [hsame, Nat.le_refl]
  · simp only [hopen, if_false, Nat.zero_le]

/-- **A section advances the worker by one stage, and leaves behind what the stage is for.** -/
theorem step_cleared (hk : c.control.Consistent) (h : c.step l = some c') :
    c'.cleared ≤ c.cleared ∨ c'.cleared = c.cleared + 1 ∧ c'.inner.Cleared c'.cleared := by
  rcases step_worker h with hsame | ⟨-, -, hspawned⟩ | ⟨pc, hw, hstep⟩
  · refine .inl ?_
    cases hw : c.worker with
    | none => exact cleared_idle hw (hsame.trans hw) h
    | some pc =>
      simp only [FiberCell.cleared, hsame.trans hw, hw]
      split_ifs with hin' hin
      · exact Nat.le_refl _
      · exact absurd ((step_same h).arena hin') hin
      · exact Nat.zero_le _
      · exact Nat.le_refl _
  · simp [FiberCell.cleared, hspawned, DisposalPc.rank]
  · exact cleared_worker hk hw hstep

/-! ## What has been cleared stays empty -/

theorem FiberMutable.Sheds.cleared {r r' : FiberMutable} (h : r.Sheds r') {n : Nat} (hn : n ≠ 3)
    (hr : r.Cleared n) : r'.Cleared n := by
  have hnil : ∀ {α : Type} {xs ys : List α}, ys.Sublist xs → xs = [] → ys = [] := by
    rintro α xs ys hsub rfl
    exact List.sublist_nil.mp hsub
  unfold Cleared at *
  split
  · exact hnil h.tasks hr
  · exact absurd rfl hn
  · exact hnil h.childScopes hr
  · exact ⟨hnil h.handlers hr.1, hnil h.invocationHandlers hr.2.1,
      hnil h.invocationMiddleware hr.2.2⟩
  · exact hnil h.provided hr
  · exact hnil h.effects hr
  · trivial

theorem step_drained (h : c.step l = some c') (hc : c.accepting = false)
    (hdrained : c.inner.capabilities.execution.inflight = 0) :
    c'.inner.capabilities.execution.inflight = 0 := by
  cases step_latch h with
  | kept capabilities => rw [capabilities, hdrained]
  | acquired _ accepting =>
    rw [hc] at accepting
    contradiction
  | dropped _ _ held =>
    rw [hdrained] at held
    contradiction
  | draining _ _ capabilities | closed _ _ _ _ _ capabilities | superseded _ capabilities =>
    rw [capabilities]
    exact hdrained
  | renewed _ _ _ _ _ capabilities =>
    rw [capabilities]
    rfl

/-- What the disposal worker of `c` has behind it, from stage `m` on, is empty. -/
def FiberCell.Emptied (m : Nat) (c : FiberCell) : Prop :=
  ∀ n, m ≤ n → n ≤ c.cleared → c.inner.Cleared n

theorem accepting_of_cleared (hk : c.control.Consistent) (hclosed : c.Closed) (hshut : c.Shut)
    (h : 0 < c.cleared) : c.accepting = false := by
  refine hshut (hclosed fun hidle => ?_)
  unfold FiberCell.cleared at h
  split at h
  · rename_i pc hw
    have hrunning := hk.running pc hw
    rw [show c.control.phase = .Idle from hidle] at hrunning
    contradiction
  · rw [hidle] at h
    contradiction

/-! ## The drain -/

/-- A worker past the drain, of whatever Fiber, has left no lease. -/
def FiberCell.Passed (c : FiberCell) : Prop :=
  ∀ pc, c.worker = some pc → 3 ≤ pc.rank → c.inner.capabilities.execution.inflight = 0

theorem stepWorker_passes {pc q : DisposalPc} (hw : c.worker = some pc) (h : c.stepWorker pc l = some c')
    (hw' : c'.worker = some q) (hrank : 3 ≤ q.rank) :
    3 ≤ pc.rank ∨ c.inner.capabilities.execution.inflight = 0 := by
  by_cases hl : l = .drained
  · subst hl
    simp only [FiberCell.stepWorker] at h
    split at h <;> try contradiction
    split_ifs at h with hzero
    exact .inr hzero
  left
  cases l <;> simp only [FiberCell.stepWorker] at h
  all_goals
    repeat' split at h
  -- the worker is past the drain already, or goes on from a stage before it
  all_goals first
    | contradiction
    | exact Nat.le_of_ble_eq_true rfl
    | (cases h; cases hw' <;> exact hrank)
    | (cases h; cases hw'; exact absurd hrank (by simp [DisposalPc.rank]))
    | (cases h; cases hw.symm.trans hw'; exact hrank)

theorem accepting_of_worker {pc : DisposalPc} (hk : c.control.Consistent) (hclosed : c.Closed) (hshut : c.Shut)
    (hw : c.worker = some pc) : c.accepting = false := by
  refine hshut (hclosed fun hidle => ?_)
  have hrunning := hk.running pc hw
  rw [show c.control.phase = .Idle from hidle] at hrunning
  contradiction

theorem passed_step (hk : c.control.Consistent) (hclosed : c.Closed) (hshut : c.Shut) (hc : c.Passed)
    (h : c.step l = some c') : c'.Passed := by
  intro q hw' hrank
  rcases step_worker h with hsame | ⟨-, -, hspawned⟩ | ⟨pc, hw, hstep⟩
  · have hw := hsame.symm.trans hw'
    exact step_drained h (accepting_of_worker hk hclosed hshut hw) (hc q hw hrank)
  · rw [hspawned] at hw'
    cases hw'
    contradiction
  · refine step_drained h (accepting_of_worker hk hclosed hshut hw) ?_
    exact (stepWorker_passes hw hstep hw' hrank).elim (hc pc hw) id

/-- **What a disposal has cleared stays empty**, as long as registrations are made under a lease and
nothing is spawned once the worker has taken the tasks. -/
theorem emptied_step {m : Nat} (hm : m ≤ 3) (hk : c.control.Consistent) (hclosed : c.Closed)
    (hshut : c.Shut) (hc : c.Emptied m)
    (hleased : ∀ entry, l = .register entry → 0 < c.inner.capabilities.execution.inflight)
    (hspawn : ∀ id, l = .register (.task id) → 1 < m ∨ c.cleared = 0)
    (h : c.step l = some c') : c'.Emptied m := by
  intro n hmn hn
  have hkept : n ≤ c.cleared → c'.inner.Cleared n := by
    intro hle
    have hcleared := hc n hmn hle
    by_cases hregister : ∃ entry, l = .register entry
    · obtain ⟨entry, rfl⟩ := hregister
      have hinflight := hleased entry rfl
      -- the drain has not ended, so nothing but the task ledger is cleared
      have hlt : c.cleared < 3 := by
        by_contra hge
        have hzero : c.inner.capabilities.execution.inflight = 0 := hc 3 hm (Nat.le_of_not_lt hge)
        omega
      obtain rfl | rfl | rfl : n = 0 ∨ n = 1 ∨ n = 2 := by omega
      · trivial
      · simp only [FiberCell.step] at h
        split_ifs at h with haccepts
        cases h
        cases entry
        case task task =>
          rcases hspawn task rfl with hlarge | hzero
          · omega
          · omega
        all_goals exact hcleared
      · trivial
    · by_cases h3 : n = 3
      · subst h3
        exact step_drained h (accepting_of_cleared hk hclosed hshut (by omega)) hcleared
      · exact (step_sheds h fun entry heq => hregister ⟨entry, heq⟩).cleared h3 hcleared
  rcases step_cleared hk h with hle | ⟨heq, hnow⟩
  · exact hkept (Nat.le_trans hn hle)
  · by_cases hlast : n = c'.cleared
    · exact hlast ▸ hnow
    · exact hkept (by omega)

end Cordis
