import Cordis.Gate.Lease
import Cordis.Library.WaitLoop

/-!
# Waiting for a drained generation

`drain_until` begins to drain the execution and then waits on `zero`, which the thread that leaves the
word `Drained` notifies after its exchange: `begin_draining` when it finds no lease, `drop_inflight` with
the last lease. The threads are those of the execution word, and any number of them may exchange it
between the exchange that drains it and the `notify_waiters`.
-/

namespace Cordis

inductive DrainOutcome
  | Drained
  | TimedOut (remaining : Nat)
  deriving DecidableEq, Repr

namespace Drain

open Execution Machine

/-- `next_state` of `drop_inflight`. -/
def dropState (current : Nat) : Nat :=
  if executionState current = some .Draining ∧ executionInflight current - 1 = 0 then
    EXECUTION_DRAINED
  else current &&& EXECUTION_STATE_MASK

/-- The operation is an exchange that succeeds and that `notify_waiters` follows. -/
def drains (s : Execution.State) (spurious : Bool) : Pc → Bool
  | .drainCas current => s.word == current && !spurious && executionInflight current == 0
  | .dropCas current => s.word == current && !spurious && dropState current == EXECUTION_DRAINED
  | _ => false

structure State where
  execution : Execution.State
  /-- The threads that have drained the word and call `notify_waiters` next. -/
  notifying : List Nat
  /-- The threads in the `begin_draining` of a `drain_until`. -/
  draining : List Nat

def State.default : State := ⟨.default, [], []⟩

inductive Label
  | execution (l : Execution.Label)
  | drainUntil
  | loop (n : Nat)
  | notify (n : Nat)

variable (w : Nat)

/-- The thread that owes a `notify_waiters` after the section. -/
def drained (s : Execution.State) : Execution.Label → Option Nat
  | .atomic n spurious => if (s.threads[n]?).any (drains s spurious) then some n else none
  | _ => none

def step (s : State) : Label → Option State
  | .execution l => (Execution.step w s.execution l).map fun e =>
    { s with execution := e, notifying := s.notifying ++ (drained s.execution l).toList }
  | .drainUntil => (Execution.step w s.execution .beginDraining).map fun e =>
    { s with execution := e, draining := s.draining ++ [s.execution.threads.length] }
  | .loop n =>
    if n ∈ s.draining ∧ s.execution.threads[n]? = some .draining ∧ n ∉ s.notifying then
      some { s with draining := s.draining.erase n }
    else none
  | .notify n =>
    if n ∈ s.notifying then some { s with notifying := s.notifying.erase n } else none

/-- The loop of `drain_until`. -/
def drainUntil : WaitLoop State Label Unit Nat Unit DrainOutcome where
  step := step w
  calls _ a := match a with
    | .loop _ => some ()
    | _ => none
  notifies _ a := match a with
    | .notify _ => some ()
    | _ => none
  looksFirst := false
  check s _ :=
    let remaining := executionInflight s.execution.word
    if remaining = 0 then .ok () else .error remaining
  finish _ _ _ := some .Drained
  expire remaining := some (.TimedOut remaining)

/-! ## What a drained word promises -/

/-- The word is the code of a state and a number of leases; only a word without leases is drained. -/
structure Decodes (word : Nat) (st : GenerationExecutionState) (n : Nat) : Prop where
  word : word = 4 * n + st.code
  room : 4 * n < 2 ^ w
  drained : st = .Drained → n = 0

/-- What a thread remembers of the word that it is about to exchange. -/
def Loaded : Pc → Prop
  | .acquireCas _ current =>
    executionState current = some .Accepting ∧ executionInflight current < EXECUTION_MAX_INFLIGHT w
  | .drainCas current => executionState current = some .Accepting
  | .dropCas current => ∃ st, executionState current = some st ∧ st ≠ .Drained
  | _ => True

structure Sound (s : Execution.State) : Prop where
  word : ∃ st n, Decodes w s.word st n
  loaded : ∀ pc ∈ s.threads, Loaded w pc

variable {w} {s s' : Execution.State} {word n : Nat} {st : GenerationExecutionState} {pc : Pc}

theorem Decodes.state (hd : Decodes w word st n) : executionState word = some st := by
  rw [hd.word, st.executionState_encoded]

theorem Decodes.inflight (hd : Decodes w word st n) : executionInflight word = n := by
  rw [hd.word, st.executionInflight_encoded]

theorem loaded_acquireLoop (serviceHandle : Bool) (word : Nat) :
    Loaded w (acquireLoop w serviceHandle word) := by
  unfold acquireLoop
  split
  · trivial
  · rename_i hstate
    split
    · exact ⟨hstate, ‹_›⟩
    · trivial
  · trivial

theorem loaded_drainLoop (word : Nat) : Loaded w (drainLoop word) := by
  unfold drainLoop
  split
  · trivial
  · assumption
  · trivial

theorem loaded_dropLoop (word : Nat) : Loaded w (dropLoop word) := by
  unfold dropLoop
  split
  · trivial
  · rename_i st hstate
    split_ifs with _ hdrained
    · trivial
    · trivial
    · exact ⟨st, hstate, hdrained⟩

theorem loaded_countLoop (value : Nat) : Loaded w (countLoop w value) := by
  unfold countLoop
  split <;> trivial

theorem decodes_acquire (hd : Decodes w word .Accepting n) (hroom : n < EXECUTION_MAX_INFLIGHT w) :
    Decodes w ((word + EXECUTION_INFLIGHT_ONE) % 2 ^ w) .Accepting (n + 1) := by
  have hone : EXECUTION_INFLIGHT_ONE = 4 := rfl
  have hcode : GenerationExecutionState.Accepting.code = 0 := rfl
  have hword := hd.word
  have hroom' : 4 * (n + 1) < 2 ^ w := by
    rw [execution_max_inflight_eq] at hroom
    have := Nat.two_pow_pos w
    omega
  refine ⟨?_, hroom', nofun⟩
  rw [Nat.mod_eq_of_lt (by omega)]
  omega

theorem decodes_drain (hd : Decodes w word .Accepting n) :
    Decodes w (drainNext w word) (if n = 0 then .Drained else .Draining) n := by
  unfold drainNext
  rw [hd.inflight]
  split_ifs with hzero
  · subst hzero
    exact ⟨GenerationExecutionState.Drained.executionWord_encoded hd.room, hd.room, fun _ => rfl⟩
  · exact ⟨GenerationExecutionState.Draining.executionWord_encoded hd.room, hd.room, nofun⟩

/-- The last release of a draining generation leaves it drained, and no other one does. -/
theorem decodes_drop (hd : Decodes w word st n) (hopen : st ≠ .Drained) :
    ∃ st', Decodes w (dropNext w word) st' (n - 1) ∧
      (st' = .Drained → dropState word = EXECUTION_DRAINED) := by
  have hcode := st.code_lt
  have hmask : word &&& EXECUTION_STATE_MASK = st.code := by
    rw [state_mask_mod, hd.word]
    omega
  have hroom : 4 * (n - 1) < 2 ^ w := by
    have := hd.room
    omega
  have hnext : dropNext w word = executionWord w (dropState word) (executionInflight word - 1) := rfl
  rw [hnext, hd.inflight]
  unfold dropState
  rw [hd.state, hd.inflight, hmask]
  by_cases hlast : st = .Draining ∧ n - 1 = 0
  · rw [if_pos ⟨congrArg some hlast.1, hlast.2⟩]
    exact ⟨.Drained, ⟨GenerationExecutionState.Drained.executionWord_encoded hroom, hroom,
      fun _ => hlast.2⟩, fun _ => rfl⟩
  · rw [if_neg fun h => hlast ⟨Option.some.inj h.1, h.2⟩]
    exact ⟨st, ⟨st.executionWord_encoded hroom, hroom, fun h => absurd h hopen⟩,
      fun h => absurd h hopen⟩

/-- What one operation does to the word: it stays readable, a drained word stays, and the exchange
that drains it is one that `notify_waiters` follows. -/
structure Exchanges (w : Nat) (s : Execution.State) (spurious : Bool) (pc : Pc)
    (q : Execution.State × Pc) : Prop where
  word : ∃ st n, Decodes w q.1.word st n
  loaded : Loaded w q.2
  threads : q.1.threads = s.threads
  lasts : executionState s.word = some .Drained → q.1.word = s.word
  owes : executionState q.1.word = some .Drained → executionState s.word = some .Drained ∨
    drains s spurious pc = true

theorem Exchanges.quiet (hs : Sound w s) {spurious : Bool} {pc' : Pc} {handles : Nat}
    (hloaded : Loaded w pc') : Exchanges w s spurious pc (⟨s.word, handles, s.threads⟩, pc') :=
  ⟨hs.word, hloaded, rfl, fun _ => rfl, .inl⟩

theorem Exchanges.turned {spurious : Bool} {pc' : Pc} {word' n' : Nat}
    {st' : GenerationExecutionState} (hd : Decodes w s.word st n) (hopen : st ≠ .Drained)
    (hd' : Decodes w word' st' n') (hloaded : Loaded w pc')
    (hdrains : st' = .Drained → drains s spurious pc = true) :
    Exchanges w s spurious pc ({ s with word := word' }, pc') where
  word := ⟨st', n', hd'⟩
  loaded := hloaded
  threads := rfl
  lasts h := absurd (Option.some.inj (hd.state.symm.trans h)) hopen
  owes h := .inr (hdrains (Option.some.inj (hd'.state.symm.trans h)))

theorem atomicOp_exchanges {spurious : Bool} {q : Execution.State × Pc} (hs : Sound w s)
    (hpc : Loaded w pc) (h : atomicOp w s spurious pc = some q) : Exchanges w s spurious pc q := by
  obtain ⟨st, n, hd⟩ := hs.word
  cases pc with
  | acquireLoad b =>
    cases h
    exact .quiet hs (loaded_acquireLoop b _)
  | acquireCas b current =>
    obtain ⟨hstate, hroom⟩ := hpc
    simp only [atomicOp] at h
    by_cases hexchange : s.word = current ∧ !spurious
    · rw [if_pos hexchange] at h
      cases h
      obtain ⟨rfl, -⟩ := hexchange
      obtain rfl := Option.some.inj (hd.state.symm.trans hstate)
      rw [hd.inflight] at hroom
      refine .turned hd (by simp) (decodes_acquire hd hroom) ?_ (by simp)
      cases b <;> trivial
    · rw [if_neg hexchange] at h
      cases h
      exact .quiet hs (loaded_acquireLoop b _)
  | countLoad =>
    cases h
    exact .quiet hs (loaded_countLoop _)
  | countCas value =>
    simp only [atomicOp] at h
    split at h <;> cases h
    · exact .quiet hs trivial
    · exact .quiet hs (loaded_countLoop _)
  | dropService =>
    cases h
    refine .quiet hs ?_
    split <;> trivial
  | dropLoad =>
    cases h
    exact .quiet hs (loaded_dropLoop _)
  | dropCas current =>
    obtain ⟨st', hstate, hopen⟩ := hpc
    simp only [atomicOp] at h
    by_cases hexchange : s.word = current ∧ !spurious
    · rw [if_pos hexchange] at h
      cases h
      obtain ⟨rfl, hweak⟩ := hexchange
      obtain rfl := Option.some.inj (hd.state.symm.trans hstate)
      obtain ⟨st', hd', hdrained⟩ := decodes_drop hd hopen
      refine .turned hd hopen hd' trivial fun h => ?_
      simp [drains, hdrained h, hweak]
    · rw [if_neg hexchange] at h
      cases h
      exact .quiet hs (loaded_dropLoop _)
  | drainLoad =>
    cases h
    exact .quiet hs (loaded_drainLoop _)
  | drainCas current =>
    simp only [atomicOp] at h
    by_cases hexchange : s.word = current ∧ !spurious
    · rw [if_pos hexchange] at h
      cases h
      obtain ⟨rfl, hweak⟩ := hexchange
      obtain rfl := Option.some.inj (hd.state.symm.trans hpc)
      refine .turned hd (by simp) (decodes_drain hd) trivial fun h => ?_
      have hzero : n = 0 := by
        by_contra hne
        rw [if_neg hne] at h
        cases h
      simp [drains, hd.inflight, hzero, hweak]
    · rw [if_neg hexchange] at h
      cases h
      exact .quiet hs (loaded_drainLoop _)
  | held | refused | released | draining | panicked => cases h

theorem step_exchanges {l : Execution.Label} (hs : Sound w s)
    (h : Execution.step w s l = some s') :
    Sound w s' ∧ (executionState s.word = some .Drained → s'.word = s.word) ∧
      (executionState s'.word = some .Drained → executionState s.word = some .Drained ∨
        (drained s l).isSome = true) := by
  cases l with
  | tryAcquire | beginDraining =>
    cases h
    refine ⟨⟨hs.word, fun pc hpc => ?_⟩, fun _ => rfl, .inl⟩
    rcases List.mem_append.mp hpc with hold | hnew
    · exact hs.loaded pc hold
    · rw [List.mem_singleton.mp hnew]
      trivial
  | drop n =>
    simp only [Execution.step] at h
    split at h
    · rename_i b hn
      cases h
      refine ⟨⟨hs.word, fun pc hpc => ?_⟩, fun _ => rfl, .inl⟩
      rcases (Threads.mem_set hn).mp hpc with rfl | ⟨m, -, hold⟩
      · split <;> trivial
      · exact hs.loaded pc (List.mem_of_getElem? hold)
    · cases h
  | atomic n spurious =>
    obtain ⟨pc, hn, h⟩ := Option.bind_eq_some_iff.mp h
    obtain ⟨q, hq, rfl⟩ := Option.map_eq_some_iff.mp h
    have hx := atomicOp_exchanges hs (hs.loaded pc (List.mem_of_getElem? hn)) hq
    refine ⟨⟨hx.word, fun pc' hpc' => ?_⟩, hx.lasts, fun hdrained => ?_⟩
    · rw [hx.threads] at hpc'
      rcases (Threads.mem_set hn).mp hpc' with rfl | ⟨m, -, hold⟩
      · exact hx.loaded
      · exact hs.loaded pc' (List.mem_of_getElem? hold)
    · rcases hx.owes hdrained with hbefore | hdue
      · exact .inl hbefore
      · refine .inr ?_
        simp [drained, hn, hdue]

/-- The word says `Drained`. -/
def Drained (s : State) (_ : Unit) : Prop := executionState s.execution.word = some .Drained

/-- A thread that has drained the word has not called `notify_waiters` yet. -/
def Notifying (s : State) (_ : Unit) : Prop := s.notifying ≠ []

theorem drainUntil_kept (w : Nat) : (drainUntil w).Kept (fun s => Sound w s.execution) Drained Notifying where
  keeps := by
    intro s a t hs h
    cases a with
    | execution l =>
      obtain ⟨e, he, rfl⟩ := Option.map_eq_some_iff.mp h
      exact (step_exchanges hs he).1
    | drainUntil =>
      cases h
      exact (step_exchanges (l := .beginDraining) hs rfl).1
    | loop n | notify n =>
      obtain ⟨-, heq⟩ := Option.ite_none_right_eq_some.mp h
      cases heq
      exact hs
  sees := by
    intro s _ hs hdrained
    obtain ⟨st, n, hd⟩ := hs.word
    have hst : st = .Drained := Option.some.inj (hd.state.symm.trans hdrained)
    exact ⟨(), by simp [drainUntil, hd.inflight, hd.drained hst]⟩
  lasts := by
    intro s a t _ hs h hdrained
    cases a with
    | execution l =>
      obtain ⟨e, he, rfl⟩ := Option.map_eq_some_iff.mp h
      rw [Drained, (step_exchanges hs he).2.1 hdrained]
      exact hdrained
    | drainUntil =>
      cases h
      exact hdrained
    | loop n | notify n =>
      obtain ⟨-, heq⟩ := Option.ite_none_right_eq_some.mp h
      cases heq
      exact hdrained
  owes := by
    intro s a t _ hs h hnotifies howed hdrained
    cases a with
    | execution l =>
      obtain ⟨e, he, rfl⟩ := Option.map_eq_some_iff.mp h
      rcases (step_exchanges hs he).2.2 hdrained with hbefore | hdue
      · exact List.append_ne_nil_of_left_ne_nil (howed hbefore) _
      · obtain ⟨n, hn⟩ := Option.isSome_iff_exists.mp hdue
        simp [Notifying, hn]
    | drainUntil =>
      cases h
      exact howed hdrained
    | loop n =>
      obtain ⟨-, heq⟩ := Option.ite_none_right_eq_some.mp h
      cases heq
      exact howed hdrained
    | notify n => exact absurd rfl hnotifies

theorem sound_default (w : Nat) : Sound w State.default.execution where
  word := ⟨.Accepting, 0, rfl, Nat.two_pow_pos w, nofun⟩
  loaded _ h := by cases h

end Drain

end Cordis
