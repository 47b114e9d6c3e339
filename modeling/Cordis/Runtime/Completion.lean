import Cordis.Core.Disposal
import Cordis.Library.WaitLoop

/-!
# Waiting for a disposal

The disposal of a Fiber and the disposal of a Scope each have a `DisposalCompletion`: a slot for one
observation and a notifier. A finalizer publishes the observation, requests a garbage collection and then
calls `notify_waiters`; one whose observation is refused returns at once. The callers of both kinds of
disposal wait in loops that read alike.
-/

namespace Cordis

/-- The slot of a disposal. -/
structure DisposalCompletion where
  observation : Option DisposalObservation

namespace DisposalCompletion

def default : DisposalCompletion := ⟨none⟩

/-- A second observation is refused. -/
def publish (c : DisposalCompletion) (observation : DisposalObservation) :
    Except CordisError DisposalCompletion :=
  if c.observation.isSome then
    .error (.Invariant "disposal completion published more than once")
  else .ok ⟨some observation⟩

end DisposalCompletion

namespace Completion

/-- Where `finalize_fiber_disposal` or `finalize_scope_disposal` stands. -/
inductive Finalizer
  | converging
  /-- `request_gc` is next. -/
  | collecting
  /-- `notify_waiters` is next. -/
  | notifying
  | returned
  deriving DecidableEq, Repr

structure State where
  completions : List DisposalCompletion
  /-- Every finalizer, with the completion that it has taken from its record. -/
  finalizers : List (Nat × Finalizer)

def State.default : State := ⟨[], []⟩

/-- `DisposalCompletion::observation` of completion `k`. -/
def State.observation (s : State) (k : Nat) : Option DisposalObservation :=
  (s.completions[k]?).bind (·.observation)

inductive Label
  | create
  /-- A caller takes completion `k` from its record and waits. -/
  | wait (k : Nat)
  /-- A supervisor enters the finalizer of the disposal with completion `k`. -/
  | finalize (k : Nat)
  /-- Finalizer `n` finds its Fiber or Scope gone. -/
  | disappeared (n : Nat)
  | publish (n : Nat) (observation : DisposalObservation)
  | requestGc (n : Nat)
  | notify (n : Nat)

/-- Finalizer `n` gets on. -/
def State.moved (s : State) (n k : Nat) (pc : Finalizer) : State :=
  { s with finalizers := s.finalizers.set n (k, pc) }

/-- The publication of finalizer `n`; `?` returns a refusal. -/
def publish (s : State) (n k : Nat) (observation : DisposalObservation) : State :=
  match (s.completions[k]?.getD .default).publish observation with
  | .ok completion =>
    { s.moved n k .collecting with completions := s.completions.set k completion }
  | .error _ => s.moved n k .returned

def step (s : State) : Label → Option State
  | .create => some { s with completions := s.completions ++ [.default] }
  | .wait k => if k < s.completions.length then some s else none
  | .finalize k =>
    if k < s.completions.length then
      some { s with finalizers := s.finalizers ++ [(k, .converging)] }
    else none
  | .disappeared n =>
    match s.finalizers[n]? with
    | some (k, .converging) => some (s.moved n k .returned)
    | _ => none
  | .publish n observation =>
    match s.finalizers[n]? with
    | some (k, .converging) => some (publish s n k observation)
    | _ => none
  | .requestGc n =>
    match s.finalizers[n]? with
    | some (k, .collecting) => some (s.moved n k .notifying)
    | _ => none
  | .notify n =>
    match s.finalizers[n]? with
    | some (k, .notifying) => some (s.moved n k .returned)
    | _ => none

/-- The loop that waits for the observation of a completion. -/
def waitForObservation :
    WaitLoop State Label Nat Unit DisposalObservation DisposalObservation where
  step := step
  calls _ a := match a with
    | .wait k => some k
    | _ => none
  notifies s a := match a with
    | .notify n => (s.finalizers[n]?).map (·.1)
    | _ => none
  looksFirst := true
  check s k := match s.observation k with
    | some observation => .ok observation
    | none => .error ()
  finish _ _ observation := some observation
  expire _ := none

/-- `wait_for_fiber_disposal`. -/
def waitForFiberDisposal := waitForObservation

/-- `wait_for_completion_observation`, in which the callers of a Scope disposal wait. -/
def waitForCompletionObservation := waitForObservation

/-! ## The observation is owed to the callers -/

/-- The observation of completion `k` is published. -/
def Published (s : State) (k : Nat) : Prop := (s.observation k).isSome

/-- The finalizer that has published the observation of completion `k` has not called
`notify_waiters`. -/
def Finalizing (s : State) (k : Nat) : Prop :=
  ∃ pc, (k, pc) ∈ s.finalizers ∧ (pc = .collecting ∨ pc = .notifying)

variable {s t : State} {a : Label} {n k : Nat} {pc pc' : Finalizer} {o : DisposalObservation}

theorem Finalizing.moved (hn : s.finalizers[n]? = some (k, pc)) (j : Nat)
    (hpc : j = k → pc ≠ .collecting ∧ pc ≠ .notifying ∨ pc' = .collecting ∨ pc' = .notifying)
    (h : Finalizing s j) : Finalizing (s.moved n k pc') j := by
  obtain ⟨q, hmem, hq⟩ := h
  rcases Threads.mem_or_of_mem_set (k, pc') hn hmem with heq | hstays
  · cases heq
    rcases hpc rfl with ⟨hcollecting, hnotifying⟩ | hpc'
    · rcases hq with hq | hq
      · exact absurd hq hcollecting
      · exact absurd hq hnotifying
    · exact ⟨pc', List.mem_of_getElem? ((Threads.get_set hn).mpr (.inl ⟨rfl, rfl⟩)), hpc'⟩
  · exact ⟨q, hstays, hq⟩

theorem publish_cases (s : State) (n k : Nat) (o : DisposalObservation) :
    publish s n k o = s.moved n k .returned ∨
      publish s n k o =
        { s.moved n k .collecting with completions := s.completions.set k ⟨some o⟩ } ∧
        s.observation k = none := by
  unfold publish DisposalCompletion.publish State.observation
  cases hk : s.completions[k]? with
  | none => exact .inr ⟨rfl, rfl⟩
  | some completion =>
    cases hobservation : completion.observation with
    | none =>
      right
      simp [hobservation]
    | some old =>
      left
      simp [hobservation]

/-- A section leaves the observation of a completion and the finalizers that have published it, or a
finalizer publishes it, or notifies. -/
inductive Turn (s t : State) (k : Nat) : Label → Prop
  | stays (a : Label) (observation : t.observation k = s.observation k)
      (finalizing : Finalizing s k → Finalizing t k) : Turn s t k a
  | publishes (n : Nat) (o : DisposalObservation) (empty : s.observation k = none)
      (finalizing : Finalizing t k) : Turn s t k (.publish n o)
  | notifies (n : Nat) (pc : Finalizer) (finalizer : s.finalizers[n]? = some (k, pc))
      (observation : t.observation k = s.observation k) : Turn s t k (.notify n)

theorem turn (h : step s a = some t) (j : Nat) : Turn s t j a := by
  cases a with
  | create =>
    cases h
    refine .stays _ ?_ id
    unfold State.observation
    rw [List.getElem?_append]
    split_ifs with hj
    · rfl
    · rw [List.getElem?_eq_none (Nat.le_of_not_lt hj)]
      cases j - s.completions.length <;> rfl
  | wait k =>
    obtain ⟨-, heq⟩ := Option.ite_none_right_eq_some.mp h
    cases heq
    exact .stays _ rfl id
  | finalize k =>
    obtain ⟨-, heq⟩ := Option.ite_none_right_eq_some.mp h
    cases heq
    exact .stays _ rfl fun ⟨pc, hmem, hpc⟩ => ⟨pc, List.mem_append_left _ hmem, hpc⟩
  | disappeared n =>
    simp only [step] at h
    split at h <;> cases h
    rename_i k hn
    exact .stays _ rfl (Finalizing.moved hn j fun _ => .inl ⟨nofun, nofun⟩)
  | publish n o =>
    simp only [step] at h
    split at h <;> cases h
    rename_i k hn
    rcases publish_cases s n k o with heq | ⟨heq, hnone⟩ <;> rw [heq]
    · exact .stays _ rfl (Finalizing.moved hn j fun _ => .inl ⟨nofun, nofun⟩)
    · by_cases hj : j = k
      · subst hj
        exact .publishes n o hnone ⟨.collecting,
          List.mem_of_getElem? ((Threads.get_set hn).mpr (.inl ⟨rfl, rfl⟩)), .inl rfl⟩
      · refine .stays _ ?_ (Finalizing.moved hn j fun h => absurd h hj)
        unfold State.observation
        rw [List.getElem?_set_ne (Ne.symm hj)]
  | requestGc n =>
    simp only [step] at h
    split at h <;> cases h
    rename_i k hn
    exact .stays _ rfl (Finalizing.moved hn j fun _ => .inr (.inr rfl))
  | notify n =>
    simp only [step] at h
    split at h <;> cases h
    rename_i k hn
    by_cases hj : j = k
    · subst hj
      exact .notifies n .notifying hn rfl
    · exact .stays _ rfl (Finalizing.moved hn j fun h => absurd h hj)

theorem kept : waitForObservation.Kept (fun _ => True) Published Finalizing where
  keeps _ _ := trivial
  sees _ hpublished := by
    obtain ⟨o, ho⟩ := Option.isSome_iff_exists.mp hpublished
    exact ⟨o, by simp [waitForObservation, ho]⟩
  lasts {s a t k} _ hstep hpublished := by
    cases turn hstep k with
    | stays _ hsame => rwa [Published, hsame]
    | publishes n o hnone => rw [Published, hnone] at hpublished; cases hpublished
    | notifies n pc _ hsame => rwa [Published, hsame]
  owes {s a t k} _ hstep hnotifies howed hpublished := by
    cases turn hstep k with
    | stays _ hsame hstays =>
      rw [Published, hsame] at hpublished
      exact hstays (howed hpublished)
    | publishes n o _ hfinalizing => exact hfinalizing
    | notifies n pc hn =>
      exact absurd (by simp [waitForObservation, hn]) hnotifies

end Completion

end Cordis
