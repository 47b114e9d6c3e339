import Cordis.Library.Machine
import Cordis.Library.Threads

/-!
# Wait loops over a notifier

A caller that waits for a fact creates a future of a notifier, looks whether the fact holds, awaits
the future if it does not, and begins again. `notify_waiters` completes every future that exists. That
is all that is assumed of a notifier: a future may be completed at any other time as well.

The fact is made true by the sections of another machine. `Kept` says what its sections owe the
waiters, and `LeavesNoneParked` is what the waiters have of it.
-/

/-- Where a call of a wait loop stands: `μ` is what a failing check saw, `σ` what a succeeding one
saw, `ρ` what the call returns. -/
inductive Waiter (μ σ ρ : Type*)
  | looking
  | creating
  /-- About to look; its future may be completed. -/
  | checking (completed : Bool)
  /-- The check failed, and the future is awaited. -/
  | awaiting (saw : μ) (completed : Bool)
  /-- The check succeeded. -/
  | leaving (seen : σ)
  | returned (result : ρ)
  deriving DecidableEq

namespace Waiter

variable {μ σ ρ : Type*}

/-- The future of the waiter, if there is one, is completed. -/
def complete : Waiter μ σ ρ → Waiter μ σ ρ
  | checking _ => checking true
  | awaiting saw _ => awaiting saw true
  | w => w

/-- The waiter awaits a future that is not completed. -/
def parked : Waiter μ σ ρ → Bool
  | awaiting _ completed => !completed
  | _ => false

/-- A bound on the operations of the waiter until it has returned, once the fact holds. -/
def remaining : Waiter μ σ ρ → Nat
  | looking => 2
  | creating => 3
  | checking _ => 2
  | awaiting _ _ => 4
  | leaving _ => 1
  | returned _ => 0

variable (w : Waiter μ σ ρ)

@[simp] theorem parked_complete : w.complete.parked = false := by
  cases w <;> rfl

@[simp] theorem remaining_complete : w.complete.remaining = w.remaining := by
  cases w <;> rfl

theorem remaining_le : w.remaining ≤ 4 := by
  cases w <;> simp [remaining]

@[simp] theorem complete_returned (result : ρ) :
    (returned result : Waiter μ σ ρ).complete = returned result := rfl

end Waiter

/-- The loop and the machine that it waits for. `κ` names the notifiers. -/
structure WaitLoop (ς α κ μ σ ρ : Type*) where
  /-- The sections of those who change what is waited for. -/
  step : ς → α → Option ς
  /-- The section ends with a caller in the loop. -/
  calls : ς → α → Option κ
  /-- The section is a `notify_waiters`. -/
  notifies : ς → α → Option κ
  /-- The loop looks before it creates a future, and not only after. -/
  looksFirst : Bool
  check : ς → κ → Except μ σ
  /-- What a call does once its check succeeded; `none` while it waits for a lock. -/
  finish : ς → κ → σ → Option ρ
  expire : μ → Option ρ

namespace WaitLoop

variable {ς α κ μ σ ρ : Type*} (l : WaitLoop ς α κ μ σ ρ)

/-- The machine that is waited for, and every caller with the notifier of its futures. -/
structure State (ς κ μ σ ρ : Type*) where
  shared : ς
  waiters : List (κ × Waiter μ σ ρ)

inductive Label (α : Type*)
  | shared (a : α)
  /-- The next operation of waiter `n`. -/
  | advance (n : Nat)
  | expire (n : Nat)
  /-- The future of waiter `n` is completed without a `notify_waiters`. -/
  | stir (n : Nat)
  deriving DecidableEq

def Label.advances (n : Nat) : Label α → Bool
  | advance m => m = n
  | _ => false

/-- Nobody waits. -/
def initial (s : ς) : State ς κ μ σ ρ := ⟨s, []⟩

/-- The top of the loop. -/
def top : Waiter μ σ ρ := if l.looksFirst then .looking else .creating

/-- One operation of a waiter. -/
def advance (s : ς) (k : κ) : Waiter μ σ ρ → Option (Waiter μ σ ρ)
  | .looking => some (match l.check s k with
    | .error _ => .creating
    | .ok seen => .leaving seen)
  | .creating => some (.checking false)
  | .checking completed => some (match l.check s k with
    | .error saw => .awaiting saw completed
    | .ok seen => .leaving seen)
  | .awaiting _ true => some l.top
  | .awaiting _ false => none
  | .leaving seen => (l.finish s k seen).map .returned
  | .returned _ => none

/-- `timeout_at` looks at the future before it looks at the clock. -/
def overdue : Waiter μ σ ρ → Option (Waiter μ σ ρ)
  | .awaiting saw false => (l.expire saw).map .returned
  | _ => none

/-- Waiter `n` is the one that the step moves. -/
inductive Moves (s : ς) (k : κ) (n : Nat) :
    Label α → Waiter μ σ ρ → Waiter μ σ ρ → Prop
  | advance {w w'} : l.advance s k w = some w' → Moves s k n (.advance n) w w'
  | expire {w w'} : l.overdue w = some w' → Moves s k n (.expire n) w w'
  | stir {w} : Moves s k n (.stir n) w w.complete

theorem parked_top : l.top.parked = false := by
  unfold top
  split <;> rfl

variable [DecidableEq κ]

def notified (k : Option κ) (w : κ × Waiter μ σ ρ) : κ × Waiter μ σ ρ :=
  if some w.1 = k then (w.1, w.2.complete) else w

def next (s : State ς κ μ σ ρ) : Label α → Option (State ς κ μ σ ρ)
  | .shared a => (l.step s.shared a).map fun t =>
    ⟨t, s.waiters.map (notified (l.notifies s.shared a)) ++
      (l.calls s.shared a).toList.map fun k => (k, l.top)⟩
  | .advance n => (s.waiters[n]?).bind fun w =>
    (l.advance s.shared w.1 w.2).map fun w' => { s with waiters := s.waiters.set n (w.1, w') }
  | .expire n => (s.waiters[n]?).bind fun w =>
    (l.overdue w.2).map fun w' => { s with waiters := s.waiters.set n (w.1, w') }
  | .stir n => (s.waiters[n]?).map fun w =>
    { s with waiters := s.waiters.set n (w.1, w.2.complete) }

open Machine

variable {l} {s t : State ς κ μ σ ρ} {lab : Label α} {k : κ} {w w' : Waiter μ σ ρ} {n m : Nat}

theorem next_cases (h : l.next s lab = some t) :
    (∃ a u, lab = .shared a ∧ l.step s.shared a = some u ∧
      t = ⟨u, s.waiters.map (notified (l.notifies s.shared a)) ++
        (l.calls s.shared a).toList.map fun k => (k, l.top)⟩) ∨
    ∃ n k w w', s.waiters[n]? = some (k, w) ∧ l.Moves s.shared k n lab w w' ∧
      t = { s with waiters := s.waiters.set n (k, w') } := by
  cases lab with
  | shared a =>
    obtain ⟨u, hu, rfl⟩ := Option.map_eq_some_iff.mp h
    exact .inl ⟨a, u, rfl, hu, rfl⟩
  | advance n =>
    obtain ⟨⟨k, w⟩, hw, h⟩ := Option.bind_eq_some_iff.mp h
    obtain ⟨w', hw', rfl⟩ := Option.map_eq_some_iff.mp h
    exact .inr ⟨n, k, w, w', hw, .advance hw', rfl⟩
  | expire n =>
    obtain ⟨⟨k, w⟩, hw, h⟩ := Option.bind_eq_some_iff.mp h
    obtain ⟨w', hw', rfl⟩ := Option.map_eq_some_iff.mp h
    exact .inr ⟨n, k, w, w', hw, .expire hw', rfl⟩
  | stir n =>
    obtain ⟨⟨k, w⟩, hw, rfl⟩ := Option.map_eq_some_iff.mp h
    exact .inr ⟨n, k, w, _, hw, .stir, rfl⟩

theorem notified_eq (j : Option κ) (v : κ × Waiter μ σ ρ) :
    notified j v = v ∨ notified j v = (v.1, v.2.complete) := by
  unfold notified
  split
  · exact .inr rfl
  · exact .inl rfl

theorem entry_cases (h : l.next s lab = some t) (hw : t.waiters[n]? = some (k, w)) :
    (∃ v, s.waiters[n]? = some (k, v)) ∨
      n = s.waiters.length ∧ ∃ a, lab = .shared a ∧ l.calls s.shared a = some k := by
  rcases next_cases h with ⟨a, u, rfl, hu, rfl⟩ | ⟨m, j, v, v', hv, hmoves, rfl⟩
  · rw [List.getElem?_append] at hw
    split_ifs at hw with hlt
    · rw [List.getElem?_map] at hw
      obtain ⟨⟨j, v⟩, hv, heq⟩ := Option.map_eq_some_iff.mp hw
      rcases notified_eq (l.notifies s.shared a) (j, v) with hsame | hwoken
      · rw [hsame] at heq
        cases heq
        exact .inl ⟨_, hv⟩
      · rw [hwoken] at heq
        cases heq
        exact .inl ⟨_, hv⟩
    · rw [List.length_map] at hlt hw
      cases hcalls : l.calls s.shared a with
      | none =>
        rw [hcalls] at hw
        cases hw
      | some j =>
        rw [hcalls] at hw
        have hlast : n - s.waiters.length = 0 := by
          obtain ⟨hlt', -⟩ := List.getElem?_eq_some_iff.mp hw
          simpa using hlt'
        rw [hlast] at hw
        cases hw
        exact .inr ⟨by omega, a, rfl, hcalls⟩
  · rcases (Threads.get_set hv).mp hw with ⟨rfl, heq⟩ | ⟨-, hold⟩
    · cases heq
      exact .inl ⟨v, hv⟩
    · exact .inl ⟨w, hold⟩

theorem length_waiters (h : l.next s lab = some t) : s.waiters.length ≤ t.waiters.length := by
  rcases next_cases h with ⟨a, u, rfl, hu, rfl⟩ | ⟨m, j, v, v', hv, hmoves, rfl⟩ <;> simp

theorem subject_lasts (h : Reach l.next anyStep s t) (hn : n < s.waiters.length)
    (hw : t.waiters[n]? = some (k, w)) : ∃ v, s.waiters[n]? = some (k, v) := by
  induction h generalizing w with
  | refl => exact ⟨w, hw⟩
  | @tail u x lab hreach _ hstep ih =>
    rcases entry_cases hstep hw with ⟨v, hv⟩ | ⟨rfl, -⟩
    · exact ih hv
    · have hle : s.waiters.length ≤ u.waiters.length :=
        hreach.invariant (I := fun x => s.waiters.length ≤ x.waiters.length) le_rfl
          fun _ _ _ hle _ hstep => hle.trans (length_waiters hstep)
      omega

theorem parked_notified (hparked : w.parked = true) {j : Option κ} {v : κ × Waiter μ σ ρ}
    (hv : notified j v = (k, w)) : v = (k, w) ∧ j ≠ some k := by
  unfold notified at hv
  split_ifs at hv with hj
  · cases hv
    rw [Waiter.parked_complete] at hparked
    cases hparked
  · subst hv
    exact ⟨rfl, fun heq => hj heq.symm⟩

/-- What the sections of the machine owe the callers. `fact` is what is waited for, and `owed` says
that somebody who made it true has yet to call `notify_waiters`. -/
structure Kept (l : WaitLoop ς α κ μ σ ρ) (inv : ς → Prop) (fact owed : ς → κ → Prop) : Prop where
  keeps : ∀ {s a t}, inv s → l.step s a = some t → inv t
  /-- The check sees the fact. -/
  sees : ∀ {s k}, inv s → fact s k → ∃ seen, l.check s k = .ok seen
  /-- The fact does not cease to hold. -/
  lasts : ∀ {s a t k}, inv s → l.step s a = some t → fact s k → fact t k
  /-- Who makes the fact true owes a `notify_waiters`, until it calls it. -/
  owes : ∀ {s a t k}, inv s → l.step s a = some t → l.notifies s a ≠ some k →
    (fact s k → owed s k) → fact t k → owed t k

variable {inv : ς → Prop} {fact owed : ς → κ → Prop}

/-- A waiter whose fact holds while it awaits is owed a `notify_waiters`. -/
def Attended (inv : ς → Prop) (fact owed : ς → κ → Prop) (s : State ς κ μ σ ρ) : Prop :=
  inv s.shared ∧ ∀ k w, (k, w) ∈ s.waiters → w.parked = true → fact s.shared k → owed s.shared k

omit [DecidableEq κ] in
theorem Moves.parked (hm : l.Moves s.shared k n lab w w') (hparked : w'.parked = true) :
    w.parked = true ∨ ∃ saw, l.check s.shared k = .error saw := by
  cases hm with
  | advance h =>
    cases w with
    | looking =>
      simp only [WaitLoop.advance, Option.some.injEq] at h
      split at h <;> subst h <;> cases hparked
    | creating =>
      cases h
      cases hparked
    | checking completed =>
      simp only [WaitLoop.advance, Option.some.injEq] at h
      split at h
      · exact .inr ⟨_, ‹_›⟩
      · subst h
        cases hparked
    | awaiting saw completed =>
      cases completed with
      | false => exact .inl rfl
      | true =>
        cases h
        rw [l.parked_top] at hparked
        cases hparked
    | leaving seen =>
      obtain ⟨r, -, rfl⟩ := Option.map_eq_some_iff.mp h
      cases hparked
    | returned r => cases h
  | expire h =>
    unfold overdue at h
    split at h
    · exact .inl rfl
    · cases h
  | stir =>
    rw [Waiter.parked_complete] at hparked
    cases hparked

theorem attended_next (hk : l.Kept inv fact owed) (hs : Attended inv fact owed s)
    (h : l.next s lab = some t) : Attended inv fact owed t := by
  obtain ⟨hinv, hs⟩ := hs
  rcases next_cases h with ⟨a, u, rfl, hu, rfl⟩ | ⟨n, k, w, w', hw, hmoves, rfl⟩
  · refine ⟨hk.keeps hinv hu, fun k w hmem hparked hfact => ?_⟩
    rcases List.mem_append.mp hmem with hold | hnew
    · obtain ⟨v, hv, heq⟩ := List.mem_map.mp hold
      obtain ⟨rfl, hother⟩ := parked_notified hparked heq
      exact hk.owes hinv hu hother (hs k w hv hparked) hfact
    · obtain ⟨j, -, heq⟩ := List.mem_map.mp hnew
      cases heq
      rw [l.parked_top] at hparked
      cases hparked
  · refine ⟨hinv, fun j v hmem hparked hfact => ?_⟩
    rcases (Threads.mem_set hw).mp hmem with heq | ⟨m, -, hold⟩
    · cases heq
      rcases hmoves.parked hparked with hw' | ⟨saw, herror⟩
      · exact hs k w (List.mem_of_getElem? hw) hw' hfact
      · obtain ⟨seen, hseen⟩ := hk.sees hinv hfact
        rw [herror] at hseen
        cases hseen
    · exact hs j v (List.mem_of_getElem? hold) hparked hfact

theorem attended_reach (hk : l.Kept inv fact owed) {s₀ : ς} (h0 : inv s₀)
    (h : Reach l.next anyStep (initial s₀) s) : Attended inv fact owed s :=
  h.invariant ⟨h0, fun _ _ hmem => by cases hmem⟩ fun _ _ _ hs _ hstep => attended_next hk hs hstep

/-! ## What the callers return -/

/-- What a succeeding check has seen (`saw`) stays true, and so does what the call makes of it
(`got`). -/
structure Tells (l : WaitLoop ς α κ μ σ ρ) (inv : ς → Prop) (saw : ς → κ → σ → Prop)
    (got : ς → κ → ρ → Prop) : Prop where
  keeps : ∀ {s a t}, inv s → l.step s a = some t → inv t
  checks : ∀ {s k seen}, inv s → l.check s k = .ok seen → saw s k seen
  finishes : ∀ {s k seen r}, inv s → saw s k seen → l.finish s k seen = some r → got s k r
  expires : ∀ {s k left r}, inv s → l.expire left = some r → got s k r
  seen_lasts : ∀ {s a t k seen}, inv s → l.step s a = some t → saw s k seen → saw t k seen
  got_lasts : ∀ {s a t k r}, inv s → l.step s a = some t → got s k r → got t k r

variable {saw : ς → κ → σ → Prop} {got : ς → κ → ρ → Prop}

/-- What a waiter that is done looking may say. -/
def Truthful (saw : σ → Prop) (got : ρ → Prop) : Waiter μ σ ρ → Prop
  | .leaving seen => saw seen
  | .returned r => got r
  | _ => True

def AllTruthful (inv : ς → Prop) (saw : ς → κ → σ → Prop) (got : ς → κ → ρ → Prop)
    (s : State ς κ μ σ ρ) : Prop :=
  inv s.shared ∧ ∀ k w, (k, w) ∈ s.waiters → Truthful (saw s.shared k) (got s.shared k) w

omit [DecidableEq κ] in
theorem Moves.truthful (ht : l.Tells inv saw got) (hinv : inv s.shared)
    (hm : l.Moves s.shared k n lab w w') (hw : Truthful (saw s.shared k) (got s.shared k) w) :
    Truthful (saw s.shared k) (got s.shared k) w' := by
  cases hm with
  | advance h =>
    cases w with
    | looking | checking =>
      simp only [WaitLoop.advance, Option.some.injEq] at h
      split at h <;> subst h
      · trivial
      · exact ht.checks hinv ‹_›
    | creating =>
      cases h
      trivial
    | awaiting saw completed =>
      cases completed with
      | false => cases h
      | true =>
        cases h
        unfold top
        split <;> trivial
    | leaving seen =>
      obtain ⟨r, hr, rfl⟩ := Option.map_eq_some_iff.mp h
      exact ht.finishes hinv hw hr
    | returned r => cases h
  | expire h =>
    unfold overdue at h
    split at h
    · obtain ⟨r, hr, rfl⟩ := Option.map_eq_some_iff.mp h
      exact ht.expires hinv hr
    · cases h
  | stir => cases w <;> exact hw

theorem truthful_next (ht : l.Tells inv saw got) (hs : AllTruthful inv saw got s)
    (h : l.next s lab = some t) : AllTruthful inv saw got t := by
  obtain ⟨hinv, hs⟩ := hs
  rcases next_cases h with ⟨a, u, rfl, hu, rfl⟩ | ⟨n, k, w, w', hw, hmoves, rfl⟩
  · refine ⟨ht.keeps hinv hu, fun k w hmem => ?_⟩
    rcases List.mem_append.mp hmem with hold | hnew
    · obtain ⟨⟨j, v⟩, hv, heq⟩ := List.mem_map.mp hold
      have hlater : Truthful (saw u j) (got u j) v := by
        have hv := hs j v hv
        cases v with
        | leaving seen => exact ht.seen_lasts hinv hu hv
        | returned r => exact ht.got_lasts hinv hu hv
        | _ => trivial
      rcases notified_eq (l.notifies s.shared a) (j, v) with hsame | hwoken
      · rw [hsame] at heq
        cases heq
        exact hlater
      · rw [hwoken] at heq
        cases heq
        cases v <;> exact hlater
    · obtain ⟨j, -, heq⟩ := List.mem_map.mp hnew
      cases heq
      unfold top
      split <;> trivial
  · refine ⟨hinv, fun j v hmem => ?_⟩
    rcases (Threads.mem_set hw).mp hmem with heq | ⟨m, -, hold⟩
    · cases heq
      exact hmoves.truthful ht hinv (hs k w (List.mem_of_getElem? hw))
    · exact hs j v (List.mem_of_getElem? hold)

/-- What a call has returned is true of the present state. -/
theorem truthful_reach (ht : l.Tells inv saw got) {s₀ : ς} (h0 : inv s₀)
    (h : Reach l.next anyStep (initial s₀) s) {r : ρ} (hw : s.waiters[n]? = some (k, .returned r)) :
    got s.shared k r := by
  have hall : AllTruthful inv saw got s :=
    h.invariant ⟨h0, fun _ _ hmem => by cases hmem⟩ fun _ _ _ hs _ hstep =>
      truthful_next ht hs hstep
  exact hall.2 k _ (List.mem_of_getElem? hw)

/-! ## Once the fact holds -/

theorem not_parked (hk : l.Kept inv fact owed) {s₀ : ς} (h0 : inv s₀)
    (h : Reach l.next anyStep (initial s₀) s) (hw : s.waiters[n]? = some (k, w))
    (hfact : fact s.shared k) (howed : ¬ owed s.shared k) : w.parked = false := by
  obtain ⟨-, hattended⟩ := attended_reach hk h0 h
  cases hparked : w.parked with
  | false => rfl
  | true => exact absurd (hattended k w (List.mem_of_getElem? hw) hparked hfact) howed

omit [DecidableEq κ] in
theorem remaining_top : l.top.remaining ≤ 3 := by
  unfold top
  split <;> simp [Waiter.remaining]

/-- What a step does to a waiter whose fact holds. -/
structure Nearer (n : Nat) (lab : Label α) (w w' : Waiter μ σ ρ) : Prop where
  unparked : w.parked = false → w'.parked = false
  remaining : w'.remaining ≤ w.remaining
  advanced : lab.advances n = true → w'.remaining < w.remaining

omit [DecidableEq κ] in
theorem Moves.nearer (hm : l.Moves s.shared k n lab w w')
    (hsees : ∃ seen, l.check s.shared k = .ok seen) : Nearer n lab w w' := by
  obtain ⟨seen, hseen⟩ := hsees
  have hunparked : w.parked = false → w'.parked = false := by
    intro hw
    by_contra hparked
    rcases hm.parked (eq_true_of_ne_false hparked) with hw' | ⟨saw, herror⟩
    · rw [hw] at hw'
      cases hw'
    · rw [hseen] at herror
      cases herror
  cases hm with
  | advance h =>
    suffices hless : w'.remaining < w.remaining from ⟨hunparked, hless.le, fun _ => hless⟩
    cases w with
    | looking | checking =>
      simp only [WaitLoop.advance, hseen, Option.some.injEq] at h
      subst h
      simp [Waiter.remaining]
    | creating =>
      cases h
      simp [Waiter.remaining]
    | awaiting saw completed =>
      cases completed with
      | false => cases h
      | true =>
        cases h
        exact Nat.lt_succ_of_le remaining_top
    | leaving seen =>
      obtain ⟨r, -, rfl⟩ := Option.map_eq_some_iff.mp h
      simp [Waiter.remaining]
    | returned r => cases h
  | expire h =>
    refine ⟨hunparked, ?_, nofun⟩
    unfold overdue at h
    split at h
    · obtain ⟨r, -, rfl⟩ := Option.map_eq_some_iff.mp h
      exact Nat.zero_le _
    · cases h
  | stir => exact ⟨hunparked, w.remaining_complete.le, nofun⟩

theorem nearer_next (hk : l.Kept inv fact owed) (hinv : inv s.shared)
    (hw : s.waiters[n]? = some (k, w)) (hfact : fact s.shared k) (h : l.next s lab = some t) :
    inv t.shared ∧ fact t.shared k ∧ ∃ w', t.waiters[n]? = some (k, w') ∧ Nearer n lab w w' := by
  rcases next_cases h with ⟨a, u, rfl, hu, rfl⟩ | ⟨m, j, v, v', hv, hmoves, rfl⟩
  · refine ⟨hk.keeps hinv hu, hk.lasts hinv hu hfact, ?_⟩
    obtain ⟨hlt, -⟩ := List.getElem?_eq_some_iff.mp hw
    rw [List.getElem?_append_left (by simpa using hlt), List.getElem?_map, hw, Option.map_some]
    rcases notified_eq (l.notifies s.shared a) (k, w) with heq | heq <;> rw [heq]
    · exact ⟨w, rfl, id, le_rfl, nofun⟩
    · exact ⟨w.complete, rfl, fun _ => w.parked_complete, w.remaining_complete.le, nofun⟩
  · refine ⟨hinv, hfact, ?_⟩
    have hsees := hk.sees hinv hfact
    by_cases hm : n = m
    · subst hm
      rw [hw] at hv
      cases hv
      exact ⟨v', (Threads.get_set hw).mpr (.inl ⟨rfl, rfl⟩), hmoves.nearer hsees⟩
    · refine ⟨w, (Threads.get_set hv).mpr (.inr ⟨hm, hw⟩), id, le_rfl, fun hadv => ?_⟩
      cases hmoves with
      | advance => exact absurd (of_decide_eq_true hadv) (Ne.symm hm)
      | expire => cases hadv
      | stir => cases hadv

/-- A caller whose fact holds makes at most `remaining` operations, and none of the steps parks
it. -/
theorem nearer_run (hk : l.Kept inv fact owed) {labels : List (Label α)} (hinv : inv s.shared)
    (hw : s.waiters[n]? = some (k, w)) (hfact : fact s.shared k)
    (h : Machine.run l.next s labels = some t) :
    ∃ w', t.waiters[n]? = some (k, w') ∧ (w.parked = false → w'.parked = false) ∧
      labels.countP (·.advances n) + w'.remaining ≤ w.remaining := by
  induction labels generalizing s w with
  | nil =>
    cases h
    exact ⟨w, hw, id, by simp⟩
  | cons lab rest ih =>
    obtain ⟨u, hu, hrest⟩ := Option.bind_eq_some_iff.mp h
    obtain ⟨hinv, hfact, v, hv, hnearer⟩ := nearer_next hk hinv hw hfact hu
    obtain ⟨w', hw', hparked, hcount⟩ := ih hinv hv hfact hrest
    refine ⟨w', hw', hparked ∘ hnearer.unparked, ?_⟩
    rw [List.countP_cons]
    have := hnearer.remaining
    split
    · have := hnearer.advanced ‹_›
      omega
    · omega

/-- The call has returned, or its next operation is enabled unless it waits for a lock. -/
def Free (l : WaitLoop ς α κ μ σ ρ) (s : State ς κ μ σ ρ) (n : Nat) : Prop :=
  ∃ k w, s.waiters[n]? = some (k, w) ∧
    ((∃ r, w = .returned r) ∨ (∃ w', l.advance s.shared k w = some w') ∨
      ∃ seen, w = .leaving seen ∧ l.finish s.shared k seen = none)

/-- No caller is left parked: from the moment that its fact holds and nobody owes it a
`notify_waiters`, it does not await a future that is not completed, and whatever the others do it is
free at every moment and has at most four operations left. -/
def LeavesNoneParked (l : WaitLoop ς α κ μ σ ρ) (s₀ : ς) (fact owed : ς → κ → Prop) : Prop :=
  ∀ s, Reach l.next anyStep (initial s₀) s → ∀ n k w, s.waiters[n]? = some (k, w) →
    fact s.shared k → ¬ owed s.shared k →
    w.parked = false ∧ ∀ labels t, Machine.run l.next s labels = some t →
      l.Free t n ∧ labels.countP (·.advances n) ≤ 4

omit [DecidableEq κ] in
theorem free_of_not_parked (hw : s.waiters[n]? = some (k, w)) (hparked : w.parked = false) :
    l.Free s n := by
  refine ⟨k, w, hw, ?_⟩
  cases w with
  | looking => exact .inr (.inl ⟨_, rfl⟩)
  | creating => exact .inr (.inl ⟨_, rfl⟩)
  | checking completed => exact .inr (.inl ⟨_, rfl⟩)
  | awaiting saw completed =>
    cases completed with
    | false => cases hparked
    | true => exact .inr (.inl ⟨_, rfl⟩)
  | leaving seen =>
    cases hfinish : l.finish s.shared k seen with
    | none => exact .inr (.inr ⟨seen, rfl, hfinish⟩)
    | some r => exact .inr (.inl ⟨.returned r, by simp [WaitLoop.advance, hfinish]⟩)
  | returned r => exact .inl ⟨r, rfl⟩

theorem Kept.leavesNoneParked (hk : l.Kept inv fact owed) {s₀ : ς} (h0 : inv s₀) :
    l.LeavesNoneParked s₀ fact owed := by
  intro s hreach n k w hw hfact howed
  have hparked := not_parked hk h0 hreach hw hfact howed
  refine ⟨hparked, fun labels t hrun => ?_⟩
  obtain ⟨hinv, -⟩ := attended_reach hk h0 hreach
  obtain ⟨w', hw', hfree, hcount⟩ := nearer_run hk hinv hw hfact hrun
  have := w.remaining_le
  exact ⟨free_of_not_parked hw' (hfree hparked), by omega⟩

end WaitLoop
