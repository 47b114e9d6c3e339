import Cordis.Library.SingleFlight
import Cordis.Runtime.Shutdown

/-!
# Shutdown attempts are single-flight

The outcomes of the attempts form a log of single-flight attempts, in which only an incomplete outcome
asks for another attempt, and every section of the coordinator is a step of that log
(`step_refines`). What `start_or_observe` decides from two fields at once is read off the newest entry
of the log, which is also what `lifecycle` says (`standing`).
-/

namespace Cordis.Shutdown

open Machine SingleFlight

/-- The lifecycle that belongs to the newest attempt. -/
def standing : Option (Option ShutdownOutcome) → RuntimeShutdownState
  | none => .Running
  | some none => .ShuttingDown
  | some (some outcome) => if outcome.isIncomplete then .Incomplete else .Complete

namespace Coordinator

variable (c : Coordinator)

/-- The outcomes of the attempts, in the order of their starts. -/
def outcomes : Log ShutdownOutcome := c.attempts.map (·.completion.outcome)

@[simp] theorem length_outcomes : c.outcomes.length = c.attempts.length := List.length_map _

theorem outcomes_getElem (n : Nat) :
    c.outcomes[n]? = (c.attempts[n]?).map (·.completion.outcome) := List.getElem?_map

theorem outcome_eq_some {n : Nat} {outcome : ShutdownOutcome} :
    c.outcome n = some outcome ↔ c.outcomes[n]? = some (some outcome) := by
  rw [outcomes_getElem, Coordinator.outcome]
  cases c.attempts[n]? <;> simp

/-- What a section means for the log of attempts. -/
def event : Label → Event ShutdownOutcome
  | .call => if c.startOrObserve.2 = c.attempts.length then .start else .skip
  | .finish _ outcome => .record outcome
  | _ => .skip

end Coordinator

structure Coherent (c : Coordinator) : Prop where
  flying : Flying ShutdownOutcome.isIncomplete c.outcomes
  lifecycle : c.lifecycle = standing c.outcomes.getLast?
  newest : ∀ operation, c.operation = some operation →
    operation.completion + 1 = c.attempts.length
  idle : c.operation = none → c.attempts = []
  unpublished : ∀ attempt ∈ c.attempts, attempt.supervisor = .running →
    attempt.completion.outcome = none
  closed : c.admission = .RUNNING → c.attempts = []

theorem coherent_default : Coherent .default where
  flying := flying_nil
  lifecycle := rfl
  newest _ h := by cases h
  idle _ := rfl
  unpublished _ h := by cases h
  closed _ := rfl

variable {c c' : Coordinator} {a : Label} {n : Nat} {outcome : ShutdownOutcome}

theorem last_outcome (hn : n + 1 = c.attempts.length) :
    c.outcomes.getLast? = c.outcomes[n]? := by
  rw [List.getLast?_eq_getElem?, c.length_outcomes]
  congr 1
  omega

/-- `start_or_observe` starts an attempt when every outcome asks for one, and otherwise observes the
newest one, which is under way or complete. -/
theorem Coherent.startOrObserve_cases (hc : Coherent c) :
    (c.startOrObserve = c.start ∧ Over ShutdownOutcome.isIncomplete c.outcomes) ∨
    ∃ n, c.startOrObserve = (c, n) ∧ n + 1 = c.attempts.length ∧ c.lifecycle ≠ .Incomplete := by
  unfold Coordinator.startOrObserve
  cases hop : c.operation with
  | none =>
    refine .inl ⟨rfl, fun r hr => ?_⟩
    rw [Coordinator.outcomes, hc.idle hop] at hr
    cases hr
  | some operation =>
    have hlen := hc.newest operation hop
    have hlife := hc.lifecycle
    rw [last_outcome hlen] at hlife
    simp only
    split
    · rename_i hobserves
      refine .inr ⟨operation.completion, rfl, hlen, ?_⟩
      rcases Bool.or_eq_true_iff.mp hobserves with hnone | hcomplete
      · obtain ⟨attempt, hget⟩ : ∃ attempt, c.attempts[operation.completion]? = some attempt :=
          ⟨_, List.getElem?_eq_getElem (by omega)⟩
        rw [Coordinator.outcome, hget] at hnone
        rw [hlife, c.outcomes_getElem, hget, Option.map_some,
          show attempt.completion.outcome = none from Option.isNone_iff_eq_none.mp hnone]
        simp [standing]
      · rw [eq_of_beq hcomplete]
        simp
    · rename_i hobserves
      obtain ⟨hsome, hcomplete⟩ := not_or.mp (mt Bool.or_eq_true_iff.mpr hobserves)
      obtain ⟨outcome, houtcome⟩ := Option.ne_none_iff_exists'.mp (by simpa using hsome)
      have hget := (c.outcome_eq_some).mp houtcome
      refine .inl ⟨rfl, over_of_last hc.flying ((last_outcome hlen).trans hget) ?_⟩
      rw [hget] at hlife
      by_contra hagain
      rw [standing, if_neg hagain] at hlife
      exact hcomplete (beq_iff_eq.mpr hlife)

theorem Coherent.start (hc : Coherent c)
    (hover : Over ShutdownOutcome.isIncomplete c.outcomes) :
    Coherent c.start.1 ∧ c.start.1.outcomes = c.outcomes ++ [none] := by
  have houtcomes : c.start.1.outcomes = c.outcomes ++ [none] := List.map_append
  refine ⟨⟨?_, ?_, ?_, nofun, ?_, ?_⟩, houtcomes⟩
  · rw [houtcomes]
    exact (flying_append _).mpr hover
  · rw [houtcomes, List.getLast?_concat]
    rfl
  · intro operation hop
    cases hop
    simp [Coordinator.start]
  · intro attempt hattempt hrunning
    rcases List.mem_append.mp hattempt with hold | hnew
    · exact hc.unpublished attempt hold hrunning
    · rw [List.mem_singleton.mp hnew]
      rfl
  · intro hclosed
    change c.admission.beginShutdown.1 = .RUNNING at hclosed
    cases hadmission : c.admission <;> rw [hadmission] at hclosed <;> cases hclosed

theorem Coherent.moved (hc : Coherent c) {supervisor : Supervisor} (hmoved : supervisor ≠ .running)
    (n : Nat) : Coherent (c.moved n supervisor) ∧ (c.moved n supervisor).outcomes = c.outcomes := by
  have houtcomes : (c.moved n supervisor).outcomes = c.outcomes := by
    refine List.ext_getElem? fun m => ?_
    rw [Coordinator.outcomes_getElem, Coordinator.outcomes_getElem, Coordinator.moved,
      List.getElem?_modify]
    cases c.attempts[m]? with
    | none => rfl
    | some attempt =>
      rw [Option.map_eq_map, Option.map_some, Option.map_some, Option.map_some]
      split <;> rfl
  refine ⟨⟨?_, ?_, ?_, ?_, ?_, ?_⟩, houtcomes⟩
  · rw [houtcomes]
    exact hc.flying
  · rw [houtcomes]
    exact hc.lifecycle
  · intro operation hop
    rw [hc.newest operation hop]
    exact (List.length_modify ..).symm
  · intro hidle
    change c.attempts.modify _ _ = []
    rw [hc.idle hidle]
    exact List.modify_nil ..
  · intro attempt hattempt hrunning
    obtain ⟨m, hm⟩ := List.getElem?_of_mem hattempt
    rw [Coordinator.moved, List.getElem?_modify] at hm
    obtain ⟨old, hold, heq⟩ := Option.map_eq_some_iff.mp hm
    split at heq
    · subst heq
      exact absurd hrunning hmoved
    · subst heq
      exact hc.unpublished _ (List.mem_of_getElem? hold) hrunning
  · intro hclosed
    change c.attempts.modify _ _ = []
    rw [hc.closed hclosed]
    exact List.modify_nil ..

theorem Coherent.running_newest (hc : Coherent c)
    (h : (c.attempts[n]?).any (·.supervisor == .running) = true) :
    c.outcomes[n]? = some none ∧ n + 1 = c.attempts.length := by
  obtain ⟨attempt, hget, hrunning⟩ := Option.any_eq_true _ _ |>.mp h
  have hnone : c.outcomes[n]? = some none := by
    rw [c.outcomes_getElem, hget, Option.map_some,
      hc.unpublished attempt (List.mem_of_getElem? hget) (eq_of_beq hrunning)]
  exact ⟨hnone, (open_newest hc.flying hnone).trans c.length_outcomes⟩

theorem publish_unpublished {completion : ShutdownCompletion} (h : completion.outcome = none)
    (outcome : ShutdownOutcome) : completion.publish outcome = (⟨some outcome⟩, true) := by
  unfold ShutdownCompletion.publish
  rw [h]
  rfl

theorem Coherent.finish (hc : Coherent c)
    (h : (c.attempts[n]?).any (·.supervisor == .running) = true) {supervisor : Supervisor}
    (hmoved : supervisor ≠ .running) (outcome : ShutdownOutcome) :
    Coherent ((c.finish n outcome).1.moved n supervisor) ∧ (c.finish n outcome).2 = true ∧
      ((c.finish n outcome).1.moved n supervisor).outcomes = c.outcomes.set n (some outcome) := by
  obtain ⟨hnone, hnewest⟩ := hc.running_newest h
  obtain ⟨attempt, hget, hrunning⟩ := Option.any_eq_true _ _ |>.mp h
  have hopen : attempt.completion.outcome = none :=
    hc.unpublished attempt (List.mem_of_getElem? hget) (eq_of_beq hrunning)
  have hattempts : ((c.finish n outcome).1.moved n supervisor).attempts =
      c.attempts.set n ⟨⟨some outcome⟩, supervisor⟩ := by
    refine List.ext_getElem? fun m => ?_
    simp only [Coordinator.moved, Coordinator.finish, List.getElem?_modify, List.getElem?_set]
    by_cases hm : n = m
    · subst hm
      obtain ⟨hlt, rfl⟩ := List.getElem?_eq_some_iff.mp hget
      simp [hlt, publish_unpublished hopen]
    · simp [hm]
  have houtcomes : ((c.finish n outcome).1.moved n supervisor).outcomes =
      c.outcomes.set n (some outcome) := by
    rw [Coordinator.outcomes, hattempts, List.map_set]
    rfl
  have hlength : ((c.finish n outcome).1.moved n supervisor).attempts.length =
      c.attempts.length := by
    rw [hattempts, List.length_set]
  have hbegun : c.attempts ≠ [] := fun hnil => by simp [hnil] at hget
  refine ⟨⟨?_, ?_, ?_, ?_, ?_, ?_⟩, ?_, houtcomes⟩
  · rw [houtcomes]
    exact flying_step hc.flying (record_set hnone (hnewest.trans c.length_outcomes.symm) outcome)
  · rw [last_outcome (hnewest.trans hlength.symm), houtcomes, List.getElem?_set_self (by simp; omega)]
    rfl
  · intro operation hop
    obtain ⟨old, hold, rfl⟩ := Option.map_eq_some_iff.mp hop
    exact (hc.newest old hold).trans hlength.symm
  · intro hidle
    exact absurd (hc.idle (Option.map_eq_none_iff.mp hidle)) hbegun
  · intro a ha hrunning
    rw [hattempts] at ha
    rcases List.mem_or_eq_of_mem_set ha with hold | rfl
    · exact hc.unpublished a hold hrunning
    · exact absurd hrunning hmoved
  · intro hclosed
    exact absurd (hc.closed hclosed) hbegun
  · simp only [Coordinator.finish, hget, Option.any_some, publish_unpublished hopen]

theorem step_refines (hc : Coherent c) (h : step c a = some c') :
    Coherent c' ∧ Step ShutdownOutcome.isIncomplete c.outcomes (c.event a) c'.outcomes := by
  cases a with
  | call =>
    cases h
    rcases hc.startOrObserve_cases with ⟨hstart, hover⟩ | ⟨n, hobserve, hn, -⟩
    · obtain ⟨hc', houtcomes⟩ := hc.start hover
      rw [Coordinator.event, hstart, houtcomes, if_pos (show c.start.2 = c.attempts.length from rfl)]
      exact ⟨hc', .start _ hover⟩
    · rw [Coordinator.event, hobserve, if_neg (by simp; omega)]
      exact ⟨hc, .skip _⟩
  | finish n outcome =>
    obtain ⟨hrunning, heq⟩ := Option.ite_none_right_eq_some.mp h
    cases heq
    have hmoved : (if outcome.isIncomplete then Supervisor.notifying else .completing) ≠ .running := by
      split <;> simp
    obtain ⟨hnone, hnewest⟩ := hc.running_newest hrunning
    obtain ⟨hc', -, houtcomes⟩ := hc.finish hrunning hmoved outcome
    rw [houtcomes]
    exact ⟨hc', record_set hnone (hnewest.trans c.length_outcomes.symm) outcome⟩
  | completeShutdown n =>
    obtain ⟨-, heq⟩ := Option.ite_none_right_eq_some.mp h
    cases heq
    obtain ⟨hc', houtcomes⟩ := hc.moved (nofun : Supervisor.notifying ≠ .running) n
    refine ⟨{ hc' with closed := nofun }, ?_⟩
    change Step _ _ _ (c.moved n .notifying).outcomes
    rw [houtcomes]
    exact .skip _
  | notify n =>
    obtain ⟨-, heq⟩ := Option.ite_none_right_eq_some.mp h
    cases heq
    obtain ⟨hc', houtcomes⟩ := hc.moved (nofun : Supervisor.returned ≠ .running) n
    rw [houtcomes]
    exact ⟨hc', .skip _⟩

/-! ## What one section does to the outcomes -/

theorem outcome_eq_join (c : Coordinator) (n : Nat) : c.outcome n = (c.outcomes[n]?).join := by
  rw [c.outcomes_getElem, Coordinator.outcome]
  cases c.attempts[n]? <;> rfl

theorem finish_spec (hc : Coherent c) (h : step c (.finish n outcome) = some c') :
    n + 1 = c.attempts.length ∧ c.outcomes[n]? = some none ∧
      c'.outcomes = c.outcomes.set n (some outcome) ∧ (c.finish n outcome).2 = true := by
  obtain ⟨hrunning, heq⟩ := Option.ite_none_right_eq_some.mp h
  cases heq
  have hmoved : (if outcome.isIncomplete then Supervisor.notifying else .completing) ≠ .running := by
    split <;> simp
  obtain ⟨hnone, hnewest⟩ := hc.running_newest hrunning
  obtain ⟨-, hpublished, houtcomes⟩ := hc.finish hrunning hmoved outcome
  exact ⟨hnewest, hnone, houtcomes, hpublished⟩

theorem finish_outcome (hc : Coherent c) (h : step c (.finish n outcome) = some c') :
    c.outcome n = none ∧ c'.outcome n = some outcome ∧ ∀ m, m ≠ n → c'.outcome m = c.outcome m := by
  obtain ⟨hnewest, hnone, houtcomes, -⟩ := finish_spec hc h
  refine ⟨?_, ?_, fun m hm => ?_⟩
  · rw [outcome_eq_join, hnone]
    rfl
  · rw [outcome_eq_join, houtcomes, List.getElem?_set_self (by rw [c.length_outcomes]; omega)]
    rfl
  · rw [outcome_eq_join, outcome_eq_join, houtcomes, List.getElem?_set_ne (Ne.symm hm)]

/-- The section is the `finish` of attempt `n`. -/
def Label.finishes (n : Nat) : Label → Bool
  | finish m _ => m = n
  | _ => false

theorem outcome_kept (hc : Coherent c) (h : step c a = some c') (ha : a.finishes n = false) :
    c'.outcome n = c.outcome n := by
  cases hfinish : a with
  | finish m outcome =>
    subst hfinish
    exact (finish_outcome hc h).2.2 n fun heq => by simp [Label.finishes, heq] at ha
  | call | completeShutdown | notify =>
    subst hfinish
    obtain ⟨-, hstep⟩ := step_refines hc h
    rw [outcome_eq_join, outcome_eq_join]
    refine results_eq hstep (fun x => ?_) n
    unfold Coordinator.event
    split_ifs <;> exact nofun

theorem coherent_keeps (hc : Coherent c) (h : step c a = some c') : Coherent c' :=
  (step_refines hc h).1

theorem outcome_lasts (hc : Coherent c) (h : step c a = some c') (hn : c.outcome n = some outcome) :
    c'.outcome n = some outcome :=
  c'.outcome_eq_some.mpr (result_stays (step_refines hc h).2 (c.outcome_eq_some.mp hn))

/-! ## The callers -/

/-- What the callers of attempt `n` wait for. -/
def Published (c : Coordinator) (n : Nat) : Prop := (c.outcome n).isSome

/-- The `finalize_shutdown` of attempt `n` has published and has not yet called `notify_waiters`. -/
def Finalizing (c : Coordinator) (n : Nat) : Prop :=
  (c.attempts[n]?).any (fun attempt =>
    attempt.supervisor == .completing || attempt.supervisor == .notifying) = true

/-- The attempt whose supervisor takes the section. -/
def Label.attempt : Label → Option Nat
  | call => none
  | finish n _ | completeShutdown n | notify n => some n

theorem attempts_other (hc : Coherent c) (h : step c a = some c') (ha : a.attempt ≠ some n) :
    c'.attempts[n]? = c.attempts[n]? ∨ c'.attempts[n]? = some ⟨.default, .running⟩ := by
  cases a with
  | call =>
    cases h
    rcases hc.startOrObserve_cases with ⟨hstart, -⟩ | ⟨m, hobserve, -⟩
    · rw [hstart]
      change (c.attempts ++ _)[n]? = _ ∨ (c.attempts ++ _)[n]? = _
      rw [List.getElem?_append]
      split_ifs with hn
      · exact .inl rfl
      · rw [List.getElem?_eq_none (Nat.le_of_not_lt hn)]
        cases n - c.attempts.length with
        | zero => exact .inr rfl
        | succ k => exact .inl rfl
    · rw [hobserve]
      exact .inl rfl
  | finish m outcome =>
    obtain ⟨-, heq⟩ := Option.ite_none_right_eq_some.mp h
    cases heq
    have hm : m ≠ n := fun heq => ha (congrArg some heq)
    simp [Coordinator.moved, Coordinator.finish, hm]
  | completeShutdown m | notify m =>
    obtain ⟨-, heq⟩ := Option.ite_none_right_eq_some.mp h
    cases heq
    have hm : m ≠ n := fun heq => ha (congrArg some heq)
    simp [Coordinator.moved, hm]

theorem kept : waitForShutdownCompletion.Kept Coherent Published Finalizing where
  keeps := coherent_keeps
  sees hc hfact := by
    obtain ⟨outcome, houtcome⟩ := Option.isSome_iff_exists.mp hfact
    exact ⟨outcome, by simp [waitForShutdownCompletion, houtcome]⟩
  lasts hc hstep hfact := by
    obtain ⟨outcome, houtcome⟩ := Option.isSome_iff_exists.mp hfact
    exact Option.isSome_iff_exists.mpr ⟨outcome, outcome_lasts hc hstep houtcome⟩
  owes := by
    intro c a c' n hc hstep hnotifies howed hfact
    by_cases ha : a.attempt = some n
    · cases a with
      | call => cases ha
      | finish m outcome =>
        cases ha
        obtain ⟨hrunning, heq⟩ := Option.ite_none_right_eq_some.mp hstep
        cases heq
        obtain ⟨attempt, hget, -⟩ := Option.any_eq_true _ _ |>.mp hrunning
        cases hincomplete : outcome.isIncomplete <;>
          simp [Finalizing, Coordinator.moved, Coordinator.finish, hget]
      | completeShutdown m =>
        cases ha
        obtain ⟨hcompleting, heq⟩ := Option.ite_none_right_eq_some.mp hstep
        cases heq
        obtain ⟨attempt, hget, -⟩ := Option.any_eq_true _ _ |>.mp hcompleting
        simp [Finalizing, Coordinator.moved, hget]
      | notify m => exact absurd ha hnotifies
    · rcases attempts_other hc hstep ha with hsame | hfresh
      · rw [Finalizing, hsame]
        refine howed ?_
        rwa [Published, Coordinator.outcome, hsame] at hfact
      · rw [Published, Coordinator.outcome, hfresh] at hfact
        cases hfact

theorem tells : waitForShutdownCompletion.Tells Coherent
    (fun c n outcome => c.outcome n = some outcome) fun c n outcome => c.outcome n = some outcome where
  keeps := coherent_keeps
  checks {c n outcome} _ hcheck := by
    simp only [waitForShutdownCompletion] at hcheck
    split at hcheck
    · cases hcheck
      assumption
    · cases hcheck
  finishes _ hsaw hfinish := by
    cases hfinish
    exact hsaw
  expires _ h := by cases h
  seen_lasts := outcome_lasts
  got_lasts := outcome_lasts

/-! ## Runs -/

/-- The coordinator with every caller of `shutdown_detailed`. -/
abbrev Callers := WaitLoop.State Coordinator Nat Unit ShutdownOutcome ShutdownOutcome

/-- One step of the coordinator, a supervisor or a caller. -/
abbrev next (s : Callers) (l : WaitLoop.Label Label) : Option Callers :=
  waitForShutdownCompletion.next s l

/-- Nobody has called `shutdown_detailed`. -/
def idle : Callers := WaitLoop.initial .default

/-- The step is the `finish` of attempt `n`. -/
def finishes (n : Nat) : WaitLoop.Label Label → Bool
  | .shared a => a.finishes n
  | _ => false

/-- The step is the `start_or_observe` of a caller. -/
def isCall : WaitLoop.Label Label → Bool
  | .shared .call => true
  | _ => false

variable {s t : Callers} {l : WaitLoop.Label Label} {labels : List (WaitLoop.Label Label)}

theorem shared_cases (h : next s l = some t) :
    (∃ a, l = .shared a ∧ step s.shared a = some t.shared) ∨
      t.shared = s.shared ∧ (∀ n, finishes n l = false) ∧ isCall l = false := by
  rcases WaitLoop.next_cases h with ⟨a, u, rfl, hu, rfl⟩ | ⟨n, k, w, w', -, hmoves, rfl⟩
  · exact .inl ⟨a, rfl, hu⟩
  · refine .inr ⟨rfl, ?_⟩
    cases hmoves <;> exact ⟨fun _ => rfl, rfl⟩

theorem coherent_next (hc : Coherent s.shared) (h : next s l = some t) : Coherent t.shared := by
  rcases shared_cases h with ⟨a, -, hstep⟩ | ⟨hsame, -, -⟩
  · exact coherent_keeps hc hstep
  · rwa [hsame]

theorem coherent_reach (h : Reach next anyStep idle s) : Coherent s.shared :=
  h.invariant (I := fun s => Coherent s.shared) coherent_default fun _ _ _ hc _ hstep =>
    coherent_next hc hstep

theorem kept_reach {P : Coordinator → Prop} (hc : Coherent s.shared) (hs : P s.shared)
    (hP : ∀ c a c', Coherent c → P c → step c a = some c' → P c') (h : Reach next anyStep s t) :
    P t.shared := by
  have hall : Coherent t.shared ∧ P t.shared :=
    h.invariant (I := fun s => Coherent s.shared ∧ P s.shared) ⟨hc, hs⟩ fun u l v hu _ hstep => by
      refine ⟨coherent_next hu.1 hstep, ?_⟩
      rcases shared_cases hstep with ⟨a, -, hstep⟩ | ⟨hsame, -, -⟩
      · exact hP _ a _ hu.1 hu.2 hstep
      · rw [hsame]
        exact hu.2
  exact hall.2

/-- An outcome that is there was published by one `finish`, and one that is not by none. -/
theorem published_once (hc : Coherent s.shared) (h : Machine.run next s labels = some t) (n : Nat) :
    (s.shared.outcome n).isSome.toNat + labels.countP (finishes n) =
      (t.shared.outcome n).isSome.toNat := by
  induction labels generalizing s with
  | nil =>
    cases h
    rfl
  | cons l rest ih =>
    obtain ⟨u, hu, hrest⟩ := Option.bind_eq_some_iff.mp h
    rw [← ih (coherent_next hc hu) hrest, List.countP_cons]
    rcases shared_cases hu with ⟨a, rfl, hstep⟩ | ⟨hsame, hfinishes, -⟩
    · change _ + (_ + if a.finishes n = true then 1 else 0) = _
      cases ha : a.finishes n with
      | false =>
        rw [outcome_kept hc hstep ha]
        simp
      | true =>
        cases a with
        | finish m outcome =>
          obtain rfl := of_decide_eq_true ha
          obtain ⟨hbefore, hafter, -⟩ := finish_outcome hc hstep
          rw [hbefore, hafter]
          simp [Nat.add_comm]
        | call | completeShutdown | notify => cases ha
    · rw [hsame, hfinishes n]
      simp

/-- Since `s`, in which every outcome asked for another attempt, at most one attempt was started
(`called`), and every caller that came waits for it. -/
structure Retried (s t : Callers) (called : Bool) : Prop where
  outcomes : t.shared.outcomes = s.shared.outcomes ++ if called then [none] else []
  joined : ∀ m n w, s.waiters.length ≤ m → t.waiters[m]? = some (n, w) →
    n = s.shared.attempts.length

theorem over_of_incomplete (hc : Coherent c) (h : c.lifecycle = .Incomplete) :
    Over ShutdownOutcome.isIncomplete c.outcomes := by
  rw [hc.lifecycle] at h
  rcases hlast : c.outcomes.getLast? with _ | _ | outcome
  · rw [hlast] at h
    cases h
  · rw [hlast] at h
    cases h
  · refine over_of_last hc.flying hlast ?_
    by_contra hagain
    rw [hlast, standing, if_neg hagain] at h
    cases h

theorem Retried.call {called : Bool} (hlife : s.shared.lifecycle = .Incomplete)
    (hs : Coherent s.shared) (ht : Coherent t.shared) (hr : Retried s t called) :
    t.shared.startOrObserve.1.outcomes = s.shared.outcomes ++ [none] ∧
      t.shared.startOrObserve.2 = s.shared.attempts.length := by
  have houtcomes := hr.outcomes
  have hlen : t.shared.attempts.length = s.shared.attempts.length + called.toNat := by
    rw [← Coordinator.length_outcomes, houtcomes, ← Coordinator.length_outcomes]
    cases called <;> simp
  rcases ht.startOrObserve_cases with ⟨hstart, hover⟩ | ⟨n, hobserve, hn, hlife'⟩
  · have hcalled : called = false := by
      cases called with
      | false => rfl
      | true =>
        obtain ⟨x, hx, -⟩ := hover none (by rw [houtcomes]; simp)
        cases hx
    subst hcalled
    rw [hstart, (ht.start hover).2, houtcomes]
    exact ⟨by simp, hlen⟩
  · have hcalled : called = true := by
      cases called with
      | true => rfl
      | false =>
        rw [ht.lifecycle, houtcomes] at hlife'
        rw [hs.lifecycle] at hlife
        exact absurd (by simpa using hlife) hlife'
    subst hcalled
    rw [hobserve]
    refine ⟨houtcomes, ?_⟩
    rw [hlen] at hn
    exact Nat.succ.inj hn

theorem Retried.step {called : Bool} {u : Callers} (hlife : s.shared.lifecycle = .Incomplete)
    (hs : Coherent s.shared) (ht : Coherent t.shared) (hr : Retried s t called)
    (h : next t l = some u) (hl : finishes s.shared.attempts.length l = false) :
    Retried s u (called || isCall l) := by
  constructor
  · rcases shared_cases h with ⟨a, rfl, hstep⟩ | ⟨hsame, -, hcall⟩
    · cases a with
      | call =>
        have heq : t.shared.startOrObserve.1 = u.shared := Option.some.inj hstep
        rw [← heq, (hr.call hlife hs ht).1]
        simp [isCall]
      | finish n outcome =>
        -- The newest attempt is the one that was started since, and it does not finish here.
        obtain ⟨hnewest, hnone, -⟩ := finish_spec ht hstep
        cases called with
        | false =>
          rw [hr.outcomes, if_neg Bool.false_ne_true, List.append_nil] at hnone
          obtain ⟨x, hx, -⟩ := over_of_incomplete hs hlife none (List.mem_of_getElem? hnone)
          cases hx
        | true =>
          have hlen := congrArg List.length hr.outcomes
          simp only [Coordinator.length_outcomes, List.length_append, if_true,
            List.length_singleton] at hlen
          have hn : n = s.shared.attempts.length := by omega
          exact absurd hn (of_decide_eq_false hl)
      | completeShutdown n | notify n =>
        rw [eq_of_skip (step_refines ht hstep).2, hr.outcomes]
        simp [isCall]
    · rw [hcall, Bool.or_false, hsame]
      exact hr.outcomes
  · intro m n w hm hw
    rcases WaitLoop.entry_cases h hw with ⟨v, hv⟩ | ⟨-, a, rfl, hcalls⟩
    · exact hr.joined m n v hm hv
    · cases a with
      | call =>
        cases hcalls
        exact (hr.call hlife hs ht).2
      | finish | completeShutdown | notify => cases hcalls

theorem Retried.run {called : Bool} {u : Callers} (hlife : s.shared.lifecycle = .Incomplete)
    (hs : Coherent s.shared) (ht : Coherent t.shared) (hr : Retried s t called)
    (h : Machine.run next t labels = some u)
    (hl : ∀ l ∈ labels, finishes s.shared.attempts.length l = false) :
    Retried s u (called || labels.any isCall) := by
  induction labels generalizing t called with
  | nil =>
    cases h
    rw [List.any_nil, Bool.or_false]
    exact hr
  | cons l rest ih =>
    obtain ⟨v, hv, hrest⟩ := Option.bind_eq_some_iff.mp h
    obtain ⟨hlhead, hlrest⟩ := List.forall_mem_cons.mp hl
    rw [List.any_cons, ← Bool.or_assoc]
    exact ih (coherent_next ht hv) (hr.step hlife hs ht hv hlhead) hrest hlrest

/-- What holds of the attempts and the callers after the steps `labels`, which lead to `s`. -/
structure SingleFlightRun (labels : List (WaitLoop.Label Label)) (s : Callers) : Prop where
  one_unpublished : ∀ n m, n < s.shared.attempts.length → s.shared.outcome n = none →
    m < s.shared.attempts.length → s.shared.outcome m = none → n = m
  lifecycle : s.shared.lifecycle = standing (s.shared.attempts.getLast?.map (·.completion.outcome))
  /-- Every outcome there is was published by one `finish`. -/
  published_once : ∀ n, labels.countP (finishes n) = (s.shared.outcome n).isSome.toNat
  /-- Every `finish` publishes the outcome it is called with. -/
  publishes : ∀ n outcome t, next s (.shared (.finish n outcome)) = some t →
    (s.shared.finish n outcome).2 = true ∧ t.shared.outcome n = some outcome
  immutable : ∀ t, Reach next anyStep s t → ∀ n outcome, s.shared.outcome n = some outcome →
    t.shared.outcome n = some outcome
  returned : ∀ (m n : Nat) (outcome : ShutdownOutcome), s.waiters[m]? = some (n, Waiter.returned outcome) →
    s.shared.outcome n = some outcome
  /-- After an incomplete outcome the callers that come before the next outcome start one attempt,
  and each of them returns its outcome. -/
  retried : s.shared.lifecycle = .Incomplete → ∀ more t, Machine.run next s more = some t →
    (∀ l ∈ more, finishes s.shared.attempts.length l = false) →
    t.shared.attempts.length = s.shared.attempts.length + (more.any isCall).toNat ∧
      t.waiters.length = s.waiters.length + more.countP isCall ∧ ∀ u, Reach next anyStep t u →
      ∀ (m n : Nat) (outcome : ShutdownOutcome), s.waiters.length ≤ m → m < t.waiters.length →
        u.waiters[m]? = some (n, Waiter.returned outcome) →
        n = s.shared.attempts.length ∧ u.shared.outcome n = some outcome
  final : s.shared.lifecycle = .Complete → ∀ t, Reach next anyStep s t →
    t.shared.attempts.length = s.shared.attempts.length ∧ t.shared.lifecycle = .Complete
  closed : s.shared.attempts ≠ [] → ∀ t, Reach next anyStep s t → t.shared.admission ≠ .RUNNING

theorem waiters_run (h : Machine.run next s labels = some t) :
    t.waiters.length = s.waiters.length + labels.countP isCall := by
  induction labels generalizing s with
  | nil =>
    cases h
    rfl
  | cons l rest ih =>
    obtain ⟨u, hu, hrest⟩ := Option.bind_eq_some_iff.mp h
    rw [ih hrest, List.countP_cons]
    rcases WaitLoop.next_cases hu with ⟨a, v, rfl, -, rfl⟩ | ⟨n, k, w, w', -, hmoves, rfl⟩
    · rw [List.length_append, List.length_map]
      cases a with
      | call =>
        simp only [waitForShutdownCompletion, isCall, Option.toList_some, List.map_singleton,
          List.length_singleton, if_true]
        omega
      | finish | completeShutdown | notify => rfl
    · cases hmoves <;> simp [isCall]

theorem closed_step (hc : Coherent c) (hbegun : c.attempts ≠ []) (h : step c a = some c') :
    c'.attempts ≠ [] := by
  have hle := length_le (step_refines hc h).2
  rw [c.length_outcomes, c'.length_outcomes] at hle
  have hpos := List.length_pos_iff.mpr hbegun
  exact List.ne_nil_of_length_pos (by omega)

theorem unpublished_eq (hn : n < c.attempts.length) (hnone : c.outcome n = none) :
    c.outcomes[n]? = some none := by
  rw [Coordinator.outcome, List.getElem?_eq_getElem hn, Option.bind_some] at hnone
  rw [c.outcomes_getElem, List.getElem?_eq_getElem hn, Option.map_some, hnone]

theorem last_of_complete (hc : Coherent c) (h : c.lifecycle = .Complete) :
    ∃ outcome, c.outcomes.getLast? = some (some outcome) ∧ outcome.isIncomplete = false := by
  rw [hc.lifecycle] at h
  rcases hlast : c.outcomes.getLast? with _ | _ | outcome
  · rw [hlast] at h
    cases h
  · rw [hlast] at h
    cases h
  · refine ⟨outcome, rfl, ?_⟩
    by_contra hagain
    rw [hlast, standing, if_pos (eq_true_of_ne_false hagain)] at h
    cases h

/-- Shutdown attempts are single-flight and their outcomes immutable, and no caller waits for an
outcome that is there. -/
theorem shutdown_single_flight :
    (∀ labels s, Machine.run next idle labels = some s → SingleFlightRun labels s) ∧
      waitForShutdownCompletion.LeavesNoneParked .default Published Finalizing := by
  refine ⟨fun labels s h => ?_, kept.leavesNoneParked coherent_default⟩
  have hreach := reach_of_run h
  have hs := coherent_reach hreach
  constructor
  · intro n m hn hnone hm hnone'
    exact open_unique hs.flying (unpublished_eq hn hnone) (unpublished_eq hm hnone')
  · rw [hs.lifecycle, Coordinator.outcomes, List.getLast?_map]
  · intro n
    have honce := published_once coherent_default h n
    have hnone : idle.shared.outcome n = none := rfl
    rw [hnone] at honce
    simpa using honce
  · intro n outcome t ht
    rcases shared_cases ht with ⟨a, heq, hstep⟩ | ⟨-, hfinishes, -⟩
    · cases heq
      exact ⟨(finish_spec hs hstep).2.2.2, (finish_outcome hs hstep).2.1⟩
    · exact absurd (hfinishes n) (by simp [finishes, Label.finishes])
  · intro t ht n outcome hn
    exact kept_reach (P := fun c => c.outcome n = some outcome) hs hn
      (fun _ _ _ hc hn hstep => outcome_lasts hc hstep hn) ht
  · intro m n outcome hm
    exact WaitLoop.truthful_reach tells coherent_default hreach hm
  · intro hlife more t hrun hmore
    have hr : Retried s s false := ⟨by simp, fun m n w hm hw => by
      have := (List.getElem?_eq_some_iff.mp hw).1
      omega⟩
    obtain ⟨houtcomes, hjoined⟩ := hr.run hlife hs hs hrun hmore
    have hreach' := hreach.trans (reach_of_run hrun)
    refine ⟨?_, waiters_run hrun, fun u hu m n outcome hm hm' hreturned => ?_⟩
    · rw [← Coordinator.length_outcomes, houtcomes, List.length_append, Coordinator.length_outcomes,
        Bool.false_or]
      cases more.any isCall <;> rfl
    · obtain ⟨w, hw⟩ := WaitLoop.subject_lasts hu hm' hreturned
      exact ⟨hjoined m n w hm hw,
        WaitLoop.truthful_reach tells coherent_default (hreach'.trans hu) hreturned⟩
  · intro hlife t ht
    obtain ⟨outcome, hlast, hfinal⟩ := last_of_complete hs hlife
    have houtcomes : t.shared.outcomes = s.shared.outcomes := by
      refine kept_reach (P := fun c => c.outcomes = s.shared.outcomes) hs rfl ?_ ht
      intro c a c' hc heq hstep
      rw [← heq] at hlast ⊢
      exact SingleFlight.eq_of_last (step_refines hc hstep).2 hlast hfinal
    refine ⟨?_, ?_⟩
    · rw [← Coordinator.length_outcomes, houtcomes, Coordinator.length_outcomes]
    · rw [(coherent_reach (hreach.trans ht)).lifecycle, houtcomes, ← hs.lifecycle, hlife]
  · intro hbegun t ht hopen
    have ht' := kept_reach (P := fun c => c.attempts ≠ []) hs hbegun
      (fun _ _ _ hc hbegun hstep => closed_step hc hbegun hstep) ht
    exact ht' ((coherent_reach (hreach.trans ht)).closed hopen)

/-- Two callers share an attempt that ends incomplete, two more share the next one. -/
def retriedShutdown : List (WaitLoop.Label Label) :=
  [.shared .call, .shared .call, .shared (.finish 0 (.Incomplete [.Tasks 1] [])), .shared (.notify 0),
    .advance 0, .advance 0, .shared .call, .shared .call,
    .shared (.finish 1 .Complete), .advance 2, .advance 2, .shared (.completeShutdown 1),
    .shared (.notify 1), .advance 3, .advance 3]

theorem shutdown_single_flight_retried :
    ∃ s, SingleFlightRun retriedShutdown s ∧ s.shared.attempts.length = 2 ∧
      s.waiters.map (·.1) = [0, 0, 1, 1] := by
  obtain ⟨s, hs⟩ : ∃ s, Machine.run next idle retriedShutdown = some s := ⟨_, rfl⟩
  refine ⟨s, shutdown_single_flight.1 _ _ hs, ?_⟩
  cases hs
  exact ⟨rfl, rfl⟩

end Cordis.Shutdown
