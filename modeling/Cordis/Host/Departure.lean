import Cordis.Host.Verdict
import Cordis.Library.WaitLoop

/-!
# Waiting for the end of a session

`wait_for_failure` waits until the session is `Closed` or `Failed`. The state is exchanged well before the
transition that exchanged it calls `notify_waiters`: the error is recorded, the requests that are pending
are resolved and the actors are stopped in between. What the caller returns for a failed session is read
under the lock that the transition holds until the error is recorded.
-/

namespace Cordis.Session

open Protocol Machine Threads

namespace Departure

inductive Label
  | session (l : Session.Label)
  | waitForFailure

def step (s : SessionInner) : Label → Option SessionInner
  | .session l => Session.step s l
  | .waitForFailure => some s

/-- The next operation of thread `n` is `notify_waiters`. -/
def notifying (s : SessionInner) (n : Nat) : Bool :=
  (s.threads[n]?).any fun pc => pc.transition?.any (·.2 == .notify)

end Departure

open Departure in
/-- The loop of `wait_for_failure`; `terminal_error` is read under its lock. -/
def waitForFailure :
    WaitLoop SessionInner Departure.Label Unit Unit SessionState (Option HostError) where
  step := Departure.step
  calls _ a := match a with
    | .waitForFailure => some ()
    | _ => none
  notifies s a := match a with
    | .session (.run n _) => if notifying s n then some () else none
    | _ => none
  looksFirst := true
  check s _ := match s.state with
    | .Failed => .ok .Failed
    | .Closed => .ok .Closed
    | _ => .error ()
  finish s _ seen := match seen with
    | .Failed => if s.terminalLock then none else some s.terminalError
    | _ => some none
  expire _ := none

namespace Departure

/-- The session is `Closed` or `Failed`. -/
def Departed (s : SessionInner) (_ : Unit) : Prop := s.Terminal

/-- The transition that has exchanged the state has not called `notify_waiters`. -/
def Departing (s : SessionInner) (_ : Unit) : Prop := ∃ pc ∈ s.threads, pc.winning = true

/-- Nobody is about to exchange a terminal state. -/
def Live (s : SessionInner) : Prop := ∀ n terminal current, At s n terminal (.exchange current) →
  current ≠ .Closed ∧ current ≠ .Failed

variable {s t u : SessionInner} {n : Nat} {pc pc' : Pc} {b : Bool} {l : Session.Label}

/-- What a step does, as far as the callers are concerned. -/
structure Fair (s t : SessionInner) (l : Session.Label) : Prop where
  live : Live t
  lasts : s.Terminal → t.Terminal
  owes : waitForFailure.notifies s (.session l) ≠ some () →
    (s.Terminal → Departing s ()) → t.Terminal → Departing t ()

theorem departing_set (hn : s.threads[n]? = some pc) (h : Departing s ())
    (hpc : pc.winning = true → pc'.winning = true) :
    Departing { u with threads := s.threads.set n pc' } () := by
  obtain ⟨p, hp, hwinning⟩ := h
  rcases mem_or_of_mem_set pc' hn hp with rfl | hstays
  · exact ⟨pc', List.mem_of_getElem? ((get_set hn).mpr (.inl ⟨rfl, rfl⟩)), hpc hwinning⟩
  · exact ⟨p, hstays, hwinning⟩

theorem live_set (hs : Live s) (hn : s.threads[n]? = some pc)
    (hpc : ∀ terminal current, pc'.transition? = some (terminal, .exchange current) →
      current ≠ .Closed ∧ current ≠ .Failed) :
    Live { u with threads := s.threads.set n pc' } := by
  intro m terminal current hat
  rcases (at_set (u := { u with threads := s.threads.set n pc' }) hn rfl).mp hat with ⟨-, hpc'⟩ | ⟨-, hold⟩
  · exact hpc terminal current hpc'
  · exact hs m terminal current hold

theorem not_exchanging (h : pc.idle) (terminal : Terminal) (current : SessionState) :
    pc.transition? ≠ some (terminal, .exchange current) := by
  intro hpc
  have hlocking := h.2
  rw [Pc.locking, hpc] at hlocking
  cases hlocking

theorem stepTransition_cases {terminal : Terminal} {tpc tpc' : TransitionPc}
    (h : stepTransition s terminal tpc = some (u, tpc')) :
    (u.state = s.state ∧ (tpc.winning = true → tpc ≠ .notify → tpc'.winning = true) ∧
      ∀ current, tpc' = .exchange current → current ≠ .Closed ∧ current ≠ .Failed) ∨
    tpc = .exchange s.state ∧ tpc' = .record := by
  cases tpc with
  | lock =>
    simp only [stepTransition] at h
    split_ifs at h
    cases h
    exact .inl ⟨rfl, by rintro ⟨⟩, by simp⟩
  | load =>
    simp only [stepTransition] at h
    split_ifs at h with hterminal
    · cases h
      exact .inl ⟨rfl, by rintro ⟨⟩, by simp⟩
    · cases h
      refine .inl ⟨rfl, by rintro ⟨⟩, fun current heq => ?_⟩
      cases heq
      exact not_or.mp hterminal
  | exchange current =>
    simp only [stepTransition] at h
    split_ifs at h with hsame
    · cases h
      exact .inr ⟨by rw [hsame], rfl⟩
    · cases h
      exact .inl ⟨rfl, by rintro ⟨⟩, by simp⟩
  | record | stop =>
    simp only [stepTransition] at h
    cases terminal <;> cases h <;> exact .inl ⟨rfl, fun _ _ => rfl, by simp⟩
  | drain | force =>
    cases h
    exact .inl ⟨rfl, fun _ _ => rfl, by simp⟩
  | notify =>
    cases h
    exact .inl ⟨rfl, fun _ hnotify => absurd rfl hnotify, by simp⟩
  | done won => cases h

theorem fair_run (hs : Live s) (hn : s.threads[n]? = some pc)
    (h : stepThread s n b pc = some (u, pc')) :
    Fair s { u with threads := s.threads.set n pc' } (.run n b) := by
  cases stepThread_rule h with
  | keep hstate _ _ hwas hnow =>
    refine ⟨live_set hs hn fun terminal current hpc => absurd hpc (not_exchanging hnow _ _), ?_, ?_⟩
    · intro hterminal
      rwa [SessionInner.Terminal, hstate]
    · intro _ howed hterminal
      rw [SessionInner.Terminal, hstate] at hterminal
      refine departing_set hn (howed hterminal) fun hwinning => ?_
      rw [hwas.1] at hwinning
      cases hwinning
  | ordinary hstate _ _ hwas hnow =>
    obtain ⟨hbefore, hafter⟩ := not_terminal_of_ordinary hstate
    exact ⟨live_set hs hn fun terminal current hpc => absurd hpc (not_exchanging hnow _ _),
      fun hterminal => absurd hterminal hbefore, fun _ _ hterminal => absurd hterminal hafter⟩
  | transition terminal tpc tpc' hwas hnow hstep =>
    have hlive : ∀ terminal' current, pc'.transition? = some (terminal', .exchange current) →
        tpc' = .exchange current := by
      intro terminal' current hpc
      rw [hnow] at hpc
      cases hpc
      rfl
    rcases stepTransition_cases hstep with ⟨hstate, hstays, hexchange⟩ | ⟨rfl, rfl⟩
    · refine ⟨live_set hs hn fun terminal' current hpc => hexchange current (hlive _ _ hpc), ?_, ?_⟩
      · intro hterminal
        rwa [SessionInner.Terminal, hstate]
      · intro hnotifies howed hterminal
        rw [SessionInner.Terminal, hstate] at hterminal
        refine departing_set hn (howed hterminal) fun hwinning => ?_
        rw [Pc.winning, hwas] at hwinning
        rw [Pc.winning, hnow]
        refine hstays hwinning fun hnotify => hnotifies ?_
        simp [waitForFailure, notifying, hn, hwas, hnotify]
    · have hbefore := hs n terminal s.state ⟨pc, hn, hwas⟩
      refine ⟨live_set hs hn fun terminal' current hpc => ?_, ?_, ?_⟩
      · cases hlive _ _ hpc
      · rintro (hclosed | hfailed)
        · exact absurd hclosed hbefore.1
        · exact absurd hfailed hbefore.2
      · intro _ _ _
        refine ⟨pc', List.mem_of_getElem? ((get_set hn).mpr (.inl ⟨rfl, rfl⟩)), ?_⟩
        rw [Pc.winning, hnow]
        rfl

theorem fair_spawn (hs : Live s) (hpc : pc.idle) : Fair s (s.spawn pc) l where
  live n terminal current := by
    rintro ⟨p, hp, htransition⟩
    rcases List.mem_append.mp (List.mem_of_getElem? hp) with hold | hnew
    · obtain ⟨m, hm⟩ := List.getElem?_of_mem hold
      exact hs m terminal current ⟨p, hm, htransition⟩
    · rw [List.mem_singleton.mp hnew] at htransition
      exact absurd htransition (not_exchanging hpc _ _)
  lasts := id
  owes _ howed hterminal := by
    obtain ⟨p, hp, hwinning⟩ := howed hterminal
    exact ⟨p, List.mem_append_left _ hp, hwinning⟩

theorem fair_step (hs : Live s) (h : Session.step s l = some t) : Fair s t l := by
  cases l with
  | call op | dispatch message | terminate terminal | negotiate limits =>
    cases h
    exact fair_spawn hs ⟨rfl, rfl⟩
  | run n b =>
    obtain ⟨pc, hn, h⟩ := Option.bind_eq_some_iff.mp h
    obtain ⟨⟨u, pc'⟩, hstep, heq⟩ := Option.bind_eq_some_iff.mp h
    cases heq
    exact fair_run hs hn hstep
  | drop n =>
    obtain ⟨pc, hn, h⟩ := Option.bind_eq_some_iff.mp h
    obtain ⟨pc', hdrop, heq⟩ := Option.bind_eq_some_iff.mp h
    cases heq
    cases pc with
    | call op call =>
      obtain ⟨call', -, rfl⟩ := Option.map_eq_some_iff.mp hdrop
      exact ⟨live_set hs hn nofun, id, fun _ howed hterminal =>
        departing_set hn (howed hterminal) nofun⟩
    | dispatch | terminate | negotiate => cases hdrop
  | receive | stopWriter =>
    cases h
    exact ⟨hs, id, fun _ howed => howed⟩

theorem kept : waitForFailure.Kept Live Departed Departing where
  keeps {s a t} hs h := by
    cases a with
    | session l => exact (fair_step hs h).live
    | waitForFailure =>
      cases h
      exact hs
  sees _ hterminal := by
    rcases hterminal with hclosed | hfailed
    · exact ⟨.Closed, by simp [Session.waitForFailure, hclosed]⟩
    · exact ⟨.Failed, by simp [Session.waitForFailure, hfailed]⟩
  lasts {s a t _} hs h hterminal := by
    cases a with
    | session l => exact (fair_step hs h).lasts hterminal
    | waitForFailure =>
      cases h
      exact hterminal
  owes {s a t _} hs h hnotifies howed hterminal := by
    cases a with
    | session l => exact (fair_step hs h).owes hnotifies howed hterminal
    | waitForFailure =>
      cases h
      exact howed hterminal

theorem live_new (config : ProcessHostConfig) : Live (.new config) := by
  rintro n terminal current ⟨p, hp, -⟩
  cases hp

end Departure

end Cordis.Session
