import Cordis.Host.Manned

/-!
# A session comes down

Once a session is forced to end, or its child has exited, its actors end by themselves: whatever the calls, the
child and the owner leave undone, the steps of the actors and of the threads they run are never stuck before all of
them have ended, and there are only so many of these steps, since each uses up some of the work that is left
(`Host.work`).
-/

namespace Cordis.Actors

open Protocol Session Machine Threads

/-! ## Nobody is stuck -/

/-- A step of an actor, or of a thread that it runs. -/
def own (h : Host) : Label → Bool
  | .reader _ | .writer .. | .supervisor _ => true
  | .run n _ => h.session.threads[n]?.any Pc.tasked
  | _ => false

/-- The supervisor has something to do: it is told to, the child has exited, or it is past its wait. -/
def Dying (h : Host) : Prop :=
  h.session.force = true ∨ h.exitStatus.isSome = true ∨ h.supervisor ≠ .wait

/-- Neither an actor nor a thread that it runs can take a step. -/
def Idle (h : Host) : Prop := ∀ l, own h l = true → step h l = none

/-- Nothing of the session runs any more, and every call that waits for a response has one. -/
structure Down (h : Host) : Prop where
  reader : h.reader = .ended
  writer : h.writer = .ended
  supervisor : h.supervisor = .ended
  terminal : h.session.Terminal
  deaf : h.session.receiving = false
  rest : ∀ pc ∈ h.session.threads, pc.busy = false
  answered : ∀ n, h.session.Waits n → h.session.Answered n

section Idle

variable {h h' : Host} {s t : SessionInner} {n : Nat} {pc : Pc}

theorem stepTransition_isSome {terminal : Terminal} {tpc : TransitionPc}
    (hlock : tpc = .lock → s.terminalLock = false) (hlive : ∀ won, tpc ≠ .done won) :
    (stepTransition s terminal tpc).isSome = true := by
  cases tpc <;> simp only [stepTransition]
  case lock =>
    rw [hlock rfl]
    rfl
  case load | exchange => split_ifs <;> rfl
  case record => cases terminal <;> rfl
  case done won => exact absurd rfl (hlive won)
  all_goals rfl

theorem stepThread_isSome (hbusy : pc.busy = true)
    (hlock : ∀ terminal, pc.transition? = some (terminal, .lock) → s.terminalLock = false) :
    (stepThread s n false pc).isSome = true := by
  cases pc with
  | terminate terminal tpc =>
    rw [stepThread, Option.isSome_map]
    refine stepTransition_isSome (fun heq => hlock terminal (heq ▸ rfl)) fun won heq => ?_
    rw [heq] at hbusy
    cases hbusy
  | dispatch message dpc =>
    rw [stepThread, Option.isSome_map]
    cases dpc <;> simp only [stepDispatch]
    case check => split_ifs <;> rfl
    case acknowledge | reply => rfl
    case remove => split <;> rfl
    case judge =>
      split
      · rfl
      · split
        · rfl
        · split <;> rfl
    case failing error entry tpc =>
      split
      · rfl
      · rfl
      · rename_i hsome hnone
        rw [Option.isSome_map]
        refine stepTransition_isSome (fun heq => hlock (.failed error) (heq ▸ rfl)) fun won heq => ?_
        cases entry with
        | none => exact hnone won heq rfl
        | some entry => exact hsome won entry heq rfl
    case done => cases hbusy
  | call | negotiate => cases hbusy

theorem Idle.thread (hidle : Idle h) (hn : h.session.threads[n]? = some pc) (htasked : pc.tasked = true) :
    stepThread h.session n false pc = none := by
  have hnone := hidle (.run n false) (by simp [own, hn, htasked])
  cases hthread : stepThread h.session n false pc with
  | none => rfl
  | some p => simp [step, onSession, Session.step, hn, hthread] at hnone

theorem busy_of_locking {terminal : Terminal} {tpc : TransitionPc} (h : pc.transition? = some (terminal, tpc))
    (hlocking : tpc.locking = true) : pc.busy = true := by
  cases pc with
  | terminate T q =>
    cases h
    cases tpc <;> first | rfl | cases hlocking
  | dispatch message dpc => cases dpc <;> first | rfl | cases h
  | call | negotiate => cases h

theorem Idle.unlocked (hm : Manned h) (hidle : Idle h) : h.session.terminalLock = false := by
  by_contra hlocked
  obtain ⟨n, terminal, tpc, ⟨pc, hn, htransition⟩, hlocking⟩ := hm.locked (by simpa using hlocked)
  have hbusy := busy_of_locking htransition hlocking
  have hstep := hidle.thread hn (tasked_of_busy hbusy)
  have hsome := stepThread_isSome (s := h.session) (n := n) hbusy fun T hlock => by
    rw [htransition] at hlock
    cases hlock
    cases hlocking
  rw [hstep] at hsome
  cases hsome

theorem Idle.rest (hm : Manned h) (hidle : Idle h) (hn : h.session.threads[n]? = some pc) : pc.busy = false := by
  by_contra hbusy
  have hbusy : pc.busy = true := by simpa using hbusy
  have hstep := hidle.thread hn (tasked_of_busy hbusy)
  have hsome := stepThread_isSome (s := h.session) (n := n) hbusy fun _ _ => hidle.unlocked hm
  rw [hstep] at hsome
  cases hsome

theorem Idle.finished (hm : Manned h) (hidle : Idle h) (hn : Awaited h n) :
    ∃ go, finished h.session.threads[n]? = some go := by
  obtain ⟨pc, hpc, htasked⟩ := hm.awaited n hn
  rw [hpc]
  refine Option.isSome_iff_exists.mp ((finished_or_busy htasked).resolve_right ?_)
  rw [hidle.rest hm hpc]
  exact Bool.false_ne_true

theorem Idle.reader_ended (hm : Manned h) (hidle : Idle h) (hstop : h.session.actorStop = true) :
    h.reader = .ended := by
  have hnone : ∀ stop, stepReader h stop = none := fun stop => hidle (.reader stop) rfl
  have hread := hnone true
  cases hr : h.reader with
  | ended => rfl
  | dispatching n =>
    obtain ⟨go, hgo⟩ := hidle.finished hm (.inl hr)
    simp [stepReader, hr, hgo] at hread
  | failing n =>
    obtain ⟨go, hgo⟩ := hidle.finished hm (.inr (.inl hr))
    simp [stepReader, hr, hgo] at hread
  | decode payload =>
    simp only [stepReader, hr] at hread
    split_ifs at hread
    split at hread <;> cases hread
  | limit | read => simp [stepReader, hr, hstop] at hread
  | readFailed | readFailedOpen =>
    simp only [stepReader, hr] at hread
    split_ifs at hread

theorem Idle.writer_ended (hm : Manned h) (hidle : Idle h) (hstop : h.session.actorStop = true) :
    h.writer = .ended := by
  have hnone : stepWriter h true 0 = none := hidle (.writer true 0) rfl
  cases hw : h.writer with
  | ended => rfl
  | failing n =>
    obtain ⟨go, hgo⟩ := hidle.finished hm (.inr (.inr (.inl hw)))
    simp [stepWriter, hw, hgo] at hnone
  | encode message =>
    simp only [stepWriter, hw] at hnone
    split at hnone
    · cases hnone
    · split_ifs at hnone
  | receive => simp [stepWriter, hw, hstop] at hnone
  | write payload =>
    simp only [stepWriter, hw] at hnone
    split_ifs at hnone

theorem Idle.supervisor_ended (hm : Manned h) (hidle : Idle h) (hdying : Dying h) : h.supervisor = .ended := by
  have hnone : ∀ other, stepSupervisor h other = none := fun other => hidle (.supervisor other) rfl
  have hstep := hnone false
  have hstaged := hm.staged
  unfold Staged at hstaged
  cases hv : h.supervisor with
  | ended => rfl
  | wait =>
    rcases hdying with hforce | hexit | hpast
    · have hforced := hnone true
      simp [stepSupervisor, hv, hforce] at hforced
    · obtain ⟨success, hsuccess⟩ := Option.isSome_iff_exists.mp hexit
      simp [stepSupervisor, hv, hsuccess] at hstep
    · exact absurd hv hpast
  | exited success =>
    rcases success with _ | _ | _ <;> simp only [stepSupervisor, hv] at hstep
    · cases hstep
    · cases hstep
    · split_ifs at hstep
  | killed reaped =>
    cases reaped <;> simp only [stepSupervisor, hv] at hstep
    · cases hstep
    · split_ifs at hstep
  | transition n =>
    obtain ⟨go, hgo⟩ := hidle.finished hm (.inr (.inr (.inr hv)))
    simp [stepSupervisor, hv, hgo] at hstep
  | joinReader =>
    simp only [hv] at hstaged
    simp [stepSupervisor, hv, hidle.reader_ended hm hstaged.2, ReaderPc.isEnded] at hstep
  | joinWriter =>
    simp only [hv] at hstaged
    simp [stepSupervisor, hv, hidle.writer_ended hm hstaged.2.1, WriterPc.isEnded] at hstep
  | kill | stop => simp [stepSupervisor, hv] at hstep

theorem busy_of_draining (h : pc.draining = true) : pc.busy = true := by
  cases pc with
  | terminate terminal tpc => cases tpc <;> first | rfl | cases h
  | dispatch message dpc => cases dpc <;> first | rfl | cases h
  | call | negotiate => cases h

theorem busy_of_holds (h : pc.holds = some n) : pc.busy = true := by
  cases pc with
  | dispatch message dpc => cases dpc <;> first | rfl | cases h
  | call | terminate | negotiate => cases h

/-- Where nobody can take a step all have ended. -/
theorem Idle.down (hm : Manned h) (hidle : Idle h) (hdying : Dying h) : Down h := by
  have hended := hidle.supervisor_ended hm hdying
  have hstaged := hm.staged
  unfold Staged at hstaged
  simp only [hended] at hstaged
  obtain ⟨hterminal, -, hreader, hwriter⟩ := hstaged
  have hrest : ∀ pc ∈ h.session.threads, pc.busy = false := by
    intro pc hpc
    obtain ⟨n, hn⟩ := List.mem_iff_getElem?.mp hpc
    exact hidle.rest hm hn
  refine ⟨hreader, hwriter, hended, hterminal, hm.deaf hwriter, hrest, fun n hwaits => ?_⟩
  have hrole : ∃ i, h.session.role n = .registered i true := by
    obtain ⟨op, id, hn | hn⟩ := hwaits <;> exact ⟨id, role_of_get hn⟩
  obtain ⟨i, hi⟩ := hrole
  have hdrained : h.session.Drained := by
    refine ⟨hterminal, fun pc hpc => ?_⟩
    by_contra hdraining
    exact absurd (hrest pc hpc) (by simp [busy_of_draining (by simpa using hdraining)])
  rcases hm.accounted.tracked.channel n i true hi with ⟨e, he, rfl⟩ | hanswered | ⟨m, hholder⟩
  · exact absurd hi (hm.accounted.settled hdrained i e he)
  · exact hanswered
  · obtain ⟨pc, hpc, hholds⟩ := role_holder hholder
    exact absurd (hidle.rest hm hpc) (by simp [busy_of_holds hholds])

end Idle

/-! ## How much is left to do -/

/-- The steps that are left of a terminal transition, while the state is `state`. A transition that has loaded
another state loads again. -/
def transitionWork (state : SessionState) : TransitionPc → Nat
  | .lock => if state = .Closed ∨ state = .Failed then 8 else 10
  | .load => if state = .Closed ∨ state = .Failed then 6 else 8
  | .exchange current => if state = .Closed ∨ state = .Failed ∨ state = current then 7 else 9
  | .record => 5
  | .drain => 4
  | .stop => 3
  | .force => 2
  | .notify => 1
  | .done _ => 0

def dispatchWork (state : SessionState) : DispatchPc → Nat
  | .check => 15
  | .remove => 14
  | .judge _ => 13
  | .failing _ _ tpc => 2 + transitionWork state tpc
  | .acknowledge _ => 2
  | .reply .. => 1
  | .done .. => 0

def threadWork (state : SessionState) : Pc → Nat
  | .dispatch _ dpc => dispatchWork state dpc
  | .terminate _ tpc => transitionWork state tpc
  | _ => 0

def readerWork : ReaderPc → Nat
  | .decode _ => 32
  | .dispatching _ => 16
  | .limit => 15
  | .read _ => 14
  | .readFailed _ => 13
  | .readFailedOpen _ => 12
  | .failing _ => 1
  | .ended => 0

def writerWork : WriterPc → Nat
  | .encode _ => 13
  | .write _ => 12
  | .failing _ => 1
  | .receive => 1
  | .ended => 0

def supervisorWork : SupervisorPc → Nat
  | .wait => 17
  | .kill => 16
  | .exited _ | .killed _ => 15
  | .transition _ => 4
  | .stop => 3
  | .joinReader => 2
  | .joinWriter => 1
  | .ended => 0

/-- A bound on the steps that are left to the actors and their threads. Each frame of the child that is not read yet
and each message that is not written yet makes some. -/
def Host.work (h : Host) : Nat :=
  (h.session.threads.map (threadWork h.session.state)).sum + readerWork h.reader + writerWork h.writer +
    supervisorWork h.supervisor + 19 * h.stdout.length + 13 * h.session.outbound.length

section Work

variable {h h' : Host} {s t : SessionInner} {n : Nat} {b : Bool} {pc pc' : Pc}

theorem transitionWork_le (state : SessionState) (tpc : TransitionPc) : transitionWork state tpc ≤ 10 := by
  cases tpc <;> simp only [transitionWork] <;> first | omega | (split_ifs <;> omega)

theorem transitionWork_ends {state : SessionState} (hends : state = .Closed ∨ state = .Failed)
    (before : SessionState) (tpc : TransitionPc) : transitionWork state tpc ≤ transitionWork before tpc := by
  cases tpc <;> simp only [transitionWork, hends, true_or, if_true, ← or_assoc] <;>
    first | omega | (split_ifs <;> omega)

theorem threadWork_ends {state : SessionState} (hends : state = .Closed ∨ state = .Failed)
    (before : SessionState) (pc : Pc) : threadWork state pc ≤ threadWork before pc := by
  cases pc with
  | dispatch message dpc =>
    cases dpc <;> simp only [threadWork, dispatchWork] <;>
      first | exact Nat.le_refl _ | exact Nat.add_le_add_left (transitionWork_ends hends before _) 2
  | terminate terminal tpc => exact transitionWork_ends hends before tpc
  | call | negotiate => exact Nat.le_refl _

theorem stepTransition_work {terminal : Terminal} {tpc tpc' : TransitionPc}
    (h : stepTransition s terminal tpc = some (t, tpc')) :
    transitionWork t.state tpc' < transitionWork s.state tpc ∧
      (t.state = s.state ∨ t.state = .Closed ∨ t.state = .Failed) ∧ t.outbound = s.outbound := by
  have hends := terminal.state_terminal
  cases tpc <;> simp only [stepTransition] at h
  case lock =>
    split_ifs at h
    cases h
    refine ⟨?_, .inl rfl, rfl⟩
    simp only [transitionWork]
    split_ifs <;> omega
  case load =>
    split_ifs at h with hterminal <;> cases h
    · exact ⟨by simp [transitionWork, hterminal], .inl rfl, rfl⟩
    · exact ⟨by simp [transitionWork, hterminal], .inl rfl, rfl⟩
  case exchange current =>
    split_ifs at h with hcurrent <;> cases h
    · refine ⟨?_, .inr hends, rfl⟩
      simp only [transitionWork]
      split_ifs <;> omega
    · refine ⟨?_, .inl rfl, rfl⟩
      simp only [transitionWork, hcurrent, or_false]
      split_ifs <;> omega
  case record => cases terminal <;> cases h <;> exact ⟨by simp [transitionWork], .inl rfl, rfl⟩
  case stop => cases terminal <;> cases h <;> exact ⟨by simp [transitionWork], .inl rfl, rfl⟩
  case done => cases h
  all_goals
    cases h
    exact ⟨by simp [transitionWork], .inl rfl, rfl⟩

theorem stepThread_work (h : stepThread s n b pc = some (t, pc')) (htasked : pc.tasked = true) :
    threadWork t.state pc' < threadWork s.state pc ∧
      (t.state = s.state ∨ t.state = .Closed ∨ t.state = .Failed) ∧ t.outbound = s.outbound := by
  cases pc with
  | terminate terminal tpc =>
    obtain ⟨⟨u, q⟩, hstep, heq⟩ := Option.map_eq_some_iff.mp h
    cases heq
    exact stepTransition_work hstep
  | dispatch message dpc =>
    obtain ⟨⟨u, q⟩, hstep, heq⟩ := Option.map_eq_some_iff.mp h
    cases heq
    have hlock : ∀ state, transitionWork state .lock ≤ 10 := fun state => transitionWork_le state .lock
    cases dpc <;> simp only [stepDispatch] at hstep
    case failing error entry tpc =>
      split at hstep
      · cases hstep
        exact ⟨by simp [threadWork, dispatchWork, transitionWork], .inl rfl, rfl⟩
      · cases hstep
        exact ⟨by simp [threadWork, dispatchWork], .inl rfl, rfl⟩
      · obtain ⟨⟨v, q'⟩, hinner, heq⟩ := Option.map_eq_some_iff.mp hstep
        cases heq
        obtain ⟨hless, hrest⟩ := stepTransition_work hinner
        exact ⟨Nat.add_lt_add_left hless 2, hrest⟩
    case done => cases hstep
    case check =>
      split_ifs at hstep <;> cases hstep
      · exact ⟨by have := hlock s.state; simp only [threadWork, dispatchWork]; omega, .inl rfl, rfl⟩
      · exact ⟨by simp [threadWork, dispatchWork], .inl rfl, rfl⟩
    case judge entry =>
      split at hstep
      · cases hstep
        exact ⟨by have := hlock s.state; simp only [threadWork, dispatchWork]; omega, .inl rfl, rfl⟩
      · split at hstep
        · cases hstep
          exact ⟨by have := hlock s.state; simp only [threadWork, dispatchWork]; omega, .inl rfl, rfl⟩
        · split at hstep <;> cases hstep <;> exact ⟨by simp [threadWork, dispatchWork], .inl rfl, rfl⟩
    case remove =>
      split at hstep <;> cases hstep <;> exact ⟨by simp [threadWork, dispatchWork], .inl rfl, rfl⟩
    all_goals
      cases hstep
      exact ⟨by simp [threadWork, dispatchWork], .inl rfl, rfl⟩
  | call | negotiate => cases htasked

theorem work_run (hn : h.session.threads[n]? = some pc) (htasked : pc.tasked = true)
    (hstep : stepThread h.session n b pc = some (t, pc')) :
    Host.work { h with session := { t with threads := h.session.threads.set n pc' } } < h.work := by
  obtain ⟨hless, hstate, houtbound⟩ := stepThread_work hstep htasked
  have hrest : ((h.session.threads.set n pc').map (threadWork t.state)).sum + threadWork t.state pc =
      (h.session.threads.map (threadWork t.state)).sum + threadWork t.state pc' := sum_set hn
  rcases hstate with hstate | hends
  · unfold Host.work
    simp only [houtbound, hstate] at hless hrest ⊢
    omega
  · have hothers : ((h.session.threads.set n pc').map (threadWork t.state)).sum + threadWork h.session.state pc ≤
        (h.session.threads.map (threadWork h.session.state)).sum + threadWork t.state pc' := by
      have hle := sum_add_le (threadWork_ends hends h.session.state) hn
      omega
    unfold Host.work
    simp only [houtbound] at hothers ⊢
    omega

theorem work_spawn (h : Host) (pc : Pc) :
    ((h.session.spawn pc).threads.map (threadWork (h.session.spawn pc).state)).sum =
      (h.session.threads.map (threadWork h.session.state)).sum + threadWork h.session.state pc := by
  simp [SessionInner.spawn]

theorem work_reader {stop : Bool} (hs : stepReader h stop = some h') : h'.work < h.work := by
  have hlock := transitionWork_le h.session.state .lock
  unfold stepReader at hs
  cases hr : h.reader with
  | limit =>
    simp only [hr] at hs
    cases hs
    simp only [Host.work, hr, readerWork]
    omega
  | read limit =>
    simp only [hr] at hs
    cases stop with
    | true =>
      simp only [if_true] at hs
      split_ifs at hs
      cases hs
      simp only [Host.work, hr, readerWork]
      omega
    | false =>
      simp only [Bool.false_eq_true, if_false] at hs
      cases hl : h.stdout with
      | nil =>
        simp only [hl] at hs
        obtain ⟨error, -, rfl⟩ := Option.map_eq_some_iff.mp hs
        simp only [Host.work, hr, hl, readerWork]
        omega
      | cons payload rest =>
        simp only [hl] at hs
        split_ifs at hs <;> cases hs <;> simp only [Host.work, hr, hl, readerWork, List.length_cons] <;> omega
  | readFailed error =>
    simp only [hr] at hs
    split_ifs at hs <;> cases hs <;> simp only [Host.work, hr, readerWork] <;> omega
  | readFailedOpen error =>
    simp only [hr] at hs
    split_ifs at hs <;> cases hs
    · simp only [Host.work, hr, readerWork]
      omega
    · simp only [Host.readerFails, Host.start, Host.work, work_spawn, hr, readerWork, threadWork]
      simp only [SessionInner.spawn]
      omega
  | decode payload =>
    simp only [hr] at hs
    have hfails : ∀ error, (h.readerFails error).work < h.work := by
      intro error
      simp only [Host.readerFails, Host.start, Host.work, work_spawn, hr, readerWork, threadWork]
      simp only [SessionInner.spawn]
      omega
    split_ifs at hs
    · cases hs
      exact hfails _
    · split at hs <;> cases hs
      · exact hfails _
      · simp only [Host.start, Host.work, work_spawn, hr, readerWork, threadWork, dispatchWork]
        simp only [SessionInner.spawn]
        omega
  | dispatching n =>
    simp only [hr] at hs
    obtain ⟨go, -, rfl⟩ := Option.map_eq_some_iff.mp hs
    cases go <;> simp [Host.work, hr, readerWork]
  | failing n =>
    simp only [hr] at hs
    obtain ⟨go, -, rfl⟩ := Option.map_eq_some_iff.mp hs
    simp [Host.work, hr, readerWork]
  | ended =>
    simp only [hr] at hs
    cases hs

theorem work_writer {stop : Bool} {nanos : UInt64} (hs : stepWriter h stop nanos = some h') : h'.work < h.work := by
  have hlock := transitionWork_le h.session.state .lock
  have hfails : 12 ≤ writerWork h.writer → ∀ error, (h.writerFails error).work < h.work := by
    intro hwork error
    simp only [Host.writerFails, Host.start, Host.work, work_spawn, threadWork]
    simp only [SessionInner.spawn, writerWork.eq_3]
    omega
  unfold stepWriter at hs
  cases hw : h.writer with
  | receive =>
    simp only [hw] at hs
    cases stop with
    | true =>
      simp only [if_true] at hs
      split_ifs at hs
      cases hs
      simp only [Host.writerEnds, Host.work, hw, writerWork]
      omega
    | false =>
      simp only [Bool.false_eq_true, if_false] at hs
      split at hs
      · rename_i message rest hl
        cases hs
        simp only [Host.work, hw, hl, writerWork, List.length_cons]
        omega
      · cases hs
  | encode message =>
    simp only [hw] at hs
    split at hs
    · cases hs
      exact hfails (by simp [hw, writerWork]) _
    · split_ifs at hs <;> cases hs
      · simp only [Host.work, hw, writerWork]
        omega
      · exact hfails (by simp [hw, writerWork]) _
  | write payload =>
    simp only [hw] at hs
    split_ifs at hs <;> cases hs
    · simp only [Host.work, hw, writerWork]
      omega
    · exact hfails (by simp [hw, writerWork]) _
  | failing n =>
    simp only [hw] at hs
    obtain ⟨go, -, rfl⟩ := Option.map_eq_some_iff.mp hs
    simp [Host.writerEnds, Host.work, hw, writerWork]
  | ended =>
    simp only [hw] at hs
    cases hs

theorem work_supervisor {other : Bool} (hs : stepSupervisor h other = some h') : h'.work < h.work := by
  have hlock := transitionWork_le h.session.state .lock
  have hends : 15 ≤ supervisorWork h.supervisor →
      ∀ terminal, (h.supervisorTransition terminal).work < h.work := by
    intro hwork terminal
    simp only [Host.supervisorTransition, Host.start, Host.work, work_spawn, threadWork]
    simp only [SessionInner.spawn, supervisorWork.eq_5]
    omega
  unfold stepSupervisor at hs
  cases hv : h.supervisor with
  | wait =>
    simp only [hv] at hs
    split_ifs at hs
    · cases hs
      simp only [Host.work, hv, supervisorWork]
      omega
    · obtain ⟨success, -, rfl⟩ := Option.map_eq_some_iff.mp hs
      simp only [Host.work, hv, supervisorWork]
      omega
  | exited success =>
    rcases success with _ | _ | _ <;> simp only [hv] at hs
    · cases hs
      exact hends (by simp [hv, supervisorWork]) _
    · cases hs
      exact hends (by simp [hv, supervisorWork]) _
    · split_ifs at hs <;> cases hs <;> exact hends (by simp [hv, supervisorWork]) _
  | kill =>
    simp only [hv] at hs
    cases hs
    simp only [Host.work, hv, supervisorWork]
    omega
  | killed reaped =>
    cases reaped <;> simp only [hv] at hs
    · cases hs
      exact hends (by simp [hv, supervisorWork]) _
    · split_ifs at hs <;> cases hs
      · simp only [Host.work, hv, supervisorWork]
        omega
      · exact hends (by simp [hv, supervisorWork]) _
  | transition n =>
    simp only [hv] at hs
    obtain ⟨go, -, rfl⟩ := Option.map_eq_some_iff.mp hs
    simp [Host.work, hv, supervisorWork]
  | stop =>
    simp only [hv] at hs
    cases hs
    simp only [Host.work, hv, supervisorWork]
    omega
  | joinReader | joinWriter =>
    simp only [hv] at hs
    split_ifs at hs
    cases hs
    simp only [Host.work, hv, supervisorWork]
    omega
  | ended =>
    simp only [hv] at hs
    cases hs

theorem work_own {l : Label} (hl : own h l = true) (hs : step h l = some h') : h'.work < h.work := by
  cases l with
  | reader stop => exact work_reader hs
  | writer stop nanos => exact work_writer hs
  | supervisor other => exact work_supervisor hs
  | run n b =>
    obtain ⟨s, hstep, rfl⟩ := Option.map_eq_some_iff.mp hs
    obtain ⟨pc, hn, hstep⟩ := Option.bind_eq_some_iff.mp hstep
    obtain ⟨⟨t, pc'⟩, hthread, heq⟩ := Option.bind_eq_some_iff.mp hstep
    cases heq
    rw [own, hn] at hl
    exact work_run hn hl hthread
  | call | negotiate | drop | force | respond | closeOutput | closeInput | exit | waitError => cases hl

theorem dying_own {l : Label} (hd : Dying h) (hl : own h l = true) (hs : step h l = some h') : Dying h' := by
  cases l with
  | reader stop =>
    simp only [step, stepReader] at hs
    repeat' split at hs
    all_goals
      first
      | cases hs <;> exact hd
      | obtain ⟨x, -, rfl⟩ := Option.map_eq_some_iff.mp hs
        exact hd
  | writer stop nanos =>
    simp only [step, stepWriter] at hs
    repeat' split at hs
    all_goals
      first
      | cases hs <;> exact hd
      | obtain ⟨x, -, rfl⟩ := Option.map_eq_some_iff.mp hs
        exact hd
  | supervisor other =>
    -- the supervisor never waits again
    refine .inr (.inr ?_)
    simp only [step, stepSupervisor] at hs
    repeat' split at hs
    all_goals
      first
      | cases hs <;> simp [Host.supervisorTransition]
      | obtain ⟨x, -, rfl⟩ := Option.map_eq_some_iff.mp hs
        simp
  | run n b =>
    obtain ⟨s, hstep, rfl⟩ := Option.map_eq_some_iff.mp hs
    obtain ⟨pc, hn, hstep⟩ := Option.bind_eq_some_iff.mp hstep
    obtain ⟨⟨t, pc'⟩, hthread, heq⟩ := Option.bind_eq_some_iff.mp hstep
    cases heq
    exact hd.imp_left (stepThread_flags hthread).1
  | call | negotiate | drop | force | respond | closeOutput | closeInput | exit | waitError => cases hl

end Work

/-! ## All have ended -/

/-- **A session that is to end comes down.** From any state that is reached, once the owner has forced the end or
the child has exited, the actors and the threads they run can take at most `work` steps, whoever takes them in
whatever order; and where none of them can take a step, all of them have ended, the session is closed or failed, its
queue is closed and every call that waits for a response has one. -/
theorem session_comes_down {config : ProcessHostConfig} {h h' : Host} {labels : List Label}
    (hreach : Reach step anyStep (.new config) h) (hdying : Dying h)
    (hrun : runIf step (fun h l => own h l = true) h labels = some h') :
    labels.length ≤ h.work ∧ (Idle h' → Down h') := by
  have hlength := length_le_of_runIf (fun _ _ _ => work_own) hrun
  have hboth : Manned h' ∧ Dying h' :=
    (reach_of_runIf hrun).invariant (I := fun h => Manned h ∧ Dying h) ⟨manned_reach hreach, hdying⟩
      fun _ _ _ hi hl hs => ⟨manned_step hi.1 hs, dying_own hi.2 hl hs⟩
  exact ⟨by omega, fun hidle => hidle.down hboth.1 hboth.2⟩

/-- A handshake waits for its answer and the reader, whose input has ended in the middle of a frame, is in its
terminal transition, when the owner forces the end. -/
def forcedRun : List Label :=
  .call .handshake :: List.replicate 10 (.run 0 false) ++
    [.writer false 0, .writer false 0, .writer false 0, .closeOutput true] ++ List.replicate 4 (.reader false) ++
    [.run 1 false, .run 1 false, .force]

def forced : Host := (run step (.new .default) forcedRun).getD (.new .default)

theorem forced_reached : Reach step anyStep (.new .default) forced := by
  have hrun : run step (.new .default) forcedRun = some forced := rfl
  exact reach_of_run hrun

/-- The supervisor kills the child, and its own transition comes second. -/
def downRun : List Label :=
  List.replicate 3 (.supervisor true) ++ List.replicate 6 (.run 1 false) ++ List.replicate 2 (.run 2 false) ++
    [.supervisor false, .supervisor false, .reader false, .supervisor false, .writer true 0, .supervisor false]

def down : Host := (runIf step (fun h l => own h l = true) forced downRun).getD forced

theorem down_idle : Idle down := by
  intro l hl
  cases l with
  | reader | writer | supervisor => rfl
  | run n b =>
    match n with
    | 0 => cases hl
    | 1 | 2 => rfl
    | n + 3 => cases hl
  | call | negotiate | drop | force | respond | closeOutput | closeInput | exit | waitError => cases hl

theorem session_comes_down_forced : downRun.length ≤ forced.work ∧ Down down := by
  have hrun : runIf step (fun h l => own h l = true) forced downRun = some down := rfl
  obtain ⟨hlength, hdown⟩ := session_comes_down forced_reached (.inl rfl) hrun
  exact ⟨hlength, hdown down_idle⟩

end Cordis.Actors
