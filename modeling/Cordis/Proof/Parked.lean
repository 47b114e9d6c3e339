import Cordis.Gate.Drain
import Cordis.Host.Departure
import Cordis.Proof.Shutdown
import Cordis.Runtime.Completion

/-!
# No waiter is left parked

The wait loops of the Runtime and of a host session look at the fact that they wait for after they have
created their future. Whoever makes the fact true calls `notify_waiters` afterwards, at whatever distance,
so a caller that has looked too early has a future that this call completes.
-/

namespace Cordis

open Machine

/-- From the moment that a fact holds and whoever made it true has called `notify_waiters`, no caller that
waits for it is parked, and each returns after at most four operations of its own: in `drain_until`, in
the waits for the disposal of a Fiber and of a Scope, in the wait for a shutdown attempt, and in
`wait_for_failure`. -/
theorem no_waiter_left_parked (w : Nat) (config : Protocol.ProcessHostConfig) :
    (Drain.drainUntil w).LeavesNoneParked .default Drain.Drained Drain.Notifying ∧
    Completion.waitForFiberDisposal.LeavesNoneParked .default Completion.Published
      Completion.Finalizing ∧
    Completion.waitForCompletionObservation.LeavesNoneParked .default Completion.Published
      Completion.Finalizing ∧
    Shutdown.waitForShutdownCompletion.LeavesNoneParked .default Shutdown.Published
      Shutdown.Finalizing ∧
    Session.waitForFailure.LeavesNoneParked (.new config) Session.Departure.Departed
      Session.Departure.Departing :=
  ⟨(Drain.drainUntil_kept w).leavesNoneParked (Drain.sound_default w),
    Completion.kept.leavesNoneParked trivial, Completion.kept.leavesNoneParked trivial,
    Shutdown.kept.leavesNoneParked Shutdown.coherent_default,
    Session.Departure.kept.leavesNoneParked (Session.Departure.live_new config)⟩

/-- A caller finds one lease left and awaits its future; the lease is dropped. -/
def lateDrop : List (WaitLoop.Label Drain.Label) :=
  [.shared (.execution (.tryAcquire false)), .shared (.execution (.atomic 0 false)),
    .shared (.execution (.atomic 0 false)), .shared .drainUntil,
    .shared (.execution (.atomic 1 false)), .shared (.execution (.atomic 1 false)), .shared (.loop 1),
    .advance 0, .shared (.execution (.drop 0)), .shared (.execution (.atomic 0 false)), .advance 0,
    .shared (.execution (.atomic 0 false)), .shared (.notify 0)]

theorem no_waiter_left_parked_drop : ∃ s,
    Machine.run (Drain.drainUntil 64).next (WaitLoop.initial .default) lateDrop = some s ∧
      s.waiters = [((), .awaiting 1 true)] ∧
      ∀ labels t, Machine.run (Drain.drainUntil 64).next s labels = some t →
        (Drain.drainUntil 64).Free t 0 ∧ labels.countP (·.advances 0) ≤ 4 := by
  obtain ⟨s, hs⟩ : ∃ s,
      Machine.run (Drain.drainUntil 64).next (WaitLoop.initial .default) lateDrop = some s := ⟨_, rfl⟩
  have hreach := reach_of_run hs
  refine ⟨s, hs, ?_⟩
  cases hs
  exact ⟨rfl, ((no_waiter_left_parked 64 .default).1 _ hreach 0 () _ rfl rfl fun h => h rfl).2⟩

end Cordis
