import Cordis.Library.Time
import Cordis.Runtime.Quota

/-!
# Running an accepted configuration

Where the values of a `RuntimeConfig` go: the permits of the invocation semaphore, and the deadlines
that a disposal, a shutdown and an invocation compute from a reading of the clock. A computation that
panics has no result. `validate` bounds none of these values from above, so an accepted configuration
can be run up to a certain reading of the clock, and only with so many permits.
-/

namespace Cordis

open Time

/-- `Semaphore::MAX_PERMITS`: `usize::MAX >> 3`. -/
def Semaphore.MAX_PERMITS : Nat := (2 ^ 64 - 1) >>> 3

/-- `Semaphore::new`: the permits, or a panic. -/
def Semaphore.new (permits : Nat) : Option Nat :=
  if permits ≤ Semaphore.MAX_PERMITS then some permits else none

namespace Deadlines

/-- The fields of `RuntimeInner` that come from the configuration. -/
structure RuntimeInner where
  config : RuntimeConfig
  maxSymbols : Nat
  maxCacheEntries : Nat
  invocationPermits : Nat

/-- `Runtime::with_config`; the error is `InvalidRuntimeConfig`. -/
def withConfig (config : RuntimeConfig) : Option (Except String RuntimeInner) :=
  match config.validate with
  | .error e => some (.error e)
  | .ok () => (Semaphore.new config.maxConcurrentInvocations).map fun permits =>
    .ok ⟨config, config.maxInternedSymbols, config.maxResolutionCacheEntries, permits⟩

/-! ## Deadlines -/

/-- The deadline of `cancel_all`. -/
def cancelAll (grace : Duration) (now : Instant) : Option Instant := now.checkedAdd grace

/-- One turn of the drain loop: the reading of the clock, whether the generation drained before the
deadline, and whether the disposal was made persistent meanwhile. -/
structure DrainTurn where
  now : Instant
  drained : Bool
  persistent : Bool

/-- Where the drain loop stands after some turns. -/
inductive Drain
  | waiting
  | drained
  | timedOut
  deriving DecidableEq

/-- The drain loop of `run_fiber_disposal_body`; each turn has a deadline of its own. -/
def drain (config : RuntimeConfig) : List DrainTurn → Option Drain
  | [] => some .waiting
  | turn :: rest => do
    let _ ← turn.now.checkedAdd config.taskGrace
    if turn.drained then some .drained
    else if turn.persistent then drain config rest
    else some .timedOut

/-- The two sections of `run_fiber_disposal_body` that compute a deadline. -/
def runFiberDisposalBody (config : RuntimeConfig) (now : Instant) (turns : List DrainTurn) :
    Option Drain := do
  let _ ← cancelAll config.taskGrace now
  drain config turns

/-- The deadline of `run_shutdown_attempt`. -/
def runShutdownAttempt (shutdownGrace : Duration) (now : Instant) : Option Instant :=
  now.checkedAdd shutdownGrace

/-- The deadline of `Context::invoke`. -/
def invoke (config : RuntimeConfig) (now : Instant) : Option Instant :=
  now.checkedAdd config.defaultInvocationTimeout

/-- The deadline of `Context::invoke_with_timeout`. -/
def invokeWithTimeout (timeout : Duration) (now : Instant) : Option Instant := now.checkedAdd timeout

/-! ## Runs -/

/-- What is done on a Runtime, with the readings of the clock that it takes. -/
inductive Operation
  | dispose (now : Instant) (turns : List DrainTurn)
  | shutdown (now : Instant)
  | invoke (now : Instant)
  | invokeWithTimeout (timeout : Duration) (now : Instant)

namespace Operation

/-- The operation computes its deadlines without a panic. -/
def completes (config : RuntimeConfig) : Operation → Bool
  | dispose now turns => (runFiberDisposalBody config now turns).isSome
  | shutdown now => (runShutdownAttempt config.shutdownGrace now).isSome
  | invoke now => (Deadlines.invoke config now).isSome
  | invokeWithTimeout timeout now => (Deadlines.invokeWithTimeout timeout now).isSome

/-- The clock is read at `latest` at the latest, and the caller's timeout is at most `timeout`. -/
def Within (latest : Instant) (timeout : Duration) : Operation → Prop
  | dispose now turns => now ≤ latest ∧ ∀ turn ∈ turns, turn.now ≤ latest
  | shutdown now | invoke now => now ≤ latest
  | invokeWithTimeout d now => d ≤ timeout ∧ now ≤ latest

end Operation

/-- A Runtime is built from the configuration, and then the operations are done on it. -/
def runs (config : RuntimeConfig) (operations : List Operation) : Bool :=
  (withConfig config).isSome && operations.all (·.completes config)

/-- The duration can be added to every reading up to `latest`. -/
def Fits (latest : Instant) (d : Duration) : Prop := latest.total + d ≤ Instant.MAX.total

variable {config : RuntimeConfig} {latest now : Instant} {d : Duration}

theorem withConfig_isSome (h : config.validate = .ok ()) :
    (withConfig config).isSome = true ↔ config.maxConcurrentInvocations ≤ Semaphore.MAX_PERMITS := by
  unfold withConfig
  rw [h]
  simp only [Option.isSome_map]
  by_cases hpermits : config.maxConcurrentInvocations ≤ Semaphore.MAX_PERMITS
  · rw [Semaphore.new, if_pos hpermits]
    exact ⟨fun _ => hpermits, fun _ => rfl⟩
  · rw [Semaphore.new, if_neg hpermits]
    simp [hpermits]

theorem Fits.checkedAdd (h : Fits latest d) (hnow : now ≤ latest) :
    ∃ deadline, now.checkedAdd d = some deadline :=
  Option.isSome_iff_exists.mp (Instant.checkedAdd_isSome_of_le hnow (Instant.checkedAdd_isSome.mpr h))

/-- The loop never panics, however many turns it takes. -/
theorem drain_isSome (h : Fits latest config.taskGrace) {turns : List DrainTurn}
    (hturns : ∀ turn ∈ turns, turn.now ≤ latest) : (drain config turns).isSome = true := by
  induction turns with
  | nil => rfl
  | cons turn rest ih =>
    obtain ⟨deadline, hdeadline⟩ := h.checkedAdd (hturns turn (List.mem_cons_self ..))
    rw [drain, hdeadline]
    simp only [bind, Option.bind_some]
    split
    · rfl
    · split
      · exact ih fun t ht => hturns t (List.mem_cons_of_mem turn ht)
      · rfl

theorem completes_of_fits {timeout : Duration} {o : Operation} (htask : Fits latest config.taskGrace)
    (hshutdown : Fits latest config.shutdownGrace)
    (hdefault : Fits latest config.defaultInvocationTimeout) (htimeout : Fits latest timeout)
    (h : o.Within latest timeout) : o.completes config = true := by
  cases o with
  | dispose now turns =>
    obtain ⟨deadline, hdeadline⟩ := htask.checkedAdd h.1
    simp only [Operation.completes, runFiberDisposalBody, cancelAll, hdeadline, bind, Option.bind_some]
    exact drain_isSome htask h.2
  | shutdown now => exact Option.isSome_iff_exists.mpr (hshutdown.checkedAdd h)
  | invoke now => exact Option.isSome_iff_exists.mpr (hdefault.checkedAdd h)
  | invokeWithTimeout d now =>
    obtain ⟨hd, hnow⟩ := h
    have hfits : Fits latest d := by
      have hcast : (d : Int) ≤ timeout := Int.ofNat_le.mpr hd
      unfold Fits at htimeout ⊢
      omega
    exact Option.isSome_iff_exists.mpr (hfits.checkedAdd hnow)

/-- An accepted configuration can be run, with timeouts up to `timeout` and as long as the clock shows at
most `latest`, exactly when its permits are within the semaphore's and none of its durations nor the
timeout leads from `latest` beyond the last instant. -/
theorem accepted_config_runs_iff (config : RuntimeConfig) (h : config.validate = .ok ())
    (timeout : Duration) (latest : Instant) :
    (∀ operations, (∀ o ∈ operations, o.Within latest timeout) → runs config operations = true) ↔
      config.maxConcurrentInvocations ≤ Semaphore.MAX_PERMITS ∧ Fits latest config.taskGrace ∧
        Fits latest config.shutdownGrace ∧ Fits latest config.defaultInvocationTimeout ∧
          Fits latest timeout := by
  constructor
  · intro hruns
    have hone : ∀ o : Operation, o.Within latest timeout → o.completes config = true := by
      intro o ho
      have hrun := hruns [o] (by simpa using ho)
      simp only [runs, List.all_cons, List.all_nil, Bool.and_true, Bool.and_eq_true] at hrun
      exact hrun.2
    have hbuilt : (withConfig config).isSome = true := by
      have hrun := hruns [] fun o ho => absurd ho List.not_mem_nil
      simpa only [runs, List.all_nil, Bool.and_true] using hrun
    have hle := Instant.le_refl latest
    refine ⟨(withConfig_isSome h).mp hbuilt, ?_, ?_, ?_, ?_⟩
    · have hdispose := hone (.dispose latest []) ⟨hle, fun t ht => absurd ht List.not_mem_nil⟩
      simp only [Operation.completes, runFiberDisposalBody, cancelAll, drain] at hdispose
      apply Instant.checkedAdd_isSome.mp
      cases hadd : latest.checkedAdd config.taskGrace with
      | none => simp [hadd] at hdispose
      | some deadline => rfl
    · exact Instant.checkedAdd_isSome.mp (hone (.shutdown latest) hle)
    · exact Instant.checkedAdd_isSome.mp (hone (.invoke latest) hle)
    · exact Instant.checkedAdd_isSome.mp (hone (.invokeWithTimeout timeout latest) ⟨Nat.le_refl _, hle⟩)
  · rintro ⟨hpermits, htask, hshutdown, hdefault, htimeout⟩ operations hwithin
    unfold runs
    rw [(withConfig_isSome h).mpr hpermits, Bool.true_and, List.all_eq_true]
    intro o ho
    exact completes_of_fits htask hshutdown hdefault htimeout (hwithin o ho)

/-- Two hundred years after the clock started. -/
def laterOn : Instant := ⟨6311520000, 0, by decide, by decide, Instant.zero.nanos_lt⟩

/-- An invocation with a timeout of an hour, a disposal whose drain takes two turns, and a shutdown. -/
def lateRun : List Operation :=
  [.invoke .zero, .invokeWithTimeout (3600 * 10 ^ 9) laterOn,
    .dispose laterOn [⟨laterOn, false, true⟩, ⟨laterOn, true, false⟩], .shutdown laterOn]

/-- With the defaults, which reach that far. -/
theorem accepted_config_runs_iff_default : runs .default lateRun = true := by
  have hfits : Fits laterOn RuntimeConfig.default.taskGrace ∧
      Fits laterOn RuntimeConfig.default.shutdownGrace ∧
        Fits laterOn RuntimeConfig.default.defaultInvocationTimeout ∧ Fits laterOn (3600 * 10 ^ 9) := by
    unfold Fits
    decide
  refine (accepted_config_runs_iff .default (by decide) (3600 * 10 ^ 9) laterOn).mpr
    ⟨by decide, hfits⟩ lateRun ?_
  intro o ho
  simp only [lateRun, List.mem_cons, List.not_mem_nil, or_false] at ho
  obtain rfl | rfl | rfl | rfl := ho <;> simp only [Operation.Within] <;> decide

/-- No limit on the concurrent invocations: `usize::MAX`. -/
def unlimited : RuntimeConfig := { RuntimeConfig.default with maxConcurrentInvocations := 2 ^ 64 - 1 }

/-- No limit on the durations: `Duration::MAX`. -/
def endless : RuntimeConfig := { RuntimeConfig.default with
  taskGrace := Duration.MAX
  shutdownGrace := Duration.MAX
  defaultInvocationTimeout := Duration.MAX }

/-- Both are accepted. The one panics when the Runtime is built, the other in every disposal, shutdown
and invocation, and so does a caller's timeout without a limit. -/
theorem accepted_config_panics :
    (unlimited.validate = .ok () ∧ withConfig unlimited = none) ∧
      endless.validate = .ok () ∧ runFiberDisposalBody endless .zero [] = none ∧
        drain endless [⟨.zero, true, false⟩] = none ∧
          runShutdownAttempt endless.shutdownGrace .zero = none ∧ invoke endless .zero = none ∧
            invokeWithTimeout Duration.MAX .zero = none := by
  refine ⟨⟨by decide, rfl⟩, by decide, by decide, by decide, by decide, by decide, by decide⟩

end Deadlines

end Cordis
