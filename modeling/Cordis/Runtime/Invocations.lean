import Cordis.Core.Error
import Cordis.Library.Machine
import Cordis.Library.Threads
import Mathlib.Algebra.Order.Ring.Int

/-!
# Invocations and their accounts

`Context::invoke` from its first admission to its answer: a permit of the Runtime is taken, the snapshot is
dispatched under a new id, the permit is dropped, and the outcome is counted and, unless it is a success, reported.
The future can be dropped where it waits, for the permit or for the handlers, by its deadline or by the caller; a
permit that the semaphore has handed to it by then goes back. A step is one section of one call; what admission,
registry and handlers answer is up to the labels. The counters are `u64`.
-/

namespace Cordis

open Machine

/-- `HealthIssueKind`. -/
inductive HealthIssueKind
  | InvocationError
  | InvocationTimeout
  | InvocationCancelled
  | InvocationPanic
  | TaskPanic
  | RuntimeWorkerPanic
  | RuntimeWorkerError
  | QuotaRejected
  deriving DecidableEq

/-- `HealthIssue`, without its time. -/
structure HealthIssue where
  kind : HealthIssueKind
  scope : Option ScopeId
  fiber : Option FiberId
  invocation : Option Nat
  deriving DecidableEq

/-- `Diagnostics::push`. -/
def pushIssue (recent : List HealthIssue) (issue : HealthIssue) : List HealthIssue :=
  (if recent.length = 64 then recent.tail else recent) ++ [issue]

/-- What a dispatch ends with, as `invoke_inner` tells results apart. -/
inductive InvocationResult
  | ok
  | cancelled
  /-- `InvocationHandlerPanicked` or `InvocationMiddlewarePanicked`. -/
  | panicked
  | failed
  deriving DecidableEq

/-- Under which kind a result is reported. -/
def InvocationResult.kind : InvocationResult → Option HealthIssueKind
  | ok => none
  | cancelled => some .InvocationCancelled
  | panicked => some .InvocationPanic
  | failed => some .InvocationError

/-- Where a call stands. -/
inductive InvokePc
  /-- The first admission is next. -/
  | entered
  | waiting
  /-- The semaphore has handed it a permit; it has not been polled since. -/
  | granted
  /-- Has a permit; the second admission and the snapshot are next. -/
  | permitted
  /-- Invocation `id` is under way from `scope`. -/
  | dispatching (scope : ScopeId) (id : Nat)
  /-- The dispatch has ended; the permit is dropped next. -/
  | dispatched (scope : ScopeId) (id : Nat) (result : InvocationResult)
  /-- The counter is next. -/
  | released (scope : ScopeId) (id : Nat) (result : InvocationResult)
  /-- The report is next. -/
  | counted (scope : ScopeId) (id : Nat) (result : InvocationResult)
  | answered (scope : ScopeId) (id : Nat) (result : InvocationResult)
  /-- The deadline has passed; the counter is next, of a call that was dispatched as `id` or not at all. -/
  | expired (id : Option Nat)
  /-- The report is next. -/
  | timeoutCounted (id : Option Nat)
  /-- Answered `InvocationTimedOut`; `scope` is what the Context said then. -/
  | timedOut (scope : Option ScopeId) (id : Option Nat)
  | refused
  /-- The caller has dropped the future. -/
  | abandoned (id : Option Nat)
  deriving DecidableEq

namespace InvokePc

/-- The call has a permit. -/
def holds : InvokePc → Bool
  | granted | permitted | dispatching .. | dispatched .. => true
  | _ => false

/-- Where the future can be dropped: the id of the call, if it has been dispatched. -/
def suspended : InvokePc → Option (Option Nat)
  | waiting | granted => some none
  | dispatching _ id => some (some id)
  | _ => none

/-- The id that the call was dispatched under. -/
def invocation : InvokePc → Option Nat
  | dispatching _ id | dispatched _ id _ | released _ id _ | counted _ id _ | answered _ id _ => some id
  | expired id | timeoutCounted id | timedOut _ id | abandoned id => id
  | _ => none

/-- The call has been counted as one that ended with `result`. -/
def countedAs (result : InvocationResult) : InvokePc → Bool
  | counted _ _ r | answered _ _ r => r = result
  | _ => false

/-- The call has been counted as timed out. -/
def countedLate : InvokePc → Bool
  | timeoutCounted _ | timedOut .. => true
  | _ => false

end InvokePc

structure InvokeCall where
  fiber : FiberId
  pc : InvokePc
  deriving DecidableEq

/-- What the call has reported. -/
def InvokeCall.reports (c : InvokeCall) : List HealthIssue :=
  match c.pc with
  | .answered scope id result =>
    match result.kind with
    | some kind => [⟨kind, some scope, some c.fiber, some id⟩]
    | none => []
  | .timedOut scope _ => [⟨.InvocationTimeout, scope, some c.fiber, none⟩]
  | _ => []

structure Invocations where
  permits : Nat
  calls : List InvokeCall
  nextInvocation : Nat
  successes : Nat
  errors : Nat
  timeouts : Nat
  cancellations : Nat
  panics : Nat
  recent : List HealthIssue
  /-- The calls that were dispatched, in order. -/
  order : List Nat
  /-- All that was ever pushed, with the call that pushed it. -/
  pushed : List (Option Nat × HealthIssue)

/-- `u64` `fetch_add(1)`. -/
def fetchAdd (x : Nat) : Nat := (x + 1) % 2 ^ 64

inductive InvokeLabel
  | invoke (f : FiberId)
  /-- The first section admits the call, or refuses it. -/
  | enter (n : Nat) (admitted : Bool)
  | grant (n : Nat)
  | acquire (n : Nat)
  /-- The cancellation of the Fiber is seen before a permit is. -/
  | cancelWaiting (n : Nat)
  /-- The sections before the dispatch: the Scope, or an error. -/
  | dispatch (n : Nat) (scope : Option ScopeId)
  | finish (n : Nat) (result : InvocationResult)
  | release (n : Nat)
  | count (n : Nat)
  | report (n : Nat)
  | expire (n : Nat)
  | countTimeout (n : Nat)
  | reportTimeout (n : Nat) (scope : Option ScopeId)
  | abandon (n : Nat)
  | push (issue : HealthIssue)

namespace Invocations

variable (s : Invocations)

/-- `with_config` with `max_concurrent_invocations`. -/
def new (max : Nat) : Invocations where
  permits := max
  calls := []
  nextInvocation := 1
  successes := 0
  errors := 0
  timeouts := 0
  cancellations := 0
  panics := 0
  recent := []
  order := []
  pushed := []

/-- `active_invocations` of the `HealthReport`. -/
def activeInvocations (max : Nat) : Nat := max - s.permits

def setPc (n : Nat) (c : InvokeCall) (pc : InvokePc) : Invocations :=
  { s with calls := s.calls.set n { c with pc := pc } }

/-- The future of `invoke_inner` is dropped, and its permit with it. -/
def dropping (n : Nat) (c : InvokeCall) (pc : InvokePc) : Invocations :=
  { s.setPc n c pc with permits := s.permits + c.pc.holds.toNat }

/-- The counter of the calls that ended with a result. -/
def counter : InvocationResult → Nat
  | .ok => s.successes
  | .cancelled => s.cancellations
  | .panicked => s.panics
  | .failed => s.errors

/-- The counter of `result` is incremented. -/
def counting : InvocationResult → Invocations
  | .ok => { s with successes := fetchAdd s.successes }
  | .cancelled => { s with cancellations := fetchAdd s.cancellations }
  | .panicked => { s with panics := fetchAdd s.panics }
  | .failed => { s with errors := fetchAdd s.errors }

def pushing (source : Option Nat) (issue : HealthIssue) : Invocations :=
  { s with recent := pushIssue s.recent issue, pushed := s.pushed ++ [(source, issue)] }

/-- A section of call `n`. -/
def stepCall (n : Nat) (c : InvokeCall) : InvokeLabel → Option Invocations
  | .enter _ admitted =>
    match c.pc with
    | .entered => some (s.setPc n c (if admitted then .waiting else .refused))
    | _ => none
  | .grant _ =>
    match c.pc with
    | .waiting => if s.permits = 0 then none else some { s.setPc n c .granted with permits := s.permits - 1 }
    | _ => none
  | .acquire _ =>
    match c.pc with
    | .granted => some (s.setPc n c .permitted)
    | _ => none
  | .cancelWaiting _ =>
    match c.pc with
    | .waiting => some (s.setPc n c .refused)
    | .granted => some { s.setPc n c .refused with permits := s.permits + 1 }
    | _ => none
  | .dispatch _ scope =>
    match c.pc, scope with
    | .permitted, some scope =>
      some { s.setPc n c (.dispatching scope s.nextInvocation) with
        nextInvocation := fetchAdd s.nextInvocation
        order := s.order ++ [n] }
    | .permitted, none => some { s.setPc n c .refused with permits := s.permits + 1 }
    | _, _ => none
  | .finish _ result =>
    match c.pc with
    | .dispatching scope id => some (s.setPc n c (.dispatched scope id result))
    | _ => none
  | .release _ =>
    match c.pc with
    | .dispatched scope id result =>
      some { s.setPc n c (.released scope id result) with permits := s.permits + 1 }
    | _ => none
  | .count _ =>
    match c.pc with
    | .released scope id result => some ((s.counting result).setPc n c (.counted scope id result))
    | _ => none
  | .report _ =>
    match c.pc with
    | .counted scope id result =>
      match result.kind with
      | some kind =>
        some ((s.pushing (some n) ⟨kind, some scope, some c.fiber, some id⟩).setPc n c (.answered scope id result))
      | none => some (s.setPc n c (.answered scope id result))
    | _ => none
  | .expire _ => c.pc.suspended.map fun id => s.dropping n c (.expired id)
  | .countTimeout _ =>
    match c.pc with
    | .expired id => some { s.setPc n c (.timeoutCounted id) with timeouts := fetchAdd s.timeouts }
    | _ => none
  | .reportTimeout _ scope =>
    match c.pc with
    | .timeoutCounted id =>
      some ((s.pushing (some n) ⟨.InvocationTimeout, scope, some c.fiber, none⟩).setPc n c (.timedOut scope id))
    | _ => none
  | .abandon _ => c.pc.suspended.map fun id => s.dropping n c (.abandoned id)
  | _ => none

def step : InvokeLabel → Option Invocations
  | .invoke f => some { s with calls := s.calls ++ [⟨f, .entered⟩] }
  | .push issue => some (s.pushing none issue)
  | l@(.enter n _) | l@(.grant n) | l@(.acquire n) | l@(.cancelWaiting n) | l@(.dispatch n _) | l@(.finish n _)
  | l@(.release n) | l@(.count n) | l@(.report n) | l@(.expire n) | l@(.countTimeout n) | l@(.reportTimeout n _)
  | l@(.abandon n) =>
    (s.calls[n]?).bind fun c => s.stepCall n c l

/-! ## What a step can do -/

variable {s} {t : Invocations} {l : InvokeLabel} {max : Nat}

inductive Moved (s : Invocations) : Invocations → Prop
  | invoked (f : FiberId) : Moved s { s with calls := s.calls ++ [⟨f, .entered⟩] }
  | pushed (issue : HealthIssue) : Moved s (s.pushing none issue)
  | admitted (n : Nat) (c : InvokeCall) (pc : InvokePc) (was : s.calls[n]? = some c) (before : c.pc = .entered)
      (after : pc = .waiting ∨ pc = .refused) : Moved s (s.setPc n c pc)
  | granted (n : Nat) (c : InvokeCall) (was : s.calls[n]? = some c) (before : c.pc = .waiting)
      (free : s.permits ≠ 0) : Moved s { s.setPc n c .granted with permits := s.permits - 1 }
  | acquired (n : Nat) (c : InvokeCall) (was : s.calls[n]? = some c) (before : c.pc = .granted) :
      Moved s (s.setPc n c .permitted)
  | refused (n : Nat) (c : InvokeCall) (was : s.calls[n]? = some c)
      (before : c.pc = .waiting ∨ c.pc = .granted ∨ c.pc = .permitted) : Moved s (s.dropping n c .refused)
  | dispatched (n : Nat) (c : InvokeCall) (scope : ScopeId) (was : s.calls[n]? = some c)
      (before : c.pc = .permitted) :
      Moved s { s.setPc n c (.dispatching scope s.nextInvocation) with
        nextInvocation := fetchAdd s.nextInvocation
        order := s.order ++ [n] }
  | finished (n : Nat) (c : InvokeCall) (scope : ScopeId) (id : Nat) (result : InvocationResult)
      (was : s.calls[n]? = some c) (before : c.pc = .dispatching scope id) :
      Moved s (s.setPc n c (.dispatched scope id result))
  | released (n : Nat) (c : InvokeCall) (scope : ScopeId) (id : Nat) (result : InvocationResult)
      (was : s.calls[n]? = some c) (before : c.pc = .dispatched scope id result) :
      Moved s { s.setPc n c (.released scope id result) with permits := s.permits + 1 }
  | counted (n : Nat) (c : InvokeCall) (scope : ScopeId) (id : Nat) (result : InvocationResult)
      (was : s.calls[n]? = some c) (before : c.pc = .released scope id result) :
      Moved s ((s.counting result).setPc n c (.counted scope id result))
  | reported (n : Nat) (c : InvokeCall) (scope : ScopeId) (id : Nat) (result : InvocationResult)
      (kind : HealthIssueKind) (was : s.calls[n]? = some c) (before : c.pc = .counted scope id result)
      (told : result.kind = some kind) :
      Moved s ((s.pushing (some n) ⟨kind, some scope, some c.fiber, some id⟩).setPc n c (.answered scope id result))
  | answered (n : Nat) (c : InvokeCall) (scope : ScopeId) (id : Nat) (result : InvocationResult)
      (was : s.calls[n]? = some c) (before : c.pc = .counted scope id result) (silent : result.kind = none) :
      Moved s (s.setPc n c (.answered scope id result))
  | dropped (n : Nat) (c : InvokeCall) (id : Option Nat) (pc : InvokePc) (was : s.calls[n]? = some c)
      (before : c.pc.suspended = some id) (after : pc = .expired id ∨ pc = .abandoned id) :
      Moved s (s.dropping n c pc)
  | timeoutCounted (n : Nat) (c : InvokeCall) (id : Option Nat) (was : s.calls[n]? = some c)
      (before : c.pc = .expired id) :
      Moved s { s.setPc n c (.timeoutCounted id) with timeouts := fetchAdd s.timeouts }
  | timedOut (n : Nat) (c : InvokeCall) (scope : Option ScopeId) (id : Option Nat) (was : s.calls[n]? = some c)
      (before : c.pc = .timeoutCounted id) :
      Moved s ((s.pushing (some n) ⟨.InvocationTimeout, scope, some c.fiber, none⟩).setPc n c (.timedOut scope id))

theorem moved_of_step (h : s.step l = some t) : Moved s t := by
  cases l <;> simp only [step] at h
  case invoke f =>
    cases h
    exact .invoked f
  case push issue =>
    cases h
    exact .pushed issue
  all_goals
    obtain ⟨c, hc, hcall⟩ := Option.bind_eq_some_iff.mp h
    clear h
    simp only [stepCall] at hcall
  case enter n admitted =>
    split at hcall <;> cases hcall
    rename_i hpc
    refine .admitted _ c _ hc hpc ?_
    cases admitted
    · exact .inr rfl
    · exact .inl rfl
  case grant n =>
    split at hcall <;> try cases hcall
    rename_i hpc
    split_ifs at hcall with hfree
    cases hcall
    exact .granted _ c hc hpc hfree
  case acquire n =>
    split at hcall <;> cases hcall
    rename_i hpc
    exact .acquired _ c hc hpc
  case cancelWaiting n =>
    split at hcall <;> cases hcall
    · rename_i hpc
      have := Moved.refused _ c hc (.inl hpc)
      rwa [dropping, hpc] at this
    · rename_i hpc
      have := Moved.refused _ c hc (.inr (.inl hpc))
      rwa [dropping, hpc] at this
  case dispatch n scope =>
    split at hcall <;> cases hcall
    · rename_i hpc
      exact .dispatched _ c _ hc hpc
    · rename_i hpc
      have := Moved.refused _ c hc (.inr (.inr hpc))
      rwa [dropping, hpc] at this
  case finish n result =>
    split at hcall <;> cases hcall
    rename_i hpc
    exact .finished _ c _ _ result hc hpc
  case release n =>
    split at hcall <;> cases hcall
    rename_i hpc
    exact .released _ c _ _ _ hc hpc
  case count n =>
    split at hcall <;> cases hcall
    rename_i hpc
    exact .counted _ c _ _ _ hc hpc
  case report n =>
    split at hcall <;> try cases hcall
    rename_i hpc
    split at hcall <;> cases hcall
    · rename_i hkind
      exact .reported _ c _ _ _ _ hc hpc hkind
    · rename_i hkind
      exact .answered _ c _ _ _ hc hpc hkind
  case expire n =>
    obtain ⟨id, hid, rfl⟩ := Option.map_eq_some_iff.mp hcall
    exact .dropped _ c id _ hc hid (.inl rfl)
  case abandon n =>
    obtain ⟨id, hid, rfl⟩ := Option.map_eq_some_iff.mp hcall
    exact .dropped _ c id _ hc hid (.inr rfl)
  case countTimeout n =>
    split at hcall <;> cases hcall
    rename_i hpc
    exact .timeoutCounted _ c _ hc hpc
  case reportTimeout n scope =>
    split at hcall <;> cases hcall
    rename_i hpc
    exact .timedOut _ c scope _ hc hpc

/-! ## Permits -/

/-- How many of the calls meet a test of where they stand. -/
def tally (s : Invocations) (r : InvokePc → Bool) : Nat := s.calls.countP (r ·.pc)

variable {n : Nat} {c : InvokeCall} {pc : InvokePc}

theorem tally_setPc (r : InvokePc → Bool) (pc : InvokePc) (was : s.calls[n]? = some c) :
    (s.setPc n c pc).tally r + (r c.pc).toNat = s.tally r + (r pc).toNat :=
  Threads.countP_set was

theorem tally_keep {r : InvokePc → Bool} (was : s.calls[n]? = some c) (hr : r pc = r c.pc) :
    (s.setPc n c pc).tally r = s.tally r := by
  have h := tally_setPc r pc was
  rw [hr] at h
  exact Nat.add_right_cancel h

theorem tally_join {r : InvokePc → Bool} (was : s.calls[n]? = some c) (hout : r c.pc = false) (hin : r pc = true) :
    (s.setPc n c pc).tally r = s.tally r + 1 := by
  have h := tally_setPc r pc was
  rwa [hout, hin] at h

theorem tally_leave {r : InvokePc → Bool} (was : s.calls[n]? = some c) (hin : r c.pc = true) (hout : r pc = false) :
    (s.setPc n c pc).tally r + 1 = s.tally r := by
  have h := tally_setPc r pc was
  rwa [hin, hout] at h

theorem tally_invoked {r : InvokePc → Bool} (f : FiberId) (h : r .entered = false) :
    { s with calls := s.calls ++ [⟨f, .entered⟩] : Invocations }.tally r = s.tally r := by
  simp [tally, List.countP_append, h]

/-- Every permit is available or held by one call. -/
def Accounted (max : Nat) (s : Invocations) : Prop := s.permits + s.tally InvokePc.holds = max

theorem Accounted.dropping (hs : s.Accounted max) (was : s.calls[n]? = some c) (hpc : pc.holds = false) :
    (s.dropping n c pc).Accounted max := by
  have h := tally_setPc InvokePc.holds pc was
  rw [hpc] at h
  show s.permits + c.pc.holds.toNat + (s.setPc n c pc).tally InvokePc.holds = max
  have hs : s.permits + s.tally InvokePc.holds = max := hs
  simp only [Bool.toNat_false] at h
  omega

theorem Accounted.kept (hs : s.Accounted max) (was : s.calls[n]? = some c) (hpc : pc.holds = c.pc.holds) :
    s.permits + (s.setPc n c pc).tally InvokePc.holds = max := by
  rw [tally_keep was hpc]
  exact hs

theorem accounted_moved (hs : s.Accounted max) (h : Moved s t) : t.Accounted max := by
  have heq : s.permits + s.tally InvokePc.holds = max := hs
  cases h with
  | invoked f => exact (congrArg (s.permits + ·) (tally_invoked f rfl)).trans hs
  | pushed issue => exact hs
  | admitted n c pc was before after =>
    refine hs.kept was ?_
    rw [before]
    rcases after with rfl | rfl <;> rfl
  | granted n c was before free =>
    have hjoin : (s.setPc n c .granted).tally InvokePc.holds = s.tally InvokePc.holds + 1 :=
      tally_join was (by rw [before]; rfl) rfl
    show s.permits - 1 + (s.setPc n c .granted).tally InvokePc.holds = max
    omega
  | acquired n c was before => exact hs.kept was (by rw [before]; rfl)
  | refused n c was before => exact hs.dropping was rfl
  | dispatched n c scope was before => exact hs.kept was (by rw [before]; rfl)
  | finished n c scope id result was before => exact hs.kept was (by rw [before]; rfl)
  | released n c scope id result was before =>
    have hleave : (s.setPc n c (.released scope id result)).tally InvokePc.holds + 1 = s.tally InvokePc.holds :=
      tally_leave was (by rw [before]; rfl) rfl
    show s.permits + 1 + (s.setPc n c (.released scope id result)).tally InvokePc.holds = max
    omega
  | counted n c scope id result was before =>
    have hkept : s.permits + (s.setPc n c (.counted scope id result)).tally InvokePc.holds = max :=
      hs.kept was (by rw [before]; rfl)
    cases result <;> exact hkept
  | reported n c scope id result kind was before told => exact hs.kept was (by rw [before]; rfl)
  | answered n c scope id result was before silent => exact hs.kept was (by rw [before]; rfl)
  | dropped n c id pc was before after =>
    refine hs.dropping was ?_
    rcases after with rfl | rfl <;> rfl
  | timeoutCounted n c id was before => exact hs.kept was (by rw [before]; rfl)
  | timedOut n c scope id was before => exact hs.kept was (by rw [before]; rfl)

theorem accounted_new (max : Nat) : (new max).Accounted max := rfl

theorem accounted_reach (h : Reach step anyStep (new max) s) : s.Accounted max :=
  h.invariant (accounted_new max) fun _ _ _ hs _ hstep => accounted_moved hs (moved_of_step hstep)

/-- However calls end, by an answer, by their deadline or because the caller lets go, the permits and the calls that
hold one add up to the capacity: `health` counts exactly these calls and never below zero. -/
theorem active_invocations_exact (h : Reach step anyStep (new max) s) :
    s.permits ≤ max ∧ s.activeInvocations max = s.tally InvokePc.holds ∧
      ((∀ c ∈ s.calls, c.pc.holds = false) → s.permits = max) := by
  have hs : s.permits + s.tally InvokePc.holds = max := accounted_reach h
  refine ⟨by omega, by rw [activeInvocations]; omega, fun hnone => ?_⟩
  have hzero : s.tally InvokePc.holds = 0 :=
    List.countP_eq_zero.mpr fun c hc => by rw [hnone c hc]; nofun
  omega

/-! ## Ids -/

/-- Ids are handed out in the order of the dispatches, starting from one. -/
structure Numbered (s : Invocations) : Prop where
  next : s.nextInvocation = (1 + s.order.length) % 2 ^ 64
  once : s.order.Nodup
  place : ∀ n c id, s.calls[n]? = some c → c.pc.invocation = some id →
    ∃ j, s.order[j]? = some n ∧ id = (1 + j) % 2 ^ 64
  dispatched : ∀ n ∈ s.order, ∃ c, s.calls[n]? = some c ∧ c.pc.invocation ≠ none

theorem numbered_new (max : Nat) : (new max).Numbered where
  next := rfl
  once := .nil
  place := nofun
  dispatched := nofun

theorem Numbered.kept (hs : s.Numbered) (was : s.calls[n]? = some c) (hpc : pc.invocation = c.pc.invocation)
    (hnext : t.nextInvocation = s.nextInvocation) (horder : t.order = s.order)
    (hcalls : t.calls = s.calls.set n { c with pc := pc }) : t.Numbered := by
  refine ⟨by rw [hnext, horder]; exact hs.next, horder ▸ hs.once, fun m d id hd hid => ?_, fun m hm => ?_⟩
  · rw [hcalls] at hd
    rw [horder]
    rcases (Threads.get_set was).mp hd with ⟨rfl, rfl⟩ | ⟨-, hold⟩
    · exact hs.place m c id was (hpc.symm.trans hid)
    · exact hs.place m d id hold hid
  · rw [horder] at hm
    rw [hcalls]
    obtain ⟨d, hd, hid⟩ := hs.dispatched m hm
    by_cases hmn : m = n
    · subst hmn
      obtain rfl := Option.some.inj (was.symm.trans hd)
      exact ⟨_, (Threads.get_set was).mpr (.inl ⟨rfl, rfl⟩), hpc ▸ hid⟩
    · exact ⟨d, (Threads.get_set was).mpr (.inr ⟨hmn, hd⟩), hid⟩

theorem Numbered.dispatch (hs : s.Numbered) (scope : ScopeId) (was : s.calls[n]? = some c)
    (before : c.pc = .permitted) :
    { s.setPc n c (.dispatching scope s.nextInvocation) with
      nextInvocation := fetchAdd s.nextInvocation
      order := s.order ++ [n] : Invocations }.Numbered := by
  have hnew : n ∉ s.order := fun hn => by
    obtain ⟨d, hd, hid⟩ := hs.dispatched n hn
    obtain rfl := Option.some.inj (was.symm.trans hd)
    rw [before] at hid
    exact hid rfl
  refine ⟨?_, ?_, fun m d id hd hid => ?_, fun m hm => ?_⟩
  · show fetchAdd s.nextInvocation = (1 + (s.order ++ [n]).length) % 2 ^ 64
    rw [fetchAdd, hs.next, List.length_append, List.length_singleton, Nat.mod_add_mod, Nat.add_assoc]
  · exact List.nodup_append.mpr ⟨hs.once, List.nodup_singleton n, by
      rintro a ha _ hb rfl
      exact hnew (List.mem_singleton.mp hb ▸ ha)⟩
  · rcases (Threads.get_set was).mp hd with ⟨rfl, rfl⟩ | ⟨-, hold⟩
    · refine ⟨s.order.length, List.getElem?_concat_length .., ?_⟩
      rw [← hs.next]
      exact (Option.some.inj hid).symm
    · obtain ⟨j, hj, hid⟩ := hs.place m d id hold hid
      refine ⟨j, ?_, hid⟩
      show (s.order ++ [n])[j]? = some m
      rw [List.getElem?_append_left (List.getElem?_eq_some_iff.mp hj).1]
      exact hj
  · rcases List.mem_append.mp hm with hm | hm
    · obtain ⟨d, hd, hid⟩ := hs.dispatched m hm
      have hmn : m ≠ n := fun heq => hnew (heq ▸ hm)
      exact ⟨d, (Threads.get_set was).mpr (.inr ⟨hmn, hd⟩), hid⟩
    · obtain rfl := List.mem_singleton.mp hm
      exact ⟨_, (Threads.get_set was).mpr (.inl ⟨rfl, rfl⟩), nofun⟩

theorem numbered_moved (hs : s.Numbered) (h : Moved s t) : t.Numbered := by
  cases h with
  | invoked f =>
    have hplace : ∀ (m : Nat) (d : InvokeCall), (s.calls ++ [⟨f, .entered⟩])[m]? = some d → d.pc.invocation ≠ none →
        s.calls[m]? = some d := by
      intro m d hd hid
      by_cases hm : m < s.calls.length
      · rwa [List.getElem?_append_left hm] at hd
      · rw [List.getElem?_append_right (Nat.le_of_not_lt hm), List.getElem?_singleton] at hd
        split_ifs at hd
        cases hd
        exact absurd rfl hid
    refine ⟨hs.next, hs.once, fun m d id hd hid => ?_, fun m hm => ?_⟩
    · exact hs.place m d id (hplace m d hd (by rw [hid]; nofun)) hid
    · obtain ⟨d, hd, hid⟩ := hs.dispatched m hm
      exact ⟨d, List.getElem?_append_left (List.getElem?_eq_some_iff.mp hd).1 ▸ hd, hid⟩
  | pushed issue => exact ⟨hs.next, hs.once, hs.place, hs.dispatched⟩
  | admitted n c pc was before after =>
    refine hs.kept was ?_ rfl rfl rfl
    rw [before]
    rcases after with rfl | rfl <;> rfl
  | granted n c was before free => exact hs.kept was (by rw [before]; rfl) rfl rfl rfl
  | acquired n c was before => exact hs.kept was (by rw [before]; rfl) rfl rfl rfl
  | refused n c was before => exact hs.kept was (by rcases before with h | h | h <;> rw [h] <;> rfl) rfl rfl rfl
  | dispatched n c scope was before => exact hs.dispatch scope was before
  | finished n c scope id result was before => exact hs.kept was (by rw [before]; rfl) rfl rfl rfl
  | released n c scope id result was before => exact hs.kept was (by rw [before]; rfl) rfl rfl rfl
  | counted n c scope id result was before =>
    have hpc : (InvokePc.counted scope id result).invocation = c.pc.invocation := by rw [before]; rfl
    cases result <;> exact hs.kept was hpc rfl rfl rfl
  | reported n c scope id result kind was before told => exact hs.kept was (by rw [before]; rfl) rfl rfl rfl
  | answered n c scope id result was before silent => exact hs.kept was (by rw [before]; rfl) rfl rfl rfl
  | dropped n c id pc was before after =>
    refine hs.kept was ?_ rfl rfl rfl
    have hid : c.pc.invocation = id := by
      cases hpc : c.pc <;> rw [hpc] at before <;> cases before <;> rfl
    rcases after with rfl | rfl <;> exact hid.symm
  | timeoutCounted n c id was before => exact hs.kept was (by rw [before]; rfl) rfl rfl rfl
  | timedOut n c scope id was before => exact hs.kept was (by rw [before]; rfl) rfl rfl rfl

theorem numbered_reach (h : Reach step anyStep (new max) s) : s.Numbered :=
  h.invariant (numbered_new max) fun _ _ _ hs _ hstep => numbered_moved hs (moved_of_step hstep)

/-- `InvocationId`s are unique as long as `next_invocation` has not come round. -/
theorem invocation_ids_unique (h : Reach step anyStep (new max) s) (hfits : s.order.length ≤ 2 ^ 64) (n m : Nat)
    (c d : InvokeCall) (id : Nat) (hn : s.calls[n]? = some c) (hm : s.calls[m]? = some d)
    (hc : c.pc.invocation = some id) (hd : d.pc.invocation = some id) : n = m := by
  have hs := numbered_reach h
  obtain ⟨j, hj, rfl⟩ := hs.place n c id hn hc
  obtain ⟨k, hk, heq⟩ := hs.place m d _ hm hd
  have hjlt := (List.getElem?_eq_some_iff.mp hj).1
  have hklt := (List.getElem?_eq_some_iff.mp hk).1
  have hjk : j = k := by omega
  rw [hjk, hk] at hj
  exact (Option.some.inj hj).symm

/-! ## Counters and reports -/

/-- The counters are the counts, `u64`. -/
structure Counting (s : Invocations) : Prop where
  results : ∀ r, s.counter r = s.tally (InvokePc.countedAs r) % 2 ^ 64
  timeouts : s.timeouts = s.tally InvokePc.countedLate % 2 ^ 64

theorem counting_new (max : Nat) : (new max).Counting := ⟨fun r => by cases r <;> rfl, rfl⟩

theorem Counting.kept (hs : s.Counting) (was : s.calls[n]? = some c)
    (hpc : ∀ r, pc.countedAs r = c.pc.countedAs r) (hlate : pc.countedLate = c.pc.countedLate)
    (hcounter : ∀ r, t.counter r = s.counter r) (htimeouts : t.timeouts = s.timeouts)
    (hcalls : t.calls = s.calls.set n { c with pc := pc }) : t.Counting := by
  have htally : ∀ r, t.tally r = (s.setPc n c pc).tally r := fun r => by rw [tally, hcalls]; rfl
  refine ⟨fun r => ?_, ?_⟩
  · rw [htally, tally_keep was (hpc r), hcounter]
    exact hs.results r
  · rw [htally, tally_keep was hlate, htimeouts]
    exact hs.timeouts

theorem counter_counting (r result : InvocationResult) :
    (s.counting result).counter r = if r = result then fetchAdd (s.counter r) else s.counter r := by
  cases r <;> cases result <;> rfl

theorem fetchAdd_tally {x k : Nat} (h : x = k % 2 ^ 64) : fetchAdd x = (k + 1) % 2 ^ 64 := by
  rw [fetchAdd, h, Nat.mod_add_mod]

theorem Counting.count (hs : s.Counting) {scope : ScopeId} {id : Nat} {result : InvocationResult}
    (was : s.calls[n]? = some c) (before : c.pc = .released scope id result) :
    ((s.counting result).setPc n c (.counted scope id result)).Counting := by
  have htally : ∀ r, ((s.counting result).setPc n c (.counted scope id result)).tally r =
      (s.setPc n c (.counted scope id result)).tally r := by
    intro r
    cases result <;> rfl
  refine ⟨fun r => ?_, ?_⟩
  · have hcounter : ((s.counting result).setPc n c (.counted scope id result)).counter r =
        (s.counting result).counter r := by
      cases r <;> rfl
    rw [htally, hcounter, counter_counting]
    split_ifs with hr
    · subst hr
      rw [tally_join was (by rw [before]; rfl) (decide_eq_true rfl)]
      exact fetchAdd_tally (hs.results r)
    · have hother : (InvokePc.counted scope id result).countedAs r = c.pc.countedAs r := by
        rw [before]
        exact decide_eq_false fun heq => hr heq.symm
      rw [tally_keep was hother]
      exact hs.results r
  · rw [htally, tally_keep was (by rw [before]; rfl)]
    have htimeouts : ((s.counting result).setPc n c (.counted scope id result)).timeouts = s.timeouts := by
      cases result <;> rfl
    exact htimeouts.trans hs.timeouts

theorem counting_moved (hs : s.Counting) (h : Moved s t) : t.Counting := by
  cases h with
  | invoked f =>
    exact ⟨fun r => (hs.results r).trans (by rw [tally_invoked f rfl]),
      hs.timeouts.trans (by rw [tally_invoked f rfl])⟩
  | pushed issue => exact ⟨hs.results, hs.timeouts⟩
  | admitted n c pc was before after =>
    rcases after with rfl | rfl <;>
      exact hs.kept was (fun r => by rw [before]; rfl) (by rw [before]; rfl) (fun r => by cases r <;> rfl) rfl rfl
  | granted n c was before free =>
    exact hs.kept was (fun r => by rw [before]; rfl) (by rw [before]; rfl) (fun r => by cases r <;> rfl) rfl rfl
  | acquired n c was before =>
    exact hs.kept was (fun r => by rw [before]; rfl) (by rw [before]; rfl) (fun r => by cases r <;> rfl) rfl rfl
  | refused n c was before =>
    refine hs.kept was (fun r => ?_) ?_ (fun r => by cases r <;> rfl) rfl rfl <;>
      rcases before with h | h | h <;> rw [h] <;> rfl
  | dispatched n c scope was before =>
    exact hs.kept was (fun r => by rw [before]; rfl) (by rw [before]; rfl) (fun r => by cases r <;> rfl) rfl rfl
  | finished n c scope id result was before =>
    exact hs.kept was (fun r => by rw [before]; rfl) (by rw [before]; rfl) (fun r => by cases r <;> rfl) rfl rfl
  | released n c scope id result was before =>
    exact hs.kept was (fun r => by rw [before]; rfl) (by rw [before]; rfl) (fun r => by cases r <;> rfl) rfl rfl
  | counted n c scope id result was before => exact hs.count was before
  | reported n c scope id result kind was before told =>
    exact hs.kept was (fun r => by rw [before]; rfl) (by rw [before]; rfl) (fun r => by cases r <;> rfl) rfl rfl
  | answered n c scope id result was before silent =>
    exact hs.kept was (fun r => by rw [before]; rfl) (by rw [before]; rfl) (fun r => by cases r <;> rfl) rfl rfl
  | dropped n c id pc was before after =>
    have hcounted : ∀ r, c.pc.countedAs r = false := by
      intro r
      cases hpc : c.pc <;> rw [hpc] at before <;> cases before <;> rfl
    have hlate : c.pc.countedLate = false := by
      cases hpc : c.pc <;> rw [hpc] at before <;> cases before <;> rfl
    have hpc : (∀ r, pc.countedAs r = false) ∧ pc.countedLate = false := by
      rcases after with rfl | rfl <;> exact ⟨fun _ => rfl, rfl⟩
    exact hs.kept was (fun r => (hpc.1 r).trans (hcounted r).symm) (hpc.2.trans hlate.symm)
      (fun r => by cases r <;> rfl) rfl rfl
  | timeoutCounted n c id was before =>
    refine ⟨fun r => ?_, ?_⟩
    · have hkept : (s.setPc n c (.timeoutCounted id)).tally (InvokePc.countedAs r) =
        s.tally (InvokePc.countedAs r) :=
        tally_keep was (by rw [before]; rfl)
      have hcounter : { s.setPc n c (.timeoutCounted id) with
          timeouts := fetchAdd s.timeouts : Invocations }.counter r = s.counter r := by
        cases r <;> rfl
      rw [hcounter, hs.results r, ← hkept]
      rfl
    · have hjoin : (s.setPc n c (.timeoutCounted id)).tally InvokePc.countedLate =
        s.tally InvokePc.countedLate + 1 :=
        tally_join was (by rw [before]; rfl) rfl
      exact (fetchAdd_tally hs.timeouts).trans (congrArg (· % 2 ^ 64) hjoin.symm)
  | timedOut n c scope id was before =>
    exact hs.kept was (fun r => by rw [before]; rfl) (by rw [before]; rfl) (fun r => by cases r <;> rfl) rfl rfl

/-- What call `n` pushed. -/
def told (s : Invocations) (n : Nat) : List HealthIssue :=
  (s.pushed.filter (·.1 = some n)).map (·.2)

/-- Every call has pushed its own report and nothing else, and `recent` holds the last 64 issues. -/
structure Reporting (s : Invocations) : Prop where
  own : ∀ n c, s.calls[n]? = some c → s.told n = c.reports
  known : ∀ n issue, (some n, issue) ∈ s.pushed → n < s.calls.length
  recent : s.recent = (s.pushed.map (·.2)).drop (s.pushed.length - 64)

theorem reporting_new (max : Nat) : (new max).Reporting := ⟨nofun, nofun, rfl⟩

theorem pushIssue_last (issues : List HealthIssue) (issue : HealthIssue) :
    pushIssue (issues.drop (issues.length - 64)) issue = (issues ++ [issue]).drop (issues.length + 1 - 64) := by
  have hlength : (issues.drop (issues.length - 64)).length = min issues.length 64 := by
    rw [List.length_drop]
    omega
  rw [pushIssue, hlength]
  split_ifs with hfull
  · rw [List.tail_drop, List.drop_append_of_le_length (by omega)]
    congr 2
    omega
  · rw [show issues.length - 64 = 0 by omega, show issues.length + 1 - 64 = 0 by omega]
    rfl

theorem Reporting.pushing (hs : s.Reporting) (source : Option Nat) (issue : HealthIssue) :
    (s.pushing source issue).recent =
      ((s.pushing source issue).pushed.map (·.2)).drop ((s.pushing source issue).pushed.length - 64) := by
  have hlast := pushIssue_last (s.pushed.map (·.2)) issue
  rw [List.length_map, ← hs.recent] at hlast
  show pushIssue s.recent issue = ((s.pushed ++ [(source, issue)]).map (·.2)).drop _
  rw [hlast, List.map_append, show (s.pushing source issue).pushed.length = s.pushed.length + 1 from
    List.length_append]
  rfl

theorem told_pushing (source : Option Nat) (issue : HealthIssue) (m : Nat) :
    (s.pushing source issue).told m = s.told m ++ if source = some m then [issue] else [] := by
  show (((s.pushed ++ [(source, issue)]).filter (·.1 = some m)).map (·.2)) = _
  rw [List.filter_append, List.map_append]
  split_ifs with h <;> simp [told, h]

theorem Reporting.kept (hs : s.Reporting) (was : s.calls[n]? = some c)
    (hcalls : t.calls = s.calls.set n { c with pc := pc }) (hpushed : t.pushed = s.pushed)
    (hrecent : t.recent = s.recent) (hsilent : c.reports = [])
    (hstill : { c with pc := pc : InvokeCall }.reports = []) :
    t.Reporting := by
  refine ⟨fun m d hd => ?_, fun m issue hm => ?_, by rw [hrecent, hpushed]; exact hs.recent⟩
  · rw [hcalls] at hd
    rw [told, hpushed]
    rcases (Threads.get_set was).mp hd with ⟨rfl, rfl⟩ | ⟨-, hold⟩
    · exact (hs.own m c was).trans (hsilent.trans hstill.symm)
    · exact hs.own m d hold
  · rw [hpushed] at hm
    rw [hcalls, List.length_set]
    exact hs.known m issue hm

theorem Reporting.report (hs : s.Reporting) {issue : HealthIssue} (was : s.calls[n]? = some c)
    (hsilent : c.reports = []) (hreports : { c with pc := pc : InvokeCall }.reports = [issue]) :
    ((s.pushing (some n) issue).setPc n c pc).Reporting := by
  refine ⟨fun m d hd => ?_, fun m other hm => ?_, hs.pushing (some n) issue⟩
  · show (s.pushing (some n) issue).told m = d.reports
    rw [told_pushing]
    rcases (Threads.get_set was).mp hd with ⟨rfl, rfl⟩ | ⟨hmn, hold⟩
    · rw [if_pos rfl, hs.own m c was, hsilent, hreports]
      rfl
    · rw [if_neg fun heq => hmn (Option.some.inj heq).symm, List.append_nil]
      exact hs.own m d hold
  · show m < (s.calls.set n _).length
    rw [List.length_set]
    rcases List.mem_append.mp hm with hm | hm
    · exact hs.known m other hm
    · obtain ⟨heq, -⟩ := Prod.mk.inj (List.mem_singleton.mp hm)
      obtain rfl := Option.some.inj heq
      exact (List.getElem?_eq_some_iff.mp was).1

theorem reports_of {r : List HealthIssue} (hpc : c.pc = pc) (h : { c with pc := pc : InvokeCall }.reports = r) :
    c.reports = r := by
  cases c
  cases hpc
  exact h

theorem reporting_moved (hs : s.Reporting) (h : Moved s t) : t.Reporting := by
  cases h with
  | invoked f =>
    refine ⟨fun m d hd => ?_, fun m issue hm => ?_, hs.recent⟩
    · show s.told m = d.reports
      by_cases hm : m < s.calls.length
      · exact hs.own m d (List.getElem?_append_left hm ▸ hd)
      · have hd : (s.calls ++ [⟨f, .entered⟩])[m]? = some d := hd
        rw [List.getElem?_append_right (Nat.le_of_not_lt hm), List.getElem?_singleton] at hd
        split_ifs at hd
        cases hd
        have hnone : s.pushed.filter (·.1 = some m) = [] := by
          refine List.filter_eq_nil_iff.mpr fun e he heq => hm (hs.known m e.2 ?_)
          rwa [← of_decide_eq_true heq]
        rw [told, hnone]
        rfl
    · show m < (s.calls ++ [_]).length
      have hlt := hs.known m issue hm
      rw [List.length_append]
      omega
  | pushed issue =>
    refine ⟨fun m d hd => ?_, fun m other hm => ?_, hs.pushing none issue⟩
    · rw [told_pushing, if_neg nofun, List.append_nil]
      exact hs.own m d hd
    · rcases List.mem_append.mp hm with hm | hm
      · exact hs.known m other hm
      · cases List.mem_singleton.mp hm
  | admitted n c pc was before after =>
    rcases after with rfl | rfl <;> exact hs.kept was rfl rfl rfl (reports_of before rfl) rfl
  | granted n c was before free => exact hs.kept was rfl rfl rfl (reports_of before rfl) rfl
  | acquired n c was before => exact hs.kept was rfl rfl rfl (reports_of before rfl) rfl
  | refused n c was before =>
    have hsilent : c.reports = [] := by rcases before with h | h | h <;> exact reports_of h rfl
    exact hs.kept was rfl rfl rfl hsilent rfl
  | dispatched n c scope was before => exact hs.kept was rfl rfl rfl (reports_of before rfl) rfl
  | finished n c scope id result was before => exact hs.kept was rfl rfl rfl (reports_of before rfl) rfl
  | released n c scope id result was before => exact hs.kept was rfl rfl rfl (reports_of before rfl) rfl
  | counted n c scope id result was before =>
    have hsilent : c.reports = [] := reports_of before rfl
    cases result <;> exact hs.kept was rfl rfl rfl hsilent rfl
  | reported n c scope id result kind was before told =>
    exact hs.report was (reports_of before rfl) (by simp only [InvokeCall.reports, told])
  | answered n c scope id result was before silent =>
    exact hs.kept was rfl rfl rfl (reports_of before rfl) (by simp only [InvokeCall.reports, silent])
  | dropped n c id pc was before after =>
    have hsilent : c.reports = [] := by
      cases hpc : c.pc <;> rw [hpc] at before <;> first | exact reports_of hpc rfl | cases before
    rcases after with rfl | rfl <;> exact hs.kept was rfl rfl rfl hsilent rfl
  | timeoutCounted n c id was before => exact hs.kept was rfl rfl rfl (reports_of before rfl) rfl
  | timedOut n c scope id was before => exact hs.report was (reports_of before rfl) rfl

/-- The diagnostics neither lose nor repeat an outcome. Each counter is the number of calls past their count, a call
that failed, was cancelled, panicked or timed out has pushed one issue by the time it answers, a successful, refused
or abandoned one none, and `recent_errors` are the last 64 issues in the order of the pushes. -/
theorem outcomes_recorded_once (h : Reach step anyStep (new max) s) :
    (∀ r, s.counter r = s.tally (InvokePc.countedAs r) % 2 ^ 64) ∧
      s.timeouts = s.tally InvokePc.countedLate % 2 ^ 64 ∧
      (∀ n c, s.calls[n]? = some c → s.told n = c.reports) ∧
      s.recent = (s.pushed.map (·.2)).drop (s.pushed.length - 64) := by
  have hcounting : s.Counting :=
    h.invariant (counting_new max) fun _ _ _ hs _ hstep => counting_moved hs (moved_of_step hstep)
  have hreporting : s.Reporting :=
    h.invariant (reporting_new max) fun _ _ _ hs _ hstep => reporting_moved hs (moved_of_step hstep)
  exact ⟨hcounting.results, hcounting.timeouts, hreporting.own, hreporting.recent⟩

/-- Four calls with two permits: one fails, one times out, one is abandoned with a permit not yet seen,
one waits. -/
def lateRun : List InvokeLabel :=
  [.invoke 0, .invoke 1, .invoke 1, .invoke 0, .enter 0 true, .enter 1 true, .enter 2 true, .grant 0, .grant 1,
   .acquire 0, .acquire 1, .dispatch 1 (some 0), .dispatch 0 (some 2), .finish 0 .failed, .release 0, .grant 2,
   .count 0, .expire 1, .abandon 2, .countTimeout 1, .report 0, .reportTimeout 1 none, .enter 3 true]

theorem active_invocations_exact_late : ∃ s, run step (new 2) lateRun = some s ∧
    s.permits ≤ 2 ∧ s.activeInvocations 2 = s.tally InvokePc.holds ∧ s.permits = 2 := by
  obtain ⟨s, hs, hcalls⟩ : ∃ s, run step (new 2) lateRun = some s ∧ ∀ c ∈ s.calls, c.pc.holds = false :=
    ⟨_, rfl, by decide⟩
  obtain ⟨hle, hactive, hback⟩ := active_invocations_exact (reach_of_run hs)
  exact ⟨s, hs, hle, hactive, hback hcalls⟩

theorem invocation_ids_unique_late : ∃ s c d, run step (new 2) lateRun = some s ∧ s.calls[0]? = some c ∧
    s.calls[1]? = some d ∧ c.pc.invocation = some 2 ∧ d.pc.invocation = some 1 ∧
    ∀ id, ¬ (c.pc.invocation = some id ∧ d.pc.invocation = some id) := by
  obtain ⟨s, c, d, hs, hc, hd, hfits, hcid, hdid⟩ : ∃ s c d, run step (new 2) lateRun = some s ∧
      s.calls[0]? = some c ∧ s.calls[1]? = some d ∧ s.order.length ≤ 2 ^ 64 ∧ c.pc.invocation = some 2 ∧
      d.pc.invocation = some 1 :=
    ⟨_, _, _, rfl, rfl, rfl, by decide, rfl, rfl⟩
  refine ⟨s, c, d, hs, hc, hd, hcid, hdid, fun id h => ?_⟩
  exact absurd (invocation_ids_unique (reach_of_run hs) hfits 0 1 c d id hc hd h.1 h.2) (by decide)

theorem outcomes_recorded_once_late : ∃ s c, run step (new 2) lateRun = some s ∧ s.calls[0]? = some c ∧
    s.counter .failed = 1 ∧ s.timeouts = 1 ∧
    s.told 0 = [⟨.InvocationError, some 2, some 0, some 2⟩] ∧ s.recent.length = 2 := by
  obtain ⟨s, c, hs, hc, hreports, hfailed, hlate, hpushed⟩ : ∃ s c, run step (new 2) lateRun = some s ∧
      s.calls[0]? = some c ∧ c.reports = [⟨.InvocationError, some 2, some 0, some 2⟩] ∧
      s.tally (InvokePc.countedAs .failed) = 1 ∧ s.tally InvokePc.countedLate = 1 ∧ s.pushed.length = 2 :=
    ⟨_, _, rfl, rfl, rfl, rfl, rfl, rfl⟩
  obtain ⟨hresults, htimeouts, htold, hrecent⟩ := outcomes_recorded_once (reach_of_run hs)
  refine ⟨s, c, hs, hc, ?_, ?_, (htold 0 c hc).trans hreports, ?_⟩
  · exact (hresults .failed).trans (congrArg (· % 2 ^ 64) hfailed)
  · exact htimeouts.trans (congrArg (· % 2 ^ 64) hlate)
  · rw [hrecent, List.length_drop, List.length_map, hpushed]

end Invocations

end Cordis
