import Cordis.Library.Machine
import Mathlib.Logic.Function.Basic

/-!
# Coalesced garbage collection

`request_gc` and the `GcReconcile` worker it spawns communicate through `gc_state`: `0` no worker, `1`
a worker, `2` a worker that is to make one more pass. Every operation on the word is one
compare-exchange, and a step is one operation of one thread, or the begin or the end of a pass. The
calls are those the admission gate lets in. `clock` counts the steps, which dates calls and passes.

`request_gc` ignores the failure of its second exchange. When the worker leaves between the two
exchanges of a call, the call is lost (`a_request_is_lost`); when no call loses its second exchange to
a worker that left without a further pass, every call is answered (`converged_of_heeded`).
-/

namespace Cordis

/-- `AtomicUsize::compare_exchange`: the new word, and the old one as `Ok` or `Err`. -/
def compareExchange (word current new : Nat) : Nat × Except Nat Nat :=
  if word = current then (new, .ok word) else (word, .error word)

/-- Where a call of `request_gc` stands. -/
inductive RequestPc
  /-- The exchange of `0` by `1` is next. -/
  | entered
  /-- The first exchange found `1`; the exchange of `1` by `2` is next. -/
  | contended
  | returned
  deriving DecidableEq

structure GcRequest where
  began : Nat
  pc : RequestPc
  deriving DecidableEq

/-- Where a `GcReconcile` worker stands. -/
inductive GcWorkerPc
  | looping
  | collecting (began : Nat)
  | collected
  | repeating
  | ended
  deriving DecidableEq

structure Collector where
  gcState : Nat
  requests : Nat → Option GcRequest
  nextRequest : Nat
  workers : Nat → Option GcWorkerPc
  nextWorker : Nat
  clock : Nat
  passes : List Nat

inductive CollectorLabel
  | requestGc
  | exchangeIdle (request : Nat)
  | exchangeRunning (request : Nat)
  | passBegins (worker : Nat)
  | passEnds (worker : Nat)
  | exchangeDone (worker : Nat)
  | exchangeAgain (worker : Nat)
  deriving DecidableEq

namespace Collector

variable (s : Collector)

def new : Collector where
  gcState := 0
  requests := fun _ => none
  nextRequest := 0
  workers := fun _ => none
  nextWorker := 0
  clock := 0
  passes := []

def setRequest (n : Nat) (r : GcRequest) : Collector :=
  { s with requests := Function.update s.requests n (some r) }

def setWorker (w : Nat) (pc : GcWorkerPc) : Collector :=
  { s with workers := Function.update s.workers w (some pc) }

/-- A call moves: the sections of `request_gc` for call `n`, which stands at `r`. -/
def stepRequest (n : Nat) (r : GcRequest) : CollectorLabel → Option Collector
  | .exchangeIdle _ =>
    match r.pc, compareExchange s.gcState 0 1 with
    | .entered, (word, .ok _) =>
      some { (s.setRequest n { r with pc := .returned }).setWorker s.nextWorker .looping with
        gcState := word
        nextWorker := s.nextWorker + 1 }
    | .entered, (word, .error 1) =>
      some { s.setRequest n { r with pc := .contended } with gcState := word }
    | .entered, (word, .error _) =>
      some { s.setRequest n { r with pc := .returned } with gcState := word }
    | _, _ => none
  | .exchangeRunning _ =>
    match r.pc, compareExchange s.gcState 1 2 with
    -- the answer of this exchange is dropped
    | .contended, (word, _) =>
      some { s.setRequest n { r with pc := .returned } with gcState := word }
    | _, _ => none
  | _ => none

/-- The sections of worker `w`, which stands at `pc`. -/
def stepWorker (w : Nat) (pc : GcWorkerPc) : CollectorLabel → Option Collector
  | .passBegins _ =>
    match pc with
    | .looping => some (s.setWorker w (.collecting s.clock))
    | _ => none
  | .passEnds _ =>
    match pc with
    | .collecting began =>
      some { s.setWorker w .collected with passes := s.passes ++ [began] }
    | _ => none
  | .exchangeDone _ =>
    match pc, compareExchange s.gcState 1 0 with
    | .collected, (word, .error 2) => some { s.setWorker w .repeating with gcState := word }
    | .collected, (word, _) => some { s.setWorker w .ended with gcState := word }
    | _, _ => none
  | .exchangeAgain _ =>
    match pc, compareExchange s.gcState 2 1 with
    | .repeating, (word, _) => some { s.setWorker w .looping with gcState := word }
    | _, _ => none
  | _ => none

/-- One operation of one thread, before the clock ticks. -/
def move (l : CollectorLabel) : Option Collector :=
  match l with
  | .requestGc =>
    some { s.setRequest s.nextRequest ⟨s.clock, .entered⟩ with nextRequest := s.nextRequest + 1 }
  | .exchangeIdle n | .exchangeRunning n => (s.requests n).bind fun r => s.stepRequest n r l
  | .passBegins w | .passEnds w | .exchangeDone w | .exchangeAgain w =>
    (s.workers w).bind fun pc => s.stepWorker w pc l

def step (l : CollectorLabel) : Option Collector :=
  (s.move l).map fun t => { t with clock := s.clock + 1 }

/-- All calls have returned and no worker is left. -/
def Quiescent : Prop :=
  (∀ n r, s.requests n = some r → r.pc = .returned) ∧
    ∀ w pc, s.workers w = some pc → pc = .ended

/-- A pass that ran to its end began after call `r`. -/
def Answered (r : GcRequest) : Prop := ∃ began ∈ s.passes, r.began < began

/-- What a quiescent state owes its callers. -/
def Converged : Prop :=
  s.gcState = 0 ∧ ∀ n r, s.requests n = some r → s.Answered r

/-- A call that exchanges `1` by `2` does not find that the worker has left since, unless the worker
made a further pass before. -/
def Heeded (l : CollectorLabel) : Prop :=
  match l with
  | .exchangeRunning n => s.gcState = 0 → ∀ r ∈ s.requests n, s.Answered r
  | _ => True

instance (r : GcRequest) : Decidable (s.Answered r) :=
  inferInstanceAs (Decidable (∃ began ∈ s.passes, r.began < began))

instance (l : CollectorLabel) : Decidable (s.Heeded l) :=
  match l with
  | .exchangeRunning n =>
    inferInstanceAs (Decidable (s.gcState = 0 → ∀ r ∈ s.requests n, s.Answered r))
  | .requestGc | .exchangeIdle _ | .passBegins _ | .passEnds _ | .exchangeDone _
  | .exchangeAgain _ => .isTrue trivial

/-! ## What a step can do -/

/-- The outcomes of one operation, with what they found in the word. -/
inductive Moved : CollectorLabel → Collector → Prop
  | began : Moved .requestGc
      { s.setRequest s.nextRequest ⟨s.clock, .entered⟩ with nextRequest := s.nextRequest + 1 }
  | spawned {n : Nat} {r : GcRequest} (hr : s.requests n = some r) (hword : s.gcState = 0) :
      Moved (.exchangeIdle n)
        { (s.setRequest n { r with pc := .returned }).setWorker s.nextWorker .looping with
          gcState := 1
          nextWorker := s.nextWorker + 1 }
  | contended {n : Nat} {r : GcRequest} (hr : s.requests n = some r) (hword : s.gcState = 1) :
      Moved (.exchangeIdle n) (s.setRequest n { r with pc := .contended })
  | absorbed {n : Nat} {r : GcRequest} (hr : s.requests n = some r) (hidle : s.gcState ≠ 0)
      (hword : s.gcState ≠ 1) :
      Moved (.exchangeIdle n) (s.setRequest n { r with pc := .returned })
  | reserved {n : Nat} {r : GcRequest} (hr : s.requests n = some r) (hword : s.gcState = 1) :
      Moved (.exchangeRunning n) { s.setRequest n { r with pc := .returned } with gcState := 2 }
  | refused {n : Nat} {r : GcRequest} (hr : s.requests n = some r) (hword : s.gcState ≠ 1) :
      Moved (.exchangeRunning n) (s.setRequest n { r with pc := .returned })
  | passBegan {w : Nat} (hw : s.workers w = some .looping) :
      Moved (.passBegins w) (s.setWorker w (.collecting s.clock))
  | passEnded {w began : Nat} (hw : s.workers w = some (.collecting began)) :
      Moved (.passEnds w) { s.setWorker w .collected with passes := s.passes ++ [began] }
  | left {w : Nat} (hw : s.workers w = some .collected) (hword : s.gcState ≠ 2) :
      Moved (.exchangeDone w)
        { s.setWorker w .ended with gcState := if s.gcState = 1 then 0 else s.gcState }
  | stayed {w : Nat} (hw : s.workers w = some .collected) (hword : s.gcState = 2) :
      Moved (.exchangeDone w) (s.setWorker w .repeating)
  | repeated {w : Nat} (hw : s.workers w = some .repeating) :
      Moved (.exchangeAgain w)
        { s.setWorker w .looping with gcState := if s.gcState = 2 then 1 else s.gcState }

variable {s} {t : Collector} {l : CollectorLabel}

theorem moved_request {n : Nat} {r : GcRequest} (hr : s.requests n = some r)
    (h : s.stepRequest n r l = some t) (hl : l = .exchangeIdle n ∨ l = .exchangeRunning n) :
    s.Moved l t := by
  rcases hl with rfl | rfl
  · by_cases h0 : s.gcState = 0
    · cases hpc : r.pc <;> simp [stepRequest, compareExchange, hpc, h0] at h
      subst h
      exact .spawned hr h0
    · by_cases h1 : s.gcState = 1
      · cases hpc : r.pc <;> simp [stepRequest, compareExchange, hpc, h1] at h
        subst h
        rw [← h1]
        exact .contended hr h1
      · cases hpc : r.pc <;> simp [stepRequest, compareExchange, hpc, h0] at h
        subst h
        exact .absorbed hr h0 h1
  · by_cases h1 : s.gcState = 1
    · cases hpc : r.pc <;> simp [stepRequest, compareExchange, hpc, h1] at h
      subst h
      exact .reserved hr h1
    · cases hpc : r.pc <;> simp [stepRequest, compareExchange, hpc, h1] at h
      subst h
      exact .refused hr h1

theorem moved_worker {w : Nat} {pc : GcWorkerPc} (hw : s.workers w = some pc)
    (h : s.stepWorker w pc l = some t)
    (hl : l = .passBegins w ∨ l = .passEnds w ∨ l = .exchangeDone w ∨ l = .exchangeAgain w) :
    s.Moved l t := by
  rcases hl with rfl | rfl | rfl | rfl
  · cases pc <;> simp [stepWorker] at h
    subst h
    exact .passBegan hw
  · cases pc <;> simp [stepWorker] at h
    subst h
    exact .passEnded hw
  · cases pc <;> simp only [stepWorker, compareExchange, reduceCtorEq] at h
    by_cases h1 : s.gcState = 1
    · simp only [h1, if_true, Option.some.injEq] at h
      have hleft := Moved.left hw (by omega : s.gcState ≠ 2)
      rw [if_pos h1] at hleft
      exact h ▸ hleft
    · by_cases h2 : s.gcState = 2
      · simp [h2] at h
        subst h
        rw [← h2]
        exact .stayed hw h2
      · rw [if_neg h1] at h
        split at h
        · rename_i hword
          simp only [Prod.mk.injEq, Except.error.injEq] at hword
          exact absurd hword.2 h2
        · rename_i hword
          simp only [Prod.mk.injEq] at hword
          cases h
          have hleft := Moved.left hw h2
          rw [if_neg h1] at hleft
          exact hword.1 ▸ hleft
        · cases h
  · cases pc <;> simp only [stepWorker, compareExchange, reduceCtorEq] at h
    have hrepeated := Moved.repeated hw
    by_cases h2 : s.gcState = 2
    · rw [if_pos h2] at h hrepeated
      simp only [Option.some.injEq] at h
      exact h ▸ hrepeated
    · rw [if_neg h2] at h hrepeated
      simp only [Option.some.injEq] at h
      exact h ▸ hrepeated

theorem moved_of_move (h : s.move l = some t) : s.Moved l t := by
  cases l with
  | requestGc =>
    cases h
    exact .began
  | exchangeIdle n =>
    obtain ⟨r, hr, hstep⟩ := Option.bind_eq_some_iff.mp h
    exact moved_request hr hstep (.inl rfl)
  | exchangeRunning n =>
    obtain ⟨r, hr, hstep⟩ := Option.bind_eq_some_iff.mp h
    exact moved_request hr hstep (.inr rfl)
  | passBegins w =>
    obtain ⟨pc, hw, hstep⟩ := Option.bind_eq_some_iff.mp h
    exact moved_worker hw hstep (.inl rfl)
  | passEnds w =>
    obtain ⟨pc, hw, hstep⟩ := Option.bind_eq_some_iff.mp h
    exact moved_worker hw hstep (.inr (.inl rfl))
  | exchangeDone w =>
    obtain ⟨pc, hw, hstep⟩ := Option.bind_eq_some_iff.mp h
    exact moved_worker hw hstep (.inr (.inr (.inl rfl)))
  | exchangeAgain w =>
    obtain ⟨pc, hw, hstep⟩ := Option.bind_eq_some_iff.mp h
    exact moved_worker hw hstep (.inr (.inr (.inr rfl)))

/-! ## At most one worker -/

/-- The word counts the workers: there is at most one, and none exactly when the word is `0`. -/
structure Solo (s : Collector) : Prop where
  bound : s.gcState ≤ 2
  fresh : ∀ w, s.nextWorker ≤ w → s.workers w = none
  idle : s.gcState = 0 → ∀ w pc, s.workers w = some pc → pc = .ended
  busy : s.gcState ≠ 0 → ∃ w pc, s.workers w = some pc ∧ pc ≠ .ended
  single : ∀ w w' pc pc', s.workers w = some pc → s.workers w' = some pc' → pc ≠ .ended →
    pc' ≠ .ended → w = w'
  repeating : ∀ w, s.workers w = some .repeating → s.gcState = 2

theorem solo_new : new.Solo :=
  ⟨by decide, fun _ _ => rfl, nofun, fun h => absurd rfl h, nofun, nofun⟩

theorem Solo.word_ne (hs : s.Solo) {w : Nat} {pc : GcWorkerPc} (hw : s.workers w = some pc)
    (hpc : pc ≠ .ended) : s.gcState ≠ 0 :=
  fun h => hpc (hs.idle h w pc hw)

theorem Solo.advance (hs : s.Solo) {w : Nat} {pc p : GcWorkerPc} {n : Nat}
    (hw : s.workers w = some pc) (hpc : pc ≠ .ended) (hp : p ≠ .ended) (h0 : n ≠ 0)
    (h2 : n ≤ 2) (hrep : p = .repeating → n = 2) (ht : t.gcState = n)
    (hnext : t.nextWorker = s.nextWorker)
    (hworkers : t.workers = Function.update s.workers w (some p)) : t.Solo := by
  have hlt : w < s.nextWorker := by
    by_contra hge
    rw [hs.fresh w (by omega)] at hw
    cases hw
  have honly : ∀ v q, t.workers v = some q → q ≠ .ended → v = w ∧ q = p := by
    intro v q hv hq
    rw [hworkers] at hv
    by_cases hvw : v = w
    · subst hvw
      rw [Function.update_self] at hv
      exact ⟨rfl, (Option.some.inj hv).symm⟩
    · rw [Function.update_of_ne hvw] at hv
      exact absurd (hs.single v w q pc hv hw hq hpc) hvw
  refine ⟨by omega, ?_, fun h => absurd (ht ▸ h) h0, fun _ => ⟨w, p, ?_, hp⟩, ?_, ?_⟩
  · intro v hv
    rw [hworkers, Function.update_of_ne (by omega)]
    exact hs.fresh v (by omega)
  · rw [hworkers, Function.update_self]
  · intro v v' q q' hv hv' hq hq'
    rw [(honly v q hv hq).1, (honly v' q' hv' hq').1]
  · intro v hv
    rw [ht]
    exact hrep (honly v _ hv nofun).2.symm

theorem Solo.of_workers (hs : s.Solo) (hword : t.gcState = s.gcState ∨
      s.gcState = 1 ∧ t.gcState = 2) (hnext : t.nextWorker = s.nextWorker)
    (hworkers : t.workers = s.workers) : t.Solo := by
  have hb := hs.bound
  refine ⟨by omega, ?_, ?_, ?_, ?_, ?_⟩
  · rw [hworkers, hnext]
    exact hs.fresh
  · rw [hworkers]
    exact fun h => hs.idle (by omega)
  · rw [hworkers]
    exact fun h => hs.busy (by omega)
  · rw [hworkers]
    exact hs.single
  · rw [hworkers]
    intro w hw
    have := hs.repeating w hw
    omega

theorem solo_moved (hs : s.Solo) (h : s.Moved l t) : t.Solo := by
  cases h with
  | began => exact hs.of_workers (.inl rfl) rfl rfl
  | contended hr hword => exact hs.of_workers (.inl rfl) rfl rfl
  | absorbed hr hidle hword => exact hs.of_workers (.inl rfl) rfl rfl
  | reserved hr hword => exact hs.of_workers (.inr ⟨hword, rfl⟩) rfl rfl
  | refused hr hword => exact hs.of_workers (.inl rfl) rfl rfl
  | spawned hr hword =>
    -- everybody else has ended, so the new worker is the only one
    have honly : ∀ v q, Function.update s.workers s.nextWorker (some .looping) v = some q →
        q ≠ .ended → v = s.nextWorker ∧ q = .looping := by
      intro v q hv hq
      by_cases hvw : v = s.nextWorker
      · rw [hvw, Function.update_self] at hv
        exact ⟨hvw, (Option.some.inj hv).symm⟩
      · rw [Function.update_of_ne hvw] at hv
        exact absurd (hs.idle hword v q hv) hq
    refine ⟨by simp, ?_, nofun, fun _ => ⟨s.nextWorker, .looping, Function.update_self .., nofun⟩,
      ?_, ?_⟩
    · intro v hv
      have hv : s.nextWorker + 1 ≤ v := hv
      exact (Function.update_of_ne (by omega) ..).trans (hs.fresh v (by omega))
    · intro v v' q q' hv hv' hq hq'
      rw [(honly v q hv hq).1, (honly v' q' hv' hq').1]
    · intro v hv
      exact absurd (honly v _ hv nofun).2 nofun
  | passBegan hw =>
    exact hs.advance (p := .collecting s.clock) hw nofun nofun (hs.word_ne hw nofun) hs.bound nofun
      rfl rfl rfl
  | passEnded hw =>
    exact hs.advance (p := .collected) hw nofun nofun (hs.word_ne hw nofun) hs.bound nofun
      rfl rfl rfl
  | stayed hw hword =>
    exact hs.advance (p := .repeating) hw nofun nofun (hs.word_ne hw nofun) hs.bound
      (fun _ => hword) rfl rfl rfl
  | repeated hw =>
    have hword := hs.repeating _ hw
    refine hs.advance (p := .looping) (n := 1) hw nofun nofun (by omega) (by omega) nofun ?_ rfl rfl
    simp [hword]
  | @left w hw hword =>
    have h0 := hs.word_ne hw nofun
    have hb := hs.bound
    have h1 : s.gcState = 1 := by omega
    have hended : ∀ v q, Function.update s.workers w (some .ended) v = some q → q = .ended := by
      intro v q hv
      by_cases hvw : v = w
      · rw [hvw, Function.update_self] at hv
        exact (Option.some.inj hv).symm
      · rw [Function.update_of_ne hvw] at hv
        by_contra hq
        exact hvw (hs.single v w q _ hv hw hq nofun)
    have hlt : w < s.nextWorker := by
      by_contra hge
      rw [hs.fresh w (by omega)] at hw
      cases hw
    refine ⟨by simp [h1], ?_, fun _ => hended, fun h => absurd (by simp [h1]) h, ?_, ?_⟩
    · intro v hv
      have hv : s.nextWorker ≤ v := hv
      exact (Function.update_of_ne (by omega) ..).trans (hs.fresh v hv)
    · intro v v' q q' hv _ hq _
      exact absurd (hended v q hv) hq
    · intro v hv
      exact absurd (hended v _ hv) nofun

theorem solo_step (hs : s.Solo) (h : s.step l = some t) : t.Solo := by
  obtain ⟨u, hu, rfl⟩ := Option.map_eq_some_iff.mp h
  have hsolo := solo_moved hs (moved_of_move hu)
  exact ⟨hsolo.bound, hsolo.fresh, hsolo.idle, hsolo.busy, hsolo.single, hsolo.repeating⟩

/-- In every run the word is back at `0` when no worker is left. -/
theorem idle_of_ended (h : Machine.Reach step Machine.anyStep new s)
    (hended : ∀ w pc, s.workers w = some pc → pc = .ended) : s.gcState = 0 := by
  have hs : s.Solo := h.invariant solo_new fun _ _ _ hs _ hstep => solo_step hs hstep
  by_contra hword
  obtain ⟨w, pc, hw, hpc⟩ := hs.busy hword
  exact hpc (hended w pc hw)

/-! ## What the worker still owes -/

/-- A pass that begins after call `r` is still to come or under way. -/
def Owed (s : Collector) (r : GcRequest) : Prop :=
  ∃ w pc, s.workers w = some pc ∧
    (pc = .looping ∨ (∃ began, pc = .collecting began ∧ r.began < began) ∨
      pc ≠ .ended ∧ s.gcState = 2)

/-- Every call that returned was answered, or will be. -/
structure Served (s : Collector) : Prop where
  solo : s.Solo
  dated : ∀ n r, s.requests n = some r → r.began < s.clock
  owed : ∀ n r, s.requests n = some r → r.pc = .returned → s.Answered r ∨ s.Owed r

theorem served_new : new.Served :=
  ⟨solo_new, nofun, nofun⟩

theorem answered_moved {r : GcRequest} (h : s.Moved l t) (ha : s.Answered r) : t.Answered r := by
  obtain ⟨b, hb, hlt⟩ := ha
  cases h with
  | passEnded hw => exact ⟨b, List.mem_append_left _ hb, hlt⟩
  | _ => exact ⟨b, hb, hlt⟩

theorem owed_moved {r : GcRequest} (hs : s.Solo) (hr : r.began < s.clock) (h : s.Moved l t)
    (ho : s.Owed r) : t.Answered r ∨ t.Owed r := by
  obtain ⟨v, pc, hv, hpc⟩ := ho
  have hrun : pc ≠ .ended := by
    rcases hpc with rfl | ⟨b, rfl, -⟩ | ⟨hne, -⟩
    · nofun
    · nofun
    · exact hne
  have hsame : ∀ w q, s.workers w = some q → q ≠ .ended → w = v ∧ q = pc := by
    intro w q hw hq
    obtain rfl := hs.single w v q pc hw hv hq hrun
    rw [hv] at hw
    exact ⟨rfl, (Option.some.inj hw).symm⟩
  cases h with
  | began | contended _ _ | absorbed _ _ _ | refused _ _ => exact .inr ⟨v, pc, hv, hpc⟩
  | spawned _ hword => exact absurd hword (hs.word_ne hv hrun)
  | reserved _ hword => exact .inr ⟨v, pc, hv, .inr (.inr ⟨hrun, rfl⟩)⟩
  | passBegan hw =>
    exact .inr ⟨_, _, Function.update_self .., .inr (.inl ⟨s.clock, rfl, hr⟩)⟩
  | @passEnded w began hw =>
    obtain ⟨rfl, rfl⟩ := hsame _ _ hw nofun
    rcases hpc with hpc | ⟨b, hpc, hlt⟩ | ⟨-, hword⟩
    · cases hpc
    · cases hpc
      exact .inl ⟨_, List.mem_append_right _ (List.mem_singleton_self _), hlt⟩
    · exact .inr ⟨w, .collected, Function.update_self .., .inr (.inr ⟨nofun, hword⟩)⟩
  | left hw hword =>
    obtain ⟨rfl, rfl⟩ := hsame _ _ hw nofun
    rcases hpc with hpc | ⟨b, hpc, -⟩ | ⟨-, h2⟩
    · cases hpc
    · cases hpc
    · exact absurd h2 hword
  | @stayed w hw hword =>
    exact .inr ⟨w, .repeating, Function.update_self .., .inr (.inr ⟨nofun, hword⟩)⟩
  | @repeated w hw => exact .inr ⟨w, .looping, Function.update_self .., .inl rfl⟩

theorem Solo.owes (hs : s.Solo) (hword : s.gcState = 2) (r : GcRequest) : s.Owed r := by
  obtain ⟨w, pc, hw, hpc⟩ := hs.busy (by omega)
  exact ⟨w, pc, hw, .inr (.inr ⟨hpc, hword⟩)⟩

theorem returning_moved {n : Nat} {r : GcRequest} (hs : s.Solo) (hok : s.Heeded l)
    (h : s.Moved l t) (hr : t.requests n = some r) (hpc : r.pc = .returned)
    (hold : s.requests n ≠ some r) : t.Answered r ∨ t.Owed r := by
  have hcases : ∀ (m : Nat) (q : GcRequest), Function.update s.requests m (some q) n = some r →
      n = m ∧ q = r := by
    intro m q hm
    by_cases hnm : n = m
    · rw [hnm, Function.update_self] at hm
      exact ⟨hnm, Option.some.inj hm⟩
    · rw [Function.update_of_ne hnm] at hm
      exact absurd hm hold
  cases h with
  | began =>
    obtain ⟨-, rfl⟩ := hcases _ _ hr
    cases hpc
  | spawned _ _ => exact .inr ⟨_, _, Function.update_self .., .inl rfl⟩
  | contended _ _ =>
    obtain ⟨-, rfl⟩ := hcases _ _ hr
    cases hpc
  | absorbed _ hidle hword =>
    have hb := hs.bound
    exact .inr (hs.owes (by omega) r)
  | reserved _ hword =>
    obtain ⟨w, pc, hw, hrun⟩ := hs.busy (by omega)
    exact .inr ⟨w, pc, hw, .inr (.inr ⟨hrun, rfl⟩)⟩
  | @refused m q hm hword =>
    obtain ⟨-, rfl⟩ := hcases _ _ hr
    by_cases h0 : s.gcState = 0
    · exact .inl (hok h0 q hm)
    · have hb := hs.bound
      exact .inr (hs.owes (by omega) _)
  | passBegan _ | passEnded _ | left _ _ | stayed _ _ | repeated _ => exact absurd hr hold

theorem request_moved {n : Nat} {r : GcRequest} (h : s.Moved l t) (hr : t.requests n = some r) :
    (∃ q, s.requests n = some q ∧ q.began = r.began) ∨ r.began = s.clock := by
  have hcases : ∀ (m : Nat) (p q : GcRequest), Function.update s.requests m (some p) n = some r →
      s.requests m = some q → q.began = p.began →
      ∃ q : GcRequest, s.requests n = some q ∧ q.began = r.began := by
    intro m p q hm hq hbegan
    by_cases hnm : n = m
    · subst hnm
      rw [Function.update_self] at hm
      cases hm
      exact ⟨q, hq, hbegan⟩
    · rw [Function.update_of_ne hnm] at hm
      exact ⟨r, hm, rfl⟩
  cases h with
  | began =>
    by_cases hn : n = s.nextRequest
    · rw [hn] at hr
      have hr : some (GcRequest.mk s.clock .entered) = some r :=
        (Function.update_self s.nextRequest _ s.requests).symm.trans hr
      cases hr
      exact .inr rfl
    · have hr : s.requests n = some r := (Function.update_of_ne hn _ s.requests).symm.trans hr
      exact .inl ⟨r, hr, rfl⟩
  | spawned hq _ | contended hq _ | absorbed hq _ _ | reserved hq _ | refused hq _ =>
    exact .inl (hcases _ _ _ hr hq rfl)
  | passBegan _ | passEnded _ | left _ _ | stayed _ _ | repeated _ => exact .inl ⟨r, hr, rfl⟩

theorem served_step (hs : s.Served) (hok : s.Heeded l) (h : s.step l = some t) : t.Served := by
  have hsolo := solo_step hs.solo h
  obtain ⟨u, hu, rfl⟩ := Option.map_eq_some_iff.mp h
  have hmoved := moved_of_move hu
  refine ⟨hsolo, ?_, ?_⟩
  · intro n r hr
    show r.began < s.clock + 1
    rcases request_moved hmoved hr with ⟨q, hq, hbegan⟩ | hbegan
    · have := hs.dated n q hq
      omega
    · omega
  · intro n r hr hpc
    have howed : u.Answered r ∨ u.Owed r := by
      by_cases hold : s.requests n = some r
      · rcases hs.owed n r hold hpc with ha | ho
        · exact .inl (answered_moved hmoved ha)
        · exact owed_moved hs.solo (hs.dated n r hold) hmoved ho
      · exact returning_moved hs.solo hok hmoved hr hpc hold
    exact howed

/-! ## No request is lost -/

/-- With no worker left there is nothing owed. -/
theorem converged_of_served (hs : s.Served) (hq : s.Quiescent) : s.Converged := by
  have hended : ∀ w pc, s.workers w = some pc → pc = .ended := hq.2
  refine ⟨?_, ?_⟩
  · by_contra hword
    obtain ⟨w, pc, hw, hpc⟩ := hs.solo.busy hword
    exact hpc (hended w pc hw)
  · intro n r hr
    rcases hs.owed n r hr (hq.1 n r hr) with ha | ⟨w, pc, hw, hpc⟩
    · exact ha
    · rw [hended w pc hw] at hpc
      rcases hpc with hpc | ⟨_, hpc, -⟩ | ⟨hne, -⟩
      · cases hpc
      · cases hpc
      · exact absurd rfl hne

/-- In every run in which no call loses its second exchange to a worker that left without a further
pass, a quiescent state has `gc_state = 0` and every call was answered by a full pass that began
after it. -/
theorem converged_of_heeded (h : Machine.Reach step Heeded new s) (hq : s.Quiescent) :
    s.Converged :=
  converged_of_served (h.invariant served_new fun _ _ _ hs hok hstep => served_step hs hok hstep) hq

/-- A call during the pass of an earlier one: the worker makes a second pass. -/
def coalesced : List CollectorLabel :=
  [.requestGc, .exchangeIdle 0, .passBegins 0, .requestGc, .exchangeIdle 1, .exchangeRunning 1,
    .passEnds 0, .exchangeDone 0, .exchangeAgain 0, .passBegins 0, .passEnds 0, .exchangeDone 0]

theorem coalesced_converged :
    ∃ s, Machine.run step new coalesced = some s ∧ s.Converged := by
  obtain ⟨t, ht⟩ : ∃ t, Machine.runIf step Heeded new coalesced = some t := ⟨_, rfl⟩
  have hreach := Machine.reach_of_runIf ht
  cases ht
  refine ⟨_, rfl, converged_of_heeded hreach ⟨?_, ?_⟩⟩
  · intro n r hr
    match n, hr with
    | 0, hr => cases hr; rfl
    | 1, hr => cases hr; rfl
    | n + 2, hr => cases hr
  · intro w pc hw
    match w, hw with
    | 0, hw => cases hw; rfl
    | w + 1, hw => cases hw

/-- The worker leaves between the two exchanges of the second call. -/
def lostRequest : List CollectorLabel :=
  [.requestGc, .exchangeIdle 0, .passBegins 0, .passEnds 0, .requestGc, .exchangeIdle 1,
    .exchangeDone 0, .exchangeRunning 1]

theorem a_request_is_lost :
    ¬ ∀ s, Machine.Reach step Machine.anyStep new s → s.Quiescent → s.Converged := by
  intro hall
  obtain ⟨t, ht⟩ : ∃ t, Machine.run step new lostRequest = some t := ⟨_, rfl⟩
  have hreach := Machine.reach_of_run ht
  cases ht
  refine absurd (hall _ hreach ⟨?_, ?_⟩) ?_
  · intro n r hr
    match n, hr with
    | 0, hr => cases hr; rfl
    | 1, hr => cases hr; rfl
    | n + 2, hr => cases hr
  · intro w pc hw
    match w, hw with
    | 0, hw => cases hw; rfl
    | w + 1, hw => cases hw
  · rintro ⟨-, hanswered⟩
    obtain ⟨began, hbegan, hlt⟩ := hanswered 1 _ rfl
    revert began
    decide

end Collector

end Cordis
