import Cordis.Library.History
import Cordis.Host.Pending

/-!
# The terminal state of a session

The state goes from `Created` over `Handshaking` and `Ready` to `Draining`, and from any of them at most
once to `Closed` or `Failed`. The exchange that takes it there has one winner among all calls of
`transition_to_failed` and `transition_to_closed`. The winner stores the error after the exchange, but
under a lock that every transition holds, so whoever takes the lock sees both or neither.
-/

namespace Cordis.Session

open Protocol Machine Threads

/-- What is kept of a step. -/
inductive Verdict
  | enter (state : SessionState)
  | returned (terminal : Terminal) (won : Bool)

/-- The terminal transition that a thread is in. -/
def Pc.transition? : Pc → Option (Terminal × TransitionPc)
  | terminate terminal pc => some (terminal, pc)
  | dispatch _ (.failing error _ pc) => some (.failed error, pc)
  | _ => none

def TransitionPc.returned? : TransitionPc → Option Bool
  | done won => some won
  | _ => none

def Pc.returned? (pc : Pc) : Option (Terminal × Bool) :=
  pc.transition?.bind fun p => p.2.returned?.map fun won => (p.1, won)

def verdicts (s : SessionInner) (l : Label) (t : SessionInner) : List Verdict :=
  (if t.state = s.state then [] else [.enter t.state]) ++
    match l with
    | .run n _ =>
      ((t.threads[n]?.bind Pc.returned?).map fun p => Verdict.returned p.1 p.2).toList
    | _ => []

/-- The session with a log of its states and its terminal transitions. -/
def chronicle : SessionInner × List Verdict → Label → Option (SessionInner × List Verdict) :=
  recording step verdicts

/-- The exchange has succeeded, and the call has not returned. -/
def TransitionPc.winning : TransitionPc → Bool
  | record | drain | stop | force | notify => true
  | _ => false

/-- `terminal_error` is locked. -/
def TransitionPc.locking : TransitionPc → Bool
  | load | exchange _ | record => true
  | _ => false

def Pc.winning (pc : Pc) : Bool := pc.transition?.any (·.2.winning)

def Pc.locking (pc : Pc) : Bool := pc.transition?.any (·.2.locking)

def Verdict.won : Verdict → Bool
  | returned _ won => won
  | _ => false

/-- The states that were entered, in order. -/
def states (log : List Verdict) : List SessionState :=
  log.filterMap fun x =>
    match x with
    | .enter state => some state
    | _ => none

/-- What `terminal_error` holds after this transition. -/
def Terminal.error : Terminal → Option HostError
  | failed error => some error
  | closed => none

/-- The transition has won: it has returned `true`, or is about to. -/
def Won (s : SessionInner) (log : List Verdict) (terminal : Terminal) : Prop :=
  .returned terminal true ∈ log ∨ ∃ (n : Nat) (pc : Pc) (tpc : TransitionPc),
    s.threads[n]? = some pc ∧ pc.transition? = some (terminal, tpc) ∧ tpc.winning = true

/-- The states of a run so far: a path, and at most one terminal state at its end. -/
inductive Walk : List SessionState → SessionState → Prop
  | created : Walk [] .Created
  | handshaking : Walk [.Handshaking] .Handshaking
  | ready : Walk [.Handshaking, .Ready] .Ready
  | draining : Walk [.Handshaking, .Ready, .Draining] .Draining
  | ended {l : List SessionState} {state : SessionState} (terminal : Terminal) (walk : Walk l state)
      (live : state ≠ .Closed ∧ state ≠ .Failed) : Walk (l ++ [terminal.state]) terminal.state

/-! ## What a step does to the state -/

/-- A transition that is not terminal. -/
inductive Ordinary : SessionState → SessionState → Prop
  | handshake : Ordinary .Created .Handshaking
  | negotiated : Ordinary .Handshaking .Ready
  | shutdown : Ordinary .Ready .Draining

/-- The thread is at a place where it neither holds the lock nor has won. -/
def Pc.idle (pc : Pc) : Prop := pc.winning = false ∧ pc.locking = false

/-- What a step of a thread does to the state and to `terminal_error`. -/
inductive Rule (s t : SessionInner) (pc pc' : Pc) : Prop
  | keep (state : t.state = s.state) (error : t.terminalError = s.terminalError)
      (lock : t.terminalLock = s.terminalLock) (was : pc.idle) (now : pc'.idle)
      (silent : pc'.returned? = none)
  | ordinary (state : Ordinary s.state t.state) (error : t.terminalError = s.terminalError)
      (lock : t.terminalLock = s.terminalLock) (was : pc.idle) (now : pc'.idle)
      (silent : pc'.returned? = none)
  | transition (terminal : Terminal) (tpc tpc' : TransitionPc)
      (was : pc.transition? = some (terminal, tpc)) (now : pc'.transition? = some (terminal, tpc'))
      (step : stepTransition s terminal tpc = some (t, tpc'))

theorem Ordinary.ne {a b : SessionState} (h : Ordinary a b) : b ≠ a := by
  cases h <;> exact nofun

section Rule

variable {s t : SessionInner} {n : Nat} {b : Bool}

theorem idle_of_none {pc : Pc} (h : pc.transition? = none) : pc.idle := by
  simp [Pc.idle, Pc.winning, Pc.locking, h]

theorem returned_of_none {pc : Pc} (h : pc.transition? = none) : pc.returned? = none := by
  rw [Pc.returned?, h]
  rfl

theorem Rule.quiet {pc pc' : Pc} (hpc : pc.transition? = none) (hpc' : pc'.transition? = none)
    (herror : t.terminalError = s.terminalError) (hlock : t.terminalLock = s.terminalLock)
    (hstate : t.state = s.state ∨ Ordinary s.state t.state) : Rule s t pc pc' := by
  rcases hstate with hstate | hstate
  · exact .keep hstate herror hlock (idle_of_none hpc) (idle_of_none hpc') (returned_of_none hpc')
  · exact .ordinary hstate herror hlock (idle_of_none hpc) (idle_of_none hpc') (returned_of_none hpc')

theorem stepBegin_state (s : SessionInner) (op : Operation) :
    (stepBegin s op).1.terminalError = s.terminalError ∧
      (stepBegin s op).1.terminalLock = s.terminalLock ∧
      ((stepBegin s op).1.state = s.state ∨ Ordinary s.state (stepBegin s op).1.state) := by
  unfold stepBegin
  split
  · split_ifs with hstate
    · exact ⟨rfl, rfl, .inr (hstate ▸ .handshake)⟩
    · exact ⟨rfl, rfl, .inl rfl⟩
  · split_ifs with hstate
    · exact ⟨rfl, rfl, .inr (hstate ▸ .shutdown)⟩
    · exact ⟨rfl, rfl, .inl rfl⟩
  · split <;> exact ⟨rfl, rfl, .inl rfl⟩
  · split <;> exact ⟨rfl, rfl, .inl rfl⟩
  · exact ⟨rfl, rfl, .inl rfl⟩

theorem stepCall_state {op : Operation} {pc pc' : CallPc} (h : stepCall s n op b pc = some (t, pc')) :
    t.terminalError = s.terminalError ∧ t.terminalLock = s.terminalLock ∧
      (t.state = s.state ∨ Ordinary s.state t.state) := by
  cases pc with
  | begin =>
    simp only [stepCall, Option.some.injEq] at h
    have hbegin := stepBegin_state s op
    rw [h] at hbegin
    exact hbegin
  | checkState | acquire | checkAgain | allocate | exchange | recheck | refuse =>
    simp only [stepCall] at h
    split_ifs at h <;> cases h <;> exact ⟨rfl, rfl, .inl rfl⟩
  | publish | register | unregister | acknowledge =>
    cases h
    exact ⟨rfl, rfl, .inl rfl⟩
  | enqueue id =>
    simp only [stepCall, stepEnqueue] at h
    split_ifs at h <;> cases h <;> exact ⟨rfl, rfl, .inl rfl⟩
  | await id =>
    simp only [stepCall, stepAwait] at h
    split at h
    · cases h
      exact ⟨rfl, rfl, .inl rfl⟩
    · split_ifs at h <;> cases h <;> exact ⟨rfl, rfl, .inl rfl⟩
  | cancel id result =>
    cases h
    unfold SessionInner.trySend
    split_ifs <;> exact ⟨rfl, rfl, .inl rfl⟩
  | release result =>
    simp only [stepCall] at h
    split at h <;> cases h <;> exact ⟨rfl, rfl, .inl rfl⟩
  | ended result => cases h

theorem stepDispatch_rule {message : Message} {pc pc' : DispatchPc}
    (h : stepDispatch s message pc = some (t, pc')) :
    Rule s t (.dispatch message pc) (.dispatch message pc') := by
  -- a dispatch that enters its terminal transition is still before the lock
  have hlock : ∀ error entry, (Pc.dispatch message (.failing error entry .lock)).idle ∧
      (Pc.dispatch message (.failing error entry .lock)).returned? = none :=
    fun _ _ => ⟨⟨rfl, rfl⟩, rfl⟩
  cases pc with
  | check =>
    simp only [stepDispatch] at h
    split_ifs at h
    · cases h
      exact .keep rfl rfl rfl ⟨rfl, rfl⟩ (hlock _ _).1 rfl
    · cases h
      exact .quiet rfl rfl rfl rfl (.inl rfl)
  | remove =>
    simp only [stepDispatch] at h
    split at h <;> cases h <;> exact .quiet rfl rfl rfl rfl (.inl rfl)
  | judge entry =>
    simp only [stepDispatch] at h
    repeat' split at h
    all_goals
      cases h
      exact .keep rfl rfl rfl ⟨rfl, rfl⟩ ⟨rfl, rfl⟩ rfl
  | failing error entry transition =>
    simp only [stepDispatch] at h
    split at h
    · cases h
      exact .keep rfl rfl rfl ⟨rfl, rfl⟩ ⟨rfl, rfl⟩ rfl
    · cases h
      exact .keep rfl rfl rfl ⟨rfl, rfl⟩ ⟨rfl, rfl⟩ rfl
    · obtain ⟨⟨u, tpc⟩, hstep, heq⟩ := Option.map_eq_some_iff.mp h
      cases heq
      exact .transition _ _ _ rfl rfl hstep
  | acknowledge entry | reply entry answer go =>
    cases h
    exact .quiet rfl rfl rfl rfl (.inl rfl)
  | done => cases h

theorem stepThread_rule {pc pc' : Pc} (h : stepThread s n b pc = some (t, pc')) : Rule s t pc pc' := by
  cases pc with
  | call op pc =>
    obtain ⟨⟨u, q⟩, hstep, heq⟩ := Option.map_eq_some_iff.mp h
    cases heq
    obtain ⟨herror, hlock, hstate⟩ := stepCall_state hstep
    exact .quiet rfl rfl herror hlock hstate
  | dispatch message pc =>
    obtain ⟨⟨u, q⟩, hstep, heq⟩ := Option.map_eq_some_iff.mp h
    cases heq
    exact stepDispatch_rule hstep
  | terminate terminal pc =>
    obtain ⟨⟨u, q⟩, hstep, heq⟩ := Option.map_eq_some_iff.mp h
    cases heq
    exact .transition _ _ _ rfl rfl hstep
  | negotiate limits pc =>
    obtain ⟨⟨u, q⟩, hstep, heq⟩ := Option.map_eq_some_iff.mp h
    cases heq
    cases pc with
    | check =>
      simp only [stepNegotiate] at hstep
      repeat' split at hstep
      all_goals
        cases hstep
        exact .quiet rfl rfl rfl rfl (.inl rfl)
    | forget | install =>
      cases hstep
      exact .quiet rfl rfl rfl rfl (.inl rfl)
    | ready =>
      simp only [stepNegotiate] at hstep
      split_ifs at hstep with hstate
      · cases hstep
        exact .quiet rfl rfl rfl rfl (.inr (hstate ▸ .negotiated))
      · cases hstep
        exact .quiet rfl rfl rfl rfl (.inl rfl)
    | done => cases hstep

end Rule

/-! ## The invariant -/

/-- The error has been stored, and the call has not returned. -/
def TransitionPc.stored : TransitionPc → Bool
  | drain | stop | force | notify => true
  | _ => false

/-- Thread `n` is at this place of a terminal transition. -/
def At (s : SessionInner) (n : Nat) (terminal : Terminal) (tpc : TransitionPc) : Prop :=
  ∃ pc, s.threads[n]? = some pc ∧ pc.transition? = some (terminal, tpc)

/-- The transition has won and stored its error. -/
def Stored (s : SessionInner) (log : List Verdict) (terminal : Terminal) : Prop :=
  .returned terminal true ∈ log ∨ ∃ n tpc, At s n terminal tpc ∧ tpc.stored = true

/-- One transition at most has won, and state and error are those of the winner. -/
structure Decided (s : SessionInner) (log : List Verdict) : Prop where
  walk : Walk (states log) s.state
  free : s.terminalLock = false → ∀ n terminal tpc, At s n terminal tpc → tpc.locking = false
  exclusive : ∀ n m terminal terminal' tpc tpc', At s n terminal tpc → At s m terminal' tpc' →
    tpc.locking = true → tpc'.locking = true → n = m
  loaded : ∀ n terminal current, At s n terminal (.exchange current) →
    current ≠ .Closed ∧ current ≠ .Failed
  recording : ∀ n terminal, At s n terminal .record →
    s.state = terminal.state ∧ s.terminalError = none
  stored : ∀ terminal, Stored s log terminal →
    s.state = terminal.state ∧ s.terminalError = terminal.error
  error : ∀ e, s.terminalError = some e → Stored s log (.failed e)
  failed : s.state = .Failed → s.terminalError ≠ none ∨ ∃ n terminal, At s n terminal .record
  count : log.countP Verdict.won + s.threads.countP Pc.winning = if s.Terminal then 1 else 0

section Decided

variable {s t : SessionInner} {log : List Verdict} {n m : Nat} {pc pc' : Pc} {terminal : Terminal}
  {tpc : TransitionPc}

theorem Terminal.state_terminal (terminal : Terminal) :
    terminal.state = .Closed ∨ terminal.state = .Failed := by
  cases terminal with
  | failed => exact .inr rfl
  | closed => exact .inl rfl

theorem stored_winning (h : tpc.stored = true) : tpc.winning = true := by
  cases tpc <;> first | rfl | cases h

theorem at_set {u : SessionInner} (hn : s.threads[n]? = some pc) (hu : u.threads = s.threads.set n pc') :
    At u m terminal tpc ↔
      m = n ∧ pc'.transition? = some (terminal, tpc) ∨ m ≠ n ∧ At s m terminal tpc := by
  unfold At
  rw [hu]
  constructor
  · rintro ⟨p, hm, hp⟩
    rcases (get_set hn).mp hm with ⟨hmn, rfl⟩ | ⟨hmn, hold⟩
    · exact .inl ⟨hmn, hp⟩
    · exact .inr ⟨hmn, p, hold, hp⟩
  · rintro (⟨hmn, hp⟩ | ⟨hmn, p, hold, hp⟩)
    · exact ⟨pc', (get_set hn).mpr (.inl ⟨hmn, rfl⟩), hp⟩
    · exact ⟨p, (get_set hn).mpr (.inr ⟨hmn, hold⟩), hp⟩

theorem winning_of_at (h : At s n terminal tpc) (hwinning : tpc.winning = true) :
    ∃ p, s.threads[n]? = some p ∧ p.winning = true := by
  obtain ⟨p, hn, hp⟩ := h
  exact ⟨p, hn, by rw [Pc.winning, hp]; exact hwinning⟩

theorem Decided.live (h : Decided s log) (hlive : ¬ s.Terminal) :
    (∀ terminal, .returned terminal true ∉ log) ∧
      ∀ n terminal tpc, At s n terminal tpc → tpc.winning = false := by
  have hcount := h.count
  rw [if_neg hlive] at hcount
  refine ⟨fun terminal hmem => ?_, fun n terminal tpc hat => ?_⟩
  · have hpos : 0 < log.countP Verdict.won := List.countP_pos_iff.mpr ⟨_, hmem, rfl⟩
    omega
  · by_contra hwinning
    obtain ⟨p, hn, hp⟩ := winning_of_at hat (by simpa using hwinning)
    have hpos : 0 < s.threads.countP Pc.winning :=
      List.countP_pos_iff.mpr ⟨p, List.mem_of_getElem? hn, hp⟩
    omega

theorem Decided.sole (h : Decided s log) (hat : At s n terminal tpc) (hwinning : tpc.winning = true) :
    (∀ terminal, .returned terminal true ∉ log) ∧
      ∀ m terminal' tpc', At s m terminal' tpc' → tpc'.winning = true → m = n := by
  have hcount := h.count
  have hle : (if s.Terminal then 1 else 0) ≤ 1 := by split_ifs <;> omega
  obtain ⟨p, hn, hp⟩ := winning_of_at hat hwinning
  have hpos : 0 < s.threads.countP Pc.winning :=
    List.countP_pos_iff.mpr ⟨p, List.mem_of_getElem? hn, hp⟩
  refine ⟨fun terminal' hmem => ?_, fun m terminal' tpc' hat' hwinning' => ?_⟩
  · have hwon : 0 < log.countP Verdict.won := List.countP_pos_iff.mpr ⟨_, hmem, rfl⟩
    omega
  · by_contra hne
    obtain ⟨q, hm, hq⟩ := winning_of_at hat' hwinning'
    have hpair : [m, n].Nodup := by simpa using hne
    have htwo := length_le_countP (r := Pc.winning) (l := s.threads) hpair fun k hk => by
        rcases List.mem_pair.mp hk with rfl | rfl
        · exact ⟨q, hm, hq⟩
        · exact ⟨p, hn, hp⟩
    rw [List.length_cons, List.length_singleton] at htwo
    omega

theorem not_terminal_of_ordinary (h : Ordinary s.state t.state) : ¬ s.Terminal ∧ ¬ t.Terminal := by
  unfold SessionInner.Terminal
  generalize s.state = a at h
  generalize t.state = b at h
  cases h <;> simp

/-- The path to a state that is not terminal. -/
def SessionState.path : SessionState → List SessionState
  | .Handshaking => [.Handshaking]
  | .Ready => [.Handshaking, .Ready]
  | .Draining => [.Handshaking, .Ready, .Draining]
  | _ => []

theorem Walk.path_of_live {l : List SessionState} {state : SessionState} (h : Walk l state)
    (hlive : state ≠ .Closed ∧ state ≠ .Failed) : l = SessionState.path state := by
  cases h with
  | created | handshaking | ready | draining => rfl
  | ended terminal walk live =>
    rcases terminal.state_terminal with heq | heq
    · exact absurd heq hlive.1
    · exact absurd heq hlive.2

theorem Walk.ordinary {l : List SessionState} {a b : SessionState} (h : Walk l a) (hab : Ordinary a b) :
    Walk (l ++ [b]) b := by
  have hl := h.path_of_live (by cases hab <;> simp)
  subst hl
  cases hab with
  | handshake => exact .handshaking
  | negotiated => exact .ready
  | shutdown => exact .draining

theorem verdicts_run {u : SessionInner} {b : Bool} (hn : s.threads[n]? = some pc)
    (hu : u.threads = s.threads.set n pc') :
    verdicts s (.run n b) u = (if u.state = s.state then [] else [.enter u.state]) ++
      (pc'.returned?.map fun p => Verdict.returned p.1 p.2).toList := by
  have hget : u.threads[n]? = some pc' := by
    rw [hu]
    exact (get_set hn).mpr (.inl ⟨rfl, rfl⟩)
  rw [verdicts, hget]
  rfl

section Verdicts

variable {u : SessionInner} {b : Bool} (hn : s.threads[n]? = some pc)
  (hu : u.threads = s.threads.set n pc')

include hn hu

theorem states_verdicts : states (log ++ verdicts s (.run n b) u) =
    states log ++ if u.state = s.state then [] else [u.state] := by
  rw [verdicts_run hn hu, states, List.filterMap_append, List.filterMap_append]
  have hreturned : ((pc'.returned?.map fun p => Verdict.returned p.1 p.2).toList.filterMap fun x =>
      match x with
      | .enter state => some state
      | _ => none) = [] := by
    cases pc'.returned? <;> rfl
  rw [hreturned, List.append_nil]
  split_ifs <;> rfl

theorem returned_mem_verdicts : .returned terminal true ∈ log ++ verdicts s (.run n b) u ↔
    .returned terminal true ∈ log ∨ pc'.returned? = some (terminal, true) := by
  rw [verdicts_run hn hu, List.mem_append, List.mem_append]
  have henter : Verdict.returned terminal true ∉ (if u.state = s.state then [] else [.enter u.state]) := by
    split_ifs <;> simp
  simp only [henter, false_or]
  cases pc'.returned? with
  | none => simp
  | some p =>
    obtain ⟨terminal', won⟩ := p
    simp [eq_comm]

theorem countP_verdicts : (log ++ verdicts s (.run n b) u).countP Verdict.won =
    log.countP Verdict.won + (pc'.returned?.any (·.2)).toNat := by
  rw [verdicts_run hn hu, List.countP_append, List.countP_append]
  have henter : (if u.state = s.state then ([] : List Verdict) else [.enter u.state]).countP Verdict.won =
      0 := by
    split_ifs <;> rfl
  rw [henter, Nat.zero_add]
  cases pc'.returned? with
  | none => rfl
  | some p =>
    obtain ⟨terminal', won⟩ := p
    cases won <;> rfl

end Verdicts

theorem terminal_of_state (h : s.state = terminal.state) : s.Terminal := by
  unfold SessionInner.Terminal
  rw [h]
  exact terminal.state_terminal

theorem Decided.plain (h : Decided s log) {u : SessionInner} {b : Bool} (hn : s.threads[n]? = some pc)
    (hu : u.threads = s.threads.set n pc') (hstate : u.state = s.state ∨ Ordinary s.state u.state)
    (herror : u.terminalError = s.terminalError)
    (hfree : u.terminalLock = false →
      (∀ T p, pc'.transition? = some (T, p) → p.locking = false) ∧
        ∀ m T p, m ≠ n → At s m T p → p.locking = false)
    (hexclusive : (∃ T p, pc'.transition? = some (T, p) ∧ p.locking = true) →
      ∀ m T p, m ≠ n → At s m T p → p.locking = false)
    (hloaded : ∀ T current, pc'.transition? = some (T, .exchange current) →
      current ≠ .Closed ∧ current ≠ .Failed)
    (hrecord : ∀ T, pc.transition? ≠ some (T, .record))
    (hrecord' : ∀ T, pc'.transition? ≠ some (T, .record))
    (hstored : ∀ T, pc'.returned? = some (T, true) ∨
        (∃ p, pc'.transition? = some (T, p) ∧ p.stored = true) ↔
      ∃ q, pc.transition? = some (T, q) ∧ q.stored = true)
    (hcount : (pc'.returned?.any (·.2)).toNat + pc'.winning.toNat = pc.winning.toNat) :
    Decided u (log ++ verdicts s (.run n b) u) := by
  -- what has been stored before is what has been stored after
  have hiff : ∀ T, Stored u (log ++ verdicts s (.run n b) u) T ↔ Stored s log T := by
    intro T
    unfold Stored
    rw [returned_mem_verdicts hn hu]
    constructor
    · rintro ((hlog | hreturned) | ⟨m, p, hat, hp⟩)
      · exact .inl hlog
      · obtain ⟨q, hq, hqs⟩ := (hstored T).mp (.inl hreturned)
        exact .inr ⟨n, q, ⟨pc, hn, hq⟩, hqs⟩
      · rcases (at_set hn hu).mp hat with ⟨-, hpc'⟩ | ⟨-, hat⟩
        · obtain ⟨q, hq, hqs⟩ := (hstored T).mp (.inr ⟨p, hpc', hp⟩)
          exact .inr ⟨n, q, ⟨pc, hn, hq⟩, hqs⟩
        · exact .inr ⟨m, p, hat, hp⟩
    · rintro (hlog | ⟨m, p, hat, hp⟩)
      · exact .inl (.inl hlog)
      · by_cases hmn : m = n
        · subst hmn
          obtain ⟨p', hm, hq⟩ := hat
          rw [hn] at hm
          cases hm
          rcases (hstored T).mpr ⟨p, hq, hp⟩ with hreturned | ⟨q, hq', hqs⟩
          · exact .inl (.inr hreturned)
          · exact .inr ⟨m, q, (at_set hn hu).mpr (.inl ⟨rfl, hq'⟩), hqs⟩
        · exact .inr ⟨m, p, (at_set hn hu).mpr (.inr ⟨hmn, hat⟩), hp⟩
  have hterminal : s.Terminal → u.state = s.state := by
    intro hend
    exact hstate.resolve_right fun hord => (not_terminal_of_ordinary hord).1 hend
  have hsame : u.Terminal ↔ s.Terminal := by
    rcases hstate with heq | hord
    · unfold SessionInner.Terminal
      rw [heq]
    · exact iff_of_false (not_terminal_of_ordinary hord).2 (not_terminal_of_ordinary hord).1
  refine ⟨?_, fun hlock m T p hat => ?_, fun k m T T' p p' hk hm hp hp' => ?_,
    fun m T current hat => ?_, fun m T hat => ?_, fun T hT => ?_, fun e he => ?_, fun hfailed => ?_, ?_⟩
  · rw [states_verdicts hn hu]
    rcases hstate with heq | hord
    · rw [if_pos heq, List.append_nil, heq]
      exact h.walk
    · rw [if_neg hord.ne]
      exact h.walk.ordinary hord
  · obtain ⟨hself, hothers⟩ := hfree hlock
    rcases (at_set hn hu).mp hat with ⟨-, hpc'⟩ | ⟨hmn, hat⟩
    · exact hself T p hpc'
    · exact hothers m T p hmn hat
  · rcases (at_set hn hu).mp hk with ⟨rfl, hpc'⟩ | ⟨hkn, hk⟩ <;>
      rcases (at_set hn hu).mp hm with ⟨rfl, hpc''⟩ | ⟨hmn, hm⟩
    · rfl
    · rw [hexclusive ⟨T, p, hpc', hp⟩ m T' p' hmn hm] at hp'
      contradiction
    · rw [hexclusive ⟨T', p', hpc'', hp'⟩ k T p hkn hk] at hp
      contradiction
    · exact h.exclusive k m T T' p p' hk hm hp hp'
  · rcases (at_set hn hu).mp hat with ⟨-, hpc'⟩ | ⟨-, hat⟩
    · exact hloaded T current hpc'
    · exact h.loaded m T current hat
  · rcases (at_set hn hu).mp hat with ⟨-, hpc'⟩ | ⟨-, hat⟩
    · exact absurd hpc' (hrecord' T)
    · obtain ⟨hwas, hnone⟩ := h.recording m T hat
      exact ⟨(hterminal (terminal_of_state hwas)).trans hwas, herror.trans hnone⟩
  · obtain ⟨hwas, hstore⟩ := h.stored T ((hiff T).mp hT)
    exact ⟨(hterminal (terminal_of_state hwas)).trans hwas, herror.trans hstore⟩
  · exact (hiff _).mpr (h.error e (herror ▸ he))
  · have hend : s.Terminal := hsame.mp (.inr hfailed)
    rcases h.failed ((hterminal hend).symm.trans hfailed) with hsome | ⟨m, T, hat⟩
    · exact .inl (herror ▸ hsome)
    · refine .inr ⟨m, T, (at_set hn hu).mpr (.inr ⟨?_, hat⟩)⟩
      rintro rfl
      obtain ⟨p, hm, hp⟩ := hat
      rw [hn] at hm
      cases hm
      exact hrecord T hp
  · have hset : (s.threads.set n pc').countP Pc.winning + pc.winning.toNat =
        s.threads.countP Pc.winning + pc'.winning.toNat := countP_set hn
    rw [countP_verdicts hn hu, hu]
    simp only [hsame]
    rw [← h.count]
    omega

theorem Decided.idle (h : Decided s log) {u : SessionInner} {b : Bool} (hn : s.threads[n]? = some pc)
    (hu : u.threads = s.threads.set n pc') (hstate : u.state = s.state ∨ Ordinary s.state u.state)
    (herror : u.terminalError = s.terminalError) (hlock : u.terminalLock = s.terminalLock)
    (hwas : pc.idle) (hnow : pc'.idle) (hsilent : pc'.returned? = none) :
    Decided u (log ++ verdicts s (.run n b) u) := by
  have hquiet : ∀ {p : Pc}, p.idle → ∀ T q, p.transition? = some (T, q) →
      q.winning = false ∧ q.locking = false := by
    intro p hidle T q hq
    obtain ⟨hwinning, hlocking⟩ := hidle
    rw [Pc.winning, hq] at hwinning
    rw [Pc.locking, hq] at hlocking
    exact ⟨hwinning, hlocking⟩
  have hno : ∀ {p : Pc}, p.idle → ∀ T q, p.transition? = some (T, q) → q.stored = false := by
    intro p hidle T q hq
    by_contra hstored
    have := (hquiet hidle T q hq).1
    rw [stored_winning (by simpa using hstored)] at this
    contradiction
  refine h.plain hn hu hstate herror (fun hfree => ⟨fun T p hp => (hquiet hnow T p hp).2,
    fun m T p _ hat => h.free (hlock ▸ hfree) m T p hat⟩) ?_ (fun T current hp => ?_) (fun T hp => ?_)
    (fun T hp => ?_) (fun T => ⟨?_, ?_⟩) ?_
  · rintro ⟨T, p, hp, hlocking⟩
    rw [(hquiet hnow T p hp).2] at hlocking
    contradiction
  · cases (hquiet hnow T _ hp).2
  · cases (hquiet hwas T _ hp).2
  · cases (hquiet hnow T _ hp).2
  · rintro (hreturned | ⟨p, hp, hstored⟩)
    · rw [hsilent] at hreturned
      contradiction
    · rw [hno hnow T p hp] at hstored
      contradiction
  · rintro ⟨q, hq, hstored⟩
    rw [hno hwas T q hq] at hstored
    contradiction
  · rw [hsilent, hwas.1, hnow.1]
    rfl

theorem Decided.advance (h : Decided s log) {u : SessionInner} {b : Bool} {tpc' : TransitionPc}
    (hn : s.threads[n]? = some pc) (hu : u.threads = s.threads.set n pc')
    (hwas : pc.transition? = some (terminal, tpc)) (hnow : pc'.transition? = some (terminal, tpc'))
    (hstate : u.state = s.state) (herror : u.terminalError = s.terminalError)
    (hfree : u.terminalLock = false → tpc'.locking = false ∧
      ∀ m T p, m ≠ n → At s m T p → p.locking = false)
    (hexclusive : tpc'.locking = true → ∀ m T p, m ≠ n → At s m T p → p.locking = false)
    (hloaded : ∀ current, tpc' = .exchange current → current ≠ .Closed ∧ current ≠ .Failed)
    (hrecord : tpc ≠ .record ∧ tpc' ≠ .record)
    (hstored : tpc' = .done true ∨ tpc'.stored = true ↔ tpc.stored = true)
    (hcount : (tpc'.returned?.getD false).toNat + tpc'.winning.toNat = tpc.winning.toNat) :
    Decided u (log ++ verdicts s (.run n b) u) := by
  have hreturned : ∀ T, pc'.returned? = some (T, true) ↔ T = terminal ∧ tpc' = .done true := by
    intro T
    rw [Pc.returned?, hnow]
    cases tpc' <;> simp [TransitionPc.returned?, eq_comm]
  refine h.plain hn hu (.inl hstate) herror (fun hlock => ⟨fun T p hp => ?_, (hfree hlock).2⟩) ?_
    (fun T current hp => ?_) (fun T hp => ?_) (fun T hp => ?_) (fun T => ⟨?_, ?_⟩) ?_
  · rw [hnow] at hp
    cases hp
    exact (hfree hlock).1
  · rintro ⟨T, p, hp, hlocking⟩
    rw [hnow] at hp
    cases hp
    exact hexclusive hlocking
  · rw [hnow] at hp
    cases hp
    exact hloaded current rfl
  · rw [hwas] at hp
    cases hp
    exact hrecord.1 rfl
  · rw [hnow] at hp
    cases hp
    exact hrecord.2 rfl
  · rintro (hdone | ⟨p, hp, hp'⟩)
    · obtain ⟨rfl, hdone⟩ := (hreturned T).mp hdone
      exact ⟨tpc, hwas, hstored.mp (.inl hdone)⟩
    · rw [hnow] at hp
      cases hp
      exact ⟨tpc, hwas, hstored.mp (.inr hp')⟩
  · rintro ⟨q, hq, hq'⟩
    rw [hwas] at hq
    cases hq
    rcases hstored.mpr hq' with hdone | hp'
    · exact .inl ((hreturned terminal).mpr ⟨rfl, hdone⟩)
    · exact .inr ⟨tpc', hnow, hp'⟩
  · have hvalue : pc'.returned?.any (·.2) = tpc'.returned?.getD false := by
      rw [Pc.returned?, hnow]
      cases tpc' <;> rfl
    rw [hvalue, Pc.winning, Pc.winning, hnow, hwas]
    exact hcount

/-- The exchange that ends the session: nobody had won, and now thread `n` has. -/
theorem Decided.exchange (h : Decided s log) {b : Bool} (hn : s.threads[n]? = some pc)
    (hwas : pc.transition? = some (terminal, .exchange s.state))
    (hnow : pc'.transition? = some (terminal, .record)) :
    Decided { s with state := terminal.state, threads := s.threads.set n pc' }
      (log ++ verdicts s (.run n b)
        { s with state := terminal.state, threads := s.threads.set n pc' }) := by
  have hlive : ¬ s.Terminal := by
    obtain ⟨hclosed, hfailed⟩ := h.loaded n terminal _ ⟨pc, hn, hwas⟩
    exact not_or.mpr ⟨hclosed, hfailed⟩
  obtain ⟨hlog, hthreads⟩ := h.live hlive
  have hlocked : s.terminalLock = true := by
    by_contra hfree
    cases h.free (by simpa using hfree) n terminal _ ⟨pc, hn, hwas⟩
  have hnone : s.terminalError = none := by
    rw [← Option.not_isSome_iff_eq_none]
    intro hsome
    obtain ⟨e, he⟩ := Option.isSome_iff_exists.mp hsome
    exact hlive (terminal_of_state (h.stored _ (h.error e he)).1)
  have hne : terminal.state ≠ s.state := by
    intro heq
    exact hlive (terminal_of_state heq.symm)
  have hsilent : pc'.returned? = none := by
    rw [Pc.returned?, hnow]
    rfl
  generalize hu : ({ s with state := terminal.state, threads := s.threads.set n pc' } : SessionInner) = u
  have hthreads' : u.threads = s.threads.set n pc' := by rw [← hu]
  have hstate : u.state = terminal.state := by rw [← hu]
  have herror : u.terminalError = none := by rw [← hu]; exact hnone
  -- nobody else is past the exchange
  have hnew : ∀ m T p, At u m T p → p.winning = true → m = n ∧ T = terminal ∧ p = .record := by
    intro m T p hat hp
    rcases (at_set hn hthreads').mp hat with ⟨rfl, hpc'⟩ | ⟨-, hat⟩
    · rw [hnow] at hpc'
      cases hpc'
      exact ⟨rfl, rfl, rfl⟩
    · rw [hthreads m T p hat] at hp
      contradiction
  have hnostore : ∀ T, ¬ Stored u (log ++ verdicts s (.run n b) u) T := by
    rintro T (hmem | ⟨m, p, hat, hp⟩)
    · rcases (returned_mem_verdicts hn hthreads').mp hmem with hmem | hreturned
      · exact hlog T hmem
      · rw [hsilent] at hreturned
        contradiction
    · obtain ⟨-, -, rfl⟩ := hnew m T p hat (stored_winning hp)
      contradiction
  refine ⟨?_, fun hlock => ?_, fun k m T T' p p' hk hm hp hp' => ?_, fun m T current hat => ?_,
    fun m T hat => ?_, fun T hT => absurd hT (hnostore T), fun e he => ?_, fun _ => ?_, ?_⟩
  · rw [states_verdicts hn hthreads', hstate, if_neg hne]
    exact .ended terminal h.walk (not_or.mp hlive)
  · have : u.terminalLock = s.terminalLock := by rw [← hu]
    rw [this, hlocked] at hlock
    contradiction
  · -- the thread held the lock before
    have hheld : ∀ m T p, At u m T p → p.locking = true → m = n := by
      intro m T p hat hp
      rcases (at_set hn hthreads').mp hat with ⟨rfl, -⟩ | ⟨-, hat⟩
      · rfl
      · exact h.exclusive m n T terminal p _ hat ⟨pc, hn, hwas⟩ hp rfl
    rw [hheld k T p hk hp, hheld m T' p' hm hp']
  · rcases (at_set hn hthreads').mp hat with ⟨-, hpc'⟩ | ⟨-, hat⟩
    · rw [hnow] at hpc'
      cases hpc'
    · exact h.loaded m T current hat
  · obtain ⟨-, rfl, -⟩ := hnew m T _ hat rfl
    exact ⟨hstate, herror⟩
  · rw [herror] at he
    cases he
  · exact .inr ⟨n, terminal, (at_set hn hthreads').mpr (.inl ⟨rfl, hnow⟩)⟩
  · have hset : (s.threads.set n pc').countP Pc.winning + pc.winning.toNat =
        s.threads.countP Pc.winning + pc'.winning.toNat := countP_set hn
    have hcount := h.count
    rw [if_neg hlive] at hcount
    rw [countP_verdicts hn hthreads', hthreads', hsilent, if_pos (terminal_of_state hstate)]
    rw [Pc.winning, Pc.winning, hwas, hnow] at hset
    simp only [Option.any_some, TransitionPc.winning, Bool.toNat_false, Bool.toNat_true] at hset
    simp only [Option.any_none, Bool.toNat_false]
    omega

theorem Decided.store (h : Decided s log) {u : SessionInner} {b : Bool} (hn : s.threads[n]? = some pc)
    (hu : u.threads = s.threads.set n pc') (hwas : pc.transition? = some (terminal, .record))
    (hnow : pc'.transition? = some (terminal, .drain)) (hstate : u.state = s.state)
    (herror : u.terminalError = terminal.error) :
    Decided u (log ++ verdicts s (.run n b) u) := by
  have hat : At s n terminal .record := ⟨pc, hn, hwas⟩
  obtain ⟨hlog, hsole⟩ := h.sole hat rfl
  obtain ⟨hended, -⟩ := h.recording n terminal hat
  have hsilent : pc'.returned? = none := by
    rw [Pc.returned?, hnow]
    rfl
  have hnew : ∀ m T p, At u m T p → p.winning = true → m = n ∧ T = terminal ∧ p = .drain := by
    intro m T p hat' hp
    rcases (at_set hn hu).mp hat' with ⟨rfl, hpc'⟩ | ⟨hmn, hold⟩
    · rw [hnow] at hpc'
      cases hpc'
      exact ⟨rfl, rfl, rfl⟩
    · exact absurd (hsole m T p hold hp) hmn
  have hunlocked : ∀ m T p, At u m T p → p.locking = false := by
    intro m T p hat'
    rcases (at_set hn hu).mp hat' with ⟨-, hpc'⟩ | ⟨hmn, hold⟩
    · rw [hnow] at hpc'
      cases hpc'
      rfl
    · by_contra hp
      exact hmn (h.exclusive m n T terminal p .record hold hat (by simpa using hp) rfl)
  have hself : At u n terminal .drain := (at_set hn hu).mpr (.inl ⟨rfl, hnow⟩)
  refine ⟨?_, fun _ => hunlocked, fun k m T T' p p' hk hm hp hp' => ?_, fun m T current hat' => ?_,
    fun m T hat' => ?_, fun T hT => ?_, fun e he => ?_, fun hfailed => .inl ?_, ?_⟩
  · rw [states_verdicts hn hu, if_pos hstate, List.append_nil, hstate]
    exact h.walk
  · rw [hunlocked k T p hk] at hp
    contradiction
  · cases hunlocked m T _ hat'
  · cases hunlocked m T _ hat'
  · rcases hT with hmem | ⟨m, p, hat', hp⟩
    · rcases (returned_mem_verdicts hn hu).mp hmem with hmem | hreturned
      · exact absurd hmem (hlog T)
      · rw [hsilent] at hreturned
        contradiction
    · obtain ⟨-, rfl, -⟩ := hnew m T p hat' (stored_winning hp)
      exact ⟨hstate.trans hended, herror⟩
  · cases terminal with
    | failed error =>
      rw [herror] at he
      cases he
      exact .inr ⟨n, .drain, hself, rfl⟩
    | closed =>
      rw [herror] at he
      cases he
  · rw [herror]
    cases terminal with
    | failed error => exact nofun
    | closed =>
      rw [hstate, hended] at hfailed
      cases hfailed
  · have hset : (s.threads.set n pc').countP Pc.winning + pc.winning.toNat =
        s.threads.countP Pc.winning + pc'.winning.toNat := countP_set hn
    have hsame : u.Terminal ↔ s.Terminal := by
      unfold SessionInner.Terminal
      rw [hstate]
    rw [countP_verdicts hn hu, hu, hsilent]
    simp only [hsame]
    rw [← h.count]
    rw [Pc.winning, Pc.winning, hwas, hnow] at hset
    simp only [Option.any_some, TransitionPc.winning, Bool.toNat_true] at hset
    simp only [Option.any_none, Bool.toNat_false]
    omega

theorem Decided.transition (h : Decided s log) {b : Bool} {tpc' : TransitionPc}
    (hn : s.threads[n]? = some pc) (hwas : pc.transition? = some (terminal, tpc))
    (hnow : pc'.transition? = some (terminal, tpc'))
    (hs : stepTransition s terminal tpc = some (t, tpc')) :
    Decided { t with threads := s.threads.set n pc' }
      (log ++ verdicts s (.run n b) { t with threads := s.threads.set n pc' }) := by
  have hat : At s n terminal tpc := ⟨pc, hn, hwas⟩
  -- the holder of the lock is alone
  have halone : tpc.locking = true → ∀ m T p, m ≠ n → At s m T p → p.locking = false := by
    intro hlocking m T p hmn hat'
    by_contra hp
    exact hmn (h.exclusive m n T terminal p tpc hat' hat (by simpa using hp) hlocking)
  cases tpc with
  | lock =>
    simp only [stepTransition] at hs
    split_ifs at hs with hlock
    cases hs
    exact h.advance hn rfl hwas hnow rfl rfl (by simp)
      (fun _ m T p _ hat' => h.free (by simpa using hlock) m T p hat') (by simp) ⟨by simp, by simp⟩
      (by simp [TransitionPc.stored]) rfl
  | load =>
    simp only [stepTransition] at hs
    split_ifs at hs with hended
    · cases hs
      exact h.advance hn rfl hwas hnow rfl rfl (fun _ => ⟨rfl, halone rfl⟩) (by rintro ⟨⟩) (by simp)
        ⟨by simp, by simp⟩ (by simp [TransitionPc.stored]) rfl
    · cases hs
      refine h.advance hn rfl hwas hnow rfl rfl (fun hlock => ?_) (fun _ => halone rfl)
        (fun current hcurrent => ?_) ⟨by simp, by simp⟩ (by simp [TransitionPc.stored]) rfl
      · cases h.free hlock n terminal _ hat
      · cases hcurrent
        exact not_or.mp hended
  | exchange current =>
    simp only [stepTransition] at hs
    split_ifs at hs with hsame
    · cases hs
      subst hsame
      exact h.exchange hn hwas hnow
    · cases hs
      refine h.advance hn rfl hwas hnow rfl rfl (fun hlock => ?_) (fun _ => halone rfl) (by simp)
        ⟨by simp, by simp⟩ (by simp [TransitionPc.stored]) rfl
      cases h.free hlock n terminal _ hat
  | record =>
    simp only [stepTransition] at hs
    split at hs
    · cases hs
      exact h.store hn rfl hwas hnow rfl rfl
    · cases hs
      exact h.store hn rfl hwas hnow rfl (h.recording n _ hat).2
  | drain | force | notify =>
    cases hs
    exact h.advance hn rfl hwas hnow rfl rfl
      (fun hlock => ⟨rfl, fun m T p _ hat' => h.free hlock m T p hat'⟩) (by rintro ⟨⟩) (by simp) ⟨by simp, by simp⟩
      (by simp [TransitionPc.stored]) rfl
  | stop =>
    cases hs
    cases terminal with
    | failed | closed =>
      exact h.advance hn rfl hwas hnow rfl rfl
        (fun hlock => ⟨rfl, fun m T p _ hat' => h.free hlock m T p hat'⟩) (by rintro ⟨⟩) (by simp)
        ⟨by simp, by simp⟩
        (by simp [TransitionPc.stored]) rfl
  | done won => cases hs

theorem at_spawn (h : At (s.spawn pc) m terminal tpc) :
    At s m terminal tpc ∨ pc.transition? = some (terminal, tpc) := by
  obtain ⟨p, hm, hp⟩ := h
  rw [SessionInner.spawn, List.getElem?_append] at hm
  split_ifs at hm
  · exact .inl ⟨p, hm, hp⟩
  · cases List.mem_singleton.mp (List.mem_of_getElem? hm)
    exact .inr hp

theorem at_spawn_of_at (h : At s m terminal tpc) : At (s.spawn pc) m terminal tpc := by
  obtain ⟨p, hm, hp⟩ := h
  refine ⟨p, ?_, hp⟩
  rw [SessionInner.spawn, List.getElem?_append_left (List.getElem?_eq_some_iff.mp hm).1, hm]

theorem Decided.spawn (h : Decided s log)
    (hpc : ∀ T p, pc.transition? = some (T, p) → p = .lock) : Decided (s.spawn pc) log := by
  have hold : ∀ m T p, At (s.spawn pc) m T p → p ≠ .lock → At s m T p := by
    intro m T p hat hne
    rcases at_spawn hat with hat | hnew
    · exact hat
    · exact absurd (hpc T p hnew) hne
  have hstored : ∀ T, Stored (s.spawn pc) log T ↔ Stored s log T := by
    intro T
    constructor
    · rintro (hlog | ⟨m, p, hat, hp⟩)
      · exact .inl hlog
      · refine .inr ⟨m, p, hold m T p hat ?_, hp⟩
        rintro rfl
        contradiction
    · rintro (hlog | ⟨m, p, hat, hp⟩)
      · exact .inl hlog
      · exact .inr ⟨m, p, at_spawn_of_at hat, hp⟩
  have hwinning : pc.winning = false := by
    rw [Pc.winning]
    cases hp : pc.transition? with
    | none => rfl
    | some p =>
      obtain ⟨T, p⟩ := p
      cases hpc T p hp
      rfl
  refine ⟨h.walk, fun hlock m T p hat => ?_, fun k m T T' p p' hk hm hp hp' => ?_,
    fun m T current hat => h.loaded m T current (hold m T _ hat nofun),
    fun m T hat => h.recording m T (hold m T _ hat nofun), fun T hT => h.stored T ((hstored T).mp hT),
    fun e he => (hstored _).mpr (h.error e he), fun hfailed => ?_, ?_⟩
  · rcases at_spawn hat with hat | hnew
    · exact h.free hlock m T p hat
    · cases hpc T p hnew
      rfl
  · refine h.exclusive k m T T' p p' (hold k T p hk ?_) (hold m T' p' hm ?_) hp hp'
    all_goals
      rintro rfl
      contradiction
  · rcases h.failed hfailed with hsome | ⟨m, T, hat⟩
    · exact .inl hsome
    · exact .inr ⟨m, T, at_spawn_of_at hat⟩
  · rw [SessionInner.spawn, List.countP_append]
    have hone : [pc].countP Pc.winning = 0 := by simp [hwinning]
    rw [hone, Nat.add_zero]
    exact h.count

theorem dropThread_quiet (h : dropThread pc = some pc') :
    pc.transition? = none ∧ pc'.transition? = none := by
  cases pc with
  | call op cpc =>
    obtain ⟨q, -, rfl⟩ := Option.map_eq_some_iff.mp h
    exact ⟨rfl, rfl⟩
  | dispatch | terminate | negotiate => cases h

theorem decided_step {l : Label} {log' : List Verdict} (h : Decided s log)
    (hs : chronicle (s, log) l = some (t, log')) : Decided t log' := by
  obtain ⟨hstep, hlog⟩ := recording_eq_some hs
  simp only at hstep hlog
  subst hlog
  have hnil : t.state = s.state → (∀ n b, l ≠ .run n b) → verdicts s l t = [] := by
    intro hstate hlabel
    unfold verdicts
    rw [if_pos hstate]
    cases l with
    | run n b => exact absurd rfl (hlabel n b)
    | call | dispatch | terminate | negotiate | drop | receive | stopWriter => rfl
  cases l with
  | call | dispatch | negotiate =>
    cases hstep
    rw [hnil rfl nofun, List.append_nil]
    exact h.spawn nofun
  | terminate =>
    cases hstep
    rw [hnil rfl nofun, List.append_nil]
    exact h.spawn fun T p hp => by
      cases hp
      rfl
  | run n b =>
    obtain ⟨pc, hn, hrun⟩ := Option.bind_eq_some_iff.mp hstep
    obtain ⟨⟨v, pc'⟩, hv, heq⟩ := Option.bind_eq_some_iff.mp hrun
    cases heq
    cases stepThread_rule hv with
    | keep hstate herror hlock hwas hnow hsilent =>
      exact h.idle hn rfl (.inl hstate) herror hlock hwas hnow hsilent
    | ordinary hstate herror hlock hwas hnow hsilent =>
      exact h.idle hn rfl (.inr hstate) herror hlock hwas hnow hsilent
    | transition terminal tpc tpc' hwas hnow hs => exact h.transition hn hwas hnow hs
  | drop n =>
    obtain ⟨pc, hn, hrun⟩ := Option.bind_eq_some_iff.mp hstep
    obtain ⟨pc', hdrop, heq⟩ := Option.bind_eq_some_iff.mp hrun
    obtain ⟨hwas, hnow⟩ := dropThread_quiet hdrop
    have hidle := h.idle (b := true) hn (u := { s with threads := s.threads.set n pc' }) rfl (.inl rfl)
      rfl rfl (idle_of_none hwas) (idle_of_none hnow) (returned_of_none hnow)
    rw [verdicts_run hn rfl, if_pos rfl, returned_of_none hnow] at hidle
    cases heq
    rw [hnil rfl nofun]
    exact hidle
  | receive | stopWriter =>
    cases hstep
    rw [hnil rfl nofun, List.append_nil]
    exact ⟨h.walk, h.free, h.exclusive, h.loaded, h.recording, h.stored, h.error, h.failed, h.count⟩

theorem decided_new (config : ProcessHostConfig) : Decided (SessionInner.new config) [] := by
  have hnone : ∀ n terminal tpc, ¬ At (SessionInner.new config) n terminal tpc := by
    rintro n terminal tpc ⟨pc, hn, -⟩
    exact absurd hn (by simp [SessionInner.new])
  refine ⟨.created, fun _ n T p hat => absurd hat (hnone n T p),
    fun n m T T' p p' hat => absurd hat (hnone n T p), fun n T c hat => absurd hat (hnone n T _),
    fun n T hat => absurd hat (hnone n T _), fun T hT => ?_, nofun, nofun, rfl⟩
  rcases hT with hlog | ⟨n, p, hat, -⟩
  · exact absurd hlog List.not_mem_nil
  · exact absurd hat (hnone n T p)

theorem decided_reach {config : ProcessHostConfig} {j : SessionInner × List Verdict}
    (h : Reach chronicle anyStep (SessionInner.new config, []) j) : Decided j.1 j.2 :=
  h.invariant (I := fun j => Decided j.1 j.2) (decided_new config) fun _ _ _ hi _ hs =>
    decided_step hi hs

theorem Decided.step_stays {l : Label} {log' : List Verdict} (h : Decided s log)
    (hs : chronicle (s, log) l = some (t, log')) :
    (s.Terminal → t.state = s.state) ∧ (∀ e, s.terminalError = some e → t.terminalError = some e) := by
  obtain ⟨hstep, -⟩ := recording_eq_some hs
  have h' := decided_step h hs
  cases l with
  | call | dispatch | terminate | negotiate | receive | stopWriter =>
    cases hstep
    exact ⟨fun _ => rfl, fun _ he => he⟩
  | drop n =>
    obtain ⟨pc, -, hrun⟩ := Option.bind_eq_some_iff.mp hstep
    obtain ⟨pc', -, heq⟩ := Option.bind_eq_some_iff.mp hrun
    cases heq
    exact ⟨fun _ => rfl, fun _ he => he⟩
  | run n b =>
    obtain ⟨pc, hn, hrun⟩ := Option.bind_eq_some_iff.mp hstep
    obtain ⟨⟨v, pc'⟩, hv, heq⟩ := Option.bind_eq_some_iff.mp hrun
    cases heq
    cases stepThread_rule hv with
    | keep hstate herror => exact ⟨fun _ => hstate, fun _ he => herror.trans he⟩
    | ordinary hstate herror =>
      exact ⟨fun hend => absurd hend (not_terminal_of_ordinary hstate).1, fun _ he => herror.trans he⟩
    | transition terminal tpc tpc' hwas hnow hs =>
      have hat : At s n terminal tpc := ⟨pc, hn, hwas⟩
      cases tpc with
      | lock | load =>
        simp only [stepTransition] at hs
        split_ifs at hs
        all_goals
          cases hs
          exact ⟨fun _ => rfl, fun _ he => he⟩
      | exchange current =>
        simp only [stepTransition] at hs
        split_ifs at hs with hsame
        · cases hs
          subst hsame
          obtain ⟨hclosed, hfailed⟩ := h.loaded n terminal _ hat
          exact ⟨fun hend => absurd hend (not_or.mpr ⟨hclosed, hfailed⟩), fun _ he => he⟩
        · cases hs
          exact ⟨fun _ => rfl, fun _ he => he⟩
      | record =>
        obtain ⟨-, hnone⟩ := h.recording n terminal hat
        simp only [stepTransition] at hs
        split at hs
        all_goals
          cases hs
          refine ⟨fun _ => rfl, fun _ he => ?_⟩
          rw [hnone] at he
          contradiction
      | drain | stop | force | notify =>
        cases hs
        exact ⟨fun _ => rfl, fun _ he => he⟩
      | done won => cases hs

theorem Decided.stays {p q : SessionInner × List Verdict} (h : Decided p.1 p.2)
    (hr : Reach chronicle anyStep p q) : (p.1.Terminal → q.1.state = p.1.state) ∧
      ∀ e, p.1.terminalError = some e → q.1.terminalError = some e := by
  have hall : Decided q.1 q.2 ∧ (p.1.Terminal → q.1.state = p.1.state) ∧
      ∀ e, p.1.terminalError = some e → q.1.terminalError = some e := by
    refine hr.invariant (I := fun q => Decided q.1 q.2 ∧ (p.1.Terminal → q.1.state = p.1.state) ∧
      ∀ e, p.1.terminalError = some e → q.1.terminalError = some e)
      ⟨h, fun _ => rfl, fun _ he => he⟩ ?_
    rintro ⟨t, log⟩ l ⟨u, log'⟩ ⟨ht, hstate, herror⟩ - hs
    obtain ⟨hstate', herror'⟩ := ht.step_stays hs
    refine ⟨decided_step ht hs, fun hend => ?_, fun e he => herror' e (herror e he)⟩
    have hsame := hstate hend
    refine (hstate' ?_).trans hsame
    unfold SessionInner.Terminal at hend ⊢
    rwa [hsame]
  exact hall.2

theorem Decided.unlocked (h : Decided s log) (hlock : s.terminalLock = false) :
    (s.terminalError.isSome ↔ s.state = .Failed) ∧
      ∀ e, s.terminalError = some e → Won s log (.failed e) := by
  have hwon : ∀ T, Stored s log T → Won s log T := by
    rintro T (hlog | ⟨n, p, ⟨pc, hn, hpc⟩, hp⟩)
    · exact .inl hlog
    · exact .inr ⟨n, pc, p, hn, hpc, stored_winning hp⟩
  refine ⟨⟨fun hsome => ?_, fun hfailed => ?_⟩, fun e he => hwon _ (h.error e he)⟩
  · obtain ⟨e, he⟩ := Option.isSome_iff_exists.mp hsome
    exact (h.stored _ (h.error e he)).1
  · rcases h.failed hfailed with hsome | ⟨n, T, hat⟩
    · exact Option.isSome_iff_ne_none.mpr hsome
    · cases h.free hlock n T _ hat

theorem Walk.shape {l : List SessionState} {state : SessionState} (h : Walk l state) :
    ∃ path final, l = path ++ final ∧ path <+: [.Handshaking, .Ready, .Draining] ∧
      (final = [] ∨ final = [.Closed] ∨ final = [.Failed]) := by
  have hpath : ∀ state : SessionState,
      SessionState.path state <+: [.Handshaking, .Ready, .Draining] := by
    intro state
    cases state <;> decide
  cases h with
  | created => exact ⟨[], [], rfl, hpath .Created, .inl rfl⟩
  | handshaking => exact ⟨[.Handshaking], [], rfl, hpath .Handshaking, .inl rfl⟩
  | ready => exact ⟨[.Handshaking, .Ready], [], rfl, hpath .Ready, .inl rfl⟩
  | draining => exact ⟨[.Handshaking, .Ready, .Draining], [], rfl, hpath .Draining, .inl rfl⟩
  | @ended l state terminal walk live =>
    rw [walk.path_of_live live]
    refine ⟨_, _, rfl, hpath state, .inr ?_⟩
    cases terminal with
    | failed => exact .inr rfl
    | closed => exact .inl rfl

end Decided

/-- The states of a session form a path with at most one terminal state at its end; one terminal
transition has returned `true` or is about to exactly when the state is terminal; under a free lock the
error is there exactly when the session has failed, and is the winner's; and a terminal state and its
error never change, so that an observer may read them in either order. -/
theorem terminal_winner (config : ProcessHostConfig) (s : SessionInner) (log : List Verdict)
    (h : Reach chronicle anyStep (SessionInner.new config, []) (s, log)) :
    (∃ path final, states log = path ++ final ∧ path <+: [.Handshaking, .Ready, .Draining] ∧
      (final = [] ∨ final = [.Closed] ∨ final = [.Failed])) ∧
    log.countP Verdict.won + s.threads.countP Pc.winning = (if s.Terminal then 1 else 0) ∧
    (s.terminalLock = false → (s.terminalError.isSome ↔ s.state = .Failed) ∧
      ∀ e, s.terminalError = some e → Won s log (.failed e)) ∧
    (∀ t log', Reach chronicle anyStep (s, log) (t, log') →
      (s.Terminal → t.state = s.state) ∧
      (∀ e, s.terminalError = some e → t.terminalError = some e) ∧
      (s.Terminal → s.terminalLock = false → t.terminalError = s.terminalError)) := by
  have hd : Decided s log := decided_reach h
  refine ⟨hd.walk.shape, hd.count, hd.unlocked, fun t log' hr => ?_⟩
  obtain ⟨hstate, herror⟩ := hd.stays hr
  refine ⟨hstate, herror, fun hend hlock => ?_⟩
  have hd' : Decided t log' := decided_reach (h.trans hr)
  cases he : s.terminalError with
  | some e => exact herror e he
  | none =>
    -- without an error the session is closed, and stays so
    have hclosed : t.state = .Closed := by
      rw [hstate hend]
      refine hend.resolve_right fun hfailed => ?_
      have hsome := (hd.unlocked hlock).1.mpr hfailed
      rw [he] at hsome
      contradiction
    cases he' : t.terminalError with
    | none => rfl
    | some e =>
      have hfailed := (hd'.stored _ (hd'.error e he')).1
      rw [hclosed] at hfailed
      cases hfailed

/-- A close that loses against a failure which has not yet stored its error. -/
def lostCloseRun : List Label :=
  Label.terminate (.failed ⟨.TransportClosed, ""⟩) :: .terminate .closed :: List.replicate 3 (Label.run 0 false) ++
    [Label.run 0 false, .run 1 false, .run 1 false]

def lostClose : SessionInner × List Verdict :=
  (run chronicle (.new .default, []) lostCloseRun).getD (.new .default, [])

theorem lostClose_reached : Reach chronicle anyStep (SessionInner.new .default, []) lostClose := by
  have hrun : run chronicle (SessionInner.new .default, []) lostCloseRun = some lostClose := rfl
  exact reach_of_run hrun

theorem terminal_winner_lostClose :
    lostClose.2.countP Verdict.won + lostClose.1.threads.countP Pc.winning = 1 ∧
      Won lostClose.1 lostClose.2 (.failed ⟨.TransportClosed, ""⟩) := by
  obtain ⟨-, hcount, hlock, -⟩ :=
    terminal_winner .default lostClose.1 lostClose.2 lostClose_reached
  exact ⟨hcount, (hlock rfl).2 _ rfl⟩

end Cordis.Session
