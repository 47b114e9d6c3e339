import Cordis.Host.Actors
import Cordis.Host.Pending
import Cordis.Host.RoundTrip

/-!
# A graceful close

What happens to a session whose child answers the live `Shutdown` and then exits with success. The
acknowledgement travels through the pipe, the reader and a `dispatch_response`; the exit status through
the supervisor; the end of the output through the reader again. `Graceful` says which steps the child,
the owner and the actors take in such a run, and `Closing` is what all these steps keep.
-/

namespace Cordis.Actors

open Protocol Session Machine

/-! ## The steps of a graceful close -/

/-- The registration of a `shutdown` is live under this id. -/
def Live (s : SessionInner) (id : Nat) : Prop :=
  ∃ n w pc, s.role n = .registered id w ∧ (id, ⟨n, .ShutdownAck⟩) ∈ s.pending ∧
    s.threads[n]? = some (.call .shutdown pc)

/-- The frame of a `ShutdownAck`. -/
def IsAck (id : UInt64) (payload : List UInt8) : Prop :=
  ∃ limit, encode (.ShutdownAck id) limit = .ok payload

/-- A `dispatch_response` that has not looked into the map yet. -/
def DispatchPc.Fresh : DispatchPc → Prop
  | .check | .remove => True
  | _ => False

/-- A `dispatch_response` that has accepted, or is about to, what it took out of the map. -/
def DispatchPc.Took (pc : DispatchPc) (entry : PendingEntry) : Prop :=
  pc = .judge entry ∨ pc = .acknowledge entry

/-- The answer to the live `Shutdown` is in the pipe or in the hands of the reader. -/
inductive OnItsWay (h : Host) : Prop
  | piped {id : UInt64} {payload : List UInt8} : payload ∈ h.stdout → IsAck id payload →
      Live h.session id.toNat → OnItsWay h
  | read {id : UInt64} {payload : List UInt8} : h.reader = .decode payload → IsAck id payload →
      Live h.session id.toNat → OnItsWay h
  | fresh {id : UInt64} {n : Nat} {pc : DispatchPc} : h.reader = .dispatching n →
      h.session.threads[n]? = some (.dispatch (.ShutdownAck id) pc) → DispatchPc.Fresh pc →
      Live h.session id.toNat → OnItsWay h
  | taken {n : Nat} {message : Message} {pc : DispatchPc} {entry : PendingEntry} :
      h.reader = .dispatching n → h.session.threads[n]? = some (.dispatch message pc) →
      DispatchPc.Took pc entry → entry.expected = .ShutdownAck → OnItsWay h

/-- The child has answered the live `Shutdown`. -/
def Answered (h : Host) : Prop := h.session.shutdownAcked = true ∨ OnItsWay h

/-- A response is in order: it is for an id that was issued, and accepted. -/
def Accepted (s : SessionInner) (message : Message) : DispatchPc → Prop
  | .check => message.id.toNat ≤ s.highestIssued
  | .judge entry => entry.expected.accepts message = true ∧ terminalRemote message = none
  | _ => True

/-- What the reader meets is in order: a frame within the limit it computed, that decodes. -/
def ReaderFits (h : Host) : Prop :=
  (∀ limit payload rest, h.reader = .read limit → h.stdout = payload :: rest →
    payload.length ≤ limit) ∧
  ∀ payload, h.reader = .decode payload →
    ¬ (payloadIsControl payload ∧ payload.length > h.session.maxControlBytes) ∧
      ∃ message, decode payload h.session.limits = .ok message

/-- What the writer does is in order: a message within its limit, and a child that still reads. -/
def WriterFits (h : Host) : Prop :=
  (∀ message, h.writer = .encode message → ∃ payload, encode message
    (writerLimit h.session.state h.session.limits h.session.maxControlBytes message) = .ok payload ∧
      payload.length ≤ U32_MAX) ∧
  ∀ payload, h.writer = .write payload → h.stdinOpen = true

/-- A step of a graceful close. Nobody forces the termination and no future of a `shutdown` is dropped.
The child answers the live `Shutdown` before it closes its output and exits, and exits with success;
every frame of it is in order. The writer has no error, and the supervisor looks at `shutdown_acked`
only once it is stored. -/
def Graceful (h : Host) : Label → Prop
  | .force | .waitError => False
  | .closeOutput torn => torn = false ∧ Answered h
  | .exit success => success = true ∧ Answered h
  | .drop n => ∀ pc, h.session.threads[n]? ≠ some (.call .shutdown pc)
  | .run n _ => ∀ message pc, h.session.threads[n]? = some (.dispatch message pc) →
      Accepted h.session message pc
  | .reader _ => ReaderFits h
  | .writer .. => WriterFits h
  | .supervisor _ => h.supervisor = .exited (some true) → h.session.shutdownAcked = true
  | .call _ | .negotiate _ | .respond _ | .closeInput => True

/-! ## What threads that terminate nothing do -/

/-- How the state of a session changes without a terminal transition. -/
inductive Advances (a : SessionState) : SessionState → Prop
  | refl : Advances a a
  | handshake : a = .Created → Advances a .Handshaking
  | ready : a = .Handshaking → Advances a .Ready
  | drain : a = .Ready → Advances a .Draining

/-- A step that terminates nothing. -/
structure Steady (s t : SessionInner) : Prop where
  state : Advances s.state t.state
  acked : s.shutdownAcked = true → t.shutdownAcked = true
  actorStop : t.actorStop = s.actorStop
  force : t.force = s.force
  receiving : t.receiving = s.receiving
  terminalLock : t.terminalLock = s.terminalLock

namespace Steady

theorem refl (s : SessionInner) : Steady s s := ⟨.refl, id, rfl, rfl, rfl, rfl⟩

variable {s t : SessionInner}

theorem closed (h : Steady s t) (hs : s.state = .Closed) : t.state = .Closed := by
  obtain ⟨hstate, -⟩ := h
  rw [hs] at hstate
  generalize t.state = b at hstate
  cases hstate with
  | refl => rfl
  | handshake h => cases h
  | ready h => cases h
  | drain h => cases h

theorem was_closed (h : Steady s t) (ht : t.state = .Closed) : s.state = .Closed := by
  obtain ⟨hstate, -⟩ := h
  rw [ht] at hstate
  generalize s.state = a at hstate
  cases hstate
  rfl

theorem not_failed (h : Steady s t) (hs : s.state ≠ .Failed) : t.state ≠ .Failed := by
  obtain ⟨hstate, -⟩ := h
  generalize t.state = b at hstate
  cases hstate with
  | refl => exact hs
  | handshake => simp
  | ready => simp
  | drain => simp

theorem leaving (h : Steady s t) (hs : s.state = .Draining ∨ s.state = .Closed) :
    t.state = .Draining ∨ t.state = .Closed := by
  rcases hs with hs | hs
  · left
    obtain ⟨hstate, -⟩ := h
    rw [hs] at hstate
    generalize t.state = b at hstate
    cases hstate with
    | refl => rfl
    | handshake h => cases h
    | ready h => cases h
    | drain h => cases h
  · exact .inr (h.closed hs)

end Steady

theorem stepBegin_steady (s : SessionInner) (op : Session.Operation) : Steady s (stepBegin s op).1 := by
  unfold stepBegin
  split
  · split_ifs with hs
    · exact ⟨.handshake hs, id, rfl, rfl, rfl, rfl⟩
    · exact .refl s
  · split_ifs with hs
    · exact ⟨.drain hs, id, rfl, rfl, rfl, rfl⟩
    · exact .refl s
  · split <;> exact .refl s
  · split <;> exact .refl s
  · exact .refl s

theorem stepCall_steady {s t : SessionInner} {n : Nat} {op : Session.Operation} {b : Bool}
    {pc pc' : CallPc} (h : stepCall s n op b pc = some (t, pc')) : Steady s t := by
  cases pc with
  | begin =>
    have hbegin := stepBegin_steady s op
    rwa [Option.some.inj h] at hbegin
  | checkState =>
    simp only [stepCall] at h
    split_ifs at h <;> cases h <;> exact .refl s
  | acquire =>
    simp only [stepCall] at h
    split_ifs at h <;> cases h
    · exact ⟨.refl, id, rfl, rfl, rfl, rfl⟩
    · exact ⟨.refl, id, rfl, rfl, rfl, rfl⟩
    · exact .refl s
  | checkAgain =>
    simp only [stepCall] at h
    split_ifs at h <;> cases h <;> exact .refl s
  | allocate =>
    simp only [stepCall] at h
    split_ifs at h <;> cases h <;> exact .refl s
  | exchange i =>
    simp only [stepCall] at h
    split_ifs at h <;> cases h
    · exact ⟨.refl, id, rfl, rfl, rfl, rfl⟩
    · exact .refl s
  | publish i =>
    cases h
    exact ⟨.refl, id, rfl, rfl, rfl, rfl⟩
  | register i =>
    cases h
    exact ⟨.refl, id, rfl, rfl, rfl, rfl⟩
  | recheck i =>
    simp only [stepCall] at h
    split_ifs at h <;> cases h <;> exact .refl s
  | enqueue i =>
    simp only [stepCall, stepEnqueue] at h
    split_ifs at h <;> cases h
    · exact ⟨.refl, id, rfl, rfl, rfl, rfl⟩
    all_goals exact .refl s
  | await i =>
    simp only [stepCall, stepAwait] at h
    split at h
    · cases h
      exact .refl s
    · split_ifs at h <;> cases h <;> exact .refl s
  | refuse held fallback =>
    simp only [stepCall] at h
    split_ifs at h
    cases h
    exact .refl s
  | unregister i result guarded =>
    cases h
    exact ⟨.refl, id, rfl, rfl, rfl, rfl⟩
  | cancel i result =>
    cases h
    unfold SessionInner.trySend
    split_ifs
    · exact ⟨.refl, id, rfl, rfl, rfl, rfl⟩
    · exact .refl s
    · exact .refl s
  | release result =>
    simp only [stepCall] at h
    split at h <;> cases h <;> exact ⟨.refl, id, rfl, rfl, rfl, rfl⟩
  | acknowledge result =>
    cases h
    exact ⟨.refl, fun _ => rfl, rfl, rfl, rfl, rfl⟩
  | ended result => cases h

theorem stepNegotiate_steady {s t : SessionInner} {limits : Limits} {pc pc' : NegotiatePc}
    (h : stepNegotiate s limits pc = some (t, pc')) : Steady s t := by
  cases pc with
  | check =>
    simp only [stepNegotiate] at h
    split at h
    · cases h
      exact .refl s
    · split_ifs at h <;> cases h <;> exact .refl s
  | forget shrink =>
    cases h
    exact ⟨.refl, id, rfl, rfl, rfl, rfl⟩
  | install =>
    cases h
    exact ⟨.refl, id, rfl, rfl, rfl, rfl⟩
  | ready =>
    simp only [stepNegotiate] at h
    split_ifs at h with hs <;> cases h
    · exact ⟨.ready hs, id, rfl, rfl, rfl, rfl⟩
    · exact .refl s
  | done accepted => cases h

/-- A `dispatch_response` that is not failing, and whose caller goes on. -/
def DispatchPc.Going : DispatchPc → Prop
  | .failing .. => False
  | .reply _ _ go | .done _ go => go = true
  | _ => True

theorem stepDispatch_accepted {s t : SessionInner} {message : Message} {pc pc' : DispatchPc}
    (hgoing : DispatchPc.Going pc) (hok : Accepted s message pc)
    (h : stepDispatch s message pc = some (t, pc')) : Steady s t ∧ DispatchPc.Going pc' := by
  cases pc with
  | check =>
    simp only [stepDispatch] at h
    rw [if_neg (not_lt.mpr hok)] at h
    cases h
    exact ⟨.refl s, trivial⟩
  | remove =>
    simp only [stepDispatch] at h
    split at h <;> cases h
    · exact ⟨.refl s, rfl⟩
    · exact ⟨⟨.refl, id, rfl, rfl, rfl, rfl⟩, trivial⟩
  | judge entry =>
    obtain ⟨haccepts, hremote⟩ := hok
    simp only [stepDispatch, haccepts, hremote] at h
    rw [if_neg (by simp)] at h
    split_ifs at h <;> cases h
    · exact ⟨.refl s, trivial⟩
    · exact ⟨.refl s, rfl⟩
  | failing error entry transition => exact hgoing.elim
  | acknowledge entry =>
    cases h
    exact ⟨⟨.refl, fun _ => rfl, rfl, rfl, rfl, rfl⟩, rfl⟩
  | reply entry reply go =>
    cases h
    exact ⟨⟨.refl, id, rfl, rfl, rfl, rfl⟩, hgoing⟩
  | done entry go => cases h

theorem stepCall_replies {s t : SessionInner} {n : Nat} {op : Session.Operation} {b : Bool}
    {pc pc' : CallPc} (h : stepCall s n op b pc = some (t, pc')) : t.replies = s.replies := by
  cases pc with
  | begin =>
    simp only [stepCall, stepBegin] at h
    repeat' split at h
    all_goals
      cases h
      rfl
  | cancel i result =>
    cases h
    unfold SessionInner.trySend
    split_ifs <;> rfl
  | _ =>
    simp only [stepCall, stepEnqueue, stepAwait] at h
    repeat' split at h
    all_goals
      cases h
      try rfl

/-! ## The invariant -/

/-- A call that has got past the exchange of the state with which `shutdown` begins. -/
def CallPc.Begun : CallPc → Prop
  | .begin | .refuse .nothing _ | .ended _ => False
  | _ => True

/-- A transition to `Closed`, against the state of the session. -/
def TransitionPc.Sound (s : SessionInner) : TransitionPc → Prop
  | .lock | .load => True
  | .exchange current => current ≠ .Closed ∧ current ≠ .Failed
  | .force => False
  | _ => s.state = .Closed

/-- The transition holds the lock of `terminal_error`. -/
def TransitionPc.Locks : TransitionPc → Prop
  | .load | .exchange _ | .record => True
  | _ => False

/-- What thread `n` may be doing. Threads that run for an actor are waited for by it. -/
def Calm (h : Host) (n : Nat) : Pc → Prop
  | .call .shutdown pc =>
    CallPc.Begun pc → h.session.state = .Draining ∨ h.session.state = .Closed
  | .call .. | .negotiate .. => True
  | .dispatch message pc =>
    DispatchPc.Going pc ∧
      (finished (some (.dispatch message pc)) ≠ none ∨ h.reader = .dispatching n)
  | .terminate terminal pc =>
    (terminal = .closed ∧ h.session.shutdownAcked = true) ∧ TransitionPc.Sound h.session pc ∧
      (finished (some (.terminate terminal pc)) ≠ none ∨ h.supervisor = .transition n)

def ReaderCalm (h : Host) : Prop :=
  match h.reader with
  | .readFailed _ | .readFailedOpen _ => h.session.shutdownAcked = true
  | .dispatching n => ∃ message pc, h.session.threads[n]? = some (.dispatch message pc)
  | .failing _ => False
  | _ => True

def SupervisorCalm (h : Host) : Prop :=
  match h.supervisor with
  | .wait => True
  | .exited success => success = some true ∧ h.exitStatus = some true
  | .kill | .killed _ => False
  | .transition n => ∃ pc, h.session.threads[n]? = some (.terminate .closed pc)
  | .stop | .joinReader | .joinWriter | .ended => h.session.state = .Closed

/-- What every step of a graceful close keeps. -/
structure Closing (h : Host) : Prop where
  accounted : Accounted h.session
  threads : ∀ (n : Nat) (pc : Pc), h.session.threads[n]? = some pc → Calm h n pc
  state : h.session.state ≠ .Failed
  force : h.session.force = false
  /-- What comes after the acknowledgement. -/
  acked : h.session.state = .Closed ∨ h.session.actorStop = true ∨ h.session.receiving = false →
    h.session.shutdownAcked = true
  lock : h.session.terminalLock = true →
    ∃ (n : Nat) (terminal : Terminal) (pc : TransitionPc),
      h.session.threads[n]? = some (.terminate terminal pc) ∧ TransitionPc.Locks pc
  reader : ReaderCalm h
  writer : ∀ n, h.writer ≠ .failing n
  supervisor : SupervisorCalm h
  exit : h.exitStatus ≠ some false
  output : h.stdoutEnd ≠ none → Answered h

theorem Calm.mono {h h' : Host} {n : Nat} {pc : Pc} (hpc : Calm h n pc)
    (hleaving : h.session.state = .Draining ∨ h.session.state = .Closed →
      h'.session.state = .Draining ∨ h'.session.state = .Closed)
    (hclosed : h.session.state = .Closed → h'.session.state = .Closed)
    (hacked : h.session.shutdownAcked = true → h'.session.shutdownAcked = true)
    (hreader : h.reader = .dispatching n → finished (some pc) ≠ none ∨ h'.reader = .dispatching n)
    (hsupervisor : h.supervisor = .transition n →
      finished (some pc) ≠ none ∨ h'.supervisor = .transition n) : Calm h' n pc := by
  cases pc with
  | call op pc =>
    cases op with
    | shutdown => exact fun hbegun => hleaving (hpc hbegun)
    | _ => trivial
  | negotiate limits pc => trivial
  | dispatch message pc =>
    obtain ⟨hgoing, hwho⟩ := hpc
    exact ⟨hgoing, hwho.elim .inl hreader⟩
  | terminate terminal pc =>
    obtain ⟨⟨hterminal, ha⟩, hsound, hwho⟩ := hpc
    refine ⟨⟨hterminal, hacked ha⟩, ?_, hwho.elim .inl hsupervisor⟩
    cases pc with
    | lock => trivial
    | load => trivial
    | exchange current => exact hsound
    | record => exact hclosed hsound
    | drain => exact hclosed hsound
    | stop => exact hclosed hsound
    | force => exact hsound
    | notify => exact hclosed hsound
    | done won => exact hclosed hsound

/-! ## The answer stays on its way -/

/-- What a step that neither runs a thread nor moves the reader leaves of a session. -/
structure Extends (s t : SessionInner) : Prop where
  role : t.role = s.role
  pending : t.pending = s.pending
  threads : ∀ (n : Nat) (pc : Pc), s.threads[n]? = some pc → t.threads[n]? = some pc
  acked : s.shutdownAcked = true → t.shutdownAcked = true

theorem Extends.refl (s : SessionInner) : Extends s s := ⟨rfl, rfl, fun _ _ => id, id⟩

theorem Extends.spawn {s : SessionInner} {pc : Pc} (hpc : pc.role = .apart) :
    Extends s (s.spawn pc) where
  role := role_spawn hpc
  pending := rfl
  threads n p hn := by
    obtain ⟨hlt, -⟩ := List.getElem?_eq_some_iff.mp hn
    show (s.threads ++ [pc])[n]? = some p
    rw [List.getElem?_append_left hlt, hn]
  acked := id

theorem Live.extends {s t : SessionInner} {id : Nat} (h : Live s id) (hext : Extends s t) :
    Live t id := by
  obtain ⟨n, w, pc, hrole, hmem, hn⟩ := h
  refine ⟨n, w, pc, ?_, ?_, hext.threads n _ hn⟩
  · rw [hext.role]
    exact hrole
  · rw [hext.pending]
    exact hmem

theorem Answered.extends {h h' : Host} (hans : Answered h) (hext : Extends h.session h'.session)
    (hreader : h'.reader = h.reader) (hstdout : ∀ payload ∈ h.stdout, payload ∈ h'.stdout) :
    Answered h' := by
  rcases hans with hacked | hway
  · exact .inl (hext.acked hacked)
  · right
    cases hway with
    | piped hmem hack hlive => exact .piped (hstdout _ hmem) hack (hlive.extends hext)
    | read hread hack hlive => exact .read (hreader.trans hread) hack (hlive.extends hext)
    | fresh hread hn hfresh hlive =>
      exact .fresh (hreader.trans hread) (hext.threads _ _ hn) hfresh (hlive.extends hext)
    | taken hread hn htook hexpected =>
      exact .taken (hreader.trans hread) (hext.threads _ _ hn) htook hexpected

theorem Answered.idle {h h' : Host} (hans : Answered h) (hext : Extends h.session h'.session)
    (hdecode : ∀ payload, h.reader ≠ .decode payload) (hdispatch : ∀ n, h.reader ≠ .dispatching n)
    (hstdout : ∀ payload ∈ h.stdout, payload ∈ h'.stdout) : Answered h' := by
  rcases hans with hacked | hway
  · exact .inl (hext.acked hacked)
  · cases hway with
    | piped hmem hack hlive => exact .inr (.piped (hstdout _ hmem) hack (hlive.extends hext))
    | read hread => exact absurd hread (hdecode _)
    | fresh hread => exact absurd hread (hdispatch _)
    | taken hread => exact absurd hread (hdispatch _)

/-- Once everything that the child wrote is dispatched, the answer is acknowledged. -/
theorem Answered.acked {h : Host} (hans : Answered h) (hdecode : ∀ payload, h.reader ≠ .decode payload)
    (hdispatch : ∀ n, h.reader ≠ .dispatching n) (hstdout : h.stdout = []) :
    h.session.shutdownAcked = true := by
  rcases hans with hacked | hway
  · exact hacked
  · cases hway with
    | piped hmem =>
      rw [hstdout] at hmem
      cases hmem
    | read hread => exact absurd hread (hdecode _)
    | fresh hread => exact absurd hread (hdispatch _)
    | taken hread => exact absurd hread (hdispatch _)

/-! ## Steps of the owner, the child, the writer and the supervisor -/

theorem Closing.extends {h h' : Host} (hinv : Closing h) (haccounted : Accounted h'.session)
    (hext : Extends h.session h'.session)
    (hnew : ∀ (n : Nat) (pc : Pc), h'.session.threads[n]? = some pc →
      h.session.threads[n]? = some pc ∨ Calm h' n pc)
    (hstate : h'.session.state = h.session.state) (hforce : h'.session.force = h.session.force)
    (hlock : h'.session.terminalLock = h.session.terminalLock)
    (hacked : h'.session.actorStop = true ∨ h'.session.receiving = false →
      h.session.shutdownAcked = true)
    (hreader : h'.reader = h.reader) (hwriter : ∀ n, h'.writer ≠ .failing n)
    (htransition : ∀ n, h.supervisor = .transition n →
      finished h.session.threads[n]? ≠ none ∨ h'.supervisor = .transition n)
    (hsupervisor : SupervisorCalm h') (hexit : h'.exitStatus ≠ some false)
    (hstdout : ∀ payload ∈ h.stdout, payload ∈ h'.stdout)
    (houtput : h'.stdoutEnd ≠ none → h.stdoutEnd ≠ none ∨ Answered h) : Closing h' where
  accounted := haccounted
  threads n pc hn := by
    rcases hnew n pc hn with hold | hcalm
    · refine (hinv.threads n pc hold).mono ?_ ?_ hext.acked ?_ ?_
      · rw [hstate]
        exact id
      · rw [hstate]
        exact id
      · rw [hreader]
        exact .inr
      · intro hsup
        rw [← hold]
        exact htransition n hsup
    · exact hcalm
  state := by
    rw [hstate]
    exact hinv.state
  force := by
    rw [hforce]
    exact hinv.force
  acked hor := by
    apply hext.acked
    rcases hor with hclosed | hor
    · rw [hstate] at hclosed
      exact hinv.acked (.inl hclosed)
    · exact hacked hor
  lock hl := by
    rw [hlock] at hl
    obtain ⟨n, terminal, pc, hn, hlocks⟩ := hinv.lock hl
    exact ⟨n, terminal, pc, hext.threads n _ hn, hlocks⟩
  reader := by
    have hold := hinv.reader
    unfold ReaderCalm at hold ⊢
    rw [hreader]
    generalize h.reader = r at hold
    cases r with
    | readFailed error => exact hext.acked hold
    | readFailedOpen error => exact hext.acked hold
    | dispatching n =>
      obtain ⟨message, pc, hn⟩ := hold
      exact ⟨message, pc, hext.threads n _ hn⟩
    | failing n => exact hold
    | _ => trivial
  writer := hwriter
  supervisor := hsupervisor
  exit := hexit
  output hend := by
    have hans : Answered h := (houtput hend).elim hinv.output id
    exact hans.extends hext hreader hstdout

theorem SupervisorCalm.extends {h h' : Host} (hsup : SupervisorCalm h)
    (hext : Extends h.session h'.session) (hstate : h'.session.state = h.session.state)
    (hsame : h'.supervisor = h.supervisor)
    (hexit : h.exitStatus = some true → h'.exitStatus = some true) : SupervisorCalm h' := by
  unfold SupervisorCalm at hsup ⊢
  rw [hsame]
  generalize h.supervisor = v at hsup
  cases v with
  | wait => trivial
  | exited success => exact ⟨hsup.1, hexit hsup.2⟩
  | kill => exact hsup
  | killed reaped => exact hsup
  | transition n =>
    obtain ⟨pc, hn⟩ := hsup
    exact ⟨pc, hext.threads n _ hn⟩
  | _ => exact hstate.trans hsup

theorem Closing.outside {h h' : Host} (hinv : Closing h) (hsession : h'.session = h.session)
    (hreader : h'.reader = h.reader) (hwriter : h'.writer = h.writer)
    (hsupervisor : h'.supervisor = h.supervisor)
    (hstdout : ∀ payload ∈ h.stdout, payload ∈ h'.stdout)
    (hexit : h'.exitStatus = h.exitStatus ∨ h'.exitStatus = some true)
    (houtput : h'.stdoutEnd ≠ none → h.stdoutEnd ≠ none ∨ Answered h) : Closing h' := by
  have hext : Extends h.session h'.session := by
    rw [hsession]
    exact .refl _
  apply hinv.extends (by rw [hsession]; exact hinv.accounted) hext
  · intro n pc hn
    left
    rwa [hsession] at hn
  · rw [hsession]
  · rw [hsession]
  · rw [hsession]
  · rw [hsession]
    exact fun hor => hinv.acked (.inr hor)
  · exact hreader
  · rw [hwriter]
    exact hinv.writer
  · intro n hn
    exact .inr (hsupervisor.trans hn)
  · refine hinv.supervisor.extends hext (by rw [hsession]) hsupervisor fun hold => ?_
    exact hexit.elim (fun h => h.trans hold) id
  · intro hbad
    rcases hexit with hexit | hexit
    · exact hinv.exit (hexit.symm.trans hbad)
    · rw [hexit] at hbad
      cases hbad
  · exact hstdout
  · exact houtput

theorem new_thread {s : SessionInner} {new pc : Pc} {n : Nat}
    (hn : (s.spawn new).threads[n]? = some pc) :
    s.threads[n]? = some pc ∨ n = s.threads.length ∧ pc = new := by
  have hn' : (s.threads ++ [new])[n]? = some pc := hn
  rcases Nat.lt_or_ge n s.threads.length with hlt | hge
  · left
    rwa [List.getElem?_append_left hlt] at hn'
  · right
    rw [List.getElem?_append_right hge] at hn'
    obtain ⟨hlt, -⟩ := List.getElem?_eq_some_iff.mp hn'
    have hzero : n - s.threads.length = 0 := by
      rw [List.length_singleton] at hlt
      omega
    rw [hzero] at hn'
    exact ⟨by omega, (Option.some.inj hn').symm⟩

theorem Closing.spawn {h : Host} (hinv : Closing h) {pc : Pc} (hrole : pc.role = .apart)
    (hcalm : ∀ n h', Calm h' n pc) : Closing { h with session := h.session.spawn pc } := by
  apply hinv.extends (hinv.accounted.spawn hrole) (.spawn hrole)
  · intro n p hn
    rcases new_thread hn with hold | ⟨-, rfl⟩
    · exact .inl hold
    · exact .inr (hcalm n _)
  · rfl
  · rfl
  · rfl
  · exact fun hor => hinv.acked (.inr hor)
  · rfl
  · exact hinv.writer
  · exact fun n => .inr
  · exact hinv.supervisor.extends (.spawn hrole) rfl rfl id
  · exact hinv.exit
  · exact fun payload => id
  · exact .inl

theorem Closing.writerMoves {h h' : Host} (hinv : Closing h)
    (huntouched : Untouched h.session h'.session) (hthreads : h'.session.threads = h.session.threads)
    (hstate : h'.session.state = h.session.state) (hforce : h'.session.force = h.session.force)
    (hlock : h'.session.terminalLock = h.session.terminalLock)
    (hsame : h'.session.shutdownAcked = h.session.shutdownAcked)
    (hacked : h'.session.actorStop = true ∨ h'.session.receiving = false →
      h.session.shutdownAcked = true)
    (hreader : h'.reader = h.reader) (hwriter : ∀ n, h'.writer ≠ .failing n)
    (hsupervisor : h'.supervisor = h.supervisor) (hexit : h'.exitStatus = h.exitStatus)
    (hstdout : h'.stdout = h.stdout) (houtput : h'.stdoutEnd = h.stdoutEnd) : Closing h' := by
  have hrole : h'.session.role = h.session.role := by
    funext n
    unfold SessionInner.role
    rw [hthreads]
  have hext : Extends h.session h'.session := by
    refine ⟨hrole, huntouched.pending, ?_, ?_⟩
    · rw [hthreads]
      exact fun n pc => id
    · rw [hsame]
      exact id
  have haccounted : Accounted h'.session := by
    refine hinv.accounted.quiet huntouched hrole fun hdrained => ?_
    obtain ⟨hterminal, hdrained⟩ := hdrained
    unfold SessionInner.Terminal at hterminal
    rw [hstate] at hterminal
    rw [hthreads] at hdrained
    exact ⟨hterminal, hdrained⟩
  apply hinv.extends haccounted hext
  · rw [hthreads]
    exact fun n pc => .inl
  · exact hstate
  · exact hforce
  · exact hlock
  · exact hacked
  · exact hreader
  · exact hwriter
  · exact fun n hn => .inr (hsupervisor.trans hn)
  · exact hinv.supervisor.extends hext hstate hsupervisor fun hold => hexit.trans hold
  · rw [hexit]
    exact hinv.exit
  · rw [hstdout]
    exact fun payload => id
  · rw [houtput]
    exact .inl

theorem Closing.writer_step {h h' : Host} (hinv : Closing h) {stop : Bool} {nanos : UInt64}
    (hok : WriterFits h) (hs : stepWriter h stop nanos = some h') : Closing h' := by
  have hstop := hinv.acked
  unfold stepWriter at hs
  split at hs
  · split at hs
    · split_ifs at hs with hstopped
      cases hs
      refine hinv.writerMoves ⟨rfl, rfl, rfl⟩ rfl rfl rfl rfl rfl ?_ rfl ?_ rfl rfl rfl rfl
      · exact fun _ => hstop (.inr (.inl hstopped))
      · exact nofun
    · split at hs
      · cases hs
        refine hinv.writerMoves ⟨rfl, rfl, rfl⟩ rfl rfl rfl rfl rfl ?_ rfl ?_ rfl rfl rfl rfl
        · exact fun hor => hstop (.inr hor)
        · exact nofun
      · cases hs
  · rename_i message hwriter
    obtain ⟨payload, hencode, hfit⟩ := hok.1 message hwriter
    rw [hencode] at hs
    dsimp only at hs
    rw [if_pos hfit] at hs
    cases hs
    refine hinv.writerMoves (.refl _) rfl rfl rfl rfl rfl ?_ rfl ?_ rfl rfl rfl rfl
    · exact fun hor => hstop (.inr hor)
    · exact nofun
  · rename_i payload hwriter
    rw [if_pos (hok.2 payload hwriter)] at hs
    cases hs
    refine hinv.writerMoves (.refl _) rfl rfl rfl rfl rfl ?_ rfl ?_ rfl rfl rfl rfl
    · exact fun hor => hstop (.inr hor)
    · exact nofun
  · rename_i n hwriter
    exact absurd hwriter (hinv.writer n)
  · cases hs

theorem Closing.supervisorMoves {h h' : Host} (hinv : Closing h)
    (hsession : h'.session = h.session) (hreader : h'.reader = h.reader)
    (hwriter : h'.writer = h.writer) (hexit : h'.exitStatus = h.exitStatus)
    (hstdout : h'.stdout = h.stdout) (houtput : h'.stdoutEnd = h.stdoutEnd)
    (htransition : ∀ n, h.supervisor = .transition n → finished h.session.threads[n]? ≠ none)
    (hsupervisor : SupervisorCalm h') : Closing h' := by
  have hext : Extends h.session h'.session := by
    rw [hsession]
    exact .refl _
  apply hinv.extends (by rw [hsession]; exact hinv.accounted) hext
  · rw [hsession]
    exact fun n pc => .inl
  · rw [hsession]
  · rw [hsession]
  · rw [hsession]
  · rw [hsession]
    exact fun hor => hinv.acked (.inr hor)
  · exact hreader
  · rw [hwriter]
    exact hinv.writer
  · exact fun n hn => .inl (htransition n hn)
  · exact hsupervisor
  · rw [hexit]
    exact hinv.exit
  · rw [hstdout]
    exact fun payload => id
  · rw [houtput]
    exact .inl

theorem Closing.closed_of_finished {h : Host} (hinv : Closing h) {n : Nat} {pc : TransitionPc}
    {go : Bool} (hn : h.session.threads[n]? = some (.terminate .closed pc))
    (hfinished : finished h.session.threads[n]? = some go) : h.session.state = .Closed := by
  obtain ⟨-, hsound, -⟩ := hinv.threads n _ hn
  rw [hn] at hfinished
  cases pc with
  | done won => exact hsound
  | _ => cases hfinished

theorem Closing.supervisor_step {h h' : Host} (hinv : Closing h) {other : Bool}
    (hok : h.supervisor = .exited (some true) → h.session.shutdownAcked = true)
    (hs : stepSupervisor h other = some h') : Closing h' := by
  have hcalm := hinv.supervisor
  unfold SupervisorCalm at hcalm
  unfold stepSupervisor at hs
  cases hsup : h.supervisor with
  | wait =>
    simp only [hsup] at hs
    split_ifs at hs with hother hforce
    · rw [hinv.force] at hforce
      cases hforce
    · obtain ⟨success, hexit, rfl⟩ := Option.map_eq_some_iff.mp hs
      refine hinv.supervisorMoves rfl rfl rfl rfl rfl rfl ?_ ?_
      · rw [hsup]
        exact nofun
      · have htrue : success = true := by
          cases success with
          | true => rfl
          | false => exact absurd hexit hinv.exit
        rw [htrue] at hexit
        exact ⟨by rw [htrue], hexit⟩
  | exited success =>
    simp only [hsup] at hcalm
    obtain ⟨rfl, hexit⟩ := hcalm
    simp only [hsup] at hs
    rw [if_pos (hok hsup)] at hs
    cases hs
    have hacked := hok hsup
    have hext : Extends h.session (h.session.spawn (.terminate .closed .lock)) := .spawn rfl
    refine hinv.extends (hinv.accounted.spawn rfl) hext ?_ rfl rfl rfl ?_ rfl hinv.writer ?_ ?_
      hinv.exit (fun payload => id) .inl
    · intro n p hn
      rcases new_thread hn with hold | ⟨rfl, rfl⟩
      · exact .inl hold
      · exact .inr ⟨⟨rfl, hacked⟩, trivial, .inr rfl⟩
    · exact fun _ => hacked
    · rw [hsup]
      exact nofun
    · refine ⟨.lock, ?_⟩
      show (h.session.threads ++ [_])[h.session.threads.length]? = _
      rw [List.getElem?_append_right le_rfl, Nat.sub_self]
      rfl
  | kill =>
    simp only [hsup] at hcalm
  | killed reaped =>
    simp only [hsup] at hcalm
  | transition n =>
    simp only [hsup] at hcalm hs
    obtain ⟨pc, hn⟩ := hcalm
    obtain ⟨go, hfinished, rfl⟩ := Option.map_eq_some_iff.mp hs
    refine hinv.supervisorMoves rfl rfl rfl rfl rfl rfl ?_ ?_
    · intro m hm
      rw [hsup] at hm
      cases hm
      rw [hfinished]
      exact nofun
    · exact hinv.closed_of_finished hn hfinished
  | stop =>
    simp only [hsup] at hcalm hs
    cases hs
    have hacked := hinv.acked (.inl hcalm)
    have hext : Extends h.session { h.session with actorStop := true } := ⟨rfl, rfl, fun n pc => id, id⟩
    refine hinv.extends (hinv.accounted.quiet ⟨rfl, rfl, rfl⟩ rfl id) hext (fun n pc => .inl) rfl rfl
      rfl (fun _ => hacked) rfl hinv.writer ?_ hcalm hinv.exit (fun payload => id) .inl
    rw [hsup]
    exact nofun
  | joinReader =>
    simp only [hsup] at hcalm hs
    split_ifs at hs
    cases hs
    refine hinv.supervisorMoves rfl rfl rfl rfl rfl rfl ?_ ?_
    · rw [hsup]
      exact nofun
    · exact hcalm
  | joinWriter =>
    simp only [hsup] at hcalm hs
    split_ifs at hs
    cases hs
    refine hinv.supervisorMoves rfl rfl rfl rfl rfl rfl ?_ ?_
    · rw [hsup]
      exact nofun
    · exact hcalm
  | ended =>
    simp only [hsup] at hs
    cases hs

/-! ## Steps of the reader -/

theorem Closing.readerMoves {h : Host} (hinv : Closing h) (r : ReaderPc) (l : List (List UInt8))
    (hdone : ∀ n, h.reader = .dispatching n → finished h.session.threads[n]? ≠ none)
    (hreader : ReaderCalm { h with reader := r, stdout := l })
    (hans : Answered h → Answered { h with reader := r, stdout := l }) :
    Closing { h with reader := r, stdout := l } where
  accounted := hinv.accounted
  threads n pc hn := by
    refine (hinv.threads n pc hn).mono id id id ?_ .inr
    intro hread
    have hfinished := hdone n hread
    rw [show h.session.threads[n]? = some pc from hn] at hfinished
    exact .inl hfinished
  state := hinv.state
  force := hinv.force
  acked := hinv.acked
  lock := hinv.lock
  reader := hreader
  writer := hinv.writer
  supervisor := hinv.supervisor
  exit := hinv.exit
  output hend := hans (hinv.output hend)

theorem Answered.dispatched {h : Host} {n : Nat} {go : Bool} (hans : Answered h)
    (hread : h.reader = .dispatching n) (hfinished : finished h.session.threads[n]? = some go) :
    Answered { h with reader := .limit } := by
  have hdone : ∀ m message pc, h.reader = .dispatching m →
      h.session.threads[m]? = some (.dispatch message pc) → ∃ entry go, pc = .done entry go := by
    intro m message pc hm hpc
    rw [hread] at hm
    cases hm
    rw [hpc] at hfinished
    cases pc with
    | done entry go => exact ⟨entry, go, rfl⟩
    | _ => cases hfinished
  rcases hans with hacked | hway
  · exact .inl hacked
  · cases hway with
    | piped hmem hack hlive => exact .inr (.piped hmem hack hlive)
    | read hdecode =>
      rw [hread] at hdecode
      cases hdecode
    | fresh hm hpc hfresh =>
      obtain ⟨entry, go, rfl⟩ := hdone _ _ _ hm hpc
      exact hfresh.elim
    | taken hm hpc htook =>
      obtain ⟨entry, go, rfl⟩ := hdone _ _ _ hm hpc
      rcases htook with htook | htook <;> cases htook

theorem Closing.dispatch {h : Host} (hinv : Closing h) {payload : List UInt8} {message : Message}
    (hread : h.reader = .decode payload) (hmessage : decode payload h.session.limits = .ok message) :
    Closing { h with
      session := h.session.spawn (.dispatch message .check)
      reader := .dispatching h.session.threads.length } where
  accounted := hinv.accounted.spawn rfl
  threads n pc hn := by
    rcases new_thread hn with hold | ⟨rfl, rfl⟩
    · refine (hinv.threads n pc hold).mono id id id ?_ .inr
      rw [hread]
      exact nofun
    · exact ⟨trivial, .inr rfl⟩
  state := hinv.state
  force := hinv.force
  acked := hinv.acked
  lock hl := by
    obtain ⟨n, terminal, pc, hn, hlocks⟩ := hinv.lock hl
    exact ⟨n, terminal, pc, (Extends.spawn rfl).threads n _ hn, hlocks⟩
  reader := ⟨message, .check, by
    show (h.session.threads ++ [_])[h.session.threads.length]? = _
    rw [List.getElem?_append_right le_rfl, Nat.sub_self]
    rfl⟩
  writer := hinv.writer
  supervisor := hinv.supervisor.extends (.spawn rfl) rfl rfl id
  exit := hinv.exit
  output hend := by
    have hext : Extends h.session (h.session.spawn (.dispatch message .check)) := .spawn rfl
    rcases hinv.output hend with hacked | hway
    · exact .inl hacked
    · cases hway with
      | piped hmem hack hlive => exact .inr (.piped hmem hack (hlive.extends hext))
      | @read id payload' hdecode hack hlive =>
        rw [hread] at hdecode
        cases hdecode
        obtain ⟨limit, hencode⟩ := hack
        have hbounded : Message.Bounded h.session.limits (.ShutdownAck id) := trivial
        have hsame := decode_encode hbounded hencode
        rw [hmessage] at hsame
        cases hsame
        have hfresh : DispatchPc.Fresh .check := trivial
        refine .inr (.fresh rfl ?_ hfresh (hlive.extends hext))
        show (h.session.threads ++ [_])[h.session.threads.length]? = _
        rw [List.getElem?_append_right le_rfl, Nat.sub_self]
        rfl
      | fresh hbad =>
        rw [hread] at hbad
        cases hbad
      | taken hbad =>
        rw [hread] at hbad
        cases hbad

theorem Closing.reader_step {h h' : Host} (hinv : Closing h) {stop : Bool} (hok : ReaderFits h)
    (hs : stepReader h stop = some h') : Closing h' := by
  have hcalm := hinv.reader
  unfold ReaderCalm at hcalm
  unfold stepReader at hs
  cases hread : h.reader with
  | limit =>
    simp only [hread] at hs
    cases hs
    refine hinv.readerMoves _ h.stdout (by rw [hread]; exact nofun) trivial fun hans => ?_
    exact hans.idle (.refl _) (by rw [hread]; exact nofun) (by rw [hread]; exact nofun) fun _ => id
  | read limit =>
    have hdecode : ∀ payload, h.reader ≠ .decode payload := by
      rw [hread]
      exact nofun
    have hdispatch : ∀ n, h.reader ≠ .dispatching n := by
      rw [hread]
      exact nofun
    have hdone : ∀ n, h.reader = .dispatching n → finished h.session.threads[n]? ≠ none :=
      fun n hn => absurd hn (hdispatch n)
    simp only [hread] at hs
    split_ifs at hs with hstop hstopped
    · cases hs
      exact hinv.readerMoves _ h.stdout hdone trivial fun hans =>
        hans.idle (.refl _) hdecode hdispatch fun _ => id
    · cases hout : h.stdout with
      | cons payload rest =>
        simp only [hout] at hs
        rw [if_neg (not_lt.mpr (hok.1 limit payload rest hread hout))] at hs
        cases hs
        refine hinv.readerMoves _ rest hdone trivial fun hans => ?_
        rcases hans with hacked | hway
        · exact .inl hacked
        · cases hway with
          | piped hmem hack hlive =>
            -- the answer is the frame that is read now, or behind it
            rw [hout] at hmem
            rcases List.mem_cons.mp hmem with rfl | hrest
            · exact .inr (.read rfl hack hlive)
            · exact .inr (.piped hrest hack hlive)
          | read hbad => exact absurd hbad (hdecode _)
          | fresh hbad => exact absurd hbad (hdispatch _)
          | taken hbad => exact absurd hbad (hdispatch _)
      | nil =>
        simp only [hout] at hs
        obtain ⟨error, hend, rfl⟩ := Option.map_eq_some_iff.mp hs
        have hans : Answered h := by
          apply hinv.output
          rw [hend]
          exact nofun
        have hacked := hans.acked hdecode hdispatch hout
        exact hinv.readerMoves (.readFailed error) [] hdone hacked fun _ => .inl hacked
  | readFailed error =>
    simp only [hread] at hcalm hs
    have hdone : ∀ n, h.reader = .dispatching n → finished h.session.threads[n]? ≠ none := by
      rw [hread]
      exact nofun
    split_ifs at hs
    · cases hs
      exact hinv.readerMoves _ h.stdout hdone trivial fun _ => .inl hcalm
    · cases hs
      exact hinv.readerMoves (.readFailedOpen error) h.stdout hdone hcalm fun _ => .inl hcalm
  | readFailedOpen error =>
    simp only [hread] at hcalm hs
    rw [if_pos hcalm] at hs
    cases hs
    refine hinv.readerMoves _ h.stdout ?_ trivial fun _ => .inl hcalm
    rw [hread]
    exact nofun
  | decode payload =>
    simp only [hread] at hs
    obtain ⟨hcontrol, message, hmessage⟩ := hok.2 payload hread
    rw [if_neg hcontrol, hmessage] at hs
    cases hs
    exact hinv.dispatch hread hmessage
  | dispatching n =>
    simp only [hread] at hcalm hs
    obtain ⟨message, pc, hn⟩ := hcalm
    obtain ⟨go, hfinished, rfl⟩ := Option.map_eq_some_iff.mp hs
    have hgo : go = true := by
      obtain ⟨hgoing, -⟩ := hinv.threads n _ hn
      rw [hn] at hfinished
      cases pc with
      | done entry go' =>
        cases hfinished
        exact hgoing
      | _ => cases hfinished
    rw [hgo]
    refine hinv.readerMoves _ h.stdout ?_ trivial fun hans => hans.dispatched hread hfinished
    intro m hm
    rw [hread] at hm
    cases hm
    rw [hfinished]
    exact nofun
  | failing n =>
    simp only [hread] at hcalm
  | ended =>
    simp only [hread] at hs
    cases hs

end Cordis.Actors
