import Cordis.Host.Config
import Mathlib.Data.List.Basic

/-!
# One process host session

`SessionInner` and the calls that run on it: `request` in its five uses, `invoke`, `dispatch_response`,
`transition_to_failed`, `transition_to_closed` and `apply_negotiated`. A thread is one such call; a step
is one atomic operation, or one section under the lock of `pending`, of one thread. A request id is a
`Nat`, since `allocate_request_id` never wraps. The oneshot channel of a call is named by the thread of
the call, and `replies` lists what was sent.
-/

namespace Cordis.Session

open Protocol

def U64_MAX : Nat := 2 ^ 64 - 1

/-- `ExpectedResponseKind`. -/
inductive ExpectedResponseKind
  | HelloAck
  | Loaded
  | Started
  | Disposed
  | ShutdownAck
  | InvokeResult
  deriving DecidableEq, Repr

def isFailure : Message → Bool
  | .Failure .. => true
  | _ => false

/-- `ExpectedResponseKind::accepts`. -/
def ExpectedResponseKind.accepts (self : ExpectedResponseKind) (message : Message) : Bool :=
  (self ≠ .InvokeResult && isFailure message) ||
    match self, message with
    | .HelloAck, .HelloAck .. | .Loaded, .Loaded .. | .Started, .Started .. | .Disposed, .Disposed ..
    | .ShutdownAck, .ShutdownAck .. | .InvokeResult, .InvokeResult .. => true
    | _, _ => false

/-- `remote_failure_is_session_terminal`. -/
def remoteFailureIsSessionTerminal : HostFailureKind → Bool
  | .ProtocolViolation | .HandshakeIncompatible | .TransportClosed | .ProcessExited
  | .ProcessKilled => true
  | _ => false

/-- The session-terminal failure that a message reports. -/
def terminalRemote : Message → Option HostError
  | .Failure _ (.Host error) | .InvokeResult _ (.HostFailure error) =>
    if remoteFailureIsSessionTerminal error.kind then some error else none
  | _ => none

/-- A call of a `SessionClient`. -/
inductive Operation
  | handshake
  | load (format : String) (revision : UInt64) (payload : List UInt8)
  | start (route : UInt64)
  | dispose (route : UInt64)
  | shutdown
  | invoke (route : UInt64) (format : String) (bytes : List UInt8)
  deriving DecidableEq, Repr

namespace Operation

/-- The session state in which the call is admitted. -/
def required : Operation → SessionState
  | handshake => .Handshaking
  | shutdown => .Draining
  | _ => .Ready

def expected : Operation → ExpectedResponseKind
  | handshake => .HelloAck
  | load .. => .Loaded
  | start _ => .Started
  | dispose _ => .Disposed
  | shutdown => .ShutdownAck
  | invoke .. => .InvokeResult

/-- The message of the call. -/
def build (limits : Limits) (id : UInt64) : Operation → Message
  | handshake =>
    .Hello id PROTOCOL_MAJOR PROTOCOL_MINOR SUPPORTED_FEATURES REQUIRED_FEATURES limits
  | load format revision payload => .Load id format revision payload
  | start route => .Start id route
  | dispose route => .Dispose id route
  | shutdown => .Shutdown id
  | invoke route format bytes => .Invoke id route format bytes 0

/-- The call goes through `invoke`, not through `request`. -/
def isInvoke : Operation → Bool
  | invoke .. => true
  | _ => false

end Operation

/-- What a call or a response channel ends with. -/
abbrev Reply := Except HostError Message

/-- What a call that returns early still has to give back. -/
inductive Held
  | nothing
  | permit
  | registration (id : Nat) (guarded : Bool)
  deriving DecidableEq

/-- Where a call stands. -/
inductive CallPc
  /-- The transition of `handshake` and `shutdown`, the size check of `load` and `invoke`. -/
  | begin
  | checkState
  | acquire
  /-- `request`: the check of the state once a permit is held. -/
  | checkAgain
  /-- `allocate_request_id` loads `next_id`. -/
  | allocate
  | exchange (id : Nat)
  | publish (id : Nat)
  /-- The entry goes into `pending`. -/
  | register (id : Nat)
  /-- The check of the state after the registration. -/
  | recheck (id : Nat)
  | enqueue (id : Nat)
  /-- Waits on the response channel. -/
  | await (id : Nat)
  /-- `terminal_cordis_error`, then the call returns. -/
  | refuse (held : Held) (fallback : String)
  /-- `PendingRegistration::drop`; `guarded` inside the drop of a `RemoteInvokeGuard`. -/
  | unregister (id : Nat) (result : Option Reply) (guarded : Bool)
  /-- The rest of `RemoteInvokeGuard::drop`. -/
  | cancel (id : Nat) (result : Option Reply)
  | release (result : Option Reply)
  /-- `shutdown` stores `shutdown_acked`. -/
  | acknowledge (result : Option Reply)
  /-- The future has ended; `none` when it was dropped. -/
  | ended (result : Option Reply)

/-- Which terminal transition. -/
inductive Terminal
  | failed (error : HostError)
  | closed

namespace Terminal

def state : Terminal → SessionState
  | failed _ => .Failed
  | closed => .Closed

/-- The error for the requests that are pending. -/
def pendingError : Terminal → HostError
  | failed error => error
  | closed => ⟨.Unavailable, "process host closed with a pending request"⟩

end Terminal

/-- Where `transition_to_failed` or `transition_to_closed` stands. -/
inductive TransitionPc
  | lock
  | load
  | exchange (current : SessionState)
  /-- The state is exchanged; the error is recorded and its lock released next. -/
  | record
  /-- `resolve_pending`, which keeps `pending` locked while it sends. -/
  | drain
  | stop
  | force
  | notify
  | done (won : Bool)
  deriving DecidableEq

structure PendingEntry where
  sender : Nat
  expected : ExpectedResponseKind
  deriving DecidableEq

/-- Where `dispatch_response` stands. -/
inductive DispatchPc
  | check
  | remove
  | judge (entry : PendingEntry)
  | failing (error : HostError) (entry : Option PendingEntry) (transition : TransitionPc)
  | acknowledge (entry : PendingEntry)
  | reply (entry : PendingEntry) (reply : Reply) (go : Bool)
  | done (entry : Option PendingEntry) (go : Bool)

/-- Where `apply_negotiated` stands. -/
inductive NegotiatePc
  | check
  | forget (shrink : Nat)
  | install
  | ready
  | done (accepted : Bool)
  deriving DecidableEq

/-- A thread. -/
inductive Pc
  | call (op : Operation) (pc : CallPc)
  | dispatch (message : Message) (pc : DispatchPc)
  | terminate (terminal : Terminal) (pc : TransitionPc)
  | negotiate (limits : Limits) (pc : NegotiatePc)

/-- `SessionInner`, the queue of its writer, what the response channels carried, and the threads. -/
structure SessionInner where
  state : SessionState := .Created
  limits : Limits
  pending : List (Nat × PendingEntry) := []
  permits : Nat
  nextId : Nat := 1
  highestIssued : Nat := 0
  force : Bool := false
  actorStop : Bool := false
  shutdownAcked : Bool := false
  maxControlBytes : Nat
  terminalError : Option HostError := none
  /-- `terminal_error` is locked by a transition. -/
  terminalLock : Bool := false
  outbound : List Message := []
  capacity : Nat
  /-- The writer still holds the receiver of the queue. -/
  receiving : Bool := true
  replies : List (Nat × Reply) := []
  threads : List Pc := []

/-- The session of a configuration, before any call. -/
def SessionInner.new (config : ProcessHostConfig) : SessionInner where
  limits := config.limits
  permits := config.maxInflightRequests
  maxControlBytes := config.maxControlBytes
  capacity := config.outboundQueueCapacity

/-- The response channel that a `dispatch_response` is about to send on. -/
def Pc.holds : Pc → Option Nat
  | dispatch _ (.judge entry) | dispatch _ (.failing _ (some entry) _)
  | dispatch _ (.acknowledge entry) | dispatch _ (.reply entry ..) => some entry.sender
  | _ => none

namespace SessionInner

variable (s : SessionInner)

/-- Nobody can send on the response channel of call `n` any more. -/
def senderLost (n : Nat) : Bool :=
  s.pending.all (·.2.sender ≠ n) && s.threads.all (·.holds ≠ some n)

/-- `pending.insert`. -/
def insertPending (id : Nat) (entry : PendingEntry) : SessionInner :=
  { s with pending := (id, entry) :: s.pending.filter (·.1 ≠ id) }

/-- `pending.remove`. -/
def removePending (id : Nat) : SessionInner :=
  { s with pending := s.pending.filter (·.1 ≠ id) }

/-- `try_send`, for a message that may be lost. -/
def trySend (message : Message) : SessionInner :=
  if s.receiving ∧ s.outbound.length < s.capacity then
    { s with outbound := s.outbound ++ [message] }
  else s

end SessionInner

/-! ## Calls -/

def admitFallback (op : Operation) : String :=
  if op.isInvoke then "invocation is not allowed outside Ready"
  else "request is not allowed in the current session state"

def recheckFallback (op : Operation) : String :=
  if op.isInvoke then "session changed before invocation enqueue"
  else "session state changed after request registration"

/-- `handshake` and `shutdown` exchange the state first, `load` and `invoke` check a size. -/
def stepBegin (s : SessionInner) (op : Operation) : SessionInner × CallPc :=
  match op with
  | .handshake =>
    if s.state = .Created then ({ s with state := .Handshaking }, .checkState)
    else (s, .refuse .nothing "invalid process host session transition")
  | .shutdown =>
    if s.state = .Ready then ({ s with state := .Draining }, .checkState)
    else (s, .refuse .nothing "invalid process host session transition")
  | .load _ _ payload =>
    match checkLoad s.limits payload with
    | .error error => (s, .ended (some (.error error)))
    | .ok _ => (s, .checkState)
  | .invoke _ _ bytes =>
    match checkInvoke s.limits bytes with
    | .error error => (s, .ended (some (.error error)))
    | .ok _ => (s, .checkState)
  | _ => (s, .checkState)

/-- Sending to the writer: `request` waits for room, `invoke` does not. -/
def stepEnqueue (s : SessionInner) (op : Operation) (id : Nat) : Option (SessionInner × CallPc) :=
  if s.receiving then
    if s.outbound.length < s.capacity then
      some ({ s with outbound := s.outbound ++ [op.build s.limits (UInt64.ofNat id)] }, .await id)
    else if op.isInvoke then
      some (s, .unregister id
        (some (.error ⟨.Overloaded, "process host outbound queue is full"⟩)) false)
    else none
  else if op.isInvoke then
    some (s, .refuse (.registration id false) "process host writer stopped before invocation")
  else
    some (s, .unregister id (some (.error ⟨.TransportClosed, "process host writer stopped"⟩)) false)

/-- The response channel is ready; a reply disarms the registration. -/
def stepAwait (s : SessionInner) (n : Nat) (op : Operation) (id : Nat) : Option (SessionInner × CallPc) :=
  match s.replies.lookup n with
  | some reply => some (s, .release (some reply))
  | none =>
    if ¬ s.senderLost n then none
    else if op.isInvoke then
      some (s, .refuse (.registration id true) "process host invocation response channel closed")
    else
      some (s, .unregister id
        (some (.error ⟨.TransportClosed, "process host response channel closed"⟩)) false)

/-- What is left to do once the error of a refused call is known. -/
def Held.give (result : Option Reply) : Held → CallPc
  | nothing => .ended result
  | permit => .release result
  | registration id guarded => .unregister id result guarded

/-- One step of call `n`; `spurious` is a spurious failure of the weak exchange. -/
def stepCall (s : SessionInner) (n : Nat) (op : Operation) (spurious : Bool) :
    CallPc → Option (SessionInner × CallPc)
  | .begin => some (stepBegin s op)
  | .checkState =>
    if s.state ≠ op.required then some (s, .refuse .nothing (admitFallback op))
    else some (s, .acquire)
  | .acquire =>
    if 0 < s.permits then
      some ({ s with permits := s.permits - 1 }, if op.isInvoke then .allocate else .checkAgain)
    else if op.isInvoke then
      some (s, .ended (some (.error ⟨.Overloaded, "process host inflight capacity exhausted"⟩)))
    else none
  | .checkAgain =>
    if s.state ≠ op.required then
      some (s, .refuse .permit "session state changed before request admission")
    else some (s, .allocate)
  | .allocate =>
    if s.nextId = 0 ∨ s.nextId = U64_MAX then
      some (s, .release
        (some (.error ⟨.Unavailable, "process host request ID space exhausted"⟩)))
    else some (s, .exchange s.nextId)
  | .exchange id =>
    if s.nextId = id ∧ ¬ spurious then some ({ s with nextId := id + 1 }, .publish id)
    else some (s, .allocate)
  | .publish id => some ({ s with highestIssued := max s.highestIssued id }, .register id)
  | .register id => some (s.insertPending id ⟨n, op.expected⟩, .recheck id)
  | .recheck id =>
    if s.state ≠ op.required then some (s, .refuse (.registration id false) (recheckFallback op))
    else some (s, .enqueue id)
  | .enqueue id => stepEnqueue s op id
  | .await id => stepAwait s n op id
  | .refuse held fallback =>
    if s.terminalLock then none
    else some (s, held.give (some (.error (s.terminalError.getD ⟨.Unavailable, fallback⟩))))
  | .unregister id result guarded =>
    some (s.removePending id, if guarded then .cancel id result else .release result)
  | .cancel id result =>
    some (if s.state = .Ready ∨ s.state = .Draining then s.trySend (.Cancel (UInt64.ofNat id)) else s,
      .release result)
  | .release result =>
    let s' := { s with permits := s.permits + 1 }
    match op, result with
    | .shutdown, some (.ok (.ShutdownAck _)) => some (s', .acknowledge result)
    | _, _ => some (s', .ended result)
  | .acknowledge result => some ({ s with shutdownAcked := true }, .ended result)
  | .ended _ => none

/-- The future of a call is dropped where it is suspended. -/
def dropCall (op : Operation) : CallPc → Option CallPc
  | .begin => some (.ended none)
  | .acquire => if op.isInvoke then none else some (.ended none)
  -- the semaphore hands a permit over before the future that waits for it is polled
  | .checkAgain => some (.release none)
  | .enqueue id => if op.isInvoke then none else some (.unregister id none false)
  | .await id => some (.unregister id none op.isInvoke)
  | _ => none

/-! ## Terminal transitions -/

/-- One step of `transition_to_failed` or `transition_to_closed`. -/
def stepTransition (s : SessionInner) (terminal : Terminal) :
    TransitionPc → Option (SessionInner × TransitionPc)
  | .lock => if s.terminalLock then none else some ({ s with terminalLock := true }, .load)
  | .load =>
    if s.state = .Closed ∨ s.state = .Failed then
      some ({ s with terminalLock := false }, .done false)
    else some (s, .exchange s.state)
  | .exchange current =>
    if s.state = current then some ({ s with state := terminal.state }, .record)
    else some (s, .load)
  | .record =>
    match terminal with
    | .failed error => some ({ s with terminalError := some error, terminalLock := false }, .drain)
    | .closed => some ({ s with terminalLock := false }, .drain)
  | .drain =>
    some ({ s with
      pending := []
      replies := s.replies ++ s.pending.map fun p => (p.2.sender, .error terminal.pendingError) },
      .stop)
  | .stop =>
    some ({ s with actorStop := true },
      match terminal with
      | .failed _ => .force
      | .closed => .notify)
  | .force => some ({ s with force := true }, .notify)
  | .notify => some (s, .done true)
  | .done _ => none

/-! ## Responses -/

/-- One step of `dispatch_response`. -/
def stepDispatch (s : SessionInner) (message : Message) : DispatchPc → Option (SessionInner × DispatchPc)
  | .check =>
    if message.id.toNat > s.highestIssued then
      some (s, .failing ⟨.ProtocolViolation, "response used a future request id"⟩ none .lock)
    else some (s, .remove)
  | .remove =>
    match s.pending.lookup message.id.toNat with
    | none => some (s, .done none true)
    | some entry => some (s.removePending message.id.toNat, .judge entry)
  | .judge entry =>
    if ¬ entry.expected.accepts message then
      some (s, .failing ⟨.ProtocolViolation, "response kind did not match the live request"⟩
        (some entry) .lock)
    else
      match terminalRemote message with
      | some error => some (s, .failing error (some entry) .lock)
      | none =>
        if entry.expected = .ShutdownAck then some (s, .acknowledge entry)
        else some (s, .reply entry (.ok message) true)
  | .failing error entry transition =>
    match transition, entry with
    | .done _, some entry => some (s, .reply entry (.error error) false)
    | .done _, none => some (s, .done none false)
    | transition, entry =>
      (stepTransition s (.failed error) transition).map fun p => (p.1, .failing error entry p.2)
  | .acknowledge entry =>
    some ({ s with shutdownAcked := true }, .reply entry (.ok message) true)
  | .reply entry reply go =>
    some ({ s with replies := s.replies ++ [(entry.sender, reply)] }, .done (some entry) go)
  | .done .. => none

/-! ## Negotiation -/

/-- One step of `apply_negotiated`. -/
def stepNegotiate (s : SessionInner) (limits : Limits) : NegotiatePc → Option (SessionInner × NegotiatePc)
  | .check =>
    match checkNegotiated limits with
    | .error _ => some (s, .done false)
    | .ok _ =>
      if s.limits.inflight < limits.inflight then some (s, .done false)
      else some (s, .forget (s.limits.inflight - limits.inflight))
  | .forget shrink =>
    some ({ s with permits := s.permits - shrink },
      if s.permits < shrink then .done false else .install)
  | .install => some ({ s with limits := limits }, .ready)
  | .ready =>
    if s.state = .Handshaking then some ({ s with state := .Ready }, .done true)
    else some (s, .done false)
  | .done _ => none

/-! ## The machine -/

/-- One step of thread `n`, which stands at the given place. -/
def stepThread (s : SessionInner) (n : Nat) (spurious : Bool) : Pc → Option (SessionInner × Pc)
  | .call op pc => (stepCall s n op spurious pc).map fun p => (p.1, .call op p.2)
  | .dispatch message pc => (stepDispatch s message pc).map fun p => (p.1, .dispatch message p.2)
  | .terminate terminal pc =>
    (stepTransition s terminal pc).map fun p => (p.1, .terminate terminal p.2)
  | .negotiate limits pc => (stepNegotiate s limits pc).map fun p => (p.1, .negotiate limits p.2)

def dropThread : Pc → Option Pc
  | .call op pc => (dropCall op pc).map (.call op)
  | _ => none

/-- A step of a session. -/
inductive Label
  | call (op : Operation)
  | dispatch (message : Message)
  | terminate (terminal : Terminal)
  | negotiate (limits : Limits)
  | run (n : Nat) (spurious : Bool)
  | drop (n : Nat)
  | receive
  | stopWriter

def SessionInner.spawn (s : SessionInner) (pc : Pc) : SessionInner := { s with threads := s.threads ++ [pc] }

def step (s : SessionInner) : Label → Option SessionInner
  | .call op => some (s.spawn (.call op .begin))
  | .dispatch message => some (s.spawn (.dispatch message .check))
  | .terminate terminal => some (s.spawn (.terminate terminal .lock))
  | .negotiate limits => some (s.spawn (.negotiate limits .check))
  | .run n spurious => do
    let pc ← s.threads[n]?
    let (s', pc') ← stepThread s n spurious pc
    some { s' with threads := s.threads.set n pc' }
  | .drop n => do
    let pc ← s.threads[n]?
    let pc' ← dropThread pc
    some { s with threads := s.threads.set n pc' }
  | .receive => some { s with outbound := s.outbound.tail }
  | .stopWriter => some { s with receiving := false }

end Cordis.Session
