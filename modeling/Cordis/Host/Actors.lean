import Cordis.Library.Machine
import Cordis.Host.Session

/-!
# The actors of a session

`reader_task`, `writer_task` and `supervisor_task` of one session, with the child process and its two
pipes. The pipes carry whole frames: what `read_frame` reports when the output of the child ends in the
middle of one is chosen by the peer. Where an actor runs `dispatch_response` or a terminal transition
it starts a thread of the session and waits until the thread is done.
-/

namespace Cordis.Actors

open Protocol Session

/-- Where `reader_task` stands. -/
inductive ReaderPc
  | limit
  | read (limit : Nat)
  /-- `read_frame` failed; the state is loaded next, then `shutdown_acked`. -/
  | readFailed (error : HostError)
  | readFailedOpen (error : HostError)
  | decode (payload : List UInt8)
  | dispatching (thread : Nat)
  | failing (thread : Nat)
  | ended

/-- Where `writer_task` stands. -/
inductive WriterPc
  | receive
  | encode (message : Message)
  | write (payload : List UInt8)
  | failing (thread : Nat)
  | ended

/-- Where `supervisor_task` stands. -/
inductive SupervisorPc
  | wait
  /-- `child.wait` returned: the exit status, or an error. -/
  | exited (success : Option Bool)
  | kill
  /-- The child is killed and reaped, or reaping failed. -/
  | killed (reaped : Bool)
  | transition (thread : Nat)
  | stop
  | joinReader
  | joinWriter
  | ended

/-- A session with its actors and its child. -/
structure Host where
  session : SessionInner
  reader : ReaderPc := .limit
  writer : WriterPc := .receive
  supervisor : SupervisorPc := .wait
  /-- Frames that the child wrote and the reader has not read. -/
  stdout : List (List UInt8) := []
  /-- What `read_frame` reports after these frames, once the output of the child has ended. -/
  stdoutEnd : Option HostError := none
  stdin : List (List UInt8) := []
  stdinOpen : Bool := true
  exitStatus : Option Bool := none

def Host.new (config : ProcessHostConfig) : Host where
  session := .new config

/-- The frame limit of `reader_task`. -/
def readerLimit (s : SessionInner) : Nat :=
  if s.state = .Created ∨ s.state = .Handshaking then
    min ABSOLUTE_HANDSHAKE_FRAME_LIMIT s.maxControlBytes
  else s.limits.frame

/-- What a thread that runs for an actor leaves behind: whether `dispatch_response` wants to go on. -/
def finished : Option Pc → Option Bool
  | some (.dispatch _ (.done _ go)) => some go
  | some (.terminate _ (.done _)) => some false
  | _ => none

namespace Host

variable (h : Host)

/-- A new thread of the session, and its number. -/
def start (pc : Pc) : Host × Nat :=
  ({ h with session := h.session.spawn pc }, h.session.threads.length)

/-- The reader runs `transition_to_failed`. -/
def readerFails (error : HostError) : Host :=
  { (h.start (.terminate (.failed error) .lock)).1 with
    reader := .failing (h.start (.terminate (.failed error) .lock)).2 }

/-- The writer runs `transition_to_failed`. -/
def writerFails (error : HostError) : Host :=
  { (h.start (.terminate (.failed error) .lock)).1 with
    writer := .failing (h.start (.terminate (.failed error) .lock)).2 }

/-- The supervisor runs a terminal transition. -/
def supervisorTransition (terminal : Terminal) : Host :=
  { (h.start (.terminate terminal .lock)).1 with
    supervisor := .transition (h.start (.terminate terminal .lock)).2 }

/-- The writer ends and drops the receiver of the queue. -/
def writerEnds : Host :=
  { h with writer := .ended, session := { h.session with receiving := false } }

end Host

/-- One step of `reader_task`; `stop` takes the branch of the select on `actor_stop`. -/
def stepReader (h : Host) (stop : Bool) : Option Host :=
  match h.reader with
  | .limit => some { h with reader := .read (readerLimit h.session) }
  | .read limit =>
    if stop then if h.session.actorStop then some { h with reader := .ended } else none
    else
      match h.stdout with
      | payload :: rest =>
        if payload.length > limit then
          some { h with
            reader := .readFailed ⟨.MessageTooLarge, "frame length exceeds current hard limit"⟩ }
        else some { h with stdout := rest, reader := .decode payload }
      | [] => h.stdoutEnd.map fun error => { h with reader := .readFailed error }
  | .readFailed error =>
    if h.session.state = .Closed then some { h with reader := .ended }
    else some { h with reader := .readFailedOpen error }
  | .readFailedOpen error =>
    if h.session.shutdownAcked then some { h with reader := .ended } else some (h.readerFails error)
  | .decode payload =>
    if payloadIsControl payload ∧ payload.length > h.session.maxControlBytes then
      some (h.readerFails ⟨.MessageTooLarge, "control frame exceeds max_control_bytes"⟩)
    else
      match decode payload h.session.limits with
      | .error error => some (h.readerFails error)
      | .ok message =>
        some { (h.start (.dispatch message .check)).1 with
          reader := .dispatching (h.start (.dispatch message .check)).2 }
  | .dispatching n =>
    (finished h.session.threads[n]?).map fun go =>
      { h with reader := if go then .limit else .ended }
  | .failing n => (finished h.session.threads[n]?).map fun _ => { h with reader := .ended }
  | .ended => none

/-- `remaining_nanos` of an `Invoke`, set from its deadline. -/
def setRemaining (nanos : UInt64) : Message → Message
  | .Invoke id route format bytes _ => .Invoke id route format bytes nanos
  | message => message

/-- One step of `writer_task`; `nanos` is the time left for the message it takes. -/
def stepWriter (h : Host) (stop : Bool) (nanos : UInt64) : Option Host :=
  match h.writer with
  | .receive =>
    if stop then if h.session.actorStop then some h.writerEnds else none
    else
      match h.session.outbound with
      | message :: rest =>
        some { h with
          session := { h.session with outbound := rest }
          writer := .encode (setRemaining nanos message) }
      | [] => none
  | .encode message =>
    match encode message
        (writerLimit h.session.state h.session.limits h.session.maxControlBytes message) with
    | .error error => some (h.writerFails error)
    | .ok payload =>
      if payload.length ≤ U32_MAX then some { h with writer := .write payload }
      else some (h.writerFails ⟨.MessageTooLarge, "frame exceeds u32"⟩)
  | .write payload =>
    if h.stdinOpen then some { h with stdin := h.stdin ++ [payload], writer := .receive }
    else some (h.writerFails ⟨.TransportClosed, "process host write failed: Broken pipe"⟩)
  | .failing n => (finished h.session.threads[n]?).map fun _ => h.writerEnds
  | .ended => none

/-- The actor has ended and its handle can be joined. -/
def ReaderPc.isEnded : ReaderPc → Bool
  | ended => true
  | _ => false

@[inherit_doc ReaderPc.isEnded]
def WriterPc.isEnded : WriterPc → Bool
  | ended => true
  | _ => false

/-- One step of `supervisor_task`; `other` takes the branch of the select on `force`, and otherwise an
error of `wait`. -/
def stepSupervisor (h : Host) (other : Bool) : Option Host :=
  match h.supervisor with
  | .wait =>
    if other then if h.session.force then some { h with supervisor := .kill } else none
    else h.exitStatus.map fun success => { h with supervisor := .exited (some success) }
  | .exited (some true) =>
    if h.session.shutdownAcked then some (h.supervisorTransition .closed)
    else some (h.supervisorTransition (.failed ⟨.ProcessExited,
      "process host exited without a complete graceful shutdown: exit status: 0"⟩))
  | .exited (some false) =>
    some (h.supervisorTransition (.failed ⟨.ProcessExited,
      "process host exited without a complete graceful shutdown: failure"⟩))
  | .exited none =>
    some (h.supervisorTransition (.failed ⟨.ProcessExited, "process host wait failed"⟩))
  | .kill =>
    some { h with
      supervisor := .killed (!other)
      stdinOpen := false
      stdoutEnd := h.stdoutEnd.or (some ⟨.TransportClosed, "process host frame header failed"⟩)
      exitStatus := h.exitStatus.or (some false) }
  | .killed true =>
    if h.session.state = .Failed then some { h with supervisor := .stop }
    else some (h.supervisorTransition (.failed ⟨.ProcessKilled,
      "process host was force terminated"⟩))
  | .killed false =>
    some (h.supervisorTransition (.failed ⟨.ProcessKilled, "process host reap failed"⟩))
  | .transition n => (finished h.session.threads[n]?).map fun _ => { h with supervisor := .stop }
  | .stop =>
    some { h with session := { h.session with actorStop := true }, supervisor := .joinReader }
  | .joinReader => if h.reader.isEnded then some { h with supervisor := .joinWriter } else none
  | .joinWriter => if h.writer.isEnded then some { h with supervisor := .ended } else none
  | .ended => none

/-- A step of the whole. -/
inductive Label
  | call (op : Session.Operation)
  | negotiate (limits : Limits)
  /-- A thread of the session takes a step. -/
  | run (n : Nat) (spurious : Bool)
  | drop (n : Nat)
  | force
  /-- The child writes a frame. -/
  | respond (payload : List UInt8)
  /-- The child closes its output; `torn` in the middle of a frame. -/
  | closeOutput (torn : Bool)
  | closeInput
  | exit (success : Bool)
  | waitError
  | reader (stop : Bool)
  | writer (stop : Bool) (nanos : UInt64)
  | supervisor (other : Bool)

/-- What `read_frame` reports at the end of the output. -/
def endError (torn : Bool) : HostError :=
  if torn then ⟨.ProtocolViolation, "truncated process host frame: early eof"⟩
  else ⟨.TransportClosed, "process host frame header failed: early eof"⟩

def onSession (h : Host) (l : Session.Label) : Option Host :=
  (Session.step h.session l).map fun s => { h with session := s }

def step (h : Host) : Label → Option Host
  | .call op => onSession h (.call op)
  | .negotiate limits => onSession h (.negotiate limits)
  | .run n spurious => onSession h (.run n spurious)
  | .drop n => onSession h (.drop n)
  | .force => some { h with session := { h.session with force := true } }
  | .respond payload =>
    if h.stdoutEnd.isNone then some { h with stdout := h.stdout ++ [payload] } else none
  | .closeOutput torn =>
    if h.stdoutEnd.isNone then some { h with stdoutEnd := some (endError torn) } else none
  | .closeInput => some { h with stdinOpen := false }
  | .exit success =>
    if h.exitStatus.isNone then
      some { h with
        exitStatus := some success
        stdinOpen := false
        stdoutEnd := h.stdoutEnd.or (some (endError false)) }
    else none
  | .waitError =>
    match h.supervisor with
    | .wait => some { h with supervisor := .exited none }
    | _ => none
  | .reader stop => stepReader h stop
  | .writer stop nanos => stepWriter h stop nanos
  | .supervisor other => stepSupervisor h other

end Cordis.Actors
