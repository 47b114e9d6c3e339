import Cordis.Fiber.Activation
import Cordis.Runtime.Context

/-!
# Tasks behind the start barrier

A task that is spawned while `record.activation` holds a `watch` sender subscribes to it, and waits for
`true` before its future is polled; a task that finds no sender runs at once. An activation call makes one
sender at most, so a channel is named by its Fiber and call. `commit_activation` and
`commit_staged_revision` take the sender out under the record lock and send after they have dropped it;
whatever else empties the field drops the sender. Callers keep to what the code base does: `activate` is
called for a Fiber that was just seen waiting, and a disposal that overrides the claim of a reload is for
good.
-/

namespace Cordis

structure Barriers where
  contexts : Contexts
  /-- The activation call whose sender the record holds. -/
  sender : FiberId → Option Nat
  /-- A commit or a cutover has taken the sender out, and sends next. -/
  taken : FiberId → Nat → Bool
  released : FiberId → Nat → Bool
  /-- The activation call to whose channel the task has subscribed. -/
  receiver : Nat → Option Nat

inductive BarrierLabel
  | contexts (l : ContextLabel)
  /-- `barrier.send(true)`. -/
  | release (f : FiberId) (n : Nat)
  /-- The future of the task is polled. -/
  | execute (id : Nat)

/-- The call is about to poll `plugin.start`. -/
def ActivationPc.selects : ActivationPc → Bool
  | selecting => true
  | _ => false

/-- The call has just failed. -/
def ActivationPc.fails : ActivationPc → Bool
  | failed _ => true
  | _ => false

namespace Barriers

variable (s : Barriers)

def new : Barriers := ⟨.new, fun _ => none, fun _ _ => false, fun _ _ => false, fun _ => none⟩

/-- The activation call that begins with this section. -/
def beginning (w' : Contexts) : ContextLabel → Option (FiberId × Nat)
  | .runtime (.fiber f (.activationBegin n _ _)) =>
    if (w'.runtime.fibers f).any fun c => (c.activations n).any (·.selects) then some (f, n) else none
  | _ => none

/-- The Fiber that this section commits, if it goes through. -/
def committing : ContextLabel → Option FiberId
  | .runtime (.fiber f (.activationCommit ..)) => some f
  | .runtime (.commitReload _ staged _ _) => some staged
  | _ => none

/-- `record.activation` of Fiber `f` after the section. -/
def senderAfter (l : ContextLabel) (w' : Contexts) (f : FiberId) : Option Nat :=
  if (w'.runtime.fibers f).any (·.inner.activation) then
    match beginning w' l with
    | some (g, n) => if g = f then some n else s.sender f
    | none => s.sender f
  else none

/-- The senders that were taken out to send, after the section. -/
def takenAfter (l : ContextLabel) (w' : Contexts) (f : FiberId) (n : Nat) : Bool :=
  s.taken f n || (committing l == some f && s.sender f == some n && (s.senderAfter l w' f).isNone)

/-- `fiber.activation.as_ref().map(watch::Sender::subscribe)`. -/
def receiverAfter : ContextLabel → Nat → Option Nat
  | .spawn i => Function.update s.receiver s.contexts.nextTask
      ((s.contexts.calls i).bind fun call => s.sender call.fiber)
  | _ => s.receiver

/-- The callers of `activate` and `dispose_fiber` keep to what they may do. -/
def called : ContextLabel → Bool
  | .runtime (.fiber f l) => (s.contexts.runtime.fibers f).all fun c => c.Called l
  | _ => true

/-- One critical section of one thread, or a poll of a task. -/
def step (s : Barriers) : BarrierLabel → Option Barriers
  | .contexts l =>
    if s.called l then
      (s.contexts.step l).map fun w' => { s with
        contexts := w'
        sender := s.senderAfter l w'
        taken := s.takenAfter l w'
        receiver := s.receiverAfter l }
    else none
  | .release f n =>
    if s.taken f n then
      some { s with released := Function.update s.released f (Function.update (s.released f) n true) }
    else none
  | .execute id =>
    (s.contexts.tasks id).bind fun task =>
      if (s.receiver id).all (s.released task.owner) then some s else none

end Barriers

/-- What the log has of activations and tasks. -/
inductive BarrierEvent
  | began (fiber : FiberId) (call : Nat)
  | spawned (id : Nat) (fiber : FiberId) (gate : Gate)
  | switched (fiber : FiberId) (gate : Gate)
  | failed (fiber : FiberId) (call : Nat)
  | closed (fiber : FiberId) (gate : Gate)
  | executed (id : Nat)
  deriving DecidableEq

namespace Barriers

/-- What a section on Fiber `f` does to its activation call. -/
def callNote (f : FiberId) (c' : FiberCell) : FiberLabel → List BarrierEvent
  | .activationBegin n _ _ => if (c'.activations n).any (·.selects) then [.began f n] else []
  | .activationPoll n | .activationReturn n _ | .activationSeal n _ | .activationValidate n
  | .activationCommit n _ _ => if (c'.activations n).any (·.fails) then [.failed f n] else []
  | _ => []

/-- The selector of Fiber `f` names its generation now, and did not. -/
def switchNote (rt rt' : Runtime) (f : FiberId) : List BarrierEvent :=
  match rt.fibers f with
  | none => []
  | some c =>
    if rt.selectors c.plugin ≠ c.generation ∧ rt'.selectors c.plugin = c.generation then
      [.switched f (Runtime.gateOf c)]
    else []

/-- The gates that were closed. -/
def closeNote (rt rt' : Runtime) : List BarrierEvent :=
  (List.range rt.nextFiber).filterMap fun f =>
    match rt.fibers f, rt'.fibers f with
    | some c, some c' =>
      if c.retired = false ∧ c'.retired = true then some (.closed f (Runtime.gateOf c)) else none
    | _, _ => none

/-- What a Context section leaves in the log. -/
def contextNote (w : Contexts) (l : ContextLabel) (w' : Contexts) : List BarrierEvent :=
  closeNote w.runtime w'.runtime ++
  match l with
  | .runtime (.fiber f l) =>
    (match w'.runtime.fibers f with
      | some c' => callNote f c' l
      | none => []) ++ switchNote w.runtime w'.runtime f
  | .runtime (.commitReload _ staged _ _) => switchNote w.runtime w'.runtime staged
  | .spawn i =>
    match w.calls i with
    | some call => [.spawned w.nextTask call.fiber call.gate]
    | none => []
  | _ => []

def barrierNote (s : Barriers) (l : BarrierLabel) (s' : Barriers) : List BarrierEvent :=
  match l with
  | .contexts l => contextNote s.contexts l s'.contexts
  | .release .. => []
  | .execute id => [.executed id]

/-- The staged branch of `activate_body` finds the activation still the Fiber's state. -/
def prompt (s : Barriers) : BarrierLabel → Bool
  | .contexts (.runtime (.fiber f l)) => (s.contexts.runtime.fibers f).all fun c => c.Prompt l
  | _ => true

def Prompt (s : Barriers) (l : BarrierLabel) : Prop := s.prompt l = true

instance (s : Barriers) (l : BarrierLabel) : Decidable (s.Prompt l) :=
  inferInstanceAs (Decidable (_ = true))

/-- The activation of Fiber `f` that began last. -/
def latest (log : List BarrierEvent) (f : FiberId) : Option Nat :=
  (log.filterMap fun
    | .began g n => if g = f then some n else none
    | _ => none).getLast?

end Barriers

end Cordis
