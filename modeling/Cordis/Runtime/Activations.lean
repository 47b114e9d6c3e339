import Cordis.Fiber.Renewal
import Cordis.Runtime.Step

/-!
# Activations and the switches of a selector

The log of a run has the activations that begin, each with its gate, and the switches of a selector: by the
commit of an activation, with what the commit found, or by the cutover to a staged Fiber.
-/

namespace Cordis

/-- The section that switched a selector. -/
inductive Publication
  /-- `commit_activation`, which found the record in `state`; `checked`: its registry checks had passed. -/
  | commit (fiber : FiberId) (call : Nat) (state : FiberState) (activationSealed checked : Bool)
  | cutover (old staged : FiberId)
  deriving DecidableEq

inductive ActivationEvent
  /-- Activation call `call` has begun for `gate`; `staged` is the flag of the record. -/
  | began (fiber : FiberId) (call : Nat) (gate : Gate) (staged : Bool)
  | switched (gate : Gate) (by_ : Publication)
  deriving DecidableEq

namespace Runtime

/-- The activation call that begins with this section. -/
def beginsNote (rt' : Runtime) (f : FiberId) (n : Nat) : List ActivationEvent :=
  match rt'.fibers f with
  | some c =>
    match c.activations n with
    | some .selecting => [.began f n (gateOf c) c.inner.staged]
    | _ => []
  | none => []

/-- The registry checks of activation call `n` have passed, and it has not published. -/
def hasChecked (c : FiberCell) (n : Nat) : Bool :=
  match c.activations n with
  | some .checked => true
  | _ => false

/-- The selector of Fiber `f` names its generation now, and did not. -/
def publishNote (rt rt' : Runtime) (f : FiberId) (by_ : FiberCell → Publication) : List ActivationEvent :=
  match rt.fibers f with
  | some c => if !rt.visible (gateOf c) && rt'.visible (gateOf c) then [.switched (gateOf c) (by_ c)] else []
  | none => []

def activationNote (rt : Runtime) (l : RuntimeLabel) (rt' : Runtime) : List ActivationEvent :=
  match l with
  | .fiber f (.activationBegin n _ _) => beginsNote rt' f n
  | .fiber f (.activationCommit n _ _) => publishNote rt rt' f fun c =>
    .commit f n c.inner.state c.inner.activationSealed (hasChecked c n)
  | .commitReload old staged _ _ => publishNote rt rt' staged fun _ => .cutover old staged
  | _ => []

/-- The switches of its selector to the gate, in order. -/
def publications (log : List ActivationEvent) (g : Gate) : List Publication :=
  log.filterMap fun
    | .switched h by_ => if h = g then some by_ else none
    | .began .. => none

/-- No install parks a Fiber that is being disposed of. -/
def unparked (rt : Runtime) : RuntimeLabel → Bool
  | .fiber f l => (rt.fibers f).all fun c => c.Unparked l
  | _ => true

def Unparked (rt : Runtime) (l : RuntimeLabel) : Prop := rt.unparked l = true

instance (rt : Runtime) (l : RuntimeLabel) : Decidable (rt.Unparked l) :=
  inferInstanceAs (Decidable (_ = true))

/-- No lookup selects an entry of the gate. -/
structure Hides (rt : Runtime) (g : Gate) : Prop where
  invisible : rt.visible g = false
  services : ∀ s key e, rt.resolveSymbol s key = some e → e.gate ≠ g
  handlers : ∀ id e, rt.handlers id = some e → rt.visible e.gate = true → e.gate ≠ g
  middleware : ∀ id e, rt.middleware id = some e → rt.visible e.gate = true → e.gate ≠ g

/-- A gate whose activation has returned an error by `rt` was hidden in the state `past`. -/
def FailedHidden (past rt : Runtime) (log : List ActivationEvent) : Prop :=
  ∀ f n g b c e, .began f n g b ∈ log → rt.fibers f = some c → c.activations n = some (.returned (.error e)) →
    past.Hides g

/-- Where the activation of a Fiber that is not staged has returned `Ok`, the selector was switched to its
gate once: by its commit, which found the record sealed and `Starting`, and the checks passed. -/
def CommittedOnce (rt : Runtime) (log : List ActivationEvent) : Prop :=
  ∀ f n g c, .began f n g false ∈ log → rt.fibers f = some c → c.activations n = some (.returned (.ok ())) →
    publications log g = [.commit f n .Starting true true]

end Runtime

end Cordis
