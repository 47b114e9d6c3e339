import Cordis.Dispatch.EventBus
import Mathlib.Logic.Function.Basic

/-!
# Registering and removing event handlers

`EventBus::register_gated`, `EventBus::remove` and the loads of snapshots, each in its own thread. A step
is one section under a lock, or one access of an `ArcSwap`. An event may have several slots over time;
an `Arc` of one is its event and a number, in the order in which they were made.
-/

namespace Cordis.EventBus

/-- `HandlerEntry`, with the id under which it is in the arena. -/
structure HandlerEntry (κ : Type) where
  id : Nat
  event : κ
  gate : Nat
  deriving DecidableEq

/-- Where a call of `register_gated` stands. -/
inductive RegisterPc
  /-- `self.slot(&event)`. -/
  | slot
  /-- `slot.writer.lock()`. -/
  | lock (slot : Nat)
  /-- Is it still the slot of the event? -/
  | check (slot : Nat)
  /-- It is not: the guard is dropped before the next round. -/
  | drop (slot : Nat)
  | insert (slot : Nat)
  | load (slot id : Nat)
  | store (slot id : Nat) (next : List SnapshotHandler)
  | unlock (slot id : Nat)
  | done (id : Nat)
  deriving DecidableEq

/-- Where a call of `remove` stands. -/
inductive RemovePc (κ : Type)
  | find
  | slot (event : κ)
  | lock (event : κ) (slot : Nat)
  | take (event : κ) (slot : Nat)
  | load (event : κ) (slot : Nat) (unregistered : Bool)
  | store (event : κ) (slot : Nat) (unregistered : Bool) (next : List SnapshotHandler)
  | check (event : κ) (slot : Nat) (unregistered : Bool)
  | unmap (event : κ) (slot : Nat)
  | unlock (event : κ) (slot : Nat) (result : Bool)
  | done (result : Bool)
  deriving DecidableEq

/-- Where a dispatch stands until it has its snapshot. -/
inductive LoadPc
  | lookup
  | load (slot : Nat)
  | done (snapshot : List SnapshotHandler)
  deriving DecidableEq

inductive Thread (κ : Type)
  | register (event : κ) (gate : Nat) (pc : RegisterPc)
  | remove (id : Nat) (pc : RemovePc κ)
  | dispatch (event : κ) (pc : LoadPc)
  deriving DecidableEq

/-- `EventBus`, with the slots that were ever made, and the threads. -/
structure Registry (κ : Type) where
  made : κ → Nat := fun _ => 0
  slots : κ → Option Nat := fun _ => none
  snapshot : κ → Nat → List SnapshotHandler := fun _ _ => []
  writer : κ → Nat → Bool := fun _ _ => false
  handlers : List (HandlerEntry κ) := []
  nextHandler : Nat := 0
  threads : List (Thread κ) := []

namespace Registry

variable {κ : Type} [DecidableEq κ] (s : Registry κ)

/-- The slot of an event, made when there is none. -/
def slot (k : κ) : Registry κ × Nat :=
  match s.slots k with
  | some a => (s, a)
  | none =>
    ({ s with
      made := Function.update s.made k (s.made k + 1)
      slots := Function.update s.slots k (some (s.made k)) }, s.made k)

def setWriter (k : κ) (a : Nat) (locked : Bool) : Registry κ :=
  { s with writer := Function.update s.writer k (Function.update (s.writer k) a locked) }

def setSnapshot (k : κ) (a : Nat) (next : List SnapshotHandler) : Registry κ :=
  { s with snapshot := Function.update s.snapshot k (Function.update (s.snapshot k) a next) }

/-- What the arena holds for an event, in the order of registration. -/
def entries (k : κ) : List SnapshotHandler :=
  (s.handlers.filter (·.event = k)).map fun e => ⟨e.id, e.gate⟩

end Registry

variable {κ : Type} [DecidableEq κ]

/-- One step of `register_gated`. -/
def stepRegister (s : Registry κ) (k : κ) (gate : Nat) : RegisterPc → Option (Registry κ × RegisterPc)
  | .slot => some ((s.slot k).1, .lock (s.slot k).2)
  | .lock a => if s.writer k a then none else some (s.setWriter k a true, .check a)
  | .check a => some (s, if s.slots k = some a then .insert a else .drop a)
  | .drop a => some (s.setWriter k a false, .slot)
  | .insert a =>
    some ({ s with
      handlers := s.handlers ++ [⟨s.nextHandler, k, gate⟩]
      nextHandler := s.nextHandler + 1 }, .load a s.nextHandler)
  | .load a id => some (s, .store a id (s.snapshot k a ++ [⟨id, gate⟩]))
  | .store a id next => some (s.setSnapshot k a next, .unlock a id)
  | .unlock a id => some (s.setWriter k a false, .done id)
  | .done _ => none

/-- One step of `remove`. -/
def stepRemove (s : Registry κ) (id : Nat) : RemovePc κ → Option (Registry κ × RemovePc κ)
  | .find =>
    match s.handlers.find? (·.id = id) with
    | some e => some (s, .slot e.event)
    | none => some (s, .done false)
  | .slot k => some ((s.slot k).1, .lock k (s.slot k).2)
  | .lock k a => if s.writer k a then none else some (s.setWriter k a true, .take k a)
  | .take k a =>
    if s.handlers.any (·.id = id) then
      let handlers := s.handlers.filter (·.id ≠ id)
      some ({ s with handlers := handlers }, .load k a (handlers.all (·.event ≠ k)))
    else some (s, .unlock k a false)
  | .load k a unregistered =>
    some (s, .store k a unregistered ((s.snapshot k a).filter (·.id ≠ id)))
  | .store k a unregistered next => some (s.setSnapshot k a next, .check k a unregistered)
  | .check k a unregistered =>
    some (s, if unregistered ∧ s.snapshot k a = [] then .unmap k a else .unlock k a true)
  | .unmap k a => some ({ s with slots := Function.update s.slots k none }, .unlock k a true)
  | .unlock k a result => some (s.setWriter k a false, .done result)
  | .done _ => none

/-- One step of a dispatch towards its snapshot. -/
def stepLoad (s : Registry κ) (k : κ) : LoadPc → Option LoadPc
  | .lookup =>
    match s.slots k with
    | some a => some (.load a)
    | none => some (.done [])
  | .load a => some (.done (s.snapshot k a))
  | .done _ => none

def stepThread (s : Registry κ) : Thread κ → Option (Registry κ × Thread κ)
  | .register k gate pc => (stepRegister s k gate pc).map fun p => (p.1, .register k gate p.2)
  | .remove id pc => (stepRemove s id pc).map fun p => (p.1, .remove id p.2)
  | .dispatch k pc => (stepLoad s k pc).map fun pc => (s, .dispatch k pc)

namespace Registry

inductive Label (κ : Type)
  | register (event : κ) (gate : Nat)
  | remove (id : Nat)
  | dispatch (event : κ)
  | run (n : Nat)

def spawn (s : Registry κ) (thread : Thread κ) : Registry κ :=
  { s with threads := s.threads ++ [thread] }

def step (s : Registry κ) : Label κ → Option (Registry κ)
  | .register k gate => some (s.spawn (.register k gate .slot))
  | .remove id => some (s.spawn (.remove id .find))
  | .dispatch k => some (s.spawn (.dispatch k .lookup))
  | .run n => do
    let thread ← s.threads[n]?
    let (s', thread') ← stepThread s thread
    some { s' with threads := s.threads.set n thread' }

/-- Somebody has called `remove` with this id. -/
def Removing (s : Registry κ) (id : Nat) : Prop := ∃ pc, Thread.remove id pc ∈ s.threads

/-- Each id is removed by at most one caller. -/
def onceRemoved (s : Registry κ) : Label κ → Prop
  | .remove id => ¬ s.Removing id
  | _ => True

/-- The thread is a call of `remove` with this id. -/
def removes (id : Nat) : Thread κ → Bool
  | .remove id' _ => id' = id
  | _ => false

omit [DecidableEq κ] in
theorem removing_iff {s : Registry κ} {id : Nat} : s.Removing id ↔ s.threads.any (removes id) = true := by
  rw [List.any_eq_true]
  constructor
  · rintro ⟨pc, hpc⟩
    exact ⟨_, hpc, decide_eq_true rfl⟩
  · rintro ⟨th, hth, hremoves⟩
    cases th with
    | register | dispatch => cases hremoves
    | remove id' pc =>
      obtain rfl := of_decide_eq_true hremoves
      exact ⟨pc, hth⟩

instance (s : Registry κ) (id : Nat) : Decidable (s.Removing id) := decidable_of_iff _ removing_iff.symm

instance : ∀ (s : Registry κ) (l : Label κ), Decidable (s.onceRemoved l)
  | s, .remove id => inferInstanceAs (Decidable (¬ s.Removing id))
  | _, .register .. | _, .dispatch _ | _, .run _ => inferInstanceAs (Decidable True)

/-- The registry of a new `EventBus`. -/
def new (κ : Type) : Registry κ := {}

end Registry

end Cordis.EventBus
