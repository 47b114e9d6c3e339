import Cordis.Core.Error
import Mathlib.Algebra.Order.Ring.Int
import Mathlib.Logic.Function.Basic

/-!
# Plugin slots

`PluginRegistry`, and who calls it: an install with its rollback, a reload, the restart of a Fiber, and
`collect_garbage`. Each is a thread whose steps are the sections under one lock, so that attaching,
inserting into the arena, removing from it, detaching and reclaiming are steps of their own. The parts of
the runtime that refuse an install are an argument of the step; Fibers are disposed of and selectors
switched at any time.
-/

namespace Cordis.PluginRegistry

structure PluginSlot where
  /-- `selector.active()`. -/
  active : GenerationId := .NONE
  nextGeneration : GenerationId := 1
  fiberCount : Nat := 0

/-- A `FiberCell`, with the id under which it is in the arena. -/
structure FiberEntry where
  id : FiberId
  plugin : PluginId
  deriving DecidableEq

/-- Where a pass of `collect_garbage` stands. -/
inductive CollectPc
  | snapshot
  /-- The state of the next Fiber of the snapshot is read. -/
  | read (todo disposed : List FiberEntry)
  | remove (todo removed : List FiberEntry)
  | detach (removed : List FiberEntry)
  | reclaim (plugin : PluginId) (removed : List FiberEntry)
  | done

/-- Where a call of `install_arc` stands. -/
inductive InstallPc
  /-- A reload reads the plugin of the old Fiber. -/
  | find (old : FiberId)
  /-- Is there room in the arena? -/
  | room (logical : Option PluginId)
  | collect (logical : Option PluginId) (pc : CollectPc)
  /-- Admission, symbols, quota and Scope are checked. -/
  | check (logical : Option PluginId)
  | create
  | allocate (plugin : PluginId)
  | attach (plugin : PluginId) (generation : GenerationId)
  | insert (plugin : PluginId) (generation : GenerationId)
  | validate (fiber : FiberId)
  | remove (fiber : FiberId) (error : CordisError)
  | detach (plugin : PluginId) (error : CordisError)
  | reclaim (plugin : PluginId) (error : CordisError)
  | done (result : Except CordisError FiberId)

/-- Where the restart of a Fiber stands, up to its new generation. -/
inductive RestartPc
  | find
  | allocate (plugin : PluginId)
  | done (result : Except CordisError GenerationId)

inductive Thread
  | install (pc : InstallPc)
  | restart (fiber : FiberId) (pc : RestartPc)
  | collect (pc : CollectPc)

/-- The slots and the arena, with the generations that were handed out. -/
structure Plugins where
  slots : PluginId → Option PluginSlot := fun _ => none
  nextPlugin : PluginId := 0
  fibers : List FiberEntry := []
  nextFiber : FiberId := 0
  /-- The state of the cell is `Disposed`; others may hold the cell after it has left the arena. -/
  disposed : FiberId → Bool := fun _ => false
  /-- The generations that were handed out, each with its plugin, in this order. -/
  handedOut : List (PluginId × GenerationId) := []
  threads : List Thread := []

namespace Plugins

variable (s : Plugins)

def setSlot (p : PluginId) (slot : Option PluginSlot) : Plugins :=
  { s with slots := Function.update s.slots p slot }

def create : Plugins × PluginId :=
  ({ s.setSlot s.nextPlugin (some {}) with nextPlugin := s.nextPlugin + 1 }, s.nextPlugin)

def allocateGeneration (p : PluginId) : Except CordisError (Plugins × GenerationId) :=
  match s.slots p with
  | none => .error (.Invariant "logical plugin slot disappeared")
  | some slot =>
    if slot.nextGeneration + 1 < 2 ^ 64 then
      .ok ({ s.setSlot p (some { slot with nextGeneration := slot.nextGeneration + 1 }) with
        handedOut := s.handedOut ++ [(p, slot.nextGeneration)] }, slot.nextGeneration)
    else .error (.Invariant "plugin generation space exhausted")

def attachFiber (p : PluginId) : Except CordisError Plugins :=
  match s.slots p with
  | none => .error (.Invariant "logical plugin slot disappeared")
  | some slot =>
    if slot.fiberCount + 1 < 2 ^ 64 then
      .ok (s.setSlot p (some { slot with fiberCount := slot.fiberCount + 1 }))
    else .error (.Invariant "plugin fiber count overflow")

def detachFiber (p : PluginId) : Except CordisError Plugins :=
  match s.slots p with
  | none => .error (.Invariant "logical plugin slot disappeared during fiber detach")
  | some slot =>
    if 0 < slot.fiberCount then
      .ok (s.setSlot p (some { slot with fiberCount := slot.fiberCount - 1 }))
    else .error (.Invariant "plugin fiber count underflow")

/-- Both callers go on after an error. -/
def detached (p : PluginId) : Plugins :=
  match s.detachFiber p with
  | .ok u => u
  | .error _ => s

def reclaimIfDead (p : PluginId) : Plugins × Bool :=
  match s.slots p with
  | some slot =>
    if slot.fiberCount = 0 ∧ slot.active = .NONE then (s.setSlot p none, true) else (s, false)
  | none => (s, false)

def find (f : FiberId) : Option FiberEntry := s.fibers.find? (·.id = f)

def insertFiber (p : PluginId) : Plugins × FiberId :=
  ({ s with fibers := s.fibers ++ [⟨s.nextFiber, p⟩], nextFiber := s.nextFiber + 1 }, s.nextFiber)

def removeFiber (f : FiberId) : Plugins := { s with fibers := s.fibers.filter (·.id ≠ f) }

/-- How many Fibers in the arena have this plugin. -/
def fibersOf (p : PluginId) : Nat := s.fibers.countP (·.plugin = p)

/-- The generations handed out for a plugin. -/
def generations (p : PluginId) : List GenerationId :=
  (s.handedOut.filter (·.1 = p)).map (·.2)

end Plugins

/-- One step of `collect_garbage`, as far as slots and arena go. -/
def stepCollect (s : Plugins) : CollectPc → Option (Plugins × CollectPc)
  | .snapshot => some (s, .read s.fibers [])
  | .read (e :: todo) disposed =>
    some (s, .read todo (if s.disposed e.id then disposed ++ [e] else disposed))
  | .read [] disposed => some (s, .remove disposed [])
  | .remove (e :: todo) removed =>
    match s.find e.id with
    | none => some (s, .remove todo removed)
    | some _ => some (s.removeFiber e.id, .remove todo (removed ++ [e]))
  | .remove [] removed => some (s, .detach removed)
  | .detach (e :: removed) => some (s.detached e.plugin, .reclaim e.plugin removed)
  | .detach [] => some (s, .done)
  | .reclaim p removed => some ((s.reclaimIfDead p).1, .detach removed)
  | .done => none

/-- One step of `install_arc`; `refusal` is what the rest of the runtime has against it. -/
def stepInstall (max : Nat) (refusal : Option CordisError) (s : Plugins) :
    InstallPc → Option (Plugins × InstallPc)
  | .find old =>
    match s.find old with
    | some e => some (s, .room (some e.plugin))
    | none => some (s, .done (.error .FiberNotFound))
  | .room logical =>
    some (s, if s.fibers.length ≥ max then .collect logical .snapshot else .check logical)
  | .collect logical .done => some (s, .check logical)
  | .collect logical pc => (stepCollect s pc).map fun r => (r.1, .collect logical r.2)
  | .check logical =>
    match refusal with
    | some error => some (s, .done (.error error))
    | none =>
      if s.fibers.length ≥ max then
        some (s, .done (.error (.ResourceLimitExceeded .Fibers max)))
      else
        match logical with
        | some p => some (s, .allocate p)
        | none => some (s, .create)
  | .create => some (s.create.1, .allocate s.create.2)
  | .allocate p =>
    match s.allocateGeneration p with
    | .ok (u, generation) => some (u, .attach p generation)
    | .error error => some (s, .done (.error error))
  | .attach p generation =>
    match s.attachFiber p with
    | .ok u => some (u, .insert p generation)
    | .error error => some (s, .done (.error error))
  | .insert p _ => some ((s.insertFiber p).1, .validate (s.insertFiber p).2)
  | .validate f =>
    match refusal with
    | some error => some (s, .remove f error)
    | none => some (s, .done (.ok f))
  | .remove f error =>
    match s.find f with
    | some e => some (s.removeFiber f, .detach e.plugin error)
    | none => some (s, .done (.error error))
  | .detach p error => some (s.detached p, .reclaim p error)
  | .reclaim p error => some ((s.reclaimIfDead p).1, .done (.error error))
  | .done _ => none

/-- One step of `activate_body` towards the generation of a restarted Fiber. -/
def stepRestart (s : Plugins) (f : FiberId) : RestartPc → Option (Plugins × RestartPc)
  | .find =>
    match s.find f with
    | some e => some (s, .allocate e.plugin)
    | none => some (s, .done (.error .FiberNotFound))
  | .allocate p =>
    match s.allocateGeneration p with
    | .ok (u, generation) => some (u, .done (.ok generation))
    | .error error => some (s, .done (.error error))
  | .done _ => none

def stepThread (max : Nat) (refusal : Option CordisError) (s : Plugins) :
    Thread → Option (Plugins × Thread)
  | .install pc => (stepInstall max refusal s pc).map fun r => (r.1, .install r.2)
  | .restart f pc => (stepRestart s f pc).map fun r => (r.1, .restart f r.2)
  | .collect pc => (stepCollect s pc).map fun r => (r.1, .collect r.2)

namespace Plugins

inductive Label
  | install
  | reload (old : FiberId)
  | restart (fiber : FiberId)
  | collect
  | run (n : Nat) (refusal : Option CordisError)
  | dispose (fiber : FiberId)
  /-- `GenerationSelector::switch`. -/
  | switch (plugin : PluginId) (expected next : GenerationId)

def spawn (s : Plugins) (thread : Thread) : Plugins := { s with threads := s.threads ++ [thread] }

def switchSelector (s : Plugins) (p : PluginId) (expected next : GenerationId) : Plugins :=
  match s.slots p with
  | some slot => if slot.active = expected then s.setSlot p (some { slot with active := next }) else s
  | none => s

def step (max : Nat) (s : Plugins) : Label → Option Plugins
  | .install => some (s.spawn (.install (.room none)))
  | .reload old => some (s.spawn (.install (.find old)))
  | .restart f => some (s.spawn (.restart f .find))
  | .collect => some (s.spawn (.collect .snapshot))
  | .run n refusal => do
    let thread ← s.threads[n]?
    let (u, thread') ← stepThread max refusal s thread
    some { u with threads := s.threads.set n thread' }
  | .dispose f => some { s with disposed := Function.update s.disposed f true }
  | .switch p expected next => some (s.switchSelector p expected next)

end Plugins

end Cordis.PluginRegistry
