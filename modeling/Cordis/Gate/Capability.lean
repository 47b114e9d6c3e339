import Cordis.Fiber.Record
import Mathlib.Logic.Function.Basic

/-!
# Gates that share selectors

The generations of one plugin have a gate each and share one selector. Selectors and gates are named by
numbers; the selector and the generation of a gate never change. A step is one atomic operation of one
call of `publish`, `close` or `cutover_from`; taking a lease and beginning to drain are one operation
each, on the record that the packed word stands for.
-/

namespace Cordis

/-- Selectors, and the gates that share them. -/
structure Gates where
  active : Nat → GenerationId
  selector : Nat → Nat
  gate : Nat → CapabilityGate

namespace Gates

variable (s : Gates)

def generation (g : Nat) : GenerationId := (s.gate g).generation

/-- `GenerationSelector::switch`. -/
def switch (k : Nat) (expected next : GenerationId) : Gates × Bool :=
  if s.active k = expected then ({ s with active := Function.update s.active k next }, true)
  else (s, false)

/-- `retired.store(true)`. -/
def retire (g : Nat) : Gates :=
  { s with gate := Function.update s.gate g { s.gate g with retired := true } }

/-- The gate with a new execution word. -/
def withExecution (g : Nat) (x : GenerationExecution) : Gates :=
  { s with gate := Function.update s.gate g { s.gate g with execution := x } }

def beginDraining (g : Nat) : Gates := s.withExecution g (s.gate g).execution.beginDraining

def tryAcquire (g : Nat) : Option Gates := (s.gate g).execution.tryAcquire.map (s.withExecution g)

/-- A lease is dropped. -/
def dropInflight (g : Nat) : Option Gates := (s.gate g).execution.dropInflight.map (s.withExecution g)

def accepting (g : Nat) : Bool := (s.gate g).execution.accepting

/-- The leases on a gate. -/
def inflight (g : Nat) : Nat := (s.gate g).execution.inflight

end Gates

/-- A call on a gate. -/
inductive GateOp
  | publish
  | close
  | cutoverFrom (old : Nat)
  deriving DecidableEq

/-- Where a call on a gate stands. -/
inductive GatePc
  | begin
  | switch
  | retire
  | drain
  | done (answer : Bool)
  deriving DecidableEq

/-- One atomic operation of a call on gate `g`. -/
def stepGate (s : Gates) (g : Nat) : GateOp → GatePc → Option (Gates × GatePc)
  | .publish, .begin => some (s, if (s.gate g).retired then .done false else .switch)
  | .publish, .switch =>
    let p := s.switch (s.selector g) GenerationId.NONE (s.generation g)
    some (p.1, .done p.2)
  | .close, .begin => some (s.retire g, .switch)
  | .close, .switch => some ((s.switch (s.selector g) (s.generation g) GenerationId.NONE).1, .drain)
  | .close, .drain => some (s.beginDraining g, .done true)
  | .cutoverFrom old, .begin =>
    some (s, if (s.gate g).retired ∨ s.selector g ≠ s.selector old then .done false else .switch)
  | .cutoverFrom old, .switch =>
    let p := s.switch (s.selector g) (s.generation old) (s.generation g)
    some (p.1, if p.2 then .retire else .done false)
  | .cutoverFrom old, .retire => some (s.retire old, .drain)
  | .cutoverFrom old, .drain => some (s.beginDraining old, .done true)
  | _, _ => none

/-- `VisibilityCache`: the active generation of each selector that was looked at. -/
abbrev VisibilityCache := List (Nat × GenerationId)

/-- `VisibilityCache::visible`. -/
def VisibilityCache.visible (cache : VisibilityCache) (s : Gates) (g : Nat) : VisibilityCache × Bool :=
  match cache.lookup (s.selector g) with
  | some active => (cache, active == s.generation g)
  | none =>
    ((s.selector g, s.active (s.selector g)) :: cache, s.active (s.selector g) == s.generation g)

/-! ## What stays -/

/-- The same gates on the same selectors. -/
structure Gates.Same (s t : Gates) : Prop where
  selector : t.selector = s.selector
  generation : t.generation = s.generation

namespace Gates

variable {s t : Gates} {g k : Nat}

theorem Same.refl (s : Gates) : Same s s := ⟨rfl, rfl⟩

theorem withExecution_same (s : Gates) (g : Nat) (x : GenerationExecution) :
    Same s (s.withExecution g x) := by
  refine ⟨rfl, funext fun m => ?_⟩
  by_cases hm : m = g
  · subst hm
    simp [generation, withExecution]
  · simp [generation, withExecution, Function.update_of_ne hm]

theorem retire_same (s : Gates) (g : Nat) : Same s (s.retire g) := by
  refine ⟨rfl, funext fun m => ?_⟩
  by_cases hm : m = g
  · subst hm
    simp [generation, retire]
  · simp [generation, retire, Function.update_of_ne hm]

theorem switch_same (s : Gates) (k : Nat) (a b : GenerationId) : Same s (s.switch k a b).1 := by
  unfold switch
  split_ifs <;> exact ⟨rfl, rfl⟩

theorem switch_gate (s : Gates) (k : Nat) (a b : GenerationId) : (s.switch k a b).1.gate = s.gate := by
  unfold switch
  split_ifs <;> rfl

theorem tryAcquire_eq (h : s.tryAcquire g = some t) :
    s.accepting g = true ∧ t = s.withExecution g ⟨(s.gate g).execution.accepting, s.inflight g + 1⟩ := by
  obtain ⟨x, hx, rfl⟩ := Option.map_eq_some_iff.mp h
  unfold GenerationExecution.tryAcquire at hx
  split_ifs at hx with haccepting
  cases hx
  exact ⟨haccepting, rfl⟩

theorem tryAcquire_of_accepting (h : s.accepting g = true) : ∃ t, s.tryAcquire g = some t := by
  refine ⟨s.withExecution g ⟨(s.gate g).execution.accepting, s.inflight g + 1⟩, ?_⟩
  have hacquire : (s.gate g).execution.tryAcquire =
      some ⟨(s.gate g).execution.accepting, s.inflight g + 1⟩ := if_pos h
  unfold tryAcquire
  rw [hacquire]
  rfl

theorem not_accepting_of_tryAcquire (h : s.tryAcquire g = none) : s.accepting g = false := by
  by_contra haccepting
  rw [Bool.not_eq_false] at haccepting
  obtain ⟨t, ht⟩ := tryAcquire_of_accepting haccepting
  rw [h] at ht
  cases ht

theorem dropInflight_eq (h : s.dropInflight g = some t) :
    s.inflight g ≠ 0 ∧ t = s.withExecution g ⟨(s.gate g).execution.accepting, s.inflight g - 1⟩ := by
  obtain ⟨x, hx, rfl⟩ := Option.map_eq_some_iff.mp h
  unfold GenerationExecution.dropInflight at hx
  split_ifs at hx with hzero
  cases hx
  exact ⟨hzero, rfl⟩

@[simp] theorem active_withExecution (x : GenerationExecution) :
    (s.withExecution g x).active = s.active := rfl

theorem inflight_withExecution (x : GenerationExecution) (m : Nat) :
    (s.withExecution g x).inflight m = if m = g then x.inflight else s.inflight m := by
  by_cases hm : m = g
  · subst hm
    simp [inflight, withExecution]
  · simp [inflight, withExecution, hm]

theorem accepting_withExecution (x : GenerationExecution) (m : Nat) :
    (s.withExecution g x).accepting m = if m = g then x.accepting else s.accepting m := by
  by_cases hm : m = g
  · subst hm
    simp [accepting, withExecution]
  · simp [accepting, withExecution, hm]

theorem accepting_beginDraining :
    (s.beginDraining g).accepting k = if k = g then false else s.accepting k := by
  unfold beginDraining
  rw [accepting_withExecution]
  split_ifs <;> rfl

theorem accepting_beginDraining_ne (hk : k ≠ g) : (s.beginDraining g).accepting k = s.accepting k := by
  rw [accepting_beginDraining, if_neg hk]

theorem accepting_beginDraining_self : (s.beginDraining g).accepting g = false := by
  rw [accepting_beginDraining, if_pos rfl]

theorem inflight_retire (m : Nat) : (s.retire g).inflight m = s.inflight m := by
  by_cases hm : m = g
  · subst hm
    simp [inflight, retire]
  · simp [inflight, retire, Function.update_of_ne hm]

theorem accepting_retire (m : Nat) : (s.retire g).accepting m = s.accepting m := by
  by_cases hm : m = g
  · subst hm
    simp [accepting, retire]
  · simp [accepting, retire, Function.update_of_ne hm]

theorem inflight_beginDraining (m : Nat) : (s.beginDraining g).inflight m = s.inflight m := by
  unfold beginDraining
  rw [inflight_withExecution]
  split_ifs with hm
  · subst hm
    rfl
  · rfl

end Gates

/-- Gates that differ in the counts of their leases only. -/
structure Gates.Undisturbed (s t : Gates) : Prop extends Gates.Same s t where
  active : t.active = s.active
  accepting : t.accepting = s.accepting
  retired : ∀ g, (t.gate g).retired = (s.gate g).retired

namespace Gates

variable {s t : Gates} {g : Nat}

theorem Undisturbed.refl (s : Gates) : Undisturbed s s := ⟨.refl s, rfl, rfl, fun _ => rfl⟩

theorem retired_withExecution (x : GenerationExecution) (m : Nat) :
    ((s.withExecution g x).gate m).retired = (s.gate m).retired := by
  by_cases hm : m = g
  · subst hm
    simp [withExecution]
  · simp [withExecution, hm]

theorem withExecution_undisturbed {x : GenerationExecution}
    (hx : x.accepting = (s.gate g).execution.accepting) : Undisturbed s (s.withExecution g x) := by
  refine ⟨s.withExecution_same g x, rfl, funext fun m => ?_, retired_withExecution x⟩
  rw [accepting_withExecution]
  split_ifs with hm
  · subst hm
    exact hx
  · rfl

theorem acquired_undisturbed (h : s.tryAcquire g = some t) : Undisturbed s t := by
  obtain ⟨-, rfl⟩ := tryAcquire_eq h
  exact withExecution_undisturbed rfl

theorem dropped_undisturbed (h : s.dropInflight g = some t) : Undisturbed s t := by
  obtain ⟨-, rfl⟩ := dropInflight_eq h
  exact withExecution_undisturbed rfl

end Gates

theorem stepGate_same {s t : Gates} {g : Nat} {op : GateOp} {pc pc' : GatePc}
    (h : stepGate s g op pc = some (t, pc')) : Gates.Same s t ∧ t.inflight = s.inflight := by
  have hswitch : ∀ k a b, (s.switch k a b).1.inflight = s.inflight := by
    intro k a b
    funext m
    show ((s.switch k a b).1.gate m).execution.inflight = _
    rw [s.switch_gate k a b]
    rfl
  unfold stepGate at h
  split at h
  · cases h
    exact ⟨.refl s, rfl⟩
  · cases h
    exact ⟨s.switch_same _ _ _, hswitch _ _ _⟩
  · cases h
    exact ⟨s.retire_same g, funext s.inflight_retire⟩
  · cases h
    exact ⟨s.switch_same _ _ _, hswitch _ _ _⟩
  · cases h
    exact ⟨s.withExecution_same g _, funext s.inflight_beginDraining⟩
  · cases h
    exact ⟨.refl s, rfl⟩
  · cases h
    exact ⟨s.switch_same _ _ _, hswitch _ _ _⟩
  · cases h
    exact ⟨s.retire_same _, funext s.inflight_retire⟩
  · cases h
    exact ⟨s.withExecution_same _ _, funext s.inflight_beginDraining⟩
  · cases h

/-! ## The cache -/

namespace VisibilityCache

variable {cache : VisibilityCache} {s : Gates} {g k : Nat} {a : GenerationId}

theorem lookup_visible (h : cache.lookup k = some a) : (cache.visible s g).1.lookup k = some a := by
  unfold visible
  split
  · exact h
  · rename_i hnone
    rw [List.lookup_cons]
    split
    · rename_i heq
      rw [beq_iff_eq] at heq
      rw [heq, hnone] at h
      cases h
    · exact h

theorem lookup_of_visible (h : (cache.visible s g).2 = true) :
    (cache.visible s g).1.lookup (s.selector g) = some (s.generation g) := by
  unfold visible at h ⊢
  split at h
  · rename_i active hactive
    rw [beq_iff_eq] at h
    rw [← h]
    exact hactive
  · rename_i hnone
    rw [beq_iff_eq] at h
    simp [h]

theorem lookup_of_invisible (h : (cache.visible s g).2 = false) :
    ∃ a, (cache.visible s g).1.lookup (s.selector g) = some a ∧ a ≠ s.generation g := by
  unfold visible at h ⊢
  split at h
  · rename_i active hactive
    exact ⟨active, hactive, beq_eq_false_iff_ne.mp h⟩
  · rename_i hnone
    refine ⟨s.active (s.selector g), ?_, beq_eq_false_iff_ne.mp h⟩
    simp

theorem lookup_visible_cases (cache : VisibilityCache) (s : Gates) (g k : Nat) :
    (cache.visible s g).1.lookup k = cache.lookup k ∨
      cache.lookup k = none ∧ (cache.visible s g).1.lookup k = some (s.active k) := by
  unfold visible
  split
  · exact .inl rfl
  · rename_i hnone
    rw [List.lookup_cons]
    split
    · rename_i heq
      rw [beq_iff_eq] at heq
      subst heq
      exact .inr ⟨hnone, rfl⟩
    · exact .inl rfl

end VisibilityCache

end Cordis
