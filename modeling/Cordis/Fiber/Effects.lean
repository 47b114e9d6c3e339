import Cordis.Fiber.Clearing
import Mathlib.Data.List.Basic

/-!
# The effects of a Fiber

A Context call adds an effect at the end of the ledger, the disposal worker takes the last one out and
invokes it, and nothing else touches the ledger of effects.
-/

namespace Cordis

variable {c c' : FiberCell} {l : FiberLabel}

/-- What a section does to the effects of a Fiber. -/
inductive FiberCell.Effected (l : FiberLabel) (c c' : FiberCell) : Prop
  | kept (effects : c'.inner.effects = c.inner.effects) (label : ∀ id, l ≠ .register (.effect id))
      (untaken : l = .takeEffect → (c.look fun r => r.effects.getLast?) = none)
  | registered (id : Nat) (label : l = .register (.effect id))
      (effects : c'.inner.effects = c.inner.effects ++ [id])
  | taken (id : Nat) (removed : List ServiceSymbol) (label : l = .takeEffect)
      (worker : c.worker = some (.cleaning removed)) (arena : c.inArena = true)
      (effects : c.inner.effects = c'.inner.effects ++ [id])

theorem FiberCell.Effected.same (heq : c'.inner.effects = c.inner.effects)
    (hl : ∀ id, l ≠ .register (.effect id)) (htake : l ≠ .takeEffect) : c.Effected l c' :=
  .kept heq hl fun h => absurd h htake

theorem step_takeEffect (h : c.step .takeEffect = some c') : c.Effected .takeEffect c' := by
  obtain ⟨pc, hw, h⟩ := Option.bind_eq_some_iff.mp h
  simp only [FiberCell.stepWorker, setWorker_eq] at h
  split at h <;> try contradiction
  rename_i removed
  cases hlook : c.look fun r => r.effects.getLast? with
  | none =>
    rw [hlook] at h
    cases h
    refine .kept ?_ (by simp) fun _ => hlook
    split_ifs <;> rfl
  | some id =>
    rw [hlook] at h
    cases h
    obtain ⟨hin, hlast⟩ := look_eq_some hlook
    refine .taken id removed rfl hw hin ?_
    rw [if_pos hin]
    exact (List.dropLast_append_getLast? id hlast).symm

theorem step_effects (h : c.step l = some c') : c.Effected l c' := by
  by_cases htake : l = .takeEffect
  · subst htake
    exact step_takeEffect h
  by_cases hregister : ∃ entry, l = .register entry
  · obtain ⟨entry, rfl⟩ := hregister
    obtain ⟨-, rfl⟩ := step_registers h
    cases entry with
    | effect id => exact .registered id rfl rfl
    | _ => exact .same rfl (by simp) htake
  refine .same ?_ (fun id heq => hregister ⟨_, heq⟩) htake
  cases step_writes h with
  | registered entry label => exact absurd ⟨entry, label⟩ hregister
  | effectTaken _ _ label => exact absurd label htake
  | _ =>
    rename_i inner
    exact congrArg (·.effects) inner

end Cordis
