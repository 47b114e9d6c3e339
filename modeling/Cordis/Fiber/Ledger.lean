import Cordis.Fiber.Writes
import Mathlib.Data.List.Basic

/-!
# The ownership ledger of a Fiber

Only a Context call adds to a ledger and only a cutover rebinds a Fiber to another Scope; every other
section keeps the Fiber's Scope and descriptor and at most takes entries out.
-/

namespace Cordis

/-- `r'` keeps the binding of `r`, and its ledgers at most lose entries. -/
structure FiberMutable.Keeps (r r' : FiberMutable) : Prop where
  scope : r'.scope = r.scope
  descriptor : r'.descriptor = r.descriptor
  staged : r'.staged = true → r.staged = true
  handlers : r'.invocationHandlers.Sublist r.invocationHandlers
  middleware : r'.invocationMiddleware.Sublist r.invocationMiddleware
  provided : r'.provided = r.provided
  children : r'.childScopes.Sublist r.childScopes

theorem FiberMutable.Keeps.refl (r : FiberMutable) : r.Keeps r :=
  ⟨rfl, rfl, id, .refl _, .refl _, rfl, .refl _⟩

/-- `c'` is the same Fiber with at most a smaller ledger. -/
structure FiberCell.Keeps (c c' : FiberCell) : Prop where
  id : c'.id = c.id
  plugin : c'.plugin = c.plugin
  origin : c'.origin = c.origin
  arena : c'.inArena = true → c.inArena = true
  inner : c.inner.Keeps c'.inner

/-- The section adds nothing to the ledgers that other registries mirror, takes no service back and
does not rebind the Fiber. -/
def FiberLabel.plain : FiberLabel → Bool
  | register (.effect _) | register (.handler _) | register (.task _) => true
  | register _ | cutover .. | withdraw => false
  | _ => true

variable {c c' : FiberCell} {l : FiberLabel}

/-- **Every plain section keeps the binding and at most shrinks the ledgers.** -/
theorem step_keeps (h : c.step l = some c') (hl : l.plain = true) : c.Keeps c' := by
  have hsame := step_same h
  refine ⟨hsame.id, hsame.plugin, hsame.origin, hsame.arena, ?_⟩
  cases step_writes h with
  | cutover _ _ label | withdrawn _ label =>
    rw [label] at hl
    contradiction
  | registered entry label _ inner =>
    rw [label] at hl
    rw [inner]
    cases entry <;> first
      | contradiction
      | exact ⟨rfl, rfl, id, .refl _, .refl _, rfl, .refl _⟩
  | committed _ _ _ _ _ _ inner =>
    rw [inner]
    exact ⟨rfl, rfl, by simp, .refl _, .refl _, rfl, .refl _⟩
  | invocationHandlerTaken _ _ inner =>
    rw [inner]
    exact ⟨rfl, rfl, id, List.dropLast_sublist _, .refl _, rfl, .refl _⟩
  | middlewareTaken _ _ inner =>
    rw [inner]
    exact ⟨rfl, rfl, id, .refl _, List.dropLast_sublist _, rfl, .refl _⟩
  | childDone _ _ _ _ _ inner =>
    rw [inner]
    exact ⟨rfl, rfl, id, .refl _, .refl _, rfl, List.filter_sublist⟩
  | _ =>
    rename_i inner
    rw [inner]
    exact ⟨rfl, rfl, id, .refl _, .refl _, rfl, .refl _⟩

theorem step_withdraw (h : c.step .withdraw = some c') :
    c.Keeps { c' with inner := { c'.inner with provided := c.inner.provided } } := by
  have hsame := step_same h
  refine ⟨hsame.id, hsame.plugin, hsame.origin, hsame.arena, ?_⟩
  cases step_writes h with
  | cutover _ _ label | registered _ label | committed _ label | invocationHandlerTaken label
  | middlewareTaken label => cases label
  | childDone _ _ _ _ label => rcases label with label | label <;> cases label
  | _ =>
    rename_i inner
    rw [inner]
    exact ⟨rfl, rfl, id, .refl _, .refl _, rfl, .refl _⟩

theorem step_scope (h : c.step l = some c') (hl : ∀ t a, l ≠ .cutover t a) :
    c'.inner.scope = c.inner.scope := by
  cases step_writes h with
  | cutover target active label => exact absurd label (hl target active)
  | registered entry _ _ inner =>
    rw [inner]
    cases entry <;> rfl
  | _ =>
    rename_i inner
    exact congrArg (·.scope) inner

theorem step_provided (h : c.step l = some c') (hl : l ≠ .withdraw) :
    ∀ k ∈ c.inner.provided, k ∈ c'.inner.provided := by
  intro k hk
  cases step_writes h with
  | withdrawn _ label => exact absurd label hl
  | registered entry _ _ inner =>
    rw [inner]
    cases entry with
    | provided key => exact List.mem_append_left _ hk
    | _ => exact hk
  | _ =>
    rename_i inner
    rw [inner]
    exact hk

theorem provided_of_step (h : c.step l = some c') (hl : ∀ key, l ≠ .register (.provided key)) :
    ∀ k ∈ c'.inner.provided, k ∈ c.inner.provided := by
  intro k hk
  cases step_writes h with
  | withdrawn _ _ _ inner =>
    rw [inner] at hk
    exact List.dropLast_subset _ hk
  | registered entry label _ inner =>
    rw [inner] at hk
    cases entry with
    | provided key => exact absurd label (hl key)
    | _ => exact hk
  | _ =>
    rename_i inner
    rwa [inner] at hk

theorem withdraw_cases (h : c.step .withdraw = some c') :
    ∃ removed, c.worker = some (.withdrawing removed) ∧
      ((c'.worker = some (.cleaning removed) ∧ c'.inner.provided = c.inner.provided) ∨
        ∃ key, c'.worker = some (.withdrawn removed key) ∧ c.inner.provided = c'.inner.provided ++ [key]) := by
  obtain ⟨pc, hw, h⟩ := Option.bind_eq_some_iff.mp h
  simp only [FiberCell.stepWorker, setWorker_eq] at h
  split at h <;> try contradiction
  rename_i removed
  refine ⟨removed, hw, ?_⟩
  unfold FiberCell.look at h
  split_ifs at h with hin
  · split at h <;> cases h
    · rename_i key hkey
      exact .inr ⟨key, rfl, (List.dropLast_append_getLast? key hkey).symm⟩
    · exact .inl ⟨rfl, rfl⟩
  · cases h
    exact .inl ⟨rfl, rfl⟩

end Cordis
