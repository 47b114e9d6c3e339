import Cordis.Fiber.Permanence
import Cordis.Fiber.Writes

/-!
# A Fiber whose sections are refused admission

Three sections of an activation ask the admission gate again, and so does every Context call. A
section that is refused, or does not ask, adds to no ledger and starts nothing.
-/

namespace Cordis

/-- The section runs under an admission guard. -/
def FiberLabel.admitted : FiberLabel → Bool
  | activationBegin _ admitted _ | activationSeal _ admitted => admitted
  | activationCommit _ checked _ => checked.isOk
  | register _ | cutover .. => true
  | _ => false

/-- Every ledger of `r'` is what is left of that of `r`. -/
structure FiberMutable.Sheds (r r' : FiberMutable) : Prop where
  effects : r'.effects.Sublist r.effects
  tasks : r'.tasks.Sublist r.tasks
  handlers : r'.handlers.Sublist r.handlers
  invocationHandlers : r'.invocationHandlers.Sublist r.invocationHandlers
  invocationMiddleware : r'.invocationMiddleware.Sublist r.invocationMiddleware
  provided : r'.provided.Sublist r.provided
  childScopes : r'.childScopes.Sublist r.childScopes

/-- Nothing is added to the ledgers and nothing starts. -/
structure FiberMutable.Wanes (r r' : FiberMutable) : Prop extends r.Sheds r' where
  starting : r'.state = .Starting → r.state = .Starting

variable {c c' : FiberCell} {l : FiberLabel}

theorem FiberMutable.Sheds.refl (r : FiberMutable) : r.Sheds r :=
  ⟨.refl _, .refl _, .refl _, .refl _, .refl _, .refl _, .refl _⟩

theorem FiberMutable.Wanes.refl (r : FiberMutable) : r.Wanes r := { FiberMutable.Sheds.refl r with starting := id }

/-- **Only a registration adds to a ledger.** -/
theorem step_sheds (h : c.step l = some c') (hl : ∀ entry, l ≠ .register entry) : c.inner.Sheds c'.inner := by
  have hrefl := FiberMutable.Sheds.refl c.inner
  cases step_writes h with
  | registered entry label => exact absurd label (hl entry)
  | emptied _ _ inner =>
    rw [inner]
    exact { hrefl with tasks := List.nil_sublist _ }
  | childDone _ _ _ _ _ inner =>
    rw [inner]
    exact { hrefl with childScopes := List.filter_sublist }
  | handlerTaken _ _ inner =>
    rw [inner]
    exact { hrefl with handlers := List.dropLast_sublist _ }
  | invocationHandlerTaken _ _ inner =>
    rw [inner]
    exact { hrefl with invocationHandlers := List.dropLast_sublist _ }
  | middlewareTaken _ _ inner =>
    rw [inner]
    exact { hrefl with invocationMiddleware := List.dropLast_sublist _ }
  | withdrawn _ _ _ inner =>
    rw [inner]
    exact { hrefl with provided := List.dropLast_sublist _ }
  | effectTaken _ _ _ _ _ _ inner =>
    rw [inner]
    exact { hrefl with effects := List.dropLast_sublist _ }
  | detached _ _ inner =>
    rw [inner]
    exact { hrefl with tasks := List.filter_sublist }
  | _ =>
    rename_i inner
    rw [inner]
    exact { hrefl with }

theorem tasks_of_step (h : c.step l = some c') {id : Nat} (hid : id ∈ c'.inner.tasks) :
    id ∈ c.inner.tasks ∨ l = .register (.task id) := by
  by_cases hl : ∃ entry, l = .register entry
  swap
  · exact .inl ((step_sheds h fun entry heq => hl ⟨entry, heq⟩).tasks.subset hid)
  obtain ⟨entry, rfl⟩ := hl
  obtain ⟨-, rfl⟩ := step_registers h
  cases entry with
  | task task =>
    rcases List.mem_append.mp hid with hwas | hnew
    · exact .inl hwas
    · exact .inr (by rw [List.mem_singleton.mp hnew])
  | _ => exact .inl hid

/-- **A section without an admission guard adds to no ledger and starts nothing.** -/
theorem step_wanes (hc : c.control.Consistent) (h : c.step l = some c') (hl : l.admitted = false) :
    c.inner.Wanes c'.inner := by
  have hregister : ∀ entry, l ≠ .register entry := by
    rintro entry rfl
    cases hl
  refine { step_sheds h hregister with starting := fun hnow => ?_ }
  cases step_writes h with
  | halted _ _ label | renewed _ _ label | started _ _ label | sealed _ label | committed _ label
  | cutover _ _ label | registered _ label =>
    subst label
    cases hl
  | opened _ _ _ _ _ _ inner | deferred _ _ _ _ inner | marked _ _ _ _ inner | restored _ _ _ inner
  | parked _ inner | hostFailed _ _ inner =>
    rw [inner] at hnow
    contradiction
  | failed _ _ _ _ inner =>
    rw [inner] at hnow
    by_contra hstate
    exact hstate ((if_neg hstate).symm.trans hnow)
  | finalized result target terminated _ worker inner =>
    rw [inner] at hnow
    -- a worker aims at `Disposed` or `WaitingDependencies`
    cases terminated with
    | true => exact hnow
    | false =>
      cases target with
      | none => exact hnow
      | some t => rcases hc.target _ t worker rfl with rfl | rfl <;> contradiction
  | _ =>
    rename_i inner
    rwa [inner] at hnow

end Cordis
