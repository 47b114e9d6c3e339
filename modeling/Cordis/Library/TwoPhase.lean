import Cordis.Library.Machine

/-!
# Check, then act

A section of a machine may rest on a check that another lock protects: the thread checks, lets go,
and acts later on what it has found. `TwoPhase` takes such sections of an atomic machine apart. An act
whose check is still true is a section of the atomic machine, so what its sections keep fails only
where an act goes through on a check that has gone stale.
-/

/-- A machine with the sections that come apart into a check and an act. -/
structure TwoPhase (σ α : Type*) where
  /-- The atomic machine: check and act in one section. -/
  step : σ → α → Option σ
  split : α → Bool
  check : σ → α → Bool
  act : σ → α → Option σ
  /-- The act goes through; otherwise something else than its check has refused it. -/
  effective : σ → α → Bool
  agree : ∀ s a, split a = true → check s a = true → act s a = step s a

namespace TwoPhase

/-- The machine and, for each thread, the section whose check it has passed. -/
structure State (σ τ α : Type*) where
  inner : σ
  passed : τ → Option α

inductive Label (τ α : Type*)
  /-- A section that does not come apart. -/
  | whole (a : α)
  /-- Thread `t` checks for `a`; when the check fails, the section ends there. -/
  | check (t : τ) (a : α)
  | act (t : τ)

variable {σ τ α : Type*} [DecidableEq τ] (m : TwoPhase σ α)

/-- Nobody has passed a check. -/
def start (s : σ) : State σ τ α := ⟨s, fun _ => none⟩

def run (s : State σ τ α) : Label τ α → Option (State σ τ α)
  | .whole a =>
    if m.split a then none else (m.step s.inner a).map fun x => { s with inner := x }
  | .check t a =>
    if m.split a then
      if m.check s.inner a then some { s with passed := Function.update s.passed t (some a) }
      else (m.step s.inner a).map fun x => { s with inner := x }
    else none
  | .act t =>
    match s.passed t with
    | none => none
    | some a => (m.act s.inner a).map fun x => ⟨x, Function.update s.passed t none⟩

/-- An act that goes through finds the check of its thread still true. -/
def Fresh (s : State σ τ α) : Label τ α → Prop
  | .act t => (s.passed t).all (fun a => !m.effective s.inner a || m.check s.inner a) = true
  | _ => True

instance (s : State σ τ α) (l : Label τ α) : Decidable (m.Fresh s l) := by
  cases l <;> unfold Fresh <;> infer_instance

/-- A section that does not come apart meets `ok`. -/
def Whole (ok : σ → α → Prop) (s : State σ τ α) : Label τ α → Prop
  | .whole a => ok s.inner a
  | _ => True

instance {ok : σ → α → Prop} [∀ s a, Decidable (ok s a)] (s : State σ τ α) (l : Label τ α) :
    Decidable (Whole ok s l) := by
  cases l <;> unfold Whole <;> infer_instance

variable {m} {s s' t : State σ τ α} {l : Label τ α}

/-- Only sections that come apart are ever under way. -/
def Apart (m : TwoPhase σ α) (s : State σ τ α) : Prop :=
  ∀ t a, s.passed t = some a → m.split a = true

omit [DecidableEq τ] in
theorem apart_start (s : σ) : m.Apart (start s : State σ τ α) :=
  fun _ _ h => by cases h

theorem apart_run (hs : m.Apart s) (h : m.run s l = some s') : m.Apart s' := by
  cases l with
  | whole a =>
    simp only [run] at h
    split_ifs at h
    obtain ⟨x, -, rfl⟩ := Option.map_eq_some_iff.mp h
    exact hs
  | check t a =>
    simp only [run] at h
    split_ifs at h with hsplit
    · cases h
      intro u b hb
      by_cases hu : u = t
      · subst hu
        obtain rfl : a = b := by simpa using hb
        exact hsplit
      · exact hs u b ((Function.update_of_ne hu _ s.passed).symm.trans hb)
    · obtain ⟨x, -, rfl⟩ := Option.map_eq_some_iff.mp h
      exact hs
  | act t =>
    simp only [run] at h
    split at h <;> try contradiction
    obtain ⟨x, -, rfl⟩ := Option.map_eq_some_iff.mp h
    intro u b hb
    by_cases hu : u = t
    · subst hu
      simp at hb
    · exact hs u b ((Function.update_of_ne hu _ s.passed).symm.trans hb)

/-- What a step is for the atomic machine. -/
inductive Atomic (m : TwoPhase σ α) (l : Label τ α) (x y : σ) : Prop
  | still (same : y = x)
  | made (a : α) (step : m.step x a = some y) (whole : m.split a = false → l = .whole a)
  | refused (a : α) (split : m.split a = true) (idle : m.effective x a = false) (act : m.act x a = some y)

theorem run_fresh (hs : m.Apart s) (hfresh : m.Fresh s l) (h : m.run s l = some s') :
    m.Atomic l s.inner s'.inner := by
  cases l with
  | whole a =>
    simp only [run] at h
    split_ifs at h
    obtain ⟨x, hx, rfl⟩ := Option.map_eq_some_iff.mp h
    exact .made a hx fun _ => rfl
  | check t a =>
    simp only [run] at h
    split_ifs at h with hsplit
    · cases h
      exact .still rfl
    · obtain ⟨x, hx, rfl⟩ := Option.map_eq_some_iff.mp h
      exact .made a hx fun hwhole => absurd hsplit (by simp [hwhole])
  | act t =>
    simp only [run] at h
    split at h <;> try contradiction
    rename_i a ha
    obtain ⟨x, hx, rfl⟩ := Option.map_eq_some_iff.mp h
    have hsplit := hs t a ha
    cases heffective : m.effective s.inner a with
    | false => exact .refused a hsplit heffective hx
    | true =>
      have hcheck : m.check s.inner a = true := by
        simpa [Fresh, ha, heffective] using hfresh
      rw [m.agree s.inner a hsplit hcheck] at hx
      exact .made a hx fun hwhole => absurd hsplit (by simp [hwhole])

/-- **What the sections of the atomic machine and the refused acts keep, every run keeps** whose acts are
fresh. What the run says of the sections that do not come apart may be used of them. -/
theorem invariant {ok : σ → α → Prop} {I : σ → Prop} {s₀ : σ} (hstart : I s₀)
    (hstep : ∀ x a y, I x → (m.split a = false → ok x a) → m.step x a = some y → I y)
    (hrefused : ∀ x a y, I x → m.split a = true → m.effective x a = false → m.act x a = some y → I y)
    (h : Machine.Reach m.run (fun s l => m.Fresh s l ∧ Whole ok s l) (start s₀ : State σ τ α) t) :
    I t.inner := by
  have hboth : m.Apart t ∧ I t.inner := by
    refine h.invariant (I := fun t => m.Apart t ∧ I t.inner) ⟨apart_start s₀, hstart⟩ ?_
    rintro s l s' ⟨hapart, hs⟩ ⟨hfresh, hok⟩ hrun
    refine ⟨apart_run hapart hrun, ?_⟩
    cases run_fresh hapart hfresh hrun with
    | still same => exact same ▸ hs
    | made a ha hlabel =>
      refine hstep _ a _ hs (fun hwhole => ?_) ha
      rw [hlabel hwhole] at hok
      exact hok
    | refused a hsplit hidle hact => exact hrefused _ a _ hs hsplit hidle hact
  exact hboth.2

end TwoPhase
