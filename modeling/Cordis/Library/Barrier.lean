import Cordis.Library.Machine

/-!
# A gate in front of a machine

A read-write lock with a flag guards the sections of a machine. `enter` takes the read lock, looks at
the flag and keeps the lock while it is up; `close` takes the write lock, so it waits until nobody
holds the read lock, and lowers the flag. Some sections run only under a guard or, when `enter` was
refused, on the path of the refusal. Then a guard is held only while the flag is up, and after
`close` nothing but sections without a guard can run.
-/

/-- A machine whose sections may be behind a gate: the flag is part of its state. -/
structure Barrier (σ α : Type*) where
  step : σ → α → Option σ
  isOpen : σ → Bool
  lower : σ → σ
  /-- The section runs under a guard, or because `enter` was refused. -/
  gated : α → Bool

namespace Barrier

/-- The machine and the threads that hold the read lock. -/
structure State (σ τ : Type*) where
  inner : σ
  guards : List τ

inductive Label (τ α : Type*)
  | enter (t : τ)
  | leave (t : τ)
  | inside (t : τ) (a : α)
  | outside (a : α)
  | close

variable {σ τ α : Type*} [DecidableEq τ] (b : Barrier σ α)

def gate (s : State σ τ) : Label τ α → Option (State σ τ)
  | .enter t => if b.isOpen s.inner then some { s with guards := t :: s.guards } else none
  | .leave t => if t ∈ s.guards then some { s with guards := s.guards.erase t } else none
  | .inside t a =>
    if t ∈ s.guards then (b.step s.inner a).map fun x => { s with inner := x } else none
  | .outside a =>
    if b.gated a ∧ b.isOpen s.inner then none
    else (b.step s.inner a).map fun x => { s with inner := x }
  | .close => if s.guards = [] then some { s with inner := b.lower s.inner } else none

/-- In the states that satisfy `I` only `lower` moves the flag, and lowering it again does nothing. -/
structure Sane (I : σ → Prop) : Prop where
  kept : ∀ x a y, I x → b.step x a = some y → I y ∧ b.isOpen y = b.isOpen x
  lowered : ∀ x, I x → I (b.lower x) ∧ b.isOpen (b.lower x) = false
  again : ∀ x, b.isOpen x = false → b.lower x = x

variable {b} {I : σ → Prop} {s s' t : State σ τ} {l : Label τ α}

/-- What holds of the machine is kept behind the gate. -/
theorem gate_invariant (hb : b.Sane I) (hs : I s.inner) (h : b.gate s l = some s') :
    I s'.inner := by
  cases l with
  | enter t | leave t =>
    simp only [gate] at h
    split_ifs at h
    cases h
    exact hs
  | inside t a | outside a =>
    simp only [gate] at h
    split_ifs at h
    obtain ⟨x, hx, rfl⟩ := Option.map_eq_some_iff.mp h
    exact (hb.kept _ _ _ hs hx).1
  | close =>
    simp only [gate] at h
    split_ifs at h
    cases h
    exact (hb.lowered _ hs).1

/-- Whoever holds a guard sees the flag up. -/
def Held (b : Barrier σ α) (s : State σ τ) : Prop := s.guards ≠ [] → b.isOpen s.inner = true

theorem held_step (hb : b.Sane I) (hs : I s.inner) (hheld : b.Held s)
    (h : b.gate s l = some s') : b.Held s' := by
  cases l with
  | enter t =>
    simp only [gate] at h
    split_ifs at h with hopen
    cases h
    exact fun _ => hopen
  | leave t =>
    simp only [gate] at h
    split_ifs at h with ht
    cases h
    exact fun _ => hheld (List.ne_nil_of_mem ht)
  | inside t a =>
    simp only [gate] at h
    split_ifs at h with ht
    obtain ⟨x, hx, rfl⟩ := Option.map_eq_some_iff.mp h
    intro hne
    rw [(hb.kept _ _ _ hs hx).2]
    exact hheld hne
  | outside a =>
    simp only [gate] at h
    split_ifs at h
    obtain ⟨x, hx, rfl⟩ := Option.map_eq_some_iff.mp h
    intro hne
    rw [(hb.kept _ _ _ hs hx).2]
    exact hheld hne
  | close =>
    simp only [gate] at h
    split_ifs at h with hnone
    cases h
    exact fun hne => absurd hnone hne

/-- The write lock was waited for: when `close` has returned, the flag is down and nobody holds a
guard. -/
theorem closed_close (hb : b.Sane I) (hs : I s.inner) (h : b.gate s .close = some s') :
    b.isOpen s'.inner = false ∧ s'.guards = [] := by
  simp only [gate] at h
  split_ifs at h with hnone
  cases h
  exact ⟨(hb.lowered s.inner hs).2, hnone⟩

theorem closed_step (hb : b.Sane I) (hs : I s.inner) (hclosed : b.isOpen s.inner = false)
    (hnone : s.guards = []) (h : b.gate s l = some s') :
    (b.isOpen s'.inner = false ∧ s'.guards = []) ∧
      (s'.inner = s.inner ∨ ∃ a, l = .outside a ∧ b.step s.inner a = some s'.inner) := by
  cases l with
  | enter t => simp [gate, hclosed] at h
  | leave t => simp [gate, hnone] at h
  | inside t a => simp [gate, hnone] at h
  | outside a =>
    simp only [gate] at h
    split_ifs at h
    obtain ⟨x, hx, rfl⟩ := Option.map_eq_some_iff.mp h
    refine ⟨⟨?_, hnone⟩, .inr ⟨a, rfl, hx⟩⟩
    rw [(hb.kept _ _ _ hs hx).2]
    exact hclosed
  | close =>
    have hafter := closed_close hb hs h
    simp only [gate] at h
    split_ifs at h
    cases h
    exact ⟨hafter, .inl (hb.again _ hclosed)⟩

theorem closed_reach (hb : b.Sane I) {ok : State σ τ → Label τ α → Prop} (hs : I s.inner)
    (hclosed : b.isOpen s.inner = false) (hnone : s.guards = [])
    (h : Machine.Reach b.gate ok s t) :
    I t.inner ∧ b.isOpen t.inner = false ∧ t.guards = [] := by
  induction h with
  | refl => exact ⟨hs, hclosed, hnone⟩
  | tail _ _ hstep ih =>
    obtain ⟨hs, hclosed, hnone⟩ := ih
    exact ⟨gate_invariant hb hs hstep, (closed_step hb hs hclosed hnone hstep).1⟩

end Barrier
