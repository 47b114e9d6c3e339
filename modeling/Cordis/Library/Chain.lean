import Mathlib.Order.Basic
import Mathlib.Tactic.Common

/-!
# Following parents

`up x` is the parent of `x`, if it has one. `Chain.length` follows the parents from a node and counts
the nodes it meets; `Chain.Ends` says how many there are, with no bound on the search. Moving a node
to the parent of its parent, and cutting a chain, make no chain longer.
-/

namespace Chain

variable {α : Type*} {up up' : α → Option α} {n m fuel : Nat}

/-- The number of nodes on the chain `x, up x, up (up x), …`, at most `fuel`. -/
def length (up : α → Option α) : Nat → Option α → Nat
  | 0, _ => 0
  | _ + 1, none => 0
  | fuel + 1, some x => length up fuel (up x) + 1

/-- The chain from `x` ends after `n` nodes. -/
inductive Ends (up : α → Option α) : Option α → Nat → Prop
  | done : Ends up none 0
  | more {x : α} {n : Nat} : Ends up (up x) n → Ends up (some x) (n + 1)

theorem Ends.length_eq {x : Option α} (h : Ends up x n) (hfuel : n ≤ fuel) :
    length up fuel x = n := by
  induction h generalizing fuel with
  | done => cases fuel <;> rfl
  | @more x n _ ih =>
    cases fuel with
    | zero => exact absurd hfuel (Nat.not_succ_le_zero n)
    | succ fuel => exact congrArg (· + 1) (ih (Nat.le_of_succ_le_succ hfuel))

/-- Where parents have a smaller number every chain ends, and the number bounds its length. -/
theorem exists_ends (number : α → Nat) (h : ∀ x, ∀ y ∈ up x, number y < number x) (x : α) :
    ∃ n ≤ number x + 1, Ends up (some x) n := by
  induction hx : number x using Nat.strongRecOn generalizing x with
  | ind k ih =>
    subst hx
    cases hup : up x with
    | none => exact ⟨1, Nat.succ_le_succ (Nat.zero_le _), .more (hup ▸ .done)⟩
    | some y =>
      have hlt := h x y hup
      obtain ⟨n, hn, hends⟩ := ih (number y) hlt y rfl
      exact ⟨n + 1, by omega, .more (hup ▸ hends)⟩

/-- `up'` takes each node of `p` off the chain, leaves it there or moves it to its grandparent. -/
def Shortens (p : α → Prop) (up up' : α → Option α) : Prop :=
  ∀ x, p x → (up' x = none ∨ up' x = up x ∨ up' x = (up x).bind up) ∧ ∀ y ∈ up' x, p y

theorem Ends.shortened {p : α → Prop} {x : Option α} (hp : Shortens p up up') (hx : ∀ y ∈ x, p y)
    (h : Ends up x n) (h' : Ends up' x m) : m ≤ n := by
  induction h' generalizing n with
  | done => exact Nat.zero_le _
  | @more x m h' ih =>
    obtain ⟨hup, hnext⟩ := hp x (hx x rfl)
    cases h with
    | more h =>
      rename_i n
      refine Nat.succ_le_succ ?_
      rcases hup with hup | hup | hup
      · rw [hup] at h'
        cases h'
        exact Nat.zero_le _
      · exact ih hnext (hup ▸ h)
      · cases hparent : up x with
        | none =>
          rw [hup, hparent] at h'
          cases h'
          exact Nat.zero_le _
        | some y =>
          rw [hparent] at h hup
          cases h with
          | more h => exact Nat.le_succ_of_le (ih hnext (hup.symm ▸ h))

end Chain
