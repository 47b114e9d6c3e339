import Mathlib.Logic.Relation
import Mathlib.Tactic.Common

/-!
# Labelled machines

A machine is an executable partial step function `σ → α → Option σ`: `step s a` is the state after
the atomic section `a`, or `none` when `a` is not enabled in `s`. Interleaving is the choice of the
next label. `Reach step ok s t` says that `t` is reached from `s` by steps that each meet the
condition `ok` in the state they start from; with `fun _ _ => True` it is plain reachability.
-/

namespace Machine

variable {σ α : Type*} {step : σ → α → Option σ} {ok ok' : σ → α → Prop} {s t u : σ}

/-- States reached from `s` by steps that meet `ok` where they start. -/
inductive Reach (step : σ → α → Option σ) (ok : σ → α → Prop) (s : σ) : σ → Prop
  | refl : Reach step ok s s
  | tail {t u : σ} {a : α} : Reach step ok s t → ok t a → step t a = some u → Reach step ok s u

/-- Every step is allowed. -/
def anyStep : σ → α → Prop := fun _ _ => True

/-- The invariant rule: what holds initially and is kept by every allowed step holds of every state
reached by allowed steps. -/
theorem Reach.invariant {I : σ → Prop} (h0 : I s)
    (hstep : ∀ t a u, I t → ok t a → step t a = some u → I u) (h : Reach step ok s t) : I t := by
  induction h with
  | refl => exact h0
  | tail _ hok hs ih => exact hstep _ _ _ ih hok hs

theorem Reach.mono (hok : ∀ t a, ok t a → ok' t a) (h : Reach step ok s t) :
    Reach step ok' s t := by
  induction h with
  | refl => exact .refl
  | tail _ ha hs ih => exact .tail ih (hok _ _ ha) hs

theorem Reach.weaken (h : Reach step ok s t) : Reach step anyStep s t :=
  h.mono fun _ _ _ => trivial

theorem Reach.trans (h : Reach step ok s t) (h' : Reach step ok t u) : Reach step ok s u := by
  induction h' with
  | refl => exact h
  | tail _ ha hs ih => exact .tail ih ha hs

/-- The state after a list of labels, provided each is enabled and meets `ok`. -/
def runIf (step : σ → α → Option σ) (ok : σ → α → Prop) [∀ s a, Decidable (ok s a)] (s : σ) :
    List α → Option σ
  | [] => some s
  | a :: rest => if ok s a then (step s a).bind fun t => runIf step ok t rest else none

/-- The state after a list of labels, provided each is enabled. -/
def run (step : σ → α → Option σ) (s : σ) : List α → Option σ
  | [] => some s
  | a :: rest => (step s a).bind fun t => run step t rest

theorem reach_of_runIf [∀ s a, Decidable (ok s a)] {labels : List α}
    (h : runIf step ok s labels = some t) : Reach step ok s t := by
  induction labels generalizing s with
  | nil =>
    cases h
    exact .refl
  | cons a rest ih =>
    rw [runIf] at h
    split_ifs at h with ha
    obtain ⟨m, hm, hrest⟩ := Option.bind_eq_some_iff.mp h
    exact (Reach.refl.tail ha hm).trans (ih hrest)

/-- Steps that each use up some of a measure are no more than there is of it. -/
theorem length_le_of_runIf [∀ s a, Decidable (ok s a)] {measure : σ → Nat}
    (hless : ∀ s a t, ok s a → step s a = some t → measure t < measure s) {labels : List α}
    (h : runIf step ok s labels = some t) : labels.length + measure t ≤ measure s := by
  induction labels generalizing s with
  | nil =>
    cases h
    exact Nat.le_of_eq (Nat.zero_add _)
  | cons a rest ih =>
    rw [runIf] at h
    split_ifs at h with ha
    obtain ⟨m, hm, hrest⟩ := Option.bind_eq_some_iff.mp h
    have hstep := hless s a m ha hm
    have hlength := ih hrest
    rw [List.length_cons]
    omega

theorem reach_of_run {labels : List α} (h : run step s labels = some t) :
    Reach step anyStep s t := by
  induction labels generalizing s with
  | nil =>
    cases h
    exact .refl
  | cons a rest ih =>
    obtain ⟨m, hm, hrest⟩ := Option.bind_eq_some_iff.mp h
    exact (Reach.refl.tail trivial hm).trans (ih hrest)

end Machine
