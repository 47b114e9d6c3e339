import Cordis.Library.Tally
import Mathlib.Algebra.Group.Basic
import Mathlib.Algebra.Order.BigOperators.Group.List

/-!
# Lists of threads

Threads are entries of a list, a thread is named by its position, and a step of thread `n` sets entry `n`.
What is where after such a step, and how a count over all threads changes.
-/

namespace Threads

variable {α : Type*} {r : α → Bool} {l : List α} {a b x : α} {n m k : Nat}

theorem get_set (hn : l[n]? = some a) :
    (l.set n b)[m]? = some x ↔ m = n ∧ x = b ∨ m ≠ n ∧ l[m]? = some x := by
  obtain ⟨hlt, -⟩ := List.getElem?_eq_some_iff.mp hn
  by_cases hm : m = n
  · subst hm
    rw [List.getElem?_set_self hlt]
    simp [eq_comm]
  · rw [List.getElem?_set_ne (Ne.symm hm)]
    simp [hm]

theorem mem_set (hn : l[n]? = some a) : x ∈ l.set n b ↔ x = b ∨ ∃ m, m ≠ n ∧ l[m]? = some x := by
  constructor
  · intro hx
    obtain ⟨m, hm⟩ := List.mem_iff_getElem?.mp hx
    rcases (get_set hn).mp hm with ⟨-, heq⟩ | hold
    · exact .inl heq
    · exact .inr ⟨m, hold⟩
  · rintro (rfl | ⟨m, hold⟩)
    · exact List.mem_of_getElem? ((get_set hn).mpr (.inl ⟨rfl, rfl⟩))
    · exact List.mem_of_getElem? ((get_set hn).mpr (.inr hold))

theorem mem_or_of_mem_set (b : α) (hn : l[n]? = some a) (hx : x ∈ l) : x = a ∨ x ∈ l.set n b := by
  obtain ⟨m, hm⟩ := List.getElem?_of_mem hx
  by_cases heq : n = m
  · subst heq
    rw [hn] at hm
    exact .inl (Option.some.inj hm).symm
  · right
    apply List.mem_of_getElem? (i := m)
    rw [List.getElem?_set_ne heq]
    exact hm

theorem map_set_of_eq {β : Type*} {f : α → β} (h : l[k]? = some a) (hsame : f b = f a) :
    (l.set k b).map f = l.map f := by
  obtain ⟨hlt, rfl⟩ := List.getElem?_eq_some_iff.mp h
  have hlt' : k < (l.map f).length := by rwa [List.length_map]
  rw [List.map_set, hsame, ← List.getElem_map (h := hlt') f, List.set_getElem_self]

/-- Replacing an entry changes the count by what the two entries count. -/
theorem countP_set (h : l[k]? = some a) :
    (l.set k b).countP r + (r a).toNat = l.countP r + (r b).toNat := by
  obtain ⟨hlt, rfl⟩ := List.getElem?_eq_some_iff.mp h
  have hpos : (r l[k]).toNat ≤ l.countP r := by
    cases hr : r l[k] with
    | false => exact Nat.zero_le _
    | true => exact List.countP_pos_iff.mpr ⟨l[k], List.getElem_mem hlt, hr⟩
  rw [List.countP_set hlt]
  cases hr : r l[k] <;> cases hb : r b <;> simp only [hr, Bool.toNat_true, Bool.toNat_false] at hpos ⊢ <;>
    simp <;> omega

theorem sum_set {M : Type*} [AddCommMonoid M] {f : α → M} (h : l[k]? = some a) :
    ((l.set k b).map f).sum + f a = (l.map f).sum + f b := by
  induction l generalizing k with
  | nil => cases h
  | cons x rest ih =>
    cases k with
    | zero =>
      cases h
      rw [List.set_cons_zero, List.map_cons, List.sum_cons, List.map_cons, List.sum_cons]
      rw [add_right_comm, add_comm (f b) (f a), add_right_comm]
    | succ k =>
      have hrest := ih (k := k) (by simpa using h)
      rw [List.set_cons_succ, List.map_cons, List.sum_cons, List.map_cons, List.sum_cons, add_assoc,
        hrest, add_assoc]

theorem sum_add_le {M : Type*} [AddCommMonoid M] [PartialOrder M] [IsOrderedAddMonoid M] {f g : α → M}
    (hle : ∀ x, f x ≤ g x) (h : l[k]? = some a) : (l.map f).sum + g a ≤ (l.map g).sum + f a := by
  induction l generalizing k with
  | nil => cases h
  | cons x rest ih =>
    rw [List.map_cons, List.sum_cons, List.map_cons, List.sum_cons]
    cases k with
    | zero =>
      cases h
      have hrest : (rest.map f).sum ≤ (rest.map g).sum := List.sum_le_sum fun y _ => hle y
      rw [add_right_comm, add_right_comm (g a), add_comm (g a)]
      exact add_le_add_right hrest _
    | succ k =>
      have hrest := ih (k := k) (by simpa using h)
      rw [add_assoc, add_assoc]
      exact add_le_add (hle x) hrest

theorem count_getElem (l : List α) : Tally.count l.length (fun k => l[k]?.any r) = l.countP r := by
  induction l using List.reverseRecOn with
  | nil => rfl
  | append_singleton l a ih =>
    have hinit : (List.range l.length).filter (fun k => (l ++ [a])[k]?.any r) =
        (List.range l.length).filter fun k => l[k]?.any r := by
      refine List.filter_congr fun k hk => ?_
      rw [List.getElem?_append_left (List.mem_range.mp hk)]
    rw [Tally.count, List.length_append, List.length_singleton, List.range_succ, List.filter_append,
      List.length_append, hinit, List.countP_append]
    have hlast : ([l.length].filter fun k => (l ++ [a])[k]?.any r).length = [a].countP r := by
      cases hr : r a <;> simp [hr]
    rw [hlast]
    exact congrArg (· + _) ih

theorem length_le_countP {ks : List Nat} (hnodup : ks.Nodup)
    (h : ∀ k ∈ ks, ∃ a, l[k]? = some a ∧ r a = true) : ks.length ≤ l.countP r := by
  rw [← count_getElem]
  refine (List.subperm_of_subset hnodup fun k hk => ?_).length_le
  obtain ⟨a, hget, hr⟩ := h k hk
  refine List.mem_filter.mpr ⟨List.mem_range.mpr (List.getElem?_eq_some_iff.mp hget).1, ?_⟩
  rw [hget]
  exact hr

end Threads
