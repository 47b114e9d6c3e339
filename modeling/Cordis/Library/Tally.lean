import Mathlib.Data.List.Nodup
import Mathlib.Data.List.Perm.Subperm
import Mathlib.Data.List.Range

/-!
# Counting what is below a counter

An arena whose keys are handed out in order is a predicate on the numbers below a counter, and its
length is a count. Two such counts are compared through the keys.
-/

namespace Tally

variable {p q : Nat → Bool} {n n' k : Nat}

/-- How many numbers below `n` have `p`. -/
def count (n : Nat) (p : Nat → Bool) : Nat := ((List.range n).filter p).length

theorem count_le (h : ∀ x < n', q x = true → x < n ∧ p x = true) : count n' q ≤ count n p := by
  have hsub : (List.range n').filter q ⊆ (List.range n).filter p := by
    intro x hx
    obtain ⟨hlt, hq⟩ := List.mem_filter.mp hx
    obtain ⟨hn, hp⟩ := h x (List.mem_range.mp hlt) hq
    exact List.mem_filter.mpr ⟨List.mem_range.mpr hn, hp⟩
  exact (List.subperm_of_subset (List.nodup_range.filter q) hsub).length_le

theorem count_le_succ (h : ∀ x < n', q x = true → x = k ∨ x < n ∧ p x = true) :
    count n' q ≤ count n p + 1 := by
  have hsub : (List.range n').filter q ⊆ k :: (List.range n).filter p := by
    intro x hx
    obtain ⟨hlt, hq⟩ := List.mem_filter.mp hx
    rcases h x (List.mem_range.mp hlt) hq with rfl | ⟨hn, hp⟩
    · exact List.mem_cons_self
    · exact List.mem_cons_of_mem _ (List.mem_filter.mpr ⟨List.mem_range.mpr hn, hp⟩)
  exact (List.subperm_of_subset (List.nodup_range.filter q) hsub).length_le

theorem count_lt (hk : k < n) (hpk : p k = true) (hqk : q k = false)
    (h : ∀ x < n', q x = true → x < n ∧ p x = true) : count n' q < count n p := by
  have hsub : k :: (List.range n').filter q ⊆ (List.range n).filter p := by
    intro x hx
    rcases List.mem_cons.mp hx with rfl | hx
    · exact List.mem_filter.mpr ⟨List.mem_range.mpr hk, hpk⟩
    · obtain ⟨hlt, hq⟩ := List.mem_filter.mp hx
      obtain ⟨hn, hp⟩ := h x (List.mem_range.mp hlt) hq
      exact List.mem_filter.mpr ⟨List.mem_range.mpr hn, hp⟩
  have hnodup : (k :: (List.range n').filter q).Nodup := by
    refine List.nodup_cons.mpr ⟨fun hmem => ?_, List.nodup_range.filter q⟩
    rw [List.of_mem_filter hmem] at hqk
    contradiction
  exact (List.subperm_of_subset hnodup hsub).length_le

theorem count_pos (hk : k < n) (hpk : p k = true) : 0 < count n p :=
  List.length_pos_of_mem (List.mem_filter.mpr ⟨List.mem_range.mpr hk, hpk⟩)

end Tally
