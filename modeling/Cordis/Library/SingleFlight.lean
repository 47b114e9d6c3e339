import Cordis.Library.Machine
import Mathlib.Data.List.Basic

/-!
# Single-flight attempts

The log of the attempts at one goal: an attempt is open until its result is recorded. Another one is
started only when every result in the log asks for it (`again`), so at most the newest attempt is open,
and a result that does not ask for another attempt is the last one.
-/

namespace SingleFlight

variable {ρ : Type*}

/-- The results of the attempts, with `none` for one that is open. -/
abbrev Log (ρ : Type*) := List (Option ρ)

inductive Event (ρ : Type*)
  | start
  | record (result : ρ)
  | skip

variable {again : ρ → Bool} {l l' : Log ρ} {e : Event ρ} {n m : Nat} {x : ρ}

/-- Every attempt of the log has a result that asks for another one. -/
def Over (again : ρ → Bool) (l : Log ρ) : Prop := ∀ r ∈ l, ∃ x, r = some x ∧ again x = true

inductive Step (again : ρ → Bool) : Log ρ → Event ρ → Log ρ → Prop
  | start (l : Log ρ) : Over again l → Step again l .start (l ++ [none])
  | record (l : Log ρ) (x : ρ) : Step again (l ++ [none]) (.record x) (l ++ [some x])
  | skip (l : Log ρ) : Step again l .skip l

/-- Every attempt but the newest has a result that asks for another one. -/
def Flying (again : ρ → Bool) (l : Log ρ) : Prop := Over again l.dropLast

theorem flying_nil : Flying again ([] : Log ρ) := fun _ h => by cases h

theorem flying_append (r : Option ρ) : Flying again (l ++ [r]) ↔ Over again l := by
  rw [Flying, List.dropLast_concat]

theorem over_of_last (hl : Flying again l) (hlast : l.getLast? = some (some x))
    (hagain : again x = true) : Over again l := by
  obtain ⟨older, rfl⟩ := List.getLast?_eq_some_iff.mp hlast
  intro r hr
  rcases List.mem_append.mp hr with hold | hnew
  · exact (flying_append _).mp hl r hold
  · exact ⟨x, List.mem_singleton.mp hnew, hagain⟩

theorem flying_step (hl : Flying again l) (h : Step again l e l') : Flying again l' := by
  cases h with
  | start _ hover => exact (flying_append _).mpr hover
  | record => exact (flying_append _).mpr ((flying_append _).mp hl)
  | skip => exact hl

theorem open_newest (hl : Flying again l) (hn : l[n]? = some none) : n + 1 = l.length := by
  obtain ⟨hlt, -⟩ := List.getElem?_eq_some_iff.mp hn
  by_contra hne
  have holder : l.dropLast[n]? = some none := by
    rw [List.getElem?_dropLast, if_pos (by omega)]
    exact hn
  obtain ⟨x, hx, -⟩ := hl none (List.mem_of_getElem? holder)
  cases hx

theorem open_unique (hl : Flying again l) (hn : l[n]? = some none) (hm : l[m]? = some none) :
    n = m := by
  have := open_newest hl hn
  have := open_newest hl hm
  omega

theorem result_stays (h : Step again l e l') (hn : l[n]? = some (some x)) : l'[n]? = some (some x) := by
  obtain ⟨hlt, -⟩ := List.getElem?_eq_some_iff.mp hn
  cases h with
  | start => rwa [List.getElem?_append_left hlt]
  | record older y =>
    have hne : n ≠ older.length := by
      rintro rfl
      rw [List.getElem?_concat_length] at hn
      cases hn
    rw [List.length_append, List.length_singleton] at hlt
    rwa [List.getElem?_append_left (by omega), ← List.getElem?_append_left (by omega)]
  | skip => exact hn

theorem eq_of_skip (h : Step again l .skip l') : l' = l := by
  cases h
  rfl

theorem results_eq (h : Step again l e l') (he : ∀ x, e ≠ .record x) (n : Nat) :
    (l'[n]?).join = (l[n]?).join := by
  cases h with
  | start =>
    rw [List.getElem?_append]
    split_ifs with hn
    · rfl
    · rw [List.getElem?_eq_none (Nat.le_of_not_lt hn)]
      cases n - l.length <;> rfl
  | record _ x => exact absurd rfl (he x)
  | skip => rfl

theorem length_le (h : Step again l e l') : l.length ≤ l'.length := by
  cases h <;> simp

theorem eq_of_last (h : Step again l e l') (hlast : l.getLast? = some (some x))
    (hagain : again x = false) : l' = l := by
  cases h with
  | start _ hover =>
    obtain ⟨y, hy, hyes⟩ := hover _ (List.mem_of_getLast? hlast)
    cases hy
    rw [hagain] at hyes
    cases hyes
  | record =>
    rw [List.getLast?_concat] at hlast
    cases hlast
  | skip => rfl

theorem record_set (hn : l[n]? = some none) (hlen : n + 1 = l.length) (x : ρ) :
    Step again l (.record x) (l.set n (some x)) := by
  obtain ⟨older, rfl⟩ : ∃ older, l = older ++ [none] := by
    refine List.getLast?_eq_some_iff.mp ?_
    rw [List.getLast?_eq_getElem?, ← hlen]
    exact hn
  have hlast : n = older.length := by simpa using hlen
  rw [hlast, List.set_append_right _ _ (Nat.le_refl _), Nat.sub_self]
  exact .record older x

end SingleFlight
