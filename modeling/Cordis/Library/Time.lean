import Mathlib.Algebra.Order.Ring.Int
import Mathlib.Tactic.Common

/-!
# Durations and instants

A duration counts nanoseconds. An instant is a reading of a monotonic clock as a 64-bit operating system
keeps it: signed seconds in 64 bits, and nanoseconds below a second. Adding a duration carries between
the two and is refused when the seconds overflow; it is refused exactly when the sum is beyond the last
instant.
-/

namespace Time

def NANOS_PER_SEC : Nat := 1000000000

/-- A duration in nanoseconds. -/
abbrev Duration := Nat

namespace Duration

def asSecs (d : Duration) : Nat := d / NANOS_PER_SEC

def subsecNanos (d : Duration) : Nat := d % NANOS_PER_SEC

/-- The longest duration: unsigned seconds in 64 bits. -/
def MAX : Duration := (2 ^ 64 - 1) * NANOS_PER_SEC + (NANOS_PER_SEC - 1)

theorem parts (d : Duration) : asSecs d * NANOS_PER_SEC + subsecNanos d = d :=
  Nat.div_add_mod' d NANOS_PER_SEC

end Duration

structure Instant where
  secs : Int
  nanos : Nat
  lower : -2 ^ 63 ≤ secs
  upper : secs < 2 ^ 63
  nanos_lt : nanos < NANOS_PER_SEC
  deriving DecidableEq

namespace Instant

/-- The instant in nanoseconds. -/
def total (t : Instant) : Int := t.secs * NANOS_PER_SEC + t.nanos

/-- The last instant. -/
def MAX : Instant where
  secs := 2 ^ 63 - 1
  nanos := NANOS_PER_SEC - 1
  lower := by decide
  upper := by decide
  nanos_lt := by decide

/-- The first one of a clock that starts at zero. -/
def zero : Instant where
  secs := 0
  nanos := 0
  lower := by decide
  upper := by decide
  nanos_lt := by decide

instance : LE Instant := ⟨fun t u => t.total ≤ u.total⟩

instance (t u : Instant) : Decidable (t ≤ u) := inferInstanceAs (Decidable (t.total ≤ u.total))

theorem le_refl (t : Instant) : t ≤ t := Int.le_refl t.total

/-- Seconds and nanoseconds are added apart, with a carry. -/
def checkedAdd (t : Instant) (d : Duration) : Option Instant :=
  if hsecs : t.secs + Duration.asSecs d < 2 ^ 63 then
    if hnanos : t.nanos + Duration.subsecNanos d < NANOS_PER_SEC then
      some {
        secs := t.secs + Duration.asSecs d
        nanos := t.nanos + Duration.subsecNanos d
        lower := by
          have := t.lower
          omega
        upper := hsecs
        nanos_lt := hnanos }
    else if hcarry : t.secs + Duration.asSecs d + 1 < 2 ^ 63 then
      some {
        secs := t.secs + Duration.asSecs d + 1
        nanos := t.nanos + Duration.subsecNanos d - NANOS_PER_SEC
        lower := by
          have := t.lower
          omega
        upper := hcarry
        nanos_lt := by
          have hnanos := t.nanos_lt
          have hsub : Duration.subsecNanos d < NANOS_PER_SEC := Nat.mod_lt _ (by decide)
          omega }
    else none
  else none

theorem total_le_max (t : Instant) : t.total ≤ MAX.total := by
  have hupper := t.upper
  have hnanos := t.nanos_lt
  unfold NANOS_PER_SEC at hnanos
  simp only [total, MAX, NANOS_PER_SEC]
  omega

theorem total_checkedAdd {t u : Instant} {d : Duration} (h : t.checkedAdd d = some u) :
    u.total = t.total + d := by
  have hparts := Duration.parts d
  unfold checkedAdd at h
  split at h
  · split at h
    · cases h
      simp only [total, NANOS_PER_SEC] at hparts ⊢
      omega
    · split at h
      · rename_i hnanos hcarry
        cases h
        simp only [total, NANOS_PER_SEC] at hparts hnanos ⊢
        omega
      · cases h
  · cases h

theorem checkedAdd_isSome {t : Instant} {d : Duration} :
    (t.checkedAdd d).isSome = true ↔ t.total + d ≤ MAX.total := by
  constructor
  · intro h
    obtain ⟨u, hu⟩ := Option.isSome_iff_exists.mp h
    rw [← total_checkedAdd hu]
    exact u.total_le_max
  · intro h
    have hparts := Duration.parts d
    simp only [total, MAX, NANOS_PER_SEC] at h hparts
    unfold checkedAdd
    split
    · split
      · rfl
      · rename_i hnanos
        simp only [NANOS_PER_SEC] at hnanos
        split
        · rfl
        · omega
    · omega

theorem checkedAdd_isSome_of_le {t u : Instant} {d : Duration} (h : t ≤ u)
    (hu : (u.checkedAdd d).isSome = true) : (t.checkedAdd d).isSome = true := by
  have hle : t.total ≤ u.total := h
  rw [checkedAdd_isSome] at hu ⊢
  omega

end Instant

end Time
