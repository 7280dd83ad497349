import Mathlib.Data.Rat.Floor

/-!
# Periods

Time in periods of length `p`, as the analyzers count it.

* `periodStart`, `periodEnd` : the period of a time;
* `periodStart_of_mem`, `periodStart_of_ge` : a later time is in the same period, or in a later one.
-/

namespace Akita.Analysis

def periodStart (p t : ℚ) : ℚ := ⌊t / p⌋ * p

def periodEnd (p t : ℚ) : ℚ := periodStart p t + p

variable {p t t' : ℚ}

theorem periodStart_le (hp : 0 < p) (t : ℚ) : periodStart p t ≤ t := (le_div_iff₀ hp).1 (Int.floor_le _)

theorem lt_periodEnd (hp : 0 < p) (t : ℚ) : t < periodEnd p t := by
  have hlt := (div_lt_iff₀ hp).1 (Int.lt_floor_add_one (t / p))
  unfold periodEnd periodStart
  linarith

/-- The period number `k`. -/
theorem floor_eq_of_mem (hp : 0 < p) {k : ℤ} (hlo : k * p ≤ t) (hhi : t < (k + 1) * p) : ⌊t / p⌋ = k :=
  Int.floor_eq_iff.2 ⟨(le_div_iff₀ hp).2 hlo, (div_lt_iff₀ hp).2 hhi⟩

theorem periodStart_of_mem (hp : 0 < p) (h : t ≤ t') (hlt : t' < periodEnd p t) : periodStart p t' = periodStart p t := by
  unfold periodStart
  rw [floor_eq_of_mem hp ((periodStart_le hp t).trans h) (hlt.trans_eq ?_)]
  unfold periodEnd periodStart
  ring

theorem periodStart_mono (hp : 0 < p) (h : t ≤ t') : periodStart p t ≤ periodStart p t' := by
  have hfloor := Int.floor_le_floor ((div_le_div_iff_of_pos_right hp).2 h)
  exact mul_le_mul_of_nonneg_right (Int.cast_le.2 hfloor) hp.le

theorem periodStart_of_ge (hp : 0 < p) (h : periodEnd p t ≤ t') : periodEnd p t ≤ periodStart p t' := by
  have hle : ((⌊t / p⌋ + 1 : ℤ) : ℚ) ≤ t' / p := by
    rw [le_div_iff₀ hp]
    push_cast
    unfold periodEnd periodStart at h
    linarith
  have hfloor : (⌊t / p⌋ + 1 : ℤ) ≤ ⌊t' / p⌋ := Int.le_floor.2 hle
  have hmul : ((⌊t / p⌋ + 1 : ℤ) : ℚ) * p ≤ ⌊t' / p⌋ * p := mul_le_mul_of_nonneg_right (Int.cast_le.2 hfloor) hp.le
  push_cast at hmul
  unfold periodEnd periodStart
  linarith

end Akita.Analysis
