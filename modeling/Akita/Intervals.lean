import Mathlib.Algebra.BigOperators.Group.List.Basic
import Mathlib.Algebra.Order.Field.Basic
import Mathlib.Tactic.Linarith
import Mathlib.Tactic.Ring

/-!
# Intervals

Half-open intervals over an ordered field.

* `overlap a b lo hi` : the length of what `[a, b)` and `[lo, hi)` share. `overlap_eq` : it is a difference of two clamped
  ends;
* `edge` : the edges of bins of one width. `sum_overlap` : the overlaps with the bins add up, `bin_unique` and `exists_bin` :
  a point is in one bin.
-/

namespace Akita

variable {K : Type}

/-! ## Overlaps -/

section
variable [LinearOrder K] {lo hi x : K}

/-- The point of `[lo, hi]` that is closest to `x`. -/
def clamp (lo hi x : K) : K := max lo (min x hi)

theorem clamp_of_le (h : x ≤ lo) : clamp lo hi x = lo := max_eq_left ((min_le_left x hi).trans h)

theorem clamp_of_ge (h : lo ≤ hi) (hx : hi ≤ x) : clamp lo hi x = hi := by
  unfold clamp
  rw [min_eq_right hx, max_eq_right h]

theorem clamp_of_mem (h : lo ≤ x) (hx : x ≤ hi) : clamp lo hi x = x := by
  unfold clamp
  rw [min_eq_left hx, max_eq_right h]

end

variable [Field K] [LinearOrder K] [IsStrictOrderedRing K] {a b lo mid hi x : K}

/-- The length of the overlap of `[a, b)` and `[lo, hi)`. -/
def overlap (a b lo hi : K) : K := max 0 (min b hi - max a lo)

theorem overlap_eq (hab : a ≤ b) (h : lo ≤ hi) : overlap a b lo hi = clamp lo hi b - clamp lo hi a := by
  unfold overlap
  rcases le_total b lo with hb | hb
  · rw [clamp_of_le hb, clamp_of_le (hab.trans hb), sub_self]
    refine max_eq_left (sub_nonpos.2 ?_)
    exact (min_le_left b hi).trans (hb.trans (le_max_right a lo))
  · rcases le_total hi a with ha | ha
    · rw [clamp_of_ge h ha, clamp_of_ge h (ha.trans hab), sub_self]
      refine max_eq_left (sub_nonpos.2 ?_)
      exact (min_le_right b hi).trans (ha.trans (le_max_left a lo))
    · have hbmin : clamp lo hi b = min b hi := max_eq_right (le_min hb h)
      have hamax : clamp lo hi a = max a lo := by
        unfold clamp
        rw [min_eq_left ha, max_comm]
      rw [hbmin, hamax]
      refine max_eq_right (sub_nonneg.2 ?_)
      exact max_le (le_min hab ha) (le_min hb h)

omit [IsStrictOrderedRing K] in
theorem clamp_add (h : lo ≤ mid) (h' : mid ≤ hi) (x : K) : clamp lo mid x + clamp mid hi x = clamp lo hi x + mid := by
  rcases le_total x mid with hx | hx
  · rw [clamp_of_le hx]
    unfold clamp
    rw [min_eq_left hx, min_eq_left (hx.trans h')]
  · rw [clamp_of_ge h hx]
    have hmax : clamp lo hi x = clamp mid hi x := by
      unfold clamp
      rw [max_eq_right (le_min hx h'), max_eq_right (le_min (h.trans hx) (h.trans h'))]
    rw [hmax, add_comm]

/-- A range that is cut in two. -/
theorem overlap_add (hab : a ≤ b) (h : lo ≤ mid) (h' : mid ≤ hi) :
    overlap a b lo mid + overlap a b mid hi = overlap a b lo hi := by
  rw [overlap_eq hab h, overlap_eq hab h', overlap_eq hab (h.trans h')]
  have hb := clamp_add h h' b
  have ha := clamp_add h h' a
  linarith

/-- An interval that only touches the range, if that. -/
theorem overlap_of_disjoint (h : b ≤ lo ∨ hi ≤ a) : overlap a b lo hi = 0 := by
  refine max_eq_left (sub_nonpos.2 ?_)
  rcases h with h | h
  · exact (min_le_left b hi).trans (h.trans (le_max_right a lo))
  · exact (min_le_right b hi).trans (h.trans (le_max_left a lo))

/-! ## Bins -/

/-- Where the bin `i` starts. -/
def edge (lo width : K) (i : ℕ) : K := i * width + lo

variable {width : K}

omit [LinearOrder K] [IsStrictOrderedRing K] in
theorem edge_zero (lo width : K) : edge lo width 0 = lo := by
  unfold edge
  rw [Nat.cast_zero, zero_mul, zero_add]

omit [LinearOrder K] [IsStrictOrderedRing K] in
theorem edge_succ (lo width : K) (i : ℕ) : edge lo width (i + 1) = edge lo width i + width := by
  unfold edge
  push_cast
  ring

theorem edge_last (lo hi : K) {n : ℕ} (h : 1 ≤ n) : edge lo ((hi - lo) / n) n = hi := by
  have hn : (n : K) ≠ 0 := Nat.cast_ne_zero.2 (by omega)
  unfold edge
  rw [mul_div_cancel₀ _ hn, sub_add_cancel]

theorem edge_mono (lo : K) (h : 0 ≤ width) {i j : ℕ} (hij : i ≤ j) : edge lo width i ≤ edge lo width j :=
  add_le_add_left (mul_le_mul_of_nonneg_right (Nat.cast_le.2 hij) h) lo

/-- The overlaps with the bins add up to the overlap with the range. -/
theorem sum_overlap (lo : K) (hab : a ≤ b) (h : 0 ≤ width) (n : ℕ) :
    ((List.range n).map fun i => overlap a b (edge lo width i) (edge lo width (i + 1))).sum = overlap a b lo
    (edge lo width n) := by
  induction n with
  | zero =>
    rw [edge_zero, overlap_eq hab le_rfl, clamp, clamp, max_eq_left (min_le_right b lo), max_eq_left (min_le_right a lo),
      sub_self]
    rfl
  | succ n ih =>
    rw [List.range_succ, List.map_append, List.sum_append, ih]
    have hfirst : lo ≤ edge lo width n := by
      have hmono := edge_mono lo h (Nat.zero_le n)
      rwa [edge_zero] at hmono
    rw [← overlap_add hab hfirst (edge_mono lo h (Nat.le_succ n))]
    simp

/-- No point is in two bins. -/
theorem bin_unique (h : 0 ≤ width) {i j : ℕ} (hi : edge lo width i ≤ x ∧ x < edge lo width (i + 1))
    (hj : edge lo width j ≤ x ∧ x < edge lo width (j + 1)) : i = j := by
  rcases Nat.lt_trichotomy i j with hij | hij | hij
  · exact absurd (hi.2.trans_le ((edge_mono lo h hij).trans hj.1)) (lt_irrefl x)
  · exact hij
  · exact absurd (hj.2.trans_le ((edge_mono lo h hij).trans hi.1)) (lt_irrefl x)

omit [IsStrictOrderedRing K] in
/-- Every point of the range is in a bin. -/
theorem exists_bin {n : ℕ} (hlo : lo ≤ x) (hhi : x < edge lo width n) :
    ∃ i < n, edge lo width i ≤ x ∧ x < edge lo width (i + 1) := by
  induction n with
  | zero =>
    rw [edge_zero] at hhi
    exact absurd hhi (not_lt.2 hlo)
  | succ n ih =>
    rcases lt_or_ge x (edge lo width n) with hlt | hge
    · obtain ⟨i, hi, hbin⟩ := ih hlt
      exact ⟨i, Nat.lt_succ_of_lt hi, hbin⟩
    · exact ⟨n, Nat.lt_succ_self n, hge, hhi⟩

end Akita
