import Mathlib.Algebra.Ring.Nat
import Mathlib.Data.List.Nodup
import Mathlib.Order.Nat

/-!
# Bit fields

Fields of given widths that lie one above the other in a number, from bit `base` on. The fields are listed from the lowest to
the highest.

* `start w base l i` : the lowest bit of field `i`; `stop w base l` : the bit above the highest field;
* `mem_iff` : the bits from `base` to `stop` are in one field each;
* `ext` : a number is what is in its fields; `exists_fields` : the fields may hold anything.
-/

namespace Akita.BitFields
open List

variable {ι : Type} [DecidableEq ι]

/-- The lowest bit of a field. -/
def start (w : ι → Nat) (base : Nat) : List ι → ι → Nat
  | [], _ => base
  | x :: l, i => if i = x then base else start w (base + w x) l i

/-- The bit above the highest field. -/
def stop (w : ι → Nat) (base : Nat) : List ι → Nat
  | [] => base
  | x :: l => stop w (base + w x) l

variable {w : ι → Nat} {base : Nat} {l : List ι} {i j : ι} {a a' : Nat}

theorem start_cons_of_mem {x : ι} (h : (x :: l).Nodup) (hi : i ∈ l) : start w base (x :: l) i = start w (base + w x) l i := by
  have hne : i ≠ x := by
    rintro rfl
    exact (nodup_cons.1 h).1 hi
  rw [start, if_neg hne]

omit [DecidableEq ι] in
theorem base_le_stop (w : ι → Nat) (base : Nat) (l : List ι) : base ≤ stop w base l := by
  induction l generalizing base with
  | nil => exact Nat.le_refl _
  | cons _ _ ih => exact (Nat.le_add_right ..).trans (ih _)

theorem base_le_start (w : ι → Nat) (base : Nat) (l : List ι) (i : ι) : base ≤ start w base l i := by
  induction l generalizing base with
  | nil => exact Nat.le_refl _
  | cons _ _ ih =>
    unfold start
    split
    · exact Nat.le_refl _
    · exact (Nat.le_add_right ..).trans (ih _)

theorem start_add_le_stop (h : l.Nodup) (hi : i ∈ l) : start w base l i + w i ≤ stop w base l := by
  induction l generalizing base with
  | nil => cases hi
  | cons _ _ ih =>
    rcases mem_cons.1 hi with rfl | hi
    · rw [start, if_pos rfl, stop]
      exact base_le_stop ..
    · rw [start_cons_of_mem h hi]
      exact ih (nodup_cons.1 h).2 hi

omit [DecidableEq ι] in
theorem stop_eq_add_sum (w : ι → Nat) (base : Nat) (l : List ι) : stop w base l = base + (l.map w).sum := by
  induction l generalizing base with
  | nil => rfl
  | cons _ _ ih => rw [stop, ih, map_cons, sum_cons, Nat.add_assoc]

omit [DecidableEq ι] in
theorem stop_perm {l' : List ι} (h : l.Perm l') : stop w base l = stop w base l' := by
  rw [stop_eq_add_sum, stop_eq_add_sum, (h.map w).sum_nat]

/-- Each bit from `base` to `stop` is in a field, and no other bit is. -/
theorem mem_iff (h : l.Nodup) (k : Nat) :
    (∃ i ∈ l, start w base l i ≤ k ∧ k < start w base l i + w i) ↔ base ≤ k ∧ k < stop w base l := by
  constructor
  · rintro ⟨i, hi, hlow, hhigh⟩
    exact ⟨(base_le_start ..).trans hlow, hhigh.trans_le (start_add_le_stop h hi)⟩
  · rintro ⟨hlow, hhigh⟩
    induction l generalizing base with
    | nil => exact absurd (hlow.trans_lt hhigh) (Nat.lt_irrefl _)
    | cons x _ ih =>
      rcases Nat.lt_or_ge k (base + w x) with _ | hrest
      · exact ⟨x, mem_cons_self, by rwa [start, if_pos rfl], by rwa [start, if_pos rfl]⟩
      · obtain ⟨i, hi, _⟩ := ih (nodup_cons.1 h).2 hrest hhigh
        exact ⟨i, mem_cons_of_mem _ hi, by rwa [start_cons_of_mem h hi]⟩

theorem eq_of_mem (h : l.Nodup) (hi : i ∈ l) (hj : j ∈ l) {k : Nat} (hki : start w base l i ≤ k ∧ k < start w base l i + w i)
    (hkj : start w base l j ≤ k ∧ k < start w base l j + w j) : i = j := by
  induction l generalizing base with
  | nil => cases hi
  | cons x l ih =>
    have hl := (nodup_cons.1 h).2
    rcases mem_cons.1 hi with hix | hil <;> rcases mem_cons.1 hj with hjx | hjl
    · rw [hix, hjx]
    · rw [start, if_pos hix] at hki
      rw [start_cons_of_mem h hjl] at hkj
      have hle := base_le_start w (base + w x) l j
      rw [hix] at hki
      omega
    · rw [start, if_pos hjx] at hkj
      rw [start_cons_of_mem h hil] at hki
      have hle := base_le_start w (base + w x) l i
      rw [hjx] at hkj
      omega
    · rw [start_cons_of_mem h hil] at hki
      rw [start_cons_of_mem h hjl] at hkj
      exact ih hl hil hjl hki hkj

/-- The field of `a` in the `n` bits from bit `m` on. -/
def get (a m n : Nat) : Nat := a / 2 ^ m % 2 ^ n

theorem mod_two_pow_add (a m n : Nat) : a % 2 ^ (m + n) = a % 2 ^ m + 2 ^ m * get a m n := by
  rw [Nat.pow_add, Nat.mod_mul, get]

theorem get_mod_two_pow_add (a m n : Nat) : get (a % 2 ^ (m + n)) m n = get a m n := by
  rw [get, Nat.pow_add, Nat.mod_mul_right_div_self, Nat.mod_mod, get]

/-- Two numbers with the same fields and the same bits below them are equal. -/
theorem ext (h : l.Nodup) (ha : a < 2 ^ stop w base l) (ha' : a' < 2 ^ stop w base l) (hbase : a % 2 ^ base = a' % 2 ^ base)
    (hfields : ∀ i ∈ l, get a (start w base l i) (w i) = get a' (start w base l i) (w i)) : a = a' := by
  induction l generalizing base with
  | nil =>
    rw [stop] at ha ha'
    rwa [Nat.mod_eq_of_lt ha, Nat.mod_eq_of_lt ha'] at hbase
  | cons x _ ih =>
    refine ih (nodup_cons.1 h).2 ha ha' ?_ fun i hi => ?_
    · have hfirst := hfields x mem_cons_self
      rw [start, if_pos rfl] at hfirst
      rw [mod_two_pow_add, mod_two_pow_add, hbase, hfirst]
    · have hrest := hfields i (mem_cons_of_mem _ hi)
      rwa [start_cons_of_mem h hi] at hrest

/-- There is a number with these fields, and these bits below them. -/
theorem exists_fields (h : l.Nodup) {v : ι → Nat} (hv : ∀ i ∈ l, v i < 2 ^ w i) {r : Nat} (hr : r < 2 ^ base) :
    ∃ a < 2 ^ stop w base l, a % 2 ^ base = r ∧ ∀ i ∈ l, get a (start w base l i) (w i) = v i := by
  induction l generalizing base r with
  | nil => exact ⟨r, hr, Nat.mod_eq_of_lt hr, fun i hi => nomatch hi⟩
  | cons x _ ih =>
    have hx := hv x mem_cons_self
    have hlow : r + 2 ^ base * v x < 2 ^ (base + w x) := by
      calc r + 2 ^ base * v x < 2 ^ base + 2 ^ base * v x := Nat.add_lt_add_right hr _
        _ = 2 ^ base * (v x + 1) := by rw [Nat.mul_add, Nat.mul_one, Nat.add_comm]
        _ ≤ 2 ^ base * 2 ^ w x := Nat.mul_le_mul_left _ hx
        _ = 2 ^ (base + w x) := (Nat.pow_add ..).symm
    obtain ⟨a, ha, hmod, hfields⟩ := ih (nodup_cons.1 h).2 (fun i hi => hv i (mem_cons_of_mem _ hi)) hlow
    have hbase : a % 2 ^ base = r := by
      have hdvd : 2 ^ base ∣ 2 ^ (base + w x) := Nat.pow_dvd_pow 2 (Nat.le_add_right ..)
      rw [← Nat.mod_mod_of_dvd a hdvd, hmod, Nat.add_mul_mod_self_left, Nat.mod_eq_of_lt hr]
    refine ⟨a, ha, hbase, fun i hi => ?_⟩
    rcases mem_cons.1 hi with rfl | hi
    · rw [start, if_pos rfl, ← get_mod_two_pow_add, hmod, get, Nat.add_mul_div_left _ _ (Nat.two_pow_pos base),
        Nat.div_eq_of_lt hr, Nat.zero_add, Nat.mod_eq_of_lt hx]
    · rw [start_cons_of_mem h hi]
      exact hfields i hi

end Akita.BitFields
