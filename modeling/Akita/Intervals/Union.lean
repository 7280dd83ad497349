import Mathlib.MeasureTheory.Measure.Lebesgue.Basic
import Mathlib.MeasureTheory.Measure.Real

/-!
# Unions of intervals

The length of what finitely many half-open intervals with rational ends cover.

* `coveredLength_append` : the lengths of two lists of intervals add up, but for what they share;
* `covered_hull` : intervals that start within the first one cover one interval;
* `shared_eq_zero_iff` : when such an interval shares nothing with later ones.
-/

namespace Akita
open MeasureTheory

/-- What intervals cover. -/
def covered (l : List (ℚ × ℚ)) : Set ℝ := ⋃ i ∈ l, Set.Ico (i.1 : ℝ) i.2

/-- The length of what intervals cover. -/
noncomputable def coveredLength (l : List (ℚ × ℚ)) : ℝ := volume.real (covered l)

variable {l l' : List (ℚ × ℚ)}

theorem mem_covered {x : ℝ} : x ∈ covered l ↔ ∃ i ∈ l, (i.1 : ℝ) ≤ x ∧ x < i.2 := by
  unfold covered
  simp only [Set.mem_iUnion, Set.mem_Ico, exists_prop]

theorem covered_nil : covered [] = ∅ := by
  ext x
  simp [mem_covered]

theorem covered_cons (i : ℚ × ℚ) (l : List (ℚ × ℚ)) : covered (i :: l) = Set.Ico (i.1 : ℝ) i.2 ∪ covered l := by
  ext x
  simp only [mem_covered, Set.mem_union, Set.mem_Ico, List.exists_mem_cons_iff]

theorem covered_append : covered (l ++ l') = covered l ∪ covered l' := by
  ext x
  simp [mem_covered, or_and_right, exists_or]

theorem covered_perm (h : l.Perm l') : covered l = covered l' := by
  ext x
  simp [mem_covered, h.mem_iff]

theorem measurableSet_covered (l : List (ℚ × ℚ)) : MeasurableSet (covered l) := by
  induction l with
  | nil =>
    rw [covered_nil]
    exact .empty
  | cons _ _ ih =>
    rw [covered_cons]
    exact measurableSet_Ico.union ih

theorem volume_covered_ne_top (l : List (ℚ × ℚ)) : volume (covered l) ≠ ⊤ := by
  induction l with
  | nil => simp [covered_nil]
  | cons _ _ ih =>
    rw [covered_cons]
    refine ne_top_of_le_ne_top ?_ (measure_union_le _ _)
    exact ENNReal.add_ne_top.2 ⟨by simp, ih⟩

theorem coveredLength_perm (h : l.Perm l') : coveredLength l = coveredLength l' := by
  unfold coveredLength
  rw [covered_perm h]

theorem coveredLength_nil : coveredLength [] = 0 := by simp [coveredLength, covered_nil]

/-- The length that two lists of intervals share. -/
noncomputable def shared (l l' : List (ℚ × ℚ)) : ℝ := volume.real (covered l ∩ covered l')

theorem shared_nonneg (l l' : List (ℚ × ℚ)) : 0 ≤ shared l l' := measureReal_nonneg

theorem coveredLength_append (l l' : List (ℚ × ℚ)) :
    coveredLength (l ++ l') + shared l l' = coveredLength l + coveredLength l' := by
  unfold coveredLength shared
  rw [covered_append]
  exact measureReal_union_add_inter (measurableSet_covered l') (volume_covered_ne_top l) (volume_covered_ne_top l')

variable {s e : ℚ}

theorem coveredLength_of_hull (h : s ≤ e) (hull : covered l = covered [(s, e)]) (l' : List (ℚ × ℚ)) :
    coveredLength (l ++ l') + shared [(s, e)] l' = (e - s : ℚ) + coveredLength l' := by
  have hse : (s : ℝ) ≤ e := by exact_mod_cast h
  have hlength : coveredLength l = (e - s : ℚ) := by
    unfold coveredLength
    rw [hull, covered_cons, covered_nil, Set.union_empty, Real.volume_real_Ico_of_le hse]
    push_cast
    rfl
  have happend := coveredLength_append l l'
  unfold shared at happend ⊢
  rw [← hull, happend, hlength]

theorem coveredLength_of_before {t : ℚ} (h : ∀ i ∈ l, i.2 ≤ t) (h' : ∀ i ∈ l', t ≤ i.1) :
    coveredLength (l ++ l') = coveredLength l + coveredLength l' := by
  have hempty : covered l ∩ covered l' = ∅ := by
    refine Set.eq_empty_iff_forall_notMem.2 ?_
    rintro x ⟨hx, hx'⟩
    obtain ⟨i, hi, -, hlt⟩ := mem_covered.1 hx
    obtain ⟨j, hj, hle, -⟩ := mem_covered.1 hx'
    have hij : (i.2 : ℝ) ≤ j.1 := by exact_mod_cast (h i hi).trans (h' j hj)
    exact absurd hlt (not_lt.2 (hij.trans hle))
  have happend := coveredLength_append l l'
  have hshared : shared l l' = 0 := by
    unfold shared
    rw [hempty, measureReal_empty]
  linarith

/-! ## One interval -/

/-- Where intervals end, if they are not over before `e`. -/
def lastEnd (e : ℚ) (l : List (ℚ × ℚ)) : ℚ := l.foldl (fun e i => max e i.2) e

theorem le_lastEnd (e : ℚ) (l : List (ℚ × ℚ)) : e ≤ lastEnd e l := by
  induction l generalizing e with
  | nil => exact le_rfl
  | cons i _ ih => exact (le_max_left e i.2).trans (ih _)

theorem covered_hull (hse : s ≤ e) (h : ∀ i ∈ l, s ≤ i.1 ∧ i.1 ≤ e) : covered ((s, e) :: l) = covered [(s, lastEnd e l)] := by
  induction l generalizing e with
  | nil => rfl
  | cons i l ih =>
    have hi := h i List.mem_cons_self
    have hrest := ih (hse.trans (le_max_left e i.2)) fun j hj =>
      ⟨(h j (List.mem_cons_of_mem _ hj)).1, (h j (List.mem_cons_of_mem _ hj)).2.trans (le_max_left e i.2)⟩
    have hjoin : Set.Ico (s : ℝ) e ∪ Set.Ico (i.1 : ℝ) i.2 = Set.Ico (s : ℝ) (max e i.2 : ℚ) := by
      have hs : (s : ℝ) ≤ i.1 := by exact_mod_cast hi.1
      have he : (i.1 : ℝ) ≤ e := by exact_mod_cast hi.2
      push_cast
      ext x
      simp only [Set.mem_union, Set.mem_Ico, lt_max_iff]
      constructor
      · rintro (⟨h1, h2⟩ | ⟨h1, h2⟩)
        · exact ⟨h1, .inl h2⟩
        · exact ⟨hs.trans h1, .inr h2⟩
      · rintro ⟨h1, h2 | h2⟩
        · exact .inl ⟨h1, h2⟩
        · rcases lt_or_ge x e with hx | hx
          · exact .inl ⟨h1, hx⟩
          · exact .inr ⟨he.trans hx, h2⟩
    have hcons : covered ((s, max e i.2) :: l) = Set.Ico (s : ℝ) (max e i.2 : ℚ) ∪ covered l := covered_cons _ _
    rw [covered_cons, covered_cons, ← Set.union_assoc, hjoin, ← hcons, hrest]
    rfl

/-- An interval shares nothing with intervals that do not start before it: all those that are not empty start when it is
over. -/
theorem shared_eq_zero_iff (h : ∀ i ∈ l, s ≤ i.1) : shared [(s, e)] l = 0 ↔ ∀ i ∈ l, i.1 < i.2 → e ≤ i.1 := by
  constructor
  · intro hzero i hi hlt
    by_contra hne
    have hbefore : i.1 < e := not_le.1 hne
    have hsub : Set.Ico (i.1 : ℝ) (min e i.2 : ℚ) ⊆ covered [(s, e)] ∩ covered l := by
      rintro x ⟨hlo, hhi⟩
      push_cast at hhi
      have hs : (s : ℝ) ≤ i.1 := by exact_mod_cast h i hi
      exact ⟨mem_covered.2 ⟨(s, e), List.mem_singleton_self _, hs.trans hlo, hhi.trans_le (min_le_left _ _)⟩,
        mem_covered.2 ⟨i, hi, hlo, hhi.trans_le (min_le_right _ _)⟩⟩
    have hfinite : volume (covered [(s, e)] ∩ covered l) ≠ ⊤ :=
      ne_top_of_le_ne_top (volume_covered_ne_top l) (measure_mono Set.inter_subset_right)
    have hle := measureReal_mono hsub hfinite
    have hpos : (i.1 : ℝ) < (min e i.2 : ℚ) := by exact_mod_cast lt_min hbefore hlt
    unfold shared at hzero
    rw [hzero, Real.volume_real_Ico_of_le hpos.le] at hle
    linarith
  · intro hall
    have hempty : covered [(s, e)] ∩ covered l = ∅ := by
      refine Set.eq_empty_iff_forall_notMem.2 ?_
      rintro x ⟨hx, hx'⟩
      obtain ⟨i, hi, hlo, hhi⟩ := mem_covered.1 hx'
      obtain ⟨j, hj, -, hlt⟩ := mem_covered.1 hx
      obtain rfl := List.mem_singleton.1 hj
      have hne : i.1 < i.2 := by exact_mod_cast hlo.trans_lt hhi
      have hle : (e : ℝ) ≤ i.1 := by exact_mod_cast hall i hi hne
      exact absurd hlt (not_lt.2 (hle.trans hlo))
    unfold shared
    rw [hempty, measureReal_empty]

end Akita
