import Akita.Analysis.BufferAnalyzer
import Akita.Intervals
import Mathlib.Data.List.Induction

/-!
# Buffer levels by period

What the analyzer logs against the time integral of the level.

* `area` : the integral of the level, given by its changes;
* `Covers` : which part of the past an analyzer still has in its map. `Covers.elapse`, `Covers.close`, `Covers.skip` : what
  moves it on;
* `averaged_iff` : when every period that is over has been logged with its average.
-/

namespace Akita.Analysis.Buffers.BufferAnalyzer
open List
open Prod (fst)

/-! ## The integral of the level -/

/-- The integral from `a` to `b` of a level that is `level` from `time` on, until the first change. -/
def areaFrom (time : ℚ) (level : ℕ) : List (ℚ × ℕ) → ℚ → ℚ → ℚ
  | [], a, b => level * max 0 (b - max a time)
  | (t, l) :: changes, a, b => level * overlap time t a b + areaFrom t l changes a b

/-- The integral of the level of a buffer that is empty in the beginning. -/
def area (changes : List (ℚ × ℕ)) (a b : ℚ) : ℚ := areaFrom 0 0 changes a b

/-- The time and the level of the last change. -/
def lastChange (changes : List (ℚ × ℕ)) : ℚ × ℕ := changes.getLastD (0, 0)

variable {time : ℚ}

variable {level : ℕ}

theorem areaFrom_add {changes : List (ℚ × ℕ)} (h : (time :: changes.map fst).Pairwise (· ≤ ·)) {a m b : ℚ} (ham : a ≤ m)
    (hmb : m ≤ b) : areaFrom time level changes a m + areaFrom time level changes m b = areaFrom time level changes a b := by
  induction changes generalizing time level with
  | nil =>
    unfold areaFrom
    have hmax : max 0 (m - max a time) + max 0 (b - max m time) = max 0 (b - max a time) := by
      rcases le_total time a with hta | hta
      · rw [max_eq_left hta, max_eq_left (hta.trans ham), max_eq_right (sub_nonneg.2 ham), max_eq_right (sub_nonneg.2 hmb),
          max_eq_right (sub_nonneg.2 (ham.trans hmb))]
        ring
      · rw [max_eq_right hta]
        rcases le_total time m with htm | htm
        · rw [max_eq_left htm, max_eq_right (sub_nonneg.2 htm), max_eq_right (sub_nonneg.2 hmb),
            max_eq_right (sub_nonneg.2 (htm.trans hmb))]
          ring
        · rw [max_eq_right htm, max_eq_left (sub_nonpos.2 htm), zero_add]
    rw [← hmax]
    ring
  | cons c changes ih =>
    obtain ⟨hfirst, hrest⟩ := pairwise_cons.1 h
    have hone := overlap_add (hfirst _ mem_cons_self) ham hmb
    have hothers : areaFrom c.1 c.2 changes a m + areaFrom c.1 c.2 changes m b = areaFrom c.1 c.2 changes a b := ih hrest
    show level * overlap time c.1 a m + areaFrom c.1 c.2 changes a m +
      (level * overlap time c.1 m b + areaFrom c.1 c.2 changes m b) =
      level * overlap time c.1 a b + areaFrom c.1 c.2 changes a b
    rw [← hothers, ← hone]
    ring

theorem areaFrom_snoc {changes : List (ℚ × ℕ)} {t : ℚ} (l : ℕ) (h : ∀ s ∈ time :: changes.map fst, s ≤ t) {a b : ℚ}
    (hb : b ≤ t) : areaFrom time level (changes ++ [(t, l)]) a b = areaFrom time level changes a b := by
  induction changes generalizing time level with
  | nil =>
    have htime := h time mem_cons_self
    show level * overlap time t a b + l * max 0 (b - max a t) = level * max 0 (b - max a time)
    have hzero : max 0 (b - max a t) = 0 := max_eq_left (sub_nonpos.2 (hb.trans (le_max_right a t)))
    rw [hzero, mul_zero, add_zero, overlap, min_eq_right hb, max_comm time a]
  | cons c changes ih =>
    have hothers : areaFrom c.1 c.2 (changes ++ [(t, l)]) a b = areaFrom c.1 c.2 changes a b :=
      ih fun s hs => h s (mem_cons_of_mem _ hs)
    show level * overlap time c.1 a b + areaFrom c.1 c.2 (changes ++ [(t, l)]) a b = level * overlap time c.1 a b +
      areaFrom c.1 c.2 changes a b
    rw [hothers]

theorem areaFrom_last {changes : List (ℚ × ℕ)} {a b : ℚ} (h : ∀ s ∈ time :: changes.map fst, s ≤ a) (hab : a ≤ b) :
    areaFrom time level changes a b = (changes.getLastD (time, level)).2 * (b - a) := by
  induction changes generalizing time level with
  | nil =>
    show level * max 0 (b - max a time) = level * (b - a)
    rw [max_eq_left (h time mem_cons_self), max_eq_right (sub_nonneg.2 hab)]
  | cons c changes ih =>
    have hlast : (c :: changes).getLastD (time, level) = changes.getLastD (c.1, c.2) := by cases changes <;> rfl
    have hzero : overlap time c.1 a b = 0 := overlap_of_disjoint (.inl (h c.1 (mem_cons_of_mem _ mem_cons_self)))
    show level * overlap time c.1 a b + areaFrom c.1 c.2 changes a b = _
    rw [hzero, mul_zero, zero_add, ih fun s hs => h s (mem_cons_of_mem _ hs), hlast]

/-- The changes come in the order of their times. -/
def Ordered (changes : List (ℚ × ℕ)) : Prop := (0 :: changes.map fst).Pairwise (· ≤ ·)

theorem le_getLastD (level : ℕ) {changes : List (ℚ × ℕ)} (h : (time :: changes.map fst).Pairwise (· ≤ ·)) {s : ℚ}
    (hs : s ∈ time :: changes.map fst) : s ≤ (changes.getLastD (time, level)).1 := by
  induction changes generalizing time level s with
  | nil => exact (mem_singleton.1 hs).le
  | cons c changes ih =>
    obtain ⟨hfirst, hrest⟩ := pairwise_cons.1 h
    have hlast : (c :: changes).getLastD (time, level) = changes.getLastD (c.1, c.2) := by cases changes <;> rfl
    rw [hlast]
    rcases mem_cons.1 hs with rfl | hs
    · exact (hfirst c.1 mem_cons_self).trans (ih c.2 hrest mem_cons_self)
    · exact ih c.2 hrest hs

theorem Ordered.le_last {changes : List (ℚ × ℕ)} (h : Ordered changes) {s : ℚ} (hs : s ∈ 0 :: changes.map fst) :
    s ≤ (lastChange changes).1 :=
  le_getLastD 0 h hs

theorem Ordered.area_add {changes : List (ℚ × ℕ)} (h : Ordered changes) {a m b : ℚ} (ham : a ≤ m) (hmb : m ≤ b) :
    area changes a m + area changes m b = area changes a b :=
  areaFrom_add h ham hmb

variable {p : ℚ} {changes : List (ℚ × ℕ)}

/-- The integral of the level over the period `i`. -/
def periodArea (p : ℚ) (changes : List (ℚ × ℕ)) (i : ℕ) : ℚ := area changes (i * p) ((i + 1) * p)

theorem area_eq_zero (hp : 0 < p) (h : Ordered changes) {j k : ℕ} (hjk : j ≤ k)
    (hzero : ∀ i, j ≤ i → i < k → periodArea p changes i = 0) : area changes (j * p) (k * p) = 0 := by
  induction k, hjk using Nat.le_induction with
  | base =>
    have hadd := h.area_add (le_refl ((j : ℚ) * p)) le_rfl
    linarith
  | succ k hjk ih =>
    have hle : (j : ℚ) * p ≤ k * p := mul_le_mul_of_nonneg_right (Nat.cast_le.2 hjk) hp.le
    have hsucc : (k : ℚ) * p ≤ (k + 1) * p := by linarith
    have hadd := h.area_add hle hsucc
    have hone := hzero k hjk (Nat.lt_succ_self k)
    have hothers := ih fun i hji hik => hzero i hji (Nat.lt_succ_of_lt hik)
    unfold periodArea at hone
    push_cast
    linarith

/-! ## What has been logged of a period -/

/-- At most one entry has been logged for the period `i`, with the average, and one if the average is not `0`. -/
structure Right (p : ℚ) (changes : List (ℚ × ℕ)) (entries : List LevelEntry) (i : ℕ) : Prop where
  unique : (entries.filter fun e => e.startTime = i * p).length ≤ 1
  value : ∀ e ∈ entries, e.startTime = i * p → e.endTime = (i + 1) * p ∧ e.value = some (periodArea p changes i / p)
  present : periodArea p changes i / p ≠ 0 → ∃ e ∈ entries, e.startTime = i * p

/-- The periods before `k` are logged. -/
def Done (p : ℚ) (changes : List (ℚ × ℕ)) (k : ℕ) (entries : List LevelEntry) : Prop := ∀ i < k, Right p changes entries i

variable {entries : List LevelEntry} {i k : ℕ}

theorem right_iff_of_none (hp : 0 < p) (h : ∀ e ∈ entries, e.startTime ≠ i * p) :
    Right p changes entries i ↔ periodArea p changes i = 0 := by
  constructor
  · intro hr
    by_contra hne
    obtain ⟨e, he, hstart⟩ := hr.present (div_ne_zero hne hp.ne')
    exact h e he hstart
  · intro hzero
    have hfilter : (entries.filter fun e => e.startTime = i * p) = [] := filter_eq_nil_iff.2 fun e he => by simpa using h e he
    refine ⟨?_, fun e he hstart => absurd hstart (h e he), fun hne => absurd ?_ hne⟩
    · rw [hfilter]
      exact Nat.zero_le 1
    · rw [hzero, zero_div]

theorem right_iff_of_last (h : ∀ e ∈ entries, e.startTime ≠ i * p) {entry : LevelEntry} (hstart : entry.startTime = i * p)
    (hend : entry.endTime = (i + 1) * p) :
    Right p changes (entries ++ [entry]) i ↔ entry.value = some (periodArea p changes i / p) := by
  have hlast : entry ∈ entries ++ [entry] := mem_append_right _ (mem_singleton_self _)
  constructor
  · intro hr
    exact (hr.value entry hlast hstart).2
  · intro hvalue
    have hfilter : (entries.filter fun e => e.startTime = i * p) = [] := filter_eq_nil_iff.2 fun e he => by simpa using h e he
    refine ⟨?_, fun e he hs => ?_, fun _ => ⟨entry, hlast, hstart⟩⟩
    · rw [filter_append, hfilter, nil_append]
      exact length_filter_le _ _
    · rcases mem_append.1 he with he | he
      · exact absurd hs (h e he)
      · obtain rfl := mem_singleton.1 he
        exact ⟨hend, hvalue⟩

theorem right_append_iff {entry : LevelEntry} (hstart : entry.startTime ≠ i * p) :
    Right p changes (entries ++ [entry]) i ↔ Right p changes entries i := by
  have hfilter : ((entries ++ [entry]).filter fun e => e.startTime = i * p) =
      entries.filter fun e => e.startTime = i * p := by
    rw [filter_append, filter_cons_of_neg (by simpa using hstart), filter_nil, append_nil]
  have hmem : ∀ e, e.startTime = i * p → (e ∈ entries ++ [entry] ↔ e ∈ entries) := by
    intro e hs
    rw [mem_append, mem_singleton, or_iff_left]
    rintro rfl
    exact hstart hs
  constructor
  · intro hr
    refine ⟨hfilter ▸ hr.unique, fun e he hs => hr.value e ((hmem e hs).2 he) hs, fun hne => ?_⟩
    obtain ⟨e, he, hs⟩ := hr.present hne
    exact ⟨e, (hmem e hs).1 he, hs⟩
  · intro hr
    refine ⟨hfilter.symm ▸ hr.unique, fun e he hs => hr.value e ((hmem e hs).1 he) hs, fun hne => ?_⟩
    obtain ⟨e, he, hs⟩ := hr.present hne
    exact ⟨e, (hmem e hs).2 he, hs⟩

theorem done_succ : Done p changes (k + 1) entries ↔ Done p changes k entries ∧ Right p changes entries k := by
  constructor
  · exact fun h => ⟨fun i hi => h i (Nat.lt_succ_of_lt hi), h k (Nat.lt_succ_self k)⟩
  · rintro ⟨h, hk⟩ i hi
    rcases Nat.lt_succ_iff_lt_or_eq.1 hi with hi | rfl
    · exact h i hi
    · exact hk

/-! ## What is covered -/

/-- The map has the durations from the period `j` on, the time is in the period `k`, and only periods before `j` have been
logged. -/
structure Covers (p : ℚ) (changes : List (ℚ × ℕ)) (j k : ℕ) (b : BufferAnalyzer) : Prop where
  usePeriod : b.usePeriod = true
  period : b.period = p
  lo : k * p ≤ b.lastTime
  hi : b.lastTime < (k + 1) * p
  le : j ≤ k
  reached : (lastChange changes).1 ≤ b.lastTime
  level : b.lastBufLevel = (lastChange changes).2
  nodup : (b.bufLevelToDuration.map LevelDuration.level).Nodup
  durations : durations b.bufLevelToDuration = b.lastTime - j * p
  levels : levels b.bufLevelToDuration = area changes (j * p) b.lastTime
  logged : ∀ e ∈ b.logged, ∃ i < j, e.startTime = (i : ℕ) * p

variable {j : ℕ} {b : BufferAnalyzer}

theorem Covers.area_last (hc : Covers p changes j k b) (ho : Ordered changes) (hp : 0 < p) {now : ℚ}
    (hnow : b.lastTime ≤ now) :
    area changes (j * p) now = area changes (j * p) b.lastTime + b.lastBufLevel * (now - b.lastTime) := by
  have hle : (j : ℚ) * p ≤ k * p := mul_le_mul_of_nonneg_right (Nat.cast_le.2 hc.le) hp.le
  have hadd := ho.area_add (hle.trans hc.lo) hnow
  have hlast : area changes b.lastTime now = (lastChange changes).2 * (now - b.lastTime) :=
    areaFrom_last (fun s hs => (ho.le_last hs).trans hc.reached) hnow
  rw [← hadd, hlast, hc.level]

variable {k' : ℕ}

/-- The level lasts until `now`, which is in the period `k'`. -/
theorem Covers.elapse (hc : Covers p changes j k b) (ho : Ordered changes) (hp : 0 < p) {now : ℚ} (hnow : b.lastTime ≤ now)
    (hk : k ≤ k') (hlo : k' * p ≤ now) (hhi : now < (k' + 1) * p) : Covers p changes j k' (b.elapse now) := by
  obtain ⟨hnodup, hlevels, hdurations⟩ := addDuration_ok hc.nodup b.lastBufLevel (now - b.lastTime)
  refine ⟨hc.usePeriod, hc.period, hlo, hhi, hc.le.trans hk, hc.reached.trans hnow, hc.level, hnodup, ?_, ?_, hc.logged⟩
  · show BufferAnalyzer.durations (addDuration _ _ _) = now - j * p
    rw [hdurations, hc.durations]
    ring
  · show BufferAnalyzer.levels (addDuration _ _ _) = area changes (j * p) now
    rw [hlevels, hc.levels, hc.area_last ho hp hnow]

/-- The map is given up, and with it what it covers. -/
theorem Covers.skip (hc : Covers p changes j k b) (hp : 0 < p) (ho : Ordered changes)
    (hreached : (lastChange changes).1 ≤ k' * p) (logged : List LevelEntry)
    (hlogged : ∀ e ∈ logged, ∃ i < k', e.startTime = (i : ℕ) * p) :
    Covers p changes k' k' { b with bufLevelToDuration := [], lastTime := k' * p, logged } := by
  refine ⟨hc.usePeriod, hc.period, le_rfl, by dsimp only; linarith, le_rfl, hreached, hc.level, .nil, ?_, ?_, hlogged⟩
  · exact (sub_self _).symm
  · exact (area_eq_zero hp ho le_rfl fun i hki hik => absurd hik (not_lt.2 hki)).symm

/-- The last change was before the next period. -/
theorem Covers.last_le (hc : Covers p changes j k b) (hp : 0 < p) (hk : k < k') : (lastChange changes).1 < k' * p := by
  have hnext : ((k : ℚ) + 1) * p ≤ k' * p := mul_le_mul_of_nonneg_right (by exact_mod_cast hk) hp.le
  exact (hc.reached.trans_lt hc.hi).trans_le hnext

theorem Covers.not_logged (hc : Covers p changes j k b) (hp : 0 < p) {i : ℕ} (hi : j ≤ i) :
    ∀ e ∈ b.logged, e.startTime ≠ i * p := by
  intro e he hstart
  obtain ⟨i', _, hstart'⟩ := hc.logged e he
  have heq : i' = i := Nat.cast_injective (mul_right_cancel₀ hp.ne' (hstart'.symm.trans hstart))
  omega

/-- What is logged when the period `k` is over: the average over all that is covered. -/
def overdue (p : ℚ) (changes : List (ℚ × ℕ)) (buf : String) (j k : ℕ) : List LevelEntry :=
  if area changes (j * p) ((k + 1) * p) = 0 then []
  else
    [{ startTime := k * p, endTime := (k + 1) * p, location := buf, what := "Level", entryType := "Buffer"
       value := some (area changes (j * p) ((k + 1) * p) / ((k + 1) * p - j * p)), unit := "" }]

theorem Covers.close_eq (hc : Covers p changes j k b) (ho : Ordered changes) (hp : 0 < p) (it : MapOrder LevelDuration)
    {now : ℚ} (hnow : (k + 1) * p < now) :
    b.close it now (k * p) ((k + 1) * p) =
      { b with bufLevelToDuration := [], lastTime := (k + 1) * p, logged := b.logged ++ overdue p changes b.buf j k } := by
  have hjk : (j : ℚ) * p ≤ k * p := mul_le_mul_of_nonneg_right (Nat.cast_le.2 hc.le) hp.le
  have hpos : 0 < (k + 1) * p - j * p := by linarith
  have hremaining : (if min ((k + 1) * p) now > b.lastTime then min ((k + 1) * p) now - b.lastTime else 0) =
      (k + 1) * p - b.lastTime := by
    rw [min_eq_left hnow.le, if_pos hc.hi]
  have hduration : BufferAnalyzer.durations (it.order b.bufLevelToDuration) + ((k + 1) * p - b.lastTime) =
      (k + 1) * p - j * p := by
    rw [durations_perm (it.perm _), hc.durations]
    ring
  have hlevel : BufferAnalyzer.levels (it.order b.bufLevelToDuration) + b.lastBufLevel * ((k + 1) * p - b.lastTime) =
      area changes (j * p) ((k + 1) * p) := by
    rw [levels_perm (it.perm _), hc.levels, hc.area_last ho hp hc.hi.le]
  unfold BufferAnalyzer.close summarizePeriod overdue
  dsimp only
  rw [hremaining, hduration, hlevel, if_neg hpos.ne']
  by_cases hzero : area changes (j * p) ((k + 1) * p) = 0
  · rw [if_pos (by rw [hzero, zero_div]), if_pos hzero, append_nil]
  · rw [if_neg (by simpa [hpos.ne'] using hzero), if_neg hzero]

/-- A period that is over is logged with the right average, unless more than it was covered. -/
theorem Covers.close (hc : Covers p changes j k b) (ho : Ordered changes) (hp : 0 < p) (it : MapOrder LevelDuration) {now : ℚ}
    (hnow : (k + 1) * p < now) :
    Covers p changes (k + 1) (k + 1) (b.close it now (k * p) ((k + 1) * p)) ∧
      (Done p changes (k + 1) (b.close it now (k * p) ((k + 1) * p)).logged ↔
        Done p changes k b.logged ∧ (j < k → periodArea p changes k = 0)) := by
  have hinj : ∀ i i' : ℕ, (i : ℚ) * p = i' * p → i = i' := fun i i' h => Nat.cast_injective (mul_right_cancel₀ hp.ne' h)
  have hold : ∀ i, j ≤ i → ∀ e ∈ b.logged, e.startTime ≠ i * p := fun i hi => hc.not_logged hp hi
  rw [hc.close_eq ho hp it hnow]
  constructor
  · have hskip := hc.skip hp ho (hc.last_le hp (Nat.lt_succ_self k)).le (b.logged ++ overdue p changes b.buf j k) (by
      intro e he
      rcases mem_append.1 he with he | he
      · obtain ⟨i, hi, hstart⟩ := hc.logged e he
        exact ⟨i, by have := hc.le; omega, hstart⟩
      · unfold overdue at he
        split at he
        · cases he
        · obtain rfl := mem_singleton.1 he
          exact ⟨k, Nat.lt_succ_self k, rfl⟩)
    push_cast at hskip
    exact hskip
  · show Done p changes (k + 1) (b.logged ++ overdue p changes b.buf j k) ↔ _
    have hbefore : Done p changes k (b.logged ++ overdue p changes b.buf j k) ↔ Done p changes k b.logged := by
      unfold overdue
      split
      · rw [append_nil]
      · exact forall₂_congr fun i hi => right_append_iff fun h => absurd (hinj k i h) (Nat.ne_of_gt hi)
    rw [done_succ, hbefore]
    refine and_congr_right fun hdone => ?_
    -- what has been carried over is nothing
    have hcarried : area changes (j * p) (k * p) = 0 :=
      area_eq_zero hp ho hc.le fun i hji hik => (right_iff_of_none hp (hold i hji)).1 (hdone i hik)
    have hjk : (j : ℚ) * p ≤ k * p := mul_le_mul_of_nonneg_right (Nat.cast_le.2 hc.le) hp.le
    have harea : area changes (j * p) ((k + 1) * p) = periodArea p changes k := by
      have hadd := ho.area_add hjk (show (k : ℚ) * p ≤ (k + 1) * p by linarith)
      unfold periodArea
      linarith
    unfold overdue
    rw [harea]
    by_cases hzero : periodArea p changes k = 0
    · rw [if_pos hzero, append_nil, right_iff_of_none hp (hold k hc.le)]
      exact ⟨fun h _ => h, fun _ => hzero⟩
    · rw [if_neg hzero, right_iff_of_last (hold k hc.le) rfl rfl, Option.some_inj]
      constructor
      · intro hvalue hlt
        have hwidth : ((k : ℚ) + 1) * p - j * p = p := by
          rw [div_eq_mul_inv, div_eq_mul_inv] at hvalue
          exact inv_injective (mul_left_cancel₀ hzero hvalue)
        have hcast : ((k : ℚ) - j) * p = 0 := by linarith
        have hlt' : (0 : ℚ) < (k : ℚ) - j := sub_pos.2 (Nat.cast_lt.2 hlt)
        exact absurd hcast (mul_pos hlt' hp).ne'
      · intro hno
        have heq : j = k := le_antisymm hc.le (not_lt.1 fun hlt => hzero (hno hlt))
        rw [heq]
        congr 1
        ring

theorem summarizeLoop_done (it : MapOrder LevelDuration) {now s e : ℚ} (h : now ≤ e) (n : ℕ) (b : BufferAnalyzer) :
    summarizeLoop it now n b s e = b := by
  cases n with
  | zero => rfl
  | succ => exact if_neg (not_lt.2 h)

/-- The loop stops in the last period that starts before `now`. -/
theorem Covers.loop (hc : Covers p changes j k b) (ho : Ordered changes) (hp : 0 < p) (it : MapOrder LevelDuration) {now : ℚ}
    {n : ℕ} (hnow : (k + 1) * p < now) (henough : now ≤ (k + 1 + n) * p) :
    ∃ k', k < k' ∧ k' * p < now ∧ now ≤ (k' + 1) * p ∧
    Covers p changes k' k' (summarizeLoop it now n b (k * p) ((k + 1) * p)) ∧
      (Done p changes k' (summarizeLoop it now n b (k * p) ((k + 1) * p)).logged ↔ Done p changes k b.logged ∧
        (j < k → periodArea p changes k = 0)) := by
  induction n generalizing j k b with
  | zero =>
    rw [Nat.cast_zero, add_zero] at henough
    exact absurd hnow (not_lt.2 henough)
  | succ n ih =>
    obtain ⟨hclosed, hdone⟩ := hc.close ho hp it hnow
    have hround : summarizeLoop it now (n + 1) b (k * p) ((k + 1) * p) =
        summarizeLoop it now n (b.close it now (k * p) ((k + 1) * p)) ((k + 1 : ℕ) * p) (((k + 1 : ℕ) + 1) * p) := by
      have hend : ((k : ℚ) + 1) * p + b.period = ((k + 1 : ℕ) + 1) * p := by
        rw [hc.period]
        push_cast
        ring
      have hstart : ((k + 1 : ℕ) : ℚ) * p = (k + 1) * p := by rw [Nat.cast_succ]
      rw [← hend, hstart]
      exact if_pos hnow
    rw [hround]
    rcases lt_or_ge (((k + 1 : ℕ) + 1) * p) now with hmore | hlast
    · obtain ⟨k', _, hlo, hhi, hcovers, hiff⟩ := ih hclosed hmore (by push_cast at henough ⊢; linarith)
      refine ⟨k', by omega, hlo, hhi, hcovers, hiff.trans ?_⟩
      rw [hdone]
      exact and_iff_left fun hlt => absurd hlt (lt_irrefl _)
    · rw [summarizeLoop_done it hlast]
      refine ⟨k + 1, Nat.lt_succ_self k, ?_, hlast, hclosed, hdone⟩
      push_cast
      exact hnow

/-! ## When the averages are right -/

/-- A change comes just when a period is over, and another one, or the start, in that period. -/
def Touches (p : ℚ) (changes : List (ℚ × ℕ)) (m : ℕ) : Prop :=
  (∃ c ∈ changes, c.1 = (m + 1) * p) ∧ ∃ t ∈ 0 :: changes.map fst, m * p ≤ t ∧ t < (m + 1) * p

/-- A period that is over just when a change comes had an empty buffer; and so has the next one, once it is over, if there was
a change, or the start, in the first. -/
def Aligned (p : ℚ) (changes : List (ℚ × ℕ)) : Prop :=
  ∀ m : ℕ, ((∃ c ∈ changes, c.1 = (m + 1) * p) → periodArea p changes m = 0) ∧
    (Touches p changes m → (m + 2) * p ≤ (lastChange changes).1 → periodArea p changes (m + 1) = 0)

section
variable {now : ℚ} {l : ℕ}

theorem lastChange_snoc : lastChange (changes ++ [(now, l)]) = (now, l) := by
  unfold lastChange
  rw [getLastD_eq_getLast?, getLast?_concat]
  rfl

theorem Ordered.of_snoc (h : Ordered (changes ++ [(now, l)])) : Ordered changes ∧ ∀ s ∈ 0 :: changes.map fst, s ≤ now := by
  unfold Ordered at h
  rw [map_append, ← cons_append] at h
  obtain ⟨hbefore, -, hlast⟩ := pairwise_append.1 h
  exact ⟨hbefore, fun s hs => hlast s hs now (mem_singleton_self _)⟩

theorem lastChange_mem (changes : List (ℚ × ℕ)) : (lastChange changes).1 ∈ 0 :: changes.map fst := by
  unfold lastChange
  rcases eq_nil_or_concat' changes with rfl | ⟨_, c, rfl⟩
  · exact mem_cons_self
  · rw [getLastD_eq_getLast?, getLast?_concat]
    exact mem_cons_of_mem _ (mem_map_of_mem (mem_append_right _ (mem_singleton_self c)))

variable {m : ℕ}

theorem exists_change (hp : 0 < p) (h : (lastChange changes).1 = (m + 1) * p) : ∃ c ∈ changes, c.1 = (m + 1) * p := by
  rcases mem_cons.1 (lastChange_mem changes) with _ | hmem
  · have hpos : 0 < ((m : ℚ) + 1) * p := mul_pos (by positivity) hp
    linarith
  · obtain ⟨c, hc, hlast⟩ := mem_map.1 hmem
    exact ⟨c, hc, hlast.trans h⟩

theorem periodArea_snoc (h : Ordered (changes ++ [(now, l)])) (hm : (m + 1) * p ≤ now) :
    periodArea p (changes ++ [(now, l)]) m = periodArea p changes m :=
  areaFrom_snoc l h.of_snoc.2 hm

theorem done_snoc (hp : 0 < p) (h : Ordered (changes ++ [(now, l)])) (hk : k * p ≤ now) (entries : List LevelEntry) :
    Done p (changes ++ [(now, l)]) k entries ↔ Done p changes k entries := by
  refine forall₂_congr fun i hi => ?_
  have hnext : ((i : ℚ) + 1) * p ≤ k * p := mul_le_mul_of_nonneg_right (by exact_mod_cast hi) hp.le
  have harea := periodArea_snoc h (hnext.trans hk)
  constructor
  · intro hr
    exact ⟨hr.unique, harea ▸ hr.value, harea ▸ hr.present⟩
  · intro hr
    exact ⟨hr.unique, harea.symm ▸ hr.value, harea.symm ▸ hr.present⟩

/-- The new change, as the last one. -/
theorem Covers.change (hc : Covers p changes j k b) (h : Ordered (changes ++ [(now, l)])) (hlast : b.lastTime = now) :
    Covers p (changes ++ [(now, l)]) j k { b with lastBufLevel := l } := by
  refine ⟨hc.usePeriod, hc.period, hc.lo, hc.hi, hc.le, ?_, ?_, hc.nodup, hc.durations, ?_, hc.logged⟩
  · rw [lastChange_snoc]
    exact hlast.ge
  · rw [lastChange_snoc]
  · exact hc.levels.trans (areaFrom_snoc l h.of_snoc.2 hlast.le).symm

theorem Touches.snoc (ht : Touches p changes m) (c : ℚ × ℕ) : Touches p (changes ++ [c]) m := by
  obtain ⟨⟨c', hc', hend⟩, t, ht, hin⟩ := ht
  refine ⟨⟨c', mem_append_left _ hc', hend⟩, t, ?_, hin⟩
  rw [map_append, ← cons_append]
  exact mem_append_left _ ht

/-- A change that comes later than that is not what touches. -/
theorem Touches.of_snoc (ht : Touches p (changes ++ [(now, l)]) m) (hnow : (m + 1) * p < now) : Touches p changes m := by
  obtain ⟨⟨c, hc, hend⟩, t, ht, hin⟩ := ht
  constructor
  · rcases mem_append.1 hc with hc | hc
    · exact ⟨c, hc, hend⟩
    · obtain rfl := mem_singleton.1 hc
      exact absurd hend.le (not_le.2 hnow)
  · rw [map_append, ← cons_append] at ht
    rcases mem_append.1 ht with ht | ht
    · exact ⟨t, ht, hin⟩
    · obtain rfl : t = now := mem_singleton.1 ht
      exact absurd hin.2 (not_lt.2 hnow.le)

theorem Touches.of_snoc_of_le (ht : Touches p (changes ++ [(now, l)]) m) (hp : 0 < p) (h : Ordered (changes ++ [(now, l)]))
    (hlast : (m + 1) * p ≤ (lastChange changes).1) : Touches p changes m := by
  have hle := h.of_snoc.2 _ (lastChange_mem changes)
  obtain ⟨⟨c, hc, hend⟩, t, ht, hin⟩ := ht
  constructor
  · rcases mem_append.1 hc with hc | hc
    · exact ⟨c, hc, hend⟩
    · obtain rfl := mem_singleton.1 hc
      exact exists_change hp (le_antisymm (hle.trans hend.le) hlast)
  · rw [map_append, ← cons_append] at ht
    rcases mem_append.1 ht with ht | ht
    · exact ⟨t, ht, hin⟩
    · obtain rfl : t = now := mem_singleton.1 ht
      exact absurd hin.2 (not_lt.2 (hlast.trans hle))

/-- What a change adds to the condition. -/
theorem aligned_snoc (hp : 0 < p) (h : Ordered (changes ++ [(now, l)])) (hlo : k * p ≤ (lastChange changes).1)
    (hhi : (lastChange changes).1 < (k + 1) * p) :
    Aligned p (changes ++ [(now, l)]) ↔ Aligned p changes ∧ (∀ m : ℕ, now = (m + 1) * p → periodArea p changes m = 0) ∧
      ((∃ m, k = m + 1 ∧ Touches p changes m) → (k + 1) * p ≤ now → periodArea p changes k = 0) := by
  have hlast := h.of_snoc.2 _ (lastChange_mem changes)
  have hold : ∀ c ∈ changes, c.1 ≤ (lastChange changes).1 :=
    fun c hc => h.of_snoc.1.le_last (mem_cons_of_mem _ (mem_map_of_mem hc))
  have hnext : ∀ m : ℕ, ((m + 1 : ℕ) + 1 : ℚ) * p = (m + 2) * p := fun m => by push_cast; ring
  constructor
  · intro ha
    have hover : ∀ m, Touches p changes m → (m + 2) * p ≤ now → periodArea p changes (m + 1) = 0 := by
      intro m htouch hle
      rw [← periodArea_snoc h ((hnext m).trans_le hle)]
      exact (ha m).2 (htouch.snoc _) (hle.trans_eq (congrArg fst lastChange_snoc.symm))
    refine ⟨fun m => ⟨?_, fun htouch hle => hover m htouch (hle.trans hlast)⟩, fun m hnow => ?_, ?_⟩
    · rintro ⟨c, hc, hm⟩
      rw [← periodArea_snoc h (hm.ge.trans ((hold c hc).trans hlast))]
      exact (ha m).1 ⟨c, mem_append_left _ hc, hm⟩
    · rw [← periodArea_snoc h hnow.ge]
      exact (ha m).1 ⟨(now, l), mem_append_right _ (mem_singleton_self _), hnow⟩
    · rintro ⟨m, rfl, htouch⟩ hle
      exact hover m htouch ((hnext m).symm.trans_le hle)
  · rintro ⟨ha, hnow, htouched⟩ m
    constructor
    · rintro ⟨c, hc, hm⟩
      rcases mem_append.1 hc with hc | hc
      · rw [periodArea_snoc h (hm.ge.trans ((hold c hc).trans hlast))]
        exact (ha m).1 ⟨c, hc, hm⟩
      · obtain rfl := mem_singleton.1 hc
        rw [periodArea_snoc h hm.ge]
        exact hnow m hm
    · intro htouch hle
      rw [lastChange_snoc] at hle
      have htouch := htouch.of_snoc (lt_of_lt_of_le (by linarith) hle)
      rw [periodArea_snoc h ((hnext m).trans_le hle)]
      rcases le_or_gt ((m + 2) * p) (lastChange changes).1 with hbefore | hafter
      · exact (ha m).2 htouch hbefore
      · -- the period is the one in which the last change was
        obtain ⟨c, hc, hend⟩ := htouch.1
        have hmk : ((m : ℚ) + 1) * p < (k + 1) * p := (hend.ge.trans (hold c hc)).trans_lt hhi
        have hkm : (k : ℚ) * p < (m + 2) * p := hlo.trans_lt hafter
        have hmk' : (m : ℚ) + 1 < k + 1 := lt_of_mul_lt_mul_right hmk hp.le
        have hkm' : (k : ℚ) < m + 2 := lt_of_mul_lt_mul_right hkm hp.le
        have hk : k = m + 1 := by
          have h1 : m + 1 < k + 1 := by exact_mod_cast hmk'
          have h2 : k < m + 2 := by exact_mod_cast hkm'
          omega
        subst hk
        exact htouched ⟨m, rfl, htouch⟩ ((hnext m).trans_le hle)

/-! ## A run -/

/-- The state between two changes. -/
structure Tracks (p : ℚ) (changes : List (ℚ × ℕ)) (j k : ℕ) (b : BufferAnalyzer) : Prop where
  covers : Covers p changes j k b
  last : b.lastTime = (lastChange changes).1
  carried : j < k ↔ ∃ m, k = m + 1 ∧ Touches p changes m
  done : Done p changes k b.logged ↔ Aligned p changes

theorem Tracks.new (hp : 0 < p) (buf : String) : Tracks p [] 0 0 { buf, usePeriod := true, period := p } := by
  refine ⟨⟨rfl, rfl, by simp, by simpa using hp, le_rfl, le_rfl, rfl, .nil, ?_, ?_, forall_mem_nil _⟩, rfl, ?_, ?_⟩
  · simp [BufferAnalyzer.durations]
  · simp [BufferAnalyzer.levels, area, areaFrom]
  · simp
  · refine ⟨fun _ m => ⟨?_, ?_⟩, fun _ i hi => absurd hi (Nat.not_lt_zero i)⟩
    · rintro ⟨c, hc, -⟩
      exact absurd hc not_mem_nil
    · rintro ⟨⟨c, hc, -⟩, -⟩
      exact absurd hc not_mem_nil

section
variable (ht : Tracks p changes j k b) (hp : 0 < p)
include ht hp

theorem Tracks.stay (h : Ordered (changes ++ [(now, l)])) (hlt : now < (k + 1) * p) :
    Tracks p (changes ++ [(now, l)]) j k { b.elapse now with lastBufLevel := l } := by
  have hc := ht.covers
  have hlast : b.lastTime ≤ now := ht.last.trans_le (h.of_snoc.2 _ (lastChange_mem changes))
  refine ⟨(hc.elapse h.of_snoc.1 hp hlast le_rfl (hc.lo.trans hlast) hlt).change h rfl, (congrArg fst lastChange_snoc).symm,
    ?_, ?_⟩
  · rw [ht.carried]
    constructor
    · rintro ⟨m, rfl, htouch⟩
      exact ⟨m, rfl, htouch.snoc _⟩
    · rintro ⟨m, rfl, htouch⟩
      refine ⟨m, rfl, htouch.of_snoc_of_le hp h ?_⟩
      have hlo := hc.lo
      push_cast at hlo
      exact hlo.trans_eq ht.last
  · have haligned := aligned_snoc hp h (ht.last ▸ hc.lo) (ht.last ▸ hc.hi)
    show Done _ _ _ b.logged ↔ _
    rw [done_snoc hp h (hc.lo.trans hlast), ht.done, haligned]
    refine ⟨fun ha => ⟨ha, fun m hm => ?_, fun _ hover => absurd hlt (not_lt.2 hover)⟩, fun hall => hall.1⟩
    -- such a change is at the time of the one before it
    have hmk : (m : ℚ) + 1 < k + 1 := lt_of_mul_lt_mul_right (hm.symm.trans_lt hlt) hp.le
    have hmk' : m + 1 ≤ k := by
      have hcast : m + 1 < k + 1 := by exact_mod_cast hmk
      omega
    have hle : ((m : ℚ) + 1) * p ≤ k * p := mul_le_mul_of_nonneg_right (by exact_mod_cast hmk') hp.le
    exact (ha m).1 (exists_change hp (ht.last ▸ le_antisymm (hlast.trans_eq hm) (hle.trans hc.lo)))

theorem Tracks.touch (h : Ordered (changes ++ [(now, l)])) (heq : now = (k + 1) * p) :
    Tracks p (changes ++ [(now, l)]) j (k + 1) { b.elapse now with lastBufLevel := l } := by
  have hc := ht.covers
  have hlast : b.lastTime ≤ now := ht.last.trans_le (h.of_snoc.2 _ (lastChange_mem changes))
  have hlo : ((k + 1 : ℕ) : ℚ) * p ≤ now := by
    push_cast
    exact heq.ge
  have hhi : now < ((k + 1 : ℕ) + 1) * p := by
    push_cast
    linarith
  have hmem : (now, l) ∈ changes ++ [(now, l)] := mem_append_right _ (mem_singleton_self _)
  refine ⟨(hc.elapse h.of_snoc.1 hp hlast (Nat.le_succ k) hlo hhi).change h rfl, (congrArg fst lastChange_snoc).symm, ?_, ?_⟩
  · refine iff_of_true (Nat.lt_succ_of_le hc.le) ⟨k, rfl, ⟨(now, l), hmem, heq⟩, (lastChange changes).1, ?_, ?_, ?_⟩
    · rw [map_append, ← cons_append]
      exact mem_append_left _ (lastChange_mem changes)
    · exact hc.lo.trans_eq ht.last
    · exact ht.last.symm.trans_lt hc.hi
  · have haligned := aligned_snoc hp h (ht.last ▸ hc.lo) (ht.last ▸ hc.hi)
    show Done _ _ _ b.logged ↔ _
    rw [done_snoc hp h hlo, done_succ, right_iff_of_none hp (hc.not_logged hp hc.le), ht.done, haligned]
    refine and_congr_right fun _ => ⟨fun hzero => ⟨fun m hm => ?_, fun _ _ => hzero⟩, fun hboth => hboth.1 k heq⟩
    have hmk : (m : ℚ) + 1 = k + 1 := mul_right_cancel₀ hp.ne' (hm.symm.trans heq)
    obtain rfl : m = k := by exact_mod_cast add_right_cancel hmk
    exact hzero

/-- A change when the period of the one before it has been over for some time. -/
theorem Tracks.late (it : MapOrder LevelDuration) (h : Ordered (changes ++ [(now, l)])) (hgt : (k + 1) * p < now) {n : ℕ}
    (henough : now ≤ (k + 1 + n) * p) {k₀ : ℕ} (hlo₀ : k₀ * p ≤ now) (hhi₀ : now < (k₀ + 1) * p) :
    Tracks p (changes ++ [(now, l)]) k₀ k₀
      { ({ summarizeLoop it now n b (k * p) ((k + 1) * p) with
        bufLevelToDuration := [], lastTime := k₀ * p } : BufferAnalyzer).elapse now with
        lastBufLevel := l } := by
  have hc := ht.covers
  have ho := h.of_snoc.1
  obtain ⟨k', hk, hlo, hhi, hcovers, hdone⟩ := hc.loop ho hp it hgt henough
  generalize summarizeLoop it now n b (k * p) ((k + 1) * p) = b' at hcovers hdone
  have haligned := aligned_snoc hp h (ht.last ▸ hc.lo) (ht.last ▸ hc.hi)
  rw [ht.done, ht.carried] at hdone
  have hlt₀ : k' ≤ k₀ := by
    have hlt : (k' : ℚ) < k₀ + 1 := lt_of_mul_lt_mul_right (hlo.trans hhi₀) hp.le
    exact Nat.lt_succ_iff.1 (by exact_mod_cast hlt)
  have hskip := hcovers.skip hp ho (hc.last_le hp (hk.trans_le hlt₀)).le b'.logged fun e he => by
    obtain ⟨i, hi, hstart⟩ := hcovers.logged e he
    exact ⟨i, hi.trans_le hlt₀, hstart⟩
  refine ⟨(hskip.elapse ho hp hlo₀ le_rfl hlo₀ hhi₀).change h rfl, (congrArg fst lastChange_snoc).symm, ?_, ?_⟩
  · -- nothing has happened since the period of the change before
    refine iff_of_false (lt_irrefl _) ?_
    rintro ⟨m, rfl, htouch⟩
    have hlast := hc.last_le hp (hk.trans_le hlt₀)
    push_cast at hlast hlo₀
    rcases lt_or_eq_of_le hlo₀ with hlt | heq
    · obtain ⟨⟨_, hmem, hend⟩, -⟩ := htouch.of_snoc hlt
      exact absurd (ho.le_last (mem_cons_of_mem _ (mem_map_of_mem hmem))) (not_le.2 (hlast.trans_eq hend.symm))
    · obtain ⟨t, hmem, hin⟩ := htouch.2
      have hkm : (k' : ℚ) < m + 1 := lt_of_mul_lt_mul_right (hlo.trans_eq heq.symm) hp.le
      have hkm' : k < m := hk.trans_le (Nat.lt_succ_iff.1 (by exact_mod_cast hkm))
      rw [map_append, ← cons_append] at hmem
      rcases mem_append.1 hmem with hmem | hmem
      · exact absurd ((ho.le_last hmem).trans_lt (hc.last_le hp hkm')) (not_lt.2 hin.1)
      · obtain rfl : t = now := mem_singleton.1 hmem
        exact absurd hin.2 (not_lt.2 hlo₀)
  · show Done _ _ _ b'.logged ↔ _
    rw [done_snoc hp h hlo₀, haligned]
    have hkept : (((∃ m, k = m + 1 ∧ Touches p changes m) → (k + 1) * p ≤ now → periodArea p changes k = 0) ↔
        ((∃ m, k = m + 1 ∧ Touches p changes m) → periodArea p changes k = 0)) :=
      ⟨fun hz ht => hz ht hgt.le, fun hz ht _ => hz ht⟩
    rw [hkept]
    rcases lt_or_eq_of_le hhi with hlt | heq
    · have hk₀ : k₀ = k' := by
        have hlt' : (k₀ : ℚ) < k' + 1 := lt_of_mul_lt_mul_right (hlo₀.trans_lt hlt) hp.le
        exact le_antisymm (Nat.lt_succ_iff.1 (by exact_mod_cast hlt')) hlt₀
      rw [hk₀, hdone]
      refine and_congr_right fun _ => ⟨fun hzero => ⟨fun m hm => ?_, hzero⟩, fun hboth => hboth.2⟩
      have h1 : (k' : ℚ) < m + 1 := lt_of_mul_lt_mul_right (hlo.trans_eq hm) hp.le
      have h2 : (m : ℚ) + 1 < k' + 1 := lt_of_mul_lt_mul_right (hm.symm.trans_lt hlt) hp.le
      have h1' : k' < m + 1 := by exact_mod_cast h1
      have h2' : m + 1 < k' + 1 := by exact_mod_cast h2
      omega
    · have hk₀ : k₀ = k' + 1 := by
        have h1 : (k' : ℚ) + 1 < k₀ + 1 := lt_of_mul_lt_mul_right (heq.symm.trans_lt hhi₀) hp.le
        have h2 : (k₀ : ℚ) ≤ k' + 1 := le_of_mul_le_mul_right (hlo₀.trans_eq heq) hp
        have h1' : k' + 1 < k₀ + 1 := by exact_mod_cast h1
        have h2' : k₀ ≤ k' + 1 := by exact_mod_cast h2
        omega
      rw [hk₀, done_succ, right_iff_of_none hp (hcovers.not_logged hp le_rfl), hdone]
      have hend : (∀ m : ℕ, now = (m + 1) * p → periodArea p changes m = 0) ↔ periodArea p changes k' = 0 := by
        refine ⟨fun hall => hall k' heq, fun hzero m hm => ?_⟩
        have hmk : (m : ℚ) + 1 = k' + 1 := mul_right_cancel₀ hp.ne' (hm.symm.trans heq)
        obtain rfl : m = k' := by exact_mod_cast add_right_cancel hmk
        exact hzero
      rw [hend, and_assoc, and_comm (a := periodArea p changes k' = 0)]

theorem Tracks.func (it : MapOrder LevelDuration) (h : Ordered (changes ++ [(now, l)])) :
    ∃ j' k', Tracks p (changes ++ [(now, l)]) j' k' (b.func it now l) := by
  have hc := ht.covers
  have hnow : b.lastTime ≤ now := ht.last.trans_le (h.of_snoc.2 _ (lastChange_mem changes))
  have hfloor : ⌊b.lastTime / b.period⌋ = (k : ℤ) := by
    rw [hc.period]
    exact floor_eq_of_mem hp (by exact_mod_cast hc.lo) (by exact_mod_cast hc.hi)
  have hstart : b.periodStartTime b.lastTime = k * p := by
    unfold periodStartTime
    rw [hfloor, hc.period, Int.cast_natCast]
  have hend : b.periodEndTime b.lastTime = (k + 1) * p := by
    unfold periodEndTime
    rw [hstart, hc.period]
    ring
  rcases le_or_gt now ((k + 1) * p) with hle | hgt
  · have hfunc : b.func it now l = { b.elapse now with lastBufLevel := l } := by
      unfold BufferAnalyzer.func
      rw [if_neg]
      rw [hend]
      exact fun hboth => absurd hboth.2 (not_lt.2 hle)
    rw [hfunc]
    rcases lt_or_eq_of_le hle with hlt | heq
    · exact ⟨j, k, ht.stay hp h hlt⟩
    · exact ⟨j, k + 1, ht.touch hp h heq⟩
  · -- the number of the period in which the change comes
    obtain ⟨k₀, hk₀⟩ : ∃ k₀ : ℕ, ⌊now / p⌋ = k₀ := by
      refine Int.eq_ofNat_of_zero_le (Int.floor_nonneg.2 (div_nonneg ?_ hp.le))
      have hpos : 0 ≤ ((k : ℚ) + 1) * p := mul_nonneg (by positivity) hp.le
      linarith
    have hlo₀ : (k₀ : ℚ) * p ≤ now := by
      have hle := periodStart_le hp now
      unfold periodStart at hle
      rwa [hk₀, Int.cast_natCast] at hle
    have hhi₀ : now < (k₀ + 1) * p := by
      have hlt := lt_periodEnd hp now
      unfold periodEnd periodStart at hlt
      rw [hk₀, Int.cast_natCast] at hlt
      linarith
    have hk : k < k₀ := by
      have hlt : (k : ℚ) + 1 < k₀ + 1 := lt_of_mul_lt_mul_right (hgt.trans hhi₀) hp.le
      have hlt' : k + 1 < k₀ + 1 := by exact_mod_cast hlt
      omega
    have henough : now ≤ (k + 1 + (k₀ - k : ℕ)) * p := by
      rw [Nat.cast_sub hk.le]
      linarith
    have hfunc : b.func it now l =
        { ({ summarizeLoop it now (k₀ - k) b (k * p) ((k + 1) * p) with bufLevelToDuration := [], lastTime := k₀ * p }
        : BufferAnalyzer).elapse now with lastBufLevel := l } := by
      obtain ⟨_, -, -, -, hcovers, -⟩ := hc.loop h.of_snoc.1 hp it hgt henough
      have hrounds : (⌊now / b.period⌋ - ⌊b.lastTime / b.period⌋).toNat = k₀ - k := by
        rw [hc.period, hk₀, ← hc.period, hfloor]
        omega
      have hreset : (summarizeLoop it now (k₀ - k) b (k * p) ((k + 1) * p)).periodStartTime now = k₀ * p := by
        unfold periodStartTime
        rw [hcovers.period, hk₀, Int.cast_natCast]
      unfold BufferAnalyzer.func
      rw [if_pos ⟨hc.usePeriod, hend.trans_lt hgt⟩]
      unfold summarize resetPeriod
      rw [if_neg (by simp [hc.usePeriod])]
      dsimp only
      rw [hrounds, hstart, hend, hreset]
    rw [hfunc]
    exact ⟨k₀, k₀, ht.late hp it h hgt henough hlo₀ hhi₀⟩

end

theorem Tracks.run (hp : 0 < p) (it : MapOrder LevelDuration) (buf : String) (changes : List (ℚ × ℕ)) (h : Ordered changes) :
    ∃ j k, Tracks p changes j k (BufferAnalyzer.run it buf p changes) := by
  induction changes using reverseRecOn with
  | nil => exact ⟨0, 0, Tracks.new hp buf⟩
  | append_singleton _ _ ih =>
    obtain ⟨_, _, ht⟩ := ih h.of_snoc.1
    unfold BufferAnalyzer.run at ht ⊢
    rw [foldl_append]
    exact ht.func hp it h

end

/-- Every period that is over has been logged with its average exactly if the changes are aligned. -/
theorem averaged_iff (it : MapOrder LevelDuration) (buf : String) (hp : 0 < p) (changes : List (ℚ × ℕ))
    (h : Ordered changes) :
    (∀ i : ℕ, (i + 1) * p ≤ (lastChange changes).1 → Right p changes (run it buf p changes).logged i) ↔
      Aligned p changes := by
  obtain ⟨_, k, ht⟩ := Tracks.run hp it buf changes h
  rw [← ht.done]
  refine forall_congr' fun i => ?_
  have hover : (i + 1) * p ≤ (lastChange changes).1 ↔ i < k := by
    rw [← ht.last]
    constructor
    · intro hle
      have hlt : (i : ℚ) + 1 < k + 1 := lt_of_mul_lt_mul_right (hle.trans_lt ht.covers.hi) hp.le
      have hlt' : i + 1 < k + 1 := by exact_mod_cast hlt
      omega
    · intro hlt
      have hle : ((i : ℚ) + 1) * p ≤ k * p := mul_le_mul_of_nonneg_right (by exact_mod_cast hlt) hp.le
      exact hle.trans ht.covers.lo
  rw [hover]

/-- The second change comes just when the first period is over. -/
theorem logged_touching :
    ((run ⟨id, fun _ => .refl _⟩ "B" 1 [(0, 1), (1, 1), (5 / 2, 0)]).logged.filter fun e => e.startTime = 0).length = 0 ∧
      periodArea 1 [(0, 1), (1, 1), (5 / 2, 0)] 0 = 1 := by
  decide +kernel

theorem averaged_iff_odd : Right 2 [(1, 1), (3, 0)] (run ⟨id, fun _ => .refl _⟩ "B" 2 [(1, 1), (3, 0)]).logged 0 := by
  have hno : ∀ m : ℕ, ¬ ∃ c ∈ [((1 : ℚ), 1), (3, 0)], c.1 = ((m : ℚ) + 1) * 2 := by
    rintro m ⟨c, hc, hm⟩
    rcases mem_cons.1 hc with rfl | hc
    · have hm : (1 : ℚ) = (m + 1) * 2 := hm
      have hcast : 1 = (m + 1) * 2 := by exact_mod_cast hm
      omega
    · obtain rfl := mem_singleton.1 hc
      have hm : (3 : ℚ) = (m + 1) * 2 := hm
      have hcast : 3 = (m + 1) * 2 := by exact_mod_cast hm
      omega
  exact (averaged_iff ⟨id, fun _ => .refl _⟩ "B" (by decide) [(1, 1), (3, 0)] (by unfold Ordered; decide +kernel)).2
    (fun m => ⟨fun h => absurd h (hno m), fun h => absurd h.1 (hno m)⟩) 0 (by decide +kernel)

end Akita.Analysis.Buffers.BufferAnalyzer
