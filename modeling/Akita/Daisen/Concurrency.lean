import Akita.Daisen.ComponentInfo

/-!
# Concurrency charts

* `average_ok` : the sweep integrates the running count, whatever the order of equal times;
* `calculateTimeWeightedTaskCount_eq` : each dot is the sum of the overlaps over the length of the bin;
* `calculateTimeWeightedTaskCount_exact` : all of them add up.
-/

namespace Akita.Daisen
open List
open Tracing (TaskQuery ListedTask)

/-! ## The sweep -/

variable {lo hi : ℚ}

/-- What a timestamp adds to the integral of the count over a bin. -/
def Timestamp.area (lo hi : ℚ) (ts : Timestamp) : ℚ := (hi - clamp lo hi ts.time) * ts.step

theorem average_ok (h : lo ≤ hi) {timestamps : List Timestamp} (hsorted : timestamps.Pairwise fun x y => x.time ≤ y.time)
    {s : Averaging} (hlo : lo ≤ s.prevTime) (hprev : ∀ ts ∈ timestamps, s.prevTime ≤ max lo ts.time) :
    Succeeds (fun s' => s'.timeByCount + (hi - s'.prevTime) * s'.count =
      s.timeByCount + (hi - s.prevTime) * s.count + (timestamps.map (Timestamp.area lo hi)).sum)
        (average lo hi timestamps s) := by
  induction timestamps generalizing s with
  | nil => exact .ok (by simp)
  | cons ts timestamps ih =>
    obtain ⟨hfirst, hrest⟩ := pairwise_cons.1 hsorted
    have hts := hprev ts mem_cons_self
    rw [map_cons, sum_cons]
    unfold average
    split
    next hearly =>
      -- before the bin only the count changes, and nothing has been integrated yet
      have hstart : s.prevTime = lo := le_antisymm (hts.trans (max_le le_rfl hearly.le)) hlo
      have hclamp : ts.area lo hi = (hi - s.prevTime) * ts.step := by rw [Timestamp.area, clamp_of_le hearly.le, hstart]
      refine (ih hrest (s := { s with count := s.count + ts.step }) hlo fun y hy => hprev y (mem_cons_of_mem _ hy)).mono
        fun s' hs' => ?_
      rw [hs', hclamp]
      push_cast
      ring
    next hlate =>
      split
      next hend =>
        -- the others are not before this one, so all of them are behind the bin
        have hzero : ∀ y : Timestamp, ts.time ≤ y.time → y.area lo hi = 0 := by
          intro y hy
          rw [Timestamp.area, clamp_of_ge h (le_trans hend hy), sub_self, zero_mul]
        have hothers : (timestamps.map (Timestamp.area lo hi)).sum = 0 := by
          refine sum_eq_zero fun x hx => ?_
          obtain ⟨y, hy, rfl⟩ := mem_map.1 hx
          exact hzero y (hfirst y hy)
        refine .ok ?_
        rw [hzero ts le_rfl, hothers, add_zero, add_zero]
      next hbin =>
        have hle : lo ≤ ts.time := not_lt.1 hlate
        have hdone : s.prevTime ≤ ts.time := hts.trans (max_le hle le_rfl)
        have hclamp : ts.area lo hi = (hi - ts.time) * ts.step := by rw [Timestamp.area, clamp_of_mem hle (not_le.1 hbin).le]
        dsimp only
        rw [if_neg (not_lt.2 (sub_nonneg.2 hdone))]
        refine (ih hrest hle fun y hy => (hfirst y hy).trans (le_max_right lo _)).mono fun s' hs' => ?_
        rw [hs', hclamp]
        push_cast
        ring

theorem calculateAvgTaskCount_ok (h : lo ≤ hi) {timestamps : List Timestamp}
    (hsorted : timestamps.Pairwise fun x y => x.time ≤ y.time) :
    calculateAvgTaskCount timestamps lo hi = .ok ((timestamps.map (Timestamp.area lo hi)).sum / (hi - lo)) := by
  obtain ⟨s, hs, harea⟩ := average_ok h hsorted (s := { prevTime := lo }) le_rfl fun ts _ => le_max_left lo ts.time
  have hsum : s.timeByCount + (hi - s.prevTime) * s.count = (timestamps.map (Timestamp.area lo hi)).sum := by
    rw [harea]
    simp
  unfold calculateAvgTaskCount
  rw [hs, ← hsum]
  rfl

/-! ## A bin -/

section
variable {increaseTime decreaseTime : ListedTask → ℚ}

/-- The length of what a task and the time from `lo` to `hi` share. -/
def taskOverlap (increaseTime decreaseTime : ListedTask → ℚ) (lo hi : ℚ) (t : ListedTask) : ℚ :=
  overlap (increaseTime t) (decreaseTime t) lo hi

theorem sorted_taskToTimeStamps (sorting : Sorting) (tasks : List ListedTask) :
    (taskToTimeStamps increaseTime decreaseTime sorting tasks).Pairwise fun x y => x.time ≤ y.time :=
  sorting.sorted _

theorem area_taskToTimeStamps (sorting : Sorting) (h : lo ≤ hi) {tasks : List ListedTask}
    (htasks : ∀ t ∈ tasks, increaseTime t ≤ decreaseTime t) :
    ((taskToTimeStamps increaseTime decreaseTime sorting tasks).map (Timestamp.area lo hi)).sum =
      (tasks.map (taskOverlap increaseTime decreaseTime lo hi)).sum := by
  unfold taskToTimeStamps
  rw [((sorting.perm _).map _).sum_eq]
  induction tasks with
  | nil => rfl
  | cons t tasks ih =>
    have hpair : Timestamp.area lo hi { time := increaseTime t, isStart := true } +
        Timestamp.area lo hi { time := decreaseTime t, isStart := false } =
        taskOverlap increaseTime decreaseTime lo hi t := by
      rw [taskOverlap, overlap_eq (htasks t mem_cons_self) h]
      simp only [Timestamp.area, Timestamp.step, if_true, Bool.false_eq_true, if_false]
      push_cast
      ring
    rw [flatMap_cons, map_append, sum_append, ih fun t ht => htasks t (mem_cons_of_mem _ ht), map_cons (l := tasks), sum_cons,
      ← hpair]
    simp

theorem overlap_of_not_inBin {t : ListedTask} (h : isTaskOverlapsWithBin increaseTime decreaseTime t lo hi = false) :
    taskOverlap increaseTime decreaseTime lo hi t = 0 := by
  unfold isTaskOverlapsWithBin at h
  split at h
  next hend => exact overlap_of_disjoint (.inl hend.le)
  next =>
    split at h
    next hstart => exact overlap_of_disjoint (.inr hstart.le)
    next => cases h

theorem sum_getTasksInBin (tasks : List ListedTask) :
    ((getTasksInBin increaseTime decreaseTime tasks lo hi).map (taskOverlap increaseTime decreaseTime lo hi)).sum =
      (tasks.map (taskOverlap increaseTime decreaseTime lo hi)).sum := by
  unfold getTasksInBin
  induction tasks with
  | nil => rfl
  | cons t _ ih =>
    rw [map_cons, sum_cons]
    cases hbin : isTaskOverlapsWithBin increaseTime decreaseTime t lo hi with
    | true => rw [filter_cons_of_pos (by simpa using hbin), map_cons, sum_cons, ih]
    | false => rw [filter_cons_of_neg (by simp [hbin]), ih, overlap_of_not_inBin hbin, zero_add]

/-! ## A chart -/

section
variable (sorting : Sorting) (listTasks : TaskQuery → List ListedTask) (compName infoType : String) {startTime endTime : ℚ}
  {numDots : Int} (filter : ListedTask → Bool)

/-- The tasks of a chart. -/
def charted (startTime endTime : ℚ) : List ListedTask :=
  (listTasks (concurrencyQuery compName startTime endTime)).filter filter

/-- What the chart shows of a bin. -/
def avgCount (increaseTime decreaseTime : ListedTask → ℚ) (tasks : List ListedTask) (bin : Bin) : ℚ :=
  (tasks.map (taskOverlap increaseTime decreaseTime bin.binStartTime bin.binEndTime)).sum /
    (bin.binEndTime - bin.binStartTime)

theorem calculateTimeWeightedTaskCount_eq (h : startTime < endTime) (hd : 1 ≤ numDots)
    (htasks : ∀ t ∈ charted listTasks compName filter startTime endTime, increaseTime t ≤ decreaseTime t) :
    calculateTimeWeightedTaskCount sorting listTasks compName infoType startTime endTime numDots filter
      increaseTime decreaseTime =
      .ok { name := compName, infoType, startTime, endTime
            data := (bins startTime endTime numDots).map fun bin =>
              dot startTime endTime numDots bin
                (avgCount increaseTime decreaseTime (charted listTasks compName filter startTime endTime) bin) } := by
  unfold calculateTimeWeightedTaskCount
  generalize hcharted : charted listTasks compName filter startTime endTime = tasks at htasks
  unfold charted at hcharted
  rw [hcharted]
  have hbin : ∀ bin ∈ bins startTime endTime numDots,
      calculateAvgTaskCount (taskToTimeStamps increaseTime decreaseTime sorting
          (getTasksInBin increaseTime decreaseTime tasks bin.binStartTime bin.binEndTime)) bin.binStartTime bin.binEndTime =
        .ok (avgCount increaseTime decreaseTime tasks bin) := by
    intro bin hmem
    have hle := (bin_lt h hd hmem).le
    have hin : ∀ t ∈ getTasksInBin increaseTime decreaseTime tasks bin.binStartTime bin.binEndTime,
        increaseTime t ≤ decreaseTime t :=
      fun t ht => htasks t (mem_of_mem_filter ht)
    rw [calculateAvgTaskCount_ok hle (sorted_taskToTimeStamps sorting _), area_taskToTimeStamps sorting hle hin,
      sum_getTasksInBin]
    rfl
  dsimp only
  rw [mapM_eq_ok fun bin hmem => by rw [hbin bin hmem]; rfl]
  rfl

theorem sum_avgCount (h : startTime < endTime) (hd : 1 ≤ numDots) {tasks : List ListedTask}
    (htasks : ∀ t ∈ tasks, increaseTime t ≤ decreaseTime t) :
    ((bins startTime endTime numDots).map
      fun bin => avgCount increaseTime decreaseTime tasks bin * binDuration startTime endTime numDots).sum =
      (tasks.map (taskOverlap increaseTime decreaseTime startTime endTime)).sum := by
  have hmul : ∀ bin ∈ bins startTime endTime numDots, avgCount increaseTime decreaseTime tasks bin *
      binDuration startTime endTime numDots =
      (tasks.map (taskOverlap increaseTime decreaseTime bin.binStartTime bin.binEndTime)).sum := by
    intro bin hbin
    unfold avgCount
    rw [bin_length hbin]
    exact div_mul_cancel₀ _ (binDuration_pos h hd).ne'
  rw [map_congr_left hmul]
  clear hmul
  induction tasks with
  | nil => simp
  | cons t _ ih =>
    have hone := sum_overlap startTime (htasks t mem_cons_self) (binDuration_pos h hd).le numDots.toNat
    rw [last_edge startTime endTime hd] at hone
    have hfirst : ((bins startTime endTime numDots).map
        fun bin => taskOverlap increaseTime decreaseTime bin.binStartTime bin.binEndTime t).sum =
        taskOverlap increaseTime decreaseTime startTime endTime t := by
      rw [bins_eq, map_map]
      exact hone
    simp only [map_cons, sum_cons]
    rw [sum_map_add, hfirst, ih fun t ht => htasks t (mem_cons_of_mem _ ht)]

/-- The chart integrates the number of tasks: over each bin, and so over the range. -/
theorem calculateTimeWeightedTaskCount_exact (h : startTime < endTime) (hd : 1 ≤ numDots)
    (htasks : ∀ t ∈ charted listTasks compName filter startTime endTime, increaseTime t ≤ decreaseTime t) :
    Succeeds (fun info =>
        info.data = (bins startTime endTime numDots).map (fun bin => dot startTime endTime numDots bin
          (((charted listTasks compName filter startTime endTime).map fun t =>
            overlap (increaseTime t) (decreaseTime t) bin.binStartTime bin.binEndTime).sum /
              (bin.binEndTime - bin.binStartTime))) ∧
        (info.data.map fun tv => tv.value * binDuration startTime endTime numDots).sum =
          ((charted listTasks compName filter startTime endTime).map
            fun t => overlap (increaseTime t) (decreaseTime t) startTime endTime).sum)
      (calculateTimeWeightedTaskCount sorting listTasks compName infoType startTime endTime numDots filter increaseTime
        decreaseTime) := by
  rw [calculateTimeWeightedTaskCount_eq sorting listTasks compName infoType filter h hd htasks]
  refine .ok ⟨rfl, ?_⟩
  rw [map_map]
  exact sum_avgCount h hd htasks

end

end

/-- Sorting by merging. -/
def Sorting.merge : Sorting where
  sort l := l.mergeSort fun x y => x.time ≤ y.time
  perm l := mergeSort_perm l _
  sorted l := by
    have hsorted : (l.mergeSort fun x y => x.time ≤ y.time).Pairwise fun x y => decide (x.time ≤ y.time) = true :=
      pairwise_mergeSort (fun x y z hxy hyz => decide_eq_true ((of_decide_eq_true hxy).trans (of_decide_eq_true hyz)))
        (fun x y => by simpa using le_total x.time y.time) l
    exact hsorted.imp of_decide_eq_true

/-- Two tasks of which the second starts when the first ends, in the middle of a bin, and one that takes no time. -/
def meetingTasks : List ListedTask :=
  [{ id := "1", parentID := "", kind := "k", what := "w", location := "l", startTime := 0, endTime := 3 },
    { id := "2", parentID := "", kind := "k", what := "w", location := "l", startTime := 3, endTime := 6 },
    { id := "3", parentID := "", kind := "k", what := "w", location := "l", startTime := 2, endTime := 2 }]

theorem calculateTimeWeightedTaskCount_exact_meeting :
    Succeeds (fun info =>
        info.data = (bins 0 6 3).map (fun bin => dot 0 6 3 bin
          ((meetingTasks.map fun t => overlap t.startTime t.endTime bin.binStartTime bin.binEndTime).sum /
            (bin.binEndTime - bin.binStartTime))) ∧
        (info.data.map fun tv => tv.value * binDuration 0 6 3).sum =
          (meetingTasks.map fun t => overlap t.startTime t.endTime 0 6).sum)
      (calculateTimeWeightedTaskCount .merge (fun _ => meetingTasks) "l" "ConcurrentTask" 0 6 3 (fun _ => true)
        (fun t => t.startTime) fun t => t.endTime) :=
  calculateTimeWeightedTaskCount_exact .merge (fun _ => meetingTasks) "l" "ConcurrentTask" (fun _ => true) (by decide)
    (by decide) (by decide +kernel)

end Akita.Daisen
