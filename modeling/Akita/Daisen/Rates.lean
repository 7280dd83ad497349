import Akita.Daisen.ComponentInfo
import Akita.Multisets
import Mathlib.Algebra.BigOperators.Ring.Finset

/-!
# Request charts

* `OnEdge` : a bin starts at that time. Both ends of a bin are left out of it, so such a time is in no bin;
* `sum_rateChart` : what the dots of a rate add up to;
* `rates_iff` : when every request is counted once.
-/

namespace Akita.Daisen
open Tracing (TaskQuery ListedTask)
open List

variable {startTime endTime : ℚ} {numDots : Int}

/-! ## The edges -/

def OnEdge (startTime endTime : ℚ) (numDots : Int) (x : ℚ) : Prop :=
  ∃ bin ∈ bins startTime endTime numDots, x = bin.binStartTime

instance (startTime endTime : ℚ) (numDots : Int) : DecidablePred (OnEdge startTime endTime numDots) := fun _ =>
  inferInstanceAs (Decidable (∃ bin ∈ bins startTime endTime numDots, _ = bin.binStartTime))

def InRange (startTime endTime : ℚ) (x : ℚ) : Prop := startTime ≤ x ∧ x < endTime

instance (startTime endTime : ℚ) : DecidablePred (InRange startTime endTime) := fun _ =>
  inferInstanceAs (Decidable (_ ∧ _))

variable {x : ℚ}

theorem onEdge_iff :
    OnEdge startTime endTime numDots x ↔
      ∃ i < numDots.toNat, x = edge startTime (binDuration startTime endTime numDots) i := by
  unfold OnEdge
  rw [bins_eq]
  constructor
  · rintro ⟨bin, hbin, rfl⟩
    obtain ⟨i, hi, rfl⟩ := mem_map.1 hbin
    exact ⟨i, mem_range.1 hi, rfl⟩
  · rintro ⟨i, hi, rfl⟩
    exact ⟨_, mem_map_of_mem (mem_range.2 hi), rfl⟩

section
variable (h : startTime < endTime) (hd : 1 ≤ numDots)
include h hd

theorem inRange_of_onEdge (hx : OnEdge startTime endTime numDots x) : InRange startTime endTime x := by
  obtain ⟨i, hi, rfl⟩ := onEdge_iff.1 hx
  have hwidth := binDuration_pos h hd
  have hlo := edge_mono startTime hwidth.le (Nat.zero_le i)
  have hhi := edge_mono startTime hwidth.le (Nat.succ_le_of_lt hi)
  rw [edge_zero] at hlo
  rw [last_edge startTime endTime hd, edge_succ] at hhi
  exact ⟨hlo, by linarith⟩

theorem inRange_of_counts {bin : Bin} (hbin : bin ∈ bins startTime endTime numDots)
    (hx : bin.Counts x) : InRange startTime endTime x := by
  obtain ⟨i, hi, rfl⟩ := mem_map.1 hbin
  have hwidth := binDuration_pos h hd
  have hlo := edge_mono startTime hwidth.le (Nat.zero_le i)
  have hhi := edge_mono startTime hwidth.le (Nat.succ_le_of_lt (mem_range.1 hi))
  rw [edge_zero] at hlo
  rw [last_edge startTime endTime hd] at hhi
  exact ⟨hlo.trans hx.1.le, hx.2.trans_le hhi⟩

theorem counts_unique {i j : ℕ} (hi : (binAt startTime endTime numDots i).Counts x)
    (hj : (binAt startTime endTime numDots j).Counts x) : i = j :=
  bin_unique (binDuration_pos h hd).le ⟨hi.1.le, hi.2⟩ ⟨hj.1.le, hj.2⟩

/-- In the range, only the edges are in no bin. -/
theorem exists_counts_iff (hx : InRange startTime endTime x) :
    (∃ i < numDots.toNat, (binAt startTime endTime numDots i).Counts x) ↔ ¬ OnEdge startTime endTime numDots x := by
  have hwidth := binDuration_pos h hd
  constructor
  · rintro ⟨i, hi, hcounts⟩ hedge
    obtain ⟨j, _, rfl⟩ := onEdge_iff.1 hedge
    have hjbin : edge startTime (binDuration startTime endTime numDots) j <
        edge startTime (binDuration startTime endTime numDots) (j + 1) := by
      rw [edge_succ]
      linarith
    obtain rfl : i = j := bin_unique hwidth.le ⟨hcounts.1.le, hcounts.2⟩ ⟨le_rfl, hjbin⟩
    exact lt_irrefl _ hcounts.1
  · intro hedge
    obtain ⟨i, hi, hlo, hhi⟩ := exists_bin hx.1 (hx.2.trans_eq (last_edge startTime endTime hd).symm)
    refine ⟨i, hi, lt_of_le_of_ne hlo ?_, hhi⟩
    rintro rfl
    exact hedge (onEdge_iff.2 ⟨i, hi, rfl⟩)

end

/-! ## Counting -/

theorem countP_bins (h : startTime < endTime) (hd : 1 ≤ numDots) (x : ℚ) :
    (bins startTime endTime numDots).countP (fun bin => bin.Counts x) =
      if InRange startTime endTime x ∧ ¬ OnEdge startTime endTime numDots x then 1 else 0 := by
  split
  next hx =>
    obtain ⟨i, hi, hcounts⟩ := (exists_counts_iff h hd hx.1).2 hx.2
    rw [bins_eq, countP_map]
    have hsame : ∀ j ∈ range numDots.toNat, ((fun bin : Bin => decide (bin.Counts x)) ∘ binAt startTime endTime numDots) j =
        true ↔ (j == i) = true := by
      intro j hj
      rw [beq_iff_eq]
      constructor
      · intro hjc
        exact counts_unique h hd (of_decide_eq_true hjc) hcounts
      · rintro rfl
        exact decide_eq_true hcounts
    rw [countP_congr hsame]
    exact count_eq_one_of_mem nodup_range (mem_range.2 hi)
  next hx =>
    refine countP_eq_zero.2 fun bin hbin hcounts => hx ?_
    have hin := inRange_of_counts h hd hbin (of_decide_eq_true hcounts)
    obtain ⟨i, hi, rfl⟩ := mem_map.1 hbin
    exact ⟨hin, (exists_counts_iff h hd hin).1 ⟨i, mem_range.1 hi, of_decide_eq_true hcounts⟩⟩

theorem sum_counts (h : startTime < endTime) (hd : 1 ≤ numDots) (time : ListedTask → ℚ) (reqs : List ListedTask) :
    ((bins startTime endTime numDots).map fun bin => reqs.countP fun r => bin.Counts (time r)).sum =
      reqs.countP fun r => InRange startTime endTime (time r) ∧ ¬ OnEdge startTime endTime numDots (time r) := by
  rw [sum_countP_comm, map_congr_left fun r _ => countP_bins h hd (time r)]
  have hboole := sum_boole (fun r =>
    decide (InRange startTime endTime (time r) ∧ ¬ OnEdge startTime endTime numDots (time r))) reqs
  simp only [decide_eq_true_eq] at hboole
  exact hboole

theorem sum_rateChart (h : startTime < endTime) (hd : 1 ≤ numDots) (listTasks : TaskQuery → List ListedTask)
    (infoType : String) (time : ListedTask → ℚ) (compName : String) :
    ((rateChart listTasks infoType time compName startTime endTime numDots).data.map
      fun tv => tv.value * binDuration startTime endTime numDots).sum =
      (listTasks (reqQuery compName startTime endTime)).countP fun r => InRange startTime endTime (time r) ∧
        ¬ OnEdge startTime endTime numDots (time r) := by
  rw [← sum_counts h hd time]
  have hvalue : ∀ n : ℕ, (n : ℚ) / ((endTime - startTime) / numDots) * binDuration startTime endTime numDots = n :=
    fun n => div_mul_cancel₀ _ (binDuration_pos h hd).ne'
  rw [Nat.cast_list_sum, map_map]
  unfold rateChart
  dsimp only
  rw [map_map]
  exact congrArg sum (map_congr_left fun bin _ => hvalue _)

/-! ## The charts -/

variable {listTasks : TaskQuery → List ListedTask} {compName : String}

/-- What a reader lists of a trace, for a range. -/
def listed (trace : List ListedTask) (startTime endTime : ℚ) : List ListedTask :=
  trace.filter fun r => r.endTime > startTime ∧ r.startTime < endTime

theorem countP_eq_iff (h : startTime < endTime) (hd : 1 ≤ numDots) (reqs : List ListedTask) (time : ListedTask → ℚ) :
    (reqs.countP fun r => InRange startTime endTime (time r) ∧ ¬ OnEdge startTime endTime numDots (time r)) =
      (reqs.countP fun r => InRange startTime endTime (time r)) ↔
        ∀ r ∈ reqs, ¬ OnEdge startTime endTime numDots (time r) := by
  constructor
  · intro heq r hr hedge
    -- those on an edge are what is missing
    have hsplit := countP_eq_countP_filter_add reqs (fun r => InRange startTime endTime (time r))
      fun r => OnEdge startTime endTime numDots (time r)
    rw [countP_filter, countP_filter] at hsplit
    have hzero : reqs.countP (fun r => decide (InRange startTime endTime (time r)) && decide
        (OnEdge startTime endTime numDots (time r))) = 0 := by
      simp only [Bool.decide_and, decide_not] at heq
      omega
    exact countP_eq_zero.1 hzero r hr (by simp [inRange_of_onEdge h hd hedge, hedge])
  · intro hno
    refine countP_congr fun r hr => ?_
    simp [hno r hr]

theorem sum_rateChart_iff (h : startTime < endTime) (hd : 1 ≤ numDots) {reqs : List ListedTask}
    (hlist : (listTasks (reqQuery compName startTime endTime)).Perm reqs) (infoType : String) (time : ListedTask → ℚ) :
    ((rateChart listTasks infoType time compName startTime endTime numDots).data.map
      fun tv => tv.value * binDuration startTime endTime numDots).sum =
      (reqs.countP fun r => InRange startTime endTime (time r) : ℕ) ↔
        ∀ r ∈ reqs, ¬ OnEdge startTime endTime numDots (time r) := by
  rw [sum_rateChart h hd, hlist.countP_eq, Nat.cast_inj, countP_eq_iff h hd]

theorem existsUnique_completed_iff (h : startTime < endTime) (hd : 1 ≤ numDots) {reqs : List ListedTask} {r : ListedTask}
    (hr : r ∈ reqs) (hin : InRange startTime endTime r.endTime) :
    (∃! bin, bin ∈ bins startTime endTime numDots ∧ r ∈ completed reqs bin) ↔
      ¬ OnEdge startTime endTime numDots r.endTime := by
  rw [← exists_counts_iff h hd hin]
  constructor
  · rintro ⟨bin, ⟨hbin, hmem⟩, -⟩
    obtain ⟨i, hi, rfl⟩ := mem_map.1 hbin
    exact ⟨i, mem_range.1 hi, of_decide_eq_true (mem_filter.1 hmem).2⟩
  · rintro ⟨i, hi, hcounts⟩
    refine ⟨_, ⟨mem_map_of_mem (mem_range.2 hi), mem_filter.2 ⟨hr, decide_eq_true hcounts⟩⟩, ?_⟩
    rintro bin ⟨hbin, hmem⟩
    obtain ⟨_, -, rfl⟩ := mem_map.1 hbin
    rw [counts_unique h hd (of_decide_eq_true (mem_filter.1 hmem).2) hcounts]

/-- Every request is counted once exactly if none starts or ends where a bin starts. -/
theorem rates_iff (listTasks : TaskQuery → List ListedTask) (compName : String) (h : startTime < endTime) (hd : 1 ≤ numDots)
    (trace : List ListedTask)
    (hlist : (listTasks (reqQuery compName startTime endTime)).Perm (listed trace startTime endTime)) :
    (calculateAvgLatency listTasks compName startTime endTime numDots).data = (bins startTime endTime numDots).map (fun bin =>
        let ended := completed (listTasks (reqQuery compName startTime endTime)) bin
        dot startTime endTime numDots bin (if ended.length > 0 then (ended.map latency).sum / ended.length else 0)) ∧
      ((((calculateReqIn listTasks compName startTime endTime numDots).data.map
        fun tv => tv.value * binDuration startTime endTime numDots).sum =
            ((listed trace startTime endTime).countP fun r => InRange startTime endTime r.startTime : ℕ) ∧
          ((calculateReqComplete listTasks compName startTime endTime numDots).data.map
            fun tv => tv.value * binDuration startTime endTime numDots).sum =
            ((listed trace startTime endTime).countP fun r => InRange startTime endTime r.endTime : ℕ) ∧
          ∀ r ∈ listed trace startTime endTime, InRange startTime endTime r.endTime →
            ∃! bin, bin ∈ bins startTime endTime numDots ∧
            r ∈ completed (listTasks (reqQuery compName startTime endTime)) bin) ↔
        ∀ r ∈ listed trace startTime endTime, ¬ OnEdge startTime endTime numDots r.startTime ∧
          ¬ OnEdge startTime endTime numDots r.endTime) := by
  refine ⟨rfl, ?_⟩
  have hreqIn := sum_rateChart_iff h hd hlist "req_in" fun r => r.startTime
  have hcomplete := sum_rateChart_iff h hd hlist "req_complete" fun r => r.endTime
  unfold calculateReqIn calculateReqComplete
  rw [hreqIn, hcomplete]
  constructor
  · rintro ⟨hstart, hend, -⟩ r hr
    exact ⟨hstart r hr, hend r hr⟩
  · intro hno
    refine ⟨fun r hr => (hno r hr).1, fun r hr => (hno r hr).2, fun r hr hin => ?_⟩
    exact (existsUnique_completed_iff h hd (hlist.mem_iff.2 hr) hin).2 (hno r hr).2

/-- A request that starts between two bins. -/
def edgeRequest : ListedTask :=
  { id := "1", parentID := "0", kind := "req_in", what := "w", location := "l", startTime := 1, endTime := 3 }

theorem calculateReqIn_edge :
    ((calculateReqIn (fun query => listed [edgeRequest] query.startTime query.endTime) "l" 0 2 2).data.map
      fun tv => tv.value * binDuration 0 2 2).sum = 0 ∧
      ((listed [edgeRequest] 0 2).countP fun r => InRange 0 2 r.startTime) = 1 := by
  decide +kernel

/-- Requests of which one starts, one ends and one stays within the chart's range, and none does so on an edge. -/
def requests : List ListedTask :=
  [edgeRequest, { edgeRequest with id := "2", endTime := 5 }, { edgeRequest with id := "3", startTime := -1, endTime := 2 }]

theorem rates_iff_requests :
    ((calculateReqIn (fun query => listed requests query.startTime query.endTime) "l" 0 4 3).data.map
      fun tv => tv.value * binDuration 0 4 3).sum = 2 ∧
      ((calculateReqComplete (fun query => listed requests query.startTime query.endTime) "l" 0 4 3).data.map
        fun tv => tv.value * binDuration 0 4 3).sum = 2 := by
  have hboth := ((rates_iff (fun query => listed requests query.startTime query.endTime) "l" (by decide : (0 : ℚ) < 4)
    (by decide : (1 : Int) ≤ 3) requests (.refl _)).2.2 (by decide +kernel))
  exact ⟨hboth.1.trans (by decide +kernel), hboth.2.1.trans (by decide +kernel)⟩

end Akita.Daisen
