import Akita.Intervals
import Akita.Tracing.TraceReader

/-!
# Component charts

The charts of `daisen`, over the tasks that a trace reader lists.

* `calculateReqIn`, `calculateReqComplete`, `calculateAvgLatency` : the charts of requests;
* `calculateTimeWeightedTaskCount` : the charts of concurrent tasks;
* `bins`, `bins_eq` : the bins of a chart.
-/

namespace Akita.Daisen
open Tracing (TaskQuery ListedTask)

structure TimeValue where
  time : ℚ
  value : ℚ
  deriving DecidableEq

structure ComponentInfo where
  name : String
  infoType : String
  startTime : ℚ
  endTime : ℚ
  data : List TimeValue
  deriving DecidableEq

structure Bin where
  binStartTime : ℚ
  binEndTime : ℚ

/-- The loop over the dots. -/
def bins (startTime endTime : ℚ) (numDots : Int) : List Bin :=
  let totalDuration := endTime - startTime
  let binDuration := totalDuration / numDots
  (List.range numDots.toNat).map
    fun i => { binStartTime := edge startTime binDuration i, binEndTime := edge startTime binDuration (i + 1) }

def dot (startTime endTime : ℚ) (numDots : Int) (bin : Bin) (value : ℚ) : TimeValue :=
  { time := bin.binStartTime + 1 / 2 * ((endTime - startTime) / numDots), value }

/-! ## Requests -/

section
variable (listTasks : TaskQuery → List ListedTask)

def reqQuery (compName : String) (startTime endTime : ℚ) : TaskQuery :=
  { location := compName, kind := "req_in", enableTimeRange := true, startTime, endTime, enableParentTask := true }

def Bin.Counts (bin : Bin) (x : ℚ) : Prop := x > bin.binStartTime ∧ x < bin.binEndTime

instance (bin : Bin) : DecidablePred bin.Counts := fun _ => inferInstanceAs (Decidable (_ ∧ _))

def rateChart (infoType : String) (time : ListedTask → ℚ) (compName : String) (startTime endTime : ℚ) (numDots : Int) :
    ComponentInfo :=
  let reqs := listTasks (reqQuery compName startTime endTime)
  let binDuration := (endTime - startTime) / numDots
  { name := compName, infoType, startTime, endTime
    data := (bins startTime endTime numDots).map fun bin =>
      let reqCount := reqs.countP fun r => bin.Counts (time r)
      dot startTime endTime numDots bin (reqCount / binDuration) }

def calculateReqIn : String → ℚ → ℚ → Int → ComponentInfo := rateChart listTasks "req_in" fun r => r.startTime

def calculateReqComplete : String → ℚ → ℚ → Int → ComponentInfo := rateChart listTasks "req_complete" fun r => r.endTime

/-- The requests whose latency goes into a bin. -/
def completed (reqs : List ListedTask) (bin : Bin) : List ListedTask := reqs.filter fun r => bin.Counts r.endTime

def latency (r : ListedTask) : ℚ := r.endTime - r.startTime

def calculateAvgLatency (compName : String) (startTime endTime : ℚ) (numDots : Int) : ComponentInfo :=
  let reqs := listTasks (reqQuery compName startTime endTime)
  { name := compName, infoType := "avg_latency", startTime, endTime
    data := (bins startTime endTime numDots).map fun bin =>
      let sum := ((completed reqs bin).map latency).sum
      let reqCount := (completed reqs bin).length
      dot startTime endTime numDots bin (if reqCount > 0 then sum / reqCount else 0) }

end

/-! ## Concurrent tasks -/

structure Timestamp where
  time : ℚ
  isStart : Bool

/-- `sort.Sort`, by time: how equal times are ordered is left open. -/
structure Sorting where
  sort : List Timestamp → List Timestamp
  perm : ∀ l, (sort l).Perm l
  sorted : ∀ l, (sort l).Pairwise fun x y => x.time ≤ y.time

structure Averaging where
  count : Int := 0
  timeByCount : ℚ := 0
  prevTime : ℚ

def Timestamp.step (ts : Timestamp) : Int := if ts.isStart then 1 else -1

/-- The loop over the timestamps. -/
def average (binStartTime binEndTime : ℚ) : List Timestamp → Averaging → Except String Averaging
  | [], s => .ok s
  | ts :: timestamps, s =>
    if ts.time < binStartTime then average binStartTime binEndTime timestamps { s with count := s.count + ts.step }
    else if ts.time ≥ binEndTime then .ok s
    else
      let duration := ts.time - s.prevTime
      if duration < 0 then .error "duration is smaller than 0"
      else
        average binStartTime binEndTime timestamps
          { count := s.count + ts.step, timeByCount := s.timeByCount + duration * s.count, prevTime := ts.time }

def calculateAvgTaskCount (timestamps : List Timestamp) (binStartTime binEndTime : ℚ) : Except String ℚ := do
  let s ← average binStartTime binEndTime timestamps { prevTime := binStartTime }
  let duration := binEndTime - s.prevTime
  let timeByCount := s.timeByCount + duration * s.count
  return timeByCount / (binEndTime - binStartTime)

section
variable (taskStart taskEnd : ListedTask → ℚ)

def taskToTimeStamps (sorting : Sorting) (tasks : List ListedTask) : List Timestamp :=
  sorting.sort (tasks.flatMap fun t => [{ time := taskStart t, isStart := true }, { time := taskEnd t, isStart := false }])

def isTaskOverlapsWithBin (t : ListedTask) (binStart binEnd : ℚ) : Bool :=
  if taskEnd t < binStart then false
  else if taskStart t > binEnd then false
  else true

def getTasksInBin (tasks : List ListedTask) (binStart binEnd : ℚ) : List ListedTask :=
  tasks.filter fun t => isTaskOverlapsWithBin taskStart taskEnd t binStart binEnd

end

def concurrencyQuery (compName : String) (startTime endTime : ℚ) : TaskQuery :=
  { location := compName, enableTimeRange := true, startTime, endTime, enableParentTask := true }

def calculateTimeWeightedTaskCount (sorting : Sorting) (listTasks : TaskQuery → List ListedTask) (compName infoType : String)
    (startTime endTime : ℚ) (numDots : Int) (filter : ListedTask → Bool) (increaseTime decreaseTime : ListedTask → ℚ) :
    Except String ComponentInfo := do
  let tasks := (listTasks (concurrencyQuery compName startTime endTime)).filter filter
  let data ← (bins startTime endTime numDots).mapM fun bin => do
    let tasksInBin := getTasksInBin increaseTime decreaseTime tasks bin.binStartTime bin.binEndTime
    let timestamps := taskToTimeStamps increaseTime decreaseTime sorting tasksInBin
    let avgCount ← calculateAvgTaskCount timestamps bin.binStartTime bin.binEndTime
    return dot startTime endTime numDots bin avgCount
  return { name := compName, infoType, startTime, endTime, data }

def taskIsReqIn (t : ListedTask) : Bool := t.kind = "req_in" ∧ t.parentTask ≠ none

/-- `httpComponentInfo`, as far as the chart goes. -/
def componentInfo (sorting : Sorting) (listTasks : TaskQuery → List ListedTask) (compName infoType : String)
    (startTime endTime : ℚ) (numDots : Int) : Except String ComponentInfo :=
  let weighted := calculateTimeWeightedTaskCount sorting listTasks compName infoType startTime endTime numDots
  match infoType with
  | "ReqInCount" => .ok (calculateReqIn listTasks compName startTime endTime numDots)
  | "ReqCompleteCount" => .ok (calculateReqComplete listTasks compName startTime endTime numDots)
  | "AvgLatency" => .ok (calculateAvgLatency listTasks compName startTime endTime numDots)
  | "ConcurrentTask" => weighted (fun _ => true) (fun t => t.startTime) fun t => t.endTime
  | "BufferPressure" => weighted taskIsReqIn (fun t => (t.parentTask.map (·.startTime)).getD 0) fun t => t.startTime
  | "PendingReqOut" => weighted (fun t => t.kind = "req_out") (fun t => t.startTime) fun t => t.endTime
  | _ => .error s!"unknown info_type {infoType}\n"

/-! ## Bins -/

section
variable {startTime endTime : ℚ} {numDots : Int}

/-- The width of a bin. -/
def binDuration (startTime endTime : ℚ) (numDots : Int) : ℚ := (endTime - startTime) / numDots

theorem binDuration_pos (h : startTime < endTime) (hd : 1 ≤ numDots) : 0 < binDuration startTime endTime numDots := by
  have hcast : (0 : ℚ) < numDots := by exact_mod_cast hd
  exact div_pos (sub_pos.2 h) hcast

theorem last_edge (startTime endTime : ℚ) (hd : 1 ≤ numDots) :
    edge startTime (binDuration startTime endTime numDots) numDots.toNat = endTime := by
  obtain ⟨n, rfl⟩ := Int.eq_ofNat_of_zero_le (zero_le_one.trans hd)
  exact edge_last startTime endTime (by exact_mod_cast hd)

/-- A bin of the chart, as its place among the dots. -/
def binAt (startTime endTime : ℚ) (numDots : Int) (i : ℕ) : Bin :=
  { binStartTime := edge startTime (binDuration startTime endTime numDots) i
    binEndTime := edge startTime (binDuration startTime endTime numDots) (i + 1) }

theorem bins_eq : bins startTime endTime numDots = (List.range numDots.toNat).map (binAt startTime endTime numDots) := rfl

theorem bin_length {bin : Bin} (h : bin ∈ bins startTime endTime numDots) :
    bin.binEndTime - bin.binStartTime = binDuration startTime endTime numDots := by
  obtain ⟨i, -, rfl⟩ := List.mem_map.1 h
  show edge _ _ (i + 1) - edge _ _ i = _
  rw [edge_succ, add_sub_cancel_left]
  rfl

theorem bin_lt (h : startTime < endTime) (hd : 1 ≤ numDots) {bin : Bin} (hbin : bin ∈ bins startTime endTime numDots) :
    bin.binStartTime < bin.binEndTime :=
  sub_pos.1 (by rw [bin_length hbin]; exact binDuration_pos h hd)

end

end Akita.Daisen
