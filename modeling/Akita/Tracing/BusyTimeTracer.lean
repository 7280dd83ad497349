import Akita.Tracing.DBTracer
import Mathlib.Algebra.Order.Field.Rat
import Mathlib.Tactic.Ring

/-!
# The busy-time tracer

`tracing.BusyTimeTracer`.

* `taskBusyTime` : the busy time of finished tasks. `greedy`, `taskBusyTime_eq` : the first task takes with it those that
  overlap it, then again from the first that is left;
* `BusyTimeTracer.call`, `terminateAllTasks` : the tracer. `batch` : the tasks that a call collapses.
-/

namespace Akita.Tracing
open List
open Keyed (lookup)

structure TaskTimeStartEnd where
  startTime : ℚ
  endTime : ℚ := 0
  completed : Bool := false
  deriving DecidableEq

/-! ## Busy time -/

def extendTaskTime (base t2 : TaskTimeStartEnd) : TaskTimeStartEnd :=
  let base := if t2.startTime < base.startTime then { base with startTime := t2.startTime } else base
  if t2.endTime > base.endTime then { base with endTime := t2.endTime } else base

def taskTimeOverlap (t1 t2 : TaskTimeStartEnd) : Bool :=
  if t1.startTime ≤ t2.startTime ∧ t1.endTime ≥ t2.startTime then true
  else if t1.startTime ≤ t2.endTime ∧ t1.endTime ≥ t2.endTime then true
  else if t1.startTime ≥ t2.startTime ∧ t1.endTime ≤ t2.endTime then true
  else false

/-- The inner loop, with the indices that are covered. -/
def extend (t1 : TaskTimeStartEnd) (st : List ℕ × TaskTimeStartEnd) (t2 : TaskTimeStartEnd × ℕ) : List ℕ × TaskTimeStartEnd :=
  if t2.2 ∈ st.1 then st
  else if taskTimeOverlap t1 t2.1 then (t2.2 :: st.1, extendTaskTime st.2 t2.1)
  else st

/-- The outer loop. -/
def cover (tasks : List TaskTimeStartEnd) (st : List ℕ × ℚ) (t1 : TaskTimeStartEnd × ℕ) : List ℕ × ℚ :=
  if t1.2 ∈ st.1 then st
  else
    let r := tasks.zipIdx.foldl (extend t1.1) (t1.2 :: st.1, { startTime := t1.1.startTime, endTime := t1.1.endTime })
    (r.1, st.2 + (r.2.endTime - r.2.startTime))

def taskBusyTime (tasks : List TaskTimeStartEnd) : ℚ := (tasks.zipIdx.foldl (cover tasks) ([], 0)).2

/-! ### Without indices -/

/-- The tasks that overlap a task, and the others. -/
def together (t1 : TaskTimeStartEnd) (rest : List TaskTimeStartEnd) : List TaskTimeStartEnd :=
  rest.filter (taskTimeOverlap t1)

def others (t1 : TaskTimeStartEnd) (rest : List TaskTimeStartEnd) : List TaskTimeStartEnd :=
  rest.filter fun t2 => !taskTimeOverlap t1 t2

theorem length_others (t1 : TaskTimeStartEnd) (rest : List TaskTimeStartEnd) : (others t1 rest).length < rest.length + 1 :=
  Nat.lt_succ_of_le (length_filter_le _ _)

/-- The extent of a task and those that overlap it. -/
def extent (t1 : TaskTimeStartEnd) (rest : List TaskTimeStartEnd) : TaskTimeStartEnd :=
  (together t1 rest).foldl extendTaskTime { startTime := t1.startTime, endTime := t1.endTime }

def greedy : List TaskTimeStartEnd → ℚ
  | [] => 0
  | t1 :: rest => (extent t1 rest).endTime - (extent t1 rest).startTime + greedy (others t1 rest)
termination_by l => l.length
decreasing_by exact length_others t1 rest

/-- The tasks that are not covered. -/
def uncovered (mask : List ℕ) (l : List (TaskTimeStartEnd × ℕ)) : List TaskTimeStartEnd :=
  (l.filter fun x => x.2 ∉ mask).map Prod.fst

variable {mask : List ℕ}

theorem uncovered_cons_of_mem {x : TaskTimeStartEnd × ℕ} (h : x.2 ∈ mask) (l : List (TaskTimeStartEnd × ℕ)) :
    uncovered mask (x :: l) = uncovered mask l := by
  unfold uncovered
  rw [filter_cons_of_neg (by simpa using h)]

theorem uncovered_cons_of_notMem {x : TaskTimeStartEnd × ℕ} (h : x.2 ∉ mask) (l : List (TaskTimeStartEnd × ℕ)) :
    uncovered mask (x :: l) = x.1 :: uncovered mask l := by
  unfold uncovered
  rw [filter_cons_of_pos (by simpa using h), map_cons]

variable {l : List (TaskTimeStartEnd × ℕ)}

theorem uncovered_congr {mask mask' : List ℕ} (h : ∀ x ∈ l, x.2 ∈ mask ↔ x.2 ∈ mask') :
    uncovered mask l = uncovered mask' l := by
  have hfilter : l.filter (fun x => x.2 ∉ mask) = l.filter fun x => x.2 ∉ mask' := filter_congr fun x hx => by simp [h x hx]
  unfold uncovered
  rw [hfilter]

theorem uncovered_append (mask : List ℕ) (l l' : List (TaskTimeStartEnd × ℕ)) :
    uncovered mask (l ++ l') = uncovered mask l ++ uncovered mask l' := by
  unfold uncovered
  rw [filter_append, map_append]

theorem uncovered_of_all (h : ∀ x ∈ l, x.2 ∈ mask) : uncovered mask l = [] := by
  have hfilter : l.filter (fun x => x.2 ∉ mask) = [] := filter_eq_nil_iff.2 fun x hx => by simpa using h x hx
  unfold uncovered
  rw [hfilter, map_nil]

theorem uncovered_others {mask mask' : List ℕ} {t1 : TaskTimeStartEnd}
    (h : ∀ x ∈ l, x.2 ∈ mask' ↔ x.2 ∈ mask ∨ taskTimeOverlap t1 x.1 = true) :
    uncovered mask' l = others t1 (uncovered mask l) := by
  induction l with
  | nil => rfl
  | cons x _ ih =>
    have hx := h x mem_cons_self
    have hrest := ih fun y hy => h y (mem_cons_of_mem _ hy)
    by_cases hmem : x.2 ∈ mask
    · rw [uncovered_cons_of_mem hmem, uncovered_cons_of_mem (hx.2 (.inl hmem)), hrest]
    · rw [uncovered_cons_of_notMem hmem]
      cases hover : taskTimeOverlap t1 x.1 with
      | true =>
        rw [uncovered_cons_of_mem (hx.2 (.inr hover)), hrest]
        exact (filter_cons_of_neg (by simp [hover])).symm
      | false =>
        have hno : x.2 ∉ mask' := fun hmem' => (hx.1 hmem').elim hmem fun htrue => by simp [hover] at htrue
        rw [uncovered_cons_of_notMem hno, hrest]
        exact (filter_cons_of_pos (by simp [hover])).symm

theorem foldl_extend (t1 : TaskTimeStartEnd) (hnodup : (l.map Prod.snd).Nodup) (mask : List ℕ) (base : TaskTimeStartEnd) :
    (∀ i, i ∈ (l.foldl (extend t1) (mask, base)).1 ↔ i ∈ mask ∨ ∃ x ∈ l, x.2 = i ∧ taskTimeOverlap t1 x.1 = true) ∧
      (l.foldl (extend t1) (mask, base)).2 = (together t1 (uncovered mask l)).foldl extendTaskTime base := by
  induction l generalizing mask base with
  | nil => exact ⟨fun i => by simp, rfl⟩
  | cons x l ih =>
    obtain ⟨hx, hrest⟩ := nodup_cons.1 hnodup
    rw [foldl_cons]
    by_cases hmem : x.2 ∈ mask
    · have hskip : extend t1 (mask, base) x = (mask, base) := if_pos hmem
      rw [hskip, uncovered_cons_of_mem hmem]
      refine ⟨fun i => ((ih hrest mask base).1 i).trans ?_, (ih hrest mask base).2⟩
      rw [exists_mem_cons_iff]
      constructor
      · exact Or.imp_right Or.inr
      · rintro (hi | ⟨rfl, -⟩ | hi)
        · exact .inl hi
        · exact .inl hmem
        · exact .inr hi
    · rw [uncovered_cons_of_notMem hmem]
      cases hover : taskTimeOverlap t1 x.1 with
      | false =>
        have hskip : extend t1 (mask, base) x = (mask, base) := by
          unfold extend
          rw [if_neg hmem, if_neg (by simp [hover])]
        have hother : together t1 (x.1 :: uncovered mask l) = together t1 (uncovered mask l) :=
          filter_cons_of_neg (by simp [hover])
        rw [hskip, hother]
        refine ⟨fun i => ((ih hrest mask base).1 i).trans ?_, (ih hrest mask base).2⟩
        simp [hover]
      | true =>
        have htake : extend t1 (mask, base) x = (x.2 :: mask, extendTaskTime base x.1) := by
          unfold extend
          rw [if_neg hmem, if_pos hover]
        have hwith : together t1 (x.1 :: uncovered mask l) = x.1 :: together t1 (uncovered mask l) := filter_cons_of_pos hover
        have hsame : uncovered (x.2 :: mask) l = uncovered mask l := by
          refine uncovered_congr fun y hy => ?_
          rw [mem_cons, or_iff_right]
          intro heq
          exact hx (heq ▸ mem_map_of_mem hy)
        rw [htake, hwith, foldl_cons, ← hsame]
        refine ⟨fun i => ((ih hrest _ _).1 i).trans ?_, (ih hrest _ _).2⟩
        rw [exists_mem_cons_iff, mem_cons]
        simp only [hover, and_true]
        tauto

theorem foldl_cover (tasks : List TaskTimeStartEnd) {pre l : List (TaskTimeStartEnd × ℕ)} (hsplit : tasks.zipIdx = pre ++ l)
    (mask : List ℕ) (hpre : ∀ x ∈ pre, x.2 ∈ mask) (busyTime : ℚ) :
    (l.foldl (cover tasks) (mask, busyTime)).2 = busyTime + greedy (uncovered mask l) := by
  induction l generalizing pre mask busyTime with
  | nil => simp [uncovered, greedy]
  | cons x l ih =>
    have hsplit' : tasks.zipIdx = (pre ++ [x]) ++ l := by simpa using hsplit
    rw [foldl_cons]
    by_cases hmem : x.2 ∈ mask
    · have hskip : cover tasks (mask, busyTime) x = (mask, busyTime) := if_pos hmem
      rw [hskip, uncovered_cons_of_mem hmem]
      refine ih hsplit' mask (fun y hy => ?_) busyTime
      rcases mem_append.1 hy with hy | hy
      · exact hpre y hy
      · exact mem_singleton.1 hy ▸ hmem
    · have hnodup : (tasks.zipIdx.map Prod.snd).Nodup := by
        rw [zipIdx_map_snd]
        exact nodup_range'
      obtain ⟨hmask, hbase⟩ := foldl_extend x.1 hnodup (x.2 :: mask) { startTime := x.1.startTime, endTime := x.1.endTime }
      have hnew : ∀ y ∈ l, y.2 ≠ x.2 := by
        rw [hsplit, map_append, map_cons] at hnodup
        intro y hy heq
        exact (nodup_cons.1 (nodup_append.1 hnodup).2.1).1 (heq ▸ mem_map_of_mem hy)
      have hleft : uncovered (x.2 :: mask) tasks.zipIdx = uncovered mask l := by
        rw [hsplit, uncovered_append, uncovered_of_all fun y hy => mem_cons_of_mem _ (hpre y hy), nil_append,
          uncovered_cons_of_mem mem_cons_self]
        refine uncovered_congr fun y hy => ?_
        rw [mem_cons, or_iff_right (hnew y hy)]
      have hmasks : ∀ y ∈ l, y.2 ∈ (tasks.zipIdx.foldl (extend x.1)
          (x.2 :: mask, { startTime := x.1.startTime, endTime := x.1.endTime })).1 ↔
          y.2 ∈ mask ∨ taskTimeOverlap x.1 y.1 = true := by
        intro y hy
        have hyall : y ∈ tasks.zipIdx := hsplit ▸ mem_append_right _ (mem_cons_of_mem _ hy)
        rw [hmask, mem_cons, or_iff_right (hnew y hy)]
        refine or_congr_right ⟨?_, fun hover => ⟨y, hyall, rfl, hover⟩⟩
        rintro ⟨z, hz, hzy, hover⟩
        exact inj_on_of_nodup_map hnodup hz hyall hzy ▸ hover
      have hstep : cover tasks (mask, busyTime) x =
          ((tasks.zipIdx.foldl (extend x.1) (x.2 :: mask, { startTime := x.1.startTime, endTime := x.1.endTime })).1,
            busyTime + ((extent x.1 (uncovered mask l)).endTime - (extent x.1 (uncovered mask l)).startTime)) := by
        unfold cover
        rw [if_neg hmem]
        dsimp only
        rw [hbase, hleft]
        rfl
      rw [hstep, ih hsplit' _ (fun y hy => (hmask y.2).2 (.inl ?_)), uncovered_others hmasks, uncovered_cons_of_notMem hmem,
        greedy]
      · ring
      · rcases mem_append.1 hy with hy | hy
        · exact mem_cons_of_mem _ (hpre y hy)
        · exact mem_singleton.1 hy ▸ mem_cons_self

theorem taskBusyTime_eq (tasks : List TaskTimeStartEnd) : taskBusyTime tasks = greedy tasks := by
  have hall : uncovered [] tasks.zipIdx = tasks := by simp [uncovered]
  unfold taskBusyTime
  rw [foldl_cover tasks (nil_append _).symm [] (forall_mem_nil _), hall, zero_add]

/-! ## The tracer -/

/-- An element of the list of task times. -/
structure Element where
  elem : ℕ
  value : TaskTimeStartEnd

structure Inflight where
  id : String
  elem : ℕ

/-- `created` elements have been pushed to `taskTimes`. -/
structure BusyTimeTracer where
  filter : Option (Task ℚ → Bool)
  inflightTasks : List Inflight := []
  taskTimes : List Element := []
  busyTime : ℚ := 0
  created : ℕ := 0

def Element.complete (now : ℚ) (e : Element) : Element :=
  { e with value := { e.value with endTime := now, completed := true } }

/-- The tasks that are taken out, and the elements that are left. -/
def finish (now : ℚ) : List Element → List TaskTimeStartEnd × List Element
  | [] => ([], [])
  | e :: rest =>
    if !e.value.completed then ([], e :: rest)
    else if e.value.endTime ≤ now then (e.value :: (finish now rest).1, (finish now rest).2)
    else ((finish now rest).1, e :: (finish now rest).2)

namespace BusyTimeTracer

def startTimeOfFirstImcompleteTask (t : BusyTimeTracer) : Option ℚ :=
  (t.taskTimes.find? fun e => !e.value.completed).map fun e => e.value.startTime

/-- A task that is not completed holds the others back. -/
def heldBack (t : BusyTimeTracer) (now : ℚ) : Bool := t.startTimeOfFirstImcompleteTask.any fun time => time < now

def collapse (t : BusyTimeTracer) (now : ℚ) : BusyTimeTracer :=
  if t.heldBack now then t
  else { t with taskTimes := (finish now t.taskTimes).2, busyTime := t.busyTime + taskBusyTime (finish now t.taskTimes).1 }

def passes (filter : Option (Task ℚ → Bool)) (task : Task ℚ) : Bool := filter.all fun f => f task

def startTask (t : BusyTimeTracer) (now : ℚ) (task : Task ℚ) : BusyTimeTracer :=
  let task := { task with startTime := now }
  if passes t.filter task then
    { t with
      taskTimes := t.taskTimes ++ [{ elem := t.created, value := { startTime := task.startTime } }]
      inflightTasks := Keyed.insert Inflight.id { id := task.id, elem := t.created } t.inflightTasks
      created := t.created + 1 }
  else t

/-- The task is completed, if it is in flight. -/
def complete (t : BusyTimeTracer) (now : ℚ) (id : String) : Option BusyTimeTracer :=
  (lookup Inflight.id id t.inflightTasks).map fun originalTask =>
    { t with
      taskTimes := t.taskTimes.map fun e => if e.elem = originalTask.elem then e.complete now else e
      inflightTasks := Keyed.delete Inflight.id id t.inflightTasks }

def endTask (t : BusyTimeTracer) (now : ℚ) (id : String) : BusyTimeTracer :=
  match t.complete now id with
  | none => t
  | some t => t.collapse now

def completeAll (t : BusyTimeTracer) (now : ℚ) : BusyTimeTracer :=
  { t with taskTimes := t.taskTimes.map fun e => if !e.value.completed then e.complete now else e }

def terminateAllTasks (t : BusyTimeTracer) (now : ℚ) : BusyTimeTracer := (t.completeAll now).collapse now

/-- A call, at its time. -/
def call (t : BusyTimeTracer) : ℚ × Call ℚ → BusyTimeTracer
  | (now, .startTask task) => t.startTask now task
  | (now, .endTask id) => t.endTask now id

/-- The tasks that `collapse` takes out. -/
def batch (t : BusyTimeTracer) (now : ℚ) : List TaskTimeStartEnd := if t.heldBack now then [] else (finish now t.taskTimes).1

/-- The tasks that a call takes out. -/
def callBatch (t : BusyTimeTracer) : ℚ × Call ℚ → List TaskTimeStartEnd
  | (_, .startTask _) => []
  | (now, .endTask id) => (t.complete now id).elim [] fun t => t.batch now

/-- The tasks that are taken out by each of the calls and, in the end, by `TerminateAllTasks`. -/
def batches (t : BusyTimeTracer) (now : ℚ) : List (ℚ × Call ℚ) → List (List TaskTimeStartEnd)
  | [] => [(t.completeAll now).batch now]
  | c :: calls => t.callBatch c :: (t.call c).batches now calls

theorem busyTime_collapse (t : BusyTimeTracer) (now : ℚ) :
    (t.collapse now).busyTime = t.busyTime + taskBusyTime (t.batch now) := by
  unfold collapse batch
  split
  · exact (add_zero _).symm
  · rfl

end BusyTimeTracer

end Akita.Tracing
