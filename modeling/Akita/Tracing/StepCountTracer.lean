import Akita.Tracing.TraceWriter
import Mathlib.Data.List.Induction

/-!
# The step-count tracer

`tracing.StepCountTracer`.

* `StepCountTracer.run` : the calls on a new tracer;
* `Ledger` : the tasks that passed the filter, with the steps that each has carried;
* `step_counts_exact` : the counts are exact as long as no task carries a step again.
-/

namespace Akita.Tracing
open List Function
open Option hiding map map_map

/-- A `Task` with what its `Steps` are. -/
structure SteppedTask (τ : Type) extends Task τ where
  steps : List String := []

structure StepCountTracer (τ : Type) where
  filter : SteppedTask τ → Bool
  inflightTasks : String → Option (SteppedTask τ) := fun _ => none
  stepNames : List String := []
  stepCount : String → Option ℕ := fun _ => none
  taskWithStepCount : String → ℕ := fun _ => 0

namespace StepCountTracer

variable {τ : Type}

/-- `StepTask` is called with a task that has an ID and one step. -/
inductive Call (τ : Type)
  | startTask (task : SteppedTask τ)
  | stepTask (id step : String)
  | endTask (id : String)

def getStepNames (t : StepCountTracer τ) : List String := t.stepNames

def getStepCount (t : StepCountTracer τ) (stepName : String) : ℕ := (t.stepCount stepName).getD 0

def getTaskCount (t : StepCountTracer τ) (stepName : String) : ℕ := t.taskWithStepCount stepName

def startTask (t : StepCountTracer τ) (task : SteppedTask τ) : StepCountTracer τ :=
  if !t.filter task then t else { t with inflightTasks := update t.inflightTasks task.id (some task) }

def countStep (t : StepCountTracer τ) (step : String) : StepCountTracer τ :=
  { t with
    stepNames := if (t.stepCount step).isNone then t.stepNames ++ [step] else t.stepNames
    stepCount := update t.stepCount step (some (t.getStepCount step + 1)) }

def taskContainsStep (task : SteppedTask τ) (step : String) : Bool := task.steps.any (· = step)

/-- The step is appended to the steps of a copy of the task, and is not seen again. -/
def countTask (t : StepCountTracer τ) (id step : String) : StepCountTracer τ :=
  match t.inflightTasks id with
  | none => t
  | some originalTask =>
    if !taskContainsStep originalTask step
      then { t with taskWithStepCount := update t.taskWithStepCount step (t.taskWithStepCount step + 1) }
    else t

def stepTask (t : StepCountTracer τ) (id step : String) : StepCountTracer τ := (t.countStep step).countTask id step

def endTask (t : StepCountTracer τ) (id : String) : StepCountTracer τ :=
  if (t.inflightTasks id).isNone then t else { t with inflightTasks := update t.inflightTasks id none }

def call (t : StepCountTracer τ) : Call τ → StepCountTracer τ
  | .startTask task => t.startTask task
  | .stepTask id step => t.stepTask id step
  | .endTask id => t.endTask id

/-- The calls on a new tracer. -/
def run (filter : SteppedTask τ → Bool) (calls : List (Call τ)) : StepCountTracer τ := calls.foldl call { filter }

/-! ## What the calls say -/

def stepsOf (calls : List (Call τ)) : List String := calls.filterMap fun
  | .stepTask _ step => some step
  | _ => none

/-- A task that was started, and the steps that it has carried since. -/
structure Carried (τ : Type) where
  task : SteppedTask τ
  steps : List String := []

/-- The tasks in the order of their starts, and which of them is in flight with an ID. -/
structure Ledger (τ : Type) where
  tasks : List (Carried τ) := []
  current : String → Option ℕ := fun _ => none

namespace Ledger

def inflight (l : Ledger τ) (id : String) : Option (Carried τ) := (l.current id).bind (l.tasks[·]?)

def note (filter : SteppedTask τ → Bool) (l : Ledger τ) : Call τ → Ledger τ
  | .startTask task =>
    if filter task then { tasks := l.tasks ++ [{ task }], current := update l.current task.id (some l.tasks.length) } else l
  | .stepTask id step =>
    { l with tasks := (l.current id).elim l.tasks fun i => l.tasks.modify i fun x => { x with steps := x.steps ++ [step] } }
  | .endTask id => { l with current := update l.current id none }

/-- The number of tasks that have carried a step. -/
def taskCount (l : Ledger τ) (step : String) : ℕ := l.tasks.countP fun x => step ∈ x.steps

/-- A task in flight carries a step again just when it was started with it. -/
def Regular (l : Ledger τ) : Call τ → Prop
  | .stepTask id step => ∀ x, l.inflight id = some x → (step ∈ x.steps ↔ taskContainsStep x.task step = true)
  | _ => True

end Ledger

def ledger (filter : SteppedTask τ → Bool) (calls : List (Call τ)) : Ledger τ := calls.foldl (Ledger.note filter) {}

/-- After the calls, the tracer says what they say. -/
structure Exact (filter : SteppedTask τ → Bool) (calls : List (Call τ)) : Prop where
  names : (run filter calls).getStepNames = (stepsOf calls).eraseDups
  steps : ∀ step, (run filter calls).getStepCount step = (stepsOf calls).count step
  tasks : ∀ step, (run filter calls).getTaskCount step = (ledger filter calls).taskCount step

/-! ## The tracer and the calls -/

/-- The tasks in flight and the steps are those of the calls. -/
structure Tracks (t : StepCountTracer τ) (l : Ledger τ) (steps : List String) : Prop where
  lt : ∀ id i, l.current id = some i → i < l.tasks.length
  inflight : ∀ id, t.inflightTasks id = (l.inflight id).map Carried.task
  names : t.stepNames = steps.eraseDups
  count : ∀ s, t.stepCount s = if s ∈ steps then some (steps.count s) else none

variable {filter : SteppedTask τ → Bool} {t : StepCountTracer τ} {l : Ledger τ} {steps : List String} {calls : List (Call τ)}

/-- The task in flight with an ID is another one, or none. -/
theorem Tracks.become (h : t.Tracks l steps) (id : String) (n : Option ℕ) (tasks : List (Carried τ))
    (hlen : l.tasks.length ≤ tasks.length) (hsame : ∀ i < l.tasks.length, tasks[i]? = l.tasks[i]?)
    (hn : ∀ i, n = some i → i < tasks.length) :
    Tracks { t with inflightTasks := update t.inflightTasks id ((n.bind (tasks[·]?)).map Carried.task) }
      { tasks, current := update l.current id n } steps where
  lt id' i hi := by
    dsimp only at hi
    by_cases hid : id' = id
    · rw [hid, update_self] at hi
      exact hn i hi
    · rw [update_of_ne hid] at hi
      exact Nat.lt_of_lt_of_le (h.lt id' i hi) hlen
  inflight id' := by
    unfold Ledger.inflight
    dsimp only
    by_cases hid : id' = id
    · rw [hid, update_self, update_self]
    · rw [update_of_ne hid, update_of_ne hid, h.inflight, Ledger.inflight]
      cases hcurrent : l.current id' with
      | none => rfl
      | some i => rw [bind_some, bind_some, hsame i (h.lt id' i hcurrent)]
  names := h.names
  count := h.count

theorem Tracks.step (h : t.Tracks l steps) (id step : String) :
    (t.stepTask id step).Tracks (l.note filter (.stepTask id step)) (steps ++ [step]) := by
  have hcount : (t.stepTask id step).inflightTasks = t.inflightTasks ∧ (t.stepTask id step).stepNames =
      (t.countStep step).stepNames ∧ (t.stepTask id step).stepCount = (t.countStep step).stepCount := by
    unfold stepTask countTask
    split
    · exact ⟨rfl, rfl, rfl⟩
    · split <;> exact ⟨rfl, rfl, rfl⟩
  obtain ⟨hinflight, hnames, hsteps⟩ := hcount
  refine ⟨fun id' i hi => ?_, fun id' => ?_, ?_, fun s => ?_⟩
  · have hlt := h.lt id' i
    unfold Ledger.note
    dsimp only
    cases l.current id with
    | none => exact hlt hi
    | some j => exact Nat.lt_of_lt_of_eq (hlt hi) (length_modify ..).symm
  · rw [hinflight, h.inflight]
    unfold Ledger.note Ledger.inflight
    dsimp only
    cases l.current id with
    | none => rfl
    | some i =>
      cases l.current id' with
      | none => rfl
      | some j =>
        simp only [bind_some, elim_some, getElem?_modify, Option.map_eq_map, Option.map_map]
        congr 1
        funext x
        by_cases hij : i = j <;> simp [hij]
  · rw [hnames, eraseDups_append, ← h.names, countStep]
    by_cases hs : step ∈ steps
    · simp [h.count, hs, removeAll]
    · simp [h.count, hs, removeAll, eraseDups_cons]
  · rw [hsteps, countStep, count_append]
    dsimp only
    by_cases hs : s = step
    · rw [hs, update_self, getStepCount, h.count, if_pos (mem_append_right _ mem_cons_self), count_singleton_self]
      by_cases hmem : step ∈ steps
      · rw [if_pos hmem]
        rfl
      · rw [if_neg hmem, count_eq_zero_of_not_mem hmem]
        rfl
    · have hmem : s ∈ steps ++ [step] ↔ s ∈ steps := by simp [hs]
      have hone : [step].count s = 0 := count_eq_zero.2 (by simpa using hs)
      rw [update_of_ne hs, h.count, if_congr hmem rfl rfl, hone, Nat.add_zero]

theorem run_concat (filter : SteppedTask τ → Bool) (calls : List (Call τ)) (c : Call τ) :
    run filter (calls ++ [c]) = (run filter calls).call c ∧
    ledger filter (calls ++ [c]) = (ledger filter calls).note filter c := by
  rw [run, ledger, foldl_append, foldl_append]
  exact ⟨rfl, rfl⟩

theorem run_tracks (filter : SteppedTask τ → Bool) (calls : List (Call τ)) :
    (run filter calls).filter = filter ∧ (run filter calls).Tracks (ledger filter calls) (stepsOf calls) := by
  induction calls using reverseRecOn with
  | nil => exact ⟨rfl, fun _ _ h => (nomatch h), fun _ => rfl, rfl, fun _ => rfl⟩
  | append_singleton calls c ih =>
    obtain ⟨hfilter, htracks⟩ := ih
    obtain ⟨hrun, hledger⟩ := run_concat filter calls c
    rw [hrun, hledger, stepsOf, filterMap_append]
    cases c with
    | startTask task =>
      rw [call, startTask, Ledger.note, show (run filter calls).filter task = _ from congrFun hfilter task,
        filterMap_cons_none rfl, filterMap_nil, append_nil]
      cases filter task
      · exact ⟨hfilter, htracks⟩
      · refine ⟨hfilter, ?_⟩
        have hstart := htracks.become task.id (some (ledger filter calls).tasks.length)
          ((ledger filter calls).tasks ++ [{ task }])
          (by simp) (fun i hi => getElem?_append_left hi) (fun i hi => by cases hi; simp)
        rwa [bind_some, getElem?_concat_length] at hstart
    | stepTask id step =>
      refine ⟨?_, htracks.step id step⟩
      rw [call, stepTask, countTask]
      split
      · exact hfilter
      · split <;> exact hfilter
    | endTask id =>
      have hend := htracks.become id none _ (Nat.le_refl _) (fun _ _ => rfl) fun _ hi => nomatch hi
      rw [bind_none, map_none] at hend
      rw [call, endTask, filterMap_cons_none rfl, filterMap_nil, append_nil]
      split
      · next hnone =>
        rw [← isNone_iff_eq_none.mp hnone, update_eq_self] at hend
        exact ⟨hfilter, hend⟩
      · exact ⟨hfilter, hend⟩

/-! ## The numbers of tasks -/

theorem getTaskCount_stepTask (t : StepCountTracer τ) (id step s : String) : (t.stepTask id step).getTaskCount s =
    t.getTaskCount s + if s = step ∧ (t.inflightTasks id).any (fun task => !taskContainsStep task step) = true then 1
      else 0 := by
  unfold stepTask countTask countStep getTaskCount
  cases t.inflightTasks id with
  | none => simp
  | some task =>
    cases hcontains : taskContainsStep task step with
    | true => simp [hcontains]
    | false =>
      by_cases hs : s = step
      · simp [hs, hcontains]
      · simp [hs, hcontains]

theorem taskCount_stepTask (h : t.Tracks l steps) (id step s : String) : (l.note filter (.stepTask id step)).taskCount s =
    l.taskCount s + if s = step ∧ (l.inflight id).any (fun x => step ∉ x.steps) = true then 1 else 0 := by
  unfold Ledger.note Ledger.taskCount Ledger.inflight
  dsimp only
  cases hcurrent : l.current id with
  | none => simp
  | some i =>
    have hi := h.lt id i hcurrent
    have hall : l.tasks = l.tasks.take i ++ l.tasks[i] :: l.tasks.drop (i + 1) := by rw [getElem_cons_drop, take_append_drop]
    rw [elim_some, modify_eq_take_cons_drop hi, bind_some, getElem?_eq_getElem hi, any_some]
    generalize l.tasks[i] = x at hall ⊢
    conv_rhs => rw [hall]
    simp only [countP_append, countP_cons]
    by_cases hs : s = step
    · subst hs
      by_cases hmem : s ∈ x.steps
      · simp [hmem]
      · simp [hmem]
        omega
    · simp [hs]

/-- The numbers stay the same just when the call is regular. -/
theorem taskCount_call (h : t.Tracks l steps) (hexact : ∀ s, t.getTaskCount s = l.taskCount s) (c : Call τ) :
    (∀ s, (t.call c).getTaskCount s = (l.note t.filter c).taskCount s) ↔ l.Regular c := by
  cases c with
  | startTask task =>
    refine iff_of_true (fun s => ?_) trivial
    rw [call, startTask, Ledger.note]
    cases t.filter task
    · exact hexact s
    · exact (hexact s).trans (by simp [Ledger.taskCount])
  | endTask id =>
    refine iff_of_true (fun s => ?_) trivial
    rw [call, endTask]
    split <;> exact hexact s
  | stepTask id step =>
    simp only [call, getTaskCount_stepTask, taskCount_stepTask h, hexact, h.inflight, Ledger.Regular, Nat.add_left_cancel_iff]
    cases l.inflight id with
    | none => simp
    | some x =>
      refine ⟨fun hall y hy => ?_, fun hregular s => ?_⟩
      · cases hy
        have hself := hall step
        by_cases hmem : step ∈ x.steps <;> cases hcontains : taskContainsStep x.task step <;> simp_all
      · have hiff := hregular x rfl
        by_cases hs : s = step <;> simp [hs, hiff]

/-! ## Runs -/

/-- **The counts are exact** in each state of a run just when no task in flight carries a step again. -/
theorem step_counts_exact (filter : SteppedTask τ → Bool) (calls : List (Call τ)) :
    (∀ pre, pre <+: calls → Exact filter pre) ↔ ∀ pre c, pre ++ [c] <+: calls → (ledger filter pre).Regular c := by
  refine ⟨fun hexact pre c hpre => ?_, fun hregular pre => ?_⟩
  · obtain ⟨hfilter, htracks⟩ := run_tracks filter pre
    obtain ⟨hrun, hledger⟩ := run_concat filter pre c
    have hnext := (hexact _ hpre).tasks
    rw [hrun, hledger] at hnext
    exact (taskCount_call htracks (hexact pre ((prefix_append _ _).trans hpre)).tasks c).mp (hfilter.symm ▸ hnext)
  · intro hpre
    obtain ⟨-, hall⟩ := run_tracks filter pre
    refine ⟨hall.names, fun s => ?_, ?_⟩
    · rw [getStepCount, hall.count]
      split
      · rfl
      · next hs => exact (count_eq_zero_of_not_mem hs).symm
    · induction pre using reverseRecOn with
      | nil => exact fun _ => rfl
      | append_singleton pre c ih =>
        obtain ⟨hfilter, htracks⟩ := run_tracks filter pre
        obtain ⟨hrun, hledger⟩ := run_concat filter pre c
        have hbefore := ih ((prefix_append _ _).trans hpre) htracks
        have hnext := (taskCount_call htracks hbefore c).mpr (hregular pre c hpre)
        rw [hfilter] at hnext
        rw [hrun, hledger]
        exact hnext

/-- A task that carries a step twice is counted twice. -/
theorem not_step_counts_exact :
    ¬ Exact (fun _ : SteppedTask ℕ => true) [.startTask ⟨⟨"1", "", "req", "read", "L1", 0, 0⟩, []⟩, .stepTask "1" "hit",
      .stepTask "1" "hit"] :=
  fun h => absurd (h.tasks "hit") (by decide)

end StepCountTracer

end Akita.Tracing
