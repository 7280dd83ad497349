import Akita.Maps
import Akita.Multisets
import Akita.Noc.NocTracing.MeshInfo

/-!
# The tracer of the mesh

`noctracing.MeshNetworkTracer`: the simulation, the consumers, the write worker and the exit hook, with the two queues between
them.

* `step` : one step of one of them. A step that is not possible, or that ends the program with a panic, is none;
* `stepped_of_step` : what a step does;
* `Run` : the steps from the launch of the workers to a state.
-/

namespace Akita.Noc.NocTracing
open Keyed (lookup delete)

def channelBufferSize : Nat := 2048

structure Tracer where
  startTime : ℚ := -1
  endTime : ℚ := -1
  numHungryConsumer : Nat
  tileWidth : Nat
  tileHeight : Nat

/-- A consumer, with the records of its task that are still to be appended. Without any it is in its `select`. -/
structure Consumer where
  appending : List MeshTraceRecord := []
  finished : Bool := false

/-- How far the exit hook is. -/
inductive Exit
  | notStarted
  | closedTaskQueue
  | closedWriteQueue
  | dumping
  deriving DecidableEq

/-- `handedOver` are the tasks that `EndTask` has sent to the queue. -/
structure State where
  tracingTasks : List (Tracing.Task ℚ) := []
  taskQueue : List (Tracing.Task ℚ) := []
  writeQueue : List MeshTraceRecord := []
  consumers : List Consumer
  writerFinished : Bool := false
  exit : Exit := .notStarted
  mesh : MeshInfo
  handedOver : List (Tracing.Task ℚ) := []

inductive Action
  | startTask (now : ℚ) (task : Tracing.Task ℚ)
  | endTask (now : ℚ) (task : Tracing.Task ℚ)
  /-- Consumer `i` takes a task. -/
  | consume (i : Nat)
  | appendRecord (i : Nat)
  /-- Consumer `i` takes the close signal. -/
  | closeConsumer (i : Nat)
  | write
  | closeWriter
  | exit

namespace State

def init (t : Tracer) : State :=
  { consumers := List.replicate t.numHungryConsumer {}, mesh := { width := t.tileWidth, height := t.tileHeight } }

def startTask (t : Tracer) (s : State) (now : ℚ) (task : Tracing.Task ℚ) : Option State :=
  let task := { task with startTime := now }
  if t.endTime > 0 ∧ task.startTime > t.endTime then some s
  else if task.id = "" then none
  else some { s with tracingTasks := Keyed.insert Tracing.Task.id task s.tracingTasks }

/-- `EndTask`; it waits while the queue is full. -/
def endTask (t : Tracer) (s : State) (now : ℚ) (task : Tracing.Task ℚ) : Option State :=
  let tracingTasks := delete Tracing.Task.id task.id s.tracingTasks
  if t.startTime > 0 ∧ now < t.startTime then some { s with tracingTasks }
  else match lookup Tracing.Task.id task.id s.tracingTasks with
    | none => some s
    | some originalTask =>
      let originalTask := { originalTask with endTime := now }
      if s.taskQueue.length < channelBufferSize then
        some { s with tracingTasks, taskQueue := s.taskQueue ++ [originalTask], handedOver := s.handedOver ++ [originalTask] }
      else none

def consume (s : State) (i : Nat) : Option State :=
  match s.consumers[i]?, s.taskQueue with
  | some { appending := [], finished := false }, task :: taskQueue =>
    match records task with
    | .ok appending => some { s with taskQueue, consumers := s.consumers.set i { appending } }
    | .error _ => none
  | _, _ => none

/-- `AppendRecord`; it waits while the queue is full. -/
def appendRecord (s : State) (i : Nat) : Option State :=
  match s.consumers[i]? with
  | some { appending := r :: appending, finished := false } =>
    if s.writeQueue.length < channelBufferSize then
      some { s with writeQueue := s.writeQueue ++ [r], consumers := s.consumers.set i { appending } }
    else none
  | _ => none

def closeConsumer (s : State) (i : Nat) : Option State :=
  match s.consumers[i]? with
  | some { appending := [], finished := false } =>
    if s.exit ≠ .notStarted then some { s with consumers := s.consumers.set i { finished := true } } else none
  | _ => none

def write (s : State) : Option State :=
  if s.writerFinished then none
  else match s.writeQueue with
    | [] => none
    | r :: writeQueue =>
      match s.mesh.appendRecord r with
      | .ok mesh => some { s with writeQueue, mesh }
      | .error _ => none

def closeWriter (s : State) : Option State :=
  if s.writerFinished = false ∧ s.exit = .closedWriteQueue then some { s with writerFinished := true } else none

/-- All consumers have stopped. -/
def ConsumersDone (s : State) : Prop := ∀ c ∈ s.consumers, c.finished = true

instance (s : State) : Decidable s.ConsumersDone := by
  unfold ConsumersDone
  infer_instance

/-- The exit hook closes a channel, or waits, and at last dumps the mesh. -/
def exitHook (s : State) : Option State :=
  match s.exit with
  | .notStarted => some { s with exit := .closedTaskQueue }
  | .closedTaskQueue => if s.ConsumersDone then some { s with exit := .closedWriteQueue } else none
  | .closedWriteQueue => if s.writerFinished then some { s with exit := .dumping } else none
  | .dumping => none

/-- One step. The simulation is over when the exit hook runs. -/
def step (t : Tracer) (s : State) : Action → Option State
  | .startTask now task => if s.exit = .notStarted then s.startTask t now task else none
  | .endTask now task => if s.exit = .notStarted then s.endTask t now task else none
  | .consume i => s.consume i
  | .appendRecord i => s.appendRecord i
  | .closeConsumer i => s.closeConsumer i
  | .write => s.write
  | .closeWriter => s.closeWriter
  | .exit => s.exitHook

/-! ## What a step does -/

inductive Stepped (s : State) : Action → State → Prop
  | trace {a : Action} (tracingTasks : List (Tracing.Task ℚ)) (hexit : s.exit = .notStarted)
      (ha : (∃ now task, a = .startTask now task) ∨ ∃ now task, a = .endTask now task) : Stepped s a { s with tracingTasks }
  | handOver {now : ℚ} {task : Tracing.Task ℚ} (tracingTasks : List (Tracing.Task ℚ)) (handed : Tracing.Task ℚ)
      (hexit : s.exit = .notStarted) :
      Stepped s (.endTask now task) { s with tracingTasks, taskQueue := s.taskQueue ++ [handed],
                                             handedOver := s.handedOver ++ [handed] }
  | consume {i : Nat} {task : Tracing.Task ℚ} {taskQueue : List (Tracing.Task ℚ)} {appending : List MeshTraceRecord}
      (hc : s.consumers[i]? = some { appending := [], finished := false }) (hqueue : s.taskQueue = task :: taskQueue)
      (hrecords : records task = .ok appending) :
      Stepped s (.consume i) { s with taskQueue, consumers := s.consumers.set i { appending } }
  | appendRecord {i : Nat} {r : MeshTraceRecord} {appending : List MeshTraceRecord}
      (hc : s.consumers[i]? = some { appending := r :: appending, finished := false }) :
      Stepped s (.appendRecord i) { s with writeQueue := s.writeQueue ++ [r], consumers := s.consumers.set i { appending } }
  | closeConsumer {i : Nat} (hc : s.consumers[i]? = some { appending := [], finished := false })
      (hexit : s.exit ≠ .notStarted) :
      Stepped s (.closeConsumer i) { s with consumers := s.consumers.set i { finished := true } }
  | write {r : MeshTraceRecord} {writeQueue : List MeshTraceRecord} {mesh : MeshInfo} (hwriter : s.writerFinished = false)
      (hqueue : s.writeQueue = r :: writeQueue) (hmesh : s.mesh.appendRecord r = .ok mesh) :
      Stepped s .write { s with writeQueue, mesh }
  | closeWriter (hwriter : s.writerFinished = false) (hexit : s.exit = .closedWriteQueue) :
      Stepped s .closeWriter { s with writerFinished := true }
  | closeTaskQueue (hexit : s.exit = .notStarted) : Stepped s .exit { s with exit := .closedTaskQueue }
  | closeWriteQueue (hexit : s.exit = .closedTaskQueue) (hdone : s.ConsumersDone) :
      Stepped s .exit { s with exit := .closedWriteQueue }
  | dump (hexit : s.exit = .closedWriteQueue) (hwriter : s.writerFinished = true) :
      Stepped s .exit { s with exit := .dumping }

variable {s s' : State} {t : Tracer}

theorem stepped_of_startTask {now : ℚ} {task : Tracing.Task ℚ} (hexit : s.exit = .notStarted)
    (h : s.startTask t now task = some s') : Stepped s (.startTask now task) s' := by
  unfold startTask at h
  dsimp only at h
  split at h
  · cases h
    exact .trace s.tracingTasks hexit (.inl ⟨now, task, rfl⟩)
  · split at h
    · cases h
    · cases h
      exact .trace _ hexit (.inl ⟨now, task, rfl⟩)

theorem stepped_of_endTask {now : ℚ} {task : Tracing.Task ℚ} (hexit : s.exit = .notStarted)
    (h : s.endTask t now task = some s') : Stepped s (.endTask now task) s' := by
  unfold endTask at h
  dsimp only at h
  split at h
  · cases h
    exact .trace _ hexit (.inr ⟨now, task, rfl⟩)
  · split at h
    · cases h
      exact .trace s.tracingTasks hexit (.inr ⟨now, task, rfl⟩)
    · split at h
      · cases h
        exact .handOver _ _ hexit
      · cases h

theorem stepped_of_step {a : Action} (h : s.step t a = some s') : Stepped s a s' := by
  cases a with
  | startTask now task =>
    obtain ⟨hexit, h⟩ := Option.ite_none_right_eq_some.1
      (show (if s.exit = .notStarted then s.startTask t now task else none) = some s' from h)
    exact stepped_of_startTask hexit h
  | endTask now task =>
    obtain ⟨hexit, h⟩ := Option.ite_none_right_eq_some.1 (show (if s.exit = .notStarted then s.endTask t now task else none) =
      some s' from h)
    exact stepped_of_endTask hexit h
  | consume i =>
    replace h : s.consume i = some s' := h
    unfold consume at h
    split at h
    next hc hqueue =>
      split at h
      next hrecords =>
        cases h
        exact .consume hc hqueue hrecords
      next => cases h
    next => cases h
  | appendRecord i =>
    replace h : s.appendRecord i = some s' := h
    unfold appendRecord at h
    split at h
    next hc =>
      split at h
      · cases h
        exact .appendRecord hc
      · cases h
    next => cases h
  | closeConsumer i =>
    replace h : s.closeConsumer i = some s' := h
    unfold closeConsumer at h
    split at h
    next hc =>
      split at h
      next hexit =>
        cases h
        exact .closeConsumer hc hexit
      next => cases h
    next => cases h
  | write =>
    replace h : s.write = some s' := h
    unfold write at h
    split at h
    next => cases h
    next hwriter =>
      split at h
      next => cases h
      next hqueue =>
        split at h
        next hmesh =>
          cases h
          exact .write (by simpa using hwriter) hqueue hmesh
        next => cases h
  | closeWriter =>
    obtain ⟨⟨hwriter, hexit⟩, h⟩ := Option.ite_none_right_eq_some.1 (show s.closeWriter = some s' from h)
    cases h
    exact .closeWriter hwriter hexit
  | exit =>
    replace h : s.exitHook = some s' := h
    unfold exitHook at h
    split at h
    next hexit =>
      cases h
      exact .closeTaskQueue hexit
    next hexit =>
      split at h
      next hdone =>
        cases h
        exact .closeWriteQueue hexit hdone
      next => cases h
    next hexit =>
      split at h
      next hwriter =>
        cases h
        exact .dump hexit hwriter
      next => cases h
    next => cases h

/-! ## Runs -/

/-- A run to `s`, with its actions and the states in which they were taken. -/
inductive Run (t : Tracer) : List (State × Action) → State → Prop
  | init : Run t [] (init t)
  | step {hist : List (State × Action)} {s s' : State} {a : Action} (h : Run t hist s) (ha : s.step t a = some s') :
      Run t (hist ++ [(s, a)]) s'

end State

end Akita.Noc.NocTracing
