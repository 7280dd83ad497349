import Akita.Maps
import Akita.Multisets
import Akita.Tracing.TraceWriter

/-!
# The database tracer

`tracing.DBTracer` over a trace writer.

* `Span` : a task of the calls, with the time at which it ends;
* `due` : what has been written, and what the calls that are still to come will have written. `calls_ok` : the calls leave it
  as it is;
* `writeTraced_ok` : what has been handed over when the tracer is terminated.
-/

namespace Akita.Tracing
open List
open Keyed (lookup delete insert delete_eq_self perm_delete lookup_eq_none key_of_lookup mem_of_lookup not_mem_delete
  delete_sublist)

variable {τ : Type}

/-! ## The tracer -/

structure TimeRange (τ : Type) where
  startTime : τ
  endTime : τ

structure DBTracer (τ : Type) where
  range : TimeRange τ
  tracingTasks : List (Task τ) := []
  writer : TraceWriter τ

inductive Call (τ : Type)
  | startTask (task : Task τ)
  | endTask (id : String)

def startingTaskMustBeValid (task : Task τ) : Except String Unit := do
  if task.id = "" then throw "task ID must be set"
  if task.kind = "" then throw "task kind must be set"
  if task.what = "" then throw "task what must be set"
  if task.location = "" then throw "task where must be set"

namespace DBTracer

variable [LinearOrder τ] [Zero τ]

def startTask (t : DBTracer τ) (now : τ) (task : Task τ) : Except String (DBTracer τ) := do
  startingTaskMustBeValid task
  let task := { task with startTime := now }
  if t.range.endTime > 0 ∧ task.startTime > t.range.endTime then return t
  return { t with tracingTasks := insert Task.id task t.tracingTasks }

def endTask (b : Backend) (t : DBTracer τ) (now : τ) (id : String) : Except String (DBTracer τ) := do
  if t.range.startTime > 0 ∧ now < t.range.startTime then return { t with tracingTasks := delete Task.id id t.tracingTasks }
  match lookup Task.id id t.tracingTasks with
  | none => return t
  | some originalTask =>
    let writer ← b.write t.writer { originalTask with endTime := now }
    return { t with tracingTasks := delete Task.id id t.tracingTasks, writer }

/-- A call, at its time. -/
def call (b : Backend) (t : DBTracer τ) : τ × Call τ → Except String (DBTracer τ)
  | (now, .startTask task) => t.startTask now task
  | (now, .endTask id) => t.endTask b now id

def terminate (b : Backend) (it : MapOrder (Task τ)) (t : DBTracer τ) (now : τ) : Except String (DBTracer τ) := do
  let writer ← (it.order t.tracingTasks).foldlM (fun writer task => b.write writer { task with endTime := now }) t.writer
  let writer ← b.flush writer
  return { t with tracingTasks := [], writer }

/-- The calls on a new tracer, `Terminate`, and `flushes` times `Flush` on its backend. -/
def run (b : Backend) (batchSize : Int) (range : TimeRange τ) (it : MapOrder (Task τ)) (calls : List (τ × Call τ)) (now : τ)
    (flushes : Nat) : Except String (TraceWriter τ) := do
  let t ← calls.foldlM (call b) { range, writer := { batchSize } }
  let t ← t.terminate b it now
  b.flushes flushes t.writer

end DBTracer

/-! ## Spans -/

/-- A task that was started at its `startTime`, and when it was ended. -/
structure Span (τ : Type) where
  task : Task τ
  ended : Option τ

/-- When a task that was started is ended, if it is. -/
def endOf (id : String) : List (τ × Call τ) → Option τ
  | [] => none
  | (_, .startTask _) :: calls => endOf id calls
  | (now, .endTask id') :: calls => if id' = id then some now else endOf id calls

def started : List (τ × Call τ) → List (Task τ)
  | [] => []
  | (now, .startTask task) :: calls => { task with startTime := now } :: started calls
  | (_, .endTask _) :: calls => started calls

theorem started_cons (c : τ × Call τ) (calls : List (τ × Call τ)) : started (c :: calls) = started [c] ++ started calls := by
  obtain ⟨_, _ | _⟩ := c <;> rfl

def spans : List (τ × Call τ) → List (Span τ)
  | [] => []
  | (now, .startTask task) :: calls => { task := { task with startTime := now }, ended := endOf task.id calls } :: spans calls
  | (_, .endTask _) :: calls => spans calls

namespace Span

/-- The row of a span; `now` is when the tracer is terminated. -/
def row (now : τ) (s : Span τ) : Task τ := { s.task with endTime := s.ended.getD now }

section
variable [LinearOrder τ] [Zero τ]

/-- A span is in the range; a bound that is not positive is none. -/
def Overlaps (range : TimeRange τ) (now : τ) (s : Span τ) : Prop :=
  (range.startTime ≤ 0 ∨ range.startTime ≤ s.ended.getD now) ∧ (range.endTime ≤ 0 ∨ s.task.startTime ≤ range.endTime)

/-- What is tested of a span: if it is not ended, only its start. -/
def Kept (range : TimeRange τ) (s : Span τ) : Prop :=
  (s.ended.all fun e => decide (range.startTime ≤ 0 ∨ range.startTime ≤ e)) = true ∧
    (range.endTime ≤ 0 ∨ s.task.startTime ≤ range.endTime)

instance (range : TimeRange τ) (now : τ) : DecidablePred (Overlaps range now) := fun s => by
  unfold Overlaps
  infer_instance

instance (range : TimeRange τ) : DecidablePred (Kept range) := fun s => by
  unfold Kept
  infer_instance

end

end Span

/-- The tasks that are traced, and those that are still to be started. -/
def spansFrom (tracing : List (Task τ)) (calls : List (τ × Call τ)) : List (Span τ) :=
  tracing.map (fun task => { task, ended := endOf task.id calls }) ++ spans calls

theorem spansFrom_startTask (tracing : List (Task τ)) (now : τ) (task : Task τ) (calls : List (τ × Call τ)) :
    (spansFrom tracing ((now, .startTask task) :: calls)).Perm
      ({ task := { task with startTime := now }, ended := endOf task.id calls } :: spansFrom tracing calls) :=
  perm_middle

theorem spansFrom_endTask {tracing : List (Task τ)} (h : (tracing.map Task.id).Nodup) (now : τ) (id : String)
    (calls : List (τ × Call τ)) :
    (spansFrom tracing ((now, .endTask id) :: calls)).Perm
      (((lookup Task.id id tracing).map fun task => { task, ended := some now }).toList ++
        spansFrom (delete Task.id id tracing) calls) := by
  have hothers : ∀ tasks : List (Task τ), id ∉ tasks.map Task.id → spansFrom tasks ((now, .endTask id) :: calls) =
      spansFrom tasks calls := by
    intro tasks hid
    refine congrArg (· ++ spans calls) (map_congr_left fun task htask => ?_)
    have hne : ¬ id = task.id := fun heq => hid (heq ▸ mem_map_of_mem htask)
    show (⟨task, if id = task.id then some now else endOf task.id calls⟩ : Span τ) = _
    rw [if_neg hne]
  have hdeleted : id ∉ (delete Task.id id tracing).map Task.id := not_mem_delete
  cases hfind : lookup Task.id id tracing with
  | none =>
    have hid := lookup_eq_none hfind
    rw [hothers tracing hid, delete_eq_self hid]
    rfl
  | some task =>
    have hid : task.id = id := key_of_lookup hfind
    have hperm := perm_delete h hfind
    calc
      (spansFrom tracing ((now, .endTask id) :: calls)).Perm
        (spansFrom (task :: delete Task.id id tracing) ((now, .endTask id) :: calls)) :=
          (hperm.map _).append_right _
      List.Perm _ ({ task, ended := if id = task.id then some now else endOf task.id calls } ::
          spansFrom (delete Task.id id tracing) ((now, .endTask id) :: calls)) := .refl _
      List.Perm _ ({ task, ended := some now } :: spansFrom (delete Task.id id tracing) calls) := by
        rw [hothers _ hdeleted, if_pos hid.symm]

/-- The data that a task has to have. -/
def Task.Valid (task : Task τ) : Prop := task.id ≠ "" ∧ task.kind ≠ "" ∧ task.what ≠ "" ∧ task.location ≠ ""

theorem startingTaskMustBeValid_ok_iff (task : Task τ) : startingTaskMustBeValid task = .ok () ↔ task.Valid := by
  unfold startingTaskMustBeValid Task.Valid
  by_cases hid : task.id = ""
  · simp [hid, throw, throwThe, MonadExceptOf.throw, bind, Except.bind]
  by_cases hkind : task.kind = ""
  · simp [hid, hkind, throw, throwThe, MonadExceptOf.throw, bind, Except.bind]
  by_cases hwhat : task.what = ""
  · simp [hid, hkind, hwhat, throw, throwThe, MonadExceptOf.throw, bind, Except.bind]
  by_cases hlocation : task.location = ""
  · simp [hid, hkind, hwhat, hlocation, throw, throwThe, MonadExceptOf.throw]
  simp [hid, hkind, hwhat, hlocation, pure, Except.pure]

/-! ## Calls -/

section
variable [LinearOrder τ] [Zero τ]

/-- The rows of the spans that are kept. -/
def rows (range : TimeRange τ) (now : τ) (ss : List (Span τ)) : Multiset (Task τ) :=
  ↑((ss.filter fun s => decide (s.Kept range)).map (Span.row now))

theorem rows_cons (range : TimeRange τ) (now : τ) (s : Span τ) (ss : List (Span τ)) :
    rows range now (s :: ss) = (if s.Kept range then {s.row now} else 0) + rows range now ss := by
  unfold rows
  by_cases hs : s.Kept range
  · rw [if_pos hs, filter_cons_of_pos (by simpa using hs), map_cons, ← Multiset.cons_coe, Multiset.singleton_add]
  · rw [if_neg hs, filter_cons_of_neg (by simpa using hs), zero_add]

theorem rows_perm {range : TimeRange τ} {now : τ} {ss ss' : List (Span τ)} (h : ss.Perm ss') :
    rows range now ss = rows range now ss' :=
  Multiset.coe_eq_coe.2 ((h.filter _).map _)

/-- `written` is what a tracer has handed over; the tasks of the calls are new to it. -/
structure Tracks (b : Backend) (batchSize : Int) (range : TimeRange τ) (calls : List (τ × Call τ)) (written : List (Task τ))
    (t : DBTracer τ) : Prop where
  sameRange : t.range = range
  batched : b.Batched batchSize written t.writer
  ids : (t.tracingTasks.map Task.id ++ (started calls).map Task.id).Nodup
  inTime : ∀ task ∈ t.tracingTasks, range.endTime ≤ 0 ∨ task.startTime ≤ range.endTime

/-- What is written in the end, if the tracer is terminated at `now`. -/
def due (range : TimeRange τ) (now : τ) (calls : List (τ × Call τ)) (written : List (Task τ)) (t : DBTracer τ) :
    Multiset (Task τ) :=
  ↑written + rows range now (spansFrom t.tracingTasks calls)

variable {b : Backend} {batchSize : Int} {range : TimeRange τ} {calls : List (τ × Call τ)} {written : List (Task τ)}
  {t : DBTracer τ}

/-- A call keeps what is due. -/
def Keeps (b : Backend) (batchSize : Int) (range : TimeRange τ) (now : τ) (calls : List (τ × Call τ)) (d : Multiset (Task τ))
    (t : DBTracer τ) : Prop :=
  ∃ written, Tracks b batchSize range calls written t ∧ due range now calls written t = d

theorem startTask_ok {time : τ} {task : Task τ} (h : Tracks b batchSize range ((time, .startTask task) :: calls) written t)
    (hvalid : task.Valid) (now : τ) :
    Succeeds (Keeps b batchSize range now calls (due range now ((time, .startTask task) :: calls) written t))
      (t.startTask time task) := by
  have hsame := h.sameRange
  have hids := h.ids
  have hdue : due range now ((time, .startTask task) :: calls) written t = ↑written +
      rows range now ({ task := { task with startTime := time }, ended := endOf task.id calls } ::
        spansFrom t.tracingTasks calls) :=
    congrArg ((written : Multiset (Task τ)) + ·) (rows_perm (spansFrom_startTask _ _ _ _))
  unfold DBTracer.startTask
  rw [(startingTaskMustBeValid_ok_iff task).2 hvalid, hdue]
  show Succeeds _ (if t.range.endTime > 0 ∧ time > t.range.endTime then _ else _)
  split
  next hlate =>
    -- the task is not traced, and its span is not kept
    have hnot : ¬ Span.Kept range { task := { task with startTime := time }, ended := endOf task.id calls } := by
      rintro ⟨-, hno | hearly⟩
      · exact absurd hlate.1 (not_lt.2 (hsame ▸ hno))
      · exact absurd hlate.2 (not_lt.2 (hsame ▸ hearly))
    refine .ok ⟨written, ⟨hsame, h.batched, ?_, h.inTime⟩, ?_⟩
    · exact hids.sublist ((sublist_cons_self _ _).append_left _)
    · rw [rows_cons, if_neg hnot, zero_add]
      rfl
  next hlate =>
    have hnew : task.id ∉ t.tracingTasks.map Task.id := by
      intro hmem
      exact (nodup_append.1 hids).2.2 _ hmem _ mem_cons_self rfl
    have hdelete : delete Task.id task.id t.tracingTasks = t.tracingTasks := delete_eq_self hnew
    refine .ok ⟨written, ⟨hsame, h.batched, ?_, ?_⟩, ?_⟩
    · show (task.id :: (delete Task.id task.id t.tracingTasks).map Task.id ++ (started calls).map Task.id).Nodup
      rw [hdelete]
      exact (perm_middle.nodup_iff).1 hids
    · intro task' htask'
      rcases mem_cons.1 htask' with rfl | hold
      · by_contra hcon
        obtain ⟨hpos, hlt⟩ := not_or.1 hcon
        exact hlate ⟨hsame ▸ not_le.1 hpos, hsame ▸ not_le.1 hlt⟩
      · rw [hdelete] at hold
        exact h.inTime task' hold
    · show ↑written + rows range now
        (spansFrom ({ task with startTime := time } :: delete Task.id task.id t.tracingTasks) calls) = _
      rw [hdelete]
      rfl

theorem endTask_ok {time : τ} {id : String} (h : Tracks b batchSize range ((time, .endTask id) :: calls) written t)
    (now : τ) :
    Succeeds (Keeps b batchSize range now calls (due range now ((time, .endTask id) :: calls) written t))
      (t.endTask b time id) := by
  have hsame := h.sameRange
  have hids : (t.tracingTasks.map Task.id ++ (started calls).map Task.id).Nodup := h.ids
  have hdelete : Tracks b batchSize range calls written { t with tracingTasks := delete Task.id id t.tracingTasks } := by
    refine ⟨hsame, h.batched, ?_, fun task htask => h.inTime task (delete_sublist.subset htask)⟩
    exact hids.sublist ((delete_sublist.map _).append_right _)
  have hdue : due range now ((time, .endTask id) :: calls) written t = ↑written + rows range now
      (((lookup Task.id id t.tracingTasks).map fun task => { task, ended := some time }).toList ++
        spansFrom (delete Task.id id t.tracingTasks) calls) :=
    congrArg ((written : Multiset (Task τ)) + ·) (rows_perm (spansFrom_endTask (nodup_append.1 hids).1 _ _ _))
  rw [hdue]
  unfold DBTracer.endTask
  split
  next hearly =>
    -- the span ends before the range
    refine .ok ⟨written, hdelete, ?_⟩
    cases lookup Task.id id t.tracingTasks with
    | none => rfl
    | some task =>
      have hnot : ¬ Span.Kept range { task, ended := some time } := by
        rintro ⟨hend, -⟩
        rcases of_decide_eq_true hend with hno | hin
        · exact absurd hearly.1 (not_lt.2 (hsame ▸ hno))
        · exact absurd hearly.2 (not_lt.2 (hsame ▸ hin))
      show _ = ↑written + rows range now ({ task, ended := some time } :: spansFrom (delete Task.id id t.tracingTasks) calls)
      rw [rows_cons, if_neg hnot, zero_add]
      rfl
  next hearly =>
    cases hfind : lookup Task.id id t.tracingTasks with
    | none =>
      have hself := delete_eq_self (lookup_eq_none hfind)
      refine .ok ⟨written, ⟨hsame, h.batched, hids, h.inTime⟩, ?_⟩
      rw [hself]
      rfl
    | some task =>
      have hkept : Span.Kept range { task, ended := some time } := by
        refine ⟨decide_eq_true ?_, h.inTime task (mem_of_lookup hfind)⟩
        by_contra hcon
        obtain ⟨hpos, hlt⟩ := not_or.1 hcon
        exact hearly ⟨hsame ▸ not_le.1 hpos, hsame ▸ not_le.1 hlt⟩
      refine (Backend.write_ok h.batched _).bind
        fun writer hwriter => .ok ⟨_, ⟨hsame, hwriter, hdelete.ids, hdelete.inTime⟩, ?_⟩
      show ((written ++ [{ task with endTime := time }] : List (Task τ)) : Multiset (Task τ)) +
        rows range now (spansFrom (delete Task.id id t.tracingTasks) calls) =
        ↑written + rows range now ({ task, ended := some time } :: spansFrom (delete Task.id id t.tracingTasks) calls)
      rw [rows_cons, if_pos hkept, ← add_assoc, ← Multiset.coe_add]
      rfl

theorem call_ok {c : τ × Call τ} (h : Tracks b batchSize range (c :: calls) written t)
    (hvalid : ∀ task ∈ started [c], task.Valid) (now : τ) :
    Succeeds (Keeps b batchSize range now calls (due range now (c :: calls) written t)) (t.call b c) := by
  obtain ⟨time, task | _⟩ := c
  · exact startTask_ok h (show Task.Valid { task with startTime := time } from hvalid _ mem_cons_self) now
  · exact endTask_ok h now

theorem calls_ok (h : Tracks b batchSize range calls written t) (hvalid : ∀ task ∈ started calls, task.Valid) (now : τ) :
    Succeeds (Keeps b batchSize range now [] (due range now calls written t)) (calls.foldlM (DBTracer.call b) t) := by
  induction calls generalizing t written with
  | nil => exact .ok ⟨written, h, rfl⟩
  | cons _ _ ih =>
    rw [foldlM_cons]
    rw [started_cons] at hvalid
    refine (call_ok h (fun task htask => hvalid task (mem_append_left _ htask)) now).bind ?_
    rintro t' ⟨written', h', hdue⟩
    rw [← hdue]
    exact ih h' fun task htask => hvalid task (mem_append_right _ htask)

theorem valid_of_calls_ok {t' : DBTracer τ} (h : calls.foldlM (DBTracer.call b) t = .ok t') :
    ∀ task ∈ started calls, task.Valid := by
  induction calls generalizing t with
  | nil => exact forall_mem_nil _
  | cons c _ ih =>
    rw [foldlM_cons] at h
    obtain ⟨t₁, hcall, hrest⟩ := eq_ok_of_bind h
    obtain ⟨time, task | _⟩ := c
    · obtain ⟨⟨⟩, hvalid, -⟩ := eq_ok_of_bind (show t.startTask time task = .ok t₁ from hcall)
      intro task' htask'
      rcases mem_cons.1 htask' with rfl | hrest'
      · exact (startingTaskMustBeValid_ok_iff task).1 hvalid
      · exact ih hrest task' hrest'
    · exact ih hrest

/-! ## Termination -/

/-- What is traced is written as it ends now; all that is due has been handed over then. -/
theorem writeTraced_ok (it : MapOrder (Task τ)) (h : Tracks b batchSize range [] written t) (now : τ) :
    Succeeds (fun writer => ∃ written' : List (Task τ), b.Batched batchSize written' writer ∧
      ↑written' = due range now [] written t)
      ((it.order t.tracingTasks).foldlM (fun writer task => b.write writer { task with endTime := now }) t.writer) := by
  have hrows : rows range now (spansFrom t.tracingTasks []) =
      ↑(t.tracingTasks.map fun task => { task with endTime := now }) := by
    have hall : ∀ s ∈ spansFrom t.tracingTasks [], decide (s.Kept range) = true := by
      intro s hs
      rw [spansFrom, spans, append_nil] at hs
      obtain ⟨task, htask, rfl⟩ := mem_map.1 hs
      exact decide_eq_true ⟨rfl, h.inTime task htask⟩
    unfold rows
    rw [filter_eq_self.2 hall, spansFrom, spans, append_nil, map_map]
    rfl
  have hfold : (it.order t.tracingTasks).foldlM (fun writer task => b.write writer { task with endTime := now }) t.writer =
      ((it.order t.tracingTasks).map fun task => { task with endTime := now }).foldlM b.write t.writer := by
    rw [foldlM_map]
  rw [hfold]
  refine (Backend.writes_ok h.batched _).mono fun writer hwriter => ⟨_, hwriter, ?_⟩
  unfold due
  rw [hrows, ← Multiset.coe_add]
  exact congrArg ((written : Multiset (Task τ)) + ·) (Multiset.coe_eq_coe.2 ((it.perm _).map _))

end

end Akita.Tracing
