import Akita.Csv
import Akita.Decimals
import Akita.Tracing.TraceReader
import Mathlib.Data.List.DropRight

/-!
# The CSV trace

`tracing.CSVTraceWriter` and `tracing.CSVTraceReader`.

* `CSVTraceWriter.call` : the writer. `file_run` : what is in the file;
* `listTasks` : the reader, for any `strconv.ParseFloat`. `scan_fuel` : the file ends. `listTasks_eq` : what is listed, if all
  records can be parsed.
-/

namespace Akita.Tracing
open List

/-! ## The writer -/

structure CSVTraceWriter where
  file : List Char
  tasks : List (Task ℚ) := []
  bufferSize : ℕ := 1000

namespace CSVTraceWriter

def header : List Char := "ID, ParentID, Kind, What, Where, Start, End\n".toList

def init (bufferSize : ℕ) : CSVTraceWriter := { file := header, bufferSize := bufferSize }

/-- `%s, %s, %s, %s, %s, %.10f, %.10f\n`. -/
def line (task : Task ℚ) : List Char :=
  task.id.toList ++ ", ".toList ++ task.parentID.toList ++ ", ".toList ++ task.kind.toList ++ ", ".toList ++
    task.what.toList ++ ", ".toList ++
    task.location.toList ++ ", ".toList ++ formatDecimal 10 task.startTime ++ ", ".toList ++ formatDecimal 10 task.endTime ++
      "\n".toList

def flush (t : CSVTraceWriter) : CSVTraceWriter :=
  { t with file := t.tasks.foldl (fun file task => file ++ line task) t.file, tasks := [] }

def write (t : CSVTraceWriter) (task : Task ℚ) : CSVTraceWriter :=
  let t := { t with tasks := t.tasks ++ [task] }
  if t.tasks.length ≥ t.bufferSize then t.flush else t

inductive Call
  | write (task : Task ℚ)
  | flush

def call (t : CSVTraceWriter) : Call → CSVTraceWriter
  | .write task => t.write task
  | .flush => t.flush

def Call.written : Call → List (Task ℚ)
  | .write task => [task]
  | .flush => []

/-- The tasks that are written by these calls. -/
def written (calls : List Call) : List (Task ℚ) := calls.flatMap Call.written

theorem file_flush (t : CSVTraceWriter) : t.flush.file = t.file ++ t.tasks.flatMap line := by
  have hfold : ∀ (tasks : List (Task ℚ)) (file : List Char), tasks.foldl (fun file task => file ++ line task) file =
      file ++ tasks.flatMap line := by
    intro tasks
    induction tasks with
    | nil => exact fun file => (append_nil file).symm
    | cons _ _ ih =>
      intro file
      rw [foldl_cons, ih, append_assoc, flatMap_cons]
  exact hfold t.tasks t.file

theorem file_call (t : CSVTraceWriter) (c : Call) : (t.call c).flush.file = t.flush.file ++ c.written.flatMap line := by
  have hagain : ∀ t : CSVTraceWriter, t.flush.flush.file = t.flush.file := fun t => rfl
  cases c with
  | flush => rw [Call.written, flatMap_nil, append_nil, call, hagain]
  | write task =>
    have hone : ({ t with tasks := t.tasks ++ [task] } : CSVTraceWriter).flush.file = t.flush.file ++
        [task].flatMap line := by
      rw [file_flush, file_flush, flatMap_append, append_assoc]
    dsimp only [call, write]
    split_ifs
    · rw [hagain]
      exact hone
    · exact hone

theorem file_run (bufferSize : ℕ) (calls : List Call) :
    (calls.foldl call (init bufferSize)).flush.file = header ++ (written calls).flatMap line := by
  have hrun : ∀ t : CSVTraceWriter, (calls.foldl call t).flush.file = t.flush.file ++ (written calls).flatMap line := by
    unfold written
    induction calls with
    | nil => exact fun t => (append_nil _).symm
    | cons _ _ ih =>
      intro t
      rw [foldl_cons, ih, file_call, flatMap_cons, flatMap_append, append_assoc]
  exact hrun (init bufferSize)

end CSVTraceWriter

/-! ## The reader -/

/-- `strings.Trim(s, " ")`. -/
def trim (text : List Char) : List Char := (text.dropWhile (· = ' ')).rdropWhile (· = ' ')

namespace CSVTraceReader
open Csv (Reader newReader)

variable (parseFloat : List Char → Option ℚ)

def parseTime (field : List Char) : Except String ℚ :=
  match parseFloat (trim field) with
  | none => throw "strconv.ParseFloat: invalid syntax"
  | some time => pure time

def parseCSVRecord : List (List Char) → Except String (Task ℚ)
  | id :: parentID :: kind :: what :: location :: startTime :: endTime :: _ => do
    let startTime ← parseTime parseFloat startTime
    let endTime ← parseTime parseFloat endTime
    pure
      { id := String.ofList (trim id)
        parentID := String.ofList (trim parentID)
        kind := String.ofList (trim kind)
        what := String.ofList (trim what)
        location := String.ofList (trim location)
        startTime := startTime
        endTime := endTime }
  | _ => throw "runtime error: index out of range"

def meetIDRequirement (task : Task ℚ) (query : TaskQuery) : Bool := if query.id ≠ "" ∧ task.id ≠ query.id then false else true

def meetParentIDRequirement (task : Task ℚ) (query : TaskQuery) : Bool :=
  if query.parentID ≠ "" ∧ task.parentID ≠ query.parentID then false else true

def meetKindRequirement (task : Task ℚ) (query : TaskQuery) : Bool :=
  if query.kind ≠ "" ∧ task.kind ≠ query.kind then false else true

def meetWhereRequirement (task : Task ℚ) (query : TaskQuery) : Bool :=
  if query.location ≠ "" ∧ task.location ≠ query.location then false else true

def meetTimeRangeRequirement (task : Task ℚ) (query : TaskQuery) : Bool :=
  if query.enableTimeRange then
    if task.endTime < query.startTime ∨ task.startTime > query.endTime then false else true
  else true

def keepTask (task : Task ℚ) (query : TaskQuery) : Bool :=
  if !meetIDRequirement task query then false
  else if !meetParentIDRequirement task query then false
  else if !meetKindRequirement task query then false
  else if !meetWhereRequirement task query then false
  else if !meetTimeRangeRequirement task query then false
  else true

/-- The loop over the records. -/
def scan {α : Type} (each : Task ℚ → Except String (List α)) : ℕ → Reader → Except String (List α)
  | 0, _ => throw "the file does not end"
  | fuel + 1, reader => do
    let (record, reader) ← reader.read
    match record with
    | none => pure []
    | some record =>
      let task ← parseCSVRecord parseFloat record
      let listed ← each task
      let rest ← scan each fuel reader
      pure (listed ++ rest)

def skipCSVHeader (r : Reader) : Except String Reader := do
  let (record, r) ← r.read
  match record with
  | none => throw "EOF"
  | some _ => pure r

def forEach {α : Type} (file : List Char) (each : Task ℚ → Except String (List α)) : Except String (List α) := do
  let reader ← skipCSVHeader (newReader file)
  scan parseFloat each (reader.rest.length + 1) reader

/-- `ListTasks`, where no parents are asked for. -/
def listTasksAlone (file : List Char) (query : TaskQuery) : Except String (List (Task ℚ)) :=
  forEach parseFloat file fun task => pure (if keepTask task query then [task] else [])

def listTasks (file : List Char) (query : TaskQuery) : Except String (List ListedTask) :=
  forEach parseFloat file fun task =>
    if !keepTask task query then pure []
    else if query.enableParentTask then do
      let parentTasks ← listTasksAlone parseFloat file { id := task.parentID }
      pure [{ toTask := task, parentTask := parentTasks.head? }]
    else pure [{ toTask := task }]

variable {α : Type}

theorem scan_fuel (each : Task ℚ → Except String (List α)) {fuel : ℕ} {r : Reader} (h : r.rest.length < fuel) :
    scan parseFloat each (fuel + 1) r = scan parseFloat each fuel r := by
  induction fuel generalizing r with
  | zero => cases h
  | succ fuel ih =>
    rw [scan, scan]
    cases hread : r.read with
    | error => rfl
    | ok x =>
      obtain ⟨record, r'⟩ := x
      cases record with
      | none => rfl
      | some record =>
        have hshort := ih (Nat.lt_of_lt_of_le (Reader.read_shorter hread) (Nat.le_of_lt_succ h))
        show (parseCSVRecord parseFloat record >>=
          fun task => each task >>= fun listed => scan parseFloat each (fuel + 1) r' >>= _) = _
        rw [hshort]
        rfl

/-! ### Over the parsed records -/

/-- The tasks of the records. -/
def parsed (file : List Char) : Except String (List (Task ℚ)) := forEach parseFloat file fun task => pure [task]

def listParsedAlone (tasks : List (Task ℚ)) (query : TaskQuery) : List (Task ℚ) :=
  tasks.filter fun task => keepTask task query

def listParsed (tasks : List (Task ℚ)) (query : TaskQuery) : List ListedTask :=
  (tasks.filter fun task => keepTask task query).map fun task =>
    if query.enableParentTask then { toTask := task, parentTask := (listParsedAlone tasks { id := task.parentID }).head? }
      else { toTask := task }

variable {parseFloat} {file : List Char} {tasks : List (Task ℚ)}

theorem scan_eq {each : Task ℚ → Except String (List α)} {g : Task ℚ → List α} (heach : ∀ task, each task = .ok (g task))
    {fuel : ℕ} {r : Reader} (h : scan parseFloat (fun task => pure [task]) fuel r = .ok tasks) :
    scan parseFloat each fuel r = .ok (tasks.flatMap g) := by
  induction fuel generalizing r tasks with
  | zero => cases h
  | succ fuel ih =>
    rw [scan] at h ⊢
    obtain ⟨⟨record, r'⟩, hread, h⟩ := eq_ok_of_bind h
    rw [hread]
    cases record with
    | none =>
      cases h
      rfl
    | some record =>
      obtain ⟨task, htask, h⟩ := eq_ok_of_bind h
      obtain ⟨_, hrest, h⟩ := eq_ok_of_bind (r := scan parseFloat (fun task => pure [task]) fuel r') h
      cases h
      show (parseCSVRecord parseFloat record >>= _) = _
      rw [htask]
      show (each task >>= _) = _
      rw [heach]
      show (scan parseFloat each fuel r' >>= _) = _
      rw [ih hrest]
      rfl

theorem forEach_eq {each : Task ℚ → Except String (List α)} {g : Task ℚ → List α} (heach : ∀ task, each task = .ok (g task))
    (h : parsed parseFloat file = .ok tasks) : forEach parseFloat file each = .ok (tasks.flatMap g) := by
  obtain ⟨_, hheader, h⟩ := eq_ok_of_bind h
  unfold forEach
  rw [hheader]
  exact scan_eq heach h

theorem flatMap_ite (p : Task ℚ → Bool) (g : Task ℚ → α) (tasks : List (Task ℚ)) :
    (tasks.flatMap fun task => if p task then [g task] else []) = (tasks.filter p).map g := by
  induction tasks with
  | nil => rfl
  | cons task _ ih =>
    rw [flatMap_cons, ih]
    cases h : p task <;> simp [h]

theorem listTasksAlone_eq (h : parsed parseFloat file = .ok tasks) (query : TaskQuery) :
    listTasksAlone parseFloat file query = .ok (listParsedAlone tasks query) := by
  have hloop := forEach_eq (g := fun task => if keepTask task query then [task] else []) (fun task => rfl) h
  rw [flatMap_ite, map_id'] at hloop
  exact hloop

/-- `ListTasks` over the parsed records. -/
theorem listTasks_eq (h : parsed parseFloat file = .ok tasks) (query : TaskQuery) :
    listTasks parseFloat file query = .ok (listParsed tasks query) := by
  unfold listTasks listParsed
  rw [← flatMap_ite]
  refine forEach_eq (fun task => ?_) h
  cases hkeep : keepTask task query with
  | false => rfl
  | true =>
    by_cases henable : query.enableParentTask = true
    · simp only [henable, listTasksAlone_eq h]
      rfl
    · simp only [henable]
      rfl

end CSVTraceReader

end Akita.Tracing
