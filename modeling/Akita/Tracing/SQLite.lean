import Akita.Decimals
import Akita.Maps
import Akita.Tracing.TraceReader

/-!
# The SQLite trace

`tracing.SQLiteTraceReader`: the text of its queries, and what a database answers.

* `prepareTaskQueryStr`, `listTasks` : the reader;
* `selected` : the rows that the text asks for. `Answers` : a database that gives them;
* `listTasks_perm`, `listTasks_missing` : what is listed then, and when a parent is missing.
-/

namespace Akita.Tracing
open List

/-- The columns of a task, and those of the joined one, which are NULL without one. -/
structure Row where
  t : Task ℚ
  pt : Option (Task ℚ) := none

namespace SQLiteTraceReader

/-- What the database answers to a text. -/
abbrev DB := Table ℚ → String → Except String (List Row)

def addQueryConditionsToQueryStr (sqlStr : String) (query : TaskQuery) : String :=
  let sqlStr := sqlStr ++ "\n\t\tWHERE 1=1\n\t"
  let sqlStr := if query.id ≠ "" then sqlStr ++ "\n\t\t\tAND t.task_id = '" ++ query.id ++ "'\n\t\t" else sqlStr
  let sqlStr := if query.parentID ≠ "" then sqlStr ++ "\n\t\t\tAND t.parent_id = '" ++ query.parentID ++ "'\n\t\t" else sqlStr
  let sqlStr := if query.kind ≠ "" then sqlStr ++ "\n\t\t\tAND t.kind = '" ++ query.kind ++ "'\n\t\t" else sqlStr
  let sqlStr := if query.location ≠ "" then sqlStr ++ "\n\t\t\tAND t.location = '" ++ query.location ++ "'\n\t\t" else sqlStr
  if query.enableTimeRange then
    sqlStr ++ "AND t.end_time > " ++ String.ofList (formatDecimal 15 query.startTime) ++ " AND t.start_time < " ++
      String.ofList (formatDecimal 15 query.endTime)
  else sqlStr

def prepareTaskQueryStr (query : TaskQuery) : String :=
  let sqlStr :=
    "\n\t\tSELECT \n\t\t\tt.task_id, \n\t\t\tt.parent_id,\n\t\t\tt.kind,\n\t\t\tt.what,\n\t\t\tt.location,\n\t\t\tt.start_time,\n\t\t\tt.end_time\n\t"
  let sqlStr :=
    if query.enableParentTask then
      sqlStr ++
        ",\n\t\t\tpt.task_id,\n\t\t\tpt.parent_id,\n\t\t\tpt.kind,\n\t\t\tpt.what,\n\t\t\tpt.location,\n\t\t\tpt.start_time,\n\t\t\tpt.end_time\n\t\t"
    else sqlStr
  let sqlStr := sqlStr ++ "\n\t\tFROM trace t\n\t"
  let sqlStr := if query.enableParentTask then sqlStr ++ "\n\t\t\tLEFT JOIN trace pt\n\t\t\tON t.parent_id = pt.task_id\n\t\t"
    else sqlStr
  addQueryConditionsToQueryStr sqlStr query

/-- NULL cannot be scanned into a string. -/
def scanRow (query : TaskQuery) (row : Row) : Except String ListedTask :=
  if query.enableParentTask then
    match row.pt with
    | none => throw "sql: Scan error on column index 7, name \"task_id\": converting NULL to string is unsupported"
    | some pt => pure { toTask := row.t, parentTask := some pt }
  else pure { toTask := row.t }

def listTasks (db : DB) (trace : Table ℚ) (query : TaskQuery) : Except String (List ListedTask) := do
  let rows ← db trace (prepareTaskQueryStr query)
  rows.mapM (scanRow query)

/-! ## What the text means -/

/-- The numerals stand for what the bounds were rounded to. -/
def inside (query : TaskQuery) (t : Task ℚ) : Prop :=
  roundDecimal 15 query.startTime < t.endTime ∧ t.startTime < roundDecimal 15 query.endTime

instance (query : TaskQuery) (t : Task ℚ) : Decidable (inside query t) := inferInstanceAs (Decidable (_ ∧ _))

/-- The four conditions on texts. -/
def Matches (query : TaskQuery) (t : Task ℚ) : Prop :=
  (query.id ≠ "" → t.id = query.id) ∧ (query.parentID ≠ "" → t.parentID = query.parentID) ∧
    (query.kind ≠ "" → t.kind = query.kind) ∧ (query.location ≠ "" → t.location = query.location)

instance (query : TaskQuery) (t : Task ℚ) : Decidable (Matches query t) :=
  inferInstanceAs (Decidable ((_ → _) ∧ (_ → _) ∧ (_ → _) ∧ (_ → _)))

/-- `WHERE`. -/
def condition (query : TaskQuery) (t : Task ℚ) : Prop := Matches query t ∧ (query.enableTimeRange = true → inside query t)

instance (query : TaskQuery) (t : Task ℚ) : Decidable (condition query t) := inferInstanceAs (Decidable (_ ∧ (_ → _)))

/-- `LEFT JOIN trace pt ON t.parent_id = pt.task_id`. -/
def joined (trace : Table ℚ) (t : Task ℚ) : List Row :=
  let parents := trace.filter fun pt => t.parentID = pt.id
  if parents = [] then [{ t := t }] else parents.map fun pt => { t := t, pt := some pt }

def selected (trace : Table ℚ) (query : TaskQuery) : List Row :=
  (trace.filter (condition query)).flatMap fun t => if query.enableParentTask then joined trace t else [{ t := t }]

/-- No text of the query ends its literal. -/
def Quotable (query : TaskQuery) : Prop := ∀ s ∈ [query.id, query.parentID, query.kind, query.location], '\'' ∉ s.toList

/-- The rows come in any order. -/
def Answers (db : DB) (trace : Table ℚ) (query : TaskQuery) : Prop :=
  Quotable query → ∃ rows, db trace (prepareTaskQueryStr query) = .ok rows ∧ rows.Perm (selected trace query)

/-! ## What is listed -/

variable {db : DB} {trace : Table ℚ} {query : TaskQuery}

/-- The task with an id. -/
def parentOf (trace : Table ℚ) (t : Task ℚ) : Option (Task ℚ) := trace.find? fun pt => pt.id = t.parentID

theorem filter_parent (hids : (trace.map Task.id).Nodup) (t : Task ℚ) :
    trace.filter (fun pt => t.parentID = pt.id) = (parentOf trace t).toList := by
  have hfilter : trace.filter (fun pt => pt.id = t.parentID) = (parentOf trace t).toList :=
    Keyed.filter_eq_toList hids t.parentID
  simp only [eq_comm (a := t.parentID)]
  exact hfilter

theorem joined_eq (hids : (trace.map Task.id).Nodup) (t : Task ℚ) :
    joined trace t = [{ t := t, pt := parentOf trace t }] := by
  unfold joined
  rw [filter_parent hids]
  cases parentOf trace t <;> rfl

/-- A task as it is listed, with its parent where that is asked for. -/
def listed (trace : Table ℚ) (query : TaskQuery) (t : Task ℚ) : ListedTask :=
  if query.enableParentTask then { toTask := t, parentTask := parentOf trace t } else { toTask := t }

theorem selected_eq (hids : (trace.map Task.id).Nodup) : selected trace query =
    (trace.filter (condition query)).map fun t => if query.enableParentTask then { t := t, pt := parentOf trace t }
      else { t := t } := by
  unfold selected
  rw [map_eq_flatMap]
  refine flatMap_congr fun t _ => ?_
  split_ifs
  · exact joined_eq hids t
  · rfl

/-- Where all parents are there, the tasks are listed with them. -/
theorem listTasks_perm (hids : (trace.map Task.id).Nodup) (hdb : Answers db trace query) (hquery : Quotable query)
    (hparents : query.enableParentTask = true → ∀ t ∈ trace, condition query t → (parentOf trace t).isSome) :
    ∃ tasks, listTasks db trace query = .ok tasks ∧
    tasks.Perm ((trace.filter (condition query)).map (listed trace query)) := by
  obtain ⟨rows, hrows, hperm⟩ := hdb hquery
  rw [selected_eq hids] at hperm
  let read : Row → ListedTask :=
    fun row => if query.enableParentTask then { toTask := row.t, parentTask := row.pt } else { toTask := row.t }
  have hscan : ∀ row ∈ rows, scanRow query row = .ok (read row) := by
    intro row hrow
    obtain ⟨t, ht, rfl⟩ := mem_map.1 (hperm.mem_iff.1 hrow)
    obtain ⟨htrace, hcondition⟩ := mem_filter.1 ht
    unfold scanRow
    by_cases henable : query.enableParentTask = true
    · obtain ⟨_, hpt⟩ := Option.isSome_iff_exists.1 (hparents henable t htrace (of_decide_eq_true hcondition))
      simp only [read, if_pos henable, hpt]
      rfl
    · simp only [read, if_neg henable]
      rfl
  refine ⟨rows.map read, ?_, ?_⟩
  · unfold listTasks
    rw [hrows]
    exact mapM_eq_ok hscan
  · refine (hperm.map _).trans (.of_eq ?_)
    rw [map_map]
    refine map_congr_left fun t _ => ?_
    dsimp only [Function.comp, listed, read]
    split_ifs <;> rfl

/-- A missing parent panics. -/
theorem listTasks_missing (hids : (trace.map Task.id).Nodup) (hdb : Answers db trace query) (hquery : Quotable query)
    (henable : query.enableParentTask = true) {t : Task ℚ} (ht : t ∈ trace) (hcondition : condition query t)
    (hnone : parentOf trace t = none) (tasks : List ListedTask) : listTasks db trace query ≠ .ok tasks := by
  obtain ⟨rows, hrows, hperm⟩ := hdb hquery
  rw [selected_eq hids] at hperm
  have hrow : { t := t } ∈ rows := by
    refine hperm.mem_iff.2 (mem_map.2 ⟨t, mem_filter.2 ⟨ht, decide_eq_true hcondition⟩, ?_⟩)
    rw [if_pos henable, hnone]
  intro hlist
  unfold listTasks at hlist
  rw [hrows] at hlist
  obtain ⟨_, htask⟩ := exists_of_mapM hlist hrow
  unfold scanRow at htask
  rw [if_pos henable] at htask
  cases htask

end SQLiteTraceReader

end Akita.Tracing
