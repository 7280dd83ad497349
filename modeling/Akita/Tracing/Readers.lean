import Akita.Tracing.CSV
import Akita.Tracing.SQLite

/-!
# Two readers

When the CSV reader and the SQLite reader list the same tasks, with the right parents.

* `keepTask_iff` : what the CSV reader keeps. `head_parent` : the parent it finds;
* `agree_iff` : no task may meet the time range with an end only, and no parent may be missing.
-/

namespace Akita.Tracing
open List
open SQLiteTraceReader (Answers DB Matches Quotable condition inside listTasks listTasks_perm listed parentOf selected)
open CSVTraceReader (listParsed listParsedAlone keepTask)

/-- Both readers list the same tasks, each with the task that is its parent, and none panics. -/
structure Agree (db : DB) (trace : Table ℚ) (query : TaskQuery) : Prop where
  same : ∃ tasks, listTasks db trace query = .ok tasks ∧ tasks.Perm (listParsed trace query)
  parents : query.enableParentTask = true → ∀ task ∈ listParsed trace query, task.parentTask = parentOf trace task.toTask

/-- The range of the query has a point in common with the task. -/
def Meets (query : TaskQuery) (t : Task ℚ) : Prop := query.startTime ≤ t.endTime ∧ t.startTime ≤ query.endTime

/-- The task meets the range with an end only, or comes so close to an end that it matters how the end is rounded. -/
def Touches (query : TaskQuery) (t : Task ℚ) : Prop :=
  Meets query t ∧ (t.endTime ≤ roundDecimal 15 query.startTime ∨ roundDecimal 15 query.endTime ≤ t.startTime) ∨
    inside query t ∧ (t.endTime < query.startTime ∨ query.endTime < t.startTime)

/-- The tasks that the texts select do not touch the range, and those that meet it have their parents in the trace. -/
structure Clear (trace : Table ℚ) (query : TaskQuery) : Prop where
  ends : query.enableTimeRange = true → ∀ t ∈ trace, Matches query t → ¬ Touches query t
  parents : query.enableParentTask = true → ∀ t ∈ trace, Matches query t → (query.enableTimeRange = true → Meets query t) →
    ∃ p ∈ trace, p.id = t.parentID

theorem not_touches_iff (query : TaskQuery) (t : Task ℚ) : ¬ Touches query t ↔ (Meets query t ↔ inside query t) := by
  have hmeets : Meets query t ↔ ¬ (t.endTime < query.startTime ∨ query.endTime < t.startTime) := by
    rw [not_or, not_lt, not_lt, Meets]
  have hinside : inside query t ↔
      ¬ (t.endTime ≤ roundDecimal 15 query.startTime ∨ roundDecimal 15 query.endTime ≤ t.startTime) := by
    rw [not_or, not_le, not_le, inside]
  unfold Touches
  tauto

theorem requirement_iff (asked found : String) :
    (if asked ≠ "" ∧ found ≠ asked then false else true) = true ↔ (asked ≠ "" → found = asked) := by
  split_ifs with h
  · exact ⟨fun hfalse => hfalse.elim, fun heq => absurd (heq h.1) h.2⟩
  · exact ⟨fun _ hasked => not_not.1 fun hne => h ⟨hasked, hne⟩, fun _ => rfl⟩

theorem meetTimeRange_iff (task : Task ℚ) (query : TaskQuery) :
    CSVTraceReader.meetTimeRangeRequirement task query = true ↔ (query.enableTimeRange = true → Meets query task) := by
  unfold CSVTraceReader.meetTimeRangeRequirement Meets
  by_cases henable : query.enableTimeRange = true
  · simp [henable]
  · simp [henable]

theorem keepTask_iff (task : Task ℚ) (query : TaskQuery) :
    keepTask task query = true ↔ Matches query task ∧ (query.enableTimeRange = true → Meets query task) := by
  have hid : CSVTraceReader.meetIDRequirement task query = true ↔ (query.id ≠ "" → task.id = query.id) := requirement_iff ..
  have hparentID : CSVTraceReader.meetParentIDRequirement task query = true ↔
      (query.parentID ≠ "" → task.parentID = query.parentID) :=
    requirement_iff ..
  have hkind : CSVTraceReader.meetKindRequirement task query = true ↔ (query.kind ≠ "" → task.kind = query.kind) :=
    requirement_iff ..
  have hlocation : CSVTraceReader.meetWhereRequirement task query = true ↔
      (query.location ≠ "" → task.location = query.location) :=
    requirement_iff ..
  unfold Matches
  rw [← hid, ← hparentID, ← hkind, ← hlocation, ← meetTimeRange_iff]
  unfold CSVTraceReader.keepTask
  grind

section
variable {db : DB} {trace : Table ℚ} {query : TaskQuery}

theorem ends_iff : (query.enableTimeRange = true → ∀ t ∈ trace, Matches query t → ¬ Touches query t) ↔
    ∀ t ∈ trace, keepTask t query = true ↔ condition query t := by
  simp only [keepTask_iff, condition, not_touches_iff]
  constructor
  · intro h t ht
    exact and_congr_right fun hmatches => forall_congr' fun henable => h henable t ht hmatches
  · intro h henable t ht hmatches
    have hboth := and_congr_right_iff.1 (h t ht) hmatches
    rwa [imp_iff_right henable, imp_iff_right henable] at hboth

/-- A parent with an id is found. -/
theorem head_parent (trace : Table ℚ) {t : Task ℚ} (h : t.parentID ≠ "") :
    (listParsedAlone trace { id := t.parentID }).head? = parentOf trace t := by
  have hkeep : ∀ p : Task ℚ, keepTask p { id := t.parentID } = decide (p.id = t.parentID) := by
    intro p
    rw [Bool.eq_iff_iff, keepTask_iff, decide_eq_true_iff]
    exact ⟨fun hp => hp.1.1 h, fun hp =>
      ⟨⟨fun _ => hp, fun hne => absurd rfl hne, fun hne => absurd rfl hne, fun hne => absurd rfl hne⟩,
      fun hfalse => absurd hfalse Bool.false_ne_true⟩⟩
  unfold listParsedAlone parentOf
  simp only [hkeep, head?_filter]

theorem parentOf_isSome {t : Task ℚ} : (parentOf trace t).isSome ↔ ∃ p ∈ trace, p.id = t.parentID := by
  unfold parentOf
  rw [find?_isSome]
  simp

theorem toTask_listed (t : Task ℚ) : (listed trace query t).toTask = t := by
  unfold listed
  split_ifs <;> rfl

theorem toTask_listParsed : (listParsed trace query).map ListedTask.toTask = trace.filter fun t => keepTask t query := by
  unfold listParsed
  rw [map_map]
  refine (map_congr_left fun t _ => ?_).trans (map_id _)
  dsimp only [Function.comp]
  split_ifs <;> rfl

/-- For a trace with distinct ids that are not empty, and a query without quotes: the readers agree exactly when the tasks are
clear of the ends of the range and their parents are there. -/
theorem agree_iff (hids : (trace.map Task.id).Nodup) (hnonempty : ∀ t ∈ trace, t.id ≠ "") (hquery : Quotable query)
    (hdb : Answers db trace query) :
    Agree db trace query ↔ Clear trace query := by
  constructor
  · rintro ⟨⟨tasks, hok, hperm⟩, -⟩
    have hparents : query.enableParentTask = true → ∀ t ∈ trace, condition query t → (parentOf trace t).isSome := by
      intro henable t ht hcondition
      rw [← Option.ne_none_iff_isSome]
      exact fun hnone => SQLiteTraceReader.listTasks_missing hids hdb hquery henable ht hcondition hnone tasks hok
    obtain ⟨tasks', hok', hperm'⟩ := listTasks_perm hids hdb hquery hparents
    obtain rfl : tasks = tasks' := Except.ok.inj (hok.symm.trans hok')
    have htasks := (hperm.symm.trans hperm').map ListedTask.toTask
    have hlisted : ((trace.filter (condition query)).map (listed trace query)).map ListedTask.toTask =
        trace.filter (condition query) := by
      rw [map_map]
      exact (map_congr_left fun t _ => toTask_listed t).trans (map_id _)
    rw [toTask_listParsed, hlisted] at htasks
    have hsame : ∀ t ∈ trace, keepTask t query = true ↔ condition query t := by
      intro t ht
      have hmem := htasks.mem_iff (a := t)
      rwa [mem_filter, mem_filter, and_congr_right_iff, decide_eq_true_iff, imp_iff_right ht] at hmem
    refine ⟨ends_iff.2 hsame, fun henable t ht hmatches hmeets => ?_⟩
    exact parentOf_isSome.1 (hparents henable t ht ((hsame t ht).1 ((keepTask_iff t query).2 ⟨hmatches, hmeets⟩)))
  · rintro ⟨hends, hparents⟩
    have hsame := ends_iff.1 hends
    have hparent : query.enableParentTask = true → ∀ t ∈ trace, condition query t → ∃ p ∈ trace, p.id = t.parentID := by
      intro henable t ht hcondition
      obtain ⟨hmatches, hmeets⟩ := (keepTask_iff t query).1 ((hsame t ht).2 hcondition)
      exact hparents henable t ht hmatches hmeets
    obtain ⟨tasks, hok, hperm⟩ := listTasks_perm hids hdb hquery fun henable t ht hcondition =>
      parentOf_isSome.2 (hparent henable t ht hcondition)
    have hparsed : listParsed trace query = (trace.filter (condition query)).map (listed trace query) := by
      have hfilter : (trace.filter fun t => keepTask t query) = trace.filter (condition query) := by
        refine filter_congr fun t ht => ?_
        rw [Bool.eq_iff_iff, hsame t ht, decide_eq_true_iff]
      unfold listParsed
      rw [hfilter]
      refine map_congr_left fun t ht => ?_
      obtain ⟨htrace, hcondition⟩ := mem_filter.1 ht
      unfold listed
      split_ifs with henable
      · obtain ⟨p, hp, hid⟩ := hparent henable t htrace (of_decide_eq_true hcondition)
        rw [head_parent trace (hid ▸ hnonempty p hp)]
      · rfl
    refine ⟨⟨tasks, hok, hparsed ▸ hperm⟩, fun henable task htask => ?_⟩
    rw [hparsed] at htask
    obtain ⟨t, -, rfl⟩ := mem_map.1 htask
    rw [toTask_listed]
    unfold listed
    rw [if_pos henable]

/-- A request, and the one that it was sent for. -/
def requests : Table ℚ :=
  [{ id := "1", parentID := "", kind := "req_out", what := "*mem.ReadReq", location := "CU", startTime := 0, endTime := 3 },
    { id := "2", parentID := "1", kind := "req_in", what := "*mem.ReadReq", location := "L1", startTime := 1, endTime := 2 }]

instance (query : TaskQuery) (t : Task ℚ) : Decidable (Meets query t) := inferInstanceAs (Decidable (_ ∧ _))

instance (query : TaskQuery) (t : Task ℚ) : Decidable (Touches query t) := inferInstanceAs (Decidable (_ ∧ _ ∨ _ ∧ _))

theorem agree_req_in :
    Agree (fun trace _ => .ok (selected trace { kind := "req_in", enableTimeRange := true, startTime := 1, endTime := 2,
                                                enableParentTask := true }))
      requests { kind := "req_in", enableTimeRange := true, startTime := 1, endTime := 2, enableParentTask := true } :=
  (agree_iff (by decide) (by decide) (by unfold Quotable; decide) fun _ => ⟨_, rfl, .refl _⟩).2
    { ends := by decide +kernel, parents := by decide +kernel }

/-- A task without a parent: the SQLite reader panics, and the CSV reader gives the task itself as its parent. -/
theorem listTasks_root :
    listTasks (fun trace _ => .ok (selected trace { enableParentTask := true })) requests { enableParentTask := true } =
        .error "sql: Scan error on column index 7, name \"task_id\": converting NULL to string is unsupported" ∧
      (listParsed requests { enableParentTask := true }).head?.bind ListedTask.parentTask = requests.head? ∧
      ¬ Agree (fun trace _ => .ok (selected trace { enableParentTask := true })) requests { enableParentTask := true } := by
  have hpanic : listTasks (fun trace _ => .ok (selected trace { enableParentTask := true })) requests
      { enableParentTask := true } =
      .error "sql: Scan error on column index 7, name \"task_id\": converting NULL to string is unsupported" := by
      decide +kernel
  refine ⟨hpanic, by decide +kernel, ?_⟩
  rintro ⟨⟨tasks, hok, -⟩, -⟩
  rw [hpanic] at hok
  cases hok

end

end Akita.Tracing
