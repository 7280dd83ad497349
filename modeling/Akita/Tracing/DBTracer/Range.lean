import Akita.Tracing.DBTracer
import Mathlib.Data.Multiset.Basic

/-!
# When the database has the tasks of the range

* `rows_eq_stored_iff` : a span that is kept is in the range, if it is ended or the tracer is terminated in time;
* `stores_range_iff` : for which runs the table holds the tasks of the range, each once.
-/

namespace Akita.Tracing
open List
open DBTracer (call run)
open Multiset (card coe_card)

variable {τ : Type} [LinearOrder τ] [Zero τ]

/-- The rows of the tasks in the range. -/
def stored (range : TimeRange τ) (now : τ) (calls : List (τ × Call τ)) : List (Task τ) :=
  ((spans calls).filter fun s => decide (s.Overlaps range now)).map (Span.row now)

theorem Span.Overlaps.kept {range : TimeRange τ} {now : τ} {s : Span τ} (h : s.Overlaps range now) : s.Kept range := by
  refine ⟨?_, h.2⟩
  obtain ⟨_, ended⟩ := s
  cases ended with
  | none => rfl
  | some => exact decide_eq_true h.1

/-- The start of the range is not tested when the tracer is terminated. -/
def TestedInTime (range : TimeRange τ) (now : τ) (calls : List (τ × Call τ)) : Prop :=
  range.startTime ≤ 0 ∨ range.startTime ≤ now ∨ ∀ s ∈ spans calls, s.ended = none → range.endTime > 0 ∧
    s.task.startTime > range.endTime

theorem kept_overlaps_iff (range : TimeRange τ) (now : τ) (calls : List (τ × Call τ)) :
    (∀ s ∈ spans calls, s.Kept range → s.Overlaps range now) ↔ TestedInTime range now calls := by
  constructor
  · intro h
    by_contra hcon
    unfold TestedInTime at hcon
    simp only [not_or, not_forall] at hcon
    obtain ⟨hpos, hlater, s, hs, hended, hin⟩ := hcon
    have hkept : s.Kept range := by
      refine ⟨by rw [hended]; rfl, ?_⟩
      by_contra hlate
      obtain ⟨h₁, h₂⟩ := not_or.1 hlate
      exact hin ⟨not_le.1 h₁, not_le.1 h₂⟩
    have hoverlaps := (h s hs hkept).1
    rw [hended] at hoverlaps
    exact hoverlaps.elim hpos hlater
  · intro h s hs hkept
    refine ⟨?_, hkept.2⟩
    cases hended : s.ended with
    | some =>
      have htest := hkept.1
      rw [hended] at htest
      exact of_decide_eq_true htest
    | none =>
      rcases h with hno | hin | hlate
      · exact .inl hno
      · exact .inr hin
      · obtain ⟨hpos, hgt⟩ := hlate s hs hended
        exact absurd hkept.2 (not_or.2 ⟨not_le.2 hpos, not_le.2 hgt⟩)

theorem rows_eq_stored_iff (range : TimeRange τ) (now : τ) (calls : List (τ × Call τ)) :
    rows range now (spans calls) = ↑(stored range now calls) ↔ TestedInTime range now calls := by
  rw [← kept_overlaps_iff]
  unfold rows stored
  constructor
  · intro heq s hs hkept
    -- the spans in the range are among those that are kept, and as many
    have hfilter : (spans calls).filter (fun s => decide (s.Overlaps range now)) =
        ((spans calls).filter fun s => decide (s.Kept range)).filter fun s => decide (s.Overlaps range now) := by
      rw [filter_filter]
      refine filter_congr fun s _ => ?_
      by_cases ho : s.Overlaps range now
      · simp [ho, ho.kept]
      · simp [ho]
    have hlen := congrArg card heq
    rw [coe_card, coe_card, length_map, length_map, hfilter] at hlen
    have hsame := filter_sublist.eq_of_length hlen.symm
    exact of_decide_eq_true (filter_eq_self.1 hsame s (mem_filter.2 ⟨hs, decide_eq_true hkept⟩))
  · intro h
    rw [filter_congr fun s hs => decide_eq_decide.2 ⟨h s hs, Span.Overlaps.kept⟩]

theorem run_eq (b : Backend) (batchSize : Int) (range : TimeRange τ) (it : MapOrder (Task τ)) (calls : List (τ × Call τ))
    (now : τ) (n : Nat) :
    run b batchSize range it calls now n =
      calls.foldlM (call b) { range, writer := { batchSize } } >>= fun t =>
        (it.order t.tracingTasks).foldlM (fun writer task => b.write writer { task with endTime := now }) t.writer >>=
          b.flushes (n + 1) := by
  unfold run DBTracer.terminate
  simp only [bind_assoc, pure_bind]
  rfl

/-- **The tasks of the range.** For each of the writers and every batch size, all calls with distinct IDs, and any number of
flushes after `Terminate`, no call panics and the table holds the tasks of the range, each once, if and only if the tasks are
valid, no task that is not ended is traced when the tracer is terminated before the range, and a MySQL writer has something to
store when it is flushed and is not flushed again. -/
theorem stores_range_iff (b : Backend) (batchSize : Int) (range : TimeRange τ) (it : MapOrder (Task τ))
    {calls : List (τ × Call τ)} (hids : ((started calls).map Task.id).Nodup) (now : τ) (n : Nat) :
    Succeeds (fun writer => (writer.table : Multiset (Task τ)) = ↑(stored range now calls))
      (run b batchSize range it calls now n) ↔
      (∀ task ∈ started calls, task.Valid) ∧ TestedInTime range now calls ∧
        (b = .mysql → n = 0 ∧ (stored range now calls).length % Backend.batch batchSize ≠ 0) := by
  have hnew : Tracks b batchSize range calls [] { range, writer := { batchSize } } :=
    ⟨rfl, .new b batchSize, hids, forall_mem_nil _⟩
  have hdue : due range now calls [] { range, writer := { batchSize } } = rows range now (spans calls) := zero_add _
  have hall : (∀ task ∈ started calls, task.Valid) →
      Succeeds (fun writer => ∃ written : List (Task τ), b.Batched batchSize written writer ∧
        ↑written = rows range now (spans calls))
        (calls.foldlM (call b) { range, writer := { batchSize } } >>= fun t =>
          (it.order t.tracingTasks).foldlM (fun writer task => b.write writer { task with endTime := now }) t.writer) := by
    intro hvalid
    refine (calls_ok hnew hvalid now).bind ?_
    rintro t ⟨written, htracks, hkeeps⟩
    rw [← hdue, ← hkeeps]
    exact writeTraced_ok it htracks now
  rw [run_eq]
  constructor
  · rintro ⟨writer, hrun, htable⟩
    have hvalid : ∀ task ∈ started calls, task.Valid := by
      obtain ⟨_, hcalls, -⟩ := eq_ok_of_bind hrun
      exact valid_of_calls_ok hcalls
    obtain ⟨writer', hwritten, written, hbatched, hrows⟩ := hall hvalid
    rw [← bind_assoc, hwritten] at hrun
    have hflushes : b.flushes (n + 1) writer' = .ok writer := hrun
    have hcond := Backend.of_flushes hbatched hflushes
    obtain ⟨writer'', hflushes'', hflushed⟩ := Backend.flushes_ok hbatched hcond
    obtain rfl : writer = writer'' := Except.ok.inj (hflushes.symm.trans hflushes'')
    rw [hflushed.table] at htable
    have hlen : written.length = (stored range now calls).length := congrArg card htable
    rw [hlen] at hcond
    exact ⟨hvalid, (rows_eq_stored_iff range now calls).1 (hrows.symm.trans htable), hcond⟩
  · rintro ⟨hvalid, htested, hflush⟩
    obtain ⟨_, hwritten, written, hbatched, hrows⟩ := hall hvalid
    have hstored := hrows.trans ((rows_eq_stored_iff range now calls).2 htested)
    have hlen : written.length = (stored range now calls).length := congrArg card hstored
    rw [← bind_assoc, hwritten]
    rw [← hlen] at hflush
    refine (Backend.flushes_ok hbatched hflush).mono fun writer hwriter => ?_
    rw [hwriter.table, hstored]

/-- A task for a request, without times. -/
def reqTask (id : String) : Task Nat :=
  { id, parentID := "0", kind := "req_in", what := "read", location := "L1", startTime := 0, endTime := 0 }

/-- Of three tasks one ends early, and one is not ended. -/
def threeTasks : List (Nat × Call Nat) :=
  [(1, .startTask (reqTask "1")), (2, .startTask (reqTask "2")), (3, .endTask "1"), (6, .startTask (reqTask "3")),
    (7, .endTask "3")]

theorem stores_range_iff_three : ((started threeTasks).map Task.id).Nodup ∧
    Succeeds (fun writer => (writer.table : Multiset (Task Nat)) = ↑(stored ⟨5, 9⟩ 8 threeTasks))
      (run .mysql 100 ⟨5, 9⟩ ⟨id, List.Perm.refl⟩ threeTasks 8 0) := by
  refine ⟨by decide, (stores_range_iff .mysql 100 ⟨5, 9⟩ ⟨id, List.Perm.refl⟩ (by decide) 8 0).2
    ⟨?_, .inr (.inl (by decide)), fun _ => by decide⟩⟩
  unfold Task.Valid
  decide

/-- A task that is not ended is stored when the tracer is terminated before the range; and MySQL gets a statement without a
row when a writer that has stored all tasks is flushed again. -/
theorem outside_and_panics : (∃ writer, run .sqlite 100 ⟨5, 9⟩ ⟨id, List.Perm.refl⟩ (threeTasks.take 3) 4 0 = .ok writer ∧
      writer.table = [{ reqTask "2" with startTime := 2, endTime := 4 }] ∧ stored ⟨5, 9⟩ 4 (threeTasks.take 3) = []) ∧
    run .mysql 100 ⟨5, 9⟩ ⟨id, List.Perm.refl⟩ threeTasks 8 1 = .error "You have an error in your SQL syntax" :=
  ⟨⟨_, rfl, rfl, rfl⟩, rfl⟩

end Akita.Tracing
