import Akita.Returns

/-!
# Trace writers

`tracing.SQLiteTraceWriter` and `tracing.MySQLTraceWriter`: tasks are kept until a batch of them goes to the database.

* `Backend.write_ok`, `Backend.flush_ok` : nothing that was handed over is lost or reordered, `Batched` says how much of it is
  still kept;
* `Backend.flushes_ok`, `Backend.of_flushes` : how often a writer can be flushed in the end.
-/

namespace Akita.Tracing
open List

/-- The fields of a task that are stored. -/
structure Task (τ : Type) where
  id : String
  parentID : String
  kind : String
  what : String
  location : String
  startTime : τ
  endTime : τ
  deriving DecidableEq

variable {τ : Type}

/-- The table `trace`. -/
abbrev Table (τ : Type) := List (Task τ)

/-- `INSERT INTO trace VALUES`, with the rows. Without one it is no SQL. -/
def Table.insert (rows : List (Task τ)) (table : Table τ) : Except String (Table τ) :=
  if rows = [] then .error "You have an error in your SQL syntax" else .ok (table ++ rows)

structure TraceWriter (τ : Type) where
  tasksToWriteToDB : List (Task τ) := []
  batchSize : Int
  table : Table τ := []

inductive Backend
  | sqlite
  | mysql
  deriving DecidableEq

namespace SQLiteTraceWriter

def flush (t : TraceWriter τ) : Except String (TraceWriter τ) := do
  if t.tasksToWriteToDB.length = 0 then return t
  let table ← t.tasksToWriteToDB.foldlM (fun table task => table.insert [task]) t.table
  return { t with table, tasksToWriteToDB := [] }

def write (t : TraceWriter τ) (task : Task τ) : Except String (TraceWriter τ) :=
  let t := { t with tasksToWriteToDB := t.tasksToWriteToDB ++ [task] }
  if (t.tasksToWriteToDB.length : Int) ≥ t.batchSize then flush t else .ok t

theorem inserts_eq (tasks table : List (Task τ)) :
    tasks.foldlM (fun table task => Table.insert [task] table) table = .ok (table ++ tasks) := by
  induction tasks generalizing table with
  | nil =>
    rw [append_nil]
    rfl
  | cons task tasks ih =>
    have hone : Table.insert [task] table = .ok (table ++ [task]) := if_neg (cons_ne_nil _ _)
    rw [foldlM_cons, hone]
    show tasks.foldlM _ (table ++ [task]) = _
    rw [ih, append_assoc]
    rfl

theorem flush_eq (t : TraceWriter τ) :
    flush t = .ok { t with table := t.table ++ t.tasksToWriteToDB, tasksToWriteToDB := [] } := by
  unfold flush
  split
  next h =>
    obtain ⟨tasks, _, _⟩ := t
    obtain rfl : tasks = [] := length_eq_zero_iff.mp h
    simp [pure, Except.pure]
  next =>
    rw [inserts_eq]
    rfl

end SQLiteTraceWriter

namespace MySQLTraceWriter

def flush (t : TraceWriter τ) : Except String (TraceWriter τ) := do
  let table ← t.table.insert t.tasksToWriteToDB
  return { t with table, tasksToWriteToDB := [] }

def write (t : TraceWriter τ) (task : Task τ) : Except String (TraceWriter τ) :=
  let t := { t with tasksToWriteToDB := t.tasksToWriteToDB ++ [task] }
  if (t.tasksToWriteToDB.length : Int) > t.batchSize then flush t else .ok t

theorem flush_eq {t : TraceWriter τ} (h : t.tasksToWriteToDB ≠ []) :
    flush t = .ok { t with table := t.table ++ t.tasksToWriteToDB, tasksToWriteToDB := [] } := by
  unfold flush Table.insert
  rw [if_neg h]
  rfl

end MySQLTraceWriter

namespace Backend

def flush : Backend → TraceWriter τ → Except String (TraceWriter τ)
  | sqlite => SQLiteTraceWriter.flush
  | mysql => MySQLTraceWriter.flush

def write : Backend → TraceWriter τ → Task τ → Except String (TraceWriter τ)
  | sqlite => SQLiteTraceWriter.write
  | mysql => MySQLTraceWriter.write

/-- How many tasks the MySQL writer sends at a time. -/
def batch (batchSize : Int) : Nat := batchSize.toNat + 1

/-- `written` was handed over: the start of it is in the table, and a MySQL writer keeps what is no full batch. -/
structure Batched (b : Backend) (batchSize : Int) (written : List (Task τ)) (t : TraceWriter τ) : Prop where
  size : t.batchSize = batchSize
  handed : t.table ++ t.tasksToWriteToDB = written
  kept : b = mysql → t.tasksToWriteToDB.length = written.length % batch batchSize

variable {b : Backend} {batchSize : Int} {written : List (Task τ)} {t : TraceWriter τ}

theorem Batched.new (b : Backend) (batchSize : Int) : Batched b batchSize [] ({ batchSize } : TraceWriter τ) :=
  ⟨rfl, rfl, fun _ => (Nat.zero_mod _).symm⟩

theorem write_ok (h : Batched b batchSize written t) (task : Task τ) :
    Succeeds (Batched b batchSize (written ++ [task])) (b.write t task) := by
  have hwritten : t.table ++ (t.tasksToWriteToDB ++ [task]) = written ++ [task] := by rw [← append_assoc, h.handed]
  cases b with
  | sqlite =>
    show Succeeds _ (SQLiteTraceWriter.write t task)
    unfold SQLiteTraceWriter.write
    have hno : sqlite = mysql → ∀ {p : Prop}, p := fun hb => Backend.noConfusion hb
    dsimp only
    split
    · rw [SQLiteTraceWriter.flush_eq]
      exact .ok ⟨h.size, by rw [append_nil]; exact hwritten, fun hb => hno hb⟩
    · exact .ok ⟨h.size, hwritten, fun hb => hno hb⟩
  | mysql =>
    have hkept := h.kept rfl
    have hlt : t.tasksToWriteToDB.length < batch batchSize := by
      rw [hkept]
      exact Nat.mod_lt _ (Nat.succ_pos _)
    have hlen : (t.tasksToWriteToDB ++ [task]).length = t.tasksToWriteToDB.length + 1 := length_append
    have hmod : (written ++ [task]).length % batch batchSize = (t.tasksToWriteToDB.length + 1) % batch batchSize := by
      rw [hkept, length_append, length_singleton, Nat.mod_add_mod]
    show Succeeds _ (MySQLTraceWriter.write t task)
    unfold MySQLTraceWriter.write
    dsimp only
    have hsize := h.size
    rw [hlen]
    by_cases hfull : ((t.tasksToWriteToDB.length + 1 : Nat) : Int) > t.batchSize
    · -- the batch is full, and nothing is kept
      have heq : t.tasksToWriteToDB.length + 1 = batch batchSize := by
        unfold batch at hlt ⊢
        omega
      have hne : t.tasksToWriteToDB ++ [task] ≠ [] := append_ne_nil_of_right_ne_nil _ (cons_ne_nil _ _)
      rw [if_pos hfull, MySQLTraceWriter.flush_eq hne]
      refine .ok ⟨h.size, by rw [append_nil]; exact hwritten, fun _ => ?_⟩
      rw [hmod, heq, Nat.mod_self]
      rfl
    · have hmore : t.tasksToWriteToDB.length + 1 < batch batchSize := by
        unfold batch at hlt ⊢
        omega
      rw [if_neg hfull]
      refine .ok ⟨h.size, hwritten, fun _ => ?_⟩
      rw [hmod, Nat.mod_eq_of_lt hmore, hlen]

theorem writes_ok (h : Batched b batchSize written t) (tasks : List (Task τ)) :
    Succeeds (Batched b batchSize (written ++ tasks)) (tasks.foldlM b.write t) := by
  refine Succeeds.foldlM (P := fun pre => Batched b batchSize (written ++ pre)) ?_ ?_
  · rw [append_nil]
    exact h
  · intro pre task post t' _ ht'
    rw [← append_assoc]
    exact write_ok ht' task

/-- All that was handed over is in the table. -/
structure Flushed (written : List (Task τ)) (t : TraceWriter τ) : Prop where
  table : t.table = written
  none : t.tasksToWriteToDB = []

theorem flush_ok (h : Batched b batchSize written t) (hsome : b = mysql → written.length % batch batchSize ≠ 0) :
    Succeeds (Flushed written) (b.flush t) := by
  have hflushed : Flushed written { t with table := t.table ++ t.tasksToWriteToDB, tasksToWriteToDB := [] } := ⟨h.handed, rfl⟩
  cases b with
  | sqlite =>
    show Succeeds _ (SQLiteTraceWriter.flush t)
    rw [SQLiteTraceWriter.flush_eq]
    exact .ok hflushed
  | mysql =>
    show Succeeds _ (MySQLTraceWriter.flush t)
    rw [MySQLTraceWriter.flush_eq]
    · exact .ok hflushed
    · intro hnil
      apply hsome rfl
      rw [← h.kept rfl, hnil]
      rfl

theorem flush_mysql_nil (h : t.tasksToWriteToDB = []) : mysql.flush t = .error "You have an error in your SQL syntax" := by
  show MySQLTraceWriter.flush t = _
  unfold MySQLTraceWriter.flush Table.insert
  rw [if_pos h]
  rfl

/-- `n` times `Flush`. -/
def flushes (b : Backend) : Nat → TraceWriter τ → Except String (TraceWriter τ)
  | 0, t => .ok t
  | n + 1, t => do
    let t ← b.flush t
    b.flushes n t

theorem flushes_sqlite_ok (h : Flushed written t) (n : Nat) : Succeeds (Flushed written) (sqlite.flushes n t) := by
  induction n generalizing t with
  | zero => exact .ok h
  | succ n ih =>
    show Succeeds _ (SQLiteTraceWriter.flush t >>= fun t => sqlite.flushes n t)
    rw [SQLiteTraceWriter.flush_eq]
    refine ih (t := { t with table := t.table ++ t.tasksToWriteToDB, tasksToWriteToDB := [] }) ⟨?_, rfl⟩
    rw [h.none, append_nil]
    exact h.table

/-- A MySQL writer that keeps nothing panics when it is flushed, so it can be flushed once. -/
theorem of_flushes {t' : TraceWriter τ} {n : Nat} (h : Batched b batchSize written t) (hrun : b.flushes (n + 1) t = .ok t') :
    b = mysql → n = 0 ∧ written.length % batch batchSize ≠ 0 := by
  rintro rfl
  obtain ⟨t₁, hflush, hmore⟩ := eq_ok_of_bind hrun
  have hsome : written.length % batch batchSize ≠ 0 := by
    intro hnone
    have hnil : t.tasksToWriteToDB = [] := length_eq_zero_iff.mp ((h.kept rfl).trans hnone)
    rw [flush_mysql_nil hnil] at hflush
    cases hflush
  refine ⟨?_, hsome⟩
  cases n with
  | zero => rfl
  | succ =>
    obtain ⟨t₁', hflush', hempty⟩ := flush_ok h fun _ => hsome
    obtain rfl : t₁ = t₁' := Except.ok.inj (hflush.symm.trans hflush')
    obtain ⟨_, hagain, -⟩ := eq_ok_of_bind hmore
    rw [flush_mysql_nil hempty.none] at hagain
    cases hagain

theorem flushes_ok (h : Batched b batchSize written t) {n : Nat}
    (hcond : b = mysql → n = 0 ∧ written.length % batch batchSize ≠ 0) :
    Succeeds (Flushed written) (b.flushes (n + 1) t) := by
  refine (flush_ok h fun hb => (hcond hb).2).bind fun t₁ ht₁ => ?_
  cases b with
  | sqlite => exact flushes_sqlite_ok ht₁ n
  | mysql =>
    rw [(hcond rfl).1]
    exact .ok ht₁

end Backend

end Akita.Tracing
