import Akita.DataRecording.DataRecorder
import Akita.Multisets

/-!
# Nothing is lost

When the rows of every table, followed by what is buffered for it, are what has been inserted into it.

* `Lossless` : the law. `History` : what calls ask for, without the writer;
* `values_eq_ok`, `flushTable_eq_ok`, `createTable_eq_ok`, `flush_eq_ok` : when a call returns, and what;
* `recorder_lossless_iff` : a flush with pending entries must find pending entries for every table.
-/

namespace Akita.DataRecording
open List
open Except (ok)
open Prod (fst mk snd)

variable {V : Type}

/-! ## The law -/

/-- The values of the fields that are not ignored. -/
def Entry.row (e : Entry V) : List V := ((e.type.fields.zip e.values).filter fun field => !fieldIgnored field.1).map snd

/-- The rows for a table. -/
def rowsOf (tableName : String) (inserted : List (String × Entry V)) : List (List V) :=
  (inserted.filter fun x => x.1 = tableName).map fun x => x.2.row

def Call.inserted : Call V → List (String × Entry V)
  | .insertData tableName entry => [(tableName, entry)]
  | _ => []

namespace Writer

/-- The rows that are buffered for a table. -/
def buffered (w : Writer V) (tableName : String) : List (List V) :=
  (w.tables.filter fun table => table.name = tableName).flatMap fun table => table.entries.map Entry.row

/-- What has been inserted is in the database or buffered. -/
structure Kept (w : Writer V) (inserted : List (String × Entry V)) : Prop where
  rows : ∀ tableName, w.db.table tableName ++ w.buffered tableName = rowsOf tableName inserted
  entryCount : w.entryCount = ((w.tables.map fun table => table.entries.length).sum : ℕ)

/-- What has been inserted is in the database. -/
structure Written (w : Writer V) (inserted : List (String × Entry V)) : Prop where
  rows : ∀ tableName, w.db.table tableName = rowsOf tableName inserted
  entries : ∀ table ∈ w.tables, table.entries = []

/-- The calls that flush. -/
def flushes (w : Writer V) : Call V → Prop
  | .createTable _ _ => False
  | .insertData _ _ => w.batchSize ≤ w.entryCount + 1
  | .flush => True

end Writer

/-- No call panics, nothing is lost or written twice, and after each flush everything is written. -/
def Lossless (sql : SQL) (it : MapOrder (Table V)) (w : Writer V) (inserted : List (String × Entry V)) : List (Call V) → Prop
  | [] => w.Kept inserted
  | c :: calls => w.Kept inserted ∧
      ∃ w', w.call sql it c = .ok w' ∧ (w.flushes c → w'.Written (inserted ++ c.inserted)) ∧
      Lossless sql it w' (inserted ++ c.inserted) calls

/-- Entries are inserted into tables that have been created, for their type. -/
def Typed (created : List (String × StructType)) : List (Call V) → Prop
  | [] => True
  | .createTable tableName sampleEntry :: calls => Typed ((tableName, sampleEntry.type) :: created) calls
  | .insertData tableName entry :: calls => (tableName, entry.type) ∈ created ∧ Typed created calls
  | .flush :: calls => Typed created calls

/-! ## What the calls ask for -/

namespace StructType

/-- Each field has one of the tags, and one of the kinds if it is not ignored. -/
def Recordable (sType : StructType) : Prop :=
  ∀ field ∈ sType.fields, field.tag ∈ [none, some "ignore", some "unique", some "index"] ∧
    (fieldIgnored field = false → isAllowedType field.kind = true)

/-- The fields that are not ignored can be read. -/
def Exported (sType : StructType) : Prop := ∀ field ∈ sType.fields, fieldIgnored field = false → field.pkgPath = ""

end StructType

def index (tableName : String) (field : StructField) : Option String :=
  match field.tag with
  | some "unique" => some (indexSQL tableName field.name true)
  | some "index" => some (indexSQL tableName field.name false)
  | _ => none

/-- The statements that create a table. -/
def schema (tableName : String) (sType : StructType) : List String :=
  createTableSQL tableName (getFieldNames sType) :: sType.fields.filterMap (index tableName)

def Accepted (sql : SQL) (executed : List String) : List String → Prop
  | [] => True
  | query :: queries => sql.accepts executed query = true ∧ Accepted sql (executed ++ [query]) queries

/-- The statements that have been executed, the tables, and what has been inserted before and since the last flush. -/
structure History (V : Type) where
  executed : List String
  created : List (String × StructType) := []
  written : List (String × Entry V) := []
  pending : List (String × Entry V) := []

namespace History

/-- Each table has pending entries. -/
def Due (h : History V) : Prop := ∀ table ∈ h.created, table.2.Exported ∧ ∃ x ∈ h.pending, x.1 = table.1

def flushed (h : History V) : History V :=
  { h with executed := h.executed ++ ["BEGIN TRANSACTION", "COMMIT TRANSACTION"], written := h.written ++ h.pending,
           pending := [] }

def create (h : History V) (tableName : String) (sType : StructType) : History V :=
  { h with executed := h.executed ++ schema tableName sType, created := (tableName, sType) :: h.created }

def insert (h : History V) (tableName : String) (entry : Entry V) : History V :=
  { h with pending := h.pending ++ [(tableName, entry)] }

def next (batchSize : ℤ) (h : History V) : Call V → History V
  | .createTable tableName sampleEntry => h.create tableName sampleEntry.type
  | .insertData tableName entry =>
    if batchSize ≤ (h.insert tableName entry).pending.length then (h.insert tableName entry).flushed
      else h.insert tableName entry
  | .flush => if h.pending = [] then h else h.flushed

/-- When a call returns. -/
def Allows (sql : SQL) (batchSize : ℤ) (h : History V) : Call V → Prop
  | .createTable tableName sampleEntry =>
    sampleEntry.type.Recordable ∧ Accepted sql h.executed (schema tableName sampleEntry.type)
  | .insertData tableName entry => batchSize ≤ (h.insert tableName entry).pending.length → (h.insert tableName entry).Due
  | .flush => h.pending ≠ [] → h.Due

end History

/-- Each call returns. -/
def Ready (sql : SQL) (batchSize : ℤ) (h : History V) : List (Call V) → Prop
  | [] => True
  | c :: calls => h.Allows sql batchSize c ∧ Ready sql batchSize (h.next batchSize c) calls

/-! ## When a call returns -/

theorem mustHaveAtMostOneTag_eq_ok (field : StructField) :
    mustHaveAtMostOneTag field = .ok () ↔ field.tag ∈ [none, some "ignore", some "unique", some "index"] := by
  unfold mustHaveAtMostOneTag
  cases field.tag with
  | none => exact ⟨fun _ => mem_cons_self, fun _ => rfl⟩
  | some =>
    dsimp only
    split_ifs with hignore hunique hindex <;> simp_all [pure, Except.pure]

theorem checkStructFields_eq_ok (sType : StructType) : checkStructFields sType = .ok () ↔ sType.Recordable := by
  unfold checkStructFields StructType.Recordable
  induction sType.fields with
  | nil => exact ⟨fun _ _ hfield => absurd hfield not_mem_nil, fun _ => rfl⟩
  | cons field _ ih =>
    rw [forM_cons, forall_mem_cons, ← ih]
    constructor
    · intro h
      obtain ⟨⟨⟩, hfield, hfields⟩ := eq_ok_of_bind h
      obtain ⟨⟨⟩, htag, hkind⟩ := eq_ok_of_bind hfield
      refine ⟨⟨(mustHaveAtMostOneTag_eq_ok field).1 htag, fun hnot => ?_⟩, hfields⟩
      rw [hnot] at hkind
      by_contra hallowed
      rw [Bool.not_eq_true] at hallowed
      rw [hallowed] at hkind
      cases hkind
    · rintro ⟨⟨htag, hkind⟩, hfields⟩
      rw [(mustHaveAtMostOneTag_eq_ok field).2 htag]
      cases hignored : fieldIgnored field with
      | true => exact hfields
      | false =>
        rw [hkind hignored]
        exact hfields

theorem length_row (e : Entry V) : e.row.length = (getFieldNames e.type).length := by
  have hfields : (e.type.fields.zip e.values).map fst = e.type.fields := map_fst_zip e.complete.ge
  unfold Entry.row getFieldNames
  rw [length_map, length_map]
  conv_rhs => rw [← hfields, filter_map, length_map]
  rfl

theorem interface_eq_ok (field : StructField) (value v : V) :
    interface field value = .ok v ↔ field.pkgPath = "" ∧ v = value := by
  unfold interface
  by_cases h : field.pkgPath = ""
  · rw [if_pos h]
    exact ⟨fun heq => ⟨h, (ok.inj heq).symm⟩, fun hv => congrArg ok hv.2.symm⟩
  · rw [if_neg h]
    exact ⟨fun heq => (nomatch heq), fun hv => absurd hv.1 h⟩

theorem values_eq_ok (task : Entry V) (v : List V) : values task = .ok v ↔ task.type.Exported ∧ v = task.row := by
  have hstep : ∀ field ∈ task.type.fields.zip task.values, ∀ a b : List V,
      (if fieldIgnored field.1 then pure a else do
        let value ← interface field.1 field.2
        pure (a ++ [value]) : Except String (List V)) = .ok b ↔
      (fieldIgnored field.1 = false → field.1.pkgPath = "") ∧ b = a ++ (if fieldIgnored field.1 then [] else [field.2]) := by
    intro field _ a b
    cases fieldIgnored field.1 with
    | true =>
      rw [if_pos rfl, if_pos rfl, append_nil]
      exact ⟨fun heq => ⟨fun h => (nomatch h), (ok.inj heq).symm⟩, fun h => congrArg ok h.2.symm⟩
    | false =>
      rw [if_neg Bool.false_ne_true, if_neg Bool.false_ne_true]
      constructor
      · intro heq
        obtain ⟨_, hvalue, hb⟩ := eq_ok_of_bind heq
        obtain ⟨hpath, hsame⟩ := (interface_eq_ok _ _ _).1 hvalue
        rw [hsame] at hb
        exact ⟨fun _ => hpath, (ok.inj hb).symm⟩
      · rintro ⟨hpath, rfl⟩
        rw [(interface_eq_ok ..).2 ⟨hpath rfl, rfl⟩]
        rfl
  have hfields : (task.type.fields.zip task.values).map fst = task.type.fields := map_fst_zip task.complete.ge
  have hexported : (∀ field ∈ task.type.fields.zip task.values, fieldIgnored field.1 = false → field.1.pkgPath = "") ↔
      task.type.Exported := by
    unfold StructType.Exported
    have hmap := forall_mem_map (f := fst) (l := task.type.fields.zip task.values)
      (P := fun field => fieldIgnored field = false → field.pkgPath = "")
    rw [hfields] at hmap
    exact hmap.symm
  have hfold : ∀ (l : List (StructField × V)) (a : List V),
      l.foldl (fun a field => a ++ (if fieldIgnored field.1 then [] else [field.2])) a =
      a ++ (l.filter fun field => !fieldIgnored field.1).map snd := by
    intro l
    induction l with
    | nil => exact fun a => (append_nil a).symm
    | cons field _ ih =>
      intro a
      rw [foldl_cons, ih, append_assoc]
      cases hignored : fieldIgnored field.1 <;> simp [hignored]
  unfold values
  rw [foldlM_eq_ok_iff hstep, hexported, hfold, nil_append]
  rfl

/-- The rows of a table's entries. -/
def Table.rows (table : Table V) : List (String × List V) := table.entries.map fun e => (table.name, e.row)

theorem insertEntry_eq_ok {table : Table V} {sampleEntry task : Entry V} (hsample : sampleEntry.type = table.structType)
    (htask : task.type = table.structType) (db db' : Database V) :
    insertEntry (prepareStatement table.name sampleEntry) table.structType db task = .ok db' ↔
      table.structType.Exported ∧ db' = { db with rows := db.rows ++ [(table.name, task.row)] } := by
  have hexec : db.exec (prepareStatement table.name sampleEntry) task.row =
      .ok { db with rows := db.rows ++ [(table.name, task.row)] } := by
    refine if_pos ?_
    rw [length_row, htask, ← hsample]
    exact (length_map ..).symm
  unfold insertEntry
  rw [if_neg (not_not.2 htask)]
  constructor
  · intro h
    obtain ⟨v, hv, hdb⟩ := eq_ok_of_bind h
    obtain ⟨hexported, rfl⟩ := (values_eq_ok task v).1 hv
    rw [hexec] at hdb
    exact ⟨htask ▸ hexported, (ok.inj hdb).symm⟩
  · rintro ⟨hexported, rfl⟩
    rw [(values_eq_ok task _).2 ⟨htask.symm ▸ hexported, rfl⟩]
    exact hexec

theorem foldl_rows {α : Type} (rows : α → List (String × List V)) (l : List α) (db : Database V) :
    l.foldl (fun db x => { db with rows := db.rows ++ rows x }) db = { db with rows := db.rows ++ l.flatMap rows } := by
  induction l generalizing db with
  | nil => simp
  | cons _ _ ih => simp [ih]

theorem flushTable_eq_ok {table : Table V} (h : ∀ e ∈ table.entries, e.type = table.structType) (db db' : Database V) :
    flushTable db table = .ok db' ↔ (table.structType.Exported ∧ table.entries ≠ []) ∧
    db' = { db with rows := db.rows ++ table.rows } := by
  unfold flushTable
  cases hentries : table.entries with
  | nil => exact ⟨fun heq => (nomatch heq), fun heq => absurd rfl heq.1.2⟩
  | cons sampleEntry entries =>
    rw [hentries] at h
    have hstep : ∀ task ∈ sampleEntry :: entries, ∀ a b : Database V,
        insertEntry (prepareStatement table.name sampleEntry) table.structType a task = .ok b ↔
          table.structType.Exported ∧ b = { a with rows := a.rows ++ [(table.name, task.row)] } :=
      fun task htask a b => insertEntry_eq_ok (h sampleEntry mem_cons_self) (h task htask) a b
    have hrows : table.rows = (sampleEntry :: entries).flatMap fun task => [(table.name, task.row)] := by
      unfold Table.rows
      rw [hentries, map_eq_flatMap]
    dsimp only
    rw [foldlM_eq_ok_iff hstep, foldl_rows, hrows]
    refine and_congr_left fun _ => ⟨fun hall => ⟨hall sampleEntry mem_cons_self, cons_ne_nil _ _⟩, fun hall _ _ => hall.1⟩

theorem inTransaction_concat (executed : List String) (query : String) : inTransaction (executed ++ [query]) =
    if query = "BEGIN TRANSACTION" then true else if query = "COMMIT TRANSACTION" then false else inTransaction executed := by
  unfold inTransaction
  rw [foldl_append]
  rfl

theorem mustExecute_eq_ok (sql : SQL) (db db' : Database V) (query : String) :
    db.mustExecute sql query = .ok db' ↔ sql.accepts db.executed query = true ∧
    db' = { db with executed := db.executed ++ [query] } := by
  unfold Database.mustExecute
  by_cases h : sql.accepts db.executed query = true
  · rw [if_pos h]
    exact ⟨fun heq => ⟨h, (ok.inj heq).symm⟩, fun hdb => congrArg ok hdb.2.symm⟩
  · rw [if_neg h]
    exact ⟨fun heq => (nomatch heq), fun hdb => absurd hdb.1 h⟩

theorem createIndexes_eq_ok (sql : SQL) (tableName : String) (fields : List StructField) (db db' : Database V) :
    fields.foldlM (createIndex sql tableName) db = .ok db' ↔ Accepted sql db.executed (fields.filterMap (index tableName)) ∧
      db' = { db with executed := db.executed ++ fields.filterMap (index tableName) } := by
  induction fields generalizing db with
  | nil =>
    constructor
    · intro h
      cases h
      exact ⟨trivial, by simp⟩
    · rintro ⟨-, rfl⟩
      simp [pure, Except.pure]
  | cons field _ ih =>
    have hfield : createIndex sql tableName db field = (index tableName field).elim (.ok db) (db.mustExecute sql) := by
      unfold createIndex index
      split <;> simp_all [pure, Except.pure]
    rw [foldlM_cons, hfield]
    cases hindex : index tableName field with
    | none =>
      rw [filterMap_cons_none hindex]
      exact ih db
    | some =>
      rw [filterMap_cons_some hindex]
      constructor
      · intro h
        obtain ⟨_, hquery, hrest⟩ := eq_ok_of_bind h
        obtain ⟨haccept, rfl⟩ := (mustExecute_eq_ok ..).1 hquery
        obtain ⟨hall, rfl⟩ := (ih _).1 hrest
        exact ⟨⟨haccept, hall⟩, by simp⟩
      · rintro ⟨⟨haccept, hall⟩, rfl⟩
        rw [Option.elim_some, (mustExecute_eq_ok ..).2 ⟨haccept, rfl⟩]
        exact (ih _).2 ⟨hall, by simp⟩

theorem createTable_eq_ok (sql : SQL) (w w' : Writer V) (tableName : String) (sampleEntry : Entry V) :
    w.createTable sql tableName sampleEntry = .ok w' ↔
      (sampleEntry.type.Recordable ∧ Accepted sql w.db.executed (schema tableName sampleEntry.type)) ∧
      w' = { w with
        db := { w.db with executed := w.db.executed ++ schema tableName sampleEntry.type }
        tables := Keyed.insert Table.name { name := tableName, structType := sampleEntry.type } w.tables } := by
  unfold Writer.createTable createIndexesForTable schema
  constructor
  · intro h
    obtain ⟨⟨⟩, hcheck, h⟩ := eq_ok_of_bind h
    obtain ⟨_, hcreate, h⟩ := eq_ok_of_bind h
    obtain ⟨_, hindexes, h⟩ := eq_ok_of_bind h
    obtain ⟨haccept, rfl⟩ := (mustExecute_eq_ok ..).1 hcreate
    obtain ⟨hall, rfl⟩ := (createIndexes_eq_ok ..).1 hindexes
    cases h
    exact ⟨⟨(checkStructFields_eq_ok _).1 hcheck, haccept, hall⟩, by simp⟩
  · rintro ⟨⟨hcheck, haccept, hall⟩, rfl⟩
    rw [(checkStructFields_eq_ok _).2 hcheck]
    show (w.db.mustExecute sql _ >>= _) = _
    rw [(mustExecute_eq_ok ..).2 ⟨haccept, rfl⟩]
    show (foldlM (createIndex sql tableName) _ _ >>= _) = _
    rw [(createIndexes_eq_ok ..).2 ⟨hall, rfl⟩]
    simp [bind, Except.bind, pure, Except.pure]

/-- A writer whose buffers are in the database. -/
def Writer.emptied (it : MapOrder (Table V)) (w : Writer V) : Writer V :=
  { w with
    db :=
      { executed := w.db.executed ++ ["BEGIN TRANSACTION", "COMMIT TRANSACTION"]
        rows := w.db.rows ++ (it.order w.tables).flatMap Table.rows }
    tables := w.tables.map fun table => { table with entries := [] }
    entryCount := 0 }

theorem flush_eq_ok (sql : SQL) (it : MapOrder (Table V)) {w w' : Writer V}
    (htypes : ∀ table ∈ w.tables, ∀ e ∈ table.entries, e.type = table.structType)
    (hsettled : inTransaction w.db.executed = false) (hcount : w.entryCount ≠ 0) :
    w.flush sql it = .ok w' ↔ (∀ table ∈ w.tables, table.structType.Exported ∧ table.entries ≠ []) ∧ w' = w.emptied it := by
  have hmem : ∀ table, table ∈ it.order w.tables ↔ table ∈ w.tables := fun table => (it.perm w.tables).mem_iff
  have hstep : ∀ table ∈ it.order w.tables, ∀ a b : Database V, flushTable a table = .ok b ↔
      (table.structType.Exported ∧ table.entries ≠ []) ∧ b = { a with rows := a.rows ++ table.rows } :=
    fun table htable a b => flushTable_eq_ok (htypes table ((hmem table).1 htable)) a b
  have hbegin := sql.begins _ hsettled
  have hopen : inTransaction (w.db.executed ++ ["BEGIN TRANSACTION"]) = true := by
    rw [inTransaction_concat, if_pos rfl]
  have hcommit := sql.commits _ hopen
  unfold Writer.flush
  rw [if_neg hcount, (mustExecute_eq_ok ..).2 ⟨hbegin, rfl⟩]
  show (foldlM flushTable _ _ >>= _) = _ ↔ _
  constructor
  · intro h
    obtain ⟨_, htables, h⟩ := eq_ok_of_bind h
    obtain ⟨_, hend, h⟩ := eq_ok_of_bind h
    obtain ⟨hall, rfl⟩ := (foldlM_eq_ok_iff hstep _ _).1 htables
    rw [foldl_rows] at hend
    obtain ⟨-, rfl⟩ := (mustExecute_eq_ok ..).1 hend
    cases h
    exact ⟨fun table htable => hall table ((hmem table).2 htable), by simp [Writer.emptied]⟩
  · rintro ⟨hall, rfl⟩
    rw [(foldlM_eq_ok_iff hstep _ _).2 ⟨fun table htable => hall table ((hmem table).1 htable), rfl⟩, foldl_rows]
    show (Database.mustExecute sql _ _ >>= _) = _
    rw [(mustExecute_eq_ok ..).2 ⟨hcommit, rfl⟩]
    simp [Writer.emptied, bind, Except.bind, pure, Except.pure]

/-! ## The writer follows what was asked for -/

/-- Where a writer stands after these calls. -/
structure Tracks (batchSize : ℤ) (h : History V) (w : Writer V) : Prop where
  executed : w.db.executed = h.executed
  settled : inTransaction h.executed = false
  schemas : ∀ table ∈ h.created, createTableSQL table.1 (getFieldNames table.2) ∈ h.executed
  nodup : (w.tables.map Table.name).Nodup
  created : w.tables.map (fun table => (table.name, table.structType)) = h.created
  typed : ∀ x ∈ h.pending, (x.1, x.2.type) ∈ h.created
  entries : ∀ table ∈ w.tables, table.entries = (h.pending.filter fun x => x.1 = table.name).map snd
  rows : ∀ tableName, w.db.table tableName = rowsOf tableName h.written
  batchSize : w.batchSize = batchSize
  entryCount : w.entryCount = h.pending.length

theorem ne_begin_of_create (rest : String) : "CREATE " ++ rest ≠ "BEGIN TRANSACTION" := by
  intro h
  have hlist := congrArg String.toList h
  rw [String.toList_append] at hlist
  have hhead := congrArg head? hlist
  have hcreate : "CREATE ".toList.head? = some 'C' := by decide
  have hbegin : "BEGIN TRANSACTION".toList.head? = some 'B' := by decide
  rw [head?_append, hcreate, hbegin, Option.some_or] at hhead
  exact absurd hhead (by decide)

theorem createTableSQL_ne_begin (tableName : String) (fieldNames : List String) :
    createTableSQL tableName fieldNames ≠ "BEGIN TRANSACTION" := by
  have hsplit : "CREATE TABLE " = "CREATE " ++ "TABLE " := by decide
  unfold createTableSQL
  rw [hsplit]
  simp only [String.append_assoc]
  exact ne_begin_of_create _

theorem indexSQL_ne_begin (tableName fieldName : String) (unique : Bool) :
    indexSQL tableName fieldName unique ≠ "BEGIN TRANSACTION" := by
  unfold indexSQL
  simp only [String.append_assoc]
  exact ne_begin_of_create _

theorem ne_begin_of_mem_schema {tableName query : String} {sType : StructType} (h : query ∈ schema tableName sType) :
    query ≠ "BEGIN TRANSACTION" := by
  rcases mem_cons.1 h with rfl | h
  · exact createTableSQL_ne_begin _ _
  · obtain ⟨_, -, hindex⟩ := mem_filterMap.1 h
    unfold index at hindex
    split at hindex
    · cases hindex
      exact indexSQL_ne_begin _ _ _
    · cases hindex
      exact indexSQL_ne_begin _ _ _
    · cases hindex

theorem inTransaction_append {executed queries : List String} (h : inTransaction executed = false)
    (hqueries : ∀ query ∈ queries, query ≠ "BEGIN TRANSACTION") :
    inTransaction (executed ++ queries) = false := by
  induction queries generalizing executed with
  | nil => rwa [append_nil]
  | cons _ _ ih =>
    obtain ⟨hquery, hrest⟩ := forall_mem_cons.1 hqueries
    rw [append_cons]
    refine ih ?_ hrest
    rw [inTransaction_concat, if_neg hquery, h, ite_self]

theorem rowsOf_append (tableName : String) (l l' : List (String × Entry V)) :
    rowsOf tableName (l ++ l') = rowsOf tableName l ++ rowsOf tableName l' := by
  unfold rowsOf
  rw [filter_append, map_append]

theorem table_flatMap (tableName : String) (tables : List (Table V)) :
    ((tables.flatMap Table.rows).filter fun row => row.1 = tableName).map snd =
      (tables.filter fun table => table.name = tableName).flatMap fun table => table.entries.map Entry.row := by
  induction tables with
  | nil => rfl
  | cons table _ ih =>
    rw [flatMap_cons, filter_append, map_append, ih]
    by_cases h : table.name = tableName
    · have hall : table.rows.filter (fun row => row.1 = tableName) = table.rows := by
        refine filter_eq_self.2 fun row hrow => ?_
        obtain ⟨e, -, rfl⟩ := mem_map.1 hrow
        exact decide_eq_true h
      have hrows : table.rows.map snd = table.entries.map Entry.row := map_map ..
      rw [filter_cons_of_pos (by simpa using h), flatMap_cons, hall, hrows]
    · have hnone : table.rows.filter (fun row => row.1 = tableName) = [] := by
        refine filter_eq_nil_iff.2 fun row hrow => ?_
        obtain ⟨_, -, rfl⟩ := mem_map.1 hrow
        simpa using h
      rw [filter_cons_of_neg (by simpa using h), hnone, map_nil, nil_append]

namespace Tracks

variable {batchSize : ℤ} {h : History V} {w w' : Writer V}

section
variable (ht : Tracks batchSize h w)
include ht

theorem mem_created {x : String × StructType} : x ∈ h.created ↔ ∃ table ∈ w.tables, (table.name, table.structType) = x := by
  rw [← ht.created, mem_map]

theorem types : ∀ table ∈ w.tables, ∀ e ∈ table.entries, e.type = table.structType := by
  intro table htable e he
  rw [ht.entries table htable] at he
  obtain ⟨x, hx, rfl⟩ := mem_map.1 he
  obtain ⟨hpending, hname⟩ := mem_filter.1 hx
  obtain ⟨table', htable', heq⟩ := ht.mem_created.1 (ht.typed x hpending)
  obtain ⟨hname', htype⟩ := mk.inj heq
  have hsame : table' = table := inj_on_of_nodup_map ht.nodup htable' htable (hname'.trans (of_decide_eq_true hname))
  rw [← htype, hsame]

theorem buffered (tableName : String) : w.buffered tableName = rowsOf tableName h.pending := by
  unfold Writer.buffered
  rw [Keyed.filter_eq_toList ht.nodup]
  cases hlookup : Keyed.lookup Table.name tableName w.tables with
  | none =>
    have hnone : h.pending.filter (fun x => x.1 = tableName) = [] := by
      refine filter_eq_nil_iff.2 fun x hx hname => ?_
      obtain ⟨table, htable, heq⟩ := ht.mem_created.1 (ht.typed x hx)
      refine Keyed.lookup_eq_none hlookup ?_
      rw [← of_decide_eq_true hname, ← (mk.inj heq).1]
      exact mem_map_of_mem htable
    unfold rowsOf
    rw [hnone]
    rfl
  | some table =>
    rw [Option.toList_some, flatMap_singleton, ht.entries table (Keyed.mem_of_lookup hlookup), Keyed.key_of_lookup hlookup,
      map_map]
    rfl

theorem kept : w.Kept (h.written ++ h.pending) := by
  refine ⟨fun tableName => ?_, ?_⟩
  · rw [ht.rows, ht.buffered, rowsOf_append]
  · have hlengths : (w.tables.map fun table => table.entries.length) =
        w.tables.map fun table => h.pending.countP fun x => x.1 = table.name := by
      refine map_congr_left fun table htable => ?_
      rw [ht.entries table htable, length_map, countP_eq_length_filter]
    have hone : ∀ x ∈ h.pending, (w.tables.countP fun table => x.1 = table.name) = 1 := by
      intro x hx
      obtain ⟨_, htable, heq⟩ := ht.mem_created.1 (ht.typed x hx)
      have hlookup := Keyed.lookup_eq_some ht.nodup htable
      rw [(mk.inj heq).1] at hlookup
      have hfilter := Keyed.filter_eq_toList ht.nodup x.1
      rw [hlookup] at hfilter
      simp only [eq_comm (a := x.1), countP_eq_length_filter, hfilter]
      rfl
    rw [ht.entryCount, hlengths, sum_countP_comm, map_congr_left hone, map_const', sum_replicate,
      Nat.nsmul_eq_mul, Nat.mul_one]

theorem due_iff : h.Due ↔ ∀ table ∈ w.tables, table.structType.Exported ∧ table.entries ≠ [] := by
  unfold History.Due
  rw [← ht.created, forall_mem_map]
  refine forall₂_congr fun table htable => and_congr_right fun _ => ?_
  rw [ht.entries table htable, Ne, map_eq_nil_iff, filter_eq_nil_iff]
  simp

/-- What a flush leaves. -/
theorem emptied (it : MapOrder (Table V)) : Tracks batchSize h.flushed (w.emptied it) where
  executed := congrArg (· ++ _) ht.executed
  settled := by
    show inTransaction (h.executed ++ ["BEGIN TRANSACTION", "COMMIT TRANSACTION"]) = false
    rw [append_cons, inTransaction_concat, if_neg (by decide), if_pos rfl]
  schemas := fun table htable => mem_append_left _ (ht.schemas table htable)
  nodup := by
    show ((w.tables.map _).map Table.name).Nodup
    rw [map_map]
    exact ht.nodup
  created := by
    show (w.tables.map _).map _ = h.created
    rw [map_map]
    exact ht.created
  typed := forall_mem_nil _
  entries := by
    intro table htable
    obtain ⟨table, -, rfl⟩ := mem_map.1 htable
    rfl
  rows := by
    intro tableName
    have hsame : (it.order w.tables).filter (fun table => table.name = tableName) =
        w.tables.filter fun table => table.name = tableName := by
      have hperm := (it.perm w.tables).filter fun table => table.name = tableName
      rw [Keyed.filter_eq_toList ht.nodup] at hperm ⊢
      cases hlookup : Keyed.lookup Table.name tableName w.tables with
      | none =>
        rw [hlookup] at hperm
        exact perm_nil.1 hperm
      | some =>
        rw [hlookup] at hperm
        exact perm_singleton.1 hperm
    show ((w.db.rows ++ _).filter _).map snd = rowsOf tableName (h.written ++ h.pending)
    rw [filter_append, map_append, table_flatMap, hsame, rowsOf_append, ← ht.buffered, ← ht.rows]
    rfl
  batchSize := ht.batchSize
  entryCount := rfl

theorem flush_eq_ok (sql : SQL) (it : MapOrder (Table V)) :
    w.flush sql it = .ok w' ↔ (h.pending ≠ [] → h.Due) ∧ w' = if h.pending = [] then w else w.emptied it := by
  have hcount : w.entryCount = 0 ↔ h.pending = [] := by rw [ht.entryCount, Int.natCast_eq_zero, length_eq_zero_iff]
  by_cases hpending : h.pending = []
  · unfold Writer.flush
    rw [if_pos (hcount.2 hpending), if_pos hpending]
    exact ⟨fun heq => ⟨fun hne => absurd hpending hne, (ok.inj heq).symm⟩, fun heq => congrArg ok heq.2.symm⟩
  · have hsettled : inTransaction w.db.executed = false := ht.executed ▸ ht.settled
    rw [DataRecording.flush_eq_ok sql it ht.types hsettled (mt hcount.1 hpending), if_neg hpending, ← ht.due_iff]
    exact and_congr_left fun _ => ⟨fun hdue _ => hdue, fun hdue => hdue hpending⟩

end

variable {tableName : String}

section
variable (ht : Tracks batchSize h w)
include ht

theorem notMem_names {sql : SQL} {sType : StructType}
    (haccept : Accepted sql h.executed (schema tableName sType)) : tableName ∉ w.tables.map Table.name := by
  intro hmem
  obtain ⟨table, htable, rfl⟩ := mem_map.1 hmem
  have hcreated := ht.schemas _ (ht.mem_created.2 ⟨table, htable, rfl⟩)
  have hreject := sql.unique h.executed table.name _ (getFieldNames sType) hcreated
  have htrue := haccept.1
  rw [hreject] at htrue
  cases htrue

theorem create {sql : SQL} {sType : StructType}
    (haccept : Accepted sql h.executed (schema tableName sType)) : Tracks batchSize (h.create tableName sType) { w with
      db := { w.db with executed := w.db.executed ++ schema tableName sType }
      tables := Keyed.insert Table.name { name := tableName, structType := sType } w.tables } := by
  have hnew := ht.notMem_names haccept
  have hinsert : Keyed.insert Table.name { name := tableName, structType := sType } w.tables =
      { name := tableName, structType := sType } :: w.tables :=
    congrArg _ (Keyed.delete_eq_self hnew)
  rw [hinsert]
  refine ⟨congrArg (· ++ _) ht.executed, inTransaction_append ht.settled fun _ => ne_begin_of_mem_schema, ?_,
    nodup_cons.2 ⟨hnew, ht.nodup⟩,
    congrArg _ ht.created, fun x hx => mem_cons_of_mem _ (ht.typed x hx), ?_, ht.rows, ht.batchSize, ht.entryCount⟩
  · intro table htable
    rcases mem_cons.1 htable with rfl | htable
    · exact mem_append_right _ mem_cons_self
    · exact mem_append_left _ (ht.schemas table htable)
  · intro table htable
    rcases mem_cons.1 htable with rfl | htable
    · have hnone : h.pending.filter (fun x => x.1 = tableName) = [] := by
        refine filter_eq_nil_iff.2 fun x hx hname => hnew ?_
        obtain ⟨table, htable, heq⟩ := ht.mem_created.1 (ht.typed x hx)
        rw [← of_decide_eq_true hname, ← (mk.inj heq).1]
        exact mem_map_of_mem htable
      exact (congrArg (map snd) hnone).symm
    · exact ht.entries table htable

theorem append {entry : Entry V} (htyped : (tableName, entry.type) ∈ h.created) :
    Tracks batchSize (h.insert tableName entry) (w.append tableName entry) where
  executed := ht.executed
  settled := ht.settled
  schemas := ht.schemas
  nodup := by
    have hnames : (w.append tableName entry).tables.map Table.name = w.tables.map Table.name := by
      show (w.tables.map _).map Table.name = _
      rw [map_map]
      refine map_congr_left fun table _ => ?_
      show (if _ then _ else _ : Table V).name = table.name
      split <;> rfl
    rw [hnames]
    exact ht.nodup
  created := by
    show (w.tables.map _).map _ = h.created
    rw [map_map, ← ht.created]
    refine map_congr_left fun table _ => ?_
    dsimp only [Function.comp]
    split <;> rfl
  typed := by
    exact forall_mem_append.mpr ⟨ht.typed, forall_mem_singleton.mpr htyped⟩
  entries := by
    intro table htable
    obtain ⟨table, hmem, rfl⟩ := mem_map.1 htable
    show _ = ((h.pending ++ [(tableName, entry)]).filter _).map snd
    by_cases hname : table.name = tableName
    · rw [if_pos hname, filter_append, map_append, ← ht.entries table hmem, filter_cons_of_pos (by simpa using hname.symm)]
      rfl
    · rw [if_neg hname, filter_append, map_append, ← ht.entries table hmem, filter_cons_of_neg (by simpa using Ne.symm hname)]
      exact (append_nil _).symm
  rows := ht.rows
  batchSize := ht.batchSize
  entryCount := by
    show w.entryCount + 1 = ((h.pending ++ [(tableName, entry)]).length : ℕ)
    rw [ht.entryCount, length_append]
    rfl

theorem insertData_eq_ok (sql : SQL) (it : MapOrder (Table V)) {entry : Entry V}
    (htyped : (tableName, entry.type) ∈ h.created) :
    w.insertData sql it tableName entry = .ok w' ↔ h.Allows sql batchSize (.insertData tableName entry) ∧
      w' = if batchSize ≤ (h.insert tableName entry).pending.length then (w.append tableName entry).emptied it
        else w.append tableName entry := by
  have happend := ht.append htyped
  have hpending : (h.insert tableName entry).pending ≠ [] := append_ne_nil_of_right_ne_nil _ (cons_ne_nil _ _)
  have hlookup : ∃ table, Keyed.lookup Table.name tableName w.tables = some table := by
    obtain ⟨table, htable, heq⟩ := ht.mem_created.1 htyped
    exact ⟨table, (mk.inj heq).1 ▸ Keyed.lookup_eq_some ht.nodup htable⟩
  obtain ⟨_, hlookup⟩ := hlookup
  unfold Writer.insertData
  rw [hlookup]
  dsimp only [History.Allows]
  rw [happend.entryCount, happend.batchSize]
  by_cases hfull : batchSize ≤ (h.insert tableName entry).pending.length
  · rw [if_pos hfull, if_pos hfull, happend.flush_eq_ok sql it, if_neg hpending]
    exact and_congr_left fun _ => ⟨fun hdue _ => hdue hpending, fun hdue _ => hdue hfull⟩
  · rw [if_neg hfull, if_neg hfull]
    exact ⟨fun heq => ⟨fun hle => absurd hle hfull, (ok.inj heq).symm⟩, fun heq => congrArg ok heq.2.symm⟩

/-- A call returns when it is allowed, and the writer is then where it should be. -/
theorem call (sql : SQL) (it : MapOrder (Table V)) {c : Call V} (htyped : Typed h.created [c]) :
    (h.Allows sql batchSize c → ∃ w', w.call sql it c = .ok w') ∧
      ∀ w', w.call sql it c = .ok w' → h.Allows sql batchSize c ∧ Tracks batchSize (h.next batchSize c) w' := by
  cases c with
  | createTable =>
    refine ⟨fun hallows => ⟨_, (createTable_eq_ok ..).2 ⟨ht.executed.symm ▸ hallows, rfl⟩⟩, fun w' hw' => ?_⟩
    obtain ⟨⟨hrecordable, haccept⟩, rfl⟩ := (createTable_eq_ok ..).1 hw'
    rw [ht.executed] at haccept
    exact ⟨⟨hrecordable, haccept⟩, ht.create haccept⟩
  | insertData tableName entry =>
    refine ⟨fun hallows => ⟨_, (ht.insertData_eq_ok sql it htyped.1).2 ⟨hallows, rfl⟩⟩, fun w' hw' => ?_⟩
    obtain ⟨hallows, rfl⟩ := (ht.insertData_eq_ok sql it htyped.1).1 hw'
    refine ⟨hallows, ?_⟩
    dsimp only [History.next]
    by_cases hfull : batchSize ≤ (h.insert tableName entry).pending.length
    · rw [if_pos hfull, if_pos hfull]
      exact (ht.append htyped.1).emptied it
    · rw [if_neg hfull, if_neg hfull]
      exact ht.append htyped.1
  | flush =>
    refine ⟨fun hallows => ⟨_, (ht.flush_eq_ok sql it).2 ⟨hallows, rfl⟩⟩, fun w' hw' => ?_⟩
    obtain ⟨hallows, rfl⟩ := (ht.flush_eq_ok sql it).1 hw'
    refine ⟨hallows, ?_⟩
    dsimp only [History.next]
    by_cases hpending : h.pending = []
    · rw [if_pos hpending, if_pos hpending]
      exact ht
    · rw [if_neg hpending, if_neg hpending]
      exact ht.emptied it

theorem written (hpending : h.pending = []) : w.Written h.written := by
  refine ⟨ht.rows, fun table htable => ?_⟩
  rw [ht.entries table htable, hpending]
  rfl

theorem pending_next {c : Call V} (hflushes : w.flushes c) : (h.next batchSize c).pending = [] := by
  cases c with
  | createTable => cases hflushes
  | insertData tableName entry =>
    have hfull : batchSize ≤ (h.insert tableName entry).pending.length := by
      show batchSize ≤ ((h.pending ++ [(tableName, entry)]).length : ℕ)
      rw [length_append, Nat.cast_add, ← ht.entryCount, ← ht.batchSize]
      exact hflushes
    dsimp only [History.next]
    rw [if_pos hfull]
    rfl
  | flush =>
    dsimp only [History.next]
    split
    · assumption
    · rfl

end

end Tracks

theorem History.next_inserted (batchSize : ℤ) (h : History V) (c : Call V) :
    (h.next batchSize c).written ++ (h.next batchSize c).pending = h.written ++ h.pending ++ c.inserted := by
  cases c with
  | createTable => exact (append_nil _).symm
  | insertData =>
    dsimp only [History.next]
    split
    · exact (append_nil _).trans (append_assoc ..).symm
    · exact (append_assoc ..).symm
  | flush =>
    dsimp only [History.next]
    split
    · exact (append_nil _).symm
    · rfl

variable {calls : List (Call V)}

theorem Typed.head {created : List (String × StructType)} {c : Call V} (h : Typed created (c :: calls)) :
    Typed created [c] := by
  cases c with
  | createTable => exact trivial
  | insertData => exact ⟨h.1, trivial⟩
  | flush => exact trivial

theorem Typed.tail {h : History V} {c : Call V} (htyped : Typed h.created (c :: calls)) (batchSize : ℤ) :
    Typed (h.next batchSize c).created calls := by
  cases c with
  | createTable => exact htyped
  | insertData =>
    dsimp only [History.next]
    split
    · exact htyped.2
    · exact htyped.2
  | flush =>
    dsimp only [History.next]
    split
    · exact htyped
    · exact htyped

theorem Tracks.lossless {batchSize : ℤ} {h : History V} {w : Writer V} (ht : Tracks batchSize h w) (sql : SQL)
    (it : MapOrder (Table V)) (calls : List (Call V)) (htyped : Typed h.created calls) :
    Lossless sql it w (h.written ++ h.pending) calls ↔ Ready sql batchSize h calls := by
  induction calls generalizing h w with
  | nil => exact ⟨fun _ => trivial, fun _ => ht.kept⟩
  | cons c _ ih =>
    obtain ⟨hsucceeds, hnext⟩ := ht.call sql it htyped.head
    constructor
    · rintro ⟨-, w', hw', -, hrest⟩
      obtain ⟨hallows, ht'⟩ := hnext w' hw'
      rw [← h.next_inserted batchSize] at hrest
      exact ⟨hallows, (ih ht' (htyped.tail batchSize)).1 hrest⟩
    · rintro ⟨hallows, hrest⟩
      obtain ⟨w', hw'⟩ := hsucceeds hallows
      obtain ⟨-, ht'⟩ := hnext w' hw'
      refine ⟨ht.kept, w', hw', fun hflushes => ?_, ?_⟩
      · have hpending := ht.pending_next hflushes
        have hinserted := h.next_inserted batchSize c
        rw [hpending, append_nil] at hinserted
        rw [← hinserted]
        exact ht'.written hpending
      · rw [← h.next_inserted batchSize]
        exact (ih ht' (htyped.tail batchSize)).2 hrest

/-- For any batch size and any order of the tables: nothing is lost exactly when each table can be created and every table has
pending entries, of fields that can be read, whenever some table has. -/
theorem recorder_lossless_iff (sql : SQL) (it : MapOrder (Table V)) {executed : List String}
    (hsettled : inTransaction executed = false) (batchSize : ℤ) {calls : List (Call V)} (htyped : Typed [] calls) :
    Lossless sql it { db := { executed := executed }, batchSize := batchSize } [] calls ↔
      Ready sql batchSize { executed := executed } calls := by
  have ht : Tracks (V := V) batchSize { executed := executed }
      { db := { executed := executed }, batchSize := batchSize } := by
    refine ⟨rfl, hsettled, ?_, nodup_nil, rfl, ?_, ?_, fun _ => rfl, rfl, rfl⟩
    · intro table htable
      cases htable
    · intro x hx
      cases hx
    · intro table htable
      cases htable
  exact ht.lossless sql it calls htyped

theorem Lossless.run {sql : SQL} {it : MapOrder (Table V)} {w : Writer V} {inserted : List (String × Entry V)}
    (h : Lossless sql it w inserted calls) : ∃ w', calls.foldlM (Writer.call sql it) w = .ok w' := by
  induction calls generalizing w inserted with
  | nil => exact ⟨w, rfl⟩
  | cons _ _ ih =>
    obtain ⟨-, _, hw₁, -, hrest⟩ := h
    rw [foldlM_cons, hw₁]
    exact ih hrest

/-! ### A database -/

/-- What follows `CREATE TABLE`, up to the columns. -/
def tableOf (query : String) : List Char := (query.toList.drop 13).takeWhile (· ≠ '(')

def createsTable (query : String) : Bool := "CREATE TABLE ".toList.isPrefixOf query.toList

theorem toList_createTableSQL (tableName : String) (fieldNames : List String) :
    ∃ rest, (createTableSQL tableName fieldNames).toList = "CREATE TABLE ".toList ++
      ((tableName.toList ++ [' ']) ++ '(' :: rest) := by
  refine ⟨"\n\t".toList ++ (String.intercalate ", \n\t" fieldNames).toList ++ "\n".toList ++ ");".toList, ?_⟩
  have hopen : " (".toList = [' ', '('] := by decide
  unfold createTableSQL
  simp only [String.toList_append, append_assoc, hopen, cons_append, nil_append]

theorem createsTable_createTableSQL (tableName : String) (fieldNames : List String) :
    createsTable (createTableSQL tableName fieldNames) = true := by
  obtain ⟨_, hrest⟩ := toList_createTableSQL tableName fieldNames
  unfold createsTable
  rw [hrest, isPrefixOf_iff_prefix]
  exact prefix_append ..

theorem tableOf_createTableSQL (tableName : String) (fieldNames fieldNames' : List String) :
    tableOf (createTableSQL tableName fieldNames) = tableOf (createTableSQL tableName fieldNames') := by
  have hname : ∀ fieldNames, tableOf (createTableSQL tableName fieldNames) =
      ((tableName.toList ++ [' ']).takeWhile (· ≠ '(')) := by
    intro fieldNames
    obtain ⟨rest, hrest⟩ := toList_createTableSQL tableName fieldNames
    have hdrop : ("CREATE TABLE ".toList ++ ((tableName.toList ++ [' ']) ++ '(' :: rest)).drop 13 =
        (tableName.toList ++ [' ']) ++ '(' :: rest :=
      @drop_left _ "CREATE TABLE ".toList _
    unfold tableOf
    rw [hrest, hdrop, takeWhile_append]
    split
    · next hall =>
      rw [takeWhile_cons_of_neg (by simp), append_nil]
      exact (( takeWhile_prefix _).eq_of_length hall).symm
    · rfl
  rw [hname, hname]

/-- A database that refuses a second table of a name, and nothing else. -/
def byName : SQL where
  accepts := fun executed query =>
    !createsTable query || executed.all fun earlier => !createsTable earlier || tableOf earlier ≠ tableOf query
  unique := by
    intro executed tableName fieldNames fieldNames' hexecuted
    rw [createsTable_createTableSQL, Bool.not_true, Bool.false_or, all_eq_false]
    refine ⟨_, hexecuted, ?_⟩
    rw [createsTable_createTableSQL, tableOf_createTableSQL tableName fieldNames fieldNames']
    simp
  begins := fun executed _ => by
    have hcreates : createsTable "BEGIN TRANSACTION" = false := by decide
    rw [hcreates]
    rfl
  commits := fun executed _ => by
    have hcreates : createsTable "COMMIT TRANSACTION" = false := by decide
    rw [hcreates]
    rfl

/-! ### Two tables -/

instance (sType : StructType) : Decidable sType.Recordable :=
  inferInstanceAs (Decidable (∀ field ∈ sType.fields, _ ∧ (_ → _)))

instance (sType : StructType) : Decidable sType.Exported := inferInstanceAs (Decidable (∀ field ∈ sType.fields, _ → _))

instance (h : History V) : Decidable h.Due := inferInstanceAs (Decidable (∀ table ∈ h.created, _ ∧ ∃ x ∈ h.pending, _))

instance decidableAccepted (sql : SQL) (executed : List String) :
    (queries : List String) → Decidable (Accepted sql executed queries)
  | [] => .isTrue trivial
  | _ :: queries => @instDecidableAnd _ _ _ (decidableAccepted sql _ queries)

instance (sql : SQL) (batchSize : ℤ) (h : History V) (c : Call V) : Decidable (h.Allows sql batchSize c) :=
  match c with
  | .createTable _ _ => inferInstanceAs (Decidable (_ ∧ _))
  | .insertData _ _ => inferInstanceAs (Decidable (_ → _))
  | .flush => inferInstanceAs (Decidable (_ ≠ [] → _))

instance decidableReady (sql : SQL) (batchSize : ℤ) (h : History V) :
    (calls : List (Call V)) → Decidable (Ready sql batchSize h calls)
  | [] => .isTrue trivial
  | c :: calls => @instDecidableAnd _ _ _ (decidableReady sql batchSize (h.next batchSize c) calls)

/-- A task with an identifier, and with a note that is not recorded. -/
def task (id note : ℕ) : Entry ℕ where
  type := { name := "Task", fields := [{ name := "ID", kind := .int, tag := some "unique" },
              { name := "Note", kind := .int, tag := some "ignore" }] }
  values := [id, note]
  complete := rfl

theorem lossless_two_tables :
    Lossless byName ⟨id, .refl⟩ { db := { executed := [] } } []
      [.createTable "read" (task 0 0), .createTable "write" (task 0 0), .insertData "read" (task 1 5),
        .insertData "write" (task 1 6), .insertData "read" (task 2 7), .flush, .flush] :=
  (recorder_lossless_iff byName ⟨id, .refl⟩ rfl 100000 (by simp [Typed, task])).2 (by decide +kernel)

/-- One of two tables has nothing pending. -/
theorem lossy_idle_table :
    let calls : List (Call ℕ) := [.createTable "read" (task 0 0), .createTable "write" (task 0 0),
      .insertData "read" (task 1 5), .flush]
    Typed [] calls ∧ ¬ Lossless byName ⟨id, .refl⟩ { db := { executed := [] } } [] calls := by
  refine ⟨by simp [Typed, task], ?_⟩
  intro h
  obtain ⟨_, hw'⟩ := h.run
  have hpanic : (foldlM (Writer.call byName ⟨id, .refl⟩) { db := { executed := [] } } [.createTable "read" (task 0 0),
      .createTable "write" (task 0 0), .insertData "read" (task 1 5), .flush]).toOption.isNone = true := by decide +kernel
  rw [hw'] at hpanic
  cases hpanic

end Akita.DataRecording
