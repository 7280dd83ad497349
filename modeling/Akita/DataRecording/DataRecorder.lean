import Akita.Maps
import Akita.Returns
import Mathlib.Data.List.Infix

/-!
# The data recorder

`datarecording.sqliteWriter`, with what it asks of the database.

* `SQL` : a database that may refuse statements, but no INSERT;
* `Writer.call` : the calls.
-/

namespace Akita.DataRecording
open Keyed (lookup)

/-! ## Reflection -/

inductive Kind
  | bool | int | int8 | int16 | int32 | int64 | uint | uint8 | uint16 | uint32 | uint64 | uintptr
  | float32 | float64 | complex64 | complex128
  | array | chan | func | interface | map | pointer | slice | string | struct | unsafePointer
  deriving DecidableEq

/-- `reflect.StructField`, of whose tag only the value of `akita_data` is read. -/
structure StructField where
  name : String
  /-- Empty for an exported field. -/
  pkgPath : String := ""
  kind : Kind
  tag : Option String := none
  deriving DecidableEq

/-- `reflect.Type` of a struct. -/
structure StructType where
  name : String
  fields : List StructField
  deriving DecidableEq

/-- A struct value. -/
structure Entry (V : Type) where
  type : StructType
  values : List V
  complete : values.length = type.fields.length

def isAllowedType : Kind → Bool
  | .bool | .int | .int8 | .int16 | .int32 | .int64 | .uint | .uint8 | .uint16 | .uint32 | .uint64
  | .float32 | .float64 | .complex64 | .complex128
  | .string => true
  | _ => false

def fieldIgnored (field : StructField) : Bool := field.tag.any fun tag => decide ("ignore".toList <:+: tag.toList)

def mustHaveAtMostOneTag (field : StructField) : Except String Unit :=
  match field.tag with
  | none => pure ()
  | some tags =>
    if tags = "ignore" then pure ()
    else if tags = "unique" then pure ()
    else if tags = "index" then pure ()
    else throw "akita_data tag can only be either ignore, unique, or index"

/-- `CreateTable` panics with the error that is returned. -/
def checkStructFields (types : StructType) : Except String Unit :=
  forM types.fields fun field => do
    mustHaveAtMostOneTag field
    if fieldIgnored field then pure ()
    else if !isAllowedType field.kind then throw "entry is invalid"
    else pure ()

def getFieldNames (sType : StructType) : List String :=
  (sType.fields.filter fun field => !fieldIgnored field).map StructField.name

def interface {V : Type} (field : StructField) (value : V) : Except String V :=
  if field.pkgPath = "" then pure value
  else throw "reflect.Value.Interface: cannot return value obtained from unexported field or method"

/-- The loop over the fields of an entry. -/
def values {V : Type} (task : Entry V) : Except String (List V) :=
  (task.type.fields.zip task.values).foldlM (fun v field => if fieldIgnored field.1 then pure v else do
    let value ← interface field.1 field.2
    pure (v ++ [value])) []

/-! ## The database -/

def createTableSQL (tableName : String) (fieldNames : List String) : String :=
  "CREATE TABLE " ++ tableName ++ " (" ++ "\n\t" ++ String.intercalate ", \n\t" fieldNames ++ "\n" ++ ");"

def indexSQL (tableName fieldName : String) (unique : Bool) : String :=
  let indexType := if unique then "UNIQUE INDEX" else "INDEX"
  "CREATE " ++ indexType ++ " idx_" ++ tableName ++ "_" ++ fieldName ++ " ON " ++ tableName ++ "(" ++ fieldName ++ ");"

/-- A transaction is open after these statements. -/
def inTransaction (executed : List String) : Bool :=
  executed.foldl (fun isOpen query => if query = "BEGIN TRANSACTION" then true else if query = "COMMIT TRANSACTION"
    then false else isOpen) false

/-- Which statements are accepted after those that have been executed. -/
structure SQL where
  accepts : List String → String → Bool
  unique : ∀ executed tableName fieldNames fieldNames', createTableSQL tableName fieldNames ∈ executed →
    accepts executed (createTableSQL tableName fieldNames') = false
  begins : ∀ executed, inTransaction executed = false → accepts executed "BEGIN TRANSACTION" = true
  commits : ∀ executed, inTransaction executed = true → accepts executed "COMMIT TRANSACTION" = true

/-- What has been executed, and the rows that have been inserted, each with its table. -/
structure Database (V : Type) where
  executed : List String
  rows : List (String × List V) := []

/-- `sql.Stmt`, for an INSERT. -/
structure Stmt where
  query : String
  tableName : String
  numInput : ℕ

variable {V : Type}

namespace Database

/-- The rows of a table. -/
def table (db : Database V) (tableName : String) : List (List V) := (db.rows.filter fun row => row.1 = tableName).map Prod.snd

def mustExecute (sql : SQL) (db : Database V) (query : String) : Except String (Database V) :=
  if sql.accepts db.executed query then pure { db with executed := db.executed ++ [query] }
  else throw ("Failed to execute: " ++ query)

def exec (db : Database V) (statement : Stmt) (v : List V) : Except String (Database V) :=
  if v.length = statement.numInput then pure { db with rows := db.rows ++ [(statement.tableName, v)] }
  else throw "sql: wrong number of arguments"

end Database

def prepareStatement (table : String) (task : Entry V) : Stmt :=
  let fieldNames := getFieldNames task.type
  let placeholders := fieldNames.map fun _ => "?"
  let entryToFill := "(" ++ String.intercalate ", " placeholders ++ ")"
  { query := "INSERT INTO " ++ table ++ " VALUES " ++ entryToFill, tableName := table, numInput := placeholders.length }

/-! ## The writer -/

structure Table (V : Type) where
  name : String
  structType : StructType
  entries : List (Entry V) := []

structure Writer (V : Type) where
  db : Database V
  tables : List (Table V) := []
  batchSize : ℤ := 100000
  entryCount : ℤ := 0

inductive Call (V : Type)
  | createTable (tableName : String) (sampleEntry : Entry V)
  | insertData (tableName : String) (entry : Entry V)
  | flush

def createIndex (sql : SQL) (tableName : String) (db : Database V) (field : StructField) : Except String (Database V) :=
  match field.tag with
  | some "unique" => db.mustExecute sql (indexSQL tableName field.name true)
  | some "index" => db.mustExecute sql (indexSQL tableName field.name false)
  | _ => pure db

def createIndexesForTable (sql : SQL) (db : Database V) (tableName : String) (sType : StructType) :
    Except String (Database V) :=
  sType.fields.foldlM (createIndex sql tableName) db

def insertEntry (statement : Stmt) (structType : StructType) (db : Database V) (task : Entry V) :
    Except String (Database V) :=
  if task.type ≠ structType then throw "entry type mismatch"
  else do
    let v ← values task
    db.exec statement v

def flushTable (db : Database V) (table : Table V) : Except String (Database V) :=
  match table.entries with
  | [] => throw "runtime error: index out of range [0] with length 0"
  | sampleEntry :: _ => table.entries.foldlM (insertEntry (prepareStatement table.name sampleEntry) table.structType) db

namespace Writer

def createTable (sql : SQL) (t : Writer V) (tableName : String) (sampleEntry : Entry V) : Except String (Writer V) := do
  checkStructFields sampleEntry.type
  let fieldNames := getFieldNames sampleEntry.type
  let db ← t.db.mustExecute sql (createTableSQL tableName fieldNames)
  let db ← createIndexesForTable sql db tableName sampleEntry.type
  pure { t with db, tables := Keyed.insert Table.name { name := tableName, structType := sampleEntry.type } t.tables }

def flush (sql : SQL) (it : MapOrder (Table V)) (t : Writer V) : Except String (Writer V) :=
  if t.entryCount = 0 then pure t
  else do
    let db ← t.db.mustExecute sql "BEGIN TRANSACTION"
    let db ← (it.order t.tables).foldlM flushTable db
    let db ← db.mustExecute sql "COMMIT TRANSACTION"
    pure { t with db, tables := t.tables.map fun table => { table with entries := [] }, entryCount := 0 }

/-- The entry is appended to its table. -/
def append (t : Writer V) (tableName : String) (entry : Entry V) : Writer V :=
  { t with
    tables := t.tables.map fun table => if table.name = tableName then { table with entries := table.entries ++ [entry] }
      else table
    entryCount := t.entryCount + 1 }

def insertData (sql : SQL) (it : MapOrder (Table V)) (t : Writer V) (tableName : String) (entry : Entry V) :
    Except String (Writer V) :=
  match lookup Table.name tableName t.tables with
  | none => throw ("table " ++ tableName ++ " does not exist")
  | some _ =>
    let t := t.append tableName entry
    if t.entryCount ≥ t.batchSize then t.flush sql it else pure t

def call (sql : SQL) (it : MapOrder (Table V)) (t : Writer V) : Call V → Except String (Writer V)
  | .createTable tableName sampleEntry => t.createTable sql tableName sampleEntry
  | .insertData tableName entry => t.insertData sql it tableName entry
  | .flush => t.flush sql it

end Writer

end Akita.DataRecording
