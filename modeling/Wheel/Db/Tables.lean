import Wheel.Core.Node
import Wheel.Core.Validate
import Wheel.Data.Keyed

/-!
# The sqlite tables behind table nodes

Every table node owns one sqlite table, with a key and the configured columns.
A column has an affinity, which sqlite applies to every value it stores there; the
configuration has a type, which the engine reads a stored value by. Each operation
answers the tables it leaves and, in case it fails, the text of its error; a
statement before the one that failed was executed.
-/

namespace Wheel

/-- A value as sqlite stores it. -/
inductive SqlValue where
  | null
  | integer (n : ℤ)
  | real (q : ℚ)
  | text (s : String)
  | blob (b : List UInt8)
  deriving DecidableEq

/-- The affinity of a column. -/
inductive Affinity where
  | text
  | integer
  | real
  | blob
  deriving DecidableEq, Repr

/-- The affinity sqlite gives to a column of the type. -/
def ColumnType.affinity : ColumnType → Affinity
  | .text | .json => .text
  | .integer => .integer
  | .real => .real
  | .blob => .blob

/-- What a name means where sqlite expects an expression. -/
inductive ColumnExpr where
  | column
  | value (v : SqlValue)
  | syntaxError
  deriving DecidableEq

/-- What sqlite, the JSON serialiser and the base64 codec do. -/
structure Sqlite where
  /-- The name may be declared as a column without quotes. -/
  declares : String → Bool
  /-- What the name is in a select, without quotes. -/
  expr : String → ColumnExpr
  /-- The number a text reads as, for a column with a numeric affinity. -/
  number : String → Option (ℤ ⊕ ℚ)
  /-- The text of a number that is not an integer. -/
  realText : ℚ → String
  printJson : Json → String
  parseJson : String → Option Json
  encode : List UInt8 → String
  decode : String → Option (List UInt8)

variable (lite : Sqlite)

/-- The value a column of the affinity stores. -/
def Affinity.apply : Affinity → SqlValue → SqlValue
  | .text, .integer n => .text (toString n)
  | .text, .real q => .text (lite.realText q)
  | .integer, .real q =>
      if q.den = 1 ∧ -2 ^ 63 < q.num ∧ q.num < 2 ^ 63 - 1 then .integer q.num else .real q
  | .integer, .text s =>
      match lite.number s with
      | some (.inl n) => .integer n
      | some (.inr q) => .real q
      | none => .text s
  | .real, .integer n => .real n
  | .real, .text s =>
      match lite.number s with
      | some (.inl n) => .real n
      | some (.inr q) => .real q
      | none => .text s
  | _, v => v

/-- A row: its key, and what it stores in each column. -/
structure SqlRow where
  key : String
  cell : String → SqlValue

/-- A sqlite table: its columns after the key, and its rows. -/
structure SqlTable where
  columns : List (String × Affinity)
  rows : Keyed SqlRow.key

namespace SqlTable

def names (t : SqlTable) : List String := t.columns.map Prod.fst

def affinity (t : SqlTable) (c : String) : Affinity :=
  ((t.columns.find? fun x => x.1 = c).map Prod.snd).getD .blob

/-- Add a column, which is null in every row there is. -/
def addColumn (t : SqlTable) (c : Column) : SqlTable where
  columns := t.columns ++ [(c.name.raw, c.columnType.affinity)]
  rows := t.rows.updateWhere (fun _ => true)
    (fun r => { r with cell := Function.update r.cell c.name.raw .null }) fun _ => rfl

/-- Write the cells of a row, each with the affinity of its column. -/
def write (t : SqlTable) (cells : List (String × SqlValue)) (r : SqlRow) : SqlRow :=
  { r with
    cell := cells.foldl
      (fun cell x => Function.update cell x.1 ((t.affinity x.1).apply lite x.2)) r.cell }

/-- Insert a row, or write the cells of the row that has the key. -/
def upsert (t : SqlTable) (key : String) (cells : List (String × SqlValue)) : SqlTable :=
  { t with
    rows :=
      match t.rows.insert (t.write lite cells ⟨key, fun _ => .null⟩) with
      | some rows => rows
      | none => t.rows.modify key (t.write lite cells) fun _ => rfl }

def deleteRow (t : SqlTable) (key : String) : SqlTable :=
  { t with rows := t.rows.deleteWhere fun r => r.key = key }

end SqlTable

/-- The tables of the database file, by their sqlite names. -/
abbrev SqlTables := String → Option SqlTable

namespace Tables

/-- The outcome of a statement or a call: an error text, or a value. -/
abbrev Outcome (α : Type) := SqlTables × Except String α

def tableNameError (name : NodeName) : String :=
  "a table node's name becomes the sqlite table `t_" ++ name.raw ++
    "`, so it cannot contain '-' (use '_' instead)"

/-- The sqlite table backing a node. -/
def tableName (name : NodeName) : Except String String :=
  match name.sqliteTable with
  | some table => .ok table
  | none => .error (tableNameError name)

/-- The table a configuration describes, without rows. -/
def freshTable (cfg : TableConfig) : SqlTable where
  columns := cfg.columns.map fun c => (c.name.raw, c.columnType.affinity)
  rows := Keyed.empty

/-- Does sqlite accept the declaration of the columns? -/
def declaresAll (cfg : TableConfig) : Bool :=
  (cfg.columns.all fun c => lite.declares c.name.raw) &&
    decide (tableKeyColumn :: cfg.columns.map fun c => c.name.raw).Nodup

def drop (ts : SqlTables) (name : NodeName) : Outcome Unit :=
  match tableName name with
  | .error e => (ts, .error e)
  | .ok table => (Function.update ts table none, .ok ())

/-- Build the table of a node, replacing anything at that name. -/
def create (ts : SqlTables) (name : NodeName) (cfg : TableConfig) : Outcome Unit :=
  match tableName name with
  | .error e => (ts, .error e)
  | .ok table =>
      let ts := Function.update ts table none
      if declaresAll lite cfg then (Function.update ts table (some (freshTable cfg)), .ok ())
      else (ts, .error ("creating " ++ table))

/-- Add the columns that are missing, one statement for each. -/
def addMissing (table : String) : List Column → SqlTable → SqlTable × Except String Unit
  | [], t => (t, .ok ())
  | c :: cs, t =>
      if c.name.raw ∈ tableKeyColumn :: t.names then addMissing table cs t
      else if lite.declares c.name.raw then addMissing table cs (t.addColumn c)
      else (t, .error ("adding " ++ table ++ "." ++ c.name.raw))

/-- Make sure the table of a node is there, without touching a row. -/
def ensure (ts : SqlTables) (name : NodeName) (cfg : TableConfig) : Outcome Unit :=
  match tableName name with
  | .error e => (ts, .error e)
  | .ok table =>
      match ts table with
      | none =>
          if declaresAll lite cfg then
            (Function.update ts table (some (freshTable cfg)), .ok ())
          else (ts, .error ("ensuring " ++ table))
      | some t =>
          let r := addMissing lite table cfg.columns t
          (Function.update ts table (some r.1), r.2)

/-- Follow a rename of the node. -/
def rename (ts : SqlTables) (source target : NodeName) : Outcome Unit :=
  match tableName source, tableName target with
  | .error e, _ => (ts, .error e)
  | _, .error e => (ts, .error e)
  | .ok old, .ok new =>
      if old = new then (ts, .ok ())
      else
        match ts old, ts new with
        | some t, none =>
            (Function.update (Function.update ts old none) new (some t), .ok ())
        | _, _ => (ts, .error ("renaming " ++ old ++ " to " ++ new))

/-! ## Rows -/

def kindOf : Json → String
  | .null => "null"
  | .bool _ => "a boolean"
  | .int _ | .float _ => "a number"
  | .str _ => "a string"
  | .arr _ => "an array"
  | .obj _ => "an object"

def wrongType (name want : String) (v : Json) : String :=
  "column \"" ++ name ++ "\" is " ++ want ++ ", got " ++ kindOf v

/-- The sqlite representation of a JSON field, or the text of the mismatch. -/
def toSql (ty : ColumnType) (name : String) (v : Json) : Except String SqlValue :=
  match ty, v with
  | _, .null => .ok .null
  | .text, .str s => .ok (.text s)
  | .text, v => .error (wrongType name "text" v)
  | .integer, .bool b => .ok (.integer (if b then 1 else 0))
  | .integer, v =>
      match v.asI64 with
      | some n => .ok (.integer n)
      | none => .error (wrongType name "an integer" v)
  | .real, v =>
      match v.asF64 with
      | some q => .ok (.real q)
      | none => .error (wrongType name "a real" v)
  | .blob, .str s =>
      match lite.decode s with
      | some b => .ok (.blob b)
      | none => .error ("column \"" ++ name ++ "\" is a blob, so it must be base64")
  | .blob, v => .error (wrongType name "a base64 blob" v)
  | .json, v => .ok (.text (lite.printJson v))

/-- The JSON value of a stored one, read by the type of its column. -/
def fromSql (ty : ColumnType) (v : SqlValue) : Json :=
  match ty, v with
  | _, .null => .null
  | .json, .text s => (lite.parseJson s).getD (.str s)
  | _, .text s => .str s
  | _, .integer n => .int n
  | _, .real q => .float q
  | _, .blob b => .str (lite.encode b)

/-- Refuse a column that is not configured, in the order of the names. -/
def rejectUnknownColumns (cfg : TableConfig) (members : List (String × Json)) :
    Except String Unit :=
  let known := cfg.columns.map fun c => c.name.raw
  match ((members.map Prod.fst).mergeSort (· ≤ ·)).find? fun k => k = tableKeyColumn ∨ k ∉ known with
  | none => .ok ()
  | some k =>
      .error (
        if k = tableKeyColumn then
          "`" ++ tableKeyColumn ++ "` comes from the row address, not the body"
        else
          "no column " ++ k.quote ++ " on this table (columns: " ++ ", ".intercalate known ++ ")")

/-- The values a row binds, in the order of the columns. -/
def binds (value : Json) : List Column → Except String (List (String × SqlValue))
  | [] => .ok []
  | c :: cs => do
      let v ← toSql lite c.columnType c.name.raw ((value.get? c.name.raw).getD .null)
      let rest ← binds value cs
      return (c.name.raw, v) :: rest

/-- Upsert one row; a column the value omits is set to null. -/
def putRow (ts : SqlTables) (name : NodeName) (cfg : TableConfig) (key : String) (value : Json) :
    Outcome Unit :=
  let r := ensure lite ts name cfg
  match r.2, tableName name with
  | .error e, _ => (r.1, .error e)
  | _, .error e => (r.1, .error e)
  | .ok (), .ok table =>
      match value with
      | .obj members =>
          match rejectUnknownColumns cfg members, binds lite value cfg.columns with
          | .error e, _ => (r.1, .error e)
          | _, .error e => (r.1, .error e)
          | .ok (), .ok cells =>
              (Function.update r.1 table ((r.1 table).map fun t => t.upsert lite key cells), .ok ())
      | _ => (r.1, .error "a table row must be a JSON object of column values")

/-- The value a select answers for a column. -/
def selected (r : SqlRow) (c : String) : Option SqlValue :=
  match lite.expr c with
  | .column => some (r.cell c)
  | .value v => some v
  | .syntaxError => none

/-- The members of a row as JSON, read by the configuration. -/
def rowToJson (r : SqlRow) : List Column → Option (List (String × Json))
  | [] => some []
  | c :: cs => do
      let v ← selected lite r c.name.raw
      let rest ← rowToJson r cs
      return (c.name.raw, fromSql lite c.columnType v) :: rest

/-- May every column stand in a select? -/
def readsAll (cfg : TableConfig) : Bool :=
  cfg.columns.all fun c => lite.expr c.name.raw ≠ .syntaxError

def getRow (ts : SqlTables) (name : NodeName) (cfg : TableConfig) (key : String) :
    Outcome (Option Json) :=
  let r := ensure lite ts name cfg
  match r.2, tableName name with
  | .error e, _ => (r.1, .error e)
  | _, .error e => (r.1, .error e)
  | .ok (), .ok table =>
      match (r.1 table).bind fun t => t.rows.get? key with
      | none => if readsAll lite cfg then (r.1, .ok none) else (r.1, .error "syntax error")
      | some row =>
          match rowToJson lite row cfg.columns with
          | none => (r.1, .error "syntax error")
          | some members => (r.1, .ok (some (.obj ((tableKeyColumn, .str key) :: members))))

def deleteRow (ts : SqlTables) (name : NodeName) (key : String) : Outcome Bool :=
  match tableName name with
  | .error e => (ts, .error e)
  | .ok table =>
      match ts table with
      | none => (ts, .error ("no such table: " ++ table))
      | some t =>
          (Function.update ts table (some (t.deleteRow key)), .ok ((t.rows.get? key).isSome))

end Tables

end Wheel
