import JobEngine.Sql.Datum
import JobEngine.Sql.Schema
import JobEngine.Store.Query

/-!
# Statements

* `Sql.Statement`        what is sent to the database;
* `Sql.Statement.text`   its text; parameters are numbered from 1.
-/

namespace JobEngine.Sql

/-- What becomes of a column that is updated. -/
inductive Setting
  /-- The parameter, or the old value if the parameter is missing. -/
  | orKeep (param : Nat)
  /-- The parameter, even if it is missing, or the old value, as a truth value says. -/
  | when (test param : Nat)
deriving DecidableEq, Repr

/-- A condition on rows. -/
inductive Condition
  /-- A column equals a parameter. -/
  | equals (column : Column) (param : Nat)
  /-- A column is among the items of a parameter, if there is one. -/
  | among (column : Column) (type : String) (param : Nat)
  /-- A column is at most a parameter, if there is one. -/
  | atMost (column : Column) (type : String) (param : Nat)
deriving DecidableEq, Repr

inductive Statement
  | begin
  | commit
  | rollback
  | lockTimeout (millis : Nat)
  | migration
  /-- The rows under conditions, perhaps with their locks. -/
  | select (conditions : List Condition) (lock : Bool)
  | count (conditions : List Condition)
  /-- Rows ordered by creation and then identifier; limit and offset are parameters. -/
  | page (conditions : List Condition) (order : SortOrder) (limit offset : Nat)
  | insert
  | update (settings : List (Column × Setting)) (conditions : List Condition)
deriving DecidableEq, Repr

def param (n : Nat) : String := "$" ++ toString n

def Setting.text (column : Column) : Setting → String
  | orKeep p => column.name ++ " = COALESCE(" ++ param p ++ ", " ++ column.name ++ ")"
  | when t p =>
    column.name ++ " = CASE WHEN " ++ param t ++ " THEN " ++ param p ++ " ELSE " ++
      column.name ++ " END"

def Condition.text : Condition → String
  | equals c p => c.name ++ " = " ++ param p
  | among c type p =>
    "(" ++ param p ++ "::" ++ type ++ "[] IS NULL OR " ++ c.name ++ " = ANY(" ++ param p ++ "))"
  | atMost c type p =>
    "(" ++ param p ++ "::" ++ type ++ " IS NULL OR " ++ c.name ++ " <= " ++ param p ++ ")"

namespace Statement

def columns : String := ", ".intercalate (Column.all.map Column.name)

def whereText (cs : List Condition) : String :=
  " WHERE " ++ " AND ".intercalate (cs.map Condition.text)

def text : Statement → String
  | begin => "BEGIN"
  | commit => "COMMIT"
  | rollback => "ROLLBACK"
  | lockTimeout ms => s!"SET LOCAL lock_timeout = '{ms}ms'"
  | migration => schema
  | select cs lock =>
    "SELECT " ++ columns ++ " FROM jobs" ++ whereText cs ++ (if lock then " FOR UPDATE" else "")
  | count cs => "SELECT COUNT(*) AS total FROM jobs" ++ whereText cs
  | page cs order limit offset =>
    let way := order.keyword
    "SELECT " ++ columns ++ " FROM jobs" ++ whereText cs ++ " ORDER BY created " ++ way ++
      ", id " ++ way ++ " LIMIT " ++ param limit ++ " OFFSET " ++ param offset
  | insert =>
    let params := (List.range Column.all.length).map fun n => param (n + 1)
    "INSERT INTO jobs (" ++ columns ++ ") VALUES (" ++ ", ".intercalate params ++ ")"
  | update settings cs =>
    "UPDATE jobs SET " ++ ", ".intercalate (settings.map fun s => s.2.text s.1) ++ whereText cs

end Statement

end JobEngine.Sql
