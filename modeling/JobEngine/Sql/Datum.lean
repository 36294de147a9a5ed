import JobEngine.Job.Basic

/-!
# Columns and values of the job table

* `Sql.Column`   the columns, in the order of the table;
* `Sql.Datum`    a value that is bound to a statement or stored in a row;
* `Sql.Row`      a row, as a value for each column.
-/

namespace JobEngine.Sql

inductive Column
  | id
  | project
  | action
  | status
  | params
  | result
  | error
  | runAt
  | tryPeriod
  | tryMax
  | trys
  | created
  | updated
deriving DecidableEq, Repr

namespace Column

def all : List Column :=
  [id, project, action, status, params, result, error, runAt, tryPeriod, tryMax, trys, created,
    updated]

def name : Column → String
  | id => "id"
  | project => "project_id"
  | action => "action"
  | status => "status"
  | params => "params"
  | result => "result"
  | error => "error"
  | runAt => "run_at"
  | tryPeriod => "try_period"
  | tryMax => "try_max"
  | trys => "trys"
  | created => "created"
  | updated => "updated"

end Column

/-- A value; a JSON `null` is not the missing value. -/
inductive Datum
  | null
  | bool (b : Bool)
  /-- A whole number of 32 or 64 bits. -/
  | int (n : Int)
  | text (s : String)
  | uuid (u : Uuid)
  | time (t : Instant)
  | json (v : Json)
  | texts (ss : List String)
  | uuids (us : List Uuid)
deriving DecidableEq, Inhabited

namespace Datum

def ofOption (write : α → Datum) : Option α → Datum
  | none => null
  | some a => write a

/-- A number of 64 bits as a signed one. -/
def ofLong (n : UInt64) : Datum :=
  int (if 2 * n.toNat < UInt64.size then n.toNat else (n.toNat : Int) - UInt64.size)

end Datum

abbrev Row := Column → Datum

end JobEngine.Sql
