import JobEngine.Sql.Datum
import JobEngine.Store.Error

/-!
# Jobs as rows

* `Job.toRow?`    the values of a job; counters have to fit their columns;
* `Job.ofRow?`    the job of a row, or how the row is corrupt.
-/

namespace JobEngine

open Sql

namespace Sql

/-- A counter as a value of its column, which holds 31 bits. -/
def counter (column : Column) (n : UInt32) : Except StoreError Datum :=
  if 2 * n.toNat < UInt32.size then .ok (.int n.toNat)
  else .error (.constraint (column.name ++ s!" ({n}) exceeds the column range"))

/-- A value that is missing or of another kind. -/
def unreadable : StoreError := .corrupt "failed to deserialize job row"

def asText : Datum → Except StoreError String
  | .text s => .ok s
  | _ => .error unreadable

def asUuid : Datum → Except StoreError Uuid
  | .uuid u => .ok u
  | _ => .error unreadable

def asTime : Datum → Except StoreError Instant
  | .time t => .ok t
  | _ => .error unreadable

def asJson : Datum → Except StoreError Json
  | .json v => .ok v
  | _ => .error unreadable

def asInt : Datum → Except StoreError Int
  | .int n => .ok n
  | _ => .error unreadable

def optional (read : Datum → Except StoreError α) : Datum → Except StoreError (Option α)
  | .null => .ok none
  | d => (read d).map some

/-- The number of a counting column. -/
def asCounter (column : Column) (n : Int) : Except StoreError UInt32 :=
  if n < 0 then .error (.corrupt (column.name ++ s!" is negative: {n}"))
  else .ok (UInt32.ofNat n.toNat)

end Sql

namespace Job

/-- The values of a job, column by column. -/
def toRow? (j : Job) : Except StoreError Row := do
  let period ← counter .tryPeriod j.tryPeriod
  let max ← counter .tryMax j.tryMax
  let trys ← counter .trys j.trys
  pure fun
    | .id => .uuid j.id
    | .project => .text j.project.name
    | .action => .text j.action
    | .status => .text j.status.text
    | .params => .json j.params
    | .result => .ofOption .json j.result
    | .error => .ofOption .text j.error
    | .runAt => .time j.runAt
    | .tryPeriod => period
    | .tryMax => max
    | .trys => trys
    | .created => .time j.created
    | .updated => .time j.updated

/-- The job of a row.  First every value has to be there, then each has to be a proper one. -/
def ofRow? (r : Row) : Except StoreError Job := do
  let id ← asUuid (r .id)
  let project ← asText (r .project)
  let action ← asText (r .action)
  let status ← asText (r .status)
  let params ← asJson (r .params)
  let result ← optional asJson (r .result)
  let error ← optional asText (r .error)
  let runAt ← asTime (r .runAt)
  let period ← asInt (r .tryPeriod)
  let max ← asInt (r .tryMax)
  let trys ← asInt (r .trys)
  let created ← asTime (r .created)
  let updated ← asTime (r .updated)
  let project ← (ProjectId.parse project).mapError fun e => .corrupt e.message
  let status ← (Status.parse status).mapError fun e => .corrupt e.message
  let tryPeriod ← asCounter .tryPeriod period
  let tryMax ← asCounter .tryMax max
  let trys ← asCounter .trys trys
  pure
    { id, project, action, status, params, result, error, runAt, tryPeriod, tryMax, trys, created,
      updated }

end Job

end JobEngine
