import JobEngine.Job.Error

/-!
# What a store refuses

* `StoreError`               the causes, with `kind` and `message`;
* `StoreError.isContention`  someone else holds the row.
-/

namespace JobEngine

inductive StoreError
  | alreadyExists (id : JobId)
  /-- A locking read waited longer than the store allows. -/
  | lockWaitTimeout
  /-- The row is held and the store does not wait. -/
  | rowLocked
  | constraint (text : String)
  | corrupt (text : String)
  | storage (text : String)
deriving DecidableEq, Repr

namespace StoreError

def kind : StoreError → String
  | alreadyExists _ => "AlreadyExists"
  | lockWaitTimeout => "LockWaitTimeout"
  | rowLocked => "RowLocked"
  | constraint _ => "Constraint"
  | corrupt _ => "Corrupt"
  | storage _ => "Storage"

def message : StoreError → String
  | alreadyExists id => "job already exists: " ++ id.text
  | lockWaitTimeout => "lock wait timeout exceeded"
  | rowLocked => "row is locked by another session"
  | constraint s => "constraint violated: " ++ s
  | corrupt s => "corrupt job record: " ++ s
  | storage s => "storage error: " ++ s

def isContention : StoreError → Bool
  | lockWaitTimeout | rowLocked => true
  | _ => false

end StoreError

end JobEngine
