import JobEngine.Store.Error

/-!
# Why a worker process does not start

* `BootError`   the step that failed, with what the store said.
-/

namespace JobEngine

inductive BootError
  | connecting (e : StoreError)
  | migrating (e : StoreError)
deriving DecidableEq, Repr

def BootError.message : BootError → String
  | .connecting e => "connecting to the job database: " ++ e.message
  | .migrating e => "applying job migrations: " ++ e.message

end JobEngine
