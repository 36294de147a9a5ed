import JobEngine.Event.Bus
import JobEngine.Store.Error

/-!
# What the lifecycle and the actions report

* `JobError`      failures of lifecycle operations, with `kind` and `message`; which of them are
                  races for a lock, and which say that there is no such job;
* `ActionError`   failures of actions, which the lifecycle turns into changes of status.
-/

namespace JobEngine

inductive JobError
  | notFound (id : JobId)
  /-- Another session holds the row and the store does not wait. -/
  | lockBusy (id : JobId)
  /-- The wait for another session's lock was too long. -/
  | lockTimeout (id : JobId)
  | unknownAction (kind : String)
  | domain (e : DomainError)
  | notify (e : NotifyError)
  | store (e : StoreError)
deriving DecidableEq, Repr

namespace JobError

def kind : JobError → String
  | notFound _ => "NotFound"
  | lockBusy _ => "LockBusy"
  | lockTimeout _ => "LockTimeout"
  | unknownAction _ => "UnknownAction"
  | domain e => e.kind
  | notify _ => "Notify"
  | store e => e.kind

def message : JobError → String
  | notFound id => "job (" ++ id.text ++ ") is not found"
  | lockBusy id => "job (" ++ id.text ++ ") is locked by another worker"
  | lockTimeout id => "lock wait timeout exceeded on job (" ++ id.text ++ ")"
  | unknownAction a => "unknown action: " ++ a
  | domain e => e.message
  | notify e => e.message
  | store e => e.message

/-- A race for a lock, which callers take as a reason to skip the job. -/
def isContention : JobError → Bool
  | lockBusy _ | lockTimeout _ => true
  | _ => false

/-- There is no such job, which is what a wait for its deletion waits for. -/
def isNotFound : JobError → Bool
  | notFound _ => true
  | _ => false

end JobError

inductive ActionError
  | failed (text : String)
  | invalidParams (text : String)
  /-- A call of a provider failed. -/
  | provider (text : String)
  | unsupported (kind : String)
  | timedOut (millis : Nat)
deriving DecidableEq, Repr

namespace ActionError

def kind : ActionError → String
  | failed _ => "Failed"
  | invalidParams _ => "InvalidParams"
  | provider _ => "Provider"
  | unsupported _ => "Unsupported"
  | timedOut _ => "TimedOut"

def message : ActionError → String
  | failed s => s
  | invalidParams s => "invalid params: " ++ s
  | provider s => "provider error: " ++ s
  | unsupported k => "action \x60" ++ k ++ "\x60 is not registered on this worker"
  | timedOut ms => s!"execution deadline of {ms / 1000}s exceeded"

end ActionError

end JobEngine
