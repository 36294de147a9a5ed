import JobEngine.Event.Bus
import JobEngine.Event.JobEvent

/-!
# Log lines

* `LogLine`      level, message and fields;
* `Notifier.log`       the notifier that writes a line for every event;
* `JobEvent.logLine`   the line that it writes.

A field that is a number or a truth value stays one; all else is written as text.
-/

namespace JobEngine

inductive Level
  | info
  | warn
  | error
deriving DecidableEq, Repr

def Level.text : Level → String
  | .info => "info"
  | .warn => "warn"
  | .error => "error"

structure LogLine where
  level : Level
  message : String
  fields : List (String × Json)
deriving DecidableEq

namespace LogLine

def info (message : String) (fields : List (String × Json)) : LogLine := ⟨.info, message, fields⟩

def warn (message : String) (fields : List (String × Json)) : LogLine := ⟨.warn, message, fields⟩

def error (message : String) (fields : List (String × Json)) : LogLine :=
  ⟨.error, message, fields⟩

def toJson (l : LogLine) : Json :=
  .arr [.str l.level.text, .str l.message, .record l.fields]

end LogLine

/-- The logging notifier, which wants every topic and never fails. -/
def Notifier.log (key : Nat) : Notifier JobEvent where
  key := key
  name := "log"
  topics := Topic.all

/-- What the logging notifier writes. -/
def JobEvent.logLine (e : JobEvent) : LogLine :=
  let who := [("job_id", e.job.id.toJson), ("action", Json.str e.job.action),
    ("attempt", Json.ofWord e.attempt)]
  match e with
  | .failed _ _ error last =>
    .warn "job attempt failed" (who ++ [("is_last_chance", .bool last), ("error", .str error)])
  | _ => .info "job lifecycle event" (who ++ [("topic", e.topic.toJson)])

end JobEngine
