import JobEngine.Event.Topic
import JobEngine.Job.Codec
import JobEngine.Job.Retry

/-!
# Lifecycle events

An event holds the job as it was before the attempt.  The number of the attempt and whether it is
the last follow from that record.

* `JobEvent.started`, `JobEvent.failed`, `JobEvent.finished`   the events of an attempt;
* `JobEvent.toJson`                                            the written form.
-/

namespace JobEngine

inductive JobEvent
  | started (job : Job) (attempt : UInt32) (isLastChance : Bool)
  | failed (job : Job) (attempt : UInt32) (error : String) (isLastChance : Bool)
  | finished (job : Job) (attempt : UInt32) (result : Json)
deriving DecidableEq

namespace JobEvent

def ofStart (j : Job) : JobEvent := .started j j.nextAttempt j.isLastChance

def ofFailure (j : Job) (error : String) : JobEvent :=
  .failed j j.nextAttempt error j.isLastChance

def ofSuccess (j : Job) (result : Json) : JobEvent := .finished j j.nextAttempt result

def job : JobEvent → Job
  | .started j _ _ | .failed j _ _ _ | .finished j _ _ => j

def attempt : JobEvent → UInt32
  | .started _ n _ | .failed _ n _ _ | .finished _ n _ => n

def topic : JobEvent → Topic
  | .started _ _ _ => .started
  | .failed _ _ _ _ => .failed
  | .finished _ _ _ => .finished

/-- The members of the written form, with `job` standing for the record. -/
def members (job : Json) : JobEvent → List (String × Json)
  | .started _ n last =>
    [("topic", Topic.started.toJson), ("job", job), ("attempt", .ofWord n),
      ("is_last_chance", .bool last)]
  | .failed _ n error last =>
    [("topic", Topic.failed.toJson), ("job", job), ("attempt", .ofWord n),
      ("error", .str error), ("is_last_chance", .bool last)]
  | .finished _ n result =>
    [("topic", Topic.finished.toJson), ("job", job), ("attempt", .ofWord n), ("result", result)]

def toJson (e : JobEvent) : Json := .record (e.members e.job.toJson)

/-- The written form with the job cut to its identifier. -/
def brief (e : JobEvent) : Json := .record (e.members e.job.id.toJson)

end JobEvent

end JobEngine
