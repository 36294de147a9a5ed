import JobEngine.Job.Error
import JobEngine.Json.Basic
import JobEngine.Time.Instant

/-!
# Jobs

* `Job`        a durable unit of work;
* `NewJob`     a request for one, and `NewJob.toJob` the record it becomes;
* `Summary`    what clients see of a job.
-/

namespace JobEngine

/-- A unit of work. -/
structure Job where
  id : JobId
  project : ProjectId
  /-- The kind of action that performs the work. -/
  action : String
  status : Status
  params : Json
  result : Option Json
  /-- What the last attempt failed with, once there is no other. -/
  error : Option String
  /-- The job does not run before this instant. -/
  runAt : Instant
  /-- Seconds between attempts, times the number of the attempt. -/
  tryPeriod : UInt32
  tryMax : UInt32
  /-- Attempts that are used up. -/
  trys : UInt32
  created : Instant
  updated : Instant
deriving DecidableEq, Inhabited

/-- What clients see of a job. -/
structure Summary where
  id : JobId
  project : ProjectId
  action : String
  status : Status
  resources : List String
  updated : Instant
  created : Instant
deriving DecidableEq, Inhabited

namespace Job

def isFinished (j : Job) : Bool := j.status == .finished

def isError (j : Job) : Bool := j.status == .error

/-- The texts among the items under a key of the parameters. -/
def textsUnder (key : String) (params : Json) : List String :=
  match params.get? key with
  | some (.arr items) => items.filterMap Json.asStr?
  | _ => []

/-- The resources that the job works on. -/
def resources (j : Job) : List String := textsUnder "resource_ids" j.params

def summary (j : Job) : Summary where
  id := j.id
  project := j.project
  action := j.action
  status := j.status
  resources := j.resources
  updated := j.updated
  created := j.created

end Job

/-- A request for a job. -/
structure NewJob where
  action : String
  params : Json
  project : ProjectId := .system
  runAt : Option Instant := none
  tryPeriod : UInt32 := 600
  tryMax : UInt32 := 3

/-- The pending record of a request. -/
def NewJob.toJob (n : NewJob) (id : JobId) (now : Instant) : Except DomainError Job :=
  if Text.isBlank n.action then .error .blankAction
  else if n.tryMax = 0 then .error .noAttempts
  else .ok
    { id, project := n.project, action := n.action, status := .pending, params := n.params,
      result := none, error := none, runAt := n.runAt.getD now, tryPeriod := n.tryPeriod,
      tryMax := n.tryMax, trys := 0, created := now, updated := now }

/-- A new job waits, has used up no attempt and has some. -/
theorem NewJob.of_toJob_eq_ok {n : NewJob} {id : JobId} {now : Instant} {j : Job}
    (h : n.toJob id now = .ok j) :
    j.id = id ∧ j.status = .pending ∧ j.trys = 0 ∧ 0 < j.tryMax.toNat := by
  unfold toJob at h
  split at h
  · simp at h
  · split at h
    · simp at h
    · next hmax =>
      obtain rfl := Except.ok.inj h
      refine ⟨rfl, rfl, rfl, Nat.pos_of_ne_zero fun h => hmax ?_⟩
      exact UInt32.toNat_inj.mp h

end JobEngine
