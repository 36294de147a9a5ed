import JobEngine.Execution.Claim
import JobEngine.Job.Redact
import JobEngine.Json.Printer

/-!
# Attempts

* `Controller`           the engine, with the kinds of actions it can run;
* `Controller.invoke`    one run of a job's action;
* `Controller.execute`   the run, the events around it and the record of how it ended.

An action that fails is no failure of `execute`: it becomes a change of status.  What is logged and
kept of the parameters is redacted.
-/

namespace JobEngine

/-- How an attempt ended. -/
inductive Outcome
  | finished (attempt : UInt32)
  /-- The job waits for `runAt`. -/
  | rescheduled (attempt : UInt32) (runAt : Instant)
  | exhausted (attempt : UInt32)
deriving DecidableEq

namespace Context

/-- The record of a success. -/
def recordSuccess (ctx : Context) (job : Job) (result : Json) : Run Outcome := do
  let attempt := job.nextAttempt
  Run.publish (.ofSuccess job result)
  let status ← Run.rule (job.status.become .finished)
  ctx.update job.id
    { status := some status, trys := some attempt, error := some none,
      params := some job.params.redact, result := some (some result) }
  Run.log (.info "job finished" [("job_id", job.id.toJson), ("attempt", .ofWord attempt)])
  pure (.finished attempt)

/-- The record of a failure: another attempt later, or none. -/
def recordFailure (ctx : Context) (job : Job) (message : String) : Run Outcome := do
  Run.log (.warn "job attempt failed"
    [("job_id", job.id.toJson), ("attempt", .ofWord job.nextAttempt),
      ("is_last_chance", .bool job.isLastChance), ("error", .str message)])
  Run.publish (.ofFailure job message)
  let now ← Run.clock
  match job.onFailure now with
  | none => ExceptT.lift .crash
  | some (.exhausted attempt) =>
    let status ← Run.rule (job.status.become .error)
    ctx.update job.id
      { status := some status, trys := some attempt, error := some (some message),
        params := some job.params.redact }
    Run.log (.warn "job out of attempts" [("job_id", job.id.toJson), ("attempt", .ofWord attempt)])
    pure (.exhausted attempt)
  | some (.retry attempt runAt) =>
    let status ← Run.rule (job.status.become .pending)
    ctx.update job.id { status := some status, trys := some attempt, runAt := some runAt }
    Run.log (.info "job rescheduled"
      [("job_id", job.id.toJson), ("attempt", .ofWord attempt), ("run_at", .str runAt.display)])
    pure (.rescheduled attempt runAt)

end Context

/-- The engine: the kinds of actions registered with it, in ascending order. -/
structure Controller where
  kinds : List String
deriving DecidableEq, Inhabited

namespace Controller

/-- Run the job's action once. -/
def invoke (c : Controller) (job : Job) (deadline : Nat) :
    Program Engine (Except ActionError Json) :=
  if c.kinds.contains job.action then do
    let i : Invocation :=
      { kind := job.action, params := job.params, job := job.id, project := job.project,
        attempt := job.nextAttempt, isLastChance := job.isLastChance, deadline }
    match ← @Program.ask Engine (.invoke i) with
    | some result => pure result
    | none => pure (.error (.timedOut deadline))
  else pure (.error (.unsupported job.action))

/-- Run the job's action once and record the outcome.  Only a running job can be executed. -/
def execute (c : Controller) (ctx : Context) (job : Job) (deadline : Nat) : Run Outcome := do
  let _ ← Run.rule (job.status.become .finished)
  Run.log (.info "executing job"
    [("job_id", job.id.toJson), ("action", .str job.action), ("attempt", .ofWord job.nextAttempt),
      ("is_last_chance", .bool job.isLastChance), ("params", .str job.params.redact.compress)])
  Run.publish (.ofStart job)
  match ← ExceptT.lift (c.invoke job deadline) with
  | .ok result => ctx.recordSuccess job result
  | .error e => ctx.recordFailure job e.message

end Controller

end JobEngine
