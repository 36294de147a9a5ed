import JobEngine.Execution.Context

/-!
# Reading and changing a record

* `Context.update`    a change, stamped with the time;
* `Context.fetch`     a job under its row lock;
* `Context.prepare`, `Context.reset`     the claim of a fetched job, and the way back;
* `Context.claim`, `Context.putBack`     fetch, decide and change, in an open transaction.

A job is claimed if it is pending and put back if it is running; else it is left alone.  A job
whose lock another session holds is busy, which is no failure.
-/

namespace JobEngine.Context

/-- A change of a record in the transaction that is open, or in one of its own. -/
def update (ctx : Context) (id : JobId) (changes : Changes) : Run Unit := do
  let now ← Run.clock
  ctx.transaction fun ctx => do
    let rows ← ctx.write id { changes with updated := some now }
    if rows = 0 then throw (.notFound id)

/-- The job under its row lock; nothing if another session holds it. -/
def fetch (ctx : Context) (id : JobId) : Run (Option Job) := ExceptT.mk do
  match ← (ctx.locking.load id).run with
  | .ok (some job) => pure (.ok (some job))
  | .ok none => pure (.error (.notFound id))
  | .error e =>
    if e.isContention then
      Run.log (.info "job is busy, try later"
        [("job_id", id.toJson), ("reason", .str e.message)])
      pure (.ok none)
    else pure (.error e)

/-- Mark a fetched job as running. -/
def prepare (ctx : Context) (job : Job) : Run Job := do
  let status ← Run.rule (job.status.become .running)
  let changes : Changes := { status := some status }
  ctx.update job.id changes
  Run.rule (changes.apply job)

/-- Put a running job back. -/
def reset (ctx : Context) (job : Job) : Run Unit := do
  let status ← Run.rule (job.status.become .pending)
  ctx.update job.id { status := some status }

/-- Claim a job; nothing if there is nothing to claim. -/
def claim (ctx : Context) (id : JobId) : Run (Option Job) := do
  match ← ExceptT.lift (ctx.fetch id).run with
  | .ok none => pure none
  | .ok (some job) =>
    if job.status.executable then some <$> ctx.prepare job
    else
      Run.log (.info "job is not executable, skipping"
        [("job_id", id.toJson), ("status", .str job.status.text)])
      pure none
  | .error (.notFound _) =>
    Run.log (.warn "job vanished before it could be claimed" [("job_id", id.toJson)])
    pure none
  | .error e => throw e

/-- Put a job back that is running. -/
def putBack (ctx : Context) (id : JobId) : Run Unit := do
  match ← ctx.fetch id with
  | none => pure ()
  | some job =>
    if job.status.resettable then
      ctx.reset job
      Run.log (.info "abandoned job reset to pending" [("job_id", id.toJson)])

end JobEngine.Context
