import JobEngine.Execution.Attempt

/-!
# Operations of the engine

* `Controller.create`                 a new pending job;
* `Controller.runJob`, `Run.cleanJob`   a whole unit of work: claim and execute, or put back;
* `Run.due`, `Run.abandoned`          what there is to do.
-/

namespace JobEngine

namespace Run

/-- The committed record. -/
def get (id : JobId) : Run Job := do
  match ← Run.check (Run.store (.read id)) .store with
  | some job => pure job
  | none => throw (.notFound id)

def list (q : Query) : Run Page := Run.check (Run.store (.list q)) .store

def ids (q : Query) : Run (List JobId) := do
  let page ← Run.list q
  pure (page.items.map Job.id)

/-- Pending jobs whose time has come. -/
def due (limit : UInt64) (order : SortOrder) : Run (List JobId) := do
  let now ← Run.clock
  Run.ids
    { filter := { statuses := some [.pending], dueBy := some now }, order, limit := some limit }

/-- Running jobs: whoever ran them is gone. -/
def abandoned : Run (List JobId) :=
  Run.ids { filter := { statuses := some [.running] }, limit := none }

/-- The unit that puts one abandoned job back. -/
def cleanJob (ctx : Context) (id : JobId) : Run Unit :=
  Run.footprint "clean_job" (ctx.transaction fun ctx => ctx.putBack id)

end Run

namespace Controller

/-- File a new pending job of a kind that can be run. -/
def create (c : Controller) (request : NewJob) : Run Job := do
  if !c.kinds.contains request.action then throw (.unknownAction request.action)
  let id ← Run.freshId
  let now ← Run.clock
  let job ← Run.rule (request.toJob id now)
  let _ ← Run.check (Run.store (.insert job)) .store
  Run.log (.info "job created"
    [("job_id", job.id.toJson), ("project_id", job.project.toJson), ("action", .str job.action),
      ("run_at", .str job.runAt.display)])
  pure job

/-- Claim a job and execute it as it then is. -/
def runUnit (c : Controller) (ctx : Context) (id : JobId) (deadline : Nat) : Run Unit := do
  match ← ctx.transaction fun ctx => ctx.claim id with
  | none => pure ()
  | some _ =>
    match ← ctx.load id with
    | none => throw (.notFound id)
    | some job => let _ ← c.execute ctx job deadline

/-- The unit that runs one job; a job that is busy or not pending is left alone. -/
def runJob (c : Controller) (ctx : Context) (id : JobId) (deadline : Nat) : Run Unit :=
  Run.footprint "run_job" (c.runUnit ctx id deadline)

/-- The engine as a debug text. -/
def display (c : Controller) (notifiers : List String) : String :=
  "JobController \x7b actions: ActionRegistry \x7b kinds: " ++ Text.quotedList c.kinds ++
    " \x7d, notifiers: " ++ Text.quotedList notifiers ++ ", .. \x7d"

end Controller

end JobEngine
