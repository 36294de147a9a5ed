/-!
# The schema of the job table

* `Sql.schema`   the statements that make the table and its indexes, once.
-/

namespace JobEngine.Sql

/-- A table of jobs with the rules of its columns, and the indexes of its listings. -/
def schema : String :=
  "-- Durable job records. Rows are never deleted by the job engine. CREATE TABLE " ++
  "IF NOT EXISTS jobs ( id UUID PRIMARY KEY, project_id TEXT NOT NULL, action TEXT " ++
  "NOT NULL, status TEXT NOT NULL CHECK (status IN ('pending', 'running', " ++
  "'finished', 'error')), params JSONB NOT NULL DEFAULT '\x7b\x7d'::jsonb, result JSONB, " ++
  "error TEXT, run_at TIMESTAMPTZ NOT NULL, try_period INTEGER NOT NULL CHECK " ++
  "(try_period >= 0), try_max INTEGER NOT NULL CHECK (try_max > 0), trys INTEGER " ++
  "NOT NULL DEFAULT 0 CHECK (trys >= 0 AND trys <= try_max), created TIMESTAMPTZ " ++
  "NOT NULL, updated TIMESTAMPTZ NOT NULL ); -- Poll path: pending jobs due by now. " ++
  "CREATE INDEX IF NOT EXISTS idx_jobs_status_run_at ON jobs (status, run_at); -- " ++
  "Listing by owner, newest first. CREATE INDEX IF NOT EXISTS " ++
  "idx_jobs_project_created ON jobs (project_id, created DESC);"

end JobEngine.Sql
