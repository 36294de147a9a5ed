import JobEngine.Execution.Call

/-!
# Contexts, transactions and locks

A unit of work carries a context: its correlation id, the open session, and whether its reads take
row locks.  Both marks hold for what runs inside a scope and are gone behind it.

* `Context.enter`         a transaction scope; only the outermost one opens a session;
* `Scope.finish`          commit or roll back, if the scope opened the session;
* `Scope.drop`            leave a scope without finishing it;
* `Context.transaction`   all of it around a body;
* `Context.locking`       the context of a lock scope;
* `Context.load`, `Context.write`   through the session if there is one.
-/

namespace JobEngine

/-- What a unit of work carries along. -/
structure Context where
  correlationId : String
  job : Option JobId := none
  session : Option SessionId := none
  inLock : Bool := false
deriving DecidableEq, Inhabited

/-- A transaction scope that was entered. -/
structure Scope where
  ctx : Context
  /-- The scope opened the session, it did not join one. -/
  outermost : Bool
deriving DecidableEq

namespace Context

/-- A context under a tag that tells it from others. -/
def fresh (tag : String) : Context := { correlationId := "ctx-" ++ tag }

/-- The context of one job's unit; its correlation id ends like the job's identifier. -/
def forJob (tag : String) (id : JobId) : Context :=
  { correlationId := "ctx-" ++ tag ++ "-" ++ id.short, job := some id }

def inTransaction (c : Context) : Bool := c.session.isSome

/-- Reads of this context take row locks. -/
def locking (c : Context) : Context := { c with inLock := true }

def display (c : Context) : String :=
  let job := match c.job with
    | none => "None"
    | some id => "Some(JobId(" ++ id.text ++ "))"
  "ExecutionContext \x7b correlation_id: " ++ Text.quoted c.correlationId ++ ", job_id: " ++ job ++
    s!", in_transaction: {c.inTransaction}, in_lock: {c.inLock} " ++ "\x7d"

/-- What a store error means to the unit. -/
def classify (c : Context) (id : JobId) : StoreError → JobError
  | .lockWaitTimeout => if c.inLock then .lockTimeout id else .store .lockWaitTimeout
  | .rowLocked => if c.inLock then .lockBusy id else .store .rowLocked
  | e => .store e

def load (c : Context) (id : JobId) : Run (Option Job) :=
  match c.session with
  | some s => Run.check (Run.store (.get s id c.inLock)) (c.classify id)
  | none => Run.check (Run.store (.read id)) (c.classify id)

/-- The number of rows changed. -/
def write (c : Context) (id : JobId) (changes : Changes) : Run Nat :=
  match c.session with
  | some s => Run.check (Run.store (.update s id changes)) (c.classify id)
  | none => Run.check (Run.store (.write id changes)) (c.classify id)

def enter (c : Context) : Run Scope :=
  match c.session with
  | some _ => pure ⟨c, false⟩
  | none => do
    let s ← Run.check (Run.store .begin) .store
    pure ⟨{ c with session := some s }, true⟩

end Context

namespace Scope

/-- Commit a success and roll back a failure, if the scope opened the session; a commit that fails
turns a success into its error. -/
def finish (s : Scope) (result : Except JobError α) : Run α :=
  if s.outermost then
    match s.ctx.session, result with
    | none, r => ExceptT.mk (pure r)
    | some session, .ok a => do
      Run.check (Run.store (.commit session)) .store
      pure a
    | some session, .error e => do
      match ← ExceptT.lift (Run.store (.rollback session)) with
      | .ok () => pure ()
      | .error r =>
        Run.log (.warn "rollback failed"
          [("error", .str e.message), ("rollback_error", .str r.message)])
      throw e
  else ExceptT.mk (pure result)

/-- Leave the scope without a word; its own session is discarded. -/
def drop (s : Scope) : Program Engine Unit :=
  match s.outermost, s.ctx.session with
  | true, some session => do
    Run.store (.discard session)
    Run.log (.warn "transaction scope left without finishing; session discarded" [])
  | _, _ => pure ()

end Scope

/-- The body inside a transaction scope. -/
def Context.transaction (c : Context) (body : Context → Run α) : Run α := do
  let scope ← c.enter
  let result ← ExceptT.lift (body scope.ctx).run
  scope.finish result

/-- Report a failure of an operation, and pass it on. -/
def Run.footprint (operation : String) (work : Run α) : Run α := ExceptT.mk do
  match ← work.run with
  | .ok a => pure (.ok a)
  | .error e =>
    Run.log (.warn "failed" [("operation", .str operation), ("error", .str e.message)])
    pure (.error e)

end JobEngine
