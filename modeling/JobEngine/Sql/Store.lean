import JobEngine.Execution.Program
import JobEngine.Sql.Row
import JobEngine.Sql.Statement
import JobEngine.Store.Call

/-!
# A store in a database

* `Sql.Server`          the effects: statements with parameters, and their replies;
* `Sql.Failure.error`   what a failure of the database means to a store;
* `Sql.perform`         each call of a store as statements;
* `Sql.migrate`         the schema, in a transaction;
* `Sql.NoConnection`    why there is no connection.
-/

namespace JobEngine.Sql

/-- A statement with its parameters. -/
structure Request where
  statement : Statement
  params : List Datum := []
deriving DecidableEq

/-- A failure of the database. -/
inductive Failure
  /-- The database refuses, with a code of five characters. -/
  | refused (code message : String)
  /-- The connections have been closed. -/
  | closed
  /-- No connection became free in time. -/
  | exhausted
deriving DecidableEq, Repr

/-- What the database answers. -/
inductive Reply
  | failed (f : Failure)
  /-- The rows found. -/
  | rows (rs : List Row)
  /-- A row with a number, which may be missing or absent. -/
  | count (total : Option Datum)
  | affected (rows : Nat)

abbrev Server : Effects := ⟨Request, fun _ => Reply⟩

def send (statement : Statement) (params : List Datum) : Program Server Reply :=
  @Program.ask Server ⟨statement, params⟩

/-- What a failure means to a store.  A lock that is not available is either a wait that was too
long or a row that is held. -/
def Failure.error (operation : String) : Failure → StoreError
  | .refused code message =>
    let text := "database error in " ++ operation ++ ": " ++ message
    if code = "55P03" then
      if Text.occurs "lock timeout".toList message.toList then .lockWaitTimeout else .rowLocked
    else if code = "23514" then .constraint text
    else .storage text
  | .closed => .storage ("connection pool closed in " ++ operation)
  | .exhausted => .storage (operation ++ " failed")

/-- Go on unless the database failed. -/
def Reply.orFail (operation : String) (r : Reply) (go : Reply → Except StoreError α) :
    Except StoreError α :=
  match r with
  | .failed f => .error (f.error operation)
  | r => go r

/-! ## statements -/

def byId : List Condition := [.equals .id 1]

/-- The conditions of a filter on parameters 1 to 4. -/
def byFilter : List Condition :=
  [.among .id "uuid" 1, .among .project "text" 2, .among .status "text" 3,
    .atMost .runAt "timestamptz" 4]

def filterParams (f : Filter) : List Datum :=
  [.ofOption .uuids f.ids, .ofOption (fun ps => .texts (ps.map ProjectId.name)) f.projects,
    .ofOption (fun ss => .texts (ss.map Status.text)) f.statuses, .ofOption .time f.dueBy]

/-- The columns of an update and what becomes of each. -/
def updateSettings : List (Column × Setting) :=
  [(.status, .orKeep 2), (.runAt, .orKeep 3), (.trys, .orKeep 4), (.error, .when 5 6),
    (.params, .orKeep 7), (.result, .when 8 9), (.updated, .orKeep 10)]

/-- The parameters of an update; a count of attempts has to fit its column. -/
def updateParams (id : JobId) (c : Changes) : Except StoreError (List Datum) := do
  let trys ← match c.trys with
    | none => pure .null
    | some n => counter .trys n
  pure
    [.uuid id, .ofOption (fun s => .text s.text) c.status, .ofOption .time c.runAt, trys,
      .bool c.error.isSome, .ofOption .text (c.error.getD none), .ofOption .json c.params,
      .bool c.result.isSome, .ofOption .json (c.result.getD none), .ofOption .time c.updated]

/-! ## replies -/

/-- The first row, if there is one. -/
def oneJob : Reply → Except StoreError (Option Job)
  | .rows (r :: _) => (Job.ofRow? r).map some
  | .count _ => .error unreadable
  | _ => .ok none

def manyJobs : Reply → Except StoreError (List Job)
  | .rows rs => rs.mapM Job.ofRow?
  | .count _ => .error unreadable
  | _ => .ok []

/-- The number of a count; a negative one is none. -/
def total : Reply → Except StoreError UInt64
  | .count (some (.int n)) => .ok (UInt64.ofNat n.toNat)
  | .count _ => .error (.corrupt "failed to read count")
  | .rows (_ :: _) => .error (.corrupt "failed to read count")
  | _ => .error (.storage "count_jobs failed")

/-- The number of rows that an update changed. -/
def changed : Reply → Except StoreError Nat
  | .affected n => .ok n
  | _ => .ok 1

/-! ## calls -/

def fetchJob (id : JobId) (lock : Bool) : Program Server (Except StoreError (Option Job)) := do
  let r ← send (.select byId lock) [.uuid id]
  pure (r.orFail "get_job" oneJob)

def updateJob (id : JobId) (c : Changes) : Program Server (Except StoreError Nat) :=
  match updateParams id c with
  | .error e => pure (.error e)
  | .ok params => do
    let r ← send (.update updateSettings byId) params
    pure (r.orFail "update_job" changed)

/-- A page takes two statements: one counts, the other selects. -/
def listJobs (q : Query) : Program Server (Except StoreError Page) := do
  let params := filterParams q.filter
  let counted ← send (.count byFilter) params
  match counted.orFail "count_jobs" total with
  | .error e => pure (.error e)
  | .ok total =>
    let found ← send (.page byFilter q.order 5 6)
      (params ++ [.ofOption .ofLong q.limit, .ofLong q.offset])
    match found.orFail "list_jobs" manyJobs with
    | .error e => pure (.error e)
    | .ok items => pure (.ok { items, total, offset := q.offset, limit := q.limit })

def insertJob (j : Job) : Program Server (Except StoreError JobId) :=
  match j.toRow? with
  | .error e => pure (.error e)
  | .ok row => do
    match ← send .insert (Column.all.map row) with
    | .failed (.refused "23505" _) => pure (.error (.alreadyExists j.id))
    | r => pure (r.orFail "insert_job" fun _ => .ok j.id)

/-- A session is a transaction whose waits for locks are bounded. -/
def beginSession (lockTimeout : Nat) : Program Server (Except StoreError SessionId) := do
  let r ← send .begin []
  match r.orFail "begin_transaction" fun _ => .ok () with
  | .error e => pure (.error e)
  | .ok () =>
    let r ← send (.lockTimeout lockTimeout) []
    pure (r.orFail "set_lock_timeout" fun _ => .ok 0)

def endSession (statement : Statement) (operation : String) :
    Program Server (Except StoreError Unit) := do
  let r ← send statement []
  pure (r.orFail operation fun _ => .ok ())

/-- Each call of a store as statements, with a bound on waits for locks in milliseconds. -/
def perform (lockTimeout : Nat) : (c : StoreCall) → Program Server c.Answer
  | .begin => beginSession lockTimeout
  | .get _ id lock => fetchJob id lock
  | .update _ id changes => updateJob id changes
  | .commit _ => endSession .commit "commit_transaction"
  | .rollback _ => endSession .rollback "rollback_transaction"
  | .discard _ => pure ()
  | .read id => fetchJob id false
  | .write id changes => updateJob id changes
  | .list q => listJobs q
  | .insert j => insertJob j

/-- Make the table if it is not there. -/
def migrate : Program Server (Except StoreError Unit) := do
  let failed : StoreError := .storage "migration failed"
  match ← send .begin [] with
  | .failed _ => pure (.error failed)
  | _ =>
    match ← send .migration [] with
    | .failed _ => pure (.error failed)
    | _ =>
      match ← send .commit [] with
      | .failed _ => pure (.error failed)
      | _ => pure (.ok ())

/-! ## connections -/

/-- Why there is no connection. -/
inductive NoConnection
  /-- The address is none. -/
  | address
  | refused (code message : String)
deriving DecidableEq, Repr

/-- A database that is starting, or that has too many clients, is asked again until there is no time
left. -/
def isTransient (code : String) : Bool := code = "53300" || code = "57P03"

/-- What a missing connection means to a store. -/
def NoConnection.error : NoConnection → StoreError
  | .address => .storage "connect failed"
  | .refused code message =>
    if isTransient code then Failure.exhausted.error "connect"
    else (Failure.refused code message).error "connect"

end JobEngine.Sql
