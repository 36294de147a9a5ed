import JobEngine.Settings.LogFormat
import JobEngine.Settings.Tree
import JobEngine.Worker.Config

/-!
# Settings

* `Settings.ofVars`       the settings that variables make, or what is wrong with them;
* `Settings.fault?`       the first rule that settings break;
* `WorkerSettings.config` how the worker is set up.
-/

namespace JobEngine

structure DatabaseSettings where
  url : String
  maxConnections : UInt32 := 10
  acquireTimeoutSecs : UInt64 := 5
  /-- How long a locking read waits for another session. -/
  lockTimeoutMs : UInt64 := 5000
deriving DecidableEq, Repr

structure WorkerSettings where
  name : String := "job-worker"
  pickSize : UInt64 := 10
  execSize : UInt64 := 10
  execTimeoutSecs : UInt64 := 600
  pollIntervalMs : UInt64 := 2000
  shutdownGraceSecs : UInt64 := 10
  order : SortOrder := .descending
deriving DecidableEq, Repr

structure Settings where
  database : DatabaseSettings
  worker : WorkerSettings := {}
  logFormat : LogFormat := .json
deriving DecidableEq, Repr

/-- Why variables make no settings. -/
inductive SettingsError
  /-- A value is missing or has the wrong form. -/
  | load
  | urlBlank
  | zero (field : String)
deriving DecidableEq, Repr

def SettingsError.message : SettingsError → String
  | .load => "failed to load configuration"
  | .urlBlank => "invalid configuration: database.url must be set"
  | .zero f => "invalid configuration: worker." ++ f ++ " must be positive"

namespace Tree

/-- A child that may be missing; one that is there has to be readable. -/
def field (t : Tree) (name : String) (read : Tree → Option α) (default : α) : Option α :=
  match t with
  | .branch cs =>
    match child? name cs with
    | some u => read u
    | none => some default
  | _ => none

def required (t : Tree) (name : String) (read : Tree → Option α) : Option α :=
  match t with
  | .branch cs => (child? name cs).bind read
  | _ => none

def word? : Tree → Option UInt32
  | .leaf v => (v.count? UInt32.size).map UInt32.ofNat
  | _ => none

def long? : Tree → Option UInt64
  | .leaf v => (v.count? UInt64.size).map UInt64.ofNat
  | _ => none

def text? : Tree → Option String
  | .leaf v => some v.shown
  | _ => none

/-- A name in any case: a text, or the only child of a branch. -/
def name? : Tree → Option String
  | .leaf v => v.name?.map fun s => String.ofList (Text.lower s)
  | .branch [(k, _)] => some (String.ofList (Text.lower k))
  | _ => none

def order? (t : Tree) : Option SortOrder := t.name?.bind SortOrder.ofText?

def logFormat? (t : Tree) : Option LogFormat := t.name?.bind LogFormat.ofText?

end Tree

namespace DatabaseSettings

def ofTree? (t : Tree) : Option DatabaseSettings := do
  let url ← t.required "url" Tree.text?
  let d : DatabaseSettings := { url }
  some
    { url
      maxConnections := ← t.field "max_connections" Tree.word? d.maxConnections
      acquireTimeoutSecs := ← t.field "acquire_timeout_secs" Tree.long? d.acquireTimeoutSecs
      lockTimeoutMs := ← t.field "lock_timeout_ms" Tree.long? d.lockTimeoutMs }

end DatabaseSettings

namespace WorkerSettings

def ofTree? (t : Tree) : Option WorkerSettings := do
  let d : WorkerSettings := {}
  some
    { name := ← t.field "name" Tree.text? d.name
      pickSize := ← t.field "pick_size" Tree.long? d.pickSize
      execSize := ← t.field "exec_size" Tree.long? d.execSize
      execTimeoutSecs := ← t.field "exec_timeout_secs" Tree.long? d.execTimeoutSecs
      pollIntervalMs := ← t.field "poll_interval_ms" Tree.long? d.pollIntervalMs
      shutdownGraceSecs := ← t.field "shutdown_grace_secs" Tree.long? d.shutdownGraceSecs
      order := ← t.field "order" Tree.order? d.order }

def config (s : WorkerSettings) : WorkerConfig where
  name := s.name
  pickSize := s.pickSize
  execSize := s.execSize.toNat
  execTimeout := s.execTimeoutSecs.toNat * 1000
  pollInterval := s.pollIntervalMs.toNat
  shutdownGrace := s.shutdownGraceSecs.toNat * 1000
  order := s.order

end WorkerSettings

namespace Settings

def ofTree? (t : Tree) : Option Settings := do
  some
    { database := ← t.required "database" DatabaseSettings.ofTree?
      worker := ← t.field "worker" WorkerSettings.ofTree? {}
      logFormat := ← t.field "log_format" Tree.logFormat? .json }

/-- The first rule that the settings break. -/
def fault? (s : Settings) : Option SettingsError :=
  if Text.isBlank s.database.url then some .urlBlank
  else if s.worker.pickSize = 0 then some (.zero "pick_size")
  else if s.worker.execSize = 0 then some (.zero "exec_size")
  else if s.worker.execTimeoutSecs = 0 then some (.zero "exec_timeout_secs")
  else if s.worker.pollIntervalMs = 0 then some (.zero "poll_interval_ms")
  else none

/-- The settings that the variables of one family make: those whose names begin with `start`, in any
case. -/
def ofVars (start : String) (vars : List (String × String)) : Except SettingsError Settings :=
  match ofTree? (Tree.ofVars start vars) with
  | none => .error .load
  | some s =>
    match s.fault? with
    | some e => .error e
    | none => .ok s

end Settings

end JobEngine
