import JobEngine.Event.Log
import JobEngine.Execution.Error
import JobEngine.Execution.Program
import JobEngine.Store.Call

/-!
# What the engine asks of its surroundings

* `Invocation`     one attempt at a job's action;
* `Engine`         the store, the clock, the notifiers, the actions and the log;
* `Run`            an operation of the engine, which may fail.
-/

namespace JobEngine

/-- What an action gets to know. -/
structure Invocation where
  kind : String
  params : Json
  job : JobId
  project : ProjectId
  attempt : UInt32
  isLastChance : Bool
  /-- How long the attempt may take, in milliseconds. -/
  deadline : Nat
deriving DecidableEq

/-- The questions of the engine. -/
inductive EngineCall
  | store (c : StoreCall)
  /-- What time is it? -/
  | clock
  | publish (e : JobEvent)
  | invoke (i : Invocation)
  | log (l : LogLine)
  /-- An identifier that is new. -/
  | freshId
  | pause (millis : Nat)

/-- An action that overruns its deadline gives no answer of its own. -/
def EngineCall.Answer : EngineCall → Type
  | store c => c.Answer
  | clock => Instant
  | publish _ => Except NotifyError Unit
  | invoke _ => Option (Except ActionError Json)
  | log _ => Unit
  | freshId => JobId
  | pause _ => Unit

abbrev Engine : Effects := ⟨EngineCall, EngineCall.Answer⟩

/-- An operation of the engine. -/
abbrev Run (α : Type) := ExceptT JobError (Program Engine) α

namespace Run

def store (c : StoreCall) : Program Engine c.Answer := @Program.ask Engine (.store c)

def clock : Program Engine Instant := @Program.ask Engine .clock

def log (l : LogLine) : Program Engine Unit := @Program.ask Engine (.log l)

def freshId : Program Engine JobId := @Program.ask Engine .freshId

def pause (millis : Nat) : Program Engine Unit := @Program.ask Engine (.pause millis)

/-- A question whose failure is a failure of the operation. -/
def check (p : Program Engine (Except ε α)) (wrap : ε → JobError) : Run α :=
  ExceptT.mk (p.bind fun
    | .ok a => .done (.ok a)
    | .error e => .done (.error (wrap e)))

/-- A rule whose breach is a failure of the operation. -/
def rule (r : Except DomainError α) : Run α := check (.done r) .domain

def publish (e : JobEvent) : Run Unit :=
  check (@Program.ask Engine (.publish e)) .notify

end Run

end JobEngine
