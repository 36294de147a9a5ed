import JobEngine.Execution.Controller
import JobEngine.Simulation.Trouble
import JobEngine.Simulation.World
import JobEngine.Worker.Machine

/-!
# Steps of a scenario, and what is reported of them

* `Step`     what a scenario does: on the controller, in contexts, on the store and around it;
* `Report`   what comes of a step, `Notes` what was seen meanwhile.

A part of a step that cannot be understood is found out when the step needs it.
-/

namespace JobEngine

/-- A job as a step names it: an identifier, or the name of a job made in the scenario. -/
abbrev JobRef := Checked String

/-- How a session is ended. -/
inductive SessionEnd
  | commit
  | rollback
  | drop
deriving DecidableEq, Repr

/-- How a transaction scope is left. -/
inductive ScopeEnd
  | ok
  | err
  | drop
deriving DecidableEq, Repr

inductive ContextKind
  | forJob (id : JobRef)
  | fresh
  | named (correlationId : String)

inductive Step
  | create (request : Checked NewJob)
  | get (id : JobRef)
  | update (id : JobRef) (changes : Checked Changes)
  | fetch (id : JobRef)
  | prepare (id : JobRef)
  | execute (id : JobRef) (deadline : Nat)
  | reset (id : JobRef)
  /-- The query may name jobs. -/
  | list (query : (String → Checked JobId) → Checked Query)
  | due (limit : Nat) (order : Checked SortOrder)
  | abandoned
  | run (id : JobRef) (deadline : Nat)
  | race (ids : List JobRef) (deadline : Nat)
  | clean (id : JobRef)
  | worker (config : Checked WorkerConfig) (millis : Nat)
  | debug
  | received (name : String)
  | context (kind : ContextKind) (body : List Step)
  | transaction (body : List Step) (ending : ScopeEnd)
  | lock (body : List Step)
  | flags
  | footprint (millis : Nat) (ok : Option Json)
  | insert (job : Checked Job)
  | peek (id : JobRef)
  | storeUpdate (id : JobRef) (changes : Checked Changes)
  | locked
  | jobs
  | begin (tx : Checked String)
  | txGet (tx : Checked String) (id : JobRef) (lock : Bool)
  | txUpdate (tx : Checked String) (id : JobRef) (changes : Checked Changes)
  | close (tx : Checked String) (how : SessionEnd)
  | later (tx : Checked String) (how : SessionEnd) (millis : Nat)
  | fault (point : FaultPoint) (fault : Fault)
  | sleep (millis : Nat)
  | clock (now : Checked Instant)
  | unclear (why : Trouble)

instance : Inhabited Step := ⟨.flags⟩

/-- The marks of a context. -/
structure Flags where
  inTransaction : Bool
  inLock : Bool
deriving DecidableEq

/-- What was seen during a step: its end, events with tick and notifier, and log lines. -/
structure Notes where
  t : Nat
  events : List (Nat × String × Bool × JobEvent)
  log : List LogLine

/-- How a unit of work ended; without a word if it broke down. -/
abbrev UnitEnd := Option (Except JobError Unit)

inductive Report
  | trouble (why : Trouble)
  | ok
  | job (j : Job)
  | found (j : Option Job)
  | busy
  | outcome (o : Outcome)
  | ids (ids : List JobId)
  | page (p : Page) (hasMore : Bool)
  | run (r : UnitEnd)
  | race (rs : List UnitEnd)
  | stats (s : WorkerStats)
  | debug (controller : String) (kinds : List String)
  | received (name : String) (events : List JobEvent)
  | context (body : List (Notes × Report)) (id : String) (suffix : Bool) (after : Flags)
  | transaction (outermost : Bool) (body : List (Notes × Report))
      (ending : Option (Except JobError Unit)) (after : Flags) (locked : Nat)
  | lock (inside : Flags) (body : List (Notes × Report)) (after : Flags)
  | flags (f : Flags) (debug : Option String)
  | value (v : Json)
  | filed (id : JobId)
  | affected (rows : Nat)
  | locked (rows : Nat)
  | jobs (js : List Job)
  | closed (locked : Nat)

end JobEngine
