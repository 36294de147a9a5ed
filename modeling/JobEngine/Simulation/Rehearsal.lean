import JobEngine.Simulation.WorkerRun
import JobEngine.Store.Table

/-!
# A worker over a scripted lifecycle

* `Script`             what the listings answer and how the units behave;
* `Rehearsal.perform`  the run of a worker over a script.

Every call of the lifecycle, and every end of a unit, is noted with its tick.
-/

namespace JobEngine

/-- How a scripted unit behaves. -/
structure Part where
  millis : Nat := 0
  /-- What it fails with at its end. -/
  fail : Option String := none
  panic : Bool := false
deriving DecidableEq, Inhabited

structure Script where
  abandoned : Except JobError (List JobId) := .ok []
  /-- The answers of the polls; behind them nothing is due. -/
  due : List (Except JobError (List JobId)) := []
  units : Table JobId Part := []
  cleans : Table JobId Part := []

namespace Rehearsal

/-- A call that was noted: its name, the job and the argument. -/
inductive Noted
  | abandoned
  | due (limit : UInt64) (order : SortOrder)
  | run (id : JobId) (deadline : Nat)
  | ran (id : JobId)
  | clean (id : JobId)
  | cleaned (id : JobId)
deriving DecidableEq

namespace Noted

def name : Noted → String
  | abandoned => "abandoned"
  | due _ _ => "due"
  | run _ _ => "run"
  | ran _ => "ran"
  | clean _ => "clean"
  | cleaned _ => "cleaned"

def job? : Noted → Option JobId
  | abandoned | due _ _ => none
  | run id _ | ran id | clean id | cleaned id => some id

/-- What calls of one tick are sorted by. -/
def label (n : Noted) : String × String := (n.name, (n.job?.map Uuid.text).getD "")

end Noted

inductive Call
  | note (n : Noted)
  | poll
  | pause (millis : Nat)

def Call.Answer : Call → Type
  | note _ => Unit
  | poll => Except JobError (List JobId)
  | pause _ => Unit

abbrev Stage : Effects := ⟨Call, Call.Answer⟩

structure State where
  due : List (Except JobError (List JobId))
  noted : List (Nat × Noted) := []
  log : List LogLine := []

def note (n : Noted) : Program Stage Unit := @Program.ask Stage (.note n)

/-- A unit that is noted at its start and at its end. -/
def play (part : Part) (start finish : Noted) : Program Stage (Except JobError Unit) := do
  note start
  @Program.ask Stage (.pause part.millis)
  note finish
  if part.panic then .crash
  else
    match part.fail with
    | some s => pure (.error (.store (.storage s)))
    | none => pure (.ok ())

def lifecycle (s : Script) : Lifecycle Stage where
  abandoned := do
    note .abandoned
    pure s.abandoned
  due limit order := do
    note (.due limit order)
    @Program.ask Stage .poll
  clean id := play ((s.cleans.get? id).getD {}) (.clean id) (.cleaned id)
  run id deadline := play ((s.units.get? id).getD {}) (.run id deadline) (.ran id)

def answer (s : State) (a : Asker) : (c : Call) → Reply c.Answer × State
  | .note n => (.now (), { s with noted := s.noted ++ [(a.now, n)] })
  | .poll =>
    match s.due with
    | [] => (.now (.ok []), s)
    | r :: rest => (.now r, { s with due := rest })
  | .pause ms => (if ms = 0 then .now () else .later (a.now + ms) (), s)

def workplace (s : Script) : Workplace Stage State where
  surroundings := ⟨answer, fun s _ => s⟩
  lifecycle := lifecycle s
  emit st l := { st with log := st.log ++ [l] }

/-- The run of a worker over a script, cancelled after some time. -/
def perform (s : Script) (config : WorkerConfig) (cancelAfter fuel : Nat) :
    WorkerRun Stage State :=
  let p := workplace s
  WorkerRun.run p fuel (WorkerRun.start p config { state := { due := s.due } } (some cancelAfter))

/-- Calls come by tick, then by name and job. -/
def before (a b : Nat × Noted) : Bool :=
  let (name, id) := a.2.label
  let (name', id') := b.2.label
  decide (a.1 < b.1) ||
    (a.1 == b.1 && (decide (name < name') || (name == name' && decide (id ≤ id'))))

/-- The calls of a run in order. -/
def calls (r : WorkerRun Stage State) : List (Nat × Noted) := r.sim.state.noted.mergeSort before

end Rehearsal

end JobEngine
