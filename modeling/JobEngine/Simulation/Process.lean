import JobEngine.Settings.Basic
import JobEngine.Simulation.Behaviour
import JobEngine.Simulation.Server
import JobEngine.Simulation.WorkerRun
import JobEngine.Worker.Boot

/-!
# A worker process on a scripted database

* `Plant`           the database, the actions, the clock and the log of the process;
* `Plant.bus`       its only notifier writes the log;
* `Plant.engine`    how they answer the engine;
* `Plant.operate`   the process: it connects, makes the table and runs a worker until told to stop.

The clock of the process stands still.  The order to stop comes with a statement that is still
answered.
-/

namespace JobEngine

structure Plant where
  server : ScriptedServer
  actions : Repertoire
  now : Instant
  log : List LogLine := []
  nextId : Nat := 1
  /-- The number of the statement with which the order to stop comes. -/
  stopAt : Nat

namespace Plant

def emit (p : Plant) (l : LogLine) : Plant := { p with log := p.log ++ [l] }

def store (lockTimeout : Nat) (p : Plant) (a : Asker) (c : StoreCall) : Reply c.Answer × Plant :=
  match p.server.run (Sql.perform lockTimeout c) with
  | (some answer, server) => (.now answer, { p with server })
  | (none, server) => (.broken a.now, { p with server })

def bus : Bus JobEvent := [.log 0]

def publish (p : Plant) (e : JobEvent) : Except NotifyError Unit × Plant :=
  let d := bus.publish e.topic e
  (d.outcome.map fun _ => (), d.called.foldl (fun p _ => p.emit e.logLine) p)

def answer (lockTimeout : Nat) (p : Plant) (a : Asker) : (c : EngineCall) → Reply c.Answer × Plant
  | .store c => store lockTimeout p a c
  | .clock => (.now p.now, p)
  | .publish e => let (r, p) := p.publish e; (.now r, p)
  | .invoke i =>
    let (r, actions) := p.actions.invoke a.now i
    (r, { p with actions })
  | .log l => (.now (), p.emit l)
  | .freshId => (.now ⟨BitVec.ofNat 128 p.nextId⟩, { p with nextId := p.nextId + 1 })
  | .pause ms => (if ms = 0 then .now () else .later (a.now + ms) (), p)

/-- How the process answers the engine.  No unit waits inside a session, so none is left open. -/
def engine (lockTimeout : Nat) : Surroundings Engine Plant := ⟨answer lockTimeout, fun p _ => p⟩

def signalled (p : Plant) : Bool := decide (p.stopAt ≤ p.server.received.length)

def workplace (lockTimeout : Nat) (c : Controller) : Workplace Engine Plant where
  surroundings := engine lockTimeout
  lifecycle := c.lifecycle "000000"
  emit := emit
  signalled := signalled

/-- Make the table. -/
def migrate (p : Plant) : Except StoreError Unit × Plant :=
  match p.server.run Sql.migrate with
  | (some r, server) => (r, { p with server })
  | (none, server) => (.ok (), { p with server })

/-- Run a process until it has stopped or failed to start. -/
def operate (settings : Settings) (fuel : Nat) (p : Plant) : Except BootError Unit × Plant :=
  match p.server.connect with
  | .error e => (.error (.connecting e), p)
  | .ok () =>
    match p.migrate with
    | (.error e, p) => (.error (.migrating e), p)
    | (.ok (), p) =>
      let kinds := Json.str (Text.quotedList p.actions.kinds)
      let p := p.emit (.info "job engine ready" [("actions", kinds)])
      let place := workplace settings.database.lockTimeoutMs.toNat ⟨p.actions.kinds⟩
      let run := WorkerRun.run place fuel
        (WorkerRun.start place settings.worker.config { state := p } none)
      (.ok (), run.sim.state)

end Plant

end JobEngine
