import JobEngine.Simulation.Scheduler
import JobEngine.Worker.Lifecycle
import JobEngine.Worker.Machine

/-!
# A worker in simulated time

* `WorkerRun`        a worker, its tasks and its alarms;
* `WorkerRun.start`  a worker that begins, perhaps to be cancelled at a tick;
* `WorkerRun.run`    all that happens until it has stopped.

A worker is also cancelled when its surroundings say so.  Where it could take a permit as well as
notice of a cancellation it takes the permit.  Units that it aborts are dropped at once.
-/

namespace JobEngine

/-- What the tasks of a worker give. -/
inductive WorkResult
  | ids (r : Except JobError (List JobId))
  | unit (r : Except JobError Unit)

/-- What a worker runs on. -/
structure Workplace (E : Effects) (S : Type) where
  surroundings : Surroundings E S
  lifecycle : Lifecycle E
  emit : S → LogLine → S
  /-- Whether the worker has been asked to stop. -/
  signalled : S → Bool := fun _ => false

structure WorkerRun (E : Effects) (S : Type) where
  config : WorkerConfig
  worker : Worker
  sim : Sim E S WorkResult
  /-- The task that lists, and whether it lists abandoned jobs. -/
  listing : Option (Nat × Bool) := none
  /-- Tasks and their units. -/
  units : List (Nat × Nat) := []
  cancelAlarm : Option Nat := none
  restAlarm : Option Nat := none
  graceAlarm : Option Nat := none
  /-- The alarm by which the worker is told that a unit has ended. -/
  poke : Option Nat := none

namespace WorkerRun

variable {E : Effects} {S : Type}

/-- Do what the worker orders. -/
def obey (p : Workplace E S) (r : WorkerRun E S) : Worker.Order → WorkerRun E S
  | .log l => { r with sim := { r.sim with state := p.emit r.sim.state l } }
  | .listAbandoned =>
    let (task, sim) := r.sim.spawnFirst (p.lifecycle.abandoned.bind fun x => .done (.ids x))
    { r with sim, listing := some (task, true) }
  | .listDue limit order =>
    let (task, sim) := r.sim.spawnFirst ((p.lifecycle.due limit order).bind fun x => .done (.ids x))
    { r with sim, listing := some (task, false) }
  | .clean unit id =>
    let (task, sim) := r.sim.spawn ((p.lifecycle.clean id).bind fun x => .done (.unit x))
    { r with sim, units := r.units ++ [(task, unit)] }
  | .run unit id deadline =>
    let (task, sim) := r.sim.spawn ((p.lifecycle.run id deadline).bind fun x => .done (.unit x))
    { r with sim, units := r.units ++ [(task, unit)] }
  | .rest millis =>
    let (key, sim) := r.sim.alarmAt (r.sim.now + millis)
    { r with sim, restAlarm := some key }
  | .grace millis =>
    let (key, sim) := r.sim.alarmAt (r.sim.now + millis)
    { r with sim, graceAlarm := some key }
  | .abort units =>
    let tasks := (r.units.filter fun t => units.contains t.2).map Prod.fst
    { r with sim := r.sim.abandon p.surroundings tasks }

/-- Let an event happen; one that cannot is passed over. -/
def feed (p : Workplace E S) (r : WorkerRun E S) (e : Worker.Event) : WorkerRun E S :=
  match r.worker.step r.config e with
  | none => r
  | some (worker, orders) => orders.foldl (obey p) { r with worker }

/-- What the worker does next of its own accord. -/
def choice (w : Worker) : Option Worker.Event :=
  match w.phase with
  | .sweeping _ => if w.free = 0 then none else some .dispatch
  | .dispatching _ =>
    if w.free ≠ 0 then some .dispatch else if w.cancelled then some .quit else none
  | .resting => if w.cancelled then some .quit else none
  | .joining | .draining =>
    if w.live.isEmpty || !w.ended.isEmpty then some .join else none
  | .aborting =>
    match w.live with
    | [] => some .join
    | (unit, _) :: _ => some (.dropped unit)
  | _ => none

/-- Let the worker do what it can. -/
def settle (p : Workplace E S) : Nat → WorkerRun E S → WorkerRun E S
  | 0, r => r
  | fuel + 1, r =>
    match choice r.worker with
    | none => r
    | some e => settle p fuel (r.feed p e)

/-- The result of a listing as an event. -/
def listed (abandoned : Bool) : Option WorkResult → Worker.Event
  | some (.ids ids) => if abandoned then .abandonedListed ids else .dueListed ids
  | _ => if abandoned then .abandonedListed (.ok []) else .dueListed (.ok [])

def endingOf : Option WorkResult → Worker.Ending
  | none => .panicked
  | some (.unit (.error e)) => .failed e
  | some _ => .ok

/-- Tell the worker, behind all that is ready, that a unit has ended. -/
def tell (r : WorkerRun E S) : WorkerRun E S :=
  match r.poke with
  | some _ => r
  | none =>
    let key := r.sim.nextAlarm
    { r with
      poke := some key
      sim := { r.sim with ready := r.sim.ready ++ [.alarm key], nextAlarm := key + 1 } }

/-- What the worker makes of something that happened. -/
def react (p : Workplace E S) (fuel : Nat) (r : WorkerRun E S) :
    Happening WorkResult → WorkerRun E S
  | .waiting => r
  | .alarm key =>
    if r.cancelAlarm = some key then settle p fuel (r.feed p .cancel)
    else if r.restAlarm = some key then settle p fuel (r.feed p .wake)
    else if r.graceAlarm = some key then settle p fuel (r.feed p .graceOver)
    else if r.poke = some key then settle p fuel { r with poke := none }
    else r
  | .ended task result =>
    match r.listing with
    | some (t, abandoned) =>
      if t = task then
        settle p fuel ({ r with listing := none }.feed p (listed abandoned result))
      else unitEnded task result
    | none => unitEnded task result
where
  unitEnded (task : Nat) (result : Option WorkResult) : WorkerRun E S :=
    match r.units.find? (·.1 == task) with
    | some (_, unit) => tell (r.feed p (.unitEnded unit (endingOf result)))
    | none => r

/-- Cancel a worker that has been asked to stop. -/
def heed (p : Workplace E S) (fuel : Nat) (r : WorkerRun E S) : WorkerRun E S :=
  if p.signalled r.sim.state && !r.worker.cancelled then settle p fuel (r.feed p .cancel) else r

/-- All that happens until the worker has stopped. -/
def run (p : Workplace E S) : Nat → WorkerRun E S → WorkerRun E S
  | 0, r => r
  | fuel + 1, r =>
    if r.worker.phase = .stopped then r
    else
      match r.sim.next p.surroundings with
      | none => r
      | some (h, sim) => run p fuel (react p fuel (heed p fuel { r with sim }) h)

/-- A worker that begins now and may be cancelled after some time. -/
def start (p : Workplace E S) (config : WorkerConfig) (sim : Sim E S WorkResult)
    (cancelAfter : Option Nat) : WorkerRun E S :=
  let (worker, orders) := Worker.start config (cancelAfter = some 0)
  let (cancelAlarm, sim) := match cancelAfter with
    | none | some 0 => (none, sim)
    | some millis =>
      let (key, sim) := sim.alarmAt (sim.now + millis)
      (some key, sim)
  orders.foldl (obey p) { config, worker, sim, cancelAlarm }

/-- The surroundings without the worker's alarms. -/
def finished (r : WorkerRun E S) : Sim E S WorkResult :=
  let keys := [r.cancelAlarm, r.restAlarm, r.graceAlarm, r.poke].filterMap fun k => k
  let mine : Entry E WorkResult → Bool
    | .alarm key => keys.contains key
    | _ => false
  { r.sim with
    ready := r.sim.ready.filter fun e => !mine e
    timers := r.sim.timers.filter fun t => !mine t.2 }

end WorkerRun

end JobEngine
