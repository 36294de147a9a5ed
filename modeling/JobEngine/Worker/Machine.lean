import JobEngine.Event.Log
import JobEngine.Execution.Error
import JobEngine.Worker.Config

/-!
# The worker

A worker puts abandoned jobs back, then polls for due jobs and runs each in a unit of its own, as
many at once as it has permits.  When it is cancelled it starts no more, waits for its units, and
aborts those that take too long.

* `Worker`          where a worker stands;
* `Worker.Event`    what may happen to it, or what it may choose to do;
* `Worker.Order`    what it then asks for;
* `Worker.step`     the state and the orders behind an event, if the event can happen.

A worker that could go on as well as stop may do either.  A unit that is aborted keeps its permit
until it is dropped, and may still end by itself before.
-/

namespace JobEngine

/-- Counters of a worker's run. -/
structure WorkerStats where
  recovered : Nat := 0
  dispatched : Nat := 0
  completed : Nat := 0
  failed : Nat := 0
deriving DecidableEq, Repr, Inhabited

def WorkerStats.display (s : WorkerStats) : String :=
  "WorkerStatsSnapshot \x7b recovered: " ++ s!"{s.recovered}, dispatched: {s.dispatched}" ++
    s!", completed: {s.completed}, failed: {s.failed} " ++ "\x7d"

namespace Worker

inductive Phase
  /-- The abandoned jobs are being listed. -/
  | starting
  /-- The head of the list waits for a permit. -/
  | sweeping (todo : List JobId)
  /-- All of the sweep is under way. -/
  | joining
  | polling
  /-- The head of the list waits for a permit. -/
  | dispatching (todo : List JobId)
  | resting
  | draining
  /-- The units left have been aborted. -/
  | aborting
  | stopped
deriving DecidableEq, Repr

/-- How a unit ends by itself. -/
inductive Ending
  | ok
  | failed (e : JobError)
  | panicked
deriving DecidableEq, Repr

inductive Event
  | abandonedListed (r : Except JobError (List JobId))
  | dueListed (r : Except JobError (List JobId))
  /-- A permit is taken for the head of the list. -/
  | dispatch
  | unitEnded (unit : Nat) (how : Ending)
  /-- A unit that was aborted is gone. -/
  | dropped (unit : Nat)
  /-- Units that have ended are looked after. -/
  | join
  | cancel
  /-- The worker takes notice of the cancellation. -/
  | quit
  /-- The pause between polls is over. -/
  | wake
  | graceOver

inductive Order
  | listAbandoned
  | listDue (limit : UInt64) (order : SortOrder)
  | clean (unit : Nat) (id : JobId)
  | run (unit : Nat) (id : JobId) (deadline : Nat)
  | log (l : LogLine)
  /-- Wake the worker after a pause. -/
  | rest (millis : Nat)
  /-- Tell the worker when its patience is over. -/
  | grace (millis : Nat)
  | abort (units : List Nat)
deriving DecidableEq

end Worker

structure Worker where
  phase : Worker.Phase := .starting
  /-- Permits that no unit has. -/
  free : Nat
  /-- Units alive, with the job of each. -/
  live : List (Nat × JobId) := []
  /-- Of the units that have ended and were not looked after, whether each broke down. -/
  ended : List Bool := []
  stats : WorkerStats := {}
  cancelled : Bool := false
  panicked : Nat := 0
  aborted : Nat := 0
  nextUnit : Nat := 0
deriving DecidableEq

namespace Worker

def start (c : WorkerConfig) (cancelled : Bool) : Worker × List Order :=
  ({ free := c.permits, cancelled },
    [.log (.info "worker started"
      [("pick_size", .ofLong c.pickSize), ("exec_size", .nat c.execSize),
        ("exec_timeout_secs", .nat (c.execTimeout / 1000))]), .listAbandoned])

/-- The reports of units that broke down. -/
def reports (message : String) (ended : List Bool) : List Order :=
  (ended.filter (fun b => b)).map fun _ => .log (.error message [])

def stop (w : Worker) : Worker × List Order :=
  ({ w with phase := .stopped, ended := [] },
    [.log (.info "worker stopped" [("stats", .str w.stats.display)])])

/-- No more units are started. -/
def drain (c : WorkerConfig) (w : Worker) : Worker × List Order :=
  let inFlight := w.live.length + w.ended.length
  if inFlight = 0 then w.stop
  else
    ({ w with phase := .draining },
      [.log (.info "waiting for in-flight jobs"
        [("in_flight", .nat inFlight), ("grace_secs", .nat (c.shutdownGrace / 1000))]),
        .grace c.shutdownGrace])

/-- The next round, unless the worker was cancelled. -/
def again (c : WorkerConfig) (w : Worker) : Worker × List Order :=
  if w.cancelled then w.drain c
  else ({ w with phase := .polling }, [.listDue c.pickSize c.order])

/-- The end of a round: ended units are looked after, and the worker rests. -/
def rest (c : WorkerConfig) (w : Worker) : Worker × List Order :=
  ({ w with phase := .resting, ended := [] },
    reports "execution unit panicked" w.ended ++ [.rest c.pollInterval])

/-- Orders in front of those of a step. -/
def after (orders : List Order) (next : Worker × List Order) : Worker × List Order :=
  (next.1, orders ++ next.2)

/-- A permit comes back from a unit. -/
def leave (w : Worker) (unit : Nat) : Worker :=
  { w with live := w.live.filter (·.1 != unit), free := w.free + 1 }

/-- What a unit leaves behind when it ends. -/
def ending (sweep : Bool) (w : Worker) (unit : Nat) (id : JobId) (how : Ending) :
    Worker × List Order :=
  let w := { w.leave unit with ended := w.ended ++ [decide (how = .panicked)] }
  match how, sweep with
  | .ok, true => ({ w with stats := { w.stats with recovered := w.stats.recovered + 1 } }, [])
  | .ok, false => ({ w with stats := { w.stats with completed := w.stats.completed + 1 } }, [])
  | .failed e, true =>
    (w, [.log (.error "resetting abandoned job failed"
      [("job_id", id.toJson), ("error", .str e.message)])])
  | .failed e, false =>
    ({ w with stats := { w.stats with failed := w.stats.failed + 1 } },
      [.log (.error "execution unit failed" [("job_id", id.toJson), ("error", .str e.message)])])
  | .panicked, true => (w, [])
  | .panicked, false => ({ w with panicked := w.panicked + 1 }, [])

/-- Whether the units alive belong to the sweep. -/
def Phase.isSweep : Phase → Bool
  | .starting | .sweeping _ | .joining => true
  | _ => false

/-- A permit for one more unit. -/
def hire (w : Worker) (id : JobId) : Nat × Worker :=
  (w.nextUnit,
    { w with
      free := w.free - 1, live := w.live ++ [(w.nextUnit, id)], nextUnit := w.nextUnit + 1 })

/-- The state and the orders behind an event; nothing if it cannot happen. -/
def step (c : WorkerConfig) (w : Worker) (e : Event) : Option (Worker × List Order) :=
  match e, w.phase with
  | .abandonedListed (.error e), .starting =>
    some (after [.log (.error "listing abandoned jobs failed" [("error", .str e.message)])]
      (w.again c))
  | .abandonedListed (.ok []), .starting => some (w.again c)
  | .abandonedListed (.ok ids), .starting =>
    some ({ w with phase := .sweeping ids },
      [.log (.info "resetting abandoned jobs" [("count", .nat ids.length)])])
  | .dispatch, .sweeping (id :: rest) =>
    if w.free = 0 then none
    else
      let (unit, w) := w.hire id
      some ({ w with phase := if rest.isEmpty then .joining else .sweeping rest },
        [.clean unit id])
  | .join, .joining =>
    let out := reports "recovery task died" w.ended
    let w := { w with ended := [] }
    some (if w.live.isEmpty then after out (w.again c) else (w, out))
  | .dueListed (.error e), .polling =>
    some (after [.log (.error "poll iteration failed" [("error", .str e.message)])] (w.rest c))
  | .dueListed (.ok []), .polling =>
    some (after [.log (.info "fetched 0 jobs" [])] (w.rest c))
  | .dueListed (.ok ids), .polling => some ({ w with phase := .dispatching ids }, [])
  | .dispatch, .dispatching (id :: rest) =>
    if w.free = 0 then none
    else
      let (unit, w) := w.hire id
      let w := { w with stats := { w.stats with dispatched := w.stats.dispatched + 1 } }
      some (after [.run unit id c.execTimeout]
        (if rest.isEmpty then w.rest c else ({ w with phase := .dispatching rest }, [])))
  | .quit, .dispatching _ => if w.cancelled then some (w.rest c) else none
  | .quit, .resting => if w.cancelled then some (w.drain c) else none
  | .wake, .resting => some (w.again c)
  | .join, .draining =>
    let out := reports "execution unit panicked" w.ended
    let w := { w with ended := [] }
    some (if w.live.isEmpty then after out w.stop else (w, out))
  | .graceOver, .draining =>
    let left := w.live.map Prod.fst
    some ({ w with phase := .aborting, ended := [] },
      reports "execution unit panicked" w.ended ++
        [.log (.warn "grace period over, aborting in-flight jobs" [("aborted", .nat left.length)]),
          .abort left])
  | .dropped unit, .aborting =>
    if w.live.any (·.1 == unit) then some ({ w.leave unit with aborted := w.aborted + 1 }, [])
    else none
  | .join, .aborting => if w.live.isEmpty then some w.stop else none
  | .unitEnded unit how, phase =>
    match w.live.find? (·.1 == unit) with
    | some (_, id) => some (w.ending phase.isSweep unit id how)
    | none => none
  | .cancel, .stopped => none
  | .cancel, _ => some ({ w with cancelled := true }, [])
  | _, _ => none

end Worker

end JobEngine
