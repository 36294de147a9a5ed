import JobEngine.Simulation.Step
import JobEngine.Simulation.WorkerRun

/-!
# Scenarios of an engine over a store in memory

* `Scenario`           the simulation, the names in use and the snapshots that were read;
* `Scenario.perform`   the reports of a list of steps.

A step runs in the context around it.  Jobs made in a scenario are named `job-1`, `job-2`, … in the
order in which they were made.
-/

namespace JobEngine

structure Scenario where
  sim : Sim Engine World WorkResult
  controller : Controller
  /-- Jobs made here, oldest first. -/
  made : List JobId := []
  sessions : Table String SessionId := []
  /-- Each job as a step last read it. -/
  snapshots : Table JobId Job := []

namespace Scenario

/-- The mark of all contexts. -/
def tag : String := "000000"

/-- More turns than any scenario takes. -/
def turns : Nat := 1000000000

/-- The task that asks as the engine does, and the one that uses the store directly. -/
def engineTask : Nat := 0
def directTask : Nat := 1

def world (s : Scenario) : World := s.sim.state

def mapWorld (s : Scenario) (f : World → World) : Scenario :=
  { s with sim := { s.sim with state := f s.sim.state } }

/-! ## names -/

/-- The job of a name such as `job-3`. -/
def named? (s : Scenario) (name : String) : Option JobId :=
  match (name.drop 4).toNat? with
  | some (n + 1) => if name = s!"job-{n + 1}" then s.made[n]? else none
  | _ => none

def resolve (s : Scenario) (r : JobRef) : Checked JobId := do
  let name ← r
  if name.startsWith "job-" then
    match s.named? name with
    | some id => .ok id
    | none => .error (.badInput ("no job is named " ++ name))
  else (JobId.parse name).mapError .domain

def session (s : Scenario) (tx : Checked String) : Checked (String × SessionId) := do
  let name ← tx
  match s.sessions.get? name with
  | some id => .ok (name, id)
  | none => .error (.badInput ("no session " ++ name))

def snapshot (s : Scenario) (id : JobId) : Checked Job :=
  match s.snapshots.get? id with
  | some j => .ok j
  | none => .error (.badInput "no snapshot of this job was read")

def remember (s : Scenario) (j : Job) : Scenario :=
  { s with snapshots := s.snapshots.set j.id j }

/-! ## running things -/

/-- Run an operation of the engine to its end. -/
def engine (s : Scenario) (r : Run α) : Checked α × Scenario :=
  let (result, sim) := s.sim.runMain World.engine engineTask turns none r.run
  let result := match result with
    | none => .error .panic
    | some (.error e) => .error (.job e)
    | some (.ok a) => .ok a
  (result, { s with sim })

/-- Ask the store directly. -/
def direct (s : Scenario) (c : StoreCall) (wrap : c.Answer → Except StoreError α) :
    Checked α × Scenario :=
  let (result, sim) := s.sim.runMain World.engine directTask turns none (Run.store c)
  let result := match result.map wrap with
    | none => .error .panic
    | some (.error e) => .error (.store e)
    | some (.ok a) => .ok a
  (result, { s with sim })

/-- A report of what came of something. -/
def report (r : Checked Report) : Report :=
  match r with
  | .ok r => r
  | .error e => .trouble e

/-- An operation of the engine on what a step names. -/
def operate (s : Scenario) (r : Checked (Run α)) (tell : α → Report) : Report × Scenario :=
  match r with
  | .error e => (.trouble e, s)
  | .ok r =>
    let (result, s) := s.engine r
    (report (result.map tell), s)

/-- The same for an operation whose answer is a job to remember. -/
def operateJob (s : Scenario) (r : Checked (Run Job)) : Report × Scenario :=
  match r with
  | .error e => (.trouble e, s)
  | .ok r =>
    match s.engine r with
    | (.ok j, s) => (.job j, s.remember j)
    | (.error e, s) => (.trouble e, s)

def fetch (s : Scenario) (ctx : Context) (r : JobRef) : Report × Scenario :=
  match s.resolve r with
  | .error e => (.trouble e, s)
  | .ok id =>
    match s.engine (ctx.fetch id) with
    | (.ok (some j), s) => (.job j, s.remember j)
    | (.ok none, s) => (.busy, s)
    | (.error e, s) => (.trouble e, s)

def create (s : Scenario) (r : Checked NewJob) : Report × Scenario :=
  match r with
  | .error e => (.trouble e, s)
  | .ok request =>
    match s.engine (s.controller.create request) with
    | (.ok j, s) => (.job j, { s with made := s.made ++ [j.id] }.remember j)
    | (.error e, s) => (.trouble e, s)

/-! ## units of work -/

def unitEnd : Option WorkResult → UnitEnd
  | some (.unit r) => some r
  | some (.ids _) => some (.ok ())
  | none => none

/-- Units started one after another, each as far as it gets. -/
def race (s : Scenario) (ids : List JobId) (deadline : Nat) : List UnitEnd × Scenario :=
  let (tasks, sim) := ids.foldl (fun (tasks, sim) id =>
    let unit := s.controller.runJob (.forJob tag id) id deadline
    let (task, sim) := Sim.spawn sim (unit.run.bind fun r => .done (.unit r))
    (tasks ++ [task], sim)) (([] : List Nat), s.sim)
  let (ended, sim) := sim.untilEnded World.engine tasks turns []
  let ends := tasks.map fun t =>
    match ended.find? (·.1 == t) with
    | some (_, r) => unitEnd r
    | none => none
  (ends, { s with sim })

def worker (s : Scenario) (config : WorkerConfig) (millis : Nat) : WorkerStats × Scenario :=
  let p : Workplace Engine World :=
    { surroundings := World.engine, lifecycle := s.controller.lifecycle tag, emit := World.emit }
  let r := WorkerRun.run p turns (WorkerRun.start p config s.sim (some millis))
  (r.worker.stats, { s with sim := r.finished })

/-! ## sessions -/

def sessionEnd (how : SessionEnd) (id : SessionId) : Program Engine Unit :=
  match how with
  | .commit => do let _ ← Run.store (.commit id)
  | .rollback => do let _ ← Run.store (.rollback id)
  | .drop => Run.store (.discard id)

def close (s : Scenario) (tx : Checked String) (how : SessionEnd) : Report × Scenario :=
  match s.session tx with
  | .error e => (.trouble e, s)
  | .ok (name, id) =>
    let (_, sim) := s.sim.runMain World.engine directTask turns none (sessionEnd how id)
    (.closed sim.state.memory.lockedRows, { s with sim, sessions := s.sessions.erase name })

def later (s : Scenario) (tx : Checked String) (how : SessionEnd) (millis : Nat) :
    Report × Scenario :=
  match s.session tx with
  | .error e => (.trouble e, s)
  | .ok (name, id) =>
    let (task, sim) := s.sim.spawn do
      Run.pause millis
      sessionEnd how id
      pure (.unit (.ok ()))
    let s := { s with sim, sessions := s.sessions.erase name }
    (.ok, s.mapWorld fun w => { w with direct := task :: w.direct })

/-- A new session under a name; one that had the name is dropped. -/
def begin (s : Scenario) (tx : Checked String) : Report × Scenario :=
  match tx with
  | .error e => (.trouble e, s)
  | .ok name =>
    match s.direct .begin (fun r => r) with
    | (.error e, s) => (.trouble e, s)
    | (.ok id, s) =>
      let s := match s.sessions.get? name with
        | some old => s.mapWorld fun w => { w with memory := w.memory.close old }
        | none => s
      (.ok, { s with sessions := s.sessions.set name id })

def txGet (s : Scenario) (tx : Checked String) (r : JobRef) (lock : Bool) : Report × Scenario :=
  match (do let (_, id) ← s.session tx; let job ← s.resolve r; pure (id, job)) with
  | .error e => (.trouble e, s)
  | .ok (id, job) =>
    let (result, s) := s.direct (.get id job lock) (fun r => r)
    (report (result.map .found), s)

def txUpdate (s : Scenario) (tx : Checked String) (r : JobRef) (c : Checked Changes) :
    Report × Scenario :=
  match (do let (_, id) ← s.session tx; let job ← s.resolve r; pure (id, job, ← c)) with
  | .error e => (.trouble e, s)
  | .ok (id, job, c) =>
    let (result, s) := s.direct (.update id job c) (fun r => r)
    (report (result.map .affected), s)

def storeUpdate (s : Scenario) (r : JobRef) (c : Checked Changes) : Report × Scenario :=
  match (do let job ← s.resolve r; pure (job, ← c)) with
  | .error e => (.trouble e, s)
  | .ok (job, c) =>
    let (result, s) := s.direct (.write job c) (fun r => r)
    (report (result.map .affected), s)

def insert (s : Scenario) (j : Checked Job) : Report × Scenario :=
  match j with
  | .error e => (.trouble e, s)
  | .ok j =>
    let (result, s) := s.direct (.insert j) (fun r => r)
    (report (result.map .filed), s)

def peek (s : Scenario) (r : JobRef) : Report × Scenario :=
  match s.resolve r with
  | .error e => (.trouble e, s)
  | .ok id =>
    match s.direct (.read id) (fun r => r) with
    | (.ok (some j), s) => (.found (some j), s.remember j)
    | (.ok none, s) => (.found none, s)
    | (.error e, s) => (.trouble e, s)

/-! ## steps -/

def flags (c : Context) : Flags := ⟨c.inTransaction, c.inLock⟩

def received (s : Scenario) (name : String) : Report :=
  let isRecorder (n : Notifier JobEvent) : Bool :=
    n.name == name && s.world.styles.get? n.key == some .recorder
  match s.world.bus.find? isRecorder with
  | some n => .received name (s.world.journal.received n.key)
  | none => .trouble (.badInput ("no notifier " ++ name))

/-- A step that has no body. -/
def simple (s : Scenario) (ctx : Context) : Step → Report × Scenario
  | .create r => s.create r
  | .get id => s.operateJob ((s.resolve id).map Run.get)
  | .update id c =>
    s.operate (do let id ← s.resolve id; pure (ctx.update id (← c))) fun _ => .ok
  | .fetch id => s.fetch ctx id
  | .prepare id =>
    s.operateJob (do let id ← s.resolve id; pure (ctx.prepare (← s.snapshot id)))
  | .execute id deadline =>
    s.operate (do
      let id ← s.resolve id
      pure (s.controller.execute ctx (← s.snapshot id) deadline)) .outcome
  | .reset id =>
    s.operate (do let id ← s.resolve id; pure (ctx.reset (← s.snapshot id))) fun _ => .ok
  | .list q =>
    s.operate ((q fun name => s.resolve (.ok name)).map Run.list) fun p =>
      match p.hasMore? with
      | some b => .page p b
      | none => .trouble .panic
  | .due limit order => s.operate (order.map fun o => Run.due (UInt64.ofNat limit) o) .ids
  | .abandoned => s.operate (pure Run.abandoned) .ids
  | .run id deadline =>
    match s.resolve id with
    | .error e => (.trouble e, s)
    | .ok id =>
      let (ends, s) := s.race [id] deadline
      (.run (ends.headD none), s)
  | .race ids deadline =>
    match ids.mapM s.resolve with
    | .error e => (.trouble e, s)
    | .ok ids =>
      let (ends, s) := s.race ids deadline
      (.race ends, s)
  | .clean id =>
    s.operate ((s.resolve id).map fun id => Run.cleanJob (.forJob tag id) id) fun _ => .ok
  | .worker config millis =>
    match config with
    | .error e => (.trouble e, s)
    | .ok config =>
      let (stats, s) := s.worker config millis
      (.stats stats, s)
  | .debug =>
    (.debug (s.controller.display (s.world.bus.map Notifier.name)) s.controller.kinds, s)
  | .received name => (s.received name, s)
  | .flags =>
    (.flags (flags ctx) (if ctx.correlationId = "unit" then some ctx.display else none), s)
  | .footprint millis ok =>
    s.operate (pure (Run.footprint "scenario" do
      Run.pause millis
      match ok with
      | some v => pure v
      | none => throw (.unknownAction "scenario"))) .value
  | .insert j => s.insert j
  | .peek id => s.peek id
  | .storeUpdate id c => s.storeUpdate id c
  | .locked => (.locked s.world.memory.lockedRows, s)
  | .jobs => (.jobs s.world.memory.rows.values, s)
  | .begin tx => s.begin tx
  | .txGet tx id lock => s.txGet tx id lock
  | .txUpdate tx id c => s.txUpdate tx id c
  | .close tx how => s.close tx how
  | .later tx how millis => s.later tx how millis
  | .fault point f => (.ok, s.mapWorld fun w => w.planFault point f)
  | .sleep millis =>
    let (_, sim) := s.sim.runMain World.engine engineTask turns none (Run.pause millis)
    (.ok, { s with sim })
  | .clock now =>
    match now with
    | .error e => (.trouble e, s)
    | .ok now => (.ok, s.mapWorld fun w => { w with shows := now, setAt := s.sim.now })
  | .unclear why => (.trouble why, s)
  | .context _ _ | .transaction _ _ | .lock _ => (.ok, s)

/-- What was seen since the last report. -/
def takeNotes (s : Scenario) : Notes × Scenario :=
  (⟨s.sim.now, s.world.events, s.world.log⟩,
    s.mapWorld fun w => { w with events := [], log := [] })

/-- The context that a step asks for, and whether its correlation id ends as it should. -/
def newContext (s : Scenario) : ContextKind → Checked (Context × Bool)
  | .forJob r => (s.resolve r).map fun id =>
    let ctx := Context.forJob tag id
    (ctx, ctx.correlationId.endsWith id.short)
  | .fresh => .ok (.fresh tag, true)
  | .named id => .ok ({ correlationId := id }, true)

/-- Leave a scope that was entered. -/
def leave (s : Scenario) (scope : Scope) : ScopeEnd → Option (Except JobError Unit) × Scenario
  | .drop =>
    let (_, sim) := s.sim.runMain World.engine engineTask turns none scope.drop
    (none, { s with sim })
  | how =>
    let result : Except JobError Unit := match how with
      | .err => .error (.unknownAction "scenario")
      | _ => .ok ()
    let (r, sim) := s.sim.runMain World.engine engineTask turns none (scope.finish result).run
    (some (r.getD (.ok ())), { s with sim })

mutual

def step (s : Scenario) (ctx : Context) : Step → Report × Scenario
  | .context kind body =>
    match s.newContext kind with
    | .error e => (.trouble e, s)
    | .ok (inner, suffix) =>
      let (rows, s) := steps s inner body
      (.context rows inner.correlationId suffix (flags inner), s)
  | .transaction body how =>
    match s.engine ctx.enter with
    | (.error e, s) => (.trouble e, s)
    | (.ok scope, s) =>
      let (rows, s) := steps s scope.ctx body
      let (ending, s) := s.leave scope how
      (.transaction scope.outermost rows ending (flags ctx) s.world.memory.lockedRows, s)
  | .lock body =>
    let (rows, s) := steps s ctx.locking body
    (.lock (flags ctx.locking) rows (flags ctx), s)
  | other => s.simple ctx other

def steps (s : Scenario) (ctx : Context) : List Step → List (Notes × Report) × Scenario
  | [] => ([], s)
  | first :: rest =>
    let (report, s) := step s ctx first
    let (notes, s) := s.takeNotes
    let (rows, s) := steps s ctx rest
    ((notes, report) :: rows, s)

end

/-- The reports of a scenario, and where it ends. -/
def perform (s : Scenario) (script : List Step) : List (Notes × Report) × Scenario :=
  let s := s.mapWorld fun w => { w with direct := [directTask] }
  steps s { correlationId := "root" } script

end Scenario

end JobEngine
