import JobEngine.Event.Bus
import JobEngine.Simulation.Behaviour
import JobEngine.Store.LockWait
import JobEngine.Store.Memory

/-!
# The surroundings of an engine over a store in memory

* `World`           the store, the clock, the actions, the notifiers, the log and planned faults;
* `World.engine`    how it answers the engine.

A planned fault takes the place of the next call of its kind; a session whose commit or rollback
fails is gone.  A question that finds a row held is asked again when the lock wait says so, and who
would wait beyond the clock breaks down.
-/

namespace JobEngine

/-- The calls of a store that faults can be planned for. -/
inductive FaultPoint
  | begin
  | get
  | update
  | commit
  | rollback
  | read
  | list
  | insert
deriving DecidableEq, Repr

/-- What a planned fault answers. -/
inductive Fault
  | error (e : StoreError)
  /-- There is no such row. -/
  | gone
  /-- Nothing special. -/
  | none
deriving DecidableEq

def StoreCall.faultPoint? : StoreCall → Option FaultPoint
  | .begin => some .begin
  | .get _ _ _ => some .get
  | .update _ _ _ => some .update
  | .commit _ => some .commit
  | .rollback _ => some .rollback
  | .read _ => some .read
  | .list _ => some .list
  | .insert _ => some .insert
  | .discard _ | .write _ _ => none

/-- The answer of a store that has no such row, where that is an answer. -/
def StoreCall.vanished : (c : StoreCall) → Option c.Answer
  | .get _ _ _ => some (.ok none)
  | .read _ => some (.ok none)
  | .update _ _ _ => some (.ok 0)
  | _ => none

/-- How a notifier of the world takes an event. -/
inductive Style
  /-- It writes a log line. -/
  | log
  /-- It keeps the event to itself. -/
  | recorder
  /-- It shows the event, with the whole job or not. -/
  | shown (full : Bool)
deriving DecidableEq

structure World where
  memory : Memory := {}
  lockWait : Nat := LockWait.standard
  /-- The last tick that the clock of the waits can show. -/
  horizon : Nat := LockWait.horizon
  /-- What the clock showed at tick `setAt`. -/
  shows : Instant := .epoch
  setAt : Nat := 0
  actions : Repertoire := []
  bus : Bus JobEvent := []
  styles : Table Nat Style := []
  journal : Journal JobEvent := []
  /-- Events shown and not yet reported, with tick and notifier. -/
  events : List (Nat × String × Bool × JobEvent) := []
  /-- Log lines not yet reported. -/
  log : List LogLine := []
  faults : Table FaultPoint (List Fault) := []
  /-- Sessions opened by tasks. -/
  owners : Table SessionId Nat := []
  nextId : Nat := 1
  /-- Tasks that use the store directly: no fault is planned for them. -/
  direct : List Nat := []

namespace World

def emit (w : World) (l : LogLine) : World := { w with log := w.log ++ [l] }

/-- The time of day at a tick. -/
def time (w : World) (tick : Nat) : Instant := (w.shows.addMillis? (tick - w.setAt)).getD w.shows

/-- The identifier made by the `n`-th request for one. -/
def madeId (n : Nat) : JobId := ⟨BitVec.ofNat 128 (0x01900000000070008000000000000000 + n)⟩

def takeFault (w : World) (p : FaultPoint) : Option Fault × World :=
  match w.faults.get? p with
  | some (f :: rest) => (some f, { w with faults := w.faults.set p rest })
  | _ => (none, w)

def planFault (w : World) (p : FaultPoint) (f : Fault) : World :=
  { w with faults := w.faults.set p (((w.faults.get? p).getD []) ++ [f]) }

/-- What a failing call leaves of the store. -/
def faulted (m : Memory) : StoreCall → Memory
  | .commit s | .rollback s => m.close s
  | _ => m

/-- The end of the wait that a call has to be ready for; it is worked out for a free row as well.
Nothing if the clock does not go so far. -/
def deadline? (w : World) (a : Asker) (c : StoreCall) : Option Nat :=
  if w.memory.needsLock c then LockWait.deadline? w.horizon w.lockWait (a.since.getD a.now)
  else some a.now

/-- The store itself, with lock waits. -/
def ask (w : World) (a : Asker) (c : StoreCall) : Reply c.Answer × World :=
  match w.deadline? a c with
  | none => (.broken a.now, w)
  | some deadline =>
    match w.memory.perform c with
    | (some r, m) => (.now r, { w with memory := m })
    | (none, m) =>
      match LockWait.next w.lockWait deadline a.now with
      | .ok tick => (.again tick, { w with memory := m })
      | .error e => (.now (c.refuse e), { w with memory := m })

/-- A call that a planned fault may meet when it is first made. -/
def store (w : World) (a : Asker) (c : StoreCall) : Reply c.Answer × World :=
  let (fault, w) := match a.since, c.faultPoint? with
    | none, some p => w.takeFault p
    | _, _ => (none, w)
  match fault, c.vanished with
  | some (.error e), _ => (.now (c.refuse e), { w with memory := faulted w.memory c })
  | some .gone, some r => (.now r, w)
  | _, _ =>
    let (r, w') := w.ask a c
    match c with
    | .begin => (r, { w' with owners := w'.owners.set w.memory.nextSession a.task })
    | _ => (r, w')

def publish (w : World) (tick : Nat) (e : JobEvent) : Except NotifyError Unit × World :=
  let d := w.bus.publish e.topic e
  let w := { w with journal := w.journal.enter d e }
  let w := d.called.foldl (fun w n =>
    match w.styles.get? n.key with
    | some .log => w.emit e.logLine
    | some (.shown full) => { w with events := w.events ++ [(tick, n.name, full, e)] }
    | _ => w) w
  (d.outcome.map fun _ => (), w)

def answer (w : World) (a : Asker) : (c : EngineCall) → Reply c.Answer × World
  | .store c => if w.direct.contains a.task then w.ask a c else w.store a c
  | .clock => (.now (w.time a.now), w)
  | .publish e => let (r, w) := w.publish a.now e; (.now r, w)
  | .invoke i =>
    let (r, actions) := w.actions.invoke a.now i
    (r, { w with actions })
  | .log l => (.now (), w.emit l)
  | .freshId => (.now (madeId w.nextId), { w with nextId := w.nextId + 1 })
  | .pause ms => (if ms = 0 then .now () else .later (a.now + ms) (), w)

/-- A task that is abandoned leaves its transaction scope without finishing it. -/
def abandon (w : World) (task : Nat) : World :=
  let left := (w.owners.filter fun o => o.2 == task && w.memory.isOpen o.1).map Prod.fst
  left.foldl (fun w s =>
    { w with memory := w.memory.close s }.emit
      (.warn "transaction scope left without finishing; session discarded" [])) w

/-- How the world answers the engine. -/
def engine : Surroundings Engine World := ⟨answer, abandon⟩

end World

end JobEngine
