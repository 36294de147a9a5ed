import JobEngine.Execution.Program

/-!
# Running programs side by side in simulated time

Time stands still while a program runs.  A program that has to wait names the tick it goes on at;
when all of them wait, time jumps to the first of these ticks.  What is due at one tick goes on in
the order in which it began to wait.

* `Surroundings`   who answers the questions of programs;
* `drive`          one program, as far as it gets without waiting;
* `Sim`            programs and alarms that are ready or wait;
* `Sim.next`       the next thing that happens.
-/

namespace JobEngine

/-- Who asks, and since when. -/
structure Asker where
  task : Nat
  now : Nat
  /-- When the question was first asked, if it was asked before. -/
  since : Option Nat

inductive Reply (α : Type)
  | now (a : α)
  /-- The answer comes at a later tick. -/
  | later (tick : Nat) (a : α)
  /-- The question has to be asked again at a later tick. -/
  | again (tick : Nat)
  /-- Whoever asked breaks down at a tick. -/
  | broken (tick : Nat)

/-- What answers the questions of programs, with a state of its own. -/
structure Surroundings (E : Effects) (S : Type) where
  answer : S → Asker → (c : E.Call) → Reply (E.Answer c) × S
  /-- What becomes of a state when a task is abandoned. -/
  abandon : S → Nat → S

/-- Where a program stops. -/
inductive Stop (E : Effects) (α : Type)
  | ended (result : Option α)
  | waits (tick : Nat) (since : Option Nat) (p : Program E α)

variable {E : Effects} {S R α : Type}

/-- Run a program until it ends or has to wait. -/
def drive (w : Surroundings E S) (task now : Nat) :
    Option Nat → Program E α → S → Stop E α × S
  | _, .done a, s => (.ended (some a), s)
  | _, .crash, s => (.ended none, s)
  | since, .call c k, s =>
    match w.answer s ⟨task, now, since⟩ c with
    | (.now a, s) => drive w task now none (k a) s
    | (.later tick a, s) => (.waits tick none (k a), s)
    | (.again tick, s) => (.waits tick (some (since.getD now)) (.call c k), s)
    | (.broken tick, s) => if tick ≤ now then (.ended none, s) else (.waits tick none .crash, s)

/-- Something that waits for its turn. -/
inductive Entry (E : Effects) (R : Type)
  | task (id : Nat) (since : Option Nat) (p : Program E R)
  | alarm (key : Nat)

/-- What happened. -/
inductive Happening (R : Type)
  | alarm (key : Nat)
  /-- A task ended; without a result if it broke down. -/
  | ended (task : Nat) (result : Option R)
  | waiting

/-- Tasks and alarms in simulated time. -/
structure Sim (E : Effects) (S R : Type) where
  state : S
  now : Nat := 0
  ready : List (Entry E R) := []
  /-- What waits, by tick and then by the order in which it began to. -/
  timers : List (Nat × Entry E R) := []
  nextTask : Nat := 2
  nextAlarm : Nat := 1

namespace Sim

/-- A timer at its place, behind those of its tick. -/
def schedule (tick : Nat) (e : Entry E R) : List (Nat × Entry E R) → List (Nat × Entry E R)
  | [] => [(tick, e)]
  | (t, e') :: rest => if tick < t then (tick, e) :: (t, e') :: rest
    else (t, e') :: schedule tick e rest

def wait (sim : Sim E S R) (tick : Nat) (e : Entry E R) : Sim E S R :=
  { sim with timers := schedule tick e sim.timers }

/-- A new task, behind all that are ready. -/
def spawn (sim : Sim E S R) (p : Program E R) : Nat × Sim E S R :=
  (sim.nextTask,
    { sim with
      ready := sim.ready ++ [.task sim.nextTask none p], nextTask := sim.nextTask + 1 })

/-- A new task that is next. -/
def spawnFirst (sim : Sim E S R) (p : Program E R) : Nat × Sim E S R :=
  (sim.nextTask,
    { sim with
      ready := .task sim.nextTask none p :: sim.ready, nextTask := sim.nextTask + 1 })

/-- A new alarm. -/
def alarmAt (sim : Sim E S R) (tick : Nat) : Nat × Sim E S R :=
  (sim.nextAlarm,
    { sim.wait tick (.alarm sim.nextAlarm) with nextAlarm := sim.nextAlarm + 1 })

def isTask (ids : List Nat) : Entry E R → Bool
  | .task id _ _ => ids.contains id
  | .alarm _ => false

/-- Take tasks away, wherever they are. -/
def abandon (w : Surroundings E S) (sim : Sim E S R) (ids : List Nat) : Sim E S R :=
  { sim with
    ready := sim.ready.filter fun e => !isTask ids e
    timers := sim.timers.filter fun t => !isTask ids t.2
    state := ids.foldl w.abandon sim.state }

/-- Let an entry have its turn.  A task that breaks down leaves things as one that is abandoned. -/
def turn (w : Surroundings E S) (sim : Sim E S R) : Entry E R → Happening R × Sim E S R
  | .alarm key => (.alarm key, sim)
  | .task id since p =>
    match drive w id sim.now since p sim.state with
    | (.ended (some r), s) => (.ended id (some r), { sim with state := s })
    | (.ended none, s) => (.ended id none, { sim with state := w.abandon s id })
    | (.waits tick since p, s) =>
      (.waiting, { sim with state := s }.wait tick (.task id since p))

/-- The next thing that happens; nothing if all is done. -/
def next (w : Surroundings E S) (sim : Sim E S R) : Option (Happening R × Sim E S R) :=
  match sim.ready with
  | e :: rest => some (turn w { sim with ready := rest } e)
  | [] =>
    match sim.timers with
    | [] => none
    | (tick, e) :: rest =>
      let due := rest.takeWhile (·.1 ≤ tick)
      let later := rest.dropWhile (·.1 ≤ tick)
      some (turn w
        { sim with now := max sim.now tick, ready := due.map Prod.snd, timers := later } e)

/-- Run everything until an alarm goes off, noting which tasks ended. -/
def untilAlarm (w : Surroundings E S) (key : Nat) :
    Nat → Sim E S R → List (Nat × Option R) → List (Nat × Option R) × Sim E S R
  | 0, sim, ended => (ended, sim)
  | fuel + 1, sim, ended =>
    match next w sim with
    | none => (ended, sim)
    | some (.alarm k, sim) => if k = key then (ended, sim) else untilAlarm w key fuel sim ended
    | some (.ended id r, sim) => untilAlarm w key fuel sim (ended ++ [(id, r)])
    | some (.waiting, sim) => untilAlarm w key fuel sim ended

/-- Run a program in the foreground as task `me`, everything else beside it. -/
def runMain (w : Surroundings E S) (me : Nat) :
    Nat → Option Nat → Program E α → Sim E S R → Option α × Sim E S R
  | 0, _, _, sim => (none, sim)
  | fuel + 1, since, p, sim =>
    match drive w me sim.now since p sim.state with
    | (.ended r, s) => (r, { sim with state := s })
    | (.waits tick since p, s) =>
      let (key, sim) := { sim with state := s }.alarmAt tick
      let (_, sim) := untilAlarm w key fuel sim []
      runMain w me fuel since p sim

/-- Run everything until the given tasks have ended, and give their results. -/
def untilEnded (w : Surroundings E S) (ids : List Nat) :
    Nat → Sim E S R → List (Nat × Option R) → List (Nat × Option R) × Sim E S R
  | 0, sim, ended => (ended, sim)
  | fuel + 1, sim, ended =>
    if ids.all fun id => ended.any (·.1 == id) then (ended, sim)
    else
      match next w sim with
      | none => (ended, sim)
      | some (.ended id r, sim) => untilEnded w ids fuel sim (ended ++ [(id, r)])
      | some (_, sim) => untilEnded w ids fuel sim ended

end Sim

end JobEngine
