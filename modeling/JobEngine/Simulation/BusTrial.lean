import JobEngine.Event.Bus
import JobEngine.Simulation.Trouble

/-!
# Trials of a bus

* `BusTrial`           a bus, what its notifiers received, and which of them only record;
* `BusTrial.Step`      what is done with it;
* `BusTrial.perform`   what comes of a list of steps, up to one that cannot be understood.
-/

namespace JobEngine

/-- A message says its topic and the number of its step. -/
abbrev Note := Topic × Nat

structure BusTrial where
  bus : Bus Note := []
  journal : Journal Note := []
  recorders : List (Notifier Note) := []
  nextKey : Nat := 0

namespace BusTrial

/-- A notifier that is to be registered. -/
structure Candidate where
  name : String
  topics : List Topic := Topic.all
  recording : Bool := false
  failsOn : List Topic := []
  text : String := ""

inductive Step
  | register (cs : List Candidate)
  | publish (topic : Topic)
  | debug
  | recorders

inductive Report
  | size (notifiers : Nat)
  /-- The notifiers called, without recorders, and what the publisher gets. -/
  | published (note : Note) (called : List String) (outcome : Except NotifyError Nat)
  | debug (text : String)
  /-- What each recorder received. -/
  | recorded (notes : List (String × List Note))

def Candidate.notifier (c : Candidate) (key : Nat) : Notifier Note :=
  if c.recording then { key, name := c.name, topics := c.topics }
  else .failing key c.name c.topics c.failsOn c.text Prod.fst

def register (t : BusTrial) (c : Candidate) : BusTrial :=
  let n := c.notifier t.nextKey
  { t with
    bus := t.bus.register [n], nextKey := t.nextKey + 1
    recorders := if c.recording then t.recorders ++ [n] else t.recorders }

def step (t : BusTrial) (index : Nat) : Step → Report × BusTrial
  | .register cs =>
    let t := cs.foldl register t
    (.size t.bus.length, t)
  | .publish topic =>
    let note := (topic, index)
    let d := t.bus.publish topic note
    let shown := d.called.filter fun n => !t.recorders.any (·.key == n.key)
    (.published note (shown.map Notifier.name) d.outcome,
      { t with journal := t.journal.enter d note })
  | .debug => (.debug t.bus.display, t)
  | .recorders => (.recorded (t.recorders.map fun n => (n.name, t.journal.received n.key)), t)

def performFrom (t : BusTrial) (index : Nat) : List (Checked Step) → Checked (List Report)
  | [] => .ok []
  | s :: rest => do
    let (r, t) := t.step index (← s)
    let rs ← t.performFrom (index + 1) rest
    pure (r :: rs)

def perform (steps : List (Checked Step)) : Checked (List Report) := performFrom {} 0 steps

end BusTrial

end JobEngine
