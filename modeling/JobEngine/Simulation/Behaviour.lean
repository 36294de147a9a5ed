import JobEngine.Execution.Call
import JobEngine.Job.Codec
import JobEngine.Json.Printer
import JobEngine.Simulation.Scheduler
import JobEngine.Text.Quoted

/-!
# Scripted actions

* `Act`              what a scripted action does with its parameters;
* `Behaviour`        an act, and how long it takes;
* `Repertoire`       actions by kind; each walks a list of behaviours, the last of which repeats.
-/

namespace JobEngine

inductive Act
  | echo
  | give (v : Json)
  | fail (text : String)
  | provider (text : String)
  /-- Tell what the action was told. -/
  | context
  /-- Read the parameters as a record of a size and a name. -/
  | typed
  | panic
deriving DecidableEq, Inhabited

structure Behaviour where
  act : Act
  millis : Nat := 0
deriving DecidableEq, Inhabited

namespace Act

/-- A value as a complaint names it. -/
def unexpected : Json → String
  | .null => "null"
  | .bool b => "boolean \x60" ++ toString b ++ "\x60"
  | .num (.int n) => "integer \x60" ++ toString n ++ "\x60"
  | .num (.float x) => "floating point \x60" ++ x.compact ++ "\x60"
  | .str s => "string " ++ Text.quoted s
  | .arr _ => "sequence"
  | .obj _ => "map"

def wrongType (v : Json) (wanted : String) : String :=
  let word := match v with
    | .num (.int _) => if wanted = "u64" then "invalid value: " else "invalid type: "
    | _ => "invalid type: "
  word ++ unexpected v ++ ", expected " ++ wanted

def sizeOf (v : Json) : Except String Json :=
  match v.asNat? UInt64.size with
  | some n => .ok (.nat n)
  | none => .error (wrongType v "u64")

def nameOf (v : Json) : Except String Json :=
  match v with
  | .str s => .ok (.str s)
  | v => .error (wrongType v "a string")

/-- The name and the size; fields are read in the order of their names, and then missed in the order
of the record. -/
def readTyped (params : Json) : Except String Json :=
  match params with
  | .obj _ => do
    let name ← (params.get? "name").mapM nameOf
    let size ← (params.get? "size").mapM sizeOf
    match size, name with
    | none, _ => throw "missing field \x60size\x60"
    | _, none => throw "missing field \x60name\x60"
    | some size, some name => pure (.arr [name, size])
  | .arr [size, name] => do
    let size ← sizeOf size
    let name ← nameOf name
    pure (.arr [name, size])
  | v => throw (wrongType v "struct Typed")

/-- How the action answers; not at all if it breaks down. -/
def answer (i : Invocation) : Act → Option (Except ActionError Json)
  | echo => some (.ok (.record [("echo", i.params)]))
  | give v => some (.ok v)
  | fail s => some (.error (.failed s))
  | provider s => some (.error (.provider s))
  | context => some (.ok (.record
      [("job_id", i.job.toJson), ("project_id", i.project.toJson), ("attempt", .ofWord i.attempt),
        ("is_last_chance", .bool i.isLastChance)]))
  | typed => some ((readTyped i.params).mapError .invalidParams)
  | panic => none

end Act

/-- Actions by kind, kinds in ascending order; each with the behaviours that are left. -/
abbrev Repertoire := List (String × List Behaviour)

namespace Repertoire

def register (kind : String) (bs : List Behaviour) : Repertoire → Repertoire
  | [] => [(kind, bs)]
  | (k, cs) :: rest =>
    if kind < k then (kind, bs) :: (k, cs) :: rest
    else if kind = k then (kind, bs) :: rest
    else (k, cs) :: register kind bs rest

def kinds (r : Repertoire) : List String := r.map Prod.fst

/-- The behaviour of the next run of a kind, and what is left. -/
def next (kind : String) : Repertoire → Option (Behaviour × Repertoire)
  | [] => none
  | (k, bs) :: rest =>
    if k = kind then
      match bs with
      | [] => some ({ act := .echo }, (k, []) :: rest)
      | [b] => some (b, (k, [b]) :: rest)
      | b :: later => some (b, (k, later) :: rest)
    else (next kind rest).map fun (b, rest) => (b, (k, bs) :: rest)

/-- The answer to a call that has all the time it needs, and how long it takes; nothing if there is
no such action. -/
def call (r : Repertoire) (i : Invocation) :
    Option (Option (Except ActionError Json) × Nat) × Repertoire :=
  match r.next i.kind with
  | none => (none, r)
  | some (b, r) => (some (b.act.answer i, b.millis), r)

/-- How an action is answered that is called at a tick; one that is done at its deadline is in
time. -/
def invoke (r : Repertoire) (now : Nat) (i : Invocation) :
    Reply (Option (Except ActionError Json)) × Repertoire :=
  let soon {α : Type} (tick : Nat) (a : α) : Reply α := if tick ≤ now then .now a else .later tick a
  match r.next i.kind with
  | none => (.now (some (.error (.unsupported i.kind))), r)
  | some (b, r) =>
    if b.millis ≤ i.deadline then
      match b.act.answer i with
      | some a => (soon (now + b.millis) (some a), r)
      | none => (.broken (now + b.millis), r)
    else (soon (now + i.deadline) none, r)

/-- The registered kinds as a debug text. -/
def display (r : Repertoire) : String :=
  "ActionRegistry \x7b kinds: " ++ Text.quotedList r.kinds ++ " \x7d"

end Repertoire

end JobEngine
