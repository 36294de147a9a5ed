import JobEngine.Job.Basic
import JobEngine.Json.Record
import JobEngine.Time.Parser
import JobEngine.Time.Printer

/-!
# Jobs as JSON

* `Job.toJson`, `Job.ofJson?`           the whole record;
* `Summary.toJson`, `Summary.ofJson?`   what clients see.

Identifiers and instants are strings, counters are whole numbers, and a missing result or error is
`null`.
-/

namespace JobEngine

namespace Uuid

def toJson (u : Uuid) : Json := .str u.text

def ofJson? : Json → Option Uuid
  | .str s => parse? s.toList
  | _ => none

end Uuid

namespace Instant

def toJson (t : Instant) : Json := .str t.text

def ofJson? : Json → Option Instant
  | .str s => parse? s
  | _ => none

end Instant

namespace ProjectId

def toJson (p : ProjectId) : Json := .str p.name

/-- Any text, blank or not. -/
def ofJson? : Json → Option ProjectId
  | .str s => some ⟨s⟩
  | _ => none

end ProjectId

namespace Status

def toJson (s : Status) : Json := .str s.text

def ofJson? (v : Json) : Option Status := v.variant?.bind ofText?

end Status

/-- A counter of 32 bits. -/
def Json.ofWord (n : UInt32) : Json := .nat n.toNat

def Json.asWord? (v : Json) : Option UInt32 := (v.asNat? UInt32.size).map UInt32.ofNat

def Json.ofLong (n : UInt64) : Json := .nat n.toNat

def Json.asLong? (v : Json) : Option UInt64 := (v.asNat? UInt64.size).map UInt64.ofNat

namespace Job

def fieldNames : List String :=
  ["id", "project_id", "action", "status", "params", "result", "error", "run_at", "try_period",
    "try_max", "trys", "created", "updated"]

/-- The fields of a job, by name. -/
def members (j : Job) : List (String × Json) :=
  [("id", j.id.toJson), ("project_id", j.project.toJson), ("action", .str j.action),
    ("status", j.status.toJson), ("params", j.params), ("result", .ofOption (fun v => v) j.result),
    ("error", .ofOption .str j.error), ("run_at", j.runAt.toJson),
    ("try_period", .ofWord j.tryPeriod), ("try_max", .ofWord j.tryMax), ("trys", .ofWord j.trys),
    ("created", j.created.toJson), ("updated", j.updated.toJson)]

def toJson (j : Job) : Json := .record j.members

def ofJson? (v : Json) : Option Job := do
  let f ← v.fields? fieldNames
  some
    { id := ← f.required "id" Uuid.ofJson?
      project := ← f.required "project_id" ProjectId.ofJson?
      action := ← f.required "action" Json.asStr?
      status := ← f.required "status" Status.ofJson?
      params := ← f.required "params" some
      result := ← f.optional "result" some
      error := ← f.optional "error" Json.asStr?
      runAt := ← f.required "run_at" Instant.ofJson?
      tryPeriod := ← f.required "try_period" Json.asWord?
      tryMax := ← f.required "try_max" Json.asWord?
      trys := ← f.required "trys" Json.asWord?
      created := ← f.required "created" Instant.ofJson?
      updated := ← f.required "updated" Instant.ofJson? }

end Job

namespace Summary

def fieldNames : List String :=
  ["jobId", "projectId", "action", "status", "resourceIds", "updated", "created"]

def toJson (s : Summary) : Json := .record
  [("jobId", s.id.toJson), ("projectId", s.project.toJson), ("action", .str s.action),
    ("status", s.status.toJson), ("resourceIds", .strings s.resources),
    ("updated", s.updated.toJson), ("created", s.created.toJson)]

def ofJson? (v : Json) : Option Summary := do
  let f ← v.fields? fieldNames
  some
    { id := ← f.required "jobId" Uuid.ofJson?
      project := ← f.required "projectId" ProjectId.ofJson?
      action := ← f.required "action" Json.asStr?
      status := ← f.required "status" Status.ofJson?
      resources := ← f.required "resourceIds" (Json.list? Json.asStr?)
      updated := ← f.required "updated" Instant.ofJson?
      created := ← f.required "created" Instant.ofJson? }

end Summary

end JobEngine
