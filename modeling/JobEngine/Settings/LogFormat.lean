import JobEngine.Json.Record

/-!
# The form of log lines
-/

namespace JobEngine

inductive LogFormat
  | pretty
  | json
deriving DecidableEq, Repr, Inhabited

namespace LogFormat

def text : LogFormat → String
  | pretty => "pretty"
  | json => "json"

def ofText? : String → Option LogFormat
  | "pretty" => some pretty
  | "json" => some json
  | _ => none

def ofJson? (v : Json) : Option LogFormat := v.variant?.bind ofText?

end LogFormat

end JobEngine
