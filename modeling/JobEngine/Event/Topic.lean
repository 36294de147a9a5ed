import JobEngine.Json.Record

/-!
# Topics

Every message belongs to one topic; a notifier names the topics it wants.
-/

namespace JobEngine

inductive Topic
  | started
  | failed
  | finished
deriving DecidableEq, Repr, Inhabited

namespace Topic

def all : List Topic := [started, failed, finished]

def text : Topic → String
  | started => "job-started"
  | failed => "job-failed"
  | finished => "job-finished"

def ofText? : String → Option Topic
  | "job-started" => some started
  | "job-failed" => some failed
  | "job-finished" => some finished
  | _ => none

def toJson (t : Topic) : Json := .str t.text

def ofJson? (v : Json) : Option Topic := v.variant?.bind ofText?

@[simp] theorem ofText?_text (t : Topic) : ofText? t.text = some t := by cases t <;> rfl

end Topic

end JobEngine
