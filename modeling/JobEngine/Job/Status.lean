/-!
# The status of a job

    pending --claim--> running --success--> finished
       ^                  |  \
       +---retry, reset---+   +--exhausted--> error

* `Status.leadsTo`   the arrows of the picture.
-/

namespace JobEngine

inductive Status
  | pending
  | running
  | finished
  | error
deriving DecidableEq, Repr, Inhabited

namespace Status

def all : List Status := [pending, running, finished, error]

def text : Status → String
  | pending => "pending"
  | running => "running"
  | finished => "finished"
  | error => "error"

def ofText? : String → Option Status
  | "pending" => some pending
  | "running" => some running
  | "finished" => some finished
  | "error" => some error
  | _ => none

/-- A worker may claim the job. -/
def executable (s : Status) : Bool := s == pending

/-- Recovery may put the job back. -/
def resettable (s : Status) : Bool := s == running

/-- Nothing follows. -/
def terminal (s : Status) : Bool := s == finished || s == error

def leadsTo : Status → Status → Bool
  | pending, running => true
  | running, finished => true
  | running, pending => true
  | running, error => true
  | _, _ => false

/-- The statuses that may follow. -/
def next (s : Status) : List Status := all.filter s.leadsTo

@[simp] theorem ofText?_text (s : Status) : ofText? s.text = some s := by cases s <;> rfl

theorem text_of_ofText? {t : String} {s : Status} (h : ofText? t = some s) : s.text = t := by
  unfold ofText? at h
  split at h <;> simp_all [text] <;> subst h <;> rfl

theorem terminal_iff (s : Status) : s.terminal ↔ s.next = [] := by
  cases s <;> decide

end Status

end JobEngine
