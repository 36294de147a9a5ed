import JobEngine.Job.Status
import JobEngine.Text.Blank
import JobEngine.Uuid

/-!
# What the rules of jobs refuse

* `DomainError`        the causes, with `kind` and `message`;
* `Status.parse`, `Status.become`, `JobId.parse`, `ProjectId.parse`   the checks that stand alone.
-/

namespace JobEngine

/-- The identifier of a job. -/
abbrev JobId := Uuid

/-- The identifier of the project that owns a job. -/
structure ProjectId where
  name : String
deriving DecidableEq, Repr, Inhabited

/-- A breach of the rules of jobs. -/
inductive DomainError
  | unknownStatus (text : String)
  | blankAction
  | noAttempts
  | trysAboveMax (trys tryMax : UInt32)
  | malformedId (fault : Uuid.Fault)
  | blankProject
  | badTransition (source target : Status)
deriving DecidableEq, Repr

namespace DomainError

/-- The class of a breach. -/
def kind : DomainError → String
  | unknownStatus _ | blankAction | noAttempts => "Validation"
  | trysAboveMax _ _ => "InvariantViolation"
  | malformedId _ | blankProject => "InvalidId"
  | badTransition _ _ => "InvalidTransition"

def message : DomainError → String
  | unknownStatus s => "validation failed: unknown job status: " ++ s
  | blankAction => "validation failed: action must not be empty"
  | noAttempts => "validation failed: try_max must be positive"
  | trysAboveMax n m => s!"invariant violated: trys ({n}) exceeds try_max ({m})"
  | malformedId f => "invalid identifier: JobId: " ++ f.message
  | blankProject => "invalid identifier: ProjectId: must not be empty"
  | badTransition a b => "illegal status transition: " ++ a.text ++ " -> " ++ b.text

end DomainError

/-- The status of a text. -/
def Status.parse (s : String) : Except DomainError Status :=
  match Status.ofText? s with
  | some status => .ok status
  | none => .error (.unknownStatus s)

/-- A move along the arrows. -/
def Status.become (source target : Status) : Except DomainError Status :=
  if source.leadsTo target then .ok target else .error (.badTransition source target)

def JobId.parse (s : String) : Except DomainError JobId :=
  match Uuid.parse s with
  | .ok u => .ok u
  | .error f => .error (.malformedId f)

namespace ProjectId

/-- The owner of what the control plane issues itself. -/
def system : ProjectId := ⟨"system"⟩

/-- Any text but a blank one. -/
def parse (s : String) : Except DomainError ProjectId :=
  if Text.isBlank s then .error .blankProject else .ok ⟨s⟩

end ProjectId

theorem Status.become_eq_ok_iff {a b c : Status} :
    a.become b = .ok c ↔ a.leadsTo b ∧ c = b := by
  unfold Status.become
  split
  · next h => simp only [Except.ok.injEq, h, true_and]; exact eq_comm
  · next h => simp [h]

end JobEngine
