import JobEngine.Execution.Error

/-!
# Why a step has no proper answer

* `Trouble`   a step that cannot be understood, an operation that failed, or one that broke down.
-/

namespace JobEngine

inductive Trouble
  /-- The step asks for something that there is not. -/
  | badInput (text : String)
  /-- A record in the step is refused. -/
  | malformed
  /-- The operation broke down. -/
  | panic
  | domain (e : DomainError)
  | job (e : JobError)
  | store (e : StoreError)
deriving DecidableEq, Repr

/-- A part of a step, if it can be understood. -/
abbrev Checked (α : Type) := Except Trouble α

end JobEngine
