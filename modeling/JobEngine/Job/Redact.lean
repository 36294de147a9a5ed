import JobEngine.Json.Basic
import JobEngine.Text.Blank

/-!
# Hiding secrets in parameters

A value under a key with `password` in it, in any case of ASCII letters, is masked; a value under a
key with `user_data` in it is replaced by that word.  Objects and arrays are walked.

* `Json.redact`   the copy that is safe to log and keep.
-/

namespace JobEngine

/-- What a key says about its value. -/
inductive Secret
  | password
  | userData
  | none
deriving DecidableEq, Repr

/-- The class of a key; `password` wins. -/
def Secret.ofKey (key : String) : Secret :=
  let lowered := Text.lower key
  if Text.occurs "password".toList lowered then .password
  else if Text.occurs "user_data".toList lowered then .userData
  else .none

namespace Json

def mask : String := "********"

mutual

/-- The value without its secrets. -/
def redact : Json → Json
  | .obj members => .obj (redactMembers members)
  | .arr items => .arr (redactItems items)
  | v => v

def redactItems : List Json → List Json
  | [] => []
  | v :: vs => v.redact :: redactItems vs

def redactMembers : List (String × Json) → List (String × Json)
  | [] => []
  | (k, v) :: ms =>
    (k, match Secret.ofKey k with
        | .password => .str mask
        | .userData => .str "user_data"
        | .none => v.redact) :: redactMembers ms

end

end Json

end JobEngine
