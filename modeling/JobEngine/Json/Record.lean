import JobEngine.Json.Basic

/-!
# Reading records

A record is given as an object, where unknown members are ignored, or as an array of exactly
its fields in their order.  A word of a fixed list is given as a string or as an object whose
only member has that name and the value `null`.

* `Json.fields?`     the members that a record is read from;
* `Fields.required`  a field that has to be there;
* `Fields.optional`  a field that may be missing or `null`;
* `Json.variant?`    the word of a fixed list.
-/

namespace JobEngine.Json

/-- Named values to read a record from. -/
structure Fields where
  members : List (String × Json)

/-- The members to read the fields `names` from. -/
def fields? (names : List String) : Json → Option Fields
  | .obj members => some ⟨members⟩
  | .arr items => if items.length = names.length then some ⟨names.zip items⟩ else none
  | _ => none

def Fields.required (f : Fields) (name : String) (read : Json → Option α) : Option α :=
  (lookup name f.members).bind read

/-- The outer `none` is a refusal, the inner one a missing value. -/
def Fields.optional (f : Fields) (name : String) (read : Json → Option α) :
    Option (Option α) :=
  match lookup name f.members with
  | none => some none
  | some .null => some none
  | some v => (read v).map some

/-- Every item of an array. -/
def list? (read : Json → Option α) : Json → Option (List α)
  | .arr items => items.mapM read
  | _ => none

/-- The name of a variant. -/
def variant? : Json → Option String
  | .str s => some s
  | .obj [(name, .null)] => some name
  | _ => none

end JobEngine.Json
