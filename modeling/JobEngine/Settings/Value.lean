import JobEngine.Number.Reading
import JobEngine.Number.Shortest
import JobEngine.Text.Blank

/-!
# The value of a variable

A variable's text is a truth value, a whole number, a fraction, or else text.  What a field makes of
it depends on the field.

* `Scalar.ofText`    what a text is;
* `Scalar.count?`    the value of a counting field below a bound;
* `Scalar.text`      the value of a text field.
-/

namespace JobEngine

inductive Scalar
  | bool (b : Bool)
  | int (n : Int)
  | float (x : Binary64)
  | text (s : String)
deriving DecidableEq, Repr

namespace Scalar

def ofText (s : String) : Scalar :=
  let small := String.ofList (Text.lower s)
  if small = "true" then .bool true
  else if small = "false" then .bool false
  else match Number.int? s with
    | some n => .int n
    | none =>
      match Number.float? s with
      | some x => .float x
      | none => .text s

/-- A number of 64 bits: a fraction goes to the nearest, truth values and the words `on`, `yes`,
`off` and `no` count as one and zero. -/
def long? : Scalar → Option Nat
  | .bool b => some (if b then 1 else 0)
  | .int n => if 0 ≤ n then some n.toNat else none
  | .float x => some x.toCount
  | .text s =>
    let small := String.ofList (Text.lower s)
    if small = "on" ∨ small = "yes" then some 1
    else if small = "off" ∨ small = "no" then some 0
    else none

def count? (bound : Nat) (v : Scalar) : Option Nat :=
  v.long?.bind fun n => if n < bound then some n else none

/-- The canonical text of a value. -/
def shown : Scalar → String
  | .bool true => "true"
  | .bool false => "false"
  | .int n => toString n
  | .float x => x.plain
  | .text s => s

/-- Only a text names something. -/
def name? : Scalar → Option String
  | .text s => some s
  | _ => none

end Scalar

end JobEngine
