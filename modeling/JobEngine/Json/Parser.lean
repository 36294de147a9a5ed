import JobEngine.Json.Basic
import JobEngine.Text.Hex

/-!
# Reading a JSON text

The reader works on a list of characters and gives back what it has not read.  Its recursion is
bounded by a multiple of the length of the text, which `Json.parse?` supplies.

* `Json.parse?`   the value of a whole text, blanks around it allowed.

Whole numbers from `-2 ^ 63` to `2 ^ 64 - 1` are exact; all other numbers, and minus zero, are
binary64.  A number that is too large for binary64 is refused.
-/

namespace JobEngine.Json

def isGap (c : Char) : Bool := c = ' ' || c = '\n' || c = '\r' || c = '\t'

def skipGaps : List Char → List Char
  | [] => []
  | c :: cs => if isGap c then skipGaps cs else c :: cs

/-- The decimal digits at the front, as a number, how many there are, and the rest. -/
def digits (acc count : Nat) : List Char → Nat × Nat × List Char
  | [] => (acc, count, [])
  | c :: cs =>
    if c.isDigit then digits (10 * acc + (c.toNat - 48)) (count + 1) cs
    else (acc, count, c :: cs)

/-- A whole part has no zero in front of other digits. -/
def wholePart (cs : List Char) : Option (Nat × List Char) :=
  match cs with
  | '0' :: rest => some (0, rest)
  | _ =>
    let (n, count, rest) := digits 0 0 cs
    if count = 0 then none else some (n, rest)

/-- The sign and digits behind `e`. -/
def exponentPart (cs : List Char) : Option (Int × List Char) :=
  let (neg, cs) := match cs with
    | '-' :: rest => (true, rest)
    | '+' :: rest => (false, rest)
    | _ => (false, cs)
  let (n, count, rest) := digits 0 0 cs
  if count = 0 then none else some (if neg then -(n : Int) else (n : Int), rest)

/-- An exact number where there is one. -/
def wholeNumber (neg : Bool) (n : Nat) : Number :=
  if neg then
    if 0 < n ∧ 2 * n ≤ UInt64.size then .int (-(n : Int)) else .float (Binary64.ofDecimal true n 0)
  else if n < UInt64.size then .int n
  else .float (Binary64.ofDecimal false n 0)

def number (neg : Bool) (cs : List Char) : Option (Json × List Char) := do
  let (whole, cs) ← wholePart cs
  let (mant, places, cs, fractional) ← match cs with
    | '.' :: rest =>
      let (m, count, rest) := digits whole 0 rest
      if count = 0 then none else some (m, count, rest, true)
    | _ => some (whole, 0, cs, false)
  let (expo, cs, fractional) ← match cs with
    | 'e' :: rest | 'E' :: rest => (exponentPart rest).map fun (e, rest) => (e, rest, true)
    | _ => some (0, cs, fractional)
  if fractional then
    let x := Binary64.ofDecimal neg mant (expo - places)
    match x.view with
    | .infinite _ => none
    | _ => some (.num (.float x), cs)
  else some (.num (wholeNumber neg mant), cs)

def hexQuad : List Char → Option (Nat × List Char)
  | a :: b :: c :: d :: rest => (Text.hexNumber? 0 [a, b, c, d]).map ((·, rest))
  | _ => none

/-- The character behind `\u`: one unit, or a pair of surrogates. -/
def escapedUnit (cs : List Char) : Option (Char × List Char) := do
  let (n, cs) ← hexQuad cs
  if 0xD800 ≤ n ∧ n < 0xDC00 then
    match cs with
    | '\\' :: 'u' :: rest =>
      let (m, rest) ← hexQuad rest
      if 0xDC00 ≤ m ∧ m < 0xE000 then
        some (Char.ofNat (0x10000 + (n - 0xD800) * 0x400 + (m - 0xDC00)), rest)
      else none
    | _ => none
  else if 0xDC00 ≤ n ∧ n < 0xE000 then none
  else some (Char.ofNat n, cs)

/-- A string up to its closing quote; `acc` holds what was read, last character first. -/
def stringBody : Nat → List Char → List Char → Option (String × List Char)
  | 0, _, _ => none
  | fuel + 1, acc, cs =>
    match cs with
    | [] => none
    | '"' :: rest => some (String.ofList acc.reverse, rest)
    | '\\' :: c :: rest =>
      match c with
      | '"' => stringBody fuel ('"' :: acc) rest
      | '\\' => stringBody fuel ('\\' :: acc) rest
      | '/' => stringBody fuel ('/' :: acc) rest
      | 'b' => stringBody fuel ('\x08' :: acc) rest
      | 'f' => stringBody fuel ('\x0c' :: acc) rest
      | 'n' => stringBody fuel ('\n' :: acc) rest
      | 'r' => stringBody fuel ('\r' :: acc) rest
      | 't' => stringBody fuel ('\t' :: acc) rest
      | 'u' => do
        let (c, rest) ← escapedUnit rest
        stringBody fuel (c :: acc) rest
      | _ => none
    | c :: rest => if c.toNat < 32 then none else stringBody fuel (c :: acc) rest

/-- The rest behind an expected word. -/
def word (w : List Char) (cs : List Char) : Option (List Char) :=
  if w.isPrefixOf cs then some (cs.drop w.length) else none

mutual

def value : Nat → List Char → Option (Json × List Char)
  | 0, _ => none
  | fuel + 1, cs =>
    match skipGaps cs with
    | 'n' :: rest => (word ['u', 'l', 'l'] rest).map ((Json.null, ·))
    | 't' :: rest => (word ['r', 'u', 'e'] rest).map ((Json.bool true, ·))
    | 'f' :: rest => (word ['a', 'l', 's', 'e'] rest).map ((Json.bool false, ·))
    | '"' :: rest => (stringBody (fuel + 1) [] rest).map fun (s, rest) => (.str s, rest)
    | '[' :: rest =>
      match skipGaps rest with
      | ']' :: rest => some (.arr [], rest)
      | rest => (items fuel rest).map fun (vs, rest) => (.arr vs, rest)
    | '\x7b' :: rest =>
      match skipGaps rest with
      | '\x7d' :: rest => some (.obj [], rest)
      | rest => (members fuel [] rest).map fun (ms, rest) => (.obj ms, rest)
    | '-' :: rest => number true rest
    | cs => number false cs

def items : Nat → List Char → Option (List Json × List Char)
  | 0, _ => none
  | fuel + 1, cs => do
    let (v, cs) ← value fuel cs
    match skipGaps cs with
    | ',' :: rest => (items fuel rest).map fun (vs, rest) => (v :: vs, rest)
    | ']' :: rest => some ([v], rest)
    | _ => none

def members : Nat → List (String × Json) → List Char → Option (List (String × Json) × List Char)
  | 0, _, _ => none
  | fuel + 1, acc, cs =>
    match skipGaps cs with
    | '"' :: rest => do
      let (k, rest) ← stringBody (fuel + 1) [] rest
      match skipGaps rest with
      | ':' :: rest =>
        let (v, rest) ← value fuel rest
        let acc := insert k v acc
        match skipGaps rest with
        | ',' :: rest => members fuel acc rest
        | '\x7d' :: rest => some (acc, rest)
        | _ => none
      | _ => none
    | _ => none

end

/-- The value of a whole text. -/
def parse? (s : String) : Option Json :=
  let cs := s.toList
  match value (2 * cs.length + 2) cs with
  | some (v, rest) => if (skipGaps rest).isEmpty then some v else none
  | none => none

end JobEngine.Json
