import JobEngine.Text.Blank
import JobEngine.Time.Instant

/-!
# Reading instants

A text holds a date, `T` or a blank, a time and an offset from UTC.  White space may stand in
front of each number and each mark but the one between date and time.

* `Instant.parse?`   the instant of a text.

A year without a sign has at most four digits; the other numbers have one or two.  A second
number 60 is a leap second.  Of a fraction nine digits count.  The offset is `Z`, `UTC` or a sign
and `hh:mm` with a minute below 60, and less than a day.
-/

namespace JobEngine.Instant

open Text

def skipSpace : List Char → List Char
  | [] => []
  | c :: cs => if isSpace c then skipSpace cs else c :: cs

/-- The number of at most `width` digits at the front, how many digits it has, and the rest. -/
def figures (acc count : Nat) : Nat → List Char → Nat × Nat × List Char
  | 0, cs => (acc, count, cs)
  | _ + 1, [] => (acc, count, [])
  | width + 1, c :: cs =>
    if c.isDigit then figures (10 * acc + (c.toNat - 48)) (count + 1) width cs
    else (acc, count, c :: cs)

/-- One to `width` digits. -/
def natural (width : Nat) (cs : List Char) : Option (Nat × List Char) :=
  let (n, count, rest) := figures 0 0 width cs
  if count = 0 then none else some (n, rest)

/-- The same behind white space. -/
def field (width : Nat) (cs : List Char) : Option (Nat × List Char) :=
  natural width (skipSpace cs)

def yearField (cs : List Char) : Option (Int × List Char) :=
  match skipSpace cs with
  | '-' :: rest => (natural rest.length rest).map fun (n, rest) => (-(n : Int), rest)
  | '+' :: rest => (natural rest.length rest).map fun (n, rest) => ((n : Int), rest)
  | cs => (natural 4 cs).map fun (n, rest) => ((n : Int), rest)

/-- White space and then the given mark. -/
def mark (m : Char) (cs : List Char) : Option (List Char) :=
  match skipSpace cs with
  | c :: rest => if c = m then some rest else none
  | [] => none

def dropDigits : List Char → List Char
  | [] => []
  | c :: cs => if c.isDigit then dropDigits cs else c :: cs

/-- The nanoseconds of a fraction, if there is one. -/
def fraction (cs : List Char) : Option (Nat × List Char) :=
  match cs with
  | '.' :: rest =>
    let (n, count, rest) := figures 0 0 9 rest
    if count = 0 then none else some (n * Nat.pow 10 (9 - count), dropDigits rest)
  | _ => some (0, cs)

def skipColons : List Char → List Char
  | [] => []
  | c :: cs => if c = ':' || isSpace c then skipColons cs else c :: cs

/-- Exactly two digits. -/
def digitPair : List Char → Option (Nat × List Char)
  | a :: b :: rest =>
    if a.isDigit && b.isDigit then some (10 * (a.toNat - 48) + (b.toNat - 48), rest) else none
  | _ => none

/-- The seconds of an offset behind its sign. -/
def offsetSize (cs : List Char) : Option (Nat × List Char) := do
  let (hours, cs) ← digitPair cs
  let (minutes, cs) ← digitPair (skipColons cs)
  if minutes < 60 then some (hours * 3600 + minutes * 60, cs) else none

/-- The offset in seconds east of UTC. -/
def offset (cs : List Char) : Option (Int × List Char) :=
  match cs with
  | 'Z' :: rest | 'z' :: rest => some (0, rest)
  | '+' :: rest => (offsetSize rest).map fun (n, rest) => ((n : Int), rest)
  | '-' :: rest | '\u2212' :: rest => (offsetSize rest).map fun (n, rest) => (-(n : Int), rest)
  | a :: b :: c :: rest =>
    if a.toLower = 'u' ∧ b.toLower = 't' ∧ c.toLower = 'c' then some (0, rest) else none
  | _ => none

def dateField (cs : List Char) : Option (Calendar.Date × List Char) := do
  let (year, cs) ← yearField cs
  let cs ← mark '-' cs
  let (month, cs) ← field 2 cs
  let cs ← mark '-' cs
  let (day, cs) ← field 2 cs
  let date : Calendar.Date := ⟨year, month, day⟩
  if date.Valid then some (date, cs) else none

/-- The second of the day and the nanoseconds. -/
def clockField (cs : List Char) : Option (Nat × Nat × List Char) := do
  let (hour, cs) ← field 2 cs
  let cs ← mark ':' cs
  let (minute, cs) ← field 2 cs
  let cs ← mark ':' cs
  let (second, cs) ← field 2 cs
  let (nanos, cs) ← fraction cs
  if hour < 24 ∧ minute < 60 ∧ second < 60 then
    some (hour * 3600 + minute * 60 + second, nanos, cs)
  else if hour < 24 ∧ minute < 60 ∧ second = 60 then
    some (hour * 3600 + minute * 60 + 59, nanos + 1000000000, cs)
  else none

def isDivider (c : Char) : Bool := c = 'T' || c = 't' || c = ' '

/-- The local second has to be on the calendar, and the instant too. -/
def ofLocal? (date : Calendar.Date) (second nanos : Nat) (east : Int) : Option Instant := do
  let here := Calendar.dayNumber date * 86400 + second
  if Calendar.firstSecond ≤ here ∧ here ≤ Calendar.lastSecond ∧ east.natAbs < 86400 then
    of? (here - east) nanos
  else none

def parse? (s : String) : Option Instant := do
  let (date, cs) ← dateField s.toList
  match cs with
  | [] => none
  | c :: cs =>
    if isDivider c then
      let (second, nanos, cs) ← clockField cs
      let (east, cs) ← offset (skipSpace cs)
      if (skipSpace cs).isEmpty then ofLocal? date second nanos east else none
    else none

end JobEngine.Instant
