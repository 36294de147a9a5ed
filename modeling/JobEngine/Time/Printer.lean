import JobEngine.Time.Instant

/-!
# Instants as text

The date and the time of day in UTC.  A fraction has as few of 0, 3, 6 or 9 digits as are exact,
a year outside 0 … 9999 has a sign, and a leap second is second 60.

* `Instant.text`      `2024-05-01T10:00:01.500Z`;
* `Instant.display`   `2024-05-01 10:00:01.500 UTC`.
-/

namespace JobEngine.Instant

/-- The decimal digits of `n` at the `width` last places. -/
def padded : Nat → Nat → List Char
  | 0, _ => []
  | width + 1, n => padded width (n / 10) ++ [Nat.digitChar (n % 10)]

/-- At least four digits, and a sign where four digits do not do. -/
def yearText (year : Int) : List Char :=
  let n := year.natAbs
  let figures := if n < 10000 then padded 4 n else Nat.toDigits 10 n
  if year < 0 then '-' :: figures
  else if year < 10000 then figures
  else '+' :: figures

def dateText (d : Calendar.Date) : List Char :=
  yearText d.year ++ '-' :: padded 2 d.month ++ '-' :: padded 2 d.day

/-- The shortest exact fraction of 0, 3, 6 or 9 digits. -/
def fractionText (nanos : Nat) : List Char :=
  if nanos = 0 then []
  else if nanos % 1000000 = 0 then '.' :: padded 3 (nanos / 1000000)
  else if nanos % 1000 = 0 then '.' :: padded 6 (nanos / 1000)
  else '.' :: padded 9 nanos

/-- The time of day; `second` is in the day and `nanos` may belong to a leap second. -/
def clockText (second nanos : Nat) : List Char :=
  let shown := second % 60 + nanos / 1000000000
  padded 2 (second / 3600) ++ ':' :: padded 2 (second / 60 % 60) ++ ':' :: padded 2 shown ++
    fractionText (nanos % 1000000000)

def date (t : Instant) : Calendar.Date := Calendar.ofDayNumber (t.secs / 86400)

def secondOfDay (t : Instant) : Nat := (t.secs % 86400).toNat

/-- Date and time with `T` between them and `Z` behind them. -/
def text (t : Instant) : String :=
  String.ofList (dateText t.date ++ 'T' :: clockText t.secondOfDay t.nanos ++ ['Z'])

/-- Date and time as a log shows them. -/
def display (t : Instant) : String :=
  String.ofList (dateText t.date ++ ' ' :: clockText t.secondOfDay t.nanos) ++ " UTC"

end JobEngine.Instant
