import JobEngine.Number.Binary64

/-!
# Numbers in plain text

* `Number.int?`     a sign and decimal digits;
* `Number.float?`   a decimal fraction with an optional power of ten, or a word for infinity or for
  what is no number, in any case.
-/

namespace JobEngine.Number

/-- A sign, if there is one. -/
def signed : List Char → Bool × List Char
  | '-' :: cs => (true, cs)
  | '+' :: cs => (false, cs)
  | cs => (false, cs)

def digitValue (acc : Nat) (cs : List Char) : Nat :=
  cs.foldl (fun n c => 10 * n + (c.toNat - 48)) acc

/-- A whole number of 64 bits. -/
def int? (s : String) : Option Int :=
  let (neg, cs) := signed s.toList
  if cs.isEmpty || !cs.all Char.isDigit then none
  else
    let n : Int := digitValue 0 cs
    let n := if neg then -n else n
    if -(UInt64.size : Int) ≤ 2 * n ∧ 2 * n < UInt64.size then some n else none

/-- The exponent behind the digits; none is zero. -/
def exponent? : List Char → Option Int
  | [] => some 0
  | c :: cs =>
    if c = 'e' ∨ c = 'E' then
      let (neg, ds) := signed cs
      if ds.isEmpty || !ds.all Char.isDigit then none
      else
        let n : Int := digitValue 0 ds
        some (if neg then -n else n)
    else none

/-- Digits with a point among them, before it or behind it. -/
def decimal? (neg : Bool) (cs : List Char) : Option Binary64 := do
  let whole := cs.takeWhile Char.isDigit
  let rest := cs.dropWhile Char.isDigit
  let (places, rest) := match rest with
    | '.' :: rest => (rest.takeWhile Char.isDigit, rest.dropWhile Char.isDigit)
    | _ => ([], rest)
  if whole.isEmpty && places.isEmpty then none
  else
    let e ← exponent? rest
    some (Binary64.ofDecimal neg (digitValue (digitValue 0 whole) places) (e - places.length))

/-- A binary64 number. -/
def float? (s : String) : Option Binary64 :=
  let (neg, cs) := signed s.toList
  let small := String.ofList (cs.map Char.toLower)
  if small = "inf" ∨ small = "infinity" then some (.infinity neg)
  else if small = "nan" then some .nan
  else decimal? neg cs

end JobEngine.Number
