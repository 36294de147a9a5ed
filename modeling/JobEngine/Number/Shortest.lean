import JobEngine.Number.Binary64

/-!
# The shortest decimal of a binary64 number

Among the decimals that read back as the number, the one with the fewest digits is taken, and
of those the nearest.  `Shortest.ofFinite` finds it in whole numbers: a grid of `n` digits is
tried for `n = 1, 2, … 17`, and of each grid only the two neighbours of the number.

* `Shortest.Decimal`   digits and exponent;
* `Decimal.plain`      always positional: `1000`, `0.001`;
* `Decimal.compact`    positional from `1e-5` to `1e16`, and then always with a point: `1000.0`;
* `Binary64.plain`, `Binary64.compact`   the texts of any number.
-/

namespace JobEngine

/-- The number `digits * 10 ^ expo`, its digits not ending in zero. -/
structure Decimal where
  digits : Nat
  expo : Int
deriving DecidableEq, Repr, Inhabited

namespace Shortest

/-- Whether `x < y`, for ratios `x = a / b` and `y = c / d`. -/
def ltRatio (a b c d : Nat) : Bool := a * d < c * b

def leRatio (a b c d : Nat) : Bool := a * d ≤ c * b

/-- A number `mant * 2 ^ expo` as a ratio. -/
def ratio (mant : Nat) (expo : Int) : Nat × Nat :=
  if expo < 0 then (mant, Nat.pow 2 expo.natAbs) else (mant * Nat.pow 2 expo.natAbs, 1)

/-- The ends of the interval of reals that round to the number. -/
def ends (mant : Nat) (expo : Int) : (Nat × Nat) × (Nat × Nat) :=
  let low := if mant = Binary64.fractions ∧ expo ≠ -1074 then ratio (4 * mant - 1) (expo - 2)
             else ratio (2 * mant - 1) (expo - 1)
  (low, ratio (2 * mant + 1) (expo - 1))

/-- Whether `digits * 10 ^ e` reads back as the number; the ends count if the mantissa is even. -/
def readsBack (mant : Nat) (expo : Int) (digits : Nat) (e : Int) : Bool :=
  let (low, high) := ends mant expo
  let (a, b) := if e < 0 then (digits, Nat.pow 10 e.natAbs) else (digits * Nat.pow 10 e.natAbs, 1)
  if mant % 2 = 0 then leRatio low.1 low.2 a b && leRatio a b high.1 high.2
  else ltRatio low.1 low.2 a b && ltRatio a b high.1 high.2

/-- The exponent `e` with `10 ^ (e - 1) ≤ a / b < 10 ^ e`, sought upwards from a lower bound. -/
def magnitude (a b : Nat) : Nat → Int → Int
  | 0, e => e
  | fuel + 1, e =>
    let below := if e < 0 then a * Nat.pow 10 e.natAbs < b else a < b * Nat.pow 10 e.natAbs
    if below then e else magnitude a b fuel (e + 1)

/-- The hit of the grid of step `10 ^ e`, if there is one; of two the nearer. -/
def onGrid (mant : Nat) (expo : Int) (e : Int) : Option Nat :=
  let (a, b) := ratio mant expo
  let (num, den) := if e < 0 then (a * Nat.pow 10 e.natAbs, b) else (a, b * Nat.pow 10 e.natAbs)
  let lo := num / den
  let rest := num % den
  let okLo := readsBack mant expo lo e
  let okHi := readsBack mant expo (lo + 1) e
  match okLo, okHi with
  | false, false => none
  | true, false => some lo
  | false, true => some (lo + 1)
  | true, true =>
    if 2 * rest < den ∨ (2 * rest = den ∧ lo % 2 = 0) then some lo else some (lo + 1)

/-- Digits without the zeros at their end, which go into the exponent. -/
def trim : Nat → Nat → Int → Decimal
  | 0, d, e => ⟨d, e⟩
  | fuel + 1, d, e => if d ≠ 0 ∧ d % 10 = 0 then trim fuel (d / 10) (e + 1) else ⟨d, e⟩

/-- The first grid of `n, n + 1, …` digits that has a hit. -/
def search (mant : Nat) (expo top : Int) : Nat → Nat → Decimal
  | 0, _ => ⟨mant, 0⟩
  | fuel + 1, n =>
    match onGrid mant expo (top - n) with
    | some d => trim 20 d (top - n)
    | none => search mant expo top fuel (n + 1)

/-- The shortest decimal of `mant * 2 ^ expo`. -/
def ofFinite (mant : Nat) (expo : Int) : Decimal :=
  let (a, b) := ratio mant expo
  let start := (Binary64.log2Ratio a b) * 3 / 10 - 2
  search mant expo (magnitude a b 700 start) 18 1

end Shortest

namespace Decimal

/-- The decimal digits. -/
def figures (d : Decimal) : List Char := Nat.toDigits 10 d.digits

/-- Positional text with as many zeros as it takes, and no point if there is no fraction. -/
def plain (d : Decimal) : String :=
  let ds := d.figures
  let point := (ds.length : Int) + d.expo
  if d.expo ≥ 0 then String.ofList (ds ++ List.replicate d.expo.natAbs '0')
  else if point ≤ 0 then String.ofList ("0.".toList ++ List.replicate point.natAbs '0' ++ ds)
  else String.ofList (ds.take point.natAbs ++ '.' :: ds.drop point.natAbs)

/-- Positional text with a point for numbers of at most 16 digits before it and at most five
zeros behind it; else one digit, the others behind a point, and a power of ten. -/
def compact (d : Decimal) : String :=
  let ds := d.figures
  let point := (ds.length : Int) + d.expo
  if 0 ≤ d.expo ∧ point ≤ 16 then
    String.ofList (ds ++ List.replicate d.expo.natAbs '0' ++ ".0".toList)
  else if 0 < point ∧ point ≤ 16 then
    String.ofList (ds.take point.natAbs ++ '.' :: ds.drop point.natAbs)
  else if -5 < point ∧ point ≤ 0 then
    String.ofList ("0.".toList ++ List.replicate point.natAbs '0' ++ ds)
  else
    let tail := if ds.length = 1 then [] else '.' :: ds.drop 1
    String.ofList (ds.take 1 ++ tail) ++ "e" ++ toString (point - 1)

end Decimal

namespace Binary64

def sign (neg : Bool) : String := if neg then "-" else ""

/-- Positional text: `1000`, `0.1`, `-0`, `inf`, `NaN`. -/
def plain (x : Binary64) : String :=
  match x.view with
  | .nan => "NaN"
  | .infinite neg => sign neg ++ "inf"
  | .zero neg => sign neg ++ "0"
  | .finite neg m q => sign neg ++ (Shortest.ofFinite m q).plain

/-- Text with a point or a power of ten: `1000.0`, `0.1`, `-0.0`, `1e16`; what is not finite has
no such text and reads `null`. -/
def compact (x : Binary64) : String :=
  match x.view with
  | .nan | .infinite _ => "null"
  | .zero neg => sign neg ++ "0.0"
  | .finite neg m q => sign neg ++ (Shortest.ofFinite m q).compact

end Binary64

end JobEngine
