/-!
# Binary64 numbers as bits

A number is kept as its 64 bits, so that equality is decidable and nothing here depends on the
machine's arithmetic.

* `Binary64.view`       zero, finite, infinite or no number;
* `Binary64.nearest`    the number nearest to a ratio, a tie going to the even neighbour;
* `Binary64.ofDecimal`  the same for `digits * 10 ^ exponent`;
* `Binary64.toCount`    the nearest count of 64 bits, a half going up and the ends clamped.
-/

namespace JobEngine

/-- A binary64 number, as its bits. -/
structure Binary64 where
  bits : UInt64
deriving DecidableEq, Repr, Inhabited

namespace Binary64

/-- What the bits say.  A finite number other than zero is `mant * 2 ^ expo` in size. -/
inductive View
  | nan
  | infinite (neg : Bool)
  | zero (neg : Bool)
  | finite (neg : Bool) (mant : Nat) (expo : Int)
deriving DecidableEq, Repr

/-- The weight of the sign among the bits. -/
def signBit : Nat := Nat.pow 2 63

/-- How many fractions there are; also the bit that a full mantissa adds to its fraction. -/
def fractions : Nat := Nat.pow 2 52

def view (x : Binary64) : View :=
  let n : Nat := x.bits.toNat
  let neg : Bool := n / signBit == 1
  let e : Nat := n / fractions % 2048
  let f : Nat := n % fractions
  if e = 2047 then (if f = 0 then .infinite neg else .nan)
  else if e = 0 then (if f = 0 then .zero neg else .finite neg f (-1074))
  else .finite neg (fractions + f) ((e : Int) - 1075)

/-- The bits from sign, biased exponent and fraction. -/
def pack (neg : Bool) (e f : Nat) : Binary64 :=
  ⟨UInt64.ofNat ((if neg then signBit else 0) + e * fractions + f)⟩

def nan : Binary64 := pack false 2047 (fractions / 2)

def infinity (neg : Bool) : Binary64 := pack neg 2047 0

def zero (neg : Bool) : Binary64 := pack neg 0 0

/-- The ratio `num / den` to the nearest whole number, a tie going to the even one. -/
def roundEven (num den : Nat) : Nat :=
  let q := num / den
  let r := num % den
  if 2 * r < den then q
  else if den < 2 * r then q + 1
  else q + q % 2

/-- The exponent `e` with `2 ^ e ≤ num / den < 2 ^ (e + 1)`, for positive arguments. -/
def log2Ratio (num den : Nat) : Int :=
  let e := (num.log2 : Int) - (den.log2 : Int)
  let fits := if e < 0 then den ≤ num * Nat.pow 2 e.natAbs else den * Nat.pow 2 e.natAbs ≤ num
  if fits then e else e - 1

/-- The binary64 number nearest to `num / den`. -/
def nearest (neg : Bool) (num den : Nat) : Binary64 :=
  if num = 0 ∨ den = 0 then zero neg
  else
    let q := max (log2Ratio num den - 52) (-1074)
    let m := if q < 0 then roundEven (num * Nat.pow 2 q.natAbs) den
             else roundEven num (den * Nat.pow 2 q.natAbs)
    let (m, q) := if m = 2 * fractions then (fractions, q + 1) else (m, q)
    if m < fractions then pack neg 0 m
    else if q > 971 then infinity neg
    else pack neg (q + 1075).toNat (m - fractions)

/-- The binary64 number nearest to `digits * 10 ^ exponent`. -/
def ofDecimal (neg : Bool) (digits : Nat) (exponent : Int) : Binary64 :=
  if digits = 0 then zero neg
  else
    let places := (Nat.toDigits 10 digits).length
    -- far outside the range the answer is known without the power of ten
    if exponent + places > 400 then infinity neg
    else if exponent + places < -400 then zero neg
    else if exponent < 0 then nearest neg digits (Nat.pow 10 exponent.natAbs)
    else nearest neg (digits * Nat.pow 10 exponent.natAbs) 1

/-- The nearest number of `0 … 2 ^ 64 - 1`; a half goes up and what is no number counts as 0. -/
def toCount (x : Binary64) : Nat :=
  match x.view with
  | .nan | .zero _ => 0
  | .infinite neg => if neg then 0 else UInt64.size - 1
  | .finite true _ _ => 0
  | .finite false m q =>
    let p := Nat.pow 2 q.natAbs
    min (UInt64.size - 1) (if q < 0 then (2 * m + p) / (2 * p) else m * p)

end Binary64

end JobEngine
