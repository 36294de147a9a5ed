import JobEngine.Text.Hex

/-!
# Universally unique identifiers

An identifier has 128 bits.  It is written as 32 small hexadecimal digits in groups of
8-4-4-4-12.  It is read from such a text with digits of any case, from the same in braces or
behind `urn:uuid:`, and from the digits alone.

* `Uuid.text`      the written form;
* `Uuid.parse`     reading, with the first fault of a text that cannot be read;
* `Uuid.Fault`     what is wrong with a text, and `Fault.message` in words.

Lengths and positions are in bytes.
-/

namespace JobEngine

/-- A 128 bit identifier, ordered as a number. -/
structure Uuid where
  bits : BitVec 128
deriving DecidableEq, Repr, Inhabited

namespace Uuid

instance : LE Uuid := ⟨fun a b => a.bits ≤ b.bits⟩
instance : LT Uuid := ⟨fun a b => a.bits < b.bits⟩
instance (a b : Uuid) : Decidable (a ≤ b) := inferInstanceAs (Decidable (a.bits ≤ b.bits))
instance (a b : Uuid) : Decidable (a < b) := inferInstanceAs (Decidable (a.bits < b.bits))

/-- The identifier of zeros. -/
def nil : Uuid := ⟨0⟩

/-! ## writing -/

/-- Digits in groups of 8, 4, 4, 4 and the rest, hyphens between them. -/
def hyphenated (cs : List Char) : List Char :=
  cs.take 8 ++ '-' :: (cs.drop 8).take 4 ++ '-' :: (cs.drop 12).take 4 ++
    '-' :: (cs.drop 16).take 4 ++ '-' :: cs.drop 20

/-- The 32 digits. -/
def digits (u : Uuid) : List Char := Text.hexDigits 32 u.bits.toNat

def text (u : Uuid) : String := String.ofList (hyphenated u.digits)

/-- The last four digits. -/
def short (u : Uuid) : String := String.ofList (Text.hexDigits 4 u.bits.toNat)

/-! ## reading -/

/-- What is wrong with a text. -/
inductive Fault
  | length (found : Nat)
  | character (c : Char) (position : Nat)
  | groupCount (found : Nat)
  | groupLength (group expected found : Nat)
deriving DecidableEq, Repr

def Fault.message : Fault → String
  | .length n => s!"invalid length: found {n}"
  | .character c p => "invalid character: found \x60" ++ String.singleton c ++ s!"\x60 at {p}"
  | .groupCount n => s!"invalid group count: expected 5, found {n}"
  | .groupLength g e n => s!"invalid group length in group {g}: expected {e}, found {n}"

/-- The digits of a hyphenated text. -/
def ungrouped? (cs : List Char) : Option (List Char) :=
  if cs.length = 36 ∧ cs[8]? = some '-' ∧ cs[13]? = some '-' ∧ cs[18]? = some '-' ∧
      cs[23]? = some '-' then
    some (cs.take 8 ++ (cs.drop 9).take 4 ++ (cs.drop 14).take 4 ++ (cs.drop 19).take 4 ++
      cs.drop 24)
  else none

def ofDigits? (cs : List Char) : Option Uuid :=
  if cs.length = 32 then (Text.hexNumber? 0 cs).map fun n => ⟨BitVec.ofNat 128 n⟩ else none

/-- How many bytes a list of characters takes. -/
def byteLength (cs : List Char) : Nat := cs.foldr (fun c n => c.utf8Size + n) 0

/-- What is inside braces. -/
def braced? (cs : List Char) : Option (List Char) :=
  match cs with
  | '\x7b' :: rest => if rest.getLast? = some '\x7d' then some rest.dropLast else none
  | _ => none

/-- What follows `urn:uuid:` in any case. -/
def urn? (cs : List Char) : Option (List Char) :=
  if (cs.take 9).map Char.toLower = "urn:uuid:".toList then some (cs.drop 9) else none

/-- The text inside, if the form calls for a hyphenated one. -/
def grouped? (cs : List Char) : Option (List Char) :=
  match byteLength cs with
  | 36 => some cs
  | 38 => braced? cs
  | 45 => urn? cs
  | _ => none

/-- The part of a text to look for faults in, its position, and whether it may do without
hyphens. -/
def examined (cs : List Char) : List Char × Nat × Bool :=
  match grouped? cs with
  | some inner => (inner, 0, false)
  | none =>
    match braced? cs with
    | some inner => (inner, 1, false)
    | none =>
      match urn? cs with
      | some inner => (inner, 9, false)
      | none => (cs, 0, true)

/-- The first character that is neither a digit nor a hyphen, and the positions of hyphens. -/
def scan (position : Nat) : List Char → Except (Char × Nat) (List Nat)
  | [] => .ok []
  | c :: cs =>
    if c = '-' then (scan (position + 1) cs).map (position :: ·)
    else if (Text.hexDigit? c).isSome then scan (position + 1) cs
    else .error (c, position)

/-- The fault of five groups, given where each should end, by the positions of the hyphens. -/
def groupFault (whole : Nat) : List (Nat × Nat × Nat × Nat) → Fault
  | [] => .groupLength 4 12 (whole - 24)
  | (group, start, expected, hyphen) :: rest =>
    if hyphen = start + expected then groupFault whole rest
    else .groupLength group expected (hyphen - start)

/-- What is wrong with a text that is no identifier. -/
def fault (cs : List Char) : Fault :=
  let whole := byteLength cs
  if whole = 0 ∨ 45 < whole then .length whole
  else
    let (inner, offset, plain) := examined cs
    match scan 0 inner with
    | .error (c, p) => .character c (offset + p)
    | .ok hyphens =>
      if hyphens = [] ∧ plain then .length whole
      else
        match hyphens with
        | [h₀, h₁, h₂, h₃] =>
          groupFault whole [(0, 0, 8, h₀), (1, 9, 4, h₁), (2, 14, 4, h₂), (3, 19, 4, h₃)]
        | _ => .groupCount (hyphens.length + 1)

def parse? (cs : List Char) : Option Uuid :=
  match grouped? cs with
  | some inner => (ungrouped? inner).bind ofDigits?
  | none => ofDigits? cs

/-- The identifier of a text. -/
def parse (s : String) : Except Fault Uuid :=
  match parse? s.toList with
  | some u => .ok u
  | none => .error (fault s.toList)

end Uuid

end JobEngine
