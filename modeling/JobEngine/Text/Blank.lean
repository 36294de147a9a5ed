/-!
# Blank texts, letter case and search

* `Text.isSpace`    the white space characters of Unicode;
* `Text.isBlank`    a text that has no other characters;
* `Text.lower`      capital ASCII letters become small;
* `Text.occurs`     one list of characters is found somewhere in another.
-/

namespace JobEngine.Text

/-- White space, as Unicode has it: 25 characters, the line breaks among them. -/
def isSpace (c : Char) : Bool :=
  let n := c.toNat
  (0x09 ≤ n && n ≤ 0x0D) || n == 0x20 || n == 0x85 || n == 0xA0 || n == 0x1680 ||
    (0x2000 ≤ n && n ≤ 0x200A) || n == 0x2028 || n == 0x2029 || n == 0x202F ||
    n == 0x205F || n == 0x3000

/-- A text of white space only; the empty text is blank. -/
def isBlank (s : String) : Bool := s.toList.all isSpace

/-- A text with its capital ASCII letters made small. -/
def lower (s : String) : List Char := s.toList.map Char.toLower

/-- Whether `pat` is found somewhere in a list of characters. -/
def occurs (pat : List Char) : List Char → Bool
  | [] => pat.isEmpty
  | c :: cs => pat.isPrefixOf (c :: cs) || occurs pat cs

theorem occurs_iff {pat cs : List Char} : occurs pat cs = true ↔ pat <:+: cs := by
  induction cs with
  | nil => rw [occurs, List.isEmpty_iff, List.infix_nil]
  | cons c cs ih =>
    rw [occurs, Bool.or_eq_true, ih, List.isPrefixOf_iff_prefix, List.infix_cons_iff]

end JobEngine.Text
