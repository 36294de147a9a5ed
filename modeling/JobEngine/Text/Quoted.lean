import JobEngine.Text.Printable

/-!
# Quoted texts and lists of them

A name is shown between double quotes.  A quote, a backslash, a tab, a line feed, a carriage
return and NUL have short escapes; a character that `isPlain` refuses is written as its code
point in braces.

* `Text.quoted`       one text;
* `Text.quotedList`   several, between brackets and with commas.
-/

namespace JobEngine.Text

/-- The digits of a code point, small hexadecimal letters. -/
def hex (n : Nat) : String := String.ofList (Nat.toDigits 16 n)

/-- How one character is written inside quotes. -/
def escaped (c : Char) : String :=
  if c = '"' then "\\\""
  else if c = '\\' then "\\\\"
  else if c = '\t' then "\\t"
  else if c = '\n' then "\\n"
  else if c = '\r' then "\\r"
  else if c = '\x00' then "\\0"
  else if isPlain c then String.singleton c
  else "\\u\x7b" ++ hex c.toNat ++ "\x7d"

/-- A text between quotes. -/
def quoted (s : String) : String := "\"" ++ String.join (s.toList.map escaped) ++ "\""

/-- Several texts, each quoted, between brackets. -/
def quotedList (names : List String) : String :=
  "[" ++ ", ".intercalate (names.map quoted) ++ "]"

end JobEngine.Text
