import JobEngine.Json.Basic
import JobEngine.Text.Hex
import JobEngine.Number.Shortest

/-!
# The text of a JSON value

No blanks are written.  A string escapes the quote, the backslash and what stands below the
space; every other character is written as it is.

* `Json.compress`   the text of a value.
-/

namespace JobEngine.Json

def escape (c : Char) : List Char :=
  if c = '"' then ['\\', '"']
  else if c = '\\' then ['\\', '\\']
  else if c = '\n' then ['\\', 'n']
  else if c = '\r' then ['\\', 'r']
  else if c = '\t' then ['\\', 't']
  else if c.toNat = 8 then ['\\', 'b']
  else if c.toNat = 12 then ['\\', 'f']
  else if c.toNat < 32 then ['\\', 'u'] ++ Text.hexDigits 4 c.toNat
  else [c]

def quote (s : String) : String :=
  "\"" ++ String.ofList (s.toList.flatMap escape) ++ "\""

def numberText : Number → String
  | .int n => toString n
  | .float x => x.compact

mutual

/-- The text of a value. -/
def compress : Json → String
  | .null => "null"
  | .bool true => "true"
  | .bool false => "false"
  | .num n => numberText n
  | .str s => quote s
  | .arr items => "[" ++ compressItems items ++ "]"
  | .obj members => "\x7b" ++ compressMembers members ++ "\x7d"

def compressItems : List Json → String
  | [] => ""
  | [v] => v.compress
  | v :: vs => v.compress ++ "," ++ compressItems vs

def compressMembers : List (String × Json) → String
  | [] => ""
  | [(k, v)] => quote k ++ ":" ++ v.compress
  | (k, v) :: ms => quote k ++ ":" ++ v.compress ++ "," ++ compressMembers ms

end

end JobEngine.Json
