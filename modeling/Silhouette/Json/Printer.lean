import Silhouette.Json.Basic

/-!
# Writing JSON

Two layouts of the same text: `Json.compact` on one line without any blanks, and `Json.pretty` with
one element or member per line, two blanks deeper than what holds it.  An empty list or object is
written as its two brackets in both.

A string is written between quotes (`quote`).  Quotes, backslashes and the control characters below
the blank are escaped, those with a short escape by it and the others by their number; every other
character stands for itself.
-/

set_option autoImplicit false

namespace Silhouette.Json

/-- A hexadecimal digit, in lower case. -/
def hexDigit (n : Nat) : Char := if n < 10 then Char.ofNat (48 + n) else Char.ofNat (87 + n)

/-- How a character is written inside a string. -/
def escapeChar (c : Char) : List Char :=
  if c = '"' then ['\\', '"']
  else if c = '\\' then ['\\', '\\']
  else if c = '\x08' then ['\\', 'b']
  else if c = '\x0c' then ['\\', 'f']
  else if c = '\n' then ['\\', 'n']
  else if c = '\r' then ['\\', 'r']
  else if c = '\t' then ['\\', 't']
  else if c.toNat < 0x20 then
    ['\\', 'u', '0', '0', hexDigit (c.toNat / 16), hexDigit (c.toNat % 16)]
  else [c]

/-- A string in quotes. -/
def quote (s : String) : String := String.ofList ('"' :: s.toList.flatMap escapeChar ++ ['"'])

/-! ## On one line -/

mutual

/-- A value without blanks. -/
def compact : Json → String
  | .null => "null"
  | .bool b => if b then "true" else "false"
  | .number n => n.text
  | .string s => quote s
  | .array items => "[" ++ ",".intercalate (compactItems items) ++ "]"
  | .object members => "\x7b" ++ ",".intercalate (compactMembers members) ++ "\x7d"

def compactItems : List Json → List String
  | [] => []
  | v :: rest => compact v :: compactItems rest

def compactMembers : List (String × Json) → List String
  | [] => []
  | (key, v) :: rest => (quote key ++ ":" ++ compact v) :: compactMembers rest

end

/-! ## On many lines -/

/-- The start of a line that is `depth` levels deep. -/
def indent (depth : Nat) : String := "\n" ++ "".pushn ' ' (2 * depth)

/-- Parts on lines of their own, between two brackets that stand `depth` levels deep. -/
def block (depth : Nat) (opening : String) (parts : List String) (closing : String) : String :=
  if parts.isEmpty then opening ++ closing
  else
    opening ++ indent (depth + 1) ++ ("," ++ indent (depth + 1)).intercalate parts ++
      indent depth ++ closing

mutual

/-- A value that starts on a line `depth` levels deep. -/
def prettyAt (depth : Nat) : Json → String
  | .null => "null"
  | .bool b => if b then "true" else "false"
  | .number n => n.text
  | .string s => quote s
  | .array items => block depth "[" (prettyItems (depth + 1) items) "]"
  | .object members => block depth "\x7b" (prettyMembers (depth + 1) members) "\x7d"

def prettyItems (depth : Nat) : List Json → List String
  | [] => []
  | v :: rest => prettyAt depth v :: prettyItems depth rest

def prettyMembers (depth : Nat) : List (String × Json) → List String
  | [] => []
  | (key, v) :: rest => (quote key ++ ": " ++ prettyAt depth v) :: prettyMembers depth rest

end

/-- A value with one element or member per line. -/
def pretty (v : Json) : String := prettyAt 0 v

end Silhouette.Json
