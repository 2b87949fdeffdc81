import Silhouette.Text.Utf8

/-!
# What can be wrong with a JSON text

A `Fault` is a cause and the place where it was noticed.  The place is kept as a number of bytes
from the start; `Position.locate` turns it into a line and a column when it has to be told to
someone.  Columns count bytes, and a place just after a line feed is column 0 of the next line.

Two habits decide which number is noted down.  A fault that is seen by looking at the next character
without taking it is placed **on** that character; one that is seen only after characters were taken
is placed behind what was taken.  At the end of the text the two agree.
-/

set_option autoImplicit false

namespace Silhouette.Json

/-- The ways in which a text can fail to be JSON. -/
inductive Fault.Cause where
  | endInList
  | endInObject
  | endInString
  | endInValue
  | expectedColon
  | expectedListCommaOrEnd
  | expectedObjectCommaOrEnd
  | expectedLiteral
  | expectedValue
  | invalidEscape
  | invalidNumber
  | numberOutOfRange
  | controlCharacter
  | keyMustBeString
  | loneSurrogate
  | trailingComma
  | trailingCharacters
  | unfinishedSurrogatePair
  | tooDeep
deriving DecidableEq, Repr

namespace Fault.Cause

/-- The wording of a cause. -/
def message : Fault.Cause → String
  | endInList => "EOF while parsing a list"
  | endInObject => "EOF while parsing an object"
  | endInString => "EOF while parsing a string"
  | endInValue => "EOF while parsing a value"
  | expectedColon => "expected `:`"
  | expectedListCommaOrEnd => "expected `,` or `]`"
  | expectedObjectCommaOrEnd => "expected `,` or `\x7d`"
  | expectedLiteral => "expected ident"
  | expectedValue => "expected value"
  | invalidEscape => "invalid escape"
  | invalidNumber => "invalid number"
  | numberOutOfRange => "number out of range"
  | controlCharacter => "control character (\\u0000-\\u001F) found while parsing a string"
  | keyMustBeString => "key must be a string"
  | loneSurrogate => "lone leading surrogate in hex escape"
  | trailingComma => "trailing comma"
  | trailingCharacters => "trailing characters"
  | unfinishedSurrogatePair => "unexpected end of hex escape"
  | tooDeep => "recursion limit exceeded"

end Fault.Cause

/-- A cause and the number of bytes before the place where it was noticed. -/
structure Fault where
  cause : Fault.Cause
  offset : Nat
deriving DecidableEq, Repr

/-- A line, counted from 1, and a number of bytes on it. -/
structure Position where
  line : Nat
  column : Nat
deriving DecidableEq, Repr

namespace Position

/-- Step over `bytes` bytes of a text; a character that is cut counts only up to the cut. -/
def advance (start : Position) : List Char → (bytes : Nat) → Position
  | _, 0 => start
  | [], _ => start
  | c :: rest, bytes + 1 =>
    if c = '\n' then advance ⟨start.line + 1, 0⟩ rest bytes
    else if c.utf8Size ≤ bytes + 1 then
      advance ⟨start.line, start.column + c.utf8Size⟩ rest (bytes + 1 - c.utf8Size)
    else ⟨start.line, start.column + (bytes + 1)⟩

/-- The place that lies a number of bytes into a text. -/
def locate (text : String) (offset : Nat) : Position := advance ⟨1, 0⟩ text.toList offset

def text (p : Position) : String :=
  "line " ++ toString p.line ++ " column " ++ toString p.column

end Position

/-- A cause with its place spelled out. -/
def Fault.message (source : String) (fault : Fault) : String :=
  fault.cause.message ++ " at " ++ (Position.locate source fault.offset).text

end Silhouette.Json
