import Silhouette.Json.Numeral.Scan

/-!
# The tokens of a JSON text

`tokens` cuts a text into brackets, commas, colons, words, numbers and strings, each with the place
where it starts and the place where it stops.  Strings come decoded.

Reading goes on lazily as far as the grammar is concerned: a token that is broken inside is itself
a token, carrying its fault, and is the last one.  Whether that fault is the complaint about the
text is for the grammar to decide, since a broken number where a comma was due is a missing comma.

Both readers walk down the list of characters one by one.  Where an item takes several characters
at once — an escape, a number — they note how many are still to be passed over instead of jumping.
-/

set_option autoImplicit false

namespace Silhouette.Json

/-- What a token is. -/
inductive Lexeme where
  | openBrace
  | closeBrace
  | openBracket
  | closeBracket
  | colon
  | comma
  | null
  | bool (value : Bool)
  | number (value : Numeral)
  | string (value : String)
  /-- Something that starts like a token and goes wrong; `quoted` says that it starts as a
  string. -/
  | broken (quoted : Bool) (fault : Fault)
  /-- A character that no token starts with. -/
  | stray
deriving DecidableEq, Repr

/-- A token and the bytes it takes. -/
structure Token where
  lexeme : Lexeme
  start : Nat
  stop : Nat
deriving DecidableEq, Repr

namespace Token

/-! ## Strings -/

/-- The value of a hexadecimal digit. -/
def hexDigit? (c : Char) : Option Nat :=
  if '0' ≤ c ∧ c ≤ '9' then some (c.toNat - '0'.toNat)
  else if 'a' ≤ c ∧ c ≤ 'f' then some (c.toNat - 'a'.toNat + 10)
  else if 'A' ≤ c ∧ c ≤ 'F' then some (c.toNat - 'A'.toNat + 10)
  else none

/-- The number that four hexadecimal digits at `offset` stand for.  Four bytes are taken, whatever
they are. -/
def hexFour (offset : Nat) (cs : List Char) : Except Fault Nat :=
  if Text.byteLength (cs.take 4) < 4 then .error ⟨.endInString, offset + Text.byteLength cs⟩
  else
    match (cs.take 4).mapM hexDigit? with
    | some [a, b, c, d] => .ok (((a * 16 + b) * 16 + c) * 16 + d)
    | _ => .error ⟨.invalidEscape, offset + 4⟩

/-- The character that an escape stands for and how many characters follow its backslash. -/
def escape (offset : Nat) : List Char → Except Fault (Char × Nat)
  | [] => .error ⟨.endInString, offset⟩
  | '"' :: _ => .ok ('"', 1)
  | '\\' :: _ => .ok ('\\', 1)
  | '/' :: _ => .ok ('/', 1)
  | 'b' :: _ => .ok ('\x08', 1)
  | 'f' :: _ => .ok ('\x0c', 1)
  | 'n' :: _ => .ok ('\n', 1)
  | 'r' :: _ => .ok ('\r', 1)
  | 't' :: _ => .ok ('\t', 1)
  | 'u' :: cs => do
    let high ← hexFour (offset + 1) cs
    let offset := offset + 5
    if 0xDC00 ≤ high ∧ high ≤ 0xDFFF then throw ⟨.loneSurrogate, offset⟩
    if high < 0xD800 ∨ 0xDFFF < high then return (Char.ofNat high, 5)
    match cs.drop 4 with
    | [] => throw ⟨.endInString, offset⟩
    | '\\' :: [] => throw ⟨.endInString, offset + 1⟩
    | '\\' :: 'u' :: cs =>
      let low ← hexFour (offset + 2) cs
      if low < 0xDC00 ∨ 0xDFFF < low then throw ⟨.loneSurrogate, offset + 6⟩
      return (Char.ofNat (0x10000 + (high - 0xD800) * 0x400 + (low - 0xDC00)), 11)
    | '\\' :: _ => throw ⟨.unfinishedSurrogatePair, offset + 2⟩
    | _ => throw ⟨.unfinishedSurrogatePair, offset + 1⟩
  | _ => .error ⟨.invalidEscape, offset + 1⟩

/-- The string whose characters so far are `done`, backwards, and whose rest starts at `offset`.
The answer is the string, how many characters follow the opening quote and where they stop. -/
def scanString (skip : Nat) (done : List Char) (length offset : Nat) :
    List Char → Except Fault (String × Nat × Nat)
  | [] => .error ⟨.endInString, offset⟩
  | c :: rest =>
    match skip with
    | skip + 1 => scanString skip done (length + 1) (offset + c.utf8Size) rest
    | 0 =>
      if c = '"' then .ok (String.ofList done.reverse, length + 1, offset + 1)
      else if c = '\\' then
        match escape (offset + 1) rest with
        | .error fault => .error fault
        | .ok (e, skip) => scanString skip (e :: done) (length + 1) (offset + 1) rest
      else if c.toNat < 0x20 then .error ⟨.controlCharacter, offset + 1⟩
      else scanString 0 (c :: done) (length + 1) (offset + c.utf8Size) rest

/-! ## Single tokens -/

/-- Check that the word `expected` comes at `offset`. -/
def scanWord (offset : Nat) : (expected : List Char) → List Char → Except Fault Unit
  | [], _ => .ok ()
  | _ :: _, [] => .error ⟨.endInValue, offset⟩
  | e :: expected, c :: rest =>
    if c = e then scanWord (offset + 1) expected rest else .error ⟨.expectedLiteral, offset + 1⟩

/-- A mark of one character. -/
def mark (lexeme : Lexeme) (start : Nat) : Token × Option Nat :=
  (⟨lexeme, start, start + 1⟩, some 0)

/-- A word whose first letter has been seen at `start`. -/
def word (lexeme : Lexeme) (expected : List Char) (start : Nat) (rest : List Char) :
    Token × Option Nat :=
  match scanWord (start + 1) expected rest with
  | .ok () => (⟨lexeme, start, start + 1 + expected.length⟩, some expected.length)
  | .error fault => (⟨.broken false fault, start, start + 1⟩, none)

/-- A number whose digits are `digits`, behind `signs` characters at `start`. -/
def number (negative : Bool) (signs start : Nat) (digits : List Char) : Token × Option Nat :=
  match Numeral.scan negative (start + signs) digits with
  | .ok (n, length) => (⟨.number n, start, start + signs + length⟩, some (signs + length - 1))
  | .error fault => (⟨.broken false fault, start, start + 1⟩, none)

/-- The token that starts with `c` at `start`, and how many more characters it takes; `none` if
nothing can be read after it. -/
def read (start : Nat) (c : Char) (rest : List Char) : Token × Option Nat :=
  match c with
  | '\x7b' => mark .openBrace start
  | '\x7d' => mark .closeBrace start
  | '[' => mark .openBracket start
  | ']' => mark .closeBracket start
  | ':' => mark .colon start
  | ',' => mark .comma start
  | 'n' => word .null ['u', 'l', 'l'] start rest
  | 't' => word (.bool true) ['r', 'u', 'e'] start rest
  | 'f' => word (.bool false) ['a', 'l', 's', 'e'] start rest
  | '-' => number true 1 start rest
  | '"' =>
    match scanString 0 [] 0 (start + 1) rest with
    | .ok (s, length, stop) => (⟨.string s, start, stop⟩, some length)
    | .error fault => (⟨.broken true fault, start, start + 1⟩, none)
  | c =>
    if c.isDigit then number false 0 start (c :: rest) else (⟨.stray, start, start + 1⟩, none)

/-! ## The whole text -/

/-- The blanks that may stand between tokens. -/
def isSeparator (c : Char) : Bool := c == ' ' || c == '\t' || c == '\n' || c == '\r'

/-- The tokens of a text of which the part before `offset` has been read into `done`, backwards. -/
def scan (done : List Token) (skip offset : Nat) : List Char → List Token
  | [] => done.reverse
  | c :: rest =>
    match skip with
    | skip + 1 => scan done skip (offset + c.utf8Size) rest
    | 0 =>
      if isSeparator c then scan done 0 (offset + 1) rest
      else
        match read offset c rest with
        | (t, some skip) => scan (t :: done) skip (offset + c.utf8Size) rest
        | (t, none) => (t :: done).reverse

end Token

/-- The tokens of a text. -/
def tokens (text : String) : List Token := Token.scan [] 0 0 text.toList

end Silhouette.Json
