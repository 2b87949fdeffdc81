import Silhouette.Json.Fault
import Silhouette.Json.Numeral

/-!
# Reading a number

`Numeral.scan` reads the number at the head of a list of characters and answers it together with
how many characters it takes.  A minus sign has been taken before; whatever follows the number is
left alone, so `1x` is a number and then something else.

The digits are gathered into a **significand** of 64 bits, and the number is that times a power of
ten.  Digits in front of the point that no longer fit count one power of ten each; digits behind the
point count one power less each as long as they fit and are dropped from the first that does not.
A number without point and exponent whose digits all fit is a whole number, except that `-0` and
whole numbers below `-2 ^ 63` are not.
-/

set_option autoImplicit false

namespace Silhouette.Json.Numeral

/-- The largest significand. -/
def maxSignificand : Nat := 0xffffffffffffffff

/-- The largest exponent that is written out. -/
def maxExponent : Nat := 0x7fffffff

def digit (c : Char) : Nat := c.toNat - '0'.toNat

/-- Append digits to a number while it does not exceed a limit.  The second component is the digits
that were left over. -/
def absorb (limit : Nat) (n : Nat) : List Char → Nat × List Char
  | [] => (n, [])
  | d :: ds =>
    if n * 10 + digit d ≤ limit then absorb limit (n * 10 + digit d) ds else (n, d :: ds)

/-- A number whose sign, significand and power of ten are known and which ends at `stop`. -/
def scaled (negative : Bool) (significand : Nat) (exponent : Int) (stop : Nat) :
    Except Fault Numeral :=
  match Magnitude.scale? significand exponent with
  | some v => .ok (.binary negative v)
  | none => .error ⟨.numberOutOfRange, stop⟩

/-- A number without point and exponent whose digits all fit into the significand. -/
def ofSignificand (negative : Bool) (significand : Nat) (stop : Nat) : Except Fault Numeral :=
  if !negative then .ok (.whole significand)
  else if significand ≠ 0 ∧ significand ≤ 0x8000000000000000 then .ok (.whole (-significand))
  else scaled true significand 0 stop

/-- A digit had to come at `offset`, where `rest` starts. -/
def missingDigit (rest : List Char) (offset : Nat) : Fault :=
  if rest.isEmpty then ⟨.endInValue, offset⟩ else ⟨.invalidNumber, offset + 1⟩

/-- The exponent that starts at `offset`, behind its letter.  The number read so far takes `length`
characters, the letter included. -/
def scanExponent (negative : Bool) (significand : Nat) (exponent : Int) (length offset : Nat)
    (cs : List Char) : Except Fault (Numeral × Nat) :=
  let (upward, signs, cs) : Bool × Nat × List Char :=
    match cs with
    | '+' :: rest => (true, 1, rest)
    | '-' :: rest => (false, 1, rest)
    | rest => (true, 0, rest)
  let offset := offset + signs
  let digits := cs.takeWhile Char.isDigit
  if digits.isEmpty then .error (missingDigit cs offset)
  else
    let (e, left) := absorb maxExponent 0 digits
    let length := length + signs + digits.length
    if !left.isEmpty then
      if upward && significand != 0 then
        .error ⟨.numberOutOfRange, offset + (digits.length - left.length) + 1⟩
      else .ok (.binary negative .zero, length)
    else do
      let exponent := if upward then exponent + e else exponent - e
      return (← scaled negative significand exponent (offset + digits.length), length)

/-- What may follow the digits of a number: an exponent or nothing. -/
def scanTail (negative : Bool) (significand : Nat) (exponent : Int) (length offset : Nat)
    (cs : List Char) (plain : Except Fault Numeral) : Except Fault (Numeral × Nat) :=
  match cs with
  | c :: rest =>
    if c = 'e' ∨ c = 'E' then
      scanExponent negative significand exponent (length + 1) (offset + 1) rest
    else plain.map fun n ↦ (n, length)
  | [] => plain.map fun n ↦ (n, length)

/-- The number at the head of a list of characters that starts at `offset`, and its length. -/
def scan (negative : Bool) (offset : Nat) (cs : List Char) : Except Fault (Numeral × Nat) :=
  let digits := cs.takeWhile Char.isDigit
  let rest := cs.dropWhile Char.isDigit
  match digits with
  | [] => .error (missingDigit cs offset)
  | '0' :: _ :: _ => .error ⟨.invalidNumber, offset + 2⟩
  | _ =>
    let (significand, left) := absorb maxSignificand 0 digits
    let length := digits.length
    let stop := offset + length
    match rest with
    | '.' :: rest =>
      let places := rest.takeWhile Char.isDigit
      if places.isEmpty then .error (missingDigit rest (stop + 1))
      else
        let (significand, unread) := absorb maxSignificand significand places
        let exponent : Int := left.length - (places.length - unread.length : Nat)
        let stop := stop + 1 + places.length
        scanTail negative significand exponent (length + 1 + places.length) stop
          (rest.dropWhile Char.isDigit) (scaled negative significand exponent stop)
    | rest =>
      scanTail negative significand left.length length stop rest
        (if left.isEmpty then ofSignificand negative significand stop
          else scaled negative significand left.length stop)

end Silhouette.Json.Numeral
