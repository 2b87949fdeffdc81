import Silhouette.Text.Utf8

/-!
# Timestamps

`Timestamp.check` decides whether a text is a date and a time of day with an offset, as in
`2024-05-01T10:00:00.25+02:00`, and says what is wrong if it is not.  The parts are looked at from
left to right, except that the ranges of the time of day are looked at only behind the fraction of
a second, and that of the offset only once nothing follows it.

The calendar is the Gregorian one for all years, year 0 a leap year; every minute may have a
sixty-first second.
-/

set_option autoImplicit false

namespace Silhouette.Timestamp

/-- Why a text is no timestamp. -/
inductive Fault where
  | tooShort
  | invalid
  | outOfRange
  | tooLong
deriving DecidableEq, Repr

def Fault.message : Fault → String
  | tooShort => "premature end of input"
  | invalid => "input contains invalid characters"
  | outOfRange => "input is out of range"
  | tooLong => "trailing input"

/-- A reader of bytes. -/
abbrev Reader := StateT (List UInt8) (Except Fault)

def byte (c : Char) : UInt8 := c.toNat.toUInt8

def isDigit (b : UInt8) : Bool := byte '0' ≤ b && b ≤ byte '9'

/-- Take one byte that fits. -/
def take (fits : UInt8 → Bool) : Reader UInt8 := do
  match ← get with
  | [] => throw .tooShort
  | b :: rest =>
    if fits b then
      set rest
      return b
    else throw .invalid

def skip (c : Char) : Reader Unit := do
  let _ ← take (· == byte c)

/-- Take a decimal number of so many digits. -/
def number : (digits : Nat) → (sofar : Nat) → Reader Nat
  | 0, n => return n
  | digits + 1, n => do
    let b ← take isDigit
    number digits (n * 10 + (b - byte '0').toNat)

/-! ## The calendar -/

def isLeapYear (year : Nat) : Bool := year % 4 == 0 && (year % 100 != 0 || year % 400 == 0)

def daysInMonth (year month : Nat) : Nat :=
  if month = 2 then (if isLeapYear year then 29 else 28)
  else if month = 4 ∨ month = 6 ∨ month = 9 ∨ month = 11 then 30 else 31

def isDate (year month day : Nat) : Bool :=
  1 ≤ month && month ≤ 12 && 1 ≤ day && day ≤ daysInMonth year month

/-! ## The parts -/

/-- The fraction of a second, if there is one: a point and at least one digit. -/
def fraction : Reader Unit := do
  match ← get with
  | b :: rest =>
    if b = byte '.' then
      set rest
      let _ ← take isDigit
      modify (List.dropWhile isDigit)
  | [] => return

/-- Two digits; the first may not be above `top`. -/
def twoDigits (top : Char) : Reader Nat := do
  match ← get with
  | a :: b :: rest =>
    if isDigit a && isDigit b then
      if byte top < a then throw .outOfRange
      set rest
      return (a - byte '0').toNat * 10 + (b - byte '0').toNat
    else throw .invalid
  | _ => throw .tooShort

/-- Hours and minutes behind the sign of an offset; the answer is the hours. -/
def offsetHours : Reader Nat := do
  let hours ← twoDigits '9'
  skip ':'
  let _ ← twoDigits '5'
  return hours

/-- The offset: `Z`, or a sign — the minus sign of typographers too — with hours and minutes. -/
def offset : Reader Nat := do
  match ← get with
  | 0xE2 :: 0x88 :: 0x92 :: rest =>
    set rest
    offsetHours
  | b :: rest =>
    set rest
    if b = byte 'Z' ∨ b = byte 'z' then return 0
    else if b = byte '+' ∨ b = byte '-' then offsetHours
    else throw .invalid
  | [] => throw .tooShort

def timestamp : Reader Unit := do
  if (← get).length < 19 then throw .tooShort
  let year ← number 4 0
  skip '-'
  let month ← number 2 0
  skip '-'
  let day ← number 2 0
  if !isDate year month day then throw .outOfRange
  let _ ← take fun b ↦ b == byte 'T' || b == byte 't' || b == byte ' '
  let hour ← number 2 0
  skip ':'
  let minute ← number 2 0
  skip ':'
  let second ← number 2 0
  fraction
  if 23 < hour || 59 < minute || 60 < second then throw .outOfRange
  let hours ← offset
  if !(← get).isEmpty then throw .tooLong
  if 23 < hours then throw .outOfRange

/-- Whether a text is a timestamp, and if not, why. -/
def check (s : String) : Except Fault Unit := do
  let _ ← timestamp.run (Text.utf8 s)

end Silhouette.Timestamp
